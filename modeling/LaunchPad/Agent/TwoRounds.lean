/-
  LaunchPad.Agent.TwoRounds — plan and apply, twice (`reconcile.rs` `plan_reconcile`,
  `apply_actions`), from any containers, when every command does what it is told.

  The rule: after two rounds each service of the document has as many containers as it
  wants, all running and as the document wants them, with an index each; no other container
  is left; and the next plan does nothing. No replica is made with an index that its service
  has already, and an action touches the containers of its own key only.

  A rollout leaves no container that must be replaced, but it counts the stopped ones and
  keeps those over the number: the second round starts and retires them. Without anything to
  replace, one round is enough (`Served`).

  Proved:
  - `two_rounds`: the rule holds from any containers the agent can have made, as long as no
    rollout comes to the highest index.
  - `surge_takes_index`: there the next index wraps to the lowest, which may be taken.
-/
import LaunchPad.Agent.Availability
import LaunchPad.Agent.Ports
import LaunchPad.Agent.Rounds

namespace LaunchPad.Agent.TwoRounds

open Lib Rounds

/-! ## The rule -/

/-- One round: a plan for the document, and all its actions. Time may pass before, and the
    agent may have come up anew. -/
def Round (nodeId : String) (d : DesiredState) (w w' : Node) : Prop :=
  ∃ v cron res, v.docker = w.docker ∧ v.issued = w.issued ∧
    Runs (working nodeId) (applyActions (planReconcile d w.liveNow cron)).run v (.ret res) w'

/-- The key whose containers an action is about. -/
def actionKey : Action → String
  | .remove key _ => key
  | .create c _ | .start c _ _ | .scaleDown c _ | .rollout c _ | .cronRun c _ _ | .jobRun c _ | .cronSkip c _
  | .backupRun c _ | .noop c => c.key

structure Settled (d : DesiredState) (w : Node) : Prop where
  exact : ∀ c ∈ d.services, Exact c (own c.key w)
  others : ∀ x ∈ w.docker, ∃ c ∈ d.services, c.key = x.replica.key
  quiet : ∀ cron, ∀ a ∈ planReconcile d w.liveNow cron, ∃ c, a = .noop c

/-- The rounds from `w`. -/
structure Converges (nodeId : String) (d : DesiredState) (w : Node) : Prop where
  settled : ∀ w₁ w₂, Round nodeId d w w₁ → Round nodeId d w₁ w₂ → Settled d w₂
  /-- In either round. -/
  fresh : ∀ w₁, w₁ = w ∨ Round nodeId d w w₁ → ∀ v cron c i p b f j k w',
    v.docker = w₁.docker → v.issued = w₁.issued →
    Runs (working nodeId) (applyActions (planReconcile d w₁.liveNow cron)).run v (.act (.runContainer c i p b f j) k) w' →
    ∀ x ∈ own c.key w', x.replica.index ≠ i
  apart : ∀ w₁, w₁ = w ∨ Round nodeId d w w₁ → ∀ v cron l a l' res w' res' w'',
    v.docker = w₁.docker → v.issued = w₁.issued → planReconcile d w₁.liveNow cron = l ++ a :: l' →
    Runs (working nodeId) (applyActions l).run v (.ret res) w' →
    Runs (working nodeId) (applyActions [a]).run w' (.ret res') w'' →
    ∀ key, key ≠ actionKey a → own key w'' = own key w'

/-- Long-running services without backups, each once. -/
structure LongRunning (d : DesiredState) : Prop where
  accepted : desiredStateSchema d = true
  keys : (d.services.map (·.key)).Nodup
  plain : ∀ c ∈ d.services, c.cron = none ∧ c.jobRun = none ∧ c.backup = none

/-- Any containers that the agent manages, with the names it gives. -/
structure Managed (w : Node) : Prop where
  docker : DockerOk w
  labelled : ∀ x ∈ w.docker, labelled x.replica = true
  named : ∀ x ∈ w.docker, x.replica.name = containerName x.replica.project x.replica.service x.replica.index ∧
    '/' ∉ x.replica.project.toList
  index : ∀ x ∈ w.docker, -i64Max - 1 ≤ x.replica.index ∧ x.replica.index ≤ i64Max

/-- Something of the service must be replaced. -/
def Stale (c : ServiceConfig) (o : List Container) : Prop := ∃ x ∈ o, replicaNeedsReplace x.replica c = true

/-- The containers that match already. -/
def matching (c : ServiceConfig) (o : List Container) : Int := (o.filter fun x => !replicaNeedsReplace x.replica c).length

/-- A rollout of these containers does not come to the highest index. -/
def Room (c : ServiceConfig) (o : List Container) : Prop :=
  Stale c o → ∀ x ∈ o, x.replica.index + (c.replicas - matching c o) ≤ i64Max

/-! ## The actions of a service -/

/-- What is planned for replicas that match, after the stopped ones are started. -/
def sized (c : ServiceConfig) (rs : List ManagedReplica) : List Action :=
  if (rs.length : Int) < c.replicas then
    (freeIndices (c.replicas - rs.length).toNat (rs.map (·.index)) 0).map (Action.create c)
  else if (rs.length : Int) > c.replicas then [.scaleDown c (extras rs c.replicas)]
  else if (rs.filter (!·.running)).isEmpty && (rs.length : Int) == c.replicas then [.noop c] else []

theorem planService_plain {c : ServiceConfig} (h : c.cron = none ∧ c.jobRun = none ∧ c.backup = none)
    (rs : List ManagedReplica) (key : String) (cron : Option CronPlanContext) :
    planService c rs key cron = if rs.any (replicaNeedsReplace · c) then [.rollout c rs]
      else (rs.filter (!·.running)).map (fun r => Action.start c r.index r.id) ++ sized c rs := by
  simp [planService, planWorker, planBackupService, h, sized]

/-- Where one round brings the containers of a service. -/
def Served (c : ServiceConfig) (o o' : List Container) : Prop := Good c o' ∧ (¬ Stale c o → Exact c o')

theorem perm_own {w : Node} (h : ∀ x ∈ w.docker, labelled x.replica = true) (key : String) :
    (replicasOf w.liveNow key).Perm ((own key w).map (·.replica)) := by
  have hall : (w.docker.map (·.replica)).filter labelled = w.docker.map (·.replica) := by
    refine List.filter_eq_self.mpr fun r hr => ?_
    obtain ⟨x, hx, rfl⟩ := List.mem_map.mp hr
    exact h x hx
  have hperm := replicasOf_perm w.docker key
  rw [hall, List.filter_map] at hperm
  exact hperm

section Service

variable {nodeId : String} {l : List ManagedReplica} {w : Node} {c : ServiceConfig} {o : List Container} {rs : List ManagedReplica}

/-- A rollout starts below the highest index. -/
theorem rolling_init (hindices : (o.map (·.replica.index)).Nodup) (hrs : rs.Perm (o.map (·.replica))) (hstale : Stale c o)
    (hroom : ∀ x ∈ o, -i64Max - 1 ≤ x.replica.index ∧ x.replica.index + (c.replicas - matching c o) ≤ i64Max) :
    Rolling c (.init c rs) o := by
  have hmem : ∀ {r}, r ∈ rs ↔ ∃ x ∈ o, x.replica = r := fun {r} => hrs.mem_iff.trans List.mem_map
  have hcount : (RolloutState.init c rs).newCount = matching c o := by
    have := (hrs.filter fun r => !replicaNeedsReplace r c).length_eq
    rw [List.filter_map, List.length_map] at this
    exact congrArg Int.ofNat this
  refine ⟨hindices, fun x hx hold => ?_, fun hmore => ?_⟩
  · exact ⟨x.replica, List.mem_filter.mpr ⟨hmem.mpr ⟨x, hx, rfl⟩, hold⟩, rfl⟩
  rw [hcount] at hmore
  have hnext : (∀ x ∈ o, x.replica.index < nextIndex rs) ∧ ∃ x ∈ o, nextIndex rs = x.replica.index + 1 := by
    unfold nextIndex
    cases hmax : (rs.map (·.index)).max? with
    | none =>
      obtain ⟨x, hx, -⟩ := hstale
      rw [List.max?_eq_none_iff, List.map_eq_nil_iff] at hmax
      have := hmem.mpr ⟨x, hx, rfl⟩
      rw [hmax] at this
      cases this
    | some m =>
      obtain ⟨hm, hle⟩ := List.max?_eq_some_iff.mp hmax
      obtain ⟨r, hr, rfl⟩ := List.mem_map.mp hm
      obtain ⟨x, hx, rfl⟩ := hmem.mp hr
      have hexact : i64 (x.replica.index + 1) = x.replica.index + 1 :=
        i64_exact (by have := (hroom x hx).1; omega) (by have := (hroom x hx).2; omega)
      simp only [hexact]
      refine ⟨fun y hy => ?_, x, hx, rfl⟩
      have := hle _ (List.mem_map.mpr ⟨y.replica, hmem.mpr ⟨y, hy, rfl⟩, rfl⟩)
      omega
  obtain ⟨hbelow, x, hx, hnext⟩ := hnext
  have hinit : (RolloutState.init c rs).nextIndex = x.replica.index + 1 := hnext
  rw [hcount, hinit, ← hnext]
  obtain ⟨hlow, hhigh⟩ := hroom x hx
  exact ⟨hbelow, by omega, by omega⟩

/-- Nothing matters to these but what docker does not change. -/
theorem stale_fixed {x y : Container} (h : y.fixed = x.fixed) : replicaNeedsReplace x.replica c = replicaNeedsReplace y.replica c := by
  have himage : y.replica.image = x.replica.image := congrArg (·.replica.image) h
  have hcpu : y.replica.cpu = x.replica.cpu := congrArg (·.replica.cpu) h
  have hmemory : y.replica.memory = x.replica.memory := congrArg (·.replica.memory) h
  have hstamp : y.replica.configStamp = x.replica.configStamp := congrArg (·.replica.configStamp) h
  unfold replicaNeedsReplace
  rw [himage, hcpu, hmemory, hstamp]

theorem map_of_fixed {β : Type} {f : Container → β} (hf : ∀ x, f x.fixed = f x) {o₀ : List Container}
    (h : o.map Container.fixed = o₀.map Container.fixed) : o.map f = o₀.map f := by
  have hmap : ∀ l : List Container, l.map f = (l.map Container.fixed).map f := by
    intro l
    rw [List.map_map]
    exact List.map_congr_left fun x _ => (hf x).symm
  rw [hmap, h, ← hmap]

/-- The containers of before, all running. -/
structure Woken (o₀ o : List Container) : Prop where
  fixed : o.map Container.fixed = o₀.map Container.fixed
  running : ∀ x ∈ o, x.replica.running = true

theorem woken_of_waking {o₀ : List Container} (h : Waking o₀ [] o) : Woken o₀ o := by
  refine ⟨h.fixed, fun x hx => ?_⟩
  cases hrun : x.replica.running with
  | true => rfl
  | false =>
    obtain ⟨r, hr, -⟩ := h.stopped x hx hrun
    cases hr

theorem Woken.good {o₀ : List Container} (h : Woken o₀ o) (hgood : Good c o₀) : Good c o where
  indices := by
    rw [map_of_fixed (fun _ => rfl) h.fixed]
    exact hgood.indices
  current x hx := by
    have hm : x.fixed ∈ o₀.map Container.fixed := h.fixed ▸ List.mem_map.mpr ⟨x, hx, rfl⟩
    obtain ⟨y, hy, hfix⟩ := List.mem_map.mp hm
    rw [stale_fixed hfix]
    exact hgood.current y hy

theorem Woken.length {o₀ : List Container} (h : Woken o₀ o) : o.length = o₀.length := by
  have := congrArg List.length h.fixed
  rwa [List.length_map, List.length_map] at this

theorem own_ids (h : DockerOk w) (key : String) : ((own key w).map (·.replica.id)).Nodup :=
  h.ids.sublist (List.filter_sublist.map _)

variable {v : Node} {k : String}

theorem does_one {C : ServiceConfig → Int → Node → Prop} {P : List Container → Prop} {a : Action}
    (h : Does nodeId C l k v (fun _ => P) (applyOne a) w) : Does nodeId C l k v (fun _ => P) (forM [a] applyIsolated) w := by
  rw [List.forM_cons]
  exact (does_isolated h).bind fun _ w h => does_pure h

/-- The rest of the plan of a service whose containers match and run. -/
theorem does_sized {o₀ : List Container} (h : Turn l k v (Woken o₀) w) (hk : c.key = k)
    (hlabel : c.project ≠ "" ∧ c.service ≠ "") (hwant : 1 ≤ c.replicas) (hgood : Good c o₀)
    (hrs : rs.Perm (o₀.map (·.replica))) (hl : Among l k rs) :
    Does nodeId Unused l k v (fun _ => Exact c) (forM (sized c rs) applyIsolated) w := by
  have hgood' := h.mine.good hgood
  have hlength : rs.length = (own k w).length := by
    rw [h.mine.length, hrs.length_eq, List.length_map]
  have hindices : rs.map (·.index) |>.Perm ((own k w).map (·.replica.index)) := by
    have := hrs.map (·.index)
    rw [List.map_map] at this
    exact this.trans (List.Perm.of_eq (map_of_fixed (fun _ => rfl) h.mine.fixed.symm))
  unfold sized
  split
  · rename_i hfew
    obtain ⟨hcount, hfree⟩ := freeIndices_spec (c.replicas - rs.length).toNat (rs.map (·.index)) 0
    refine does_creates ⟨h.toBetween, h.others, ?_, hgood'.current, h.mine.running, ?_⟩ hk hlabel
    · rw [← (hindices.append_right _).nodup_iff]
      exact hfree (hindices.nodup_iff.mpr hgood'.indices)
    · rw [hcount]
      omega
  · split
    · rename_i hmany
      have hsub : (extras rs c.replicas).Subset rs :=
        fun r hr => (List.mergeSort_perm _ _).mem_iff.mp (List.mem_of_mem_take hr)
      have hcount : ((extras rs c.replicas).length : Int) = rs.length - c.replicas := by
        rw [extras, List.length_take, List.length_mergeSort]
        omega
      have hids := own_ids h.docker k
      refine does_one (does_scaleDown ⟨h.toBetween, h.others, hgood', h.mine.running, ?_, hids, ?_, ?_⟩ fun r hr => hl r (hsub hr))
      · rw [hcount]
        omega
      · have hrsids : (rs.map (·.id)).Nodup := by
          have := hrs.map (·.id)
          rw [List.map_map] at this
          rw [this.nodup_iff, map_of_fixed (fun _ => rfl) h.mine.fixed.symm]
          exact hids
        have hsorted : ((rs.mergeSort fun a b => decide (b.index ≤ a.index)).map (·.id)).Nodup :=
          ((List.mergeSort_perm _ _).map _).nodup_iff.mpr hrsids
        exact hsorted.sublist ((List.take_sublist _ _).map _)
      · intro r hr
        obtain ⟨y, hy, rfl⟩ := List.mem_map.mp (hrs.mem_iff.mp (hsub hr))
        have hm : y.fixed ∈ (own k w).map Container.fixed := h.mine.fixed ▸ List.mem_map.mpr ⟨y, hy, rfl⟩
        obtain ⟨x, hx, hfix⟩ := List.mem_map.mp hm
        exact ⟨x, hx, (same_of_fixed hfix).id⟩
    · rename_i hfew hmany
      have hexact : Exact c (own k w) := ⟨hgood', by omega, h.mine.running⟩
      have hdone : Turn l k v (Exact c) w := ⟨h.toBetween, h.others, hexact⟩
      split
      · exact does_one (does_pure hdone)
      · exact does_pure hdone

/-- The whole plan of a service. -/
theorem does_service {cron : Option CronPlanContext} (hplain : c.cron = none ∧ c.jobRun = none ∧ c.backup = none)
    (hlabel : c.project ≠ "" ∧ c.service ≠ "") (hwant : 1 ≤ c.replicas) (h : Turn l c.key v (· = o) w)
    (hindices : (o.map (·.replica.index)).Nodup) (hrs : rs.Perm (o.map (·.replica))) (hl : Among l c.key rs)
    (hroom : Stale c o → ∀ x ∈ o, -i64Max - 1 ≤ x.replica.index ∧ x.replica.index + (c.replicas - matching c o) ≤ i64Max) :
    Does nodeId Unused l c.key v (fun _ => Served c o) (forM (planService c rs c.key cron) applyIsolated) w := by
  have hmem : ∀ {r}, r ∈ rs ↔ ∃ x ∈ o, x.replica = r := fun {r} => hrs.mem_iff.trans List.mem_map
  have hmine := h.mine
  rw [planService_plain hplain]
  split
  · rename_i hany
    obtain ⟨r, hr, hold⟩ := List.any_eq_true.mp hany
    obtain ⟨x, hx, rfl⟩ := hmem.mp hr
    have hstale : Stale c o := ⟨x, hx, hold⟩
    have hinit := rolling_init hindices hrs hstale (hroom hstale)
    refine does_one ((does_rolloutService (rolling_rule c) ⟨h.toBetween, h.others, hmine ▸ hinit⟩ rfl hlabel hl).weaken ?_)
    rintro - o ⟨s, hq, hrolling⟩
    exact ⟨hrolling.good hq, fun hno => absurd hstale hno⟩
  · rename_i hany
    have hfresh : ∀ x ∈ o, replicaNeedsReplace x.replica c = false := by
      intro x hx
      rw [← Bool.not_eq_true]
      exact fun hold => hany (List.any_eq_true.mpr ⟨_, hmem.mpr ⟨x, hx, rfl⟩, hold⟩)
    have hgood : Good c o := ⟨hindices, hfresh⟩
    have hlstopped : Among l c.key (rs.filter (!·.running)) := fun r hr => hl r (List.mem_filter.mp hr).1
    have hwaking : Turn l c.key v (Waking o (rs.filter (!·.running))) w := by
      refine ⟨h.toBetween, h.others, by rw [hmine], fun x hx hstop => ?_⟩
      rw [hmine] at hx
      exact ⟨x.replica, List.mem_filter.mpr ⟨hmem.mpr ⟨x, hx, rfl⟩, by simp [hstop]⟩, rfl⟩
    rw [List.forM_append]
    refine (does_starts hwaking hlstopped).bind fun _ w h => ?_
    have hwoken : Turn l c.key v (Woken o) w := ⟨h.toBetween, h.others, woken_of_waking h.mine⟩
    exact (does_sized hwoken rfl hlabel hwant hgood hrs hl).weaken fun _ _ ho => ⟨ho.toGood, fun _ => ho⟩

end Service

/-! ## A round -/

section Round

variable {nodeId : String} {d : DesiredState} {w v : Node} {cron : Option CronPlanContext}

/-- The replicas as the planner sees them. -/
def listing (w : Node) : List ManagedReplica := w.docker.map (·.replica)

/-- The actions of a plan, by the key they are about. -/
def parts (d : DesiredState) (w : Node) (cron : Option CronPlanContext) : List (String × List Action) :=
  d.services.map (fun c => (c.key, planService c (replicasOf w.liveNow c.key) c.key cron)) ++
    (w.liveNow.filter fun e => !(d.services.map (·.key)).contains e.1).map fun e => (e.1, [.remove e.1 e.2])

theorem planReconcile_eq_parts : planReconcile d w.liveNow cron = (parts d w cron).flatMap (·.2) := by
  have hleft : ∀ l : List (String × List ManagedReplica),
      (l.map fun e => (e.1, [Action.remove e.1 e.2])).flatMap (·.2) = l.map fun e => Action.remove e.1 e.2 := by
    intro l
    rw [List.flatMap_map]
    exact List.flatMap_pure_eq_map ..
  rw [parts, List.flatMap_append, List.flatMap_map, hleft]
  rfl

theorem parts_nodup (h : (d.services.map (·.key)).Nodup) : ((parts d w cron).map (·.1)).Nodup := by
  rw [parts, List.map_append, List.map_map, List.map_map, List.nodup_append]
  refine ⟨h, ?_, fun a ha b hb hab => ?_⟩
  · exact (inspectManaged_sorted w.docker).nodup.sublist (List.filter_sublist.map _)
  · obtain ⟨e, he, rfl⟩ := List.mem_map.mp hb
    have hout := (List.mem_filter.mp he).2
    simp only [Bool.not_eq_true', List.contains_eq_mem, decide_eq_false_iff_not] at hout
    have hkey : a = e.1 := hab
    exact hout (hkey ▸ ha)

/-- The groups of a listing, each with a container at least. -/
theorem live_nonempty {key : String} {rs : List ManagedReplica} (h : (key, rs) ∈ w.liveNow) : rs ≠ [] := by
  have hfold : ∀ (l : List ManagedReplica) (m : Live), (∀ e ∈ m, e.2 ≠ []) → ∀ e ∈ l.foldl pushReplica m, e.2 ≠ [] := by
    intro l
    induction l with
    | nil => exact fun m h => h
    | cons r l ih =>
      intro m h
      refine ih _ fun e he => ?_
      rcases SortedMap.mem_insert he with rfl | he
      · exact fun hnil => by simp at hnil
      · exact h e he
  obtain ⟨e, he, hsame⟩ := List.mem_map.mp h
  cases hsame
  have := hfold _ [] (fun _ h => by cases h) e he
  exact fun hnil => this (List.length_eq_zero_iff.mp (by rw [← List.length_mergeSort, ← byIndex, hnil]; rfl))

/-- After the round: every service is served, and nothing else is left. -/
structure Done (d : DesiredState) (w w' : Node) : Prop where
  kept : Between (listing w) w'
  served : ∀ c ∈ d.services, Served c (own c.key w) (own c.key w')
  others : ∀ x ∈ w'.docker, ∃ c ∈ d.services, c.key = x.replica.key

/-- What a round needs to find. -/
structure Ready (d : DesiredState) (w : Node) : Prop where
  docker : DockerOk w
  labelled : ∀ x ∈ w.docker, labelled x.replica = true
  indices : ∀ c ∈ d.services, ((own c.key w).map (·.replica.index)).Nodup
  room : ∀ c ∈ d.services, Stale c (own c.key w) →
    ∀ x ∈ own c.key w, -i64Max - 1 ≤ x.replica.index ∧ x.replica.index + (c.replicas - matching c (own c.key w)) ≤ i64Max

theorem Ready.kept (h : Ready d w) (hd : v.docker = w.docker) (hi : v.issued = w.issued) : Between (listing w) v where
  docker := h.docker.congr hd hi
  recalled := by
    refine recalled_live (h.docker.congr hd hi) fun r hr => ?_
    rw [hd]
    exact List.mem_map.mp hr
  labelled := by
    rw [hd]
    exact h.labelled

theorem listed_group (key : String) : Among (listing w) key (replicasOf w.liveNow key) := by
  intro r hr
  obtain ⟨⟨x, hx, rfl⟩, -, hkey⟩ := mem_replicasOf.mp hr
  exact ⟨List.mem_map.mpr ⟨x, hx, rfl⟩, hkey⟩

theorem accepted_service {c : ServiceConfig} (h : LongRunning d) (hc : c ∈ d.services) :
    (c.project ≠ "" ∧ c.service ≠ "") ∧ 1 ≤ c.replicas := by
  have hschema := h.accepted
  simp only [desiredStateSchema, Bool.and_eq_true, List.all_eq_true] at hschema
  refine ⟨?_, (serviceConfigSchema_sized (hschema.2 c hc)).replicas⟩
  have := hschema.2 c hc
  simp only [serviceConfigSchema, Bool.and_eq_true] at this
  obtain ⟨⟨⟨⟨⟨⟨⟨⟨⟨⟨⟨⟨⟨⟨hproject, hservice⟩, _⟩, _⟩, _⟩, _⟩, _⟩, _⟩, _⟩, _⟩, _⟩, _⟩, _⟩, _⟩, _⟩ := this
  exact ⟨by simpa using hproject, by simpa using hservice⟩

/-- One round, from any containers with an index each. -/
theorem sat_round (hd : LongRunning d) (hw : Ready d w) (hdocker : v.docker = w.docker) (hissued : v.issued = w.issued) :
    Sat (working nodeId) (Creates Unused) (onResult (fun _ => Done d w) fun _ _ => False)
      (applyActions (planReconcile d w.liveNow cron)).run v := by
  let first : String → List Container := fun key => own key w
  have hown : ∀ key, own key v = first key := fun key => by rw [own, hdocker, ← own]
  have hgroup : ∀ e ∈ w.liveNow, e.2 = replicasOf w.liveNow e.1 := fun e he => group_eq he
  let Q : String → List Container → Prop := fun key o =>
    (∀ c ∈ d.services, c.key = key → Served c (own key w) o) ∧ ((∀ c ∈ d.services, c.key ≠ key) → o = [])
  have hworks : ∀ e ∈ parts d w cron, ∀ w', Between (listing w) w' → own e.1 w' = first e.1 →
      WorksOn (working nodeId) own (Between (listing w)) (Creates Unused) e.1 (Q e.1) (forM e.2 applyIsolated) w' := by
    -- a key's own actions, wherever in the plan they stand
    intro e he w' hkept hstart
    rcases List.mem_append.mp he with he | he
    · obtain ⟨c, hc, rfl⟩ := List.mem_map.mp he
      obtain ⟨hlabel, hwant⟩ := accepted_service hd hc
      have hdoes : Does nodeId Unused (listing w) c.key w' (fun _ => Served c (own c.key w))
          (forM (planService c (replicasOf w.liveNow c.key) c.key cron) applyIsolated) w' :=
        does_service (hd.plain c hc) hlabel hwant ⟨hkept, fun _ _ => rfl, hstart⟩ (hw.indices c hc) (perm_own hw.labelled c.key)
          (listed_group c.key) (hw.room c hc)
      refine hdoes.mono (fun _ _ h => h) fun res w'' h => ?_
      cases res with
      | error e => exact h
      | ok u =>
        refine ⟨h.toBetween, ⟨fun c' hc' hk => ?_, fun hno => absurd rfl (hno c hc)⟩, h.others⟩
        obtain rfl := List.inj_on_of_nodup_map hd.keys hc' hc hk
        exact h.mine
    · obtain ⟨g, hg, rfl⟩ := List.mem_map.mp he
      obtain ⟨hlive, hout⟩ := List.mem_filter.mp hg
      simp only [Bool.not_eq_true', List.contains_eq_mem, decide_eq_false_iff_not] at hout
      have hrs := hgroup g hlive
      have hleaving : Turn (listing w) g.1 w' (Leaving g.2) w' := by
        refine ⟨hkept, fun _ _ => rfl, fun x hx => ?_⟩
        rw [hstart] at hx
        refine ⟨x.replica, ?_, rfl⟩
        rw [hrs]
        exact (perm_own hw.labelled g.1).mem_iff.mpr (List.mem_map.mpr ⟨x, hx, rfl⟩)
      have hremoves : Does nodeId Unused (listing w) g.1 w' (fun _ o => o = []) (applyOne (.remove g.1 g.2)) w' :=
        does_removes hleaving (hrs ▸ listed_group g.1)
      have hdoes := does_one hremoves
      refine hdoes.mono (fun _ _ h => h) fun res w'' h => ?_
      cases res with
      | error e => exact h
      | ok u =>
        refine ⟨h.toBetween, ⟨fun c hc hk => ?_, fun _ => h.mine⟩, h.others⟩
        exact absurd (List.mem_map.mpr ⟨c, hc, hk⟩) hout
  rw [planReconcile_eq_parts]
  refine (sat_parts (fun _ _ h => h) (parts_nodup hd.keys) hworks (hw.kept hdocker hissued) fun e _ => hown e.1).mono
    (fun _ _ h => h) ?_
  -- every key is one of the plan's, or has no containers
  intro res w' h
  cases res with
  | error e => exact h
  | ok u =>
    obtain ⟨hkept, hall, hrest⟩ := h
    refine ⟨hkept, fun c hc => ?_, fun x hx => ?_⟩
    · have hm : (c.key, planService c (replicasOf w.liveNow c.key) c.key cron) ∈ parts d w cron :=
        List.mem_append_left _ (List.mem_map.mpr ⟨c, hc, rfl⟩)
      exact (hall _ hm).1 c hc rfl
    · by_contra hno
      have hno : ∀ c ∈ d.services, c.key ≠ x.replica.key := fun c hc hk => hno ⟨c, hc, hk⟩
      have hmine : x ∈ own x.replica.key w' := mem_own.mpr ⟨hx, rfl⟩
      by_cases hin : x.replica.key ∈ (parts d w cron).map (·.1)
      · obtain ⟨e, he, hk⟩ := List.mem_map.mp hin
        have hnil := (hall e he).2 (hk ▸ hno)
        rw [hk] at hnil
        rw [hnil] at hmine
        cases hmine
      · -- it would have been there, and listed
        rw [hrest _ hin, hown] at hmine
        refine hin ?_
        have hr := (perm_own hw.labelled x.replica.key).mem_iff.mpr (List.mem_map.mpr ⟨x, hmine, rfl⟩)
        unfold replicasOf at hr
        cases hget : SortedMap.get x.replica.key w.liveNow with
        | none =>
          rw [hget] at hr
          cases hr
        | some rs =>
          refine List.mem_map.mpr ⟨(x.replica.key, [.remove x.replica.key rs]), List.mem_append_right _ ?_, rfl⟩
          refine List.mem_map.mpr ⟨(x.replica.key, rs), List.mem_filter.mpr ⟨SortedMap.get_mem hget, ?_⟩, rfl⟩
          simp only [Bool.not_eq_true', List.contains_eq_mem, decide_eq_false_iff_not, List.mem_map, not_exists, not_and]
          exact hno

/-! ## Single actions -/

theorem any_rule (c : ServiceConfig) : LoopRule (fun _ _ _ => True) c fun _ _ => True where
  free _ _ _ _ _ _ := trivial
  surged _ _ _ _ _ _ := trivial
  drained _ _ _ _ _ _ := trivial

/-- An action of the plan leaves the containers of other keys alone, whatever was done before. -/
theorem sat_action (hd : LongRunning d) {a : Action} (ha : a ∈ planReconcile d w.liveNow cron) (hv : Between (listing w) v) :
    Does nodeId (fun _ _ _ => True) (listing w) (actionKey a) v (fun _ _ => True) (applyIsolated a) v := by
  have hturn : ∀ key, Turn (listing w) key v (fun _ => True) v := fun key => ⟨hv, fun _ _ => rfl, trivial⟩
  refine does_isolated ?_
  rcases mem_planReconcile.mp ha with ⟨c, hc, ha⟩ | ⟨key, rs, hgroup, -, rfl⟩
  · obtain ⟨hlabel, -⟩ := accepted_service hd hc
    have hl := listed_group (w := w) c.key
    rw [planService_plain (hd.plain c hc)] at ha
    split at ha
    · obtain rfl := List.mem_singleton.mp ha
      exact (does_rolloutService (any_rule c) (hturn _) rfl hlabel hl).weaken fun _ _ _ => trivial
    rcases List.mem_append.mp ha with ha | ha
    · obtain ⟨r, hr, rfl⟩ := List.mem_map.mp ha
      obtain ⟨hm, hk⟩ := hl r (List.mem_filter.mp hr).1
      exact does_start (hturn _) hm hk fun _ _ => trivial
    unfold sized at ha
    split at ha
    · obtain ⟨i, -, rfl⟩ := List.mem_map.mp ha
      exact does_create (hturn _) rfl hlabel (fun _ _ => trivial) fun _ _ _ _ => trivial
    split at ha
    · obtain rfl := List.mem_singleton.mp ha
      have hlisted : Among (listing w) c.key (extras (replicasOf w.liveNow c.key) c.replicas) :=
        fun r hr => hl r ((List.mergeSort_perm _ _).mem_iff.mp (List.mem_of_mem_take hr))
      refine (does_each (J := fun rest _ => Among (listing w) c.key rest) (fun r rest u h => ?_)
        ⟨hv, fun _ _ => rfl, hlisted⟩).weaken fun _ _ _ => trivial
      exact Does.bind (does_remove h h.mine.head.1 h.mine.head.2 fun _ ho => ho.tail) fun _ u h => does_release h _ _
    · split at ha
      · obtain rfl := List.mem_singleton.mp ha
        exact does_pure (hturn _)
      · cases ha
  · have hl : Among (listing w) key rs := (group_eq hgroup) ▸ listed_group key
    refine (does_each (J := fun rest _ => Among (listing w) key rest) (fun r rest u h => ?_)
      ⟨hv, fun _ _ => rfl, hl⟩).weaken fun _ _ _ => trivial
    exact does_remove h h.mine.head.1 h.mine.head.2 fun _ ho => ho.tail

/-- So does every part of the plan, for the node as a whole. -/
theorem sat_actions (hd : LongRunning d) {l : List Action} (hl : ∀ a ∈ l, a ∈ planReconcile d w.liveNow cron)
    (hv : Between (listing w) v) :
    Sat (working nodeId) (Creates fun _ _ _ => True) (onResult (fun _ => Between (listing w)) fun _ _ => False)
      (applyActions l).run v := by
  refine Sat.forM (working_stable _) (fun _ => working_stable _) l applyIsolated (fun a ha u hu => ?_) hv
  refine (sat_action hd (hl a ha) hu).mono (fun _ _ h => h) fun res u' h => ?_
  cases res with
  | error e => exact h
  | ok x => exact h.toBetween

end Round

/-! ## Two rounds -/

section Rounds

variable {nodeId : String} {d : DesiredState} {w w₁ : Node}

theorem managed_ready (hw : Managed w) (hroom : ∀ c ∈ d.services, Room c (own c.key w)) : Ready d w where
  docker := hw.docker
  labelled := hw.labelled
  indices c _ := by
    -- the names tell the indices of a key apart
    refine List.Nodup.map_on (fun x hx y hy hindex => ?_) (hw.docker.ids.of_map.filter _)
    obtain ⟨hx, hkx⟩ := mem_own.mp hx
    obtain ⟨hy, hky⟩ := mem_own.mp hy
    obtain ⟨hnx, hsx⟩ := hw.named x hx
    obtain ⟨hny, hsy⟩ := hw.named y hy
    obtain ⟨hproject, hservice⟩ := Ports.serviceKey_inj hsx hsy (hkx.trans hky.symm)
    refine List.inj_on_of_nodup_map hw.docker.names hx hy ?_
    rw [hnx, hny, hproject, hservice, hindex]
  room c hc hstale x hx := ⟨(hw.index x (mem_own.mp hx).1).1, hroom c hc hstale x hx⟩

/-- What a round leaves, the next can start from: nothing must be replaced any more. -/
theorem Done.ready (h : Done d w w₁) : Ready d w₁ where
  docker := h.kept.docker
  labelled := h.kept.labelled
  indices c hc := (h.served c hc).1.indices
  room c hc hstale := by
    obtain ⟨x, hx, hold⟩ := hstale
    rw [(h.served c hc).1.current x hx] at hold
    cases hold

theorem round_done (hd : LongRunning d) (hw : Ready d w) (h : Round nodeId d w w₁) : Done d w w₁ := by
  obtain ⟨v, cron, res, hdocker, hissued, hruns⟩ := h
  have hend := (Sat.runs hruns (sat_round hd hw hdocker hissued)).atRet
  cases res with
  | error e => exact hend.elim
  | ok u => exact hend

/-- With nothing to replace, the round is enough. -/
theorem Done.settled (hd : LongRunning d) (hno : ∀ c ∈ d.services, ¬ Stale c (own c.key w))
    (h : Done d w w₁) : Settled d w₁ := by
  have hexact : ∀ c ∈ d.services, Exact c (own c.key w₁) := fun c hc => (h.served c hc).2 (hno c hc)
  refine ⟨hexact, h.others, fun cron a ha => ?_⟩
  rcases mem_planReconcile.mp ha with ⟨c, hc, ha⟩ | ⟨key, rs, hgroup, hout, rfl⟩
  · have hperm := perm_own h.kept.labelled c.key
    have hmem : ∀ {r}, r ∈ replicasOf w₁.liveNow c.key → ∃ x ∈ own c.key w₁, x.replica = r :=
      fun hr => List.mem_map.mp (hperm.mem_iff.mp hr)
    have hfresh : (replicasOf w₁.liveNow c.key).any (replicaNeedsReplace · c) = false := by
      rw [List.any_eq_false]
      intro r hr
      obtain ⟨x, hx, rfl⟩ := hmem hr
      simp [(hexact c hc).current x hx]
    have hup : (replicasOf w₁.liveNow c.key).filter (!·.running) = [] := by
      refine List.filter_eq_nil_iff.mpr fun r hr => ?_
      obtain ⟨x, hx, rfl⟩ := hmem hr
      simp [(hexact c hc).running x hx]
    have hlength : ((replicasOf w₁.liveNow c.key).length : Int) = c.replicas := by
      rw [hperm.length_eq, List.length_map]
      exact (hexact c hc).count
    rw [planService_plain (hd.plain c hc), hfresh, hup] at ha
    simp only [sized, hlength, hup, Bool.false_eq_true, if_false, List.map_nil, List.nil_append, lt_irrefl, List.isEmpty_nil, beq_self_eq_true, Bool.and_true, if_true, List.mem_singleton] at ha
    exact ⟨c, ha⟩
  · obtain ⟨r, hr⟩ := List.exists_mem_of_ne_nil rs (live_nonempty hgroup)
    obtain ⟨x, hx, hxr⟩ := mem_inspectManaged hgroup hr
    rw [group_eq hgroup] at hr
    have hkey := (mem_replicasOf.mp hr).2.2
    obtain ⟨c, hc, hk⟩ := h.others x hx
    exact absurd (by rw [hk, hxr, hkey]) (hout c hc)

/-- The rule. -/
theorem two_rounds (hd : LongRunning d) (hw : Managed w) (hroom : ∀ c ∈ d.services, Room c (own c.key w)) :
    Converges nodeId d w := by
  have hready := managed_ready hw hroom
  have hnext : ∀ w₁, w₁ = w ∨ Round nodeId d w w₁ → Ready d w₁ := by
    rintro w₁ (rfl | hround)
    · exact hready
    · exact (round_done hd hready hround).ready
  refine ⟨fun w₁ w₂ h₁ h₂ => ?_, fun w₁ hw₁ v cron c i p b f j k w' hdocker hissued hruns => ?_,
    fun w₁ hw₁ v cron l a l' res w' res' w'' hdocker hissued hplan hbefore hruns key hkey => ?_⟩
  · have hdone := round_done hd hready h₁
    refine (round_done hd hdone.ready h₂).settled hd fun c hc hstale => ?_
    obtain ⟨x, hx, hold⟩ := hstale
    rw [(hdone.served c hc).1.current x hx] at hold
    cases hold
  · exact (Sat.runs hruns (sat_round hd (hnext w₁ hw₁) hdocker hissued)).atAct
  · have hmem : ∀ b ∈ l ++ [a], b ∈ planReconcile d w₁.liveNow cron := by
      intro b hb
      rw [hplan]
      rcases List.mem_append.mp hb with hb | hb
      · exact List.mem_append_left _ hb
      · exact List.mem_append_right _ (List.mem_singleton.mp hb ▸ List.mem_cons_self ..)
    have hstart := (hnext w₁ hw₁).kept hdocker hissued
    have hmid := (Sat.runs hbefore (sat_actions hd (fun b hb => hmem b (List.mem_append_left _ hb)) hstart)).atRet
    cases res with
    | error e => exact hmid.elim
    | ok u =>
      have hone : Does nodeId (fun _ _ _ => True) (listing w₁) (actionKey a) w' (fun _ _ => True) (applyIsolated a) w' :=
        sat_action hd (hmem a (List.mem_append_right _ (List.mem_singleton_self a))) hmid
      have hall : Does nodeId (fun _ _ _ => True) (listing w₁) (actionKey a) w' (fun _ _ => True) (applyActions [a]) w' := by
        rw [applyActions, List.forM_cons]
        exact hone.bind fun _ _ h => does_pure h
      have hend := (Sat.runs hruns hall).atRet
      cases res' with
      | error e => exact hend.elim
      | ok u => exact hend.others key hkey

end Rounds

/-! ### A worker -/

def webDocument : DesiredState := ⟨protocolVersion, "n1", "2026-01-01T00:00:00.000Z", [{ webV2 with replicas := 2 }]⟩

/-- Replicas of the old image at two indices. -/
def webNode (low high : Int) : Node :=
  { Node.fresh 0 with
    docker := [⟨webReplica "a" low "web:1" .running, [], true, false⟩, ⟨webReplica "b" high "web:1" .exited, [], true, false⟩]
    issued := ["a", "b"] }

theorem webDocument_longRunning : LongRunning webDocument := by
  refine ⟨by decide, by decide, fun c hc => ?_⟩
  obtain rfl := List.mem_singleton.mp hc
  exact ⟨rfl, rfl, rfl⟩

theorem two_rounds_web : Converges "n1" webDocument (webNode 0 7) := by
  refine two_rounds webDocument_longRunning ⟨⟨by decide, by decide, by decide⟩, by decide, by decide, by decide⟩ fun c hc => ?_
  obtain rfl := List.mem_singleton.mp hc
  exact fun _ => by decide

/-- After the highest index comes the lowest. -/
theorem surge_takes_index : ¬ Converges "n1" webDocument (webNode (-i64Max - 1) i64Max) := by
  intro h
  let c : ServiceConfig := { webV2 with replicas := 2 }
  let rs := [webReplica "a" (-i64Max - 1) "web:1" .running, webReplica "b" i64Max "web:1" .exited]
  have hlive : (webNode (-i64Max - 1) i64Max).liveNow = [(c.key, rs)] := by
    have hsorted : byIndex rs = rs := List.mergeSort_of_pairwise (by decide)
    rw [← hsorted]
    rfl
  have hplan : planReconcile webDocument [(c.key, rs)] none = [.rollout c rs] :=
    planReconcile_rollout none rfl rfl rfl (by decide)
  have hsurge : (RolloutState.init c rs).canSurge c = true := by decide
  have hpull : (working "n1").sem (.pull "web:2") (webNode (-i64Max - 1) i64Max) (.ok ()) (webNode (-i64Max - 1) i64Max) :=
    ⟨rfl, rfl⟩
  have hservice : ∃ k, Runs (working "n1") (rolloutService c rs).run (webNode (-i64Max - 1) i64Max)
      (.act (.runContainer c (nextIndex rs) none "127.0.0.1" none none) k) (webNode (-i64Max - 1) i64Max) := by
    unfold rolloutService
    rw [rolloutLoop, dif_pos hsurge]
    exact ⟨_, .act hpull (.refl _ _)⟩
  obtain ⟨k, hservice⟩ := hservice
  have hruns : ∃ k, Runs (working "n1") (applyActions [.rollout c rs]).run (webNode (-i64Max - 1) i64Max)
      (.act (.runContainer c (nextIndex rs) none "127.0.0.1" none none) k) (webNode (-i64Max - 1) i64Max) :=
    ⟨_, (hservice.bind _).bind _⟩
  obtain ⟨k, hruns⟩ := hruns
  rw [← hlive] at hplan
  have hfresh := h.fresh _ (.inl rfl) (webNode (-i64Max - 1) i64Max) none c (nextIndex rs) none "127.0.0.1" none none _ _ rfl rfl
    (hplan ▸ hruns)
  exact hfresh _ (mem_own.mpr ⟨List.mem_cons_self .., rfl⟩) (by decide)

end LaunchPad.Agent.TwoRounds
