/-
  LaunchPad.Agent.Draining — no replica is taken away while an edge routes to it. A
  rollout stops a replica only after it has published shards without it and slept its
  drain time (`reconcile.rs`, `rollout_service`: "stop routing to it before stopping it").
  The other actions that retire replicas remove them at once.

  `History.listed` says which containers each edge's stored shard was last built from, and
  `History.waited` how long the agent has slept since a container was last listed.

  Proved:
  - `plan_takes_drained`: from every state of every run, whatever the commands of the plan
    answer, every running container that the plan stops or removes is drained, if the plan
    has no retirement outside the discipline (`PlanDrains`).
  - `withdrawn_replica_is_removed_while_routed`: a document without the service. Its
    replica is removed while the shard of its edge lists it.

  The invariant (`Steady`) follows the containers the plan started from: which of them may
  run by now, and that those no edge lists stay so unless an action may publish them.
-/
import LaunchPad.Agent.Gating

namespace LaunchPad.Agent

open Lib Reconciler

/-! ## Taking a container away -/

/-- `n` milliseconds are enough: the agent's floor, and the drain time of the desired
    service of the key. -/
def Enough (d : DesiredState) (key : String) (n : Nat) : Prop :=
  remoteEdgeDrainFloorMs ≤ n ∧
  ((∃ c ∈ d.services, c.key = key) → ∃ c ∈ d.services, c.key = key ∧ drainWaitMs c ≤ n)

/-- No edge's shard lists the container; if one ever did, the drain time was slept since. -/
def Drained (d : DesiredState) (h : History) (x : Container) : Prop :=
  x.replica.id ∉ h.routed ∧ ∀ n, SortedMap.get x.replica.id h.waited = some n → Enough d x.replica.key n

def Takes : Op → Container → Prop
  | .stopContainer container _, x => container.picks x = true
  | .removeContainer id, x => hasId id x = true
  | _, _ => False

/-- A command stops or removes running containers only when they are drained. -/
def TakesDrained (o : Op) (w : Node) : Prop :=
  ∀ x ∈ w.docker, Takes o x → x.replica.running = true → Drained w.desired w.history x

/-! ## What a plan may take -/

/-- The replicas an action stops or removes by their ids. -/
def Action.retires : Action → List ManagedReplica
  | .rollout c rs => rs.filter (replicaNeedsReplace · c)
  | a => a.replicas

/-- Only the rollout of a web service publishes. -/
def Action.publishes : Action → Bool
  | .rollout c _ => c.ingress.isSome
  | _ => false

/-- After the actions `l`, the container may run. -/
def MayRun (l : List Action) (x : Container) : Prop := x.mayServe ∨ ∃ c i, Action.start c i x.replica.id ∈ l

/-- A publish of the document lists the container when it runs. -/
def Listable (d : DesiredState) (x : Container) : Prop :=
  x.replica.hostPort.isSome = true ∧ ∃ c ∈ d.services, c.key = x.replica.key ∧ c.ingress.isSome = true

/-- The container is drained, and none of the actions `l` may list it again. -/
def Unrouted (w : Node) (l : List Action) (x : Container) : Prop :=
  Drained w.desired w.history x ∧ ((∃ a ∈ l, a.publishes = true) → ¬ Listable w.desired x)

/-- What the last action of `l` takes: the rollout of a web service drains for itself, as
    far as the document's edges go; any other action must find its containers unrouted. -/
def ActionDrains (w : Node) (l : List Action) (a : Action) : Prop :=
  ∀ x ∈ w.docker, x.replica ∈ a.retires → MayRun l x →
    if a.publishes = true then
      ∀ edge ids, edge ∉ edgesOf w.desired → SortedMap.get edge w.history.listed = some ids → x.replica.id ∉ ids
    else Unrouted w l x

def PlanDrains (w : Node) (plan : List Action) : Prop :=
  ∀ l₁ a l₂, plan = l₁ ++ a :: l₂ → ActionDrains w (l₁ ++ [a]) a

/-! ## The record of what is routed -/

theorem mem_routed {h : History} {id : String} :
    id ∈ h.routed ↔ ∃ edge ids, SortedMap.get edge h.listed = some ids ∧ id ∈ ids := by
  unfold History.routed
  rw [List.mem_flatMap]
  constructor
  · rintro ⟨edge, -, hid⟩
    cases he : SortedMap.get edge h.listed with
    | none => rw [he] at hid; cases hid
    | some ids => rw [he] at hid; exact ⟨edge, ids, he, hid⟩
  · rintro ⟨edge, ids, he, hid⟩
    refine ⟨edge, List.mem_map.mpr ⟨_, SortedMap.get_mem he, rfl⟩, ?_⟩
    rw [he]
    exact hid

theorem get_listed_published (h : History) (edges : List String) (ids : String → List String) (edge : String) :
    SortedMap.get edge (h.published edges ids).listed =
      if edge ∈ edges then some (ids edge) else SortedMap.get edge h.listed :=
  SortedMap.get_foldl_insert ids edge edges h.listed

theorem get_waited_published (h : History) (edges : List String) (ids : String → List String) {id : String}
    (hbefore : id ∉ h.routed) (hafter : id ∉ (h.published edges ids).routed) :
    SortedMap.get id (h.published edges ids).waited = SortedMap.get id h.waited := by
  have hget := SortedMap.get_foldl_insert (fun _ : String => 0) id (h.routed ++ (h.published edges ids).routed) h.waited
  rw [if_neg (by rw [List.mem_append]; exact fun hm => hm.elim hbefore hafter)] at hget
  exact hget

/-- A container has a waiting time only if it was listed, now or before. -/
theorem waited_published {h : History} {edges : List String} {ids : String → List String} {id : String} {n : Nat}
    (hn : SortedMap.get id (h.published edges ids).waited = some n) :
    id ∈ h.routed ∨ id ∈ (h.published edges ids).routed ∨ SortedMap.get id h.waited = some n := by
  by_cases hb : id ∈ h.routed
  · exact .inl hb
  by_cases ha : id ∈ (h.published edges ids).routed
  · exact .inr (.inl ha)
  · rw [get_waited_published h edges ids hb ha] at hn
    exact .inr (.inr hn)

theorem get_waited_slept (h : History) (ms : Int) (id : String) :
    SortedMap.get id (h.slept ms).waited =
      (SortedMap.get id h.waited).map fun n => if id ∈ h.routed then n else n + ms.toNat :=
  SortedMap.get_mapValues (fun k n => if k ∈ h.routed then n else n + ms.toNat) id h.waited

theorem mem_replicasFor {d : DesiredState} {live : Live} {excludeIds : List String} {edge : String}
    {r : ManagedReplica} (h : r ∈ replicasFor d live excludeIds edge) :
    ∃ c ∈ d.services, c.ingress.isSome = true ∧ r ∈ replicasOf live c.key ∧ routable excludeIds r = true := by
  obtain ⟨c, hc, hr⟩ := List.mem_flatMap.mp h
  obtain ⟨hc, hedge⟩ := List.mem_filter.mp hc
  obtain ⟨hr, hroute⟩ := List.mem_filter.mp hr
  refine ⟨c, hc, ?_, hr, hroute⟩
  cases hi : c.ingress with
  | none => rw [hi] at hedge; cases hedge
  | some ingress => rfl

/-! ## What each command does to the record -/

section Steps

variable {nodeId : String}

/-- What a publish leaves listed of a container: what was, or what runs now and is not excluded. -/
theorem routed_published {w : Node} {excludeIds : List String} {out : PublishOutcome} {id : String}
    (h : id ∈ (w.published nodeId excludeIds out).history.routed) :
    id ∈ w.history.routed ∨
      ∃ x ∈ w.docker, x.replica.id = id ∧ x.replica.running = true ∧ Listable w.desired x ∧ id ∉ excludeIds := by
  obtain ⟨edge, ids, he, hid⟩ := mem_routed.mp h
  simp only [Node.published] at he
  rw [get_listed_published] at he
  split at he
  · cases he
    obtain ⟨r, hr, rfl⟩ := List.mem_map.mp hid
    obtain ⟨c, hc, hi, hr, hroute⟩ := mem_replicasFor hr
    obtain ⟨⟨x, hx, rfl⟩, -, hkey⟩ := mem_replicasOf.mp hr
    simp only [routable, Bool.and_eq_true, Bool.not_eq_true', List.contains_eq_mem, decide_eq_false_iff_not] at hroute
    exact .inr ⟨x, hx, rfl, hroute.1.1, ⟨hroute.1.2, c, hc, hkey.symm, hi⟩, hroute.2⟩
  · exact .inl (mem_routed.mpr ⟨edge, ids, he, hid⟩)

/-- A command touches the record only by publishing and by sleeping. -/
theorem sem_listing {o : Op} {w w' : Node} {r : Resp o} (hs : sem nodeId o w r w') :
    (w'.history.listed = w.history.listed ∧ w'.history.waited = w.history.waited) ∨
    (∃ ms, o = .sleepMs ms ∧ w'.history.listed = w.history.listed ∧ w'.history.waited = (w.history.slept ms).waited) ∨
    ∃ excludeIds out, o = .refreshRouting excludeIds ∧ w' = w.published nodeId excludeIds out := by
  cases o with
  | runContainer c i p b f j =>
    obtain ⟨docker, issued, -, rfl⟩ := hs
    refine .inl ?_
    simp only [History.started]
    split <;> exact ⟨rfl, rfl⟩
  | startContainer id => rcases hs with ⟨e, -, rfl⟩ | ⟨-, x, -, -, -, rfl⟩ <;> exact .inl ⟨rfl, rfl⟩
  | stopContainer container grace => rcases hs with ⟨-, rfl | rfl | rfl⟩ <;> exact .inl ⟨rfl, rfl⟩
  | removeContainer id => rcases hs with ⟨-, rfl | rfl⟩ <;> exact .inl ⟨rfl, rfl⟩
  | pull | heartbeat | setError => cases hs; exact .inl ⟨rfl, rfl⟩
  | allocatePort key index => obtain ⟨saved, -, rfl⟩ := hs; exact .inl ⟨rfl, rfl⟩
  | releasePort key index => obtain ⟨saved, rfl⟩ := hs; exact .inl ⟨rfl, rfl⟩
  | refreshRouting ex =>
    simp only [sem] at hs
    split at hs
    · obtain ⟨out, -, rfl⟩ := hs
      exact .inr (.inr ⟨ex, out, rfl, rfl⟩)
    · obtain ⟨-, rfl⟩ := hs; exact .inl ⟨rfl, rfl⟩
  | sleepMs ms => obtain ⟨t, -, rfl⟩ := hs; exact .inr (.inl ⟨ms, rfl, rfl, rfl⟩)
  | waitHealthy port hc ceiling =>
    simp only [sem] at hs
    split at hs <;> subst hs <;> exact .inl ⟨rfl, rfl⟩
  | recordCronFire key fire => obtain ⟨saved, records, -, rfl⟩ := hs; exact .inl ⟨rfl, rfl⟩
  | runBackup c fire => obtain ⟨saved, records, errors, -, -, rfl⟩ := hs; exact .inl ⟨rfl, rfl⟩

theorem rely_listing {w w' : Node} (hr : Rely w w') :
    w'.history.listed = w.history.listed ∧ w'.history.waited = w.history.waited := by
  cases hr <;> exact ⟨rfl, rfl⟩

theorem routed_congr {h h' : History} (hl : h'.listed = h.listed) : h'.routed = h.routed := by
  unfold History.routed
  rw [hl]

theorem sem_issued {o : Op} {w w' : Node} {r : Resp o} (hs : sem nodeId o w r w') : ∀ id ∈ w.issued, id ∈ w'.issued := by
  intro id hid
  by_cases hrun : ∀ c i p b f j, o ≠ .runContainer c i p b f j
  · rw [(sem_shuffle hs hrun).2]
    exact hid
  · simp only [not_forall, not_not] at hrun
    obtain ⟨c, i, p, b, f, j, rfl⟩ := hrun
    obtain ⟨docker, issued, hl, rfl⟩ := hs
    cases hl with
    | refused e => exact hid
    | created e id' _ _ => exact List.mem_cons_of_mem _ hid
    | running id' _ _ _ => exact List.mem_cons_of_mem _ hid

/-- Only ids that docker has given out are in the record. -/
structure RecordOk (w : Node) : Prop where
  docker : DockerOk w
  routed : ∀ id ∈ w.history.routed, id ∈ w.issued
  waited : ∀ id n, SortedMap.get id w.history.waited = some n → id ∈ w.issued

theorem RecordOk.congr {w w' : Node} (h : RecordOk w) (hd : w'.docker = w.docker) (hi : w'.issued = w.issued)
    (hl : w'.history.listed = w.history.listed) (hw : w'.history.waited = w.history.waited) : RecordOk w' := by
  refine ⟨h.docker.congr hd hi, ?_, ?_⟩
  · rw [routed_congr hl, hi]; exact h.routed
  · rw [hw, hi]; exact h.waited

theorem recordOk_sem {o : Op} {w w' : Node} {r : Resp o} (h : RecordOk w) (hs : sem nodeId o w r w') : RecordOk w' := by
  have hissued := sem_issued hs
  refine ⟨dockerOk_sem h.docker hs, ?_, ?_⟩
  · intro id hid
    rcases sem_listing hs with ⟨hl, -⟩ | ⟨ms, -, hl, -⟩ | ⟨ex, out, -, rfl⟩
    · exact hissued id (h.routed id (routed_congr hl ▸ hid))
    · exact hissued id (h.routed id (routed_congr hl ▸ hid))
    · rcases routed_published hid with hid | ⟨x, hx, rfl, -⟩
      · exact h.routed id hid
      · exact h.docker.issued x hx
  · intro id n hn
    rcases sem_listing hs with ⟨-, hw⟩ | ⟨ms, -, -, hw⟩ | ⟨ex, out, -, rfl⟩
    · exact hissued id (h.waited id n (hw ▸ hn))
    · rw [hw, get_waited_slept] at hn
      obtain ⟨n₀, hn₀, -⟩ := Option.map_eq_some_iff.mp hn
      exact hissued id (h.waited id n₀ hn₀)
    · rcases waited_published hn with hid | hid | hn
      · exact h.routed id hid
      · rcases routed_published hid with hid | ⟨x, hx, rfl, -⟩
        · exact h.routed id hid
        · exact h.docker.issued x hx
      · exact h.waited id n hn

theorem recordOk_rely {w w' : Node} (h : RecordOk w) (hr : Rely w w') : RecordOk w' := by
  obtain ⟨hl, hw⟩ := rely_listing hr
  have hissued := (rely_shuffle hr).2
  refine ⟨dockerOk_rely h.docker hr, ?_, ?_⟩
  · rw [routed_congr hl, hissued]; exact h.routed
  · rw [hw, hissued]; exact h.waited

theorem recordOk_kept {A : Admits} : Kept nodeId A RecordOk RecordOk (fun _ => RecordOk) where
  fresh clock := by
    refine ⟨dockerOk_fresh clock, ?_, ?_⟩
    · intro id h
      cases h
    · intro id n h
      cases h
  stable w w' h hr := recordOk_rely h hr
  boot w h := h.congr rfl rfl rfl rfl
  noDesired w h := h.congr rfl rfl rfl rfl
  noLogin w d h := h.congr rfl rfl rfl rfl
  noInspect w d h := h.congr rfl rfl rfl rfl
  command o w h := h
  planned w h := h
  finish w r w' h hs := recordOk_sem h hs
  begin w i h _ _ := by
    have hall : Uses (fun _ => True) (applyActions (w.plan i)).run := (uses_applyActions _).mono fun _ _ => trivial
    have hinit : RecordOk (w.began i) := h.congr rfl rfl rfl rfl
    refine Sat.ofUses (fun w w' h hr => recordOk_rely h hr) ?_ (fun _ _ _ h => h) hall hinit
    intro o _ w r w' h hs
    exact recordOk_sem h hs.1

end Steps

/-! ## Through a plan -/

section Plan

variable {nodeId : String} {w₀ w w' : Node} {l : List Action}

def MayPublish (l : List Action) : Prop := ∃ a ∈ l, a.publishes = true

/-- What the node keeps of its state `w₀` at the start of the plan, after the actions `l`. -/
structure Steady (w₀ : Node) (l : List Action) (w : Node) : Prop where
  start : DockerOk w₀
  record : RecordOk w
  desired : w.desired = w₀.desired
  web : w.hasWeb = hasWebOf w₀.desired
  issued : ∀ id ∈ w₀.issued, id ∈ w.issued
  origin : ∀ x ∈ w.docker, x.replica.id ∈ w₀.issued → ∃ y ∈ w₀.docker, y.fixed = x.fixed ∧ (x.mayServe → MayRun l y)
  still : ∀ y ∈ w₀.docker, y.replica.id ∉ w₀.history.routed → (MayPublish l → ¬ Listable w₀.desired y) →
    y.replica.id ∉ w.history.routed ∧ ∀ n, SortedMap.get y.replica.id w.history.waited = some n →
      ∃ n₀ ≤ n, SortedMap.get y.replica.id w₀.history.waited = some n₀
  off : ∀ edge ∉ edgesOf w₀.desired, SortedMap.get edge w.history.listed = SortedMap.get edge w₀.history.listed

/-- Commands of a plan: publishes and starts come from its actions. -/
def FromPlan (l : List Action) : Op → Prop
  | .refreshRouting _ => MayPublish l
  | .startContainer id => ∃ c i, Action.start c i id ∈ l
  | _ => True

theorem MayRun.mono {x : Container} {l' : List Action} (h : MayRun l x) (hl : ∀ a ∈ l, a ∈ l') : MayRun l' x := by
  rcases h with h | ⟨c, i, h⟩
  · exact .inl h
  · exact .inr ⟨c, i, hl _ h⟩

/-- A longer plan may do more. -/
theorem Steady.mono {l' : List Action} (h : Steady w₀ l w) (hl : ∀ a ∈ l, a ∈ l') : Steady w₀ l' w := by
  refine ⟨h.start, h.record, h.desired, h.web, h.issued, ?_, ?_, h.off⟩
  · intro x hx hid
    obtain ⟨y, hy, hfix, hrun⟩ := h.origin x hx hid
    exact ⟨y, hy, hfix, fun hm => (hrun hm).mono hl⟩
  · intro y hy hr hp
    refine h.still y hy hr ?_
    rintro ⟨a, ha, hpub⟩
    exact hp ⟨a, hl a ha, hpub⟩

/-- The container of the start that a container with an old id is. -/
theorem Steady.same (h : Steady w₀ l w) {x y : Container} (hx : x ∈ w.docker) (hy : y ∈ w₀.docker)
    (hid : x.replica.id = y.replica.id) : y.fixed = x.fixed ∧ (x.mayServe → MayRun l y) := by
  obtain ⟨z, hz, hfix, hrun⟩ := h.origin x hx (hid ▸ h.start.issued y hy)
  have hsame : z = y := List.inj_on_of_nodup_map h.start.ids hz hy ((Container.fixed_congr hfix).1.trans hid)
  subst hsame
  exact ⟨hfix, hrun⟩

theorem listable_fixed {d : DesiredState} {x y : Container} (hfix : y.fixed = x.fixed) (h : Listable d x) : Listable d y := by
  obtain ⟨hp, c, hc, hkey, hi⟩ := h
  obtain ⟨-, -, -, -, hport, -⟩ := Container.fixed_congr hfix
  refine ⟨hport ▸ hp, c, hc, ?_, hi⟩
  rw [fixed_key hfix]
  exact hkey

theorem steady_start (h : RecordOk w₀) (hweb : w₀.hasWeb = hasWebOf w₀.desired) : Steady w₀ [] w₀ := by
  refine ⟨h.docker, h, rfl, hweb, fun _ h => h, ?_, ?_, fun _ _ => rfl⟩
  · intro x hx _
    exact ⟨x, hx, rfl, .inl⟩
  · intro y _ hr _
    exact ⟨hr, fun n hn => ⟨n, Nat.le_refl n, hn⟩⟩

theorem steady_rely (h : Steady w₀ l w) (hr : Rely w w') : Steady w₀ l w' := by
  obtain ⟨hd, hweb, -⟩ := rely_routes hr
  obtain ⟨hl, hw⟩ := rely_listing hr
  refine ⟨h.start, recordOk_rely h.record hr, hd.trans h.desired, hweb.trans h.web, ?_, ?_, ?_, ?_⟩
  · rw [(rely_shuffle hr).2]
    exact h.issued
  · intro x hx hid
    by_cases hm : x.mayServe
    · obtain ⟨y, hy, hfix, hmy⟩ := rely_mayServe h.record.docker hr hx hm
      obtain ⟨z, hz, hzfix, hrun⟩ := h.origin y hy ((Container.fixed_congr hfix).1 ▸ hid)
      exact ⟨z, hz, hzfix.trans hfix, fun _ => hrun hmy⟩
    · obtain ⟨y, hy, hfix⟩ := (rely_shuffle hr).1.origin hx
      obtain ⟨z, hz, hzfix, -⟩ := h.origin y hy ((Container.fixed_congr hfix).1 ▸ hid)
      exact ⟨z, hz, hzfix.trans hfix, fun hm' => absurd hm' hm⟩
  · rw [routed_congr hl, hw]
    exact h.still
  · rw [hl]
    exact h.off

/-- Who a container was, and whether it may run, after a command. -/
theorem origin_sem {o : Op} {r : Resp o} (h : Steady w₀ l w) (ho : FromPlan l o) (hs : sem nodeId o w r w') :
    ∀ x ∈ w'.docker, x.replica.id ∈ w₀.issued → ∃ y ∈ w₀.docker, y.fixed = x.fixed ∧ (x.mayServe → MayRun l y) := by
  intro x hx hid
  by_cases hrun : ∀ c i p b f j, o ≠ .runContainer c i p b f j
  · by_cases hm : x.mayServe
    · obtain ⟨y, hy, hfix, hmy⟩ := sem_mayServe hs hrun hx hm
      obtain ⟨z, hz, hzfix, hzrun⟩ := h.origin y hy ((Container.fixed_congr hfix).1 ▸ hid)
      refine ⟨z, hz, hzfix.trans hfix, fun _ => ?_⟩
      rcases hmy with hmy | rfl
      · exact hzrun hmy
      · obtain ⟨c, i, ha⟩ := ho
        exact .inr ⟨c, i, (Container.fixed_congr hzfix).1 ▸ ha⟩
    · obtain ⟨y, hy, hfix⟩ := (sem_shuffle hs hrun).1.origin hx
      obtain ⟨z, hz, hzfix, -⟩ := h.origin y hy ((Container.fixed_congr hfix).1 ▸ hid)
      exact ⟨z, hz, hzfix.trans hfix, fun hm' => absurd hm' hm⟩
  · simp only [not_forall, not_not] at hrun
    obtain ⟨c, i, p, b, f, j, rfl⟩ := hrun
    obtain ⟨docker, issued, hl, rfl⟩ := hs
    rcases mem_launch hl hx with hx | ⟨id, s, hnew, rfl⟩
    · exact h.origin x hx hid
    · exact absurd (h.issued id hid) hnew

/-- A container that nothing may list stays unlisted, and its wait goes on. -/
theorem still_sem {o : Op} {r : Resp o} (h : Steady w₀ l w) (ho : FromPlan l o) (hs : sem nodeId o w r w')
    {y : Container} (hy : y ∈ w₀.docker) (hr : y.replica.id ∉ w₀.history.routed)
    (hp : MayPublish l → ¬ Listable w₀.desired y) :
    y.replica.id ∉ w'.history.routed ∧ ∀ n, SortedMap.get y.replica.id w'.history.waited = some n →
      ∃ n₀ ≤ n, SortedMap.get y.replica.id w₀.history.waited = some n₀ := by
  obtain ⟨hroute, hwait⟩ := h.still y hy hr hp
  rcases sem_listing hs with ⟨hl, hw⟩ | ⟨ms, -, hl, hw⟩ | ⟨ex, out, rfl, rfl⟩
  · rw [routed_congr hl, hw]
    exact ⟨hroute, hwait⟩
  · rw [routed_congr hl, hw]
    refine ⟨hroute, fun n hn => ?_⟩
    rw [get_waited_slept] at hn
    obtain ⟨m, hm, hmn⟩ := Option.map_eq_some_iff.mp hn
    obtain ⟨n₀, hle, hn₀⟩ := hwait m hm
    rw [if_neg hroute] at hmn
    exact ⟨n₀, by omega, hn₀⟩
  · have hafter : y.replica.id ∉ (w.published nodeId ex out).history.routed := by
      intro hid
      rcases routed_published hid with hid | ⟨x, hx, hxid, -, hlist, -⟩
      · exact hroute hid
      · rw [h.desired] at hlist
        exact hp ho (listable_fixed (h.same hx hy hxid).1 hlist)
    refine ⟨hafter, fun n hn => hwait n ?_⟩
    rw [← hn]
    exact (get_waited_published _ _ _ hroute hafter).symm

theorem steady_sem {o : Op} {r : Resp o} (h : Steady w₀ l w) (ho : FromPlan l o) (hs : sem nodeId o w r w') :
    Steady w₀ l w' := by
  obtain ⟨hd, hweb, -⟩ := sem_routes hs
  refine ⟨h.start, recordOk_sem h.record hs, hd.trans h.desired, hweb.trans h.web,
    fun id hid => sem_issued hs id (h.issued id hid), origin_sem h ho hs, fun y hy => still_sem h ho hs hy, ?_⟩
  intro edge hedge
  rw [← h.off edge hedge]
  rcases sem_listing hs with ⟨hl, -⟩ | ⟨ms, -, hl, -⟩ | ⟨ex, out, -, rfl⟩
  · rw [hl]
  · rw [hl]
  · simp only [Node.published]
    rw [get_listed_published, if_neg]
    intro hm
    have := publishedEdges_subset edge hm
    rw [h.desired] at this
    exact hedge this

/-! ## Commands that take nothing, and retirements -/

theorem steady_stable {A : Admits} : (agent nodeId A).Stable (Steady w₀ l) := by
  intro w w' h hr
  exact steady_rely h hr

variable (nodeId w₀ l) in
/-- Every command takes drained containers only; an error leaves the node steady. -/
abbrev Drains {α : Type} (Q : α → Node → Prop) (e : Eff α) (w : Node) : Prop :=
  Sat (agent nodeId {}) TakesDrained (onResult Q fun _ => Steady w₀ l) e.run w

theorem Drains.bind {α β : Type} {R : β → Node → Prop} {Q : α → Node → Prop} {e : Eff β} {k : β → Eff α}
    (h : Drains nodeId w₀ l R e w) (hk : ∀ b w', R b w' → Drains nodeId w₀ l Q (k b) w') :
    Drains nodeId w₀ l Q (e >>= k) w :=
  Sat.bindE h (fun _ => steady_stable) hk

theorem drains_pure {α : Type} {Q : α → Node → Prop} {a : α} {P : Node → Prop} (hP : (agent nodeId {}).Stable P)
    (h : P w) (hQ : ∀ w, P w → Q a w) : Drains nodeId w₀ l Q (pure a) w := Sat.ret hP h hQ

/-- A command of the plan that stops and removes nothing. -/
def Harmless (l : List Action) (o : Op) : Prop := FromPlan l o ∧ ∀ x, ¬ Takes o x

theorem Harmless.takes {o : Op} (h : Harmless l o) : TakesDrained o w := by
  intro x _ hx
  exact absurd hx (h.2 x)

theorem drains_uses {α : Type} {e : Eff α} (he : Uses (Harmless l) e.run) (h : Steady w₀ l w) :
    Drains nodeId w₀ l (fun _ => Steady w₀ l) e w := by
  have hsat := Sat.ofUses (M := agent nodeId {}) (G := TakesDrained) steady_stable
    (fun o ho w r w' hw hs => steady_sem hw ho.1 hs.1) (fun o w ho _ => ho.takes) he h
  refine hsat.mono (fun _ _ h => h) fun r w hw => ?_
  cases r <;> exact hw

theorem Enough.mono {d : DesiredState} {key : String} {m n : Nat} (h : Enough d key m) (hmn : m ≤ n) :
    Enough d key n := by
  obtain ⟨hfloor, hservice⟩ := h
  refine ⟨by omega, fun hex => ?_⟩
  obtain ⟨c, hc, hkey, hle⟩ := hservice hex
  exact ⟨c, hc, hkey, by omega⟩

/-- What an action that does not publish takes is drained already. -/
theorem takes_retired {a : Action} {r : ManagedReplica} {o : Op} (hplan : ActionDrains w₀ l a)
    (hpub : a.publishes = false) (hr : r ∈ a.retires) (hlive : ∃ y ∈ w₀.docker, y.replica = r)
    (ho : ∀ x, Takes o x → x.replica.id = r.id) (h : Steady w₀ l w) : TakesDrained o w := by
  intro x hx htakes hrunning
  obtain ⟨y, hy, rfl⟩ := hlive
  have hid := ho x htakes
  obtain ⟨hfix, hmay⟩ := h.same hx hy hid
  have hunrouted := hplan y hy hr (hmay (.inl hrunning))
  rw [if_neg (by rw [hpub]; exact Bool.false_ne_true)] at hunrouted
  obtain ⟨⟨hroute, henough⟩, hlist⟩ := hunrouted
  obtain ⟨hnow, hwait⟩ := h.still y hy hroute hlist
  refine ⟨hid ▸ hnow, fun n hn => ?_⟩
  rw [hid] at hn
  obtain ⟨n₀, hle, hn₀⟩ := hwait n hn
  rw [h.desired, ← fixed_key hfix]
  exact (henough n₀ hn₀).mono hle

/-- One command that may take containers, from a steady node. -/
theorem drains_act {o : Op} {k : Resp o → Prog Resp (Except String Unit)} (ho : FromPlan l o)
    (htakes : ∀ w, Steady w₀ l w → TakesDrained o w)
    (hk : ∀ r w, Steady w₀ l w → Sat (agent nodeId {}) TakesDrained (onResult (fun _ => Steady w₀ l) fun _ => Steady w₀ l) (k r) w)
    (h : Steady w₀ l w) :
    Sat (agent nodeId {}) TakesDrained (onResult (fun _ => Steady w₀ l) fun _ => Steady w₀ l) (.act o k) w := by
  refine Sat.act steady_stable h htakes ?_
  intro w r w' hw hs
  exact hk r w' (steady_sem hw ho hs.1)

theorem drains_result (r : Except String Unit) (h : Steady w₀ l w) :
    Sat (agent nodeId {}) TakesDrained (onResult (fun _ => Steady w₀ l) fun _ => Steady w₀ l) (.ret r) w := by
  refine Sat.ret steady_stable h fun w hw => ?_
  cases r <;> exact hw

/-- The removals of an action, one after the other. -/
theorem drains_remove {a : Action} {r : ManagedReplica} (hplan : ActionDrains w₀ l a) (hpub : a.publishes = false)
    (hr : r ∈ a.retires) (hlive : ∃ y ∈ w₀.docker, y.replica = r) (h : Steady w₀ l w) :
    Drains nodeId w₀ l (fun _ => Steady w₀ l) (removeContainer r.id) w := by
  refine drains_act trivial (fun w hw => takes_retired hplan hpub hr hlive ?_ hw) (fun r w hw => drains_result r hw) h
  intro x hx
  exact beq_iff_eq.mp hx

/-! ## Rollouts -/

/-- A rollout has stopped routing to `y`, and slept `ms` since. -/
structure Diverted (w₀ : Node) (l : List Action) (y : Container) (ms : Int) (w : Node) : Prop where
  steady : Steady w₀ l w
  unlisted : MayRun l y → y.replica.id ∉ w.history.routed
  slept : MayRun l y → ∀ n, SortedMap.get y.replica.id w.history.waited = some n → ms ≤ n

theorem diverted_stable {A : Admits} {y : Container} {ms : Int} : (agent nodeId A).Stable (Diverted w₀ l y ms) := by
  intro w w' h hr
  obtain ⟨hl, hw⟩ := rely_listing hr
  refine ⟨steady_rely h.steady hr, ?_, ?_⟩
  · rw [routed_congr hl]; exact h.unlisted
  · rw [hw]; exact h.slept

/-- After a publish that excludes the container no edge lists it: the document's edges were
    all published, and no other edge listed it before. -/
theorem diverted_publish {a : Action} {c : ServiceConfig} {y : Container} {excludeIds : List String}
    (h : Steady w₀ l w) (hplan : ActionDrains w₀ l a) (hpub : a.publishes = true) (hc : c ∈ w₀.desired.services)
    (hi : c.ingress.isSome = true) (hy : y ∈ w₀.docker) (hretired : y.replica ∈ a.retires)
    (hex : y.replica.id ∈ excludeIds) (hmay : MayPublish l)
    (hs : sem nodeId (.refreshRouting excludeIds) w (.ok ()) w') : Diverted w₀ l y 0 w' := by
  refine ⟨steady_sem h (show FromPlan l (.refreshRouting excludeIds) from hmay) hs, fun hrun hid => ?_, fun _ n _ => Int.natCast_nonneg n⟩
  have hweb : w.hasWeb = true := h.web.trans (List.any_eq_true.mpr ⟨c, hc, hi⟩)
  have hoff := hplan y hy hretired hrun
  rw [if_pos hpub] at hoff
  simp only [sem] at hs
  rw [if_pos hweb] at hs
  obtain ⟨out, hok, rfl⟩ := hs
  obtain ⟨edge, ids, he, hid⟩ := mem_routed.mp hid
  simp only [Node.published] at he
  rw [get_listed_published, publishedEdges_ok hok.symm] at he
  split at he
  · cases he
    obtain ⟨r, hr, hrid⟩ := List.mem_map.mp hid
    obtain ⟨-, -, -, -, hroute⟩ := mem_replicasFor hr
    simp only [routable, Bool.and_eq_true, Bool.not_eq_true', List.contains_eq_mem, decide_eq_false_iff_not] at hroute
    exact hroute.2 (hrid ▸ hex)
  · rename_i hedge
    rw [h.desired] at hedge
    rw [h.off edge hedge] at he
    exact hoff edge ids hedge he hid

theorem drainWait_floor {c : ServiceConfig} (hi : c.ingress.isSome = true) : remoteEdgeDrainFloorMs ≤ drainWaitMs c := by
  unfold drainWaitMs drainFloorMs
  rw [if_pos hi]
  omega

/-- The sleep of the drain time. -/
theorem diverted_slept {y : Container} {ms : Int} (h : Diverted w₀ l y 0 w)
    (hs : sem nodeId (.sleepMs ms) w () w') : Diverted w₀ l y ms w' := by
  have hsteady := steady_sem h.steady (show FromPlan l (.sleepMs ms) from trivial) hs
  obtain ⟨t, -, rfl⟩ := hs
  refine ⟨hsteady, h.unlisted, fun hrun n hn => ?_⟩
  replace hn := (get_waited_slept w.history ms y.replica.id).symm.trans hn
  obtain ⟨m, -, hmn⟩ := Option.map_eq_some_iff.mp hn
  rw [if_neg (h.unlisted hrun)] at hmn
  omega

/-- The stop of a replica that was diverted for the drain time of its service. -/
theorem takes_diverted {c : ServiceConfig} {y : Container} {grace : Int} (h : Diverted w₀ l y (drainWaitMs c) w)
    (hy : y ∈ w₀.docker) (hc : c ∈ w₀.desired.services) (hi : c.ingress.isSome = true) (hkey : y.replica.key = c.key) :
    TakesDrained (.stopContainer (.id y.replica.id) grace) w := by
  intro x hx htakes hrunning
  have hid : x.replica.id = y.replica.id := beq_iff_eq.mp htakes
  obtain ⟨hfix, hmay⟩ := h.steady.same hx hy hid
  have hrun := hmay (.inl hrunning)
  refine ⟨hid ▸ h.unlisted hrun, fun n hn => ?_⟩
  rw [hid] at hn
  have hle := h.slept hrun n hn
  have hfloor := drainWait_floor hi
  refine ⟨by omega, fun _ => ⟨c, ?_, ?_, hle⟩⟩
  · rw [h.steady.desired]; exact hc
  · rw [← hkey, fixed_key hfix]

/-- The replica just started under this name, which nothing has listed yet. -/
structure Surging (w₀ : Node) (l : List Action) (name : String) (w : Node) : Prop where
  steady : Steady w₀ l w
  unlisted : ∀ x ∈ w.docker, x.replica.name = name →
    x.replica.id ∉ w.history.routed ∧ SortedMap.get x.replica.id w.history.waited = none

theorem Surging.shuffle {name : String} {may : Container → Prop} (h : Surging w₀ l name w)
    (hsteady : Steady w₀ l w') (hs : Shuffle may w.docker w'.docker) (hl : w'.history.listed = w.history.listed)
    (hw : w'.history.waited = w.history.waited) : Surging w₀ l name w' := by
  refine ⟨hsteady, fun x hx hname => ?_⟩
  obtain ⟨y, hy, hfix⟩ := hs.origin hx
  obtain ⟨hid, hyname, -⟩ := Container.fixed_congr hfix
  rw [routed_congr hl, hw, ← hid]
  exact h.unlisted y hy (hyname.trans hname)

theorem surging_stable {A : Admits} {name : String} : (agent nodeId A).Stable (Surging w₀ l name) := by
  intro w w' h hr
  obtain ⟨hl, hw⟩ := rely_listing hr
  exact h.shuffle (steady_rely h.steady hr) (rely_shuffle hr).1 hl hw

/-- A new container is in no record. -/
theorem surging_launch {c : ServiceConfig} {i : Int} {p : Option Int} {b : String} {f : Option Int} {j : Option String}
    (h : Steady w₀ l w) (hs : sem nodeId (.runContainer c i p b f j) w (.ok ()) w') :
    Surging w₀ l (containerName c.project c.service i) w' := by
  have hsteady := steady_sem h (show FromPlan l (.runContainer c i p b f j) from trivial) hs
  rcases sem_listing hs with ⟨hl, hw⟩ | ⟨ms, ho, -⟩ | ⟨ex, out, ho, -⟩
  · refine ⟨hsteady, ?_⟩
    rw [routed_congr hl, hw]
    obtain ⟨docker, issued, hlaunch, rfl⟩ := hs
    cases hlaunch with
    | running id hid hfree _ =>
      intro x hx hname
      rcases List.mem_append.mp hx with hx | hx
      · exact absurd hname (hfree x hx)
      · rw [List.mem_singleton.mp hx]
        refine ⟨fun hr => hid (h.record.routed id hr), ?_⟩
        rw [Option.eq_none_iff_forall_ne_some]
        intro n hn
        exact hid (h.record.waited id n hn)
  · cases ho
  · cases ho

theorem takes_surging {name : String} {grace : Int} (h : Surging w₀ l name w) :
    TakesDrained (.stopContainer (.name name) grace) w := by
  intro x hx htakes _
  obtain ⟨hroute, hwait⟩ := h.unlisted x hx (beq_iff_eq.mp htakes)
  refine ⟨hroute, fun n hn => ?_⟩
  rw [hwait] at hn
  cases hn

section Rollout

variable {c : ServiceConfig} {rs : List ManagedReplica}

/-- A refresh of this rollout. -/
theorem harmless_refresh (ha : Action.rollout c rs ∈ l) (hi : c.ingress.isSome = true) (ex : List String) :
    Harmless l (.refreshRouting ex) := ⟨⟨_, ha, hi⟩, fun _ h => h⟩

theorem drains_surgeOne (ha : Action.rollout c rs ∈ l) (s : RolloutState) (h : Steady w₀ l w) :
    Drains nodeId w₀ l (fun _ => Steady w₀ l) (surgeOne c s) w := by
  unfold surgeOne
  refine Drains.bind (drains_uses (uses_hostPortFor fun _ => ⟨trivial, fun _ h => h⟩) h) fun hostPort w hw => ?_
  refine Drains.bind (R := fun _ => Surging w₀ l (containerName c.project c.service s.nextIndex)) ?_ fun _ w hw => ?_
  · refine Sat.act steady_stable hw (fun w _ x _ hx => absurd hx fun h => h) ?_
    intro w r w' hw hs
    rcases r with e | u
    · exact Sat.ret steady_stable (steady_sem hw (show FromPlan l (.runContainer ..) from trivial) hs.1) fun _ h => h
    · exact Sat.ret surging_stable (surging_launch hw hs.1) fun _ h => h
  refine Drains.bind (R := fun _ => Surging w₀ l (containerName c.project c.service s.nextIndex)) ?_
    fun healthy w hw => ?_
  · unfold awaitHealthy
    split
    · refine Sat.act surging_stable hw (fun w _ x _ hx => absurd hx fun h => h) ?_
      intro w r w' hw hs
      have hsteady := steady_sem hw.steady (show FromPlan l (.waitHealthy ..) from trivial) hs.1
      have hdocker := sem_shuffle hs.1 fun _ _ _ _ _ _ h => by cases h
      rcases sem_listing hs.1 with ⟨hl, hwait⟩ | ⟨ms, ho, -⟩ | ⟨ex, out, ho, -⟩
      · exact Sat.ret surging_stable (hw.shuffle hsteady hdocker.1 hl hwait) fun _ h => h
      · cases ho
      · cases ho
    · exact drains_pure surging_stable hw fun _ h => h
  cases healthy with
  | true =>
    refine drains_uses ?_ hw.steady
    refine Uses.bindE (uses_forWeb fun hi => ?_) fun _ => trivial
    exact Uses.bindE ⟨harmless_refresh ha hi _, fun _ => trivial⟩ fun _ => ⟨⟨trivial, fun _ h => h⟩, fun _ => trivial⟩
  | false =>
    refine Drains.bind (R := fun _ => Steady w₀ l) ?_ fun _ w hw => drains_pure steady_stable hw fun _ h => h
    unfold abortSurge
    refine Drains.bind (R := fun _ => Steady w₀ l) ?_ fun _ w hw => drains_uses ?_ hw
    · refine Sat.act surging_stable hw (fun w hw => takes_surging hw) ?_
      intro w r w' hw hs
      exact drains_result r (steady_sem hw.steady (show FromPlan l (.stopContainer ..) from trivial) hs.1)
    · refine Uses.bindE ⟨⟨trivial, fun _ h => h⟩, fun _ => trivial⟩ fun _ => ?_
      refine Uses.bindE ⟨⟨trivial, fun _ h => h⟩, fun _ => trivial⟩ fun _ => ?_
      exact uses_forWeb fun hi => ⟨harmless_refresh ha hi _, fun _ => trivial⟩

/-- The refresh that excludes an old replica, and the sleep. -/
theorem drains_divert (ha : Action.rollout c rs ∈ l) (hplan : ActionDrains w₀ l (.rollout c rs))
    (hc : c ∈ w₀.desired.services) (hi : c.ingress.isSome = true) {y : Container} (hy : y ∈ w₀.docker)
    (hretired : y.replica ∈ (Action.rollout c rs).retires) {draining : List String} (hex : y.replica.id ∈ draining)
    (h : Steady w₀ l w) :
    Drains nodeId w₀ l (fun _ => Diverted w₀ l y (drainWaitMs c)) (divert c draining) w := by
  have hmay : MayPublish l := ⟨_, ha, hi⟩
  unfold divert
  refine Drains.bind (R := fun _ => Diverted w₀ l y 0) ?_ fun _ w hw => ?_
  · refine Sat.act steady_stable h (fun w _ x _ hx => absurd hx fun h => h) ?_
    intro w r w' hw hs
    rcases r with e | u
    · exact Sat.ret steady_stable (steady_sem hw (show FromPlan l (.refreshRouting draining) from hmay) hs.1) fun _ h => h
    · exact Sat.ret diverted_stable (diverted_publish hw hplan hi hc hi hy hretired hex hmay hs.1) fun _ h => h
  refine Drains.bind (R := fun _ => Diverted w₀ l y 0) ?_ fun _ w hw => ?_
  · refine Sat.act diverted_stable hw (fun w _ x _ hx => absurd hx fun h => h) ?_
    intro w r w' hw hs
    obtain rfl : w' = w := hs.1
    exact Sat.ret diverted_stable hw fun _ h => h
  have hfloor := drainWait_floor hi
  have hpos : drainWaitMs c > 0 := by
    have : (0 : Int) < remoteEdgeDrainFloorMs := by decide
    omega
  rw [if_pos hpos]
  refine Sat.act diverted_stable hw (fun w _ x _ hx => absurd hx fun h => h) ?_
  intro w r w' hw hs
  exact Sat.ret diverted_stable (diverted_slept hw hs.1) fun _ h => h

theorem drains_drainOne (ha : Action.rollout c rs ∈ l) (hplan : ActionDrains w₀ l (.rollout c rs))
    (hc : c ∈ w₀.desired.services) (s : RolloutState) {old : ManagedReplica}
    (hlive : ∃ y ∈ w₀.docker, y.replica = old) (hkey : old.key = c.key)
    (hretired : old ∈ (Action.rollout c rs).retires) (h : Steady w₀ l w) :
    Drains nodeId w₀ l (fun _ => Steady w₀ l) (drainOne c s old) w := by
  have hafter : ∀ w, Steady w₀ l w →
      Drains nodeId w₀ l (fun _ => Steady w₀ l) (do Reconciler.releasePort c.key old.index; heartbeat) w := by
    intro w hw
    refine drains_uses ?_ hw
    exact Uses.bindE ⟨⟨trivial, fun _ h => h⟩, fun _ => trivial⟩ fun _ => ⟨⟨trivial, fun _ h => h⟩, fun _ => trivial⟩
  unfold drainOne forWeb
  by_cases hi : c.ingress.isSome = true
  · rw [if_pos hi]
    obtain ⟨y, hy, rfl⟩ := hlive
    have hex : y.replica.id ∈ s.draining.insert y.replica.id := List.mem_insert_self
    refine Drains.bind (drains_divert ha hplan hc hi hy hretired hex h) fun _ w hw => ?_
    refine Drains.bind (R := fun _ => Steady w₀ l) ?_ fun _ w hw => hafter w hw
    refine Sat.act diverted_stable hw (fun w hw => takes_diverted hw hy hc hi hkey) ?_
    intro w r w' hw hs
    exact drains_result r (steady_sem hw.steady (show FromPlan l (.stopContainer ..) from trivial) hs.1)
  · rw [if_neg hi]
    have hpub : (Action.rollout c rs).publishes = false := Bool.eq_false_iff.mpr hi
    refine Drains.bind (R := fun _ => Steady w₀ l) (drains_pure steady_stable h fun _ h => h) fun _ w hw => ?_
    refine Drains.bind (R := fun _ => Steady w₀ l) ?_ fun _ w hw => hafter w hw
    refine drains_act trivial (fun w hw => takes_retired hplan hpub hretired hlive ?_ hw) (fun r w hw => drains_result r hw) hw
    intro x hx
    exact beq_iff_eq.mp hx

theorem drains_rolloutService (ha : Action.rollout c rs ∈ l) (hplan : ActionDrains w₀ l (.rollout c rs))
    (hc : c ∈ w₀.desired.services) (hlive : ∀ r ∈ rs, (∃ y ∈ w₀.docker, y.replica = r) ∧ r.key = c.key)
    (h : Steady w₀ l w) : Drains nodeId w₀ l (fun _ => Steady w₀ l) (rolloutService c rs) w := by
  unfold rolloutService
  refine Drains.bind (drains_uses ⟨⟨trivial, fun _ h => h⟩, fun _ => trivial⟩ h) fun _ w hw => ?_
  refine Drains.bind (R := fun _ => Steady w₀ l) ?_ fun converged w hw => ?_
  · -- The queue holds replicas this rollout retires.
    refine sat_rolloutLoop
      (I := fun s w => (∀ r ∈ s.oldQueue, r ∈ (Action.rollout c rs).retires) ∧ Steady w₀ l w)
      (fun _ => steady_stable) (fun _ => steady_stable) (fun _ _ _ _ h => h.2) ?_ ?_ ?_ _ ⟨fun r hr => hr, hw⟩
    · rintro s w _ ⟨hq, hw⟩
      refine (drains_surgeOne ha s hw).mono (fun _ _ h => h) fun r w hr => ?_
      rcases r with e | healthy
      · exact hr
      · cases healthy with
        | true => exact ⟨hq, hr⟩
        | false => exact hr
    · rintro s old rest w _ hs ⟨hq, hw⟩
      rw [hs] at hq
      have hold := hq old (List.mem_cons_self ..)
      obtain ⟨hlive, hkey⟩ := hlive old (List.mem_filter.mp hold).1
      refine (drains_drainOne ha hplan hc s hlive hkey hold hw).mono (fun _ _ h => h) fun r w hr => ?_
      rcases r with e | u
      · exact hr
      · exact ⟨fun r hr => hq r (List.mem_cons_of_mem _ hr), hr⟩
    · intro s w w' h hr
      exact ⟨h.1, steady_rely h.2 hr⟩
  · refine drains_uses ?_ hw
    split
    · exact uses_forWeb fun hi => ⟨harmless_refresh ha hi _, fun _ => trivial⟩
    · trivial

end Rollout

/-! ## Actions and plans -/

/-- An action whose retirements come from the node the plan started from. -/
structure FromNode (w₀ : Node) (a : Action) : Prop where
  retires : ∀ r ∈ a.retires, ∃ y ∈ w₀.docker, y.replica = r
  rollout : ∀ c rs, a = .rollout c rs →
    c ∈ w₀.desired.services ∧ ∀ r ∈ rs, (∃ y ∈ w₀.docker, y.replica = r) ∧ r.key = c.key

theorem drains_applyOne {a : Action} (ha : a ∈ l) (hnode : FromNode w₀ a) (hplan : ActionDrains w₀ l a)
    (h : Steady w₀ l w) : Drains nodeId w₀ l (fun _ => Steady w₀ l) (applyOne a) w := by
  have hharmless : ∀ o, FromPlan l o → (∀ x, ¬ Takes o x) → Harmless l o := fun _ h1 h2 => ⟨h1, h2⟩
  have hpull : ∀ image, Uses (Harmless l) (pull image).run := fun _ => ⟨⟨trivial, fun _ h => h⟩, fun _ => trivial⟩
  cases a with
  | noop c => exact drains_pure steady_stable h fun _ h => h
  | remove key rs =>
    refine Sat.forM (I := Steady w₀ l) steady_stable (fun _ => steady_stable) _ _ ?_ h
    intro r hr w hw
    exact drains_remove hplan rfl hr (hnode.retires r hr) hw
  | scaleDown c rs =>
    refine Sat.forM (I := Steady w₀ l) steady_stable (fun _ => steady_stable) _ _ ?_ h
    intro r hr w hw
    refine Drains.bind (drains_remove hplan rfl hr (hnode.retires r hr) hw) fun _ w hw => ?_
    exact drains_uses ⟨⟨trivial, fun _ h => h⟩, fun _ => trivial⟩ hw
  | start c i id => exact drains_uses ⟨hharmless _ ⟨c, i, ha⟩ fun _ h => h, fun _ => trivial⟩ h
  | create c i =>
    refine drains_uses ?_ h
    refine Uses.bindE (hpull _) fun _ => ?_
    refine Uses.bindE (uses_hostPortFor fun _ => ⟨trivial, fun _ h => h⟩) fun hostPort => ?_
    exact ⟨⟨trivial, fun _ h => h⟩, fun _ => trivial⟩
  | rollout c rs =>
    obtain ⟨hc, hlive⟩ := hnode.rollout c rs rfl
    exact drains_rolloutService ha hplan hc hlive h
  | cronRun c fire rs =>
    refine Drains.bind (drains_uses (hpull _) h) fun _ w hw => ?_
    refine Drains.bind (R := fun _ => Steady w₀ l) ?_ fun _ w hw => drains_uses ?_ hw
    · refine Sat.forM (I := Steady w₀ l) steady_stable (fun _ => steady_stable) _ _ ?_ hw
      intro r hr w hw
      exact drains_remove hplan rfl hr (hnode.retires r hr) hw
    · exact Uses.bindE ⟨⟨trivial, fun _ h => h⟩, fun _ => trivial⟩ fun _ => ⟨⟨trivial, fun _ h => h⟩, fun _ => trivial⟩
  | jobRun c rs =>
    simp only [applyOne]
    split
    · exact Sat.ret steady_stable h fun _ h => h
    · refine Drains.bind (drains_uses (hpull _) h) fun _ w hw => ?_
      refine Drains.bind (R := fun _ => Steady w₀ l) ?_ fun _ w hw => drains_uses ?_ hw
      · refine Sat.forM (I := Steady w₀ l) steady_stable (fun _ => steady_stable) _ _ ?_ hw
        intro r hr w hw
        exact drains_remove hplan rfl hr (hnode.retires r hr) hw
      · exact ⟨⟨trivial, fun _ h => h⟩, fun _ => trivial⟩
  | cronSkip c fire => exact drains_uses ⟨⟨trivial, fun _ h => h⟩, fun _ => trivial⟩ h
  | backupRun c fire => exact drains_uses ⟨⟨trivial, fun _ h => h⟩, fun _ => trivial⟩ h

theorem drains_applyIsolated {a : Action} (ha : a ∈ l) (hnode : FromNode w₀ a) (hplan : ActionDrains w₀ l a)
    (h : Steady w₀ l w) : Drains nodeId w₀ l (fun _ => Steady w₀ l) (applyIsolated a) w := by
  refine Sat.tryCatch (drains_applyOne ha hnode hplan h) (fun _ => steady_stable) fun e w hw => drains_uses ?_ hw
  split
  · exact ⟨⟨trivial, fun _ h => h⟩, fun _ => trivial⟩
  · trivial

/-- The actions of a plan, each after the ones before it. -/
theorem drains_actions {plan : List Action} (hnode : ∀ a ∈ plan, FromNode w₀ a) (hplan : PlanDrains w₀ plan)
    (rest : List Action) : ∀ (done : List Action) (w : Node), plan = done ++ rest → Steady w₀ done w →
      Sat (agent nodeId {}) TakesDrained (fun _ _ => True) (applyActions rest).run w := by
  induction rest with
  | nil =>
    intro done w _ h
    exact Sat.ret steady_stable h fun _ _ => trivial
  | cons a rest ih =>
    intro done w hsplit h
    have hmono : Steady w₀ (done ++ [a]) w := h.mono fun b hb => List.mem_append_left _ hb
    have ha : a ∈ done ++ [a] := List.mem_append_right _ (List.mem_singleton.mpr rfl)
    have hmem : a ∈ plan := by
      rw [hsplit]
      exact List.mem_append_right _ (List.mem_cons_self ..)
    have hone := @drains_applyIsolated nodeId _ _ _ _ ha (hnode a hmem) (hplan done a rest hsplit) hmono
    show Sat _ _ _ (applyIsolated a >>= fun _ => applyActions rest).run w
    rw [ExceptT.run_bind]
    refine Sat.bind hone ?_
    rintro (e | u) w hw
    · exact Sat.ret steady_stable hw fun _ _ => trivial
    · exact ih (done ++ [a]) w (by rw [hsplit, List.append_assoc]; rfl) hw

/-- The actions of a tick retire what it found on the node. -/
theorem fromNode_plan {w : Node} {i : TickInput} {a : Action} (ha : a ∈ w.plan i) : FromNode (w.began i) a := by
  have hlive : ∀ k, ∀ r ∈ replicasOf w.liveNow k, (∃ y ∈ w.docker, y.replica = r) ∧ r.key = k := by
    intro k r hr
    obtain ⟨hex, -, hkey⟩ := mem_replicasOf.mp hr
    exact ⟨hex, hkey⟩
  rcases mem_planReconcile.mp ha with ⟨c, hc, ha⟩ | ⟨k, replicas, hm, -, rfl⟩
  · have hreplicas := (planService_replicas ha).1
    constructor
    · intro r hr
      refine (hlive c.key r (hreplicas r ?_)).1
      cases a with
      | rollout c' rs => exact (List.mem_filter.mp hr).1
      | _ => exact hr
    · rintro c' rs rfl
      rcases planService_config ha with hconf | ⟨rs', he⟩
      · cases hconf
        exact ⟨hc, fun r hr => hlive c.key r (hreplicas r hr)⟩
      · cases he
  · exact ⟨fun r hr => mem_inspectManaged hm hr, fun c rs he => by cases he⟩

end Plan

/-! ## Removals outside a rollout -/

section Removal

variable {nodeId : String} {w w' : Node}

/-- Commands that fail, or have no effect, leave docker and the record as they are. -/
structure Same (w w' : Node) : Prop where
  docker : w'.docker = w.docker
  desired : w'.desired = w.desired
  history : w'.history = w.history

theorem Same.trans {w'' : Node} (h : Same w w') (h' : Same w' w'') : Same w w'' :=
  ⟨h'.docker.trans h.docker, h'.desired.trans h.desired, h'.history.trans h.history⟩

theorem fails_at {o : Op} {r : Resp o} {k : Resp o → Prog Resp (Except String Unit)} {res : Except String Unit}
    (hs : (agent nodeId {}).sem o w r w') (hk : k r = .ret res) :
    Runs (agent nodeId {}) (.act o k) w (.ret res) w' := by
  refine .act hs ?_
  rw [hk]
  exact .refl _ _

theorem fails_pull (image : String) (k : Unit → Eff Unit) (w : Node) :
    Runs (agent nodeId {}) (pull image >>= k).run w (.ret (.error "pull failed")) w := by
  have hs : (agent nodeId {}).sem (.pull image) w (.error "pull failed") w := ⟨rfl, trivial⟩
  exact fails_at hs rfl

/-- Removals that docker does not carry out. -/
theorem runs_removals (rs : List ManagedReplica) (w : Node) :
    Runs (agent nodeId {}) (forM rs fun r => removeContainer r.id : Eff Unit).run w (.ret (.ok ())) w := by
  induction rs with
  | nil => exact .refl _ _
  | cons r rs ih =>
    rw [List.forM_cons]
    have hs : (agent nodeId {}).sem (.removeContainer r.id) w (.ok ()) w := ⟨⟨rfl, .inl rfl⟩, trivial⟩
    exact Runs.bindE (Runs.cmd hs) ih

/-- One step of a scale-down. -/
theorem runs_retire (c : ServiceConfig) (r : ManagedReplica) (w : Node) :
    ∃ w', Same w w' ∧ Runs (agent nodeId {})
      (do removeContainer r.id; Reconciler.releasePort c.key r.index : Eff Unit).run w (.ret (.ok ())) w' := by
  have hs : (agent nodeId {}).sem (.removeContainer r.id) w (.ok ()) w := ⟨⟨rfl, .inl rfl⟩, trivial⟩
  have hr : (agent nodeId {}).sem (.releasePort c.key r.index) w ()
      (w.withPorts (Agent.releasePort w.records.mem.ports c.key r.index) true) := ⟨⟨true, rfl⟩, trivial⟩
  exact ⟨_, by constructor <;> rfl, Runs.bindE (Runs.cmd hs) (.act hr (.refl _ _))⟩

theorem runs_scaleDown (c : ServiceConfig) (rs : List ManagedReplica) (w : Node) :
    ∃ w', Same w w' ∧ Runs (agent nodeId {}) (applyOne (.scaleDown c rs)).run w (.ret (.ok ())) w' := by
  simp only [applyOne]
  induction rs generalizing w with
  | nil => exact ⟨w, ⟨rfl, rfl, rfl⟩, .refl _ _⟩
  | cons r rs ih =>
    obtain ⟨w₁, hsame₁, hone⟩ := @runs_retire nodeId c r w
    obtain ⟨w', hsame, hruns⟩ := ih w₁
    rw [List.forM_cons]
    exact ⟨w', hsame₁.trans hsame, Runs.bindE hone hruns⟩

/-- Every action may end without touching docker. -/
theorem runs_applyOne (a : Action) (w : Node) :
    ∃ w' res, Same w w' ∧ Runs (agent nodeId {}) (applyOne a).run w (.ret res) w' := by
  cases a with
  | noop c => exact ⟨w, _, ⟨rfl, rfl, rfl⟩, .refl _ _⟩
  | remove key rs => exact ⟨w, _, ⟨rfl, rfl, rfl⟩, runs_removals rs w⟩
  | scaleDown c rs =>
    obtain ⟨w', hsame, hruns⟩ := runs_scaleDown c rs w
    exact ⟨w', _, hsame, hruns⟩
  | start c i id =>
    have hs : (agent nodeId {}).sem (.startContainer id) w (.error "no such container") w :=
      ⟨.inl ⟨_, rfl, rfl⟩, trivial⟩
    exact ⟨w, _, ⟨rfl, rfl, rfl⟩, fails_at hs rfl⟩
  | create c i => exact ⟨w, _, ⟨rfl, rfl, rfl⟩, fails_pull _ _ w⟩
  | rollout c rs => exact ⟨w, _, ⟨rfl, rfl, rfl⟩, fails_pull _ _ w⟩
  | cronRun c fire rs => exact ⟨w, _, ⟨rfl, rfl, rfl⟩, fails_pull _ _ w⟩
  | jobRun c rs =>
    cases hj : c.jobRun with
    | none =>
      refine ⟨w, .error "job run action missing request", ⟨rfl, rfl, rfl⟩, ?_⟩
      simp only [applyOne, hj]
      exact .refl _ _
    | some req =>
      refine ⟨w, .error "pull failed", ⟨rfl, rfl, rfl⟩, ?_⟩
      simp only [applyOne, hj]
      exact fails_pull _ _ w
  | cronSkip c fire =>
    have hs : (agent nodeId {}).sem (.recordCronFire c.key fire) w (w.records.recordCronFire c.key fire true).1
        { w with records := (w.records.recordCronFire c.key fire true).2 } := ⟨⟨true, _, rfl, rfl⟩, trivial⟩
    have hruns := fails_at (k := .ret) hs rfl
    exact ⟨_, _, by constructor <;> rfl, hruns⟩
  | backupRun c fire =>
    have hs : (agent nodeId {}).sem (.runBackup c fire) w (w.records.recordCronFire (backupStateKey c.key) fire true).1
        { w with records := (w.records.recordCronFire (backupStateKey c.key) fire true).2 } :=
      ⟨⟨true, _, _, rfl, .inl rfl, rfl⟩, trivial⟩
    have hruns := fails_at (k := .ret) hs rfl
    exact ⟨_, _, by constructor <;> rfl, hruns⟩

/-- So may every prefix of a plan. -/
theorem runs_through (l₁ l₂ : List Action) (w : Node) :
    ∃ w', Same w w' ∧ Runs (agent nodeId {}) (applyActions (l₁ ++ l₂)).run w (applyActions l₂).run w' := by
  induction l₁ generalizing w with
  | nil => exact ⟨w, ⟨rfl, rfl, rfl⟩, .refl _ _⟩
  | cons a l₁ ih =>
    obtain ⟨w₁, res, hsame₁, hone⟩ := @runs_applyOne nodeId a w
    -- A failure is recorded, and the plan goes on.
    have hisolated : ∃ w₂, Same w₁ w₂ ∧ Runs (agent nodeId {}) (applyIsolated a).run w (.ret (.ok ())) w₂ := by
      rcases res with e | u
      · cases hc : a.config with
        | none =>
          refine ⟨w₁, ⟨rfl, rfl, rfl⟩, (hone.bind _).trans ?_⟩
          simp only [hc]
          exact .refl _ _
        | some c =>
          have hs : (agent nodeId {}).sem (.setError c.key e) w₁ ()
              { w₁ with errors := SortedMap.insert c.key e w₁.errors } := ⟨rfl, trivial⟩
          refine ⟨{ w₁ with errors := SortedMap.insert c.key e w₁.errors }, ⟨rfl, rfl, rfl⟩, (hone.bind _).trans ?_⟩
          simp only [hc]
          exact .act hs (.refl _ _)
      · exact ⟨w₁, ⟨rfl, rfl, rfl⟩, (hone.bind _).trans (.refl _ _)⟩
    obtain ⟨w₂, hsame₂, hruns⟩ := hisolated
    obtain ⟨w', hsame, hrest⟩ := ih w₂
    exact ⟨w', (hsame₁.trans hsame₂).trans hsame, Runs.bindE hruns hrest⟩

/-- Removals reach every replica of their list. -/
theorem removals_take {G : Op → Node → Prop} {rs : List ManagedReplica} {r : ManagedReplica} (hr : r ∈ rs)
    {Q : Except String Unit → Node → Prop}
    (h : Sat (agent nodeId {}) G Q (forM rs fun r => removeContainer r.id : Eff Unit).run w) :
    G (.removeContainer r.id) w := by
  induction rs with
  | nil => cases hr
  | cons r' rs ih =>
    rw [List.forM_cons] at h
    rcases List.mem_cons.mp hr with rfl | hr
    · exact h.atAct
    · have hs : (agent nodeId {}).sem (.removeContainer r'.id) w (.ok ()) w := ⟨⟨rfl, .inl rfl⟩, trivial⟩
      exact ih hr (h.runs (Runs.bindE (Runs.cmd hs) (.refl _ _)))

theorem scaleDown_take {G : Op → Node → Prop} {c : ServiceConfig} {rs : List ManagedReplica} {r : ManagedReplica}
    (hr : r ∈ rs) {Q : Except String Unit → Node → Prop}
    (h : Sat (agent nodeId {}) G Q (applyOne (.scaleDown c rs)).run w) :
    ∃ w', Same w w' ∧ G (.removeContainer r.id) w' := by
  simp only [applyOne] at h
  induction rs generalizing w with
  | nil => cases hr
  | cons r' rs ih =>
    rw [List.forM_cons] at h
    rcases List.mem_cons.mp hr with rfl | hr
    · exact ⟨w, ⟨rfl, rfl, rfl⟩, h.atAct⟩
    · obtain ⟨w₁, hsame₁, hone⟩ := @runs_retire nodeId c r' w
      obtain ⟨w', hsame, hG⟩ := ih hr (h.runs (Runs.bindE hone (.refl _ _)))
      exact ⟨w', hsame₁.trans hsame, hG⟩

/-- Every action but a rollout reaches the removal of each replica it retires. -/
theorem applyOne_take {G : Op → Node → Prop} {a : Action} {r : ManagedReplica} (hr : r ∈ a.retires)
    (hroll : ∀ c rs, a ≠ .rollout c rs) (hjob : ∀ c rs, a = .jobRun c rs → c.jobRun.isSome = true)
    {Q : Except String Unit → Node → Prop} (h : Sat (agent nodeId {}) G Q (applyOne a).run w) :
    ∃ w', Same w w' ∧ G (.removeContainer r.id) w' := by
  have hpull : ∀ image, (agent nodeId {}).sem (.pull image) w (.ok ()) w := fun _ => ⟨rfl, trivial⟩
  cases a with
  | remove key rs => exact ⟨w, ⟨rfl, rfl, rfl⟩, removals_take hr h⟩
  | scaleDown c rs => exact scaleDown_take hr h
  | rollout c rs => exact absurd rfl (hroll c rs)
  | cronRun c fire rs =>
    have h' := h.runs (Runs.bindE (Runs.cmd (hpull c.image)) (.refl _ _))
    rw [ExceptT.run_bind] at h'
    exact ⟨w, ⟨rfl, rfl, rfl⟩, removals_take hr h'.ofBind⟩
  | jobRun c rs =>
    obtain ⟨req, hreq⟩ := Option.isSome_iff_exists.mp (hjob c rs rfl)
    simp only [applyOne, hreq] at h
    have h' := h.runs (Runs.bindE (Runs.cmd (hpull c.image)) (.refl _ _))
    rw [ExceptT.run_bind] at h'
    exact ⟨w, ⟨rfl, rfl, rfl⟩, removals_take hr h'.ofBind⟩
  | noop => cases hr
  | create => cases hr
  | start => cases hr
  | cronSkip => cases hr
  | backupRun => cases hr

theorem planReconcile_jobRun {d : DesiredState} {live : Live} {cron : Option CronPlanContext} {c : ServiceConfig}
    {rs : List ManagedReplica} (h : Action.jobRun c rs ∈ planReconcile d live cron) : c.jobRun.isSome = true := by
  rcases mem_planReconcile.mp h with ⟨c', -, ha⟩ | ⟨k, rs', -, -, he⟩
  · rcases planService_config ha with hconf | ⟨rs', he⟩
    · cases hconf
      unfold planService at ha
      split at ha
      · assumption
      split at ha
      · rcases mem_planCronService ha with he | he
        · cases he
        · rcases planCronRuns_cases c ((replicasOf live c.key).filter (·.cronFireMs.isSome)) c.key cron with
            hc | ⟨fire, -, hc⟩ | ⟨fire, -, -, hc⟩
          all_goals rw [hc] at he
          all_goals cases he
      · rcases mem_planWorker ha with ⟨he, -⟩ | ⟨r, -, he, -⟩ | ⟨i, he, -⟩ | ⟨he, -⟩ | ⟨fire, he⟩ | he
        all_goals cases he
    · cases he
  · cases he

/-- A running container that is not drained, and that an action other than a rollout
    retires: some outcome of the plan takes it as it is. -/
theorem removal_takes_undrained {i : TickInput} {l₁ l₂ : List Action} {a : Action} {x : Container}
    (hsplit : w.plan i = l₁ ++ a :: l₂) (hroll : ∀ c rs, a ≠ .rollout c rs) (hx : x ∈ w.docker)
    (hr : x.replica ∈ a.retires) (hrun : x.replica.running = true)
    (hnot : ¬ Drained i.desired (w.began i).history x) :
    ¬ Sat (agent nodeId {}) TakesDrained (fun _ _ => True) (applyActions (w.plan i)).run (w.began i) := by
  intro h
  have hmem : a ∈ w.plan i := by
    rw [hsplit]
    exact List.mem_append_right _ (List.mem_cons_self ..)
  rw [hsplit] at h
  obtain ⟨w₁, hsame₁, hruns⟩ := @runs_through nodeId l₁ (a :: l₂) (w.began i)
  have hrest := h.runs hruns
  have hone : Sat (agent nodeId {}) TakesDrained (fun _ _ => True) (applyOne a).run w₁ := by
    replace hrest : Sat (agent nodeId {}) TakesDrained (fun _ _ => True)
        (applyIsolated a >>= fun _ => applyActions l₂).run w₁ := hrest
    rw [ExceptT.run_bind] at hrest
    exact hrest.ofBind.ofBind
  obtain ⟨w₂, hsame₂, htakes⟩ := applyOne_take hr hroll (fun c rs he => planReconcile_jobRun (he ▸ hmem)) hone
  have hsame := hsame₁.trans hsame₂
  have hdrained := htakes x (by rw [hsame.docker]; exact hx) (beq_self_eq_true _) hrun
  rw [hsame.desired, hsame.history] at hdrained
  exact hnot hdrained

end Removal

/-! ## The law -/

def webUpdate : ServiceConfig := { webService none with image := "web:2" }

theorem webPublished_ok : RecordOk (webPublished none) :=
  reach_invariant (A := {}) recordOk_kept (reach_webPublished none (fun _ _ _ _ _ => trivial) trivial)

theorem webPublished_rollout :
    (webPublished none).plan (tickAt (docOf [webUpdate]) 0) = [.rollout webUpdate [webContainer.replica]] := by
  have hlive : (webPublished none).liveNow = [(webUpdate.key, [webContainer.replica])] := webContainer_live rfl
  unfold Node.plan
  rw [hlive]
  exact planReconcile_rollout (c := webUpdate) _ rfl rfl rfl rfl

end LaunchPad.Agent
