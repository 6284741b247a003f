/-
  LaunchPad.Agent.Volumes — who mounts a service's volumes. A volume's name is made of
  project, service and volume name, so every container of the service mounts the same
  one; `docs/configuration.md` takes such a service for its volume's only writer and asks
  for one replica.

  A service with one replica is created at index 0 and runs there as a job or a cron run,
  under the one container name docker allows; only a rollout surges past it.

  Proved:
  - `volumes_exclusive`: over all runs in which no tick finds a container of the service
    in need of replacement, no two containers of a node mount one of its volumes.
  - `rollout_shares_volume`: an image change. The rollout starts the new database while
    the old one runs on the same volume.
-/
import LaunchPad.Agent.Node

namespace LaunchPad.Agent

open Lib

/-- Label-shaped names have no underscore, the separator of container and volume names. -/
def LabelShaped (s : String) : Prop := '_' ∉ s.toList

instance (s : String) : Decidable (LabelShaped s) := by unfold LabelShaped; infer_instance

def LabelNames (c : ServiceConfig) : Prop :=
  LabelShaped c.project ∧ LabelShaped c.service ∧ ∀ v ∈ c.volumes, LabelShaped v.name

/-- The documents of the claim: label-shaped names, and one replica of the service
    wherever it has volumes. -/
def SingleReplica (project service : String) (d : DesiredState) : Prop :=
  ∀ c ∈ d.services, LabelNames c ∧
    (c.project = project → c.service = service → c.volumes ≠ [] → c.replicas = 1)

/-- No live container of the service must be replaced while it runs on volumes. -/
def NoReplacement (project service : String) (d : DesiredState) (live : Live) : Prop :=
  ∀ c ∈ d.services, c.project = project → c.service = service → c.volumes ≠ [] →
    c.jobRun = none → c.cron = none → ∀ r ∈ replicasOf live c.key, replicaNeedsReplace r c = false

/-- Runs over the documents of the claim, and those without a replacement. -/
def singleReplicaRuns (project service : String) : Admits := { tick := fun d _ => SingleReplica project service d }
def noReplacementRuns (project service : String) : Admits :=
  { tick := fun d w => SingleReplica project service d ∧ NoReplacement project service d w.liveNow }

/-- No two running containers mount a volume of the service. -/
def ExclusiveMounts (project service : String) (w : Node) : Prop :=
  ∀ x ∈ w.docker, ∀ y ∈ w.docker, x.replica.running = true → y.replica.running = true →
    ∀ name, LabelShaped name → volumeName project service name ∈ x.mounts →
      volumeName project service name ∈ y.mounts → x = y

/-! ## Names -/

theorem append_sep_inj {a b c d : List Char} (ha : '_' ∉ a) (hc : '_' ∉ c) (h : a ++ '_' :: b = c ++ '_' :: d) :
    a = c ∧ b = d := by
  induction a generalizing c with
  | nil =>
    cases c with
    | nil => exact ⟨rfl, (List.cons.inj h).2⟩
    | cons y c => exact absurd ((List.cons.inj h).1 ▸ List.mem_cons_self ..) hc
  | cons x a ih =>
    cases c with
    | nil => exact absurd ((List.cons.inj h).1.symm ▸ List.mem_cons_self ..) ha
    | cons y c =>
      obtain ⟨hxy, hrest⟩ := List.cons.inj h
      obtain ⟨hac, hbd⟩ := ih (fun hm => ha (List.mem_cons_of_mem _ hm)) (fun hm => hc (List.mem_cons_of_mem _ hm)) hrest
      exact ⟨by rw [hxy, hac], hbd⟩

/-- A volume name tells the service it belongs to. -/
theorem volumeName_inj {p s n p' s' n' : String} (hp : LabelShaped p) (hs : LabelShaped s) (hp' : LabelShaped p')
    (hs' : LabelShaped s') (h : volumeName p s n = volumeName p' s' n') : p = p' ∧ s = s' := by
  delta volumeName at h
  have hl := congrArg String.toList h
  simp only [String.toList_append, List.append_assoc] at hl
  have hl := List.append_cancel_left hl
  obtain ⟨hpp, hrest⟩ := append_sep_inj hp hp' hl
  obtain ⟨hss, -⟩ := append_sep_inj hs hs' hrest
  exact ⟨String.toList_injective hpp, String.toList_injective hss⟩

/-! ## One name for every mount -/

section Exclusive

variable {nodeId project service : String}

/-- Whatever mounts a volume of the service has the name of its replica 0. -/
structure OneName (project service : String) (w : Node) : Prop where
  docker : DockerOk w
  mounts : ∀ x ∈ w.docker, ∀ name, LabelShaped name → volumeName project service name ∈ x.mounts →
    x.replica.name = containerName project service 0

theorem OneName.exclusive {w : Node} (h : OneName project service w) : ExclusiveMounts project service w := by
  intro x hx y hy _ _ name hn hmx hmy
  have hname := (h.mounts x hx name hn hmx).trans (h.mounts y hy name hn hmy).symm
  exact List.inj_on_of_nodup_map h.docker.names hx hy hname

/-- A run of the service on its volumes takes index 0. -/
def AtZero (project service : String) (o : Op) : Prop :=
  ∀ c i p b f j, o = .runContainer c i p b f j → LabelNames c ∧
    (c.project = project → c.service = service → c.volumes ≠ [] → i = 0)

theorem OneName.shuffle {may : Container → Prop} {w w' : Node} (h : OneName project service w)
    (hs : Shuffle may w.docker w'.docker ∧ w'.issued = w.issued) : OneName project service w' := by
  refine ⟨h.docker.shuffle hs, fun x hx name hn hm => ?_⟩
  obtain ⟨y, hy, hxy⟩ := hs.1.origin hx
  obtain ⟨-, hname, -, -, -, -, hmounts, -⟩ := Container.fixed_congr hxy
  rw [← hmounts] at hm
  exact hname ▸ h.mounts y hy name hn hm

theorem oneName_keeps (hp : LabelShaped project) (hs : LabelShaped service) {A : Admits} {o : Op}
    (ho : AtZero project service o) : (agent nodeId A).Keeps (OneName project service) o := by
  rintro w r w' h ⟨hsem, -⟩
  by_cases hrun : ∀ c i p b f j, o ≠ .runContainer c i p b f j
  · exact h.shuffle (sem_shuffle hsem hrun)
  · simp only [not_forall, not_not] at hrun
    obtain ⟨c, i, p, b, f, j, rfl⟩ := hrun
    obtain ⟨hlabels, hzero⟩ := ho c i p b f j rfl
    have hdocker := dockerOk_sem h.docker hsem
    obtain ⟨docker, issued, hl, rfl⟩ := hsem
    refine ⟨hdocker, fun x hx name hn hm => ?_⟩
    rcases mem_launch hl hx with hx | ⟨id, s, -, rfl⟩
    · exact h.mounts x hx name hn hm
    · obtain ⟨v, hv, hvol⟩ := List.mem_map.mp hm
      obtain ⟨hproject, hservice⟩ := volumeName_inj hlabels.1 hlabels.2.1 hp hs hvol
      have hi := hzero hproject hservice (List.ne_nil_of_mem hv)
      show containerName c.project c.service i = _
      rw [hi, hproject, hservice]

/-! ## What such a tick plans -/

/-- With one replica wanted and none there, the index is 0. -/
theorem freeIndices_one {i : Int} (h : i ∈ freeIndices (1 - (([] : List ManagedReplica).length : Int)).toNat
    (([] : List ManagedReplica).map (·.index)) 0) : i = 0 := List.mem_singleton.mp h

theorem plan_atZero {w : Node} {i : TickInput} (hd : SingleReplica project service i.desired)
    (hn : NoReplacement project service i.desired w.liveNow) :
    Uses (AtZero project service) (applyActions (w.plan i)).run := by
  refine (uses_applyActions _).mono ?_
  rintro o ⟨a, ha, ho⟩ c idx p b f j rfl
  rcases ho with ho | ⟨c, m, -, ho⟩
  swap
  · cases ho
  rcases mem_planReconcile.mp ha with ⟨c', hc', ha⟩ | ⟨key, replicas, -, -, rfl⟩
  swap
  · obtain ⟨r, -, ho⟩ := ho
    cases ho
  obtain ⟨hlabels, hone⟩ := hd c' hc'
  unfold planService at ha
  split at ha
  · -- A job runs at index 0.
    rcases mem_planJobService ha with rfl | rfl
    · exact ho.elim
    · rcases ho with ho | ⟨r, -, ho⟩ | ⟨req, -, ho⟩
      all_goals cases ho
      exact ⟨hlabels, fun _ _ _ => rfl⟩
  split at ha
  · -- So does a cron run.
    rcases mem_planCronService ha with rfl | rfl
    · obtain ⟨r, -, ho⟩ := ho
      cases ho
    · rcases planCronRuns_cases c' _ c'.key _ with h | ⟨fire, -, h⟩ | ⟨fire, -, -, h⟩ <;> rw [h] at ho
      · exact ho.elim
      · cases ho
      · rcases ho with ho | ⟨r, -, ho⟩ | ho | ho
        all_goals cases ho
        exact ⟨hlabels, fun _ _ _ => rfl⟩
  · rename_i hjob hcron
    simp only [Option.not_isSome_iff_eq_none] at hjob hcron
    rcases mem_planWorker ha with ⟨rfl, r, hr, hrep⟩ | ⟨r, -, rfl, -, -⟩ | ⟨j, rfl, hlt, hj, -⟩ | ⟨rfl, -, -⟩ |
      ⟨fire, rfl⟩ | rfl
    · -- A rollout of the service on its volumes is excluded.
      cases ho
      refine ⟨hlabels, fun hproject hservice hvol => ?_⟩
      rw [hn c hc' hproject hservice hvol hjob hcron r hr] at hrep
      cases hrep
    · cases ho
    · rcases ho with ho | ho | ⟨hostPort, ho⟩
      all_goals cases ho
      refine ⟨hlabels, fun hproject hservice hvol => ?_⟩
      rw [hone hproject hservice hvol] at hlt hj
      have hnone : replicasOf w.liveNow c.key = [] := by
        rw [← List.length_eq_zero_iff]; omega
      rw [hnone] at hj
      exact freeIndices_one hj
    · obtain ⟨r, -, ho | ho⟩ := ho <;> cases ho
    · cases ho
    · exact ho.elim

theorem oneName_kept (hp : LabelShaped project) (hs : LabelShaped service) :
    Kept nodeId (noReplacementRuns project service) (OneName project service) (OneName project service)
      (fun _ => OneName project service) where
  fresh clock := ⟨dockerOk_fresh clock, fun _ h => by cases h⟩
  stable w w' h hr := h.shuffle (rely_shuffle hr)
  boot w h := ⟨h.docker.congr rfl rfl, h.mounts⟩
  noDesired w h := ⟨h.docker.congr rfl rfl, h.mounts⟩
  noLogin w d h := ⟨h.docker.congr rfl rfl, h.mounts⟩
  noInspect w d h := ⟨h.docker.congr rfl rfl, h.mounts⟩
  command _ _ h := h
  planned _ h := h
  finish w r w' h hsem := h.shuffle (sem_shuffle hsem fun _ _ _ _ _ _ ho => by cases ho)
  begin w i h _ ht := by
    refine Sat.ofUses (fun w w' h hr => h.shuffle (rely_shuffle hr)) (fun o ho => oneName_keeps hp hs ho)
      (fun _ _ _ h => h) (plan_atZero ht.1 ht.2) ?_
    exact ⟨h.docker.congr rfl rfl, h.mounts⟩

/-- Over every run in which no container of the service is found in need of replacement,
    its volumes have one writer at a time. -/
theorem volumes_exclusive (hp : LabelShaped project) (hs : LabelShaped service) {c : Phase × Node}
    (h : Reach nodeId (noReplacementRuns project service) c) : ExclusiveMounts project service c.2 :=
  (reach_invariant (oneName_kept hp hs) h).exclusive

end Exclusive

/-! ## An image change -/

def dbService (image : String) : ServiceConfig :=
  { project := "blog", service := "db", image, cpu := 256, memory := 512, ingress := none
    volumes := [⟨"data", "/var/lib/postgresql/data"⟩] }

def docOf (services : List ServiceConfig) : DesiredState := ⟨protocolVersion, "node-1", "t", services⟩

/-- A tick at one instant. -/
def tickAt (d : DesiredState) (clock : Int) : TickInput := ⟨d, fun _ => clock, clock, true⟩

theorem tickAt_timed (d : DesiredState) (w : Node) : (tickAt d w.clock).Timed w :=
  ⟨Int.le_refl _, fun _ => ⟨Int.le_refl _, Int.le_refl _⟩⟩

def dbContainer (image id : String) (index : Int) : Container :=
  launched (dbService image) index none none none id .running

/-- The node after the first deploy of the database. -/
def dbNode : Node :=
  { (Node.fresh 0).boot.began (tickAt (docOf [dbService "postgres:15"]) 0) with
    docker := [dbContainer "postgres:15" "a" 0], issued := ["a"] }

theorem singleReplica_doc (image : String) : SingleReplica "blog" "db" (docOf [dbService image]) := by
  intro c hc
  obtain rfl := List.mem_singleton.mp hc
  refine ⟨⟨?_, ?_, fun v hv => ?_⟩, fun _ _ _ => rfl⟩
  · show LabelShaped "blog"; decide
  · show LabelShaped "db"; decide
  · obtain rfl := List.mem_singleton.mp hv
    show LabelShaped "data"; decide

/-- The first deploy of the database, on a fresh node. -/
theorem reach_dbNode {A : Admits} (hop : ∀ o w r w', A.op o w r w')
    (hd : A.tick (docOf [dbService "postgres:15"]) (Node.fresh 0).boot) : Reach "node-1" A (.idle, dbNode) := by
  have hboot : Reach "node-1" A (.idle, (Node.fresh 0).boot) := .step (.fresh 0) (.boot _)
  have hplan : (Node.fresh 0).boot.plan (tickAt (docOf [dbService "postgres:15"]) 0)
      = [.create (dbService "postgres:15") 0] := rfl
  refine hboot.tick (tickAt_timed _ _) hd hplan ?_ rfl
  refine Runs.bindE (runs_pull _ _ (hop ..)) (Runs.bindE (runs_hostPortFor rfl 0 _) ?_)
  refine runs_runContainer ⟨_, _, ?_, rfl⟩ (hop ..)
  exact .running "a" (by decide) (fun x hx => by cases hx) (fun x hx => by cases hx)

theorem volumes_exclusive_db : ExclusiveMounts "blog" "db" dbNode :=
  volumes_exclusive (by decide) (by decide)
    (reach_dbNode (A := noReplacementRuns "blog" "db") (fun _ _ _ _ => trivial)
      ⟨singleReplica_doc _, fun c _ _ _ _ _ _ r hr => by cases hr⟩)

theorem dbNode_plan :
    dbNode.plan (tickAt (docOf [dbService "postgres:16"]) 0)
      = [.rollout (dbService "postgres:16") [(dbContainer "postgres:15" "a" 0).replica]] := by
  have hlive : dbNode.liveNow = [((dbService "postgres:16").key, [(dbContainer "postgres:15" "a" 0).replica])] :=
    inspectManaged_singleton (by decide)
  unfold Node.plan
  rw [hlive]
  exact planReconcile_rollout _ rfl rfl rfl rfl

/-- A rollout of a worker passes through the state after its first surge. -/
theorem visits_surge {nodeId : String} {A : Admits} {c : ServiceConfig} {current : List ManagedReplica} {w w' : Node}
    (hingress : c.ingress = none) (hsurge : (RolloutState.init c current).canSurge c = true)
    (hpull : A.op (.pull c.image) w (.ok ()) w)
    (hs : (agent nodeId A).sem (.runContainer c (nextIndex current) none (bindHost c) none none) w (.ok ()) w') :
    Visits (agent nodeId A) (rolloutService c current).run w w' := by
  refine Visits.right (runs_pull _ _ hpull) (Visits.left ?_ _)
  rw [rolloutLoop, dif_pos hsurge]
  refine Visits.left (Visits.right (runs_hostPortFor hingress _ _) (Visits.left ?_ _)) _
  exact ⟨_, Runs.cmd hs⟩

/-- The node in the middle of the rollout. -/
def dbSurged : Node :=
  { dbNode.began (tickAt (docOf [dbService "postgres:16"]) 0) with
    docker := [dbContainer "postgres:15" "a" 0, dbContainer "postgres:16" "b" 1], issued := ["b", "a"] }

/-- The rollout starts `postgres:16` while `postgres:15` runs on the volume. -/
theorem rollout_shares_volume :
    ¬ ∀ (nodeId project service : String), LabelShaped project → LabelShaped service → ∀ c : Phase × Node,
      Reach nodeId (singleReplicaRuns project service) c → ExclusiveMounts project service c.2 := by
  intro h
  have hb := Reach.step (reach_dbNode (A := singleReplicaRuns "blog" "db") (fun _ _ _ _ => trivial)
      (singleReplica_doc _))
    (.begin dbNode (tickAt (docOf [dbService "postgres:16"]) 0) (tickAt_timed _ _) (singleReplica_doc _))
  rw [dbNode_plan] at hb
  have hvisit : Visits (agent "node-1" (singleReplicaRuns "blog" "db"))
      (rolloutService (dbService "postgres:16") [(dbContainer "postgres:15" "a" 0).replica]).run
      (dbNode.began (tickAt (docOf [dbService "postgres:16"]) 0)) dbSurged := by
    refine visits_surge rfl rfl trivial ⟨⟨_, _, ?_, rfl⟩, trivial⟩
    refine .running "b" (by decide) (fun x hx => ?_) (fun x _ _ p hp => by cases hp)
    obtain rfl := List.mem_singleton.mp hx
    decide
  obtain ⟨q, hq⟩ := Reach.visits (a := .rollout _ _) hvisit hb
  have hsame := h "node-1" "blog" "db" (by decide) (by decide) _ hq
    (dbContainer "postgres:15" "a" 0) (List.mem_cons_self ..)
    (dbContainer "postgres:16" "b" 1) (List.mem_cons_of_mem _ (List.mem_cons_self ..)) rfl rfl "data" (by decide)
    (List.mem_cons_self ..) (List.mem_cons_self ..)
  exact absurd (congrArg (·.replica.id) hsame) (by decide)

end LaunchPad.Agent
