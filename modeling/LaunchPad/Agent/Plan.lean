/-
  LaunchPad.Agent.Plan — the reconcile planner (`agent-rust/src/reconcile.rs`,
  `plan_reconcile`): from the desired document, the live replicas and the recorded fires,
  the list of actions of one tick.

  Each `plan_*` function of the source pushes onto one vector; here it returns what it
  pushes. `planService` is the body of the loop over the desired services.

  Proved:
  - `mem_planReconcile`: an action comes from one desired service, or removes a group
    whose key is not desired.
  - `mem_planWorker`, `mem_planCronService`, `mem_planJobService`: the actions of a
    long-running, a cron and a job service, with the conditions they were planned under.
  - `dueRun_spec`: a due fire lies after the recorded one and not after now.
-/
import LaunchPad.Agent.Cron
import LaunchPad.Agent.Docker

namespace LaunchPad.Agent

open Lib

inductive Action where
  | create (config : ServiceConfig) (index : Int)
  | start (config : ServiceConfig) (index : Int) (id : String)
  | scaleDown (config : ServiceConfig) (remove : List ManagedReplica)
  | rollout (config : ServiceConfig) (replicas : List ManagedReplica)
  | remove (key : String) (replicas : List ManagedReplica)
  | cronRun (config : ServiceConfig) (fireMs : Int) (previous : List ManagedReplica)
  | jobRun (config : ServiceConfig) (previous : List ManagedReplica)
  | cronSkip (config : ServiceConfig) (fireMs : Int)
  | backupRun (config : ServiceConfig) (fireMs : Int)
  | noop (config : ServiceConfig)
  deriving DecidableEq, Repr

/-- The service config carried by the action; `remove` has none. -/
def Action.config : Action → Option ServiceConfig
  | .create c _ | .start c _ _ | .scaleDown c _ | .rollout c _ | .cronRun c _ _ | .jobRun c _
  | .cronSkip c _ | .backupRun c _ | .noop c => some c
  | .remove _ _ => none

/-- `lastFires`: per service key, the last fire recorded, or the first-sight anchor. -/
structure CronPlanContext where
  nowMs : Int
  lastFires : SortedMap String Int

/-- A live replica must be replaced to match desired. -/
def replicaNeedsReplace (r : ManagedReplica) (c : ServiceConfig) : Bool :=
  r.image != c.image || r.cpu != c.cpu || r.memory != c.memory || r.configStamp != serviceConfigStamp c

/-! ## The planner -/

/-- `fold(0, |m, r| max(m, r.cron_fire_ms.unwrap_or(0)))`. -/
def labelFire (runs : List ManagedReplica) : Int := runs.foldl (fun m r => max m (r.cronFireMs.getD 0)) 0

/-- The fire that is due for a cron service. No durable record at all, no parseable
    schedule or no context: nothing is due. -/
def dueRun (c : ServiceConfig) (runs : List ManagedReplica) (key : String) (cron : Option CronPlanContext) :
    Option Int :=
  match cron, parseCronExpression (c.cron.getD "") with
  | some cron, .ok schedule =>
    let anchored := SortedMap.get key cron.lastFires
    if labelFire runs = 0 ∧ anchored = none then none
    else dueCronFire schedule (max (labelFire runs) (anchored.getD 0)) cron.nowMs
  | _, _ => none

/-- What is planned for a cron service once its leftovers are removed: a run still in
    progress suppresses the due fire, which is recorded as skipped. -/
def planCronRuns (c : ServiceConfig) (runs : List ManagedReplica) (key : String) (cron : Option CronPlanContext) :
    Action :=
  match dueRun c runs key cron with
  | none => .noop c
  | some due => if runs.any (·.running) then .cronSkip c due else .cronRun c due runs

def planCronService (c : ServiceConfig) (have_ : List ManagedReplica) (key : String)
    (cron : Option CronPlanContext) : List Action :=
  let stale := have_.filter (·.cronFireMs.isNone)
  let runs := have_.filter (·.cronFireMs.isSome)
  (if stale.isEmpty then [] else [.remove key stale]) ++ [planCronRuns c runs key cron]

def planJobService (c : ServiceConfig) (have_ : List ManagedReplica) : List Action :=
  match c.jobRun with
  | none => []
  | some req =>
    if have_.any (fun r => r.jobRunId == some req.id) then [.noop c]
    -- No overlap: a still-running previous job owns the container name.
    else if have_.any (fun r => r.jobRunId.isSome && r.running) then [.noop c]
    else [.jobRun c have_]

/-- `backup_state_key`. -/
def backupStateKey (key : String) : String := "backup:" ++ key

def planBackupService (c : ServiceConfig) (have_ : List ManagedReplica) (key : String)
    (cron : Option CronPlanContext) : List Action :=
  match c.backup, cron with
  | some backup, some cron =>
    match SortedMap.get (backupStateKey key) cron.lastFires with
    | none => []
    | some lastFire =>
      match parseCronExpression backup.schedule with
      | .error _ => []
      | .ok schedule =>
        match dueCronFire schedule lastFire cron.nowMs with
        | none => []
        -- A dump needs the engine running: otherwise the fire stays unrecorded.
        | some due => if have_.any (·.running) then [.backupRun c due] else []
  | _, _ => []

/-- `while used.contains(&idx) { idx += 1 }`: at most `used` is passed over. -/
def nextFree (used : List Int) : Nat → Int → Int
  | 0, idx => idx
  | fuel + 1, idx => if used.contains idx then nextFree used fuel (idx + 1) else idx

/-- The `n` lowest indices not in `used`, from `idx` up. -/
def freeIndices : Nat → List Int → Int → List Int
  | 0, _, _ => []
  | n + 1, used, idx =>
    let i := nextFree used used.length idx
    i :: freeIndices n (i :: used) (i + 1)

/-- The replicas to retire, highest indices first. -/
def extras (have_ : List ManagedReplica) (replicas : Int) : List ManagedReplica :=
  (have_.mergeSort fun a b => decide (b.index ≤ a.index)).take ((have_.length : Int) - replicas).toNat

/-- The long-running branch: replace, else start, create or scale down. -/
def planWorker (c : ServiceConfig) (have_ : List ManagedReplica) (key : String) (cron : Option CronPlanContext) :
    List Action :=
  if have_.any (replicaNeedsReplace · c) then [.rollout c have_]
  else
    let stopped := have_.filter (!·.running)
    let starts := stopped.map fun r => Action.start c r.index r.id
    let haveLen : Int := have_.length
    let converged := stopped.isEmpty && haveLen == c.replicas
    let sized :=
      if haveLen < c.replicas then
        (freeIndices (c.replicas - haveLen).toNat (have_.map (·.index)) 0).map (Action.create c)
      else if haveLen > c.replicas then [.scaleDown c (extras have_ c.replicas)]
      else if converged && c.backup.isNone then [.noop c] else []
    let backups := planBackupService c have_ key cron
    starts ++ sized ++ if c.backup.isSome && backups.isEmpty && converged then [.noop c] else backups

def planService (c : ServiceConfig) (have_ : List ManagedReplica) (key : String) (cron : Option CronPlanContext) :
    List Action :=
  if c.jobRun.isSome then planJobService c have_
  else if c.cron.isSome then planCronService c have_ key cron
  else planWorker c have_ key cron

def planReconcile (desired : DesiredState) (actual : Live) (cron : Option CronPlanContext) : List Action :=
  (desired.services.flatMap fun c => planService c (replicasOf actual c.key) c.key cron)
  ++ (actual.filter fun e => !(desired.services.map (·.key)).contains e.1).map fun e => .remove e.1 e.2

/-! ## What each action says of the state it was planned from -/

theorem mem_planReconcile {desired : DesiredState} {actual : Live} {cron : Option CronPlanContext} {a : Action} :
    a ∈ planReconcile desired actual cron ↔
      (∃ c ∈ desired.services, a ∈ planService c (replicasOf actual c.key) c.key cron) ∨
        ∃ key replicas, (key, replicas) ∈ actual ∧ (∀ c ∈ desired.services, c.key ≠ key) ∧
          a = .remove key replicas := by
  unfold planReconcile
  simp only [List.mem_append, List.mem_flatMap, List.mem_map, List.mem_filter, Bool.not_eq_true',
    List.contains_eq_mem, decide_eq_false_iff_not, not_exists, not_and]
  constructor
  · rintro (h | ⟨⟨key, replicas⟩, ⟨hm, hk⟩, rfl⟩)
    · exact .inl h
    · exact .inr ⟨key, replicas, hm, hk, rfl⟩
  · rintro (h | ⟨key, replicas, hm, hk, rfl⟩)
    · exact .inl h
    · exact .inr ⟨(key, replicas), ⟨hm, hk⟩, rfl⟩

/-- The plan of a document of one long-running service, when its replicas must be replaced. -/
theorem planReconcile_rollout {desired : DesiredState} {c : ServiceConfig} {have_ : List ManagedReplica}
    (cron : Option CronPlanContext) (hd : desired.services = [c]) (hjob : c.jobRun = none) (hcron : c.cron = none)
    (hrep : have_.any (replicaNeedsReplace · c) = true) :
    planReconcile desired [(c.key, have_)] cron = [.rollout c have_] := by
  have hworker : planWorker c have_ c.key cron = [.rollout c have_] := by
    unfold planWorker
    rw [if_pos hrep]
  simp [planReconcile, hd, replicasOf, SortedMap.get, planService, hworker, hjob, hcron]

theorem planBackupService_mem {c : ServiceConfig} {have_ : List ManagedReplica} {key : String}
    {cron : Option CronPlanContext} {a : Action} (h : a ∈ planBackupService c have_ key cron) :
    ∃ fire, a = .backupRun c fire := by
  unfold planBackupService at h
  split at h
  · split at h
    · cases h
    · split at h
      · cases h
      · split at h
        · cases h
        · rename_i due _
          split at h
          · rw [List.mem_singleton] at h; exact ⟨due, h⟩
          · cases h
  · cases h

/-- The long-running branch, action by action. -/
theorem mem_planWorker {c : ServiceConfig} {have_ : List ManagedReplica} {key : String}
    {cron : Option CronPlanContext} {a : Action} (h : a ∈ planWorker c have_ key cron) :
    (a = .rollout c have_ ∧ ∃ r ∈ have_, replicaNeedsReplace r c = true) ∨
    (∃ r ∈ have_, a = .start c r.index r.id ∧ r.running = false ∧ ∀ r ∈ have_, replicaNeedsReplace r c = false) ∨
    (∃ i, a = .create c i ∧ (have_.length : Int) < c.replicas ∧
      i ∈ freeIndices (c.replicas - have_.length).toNat (have_.map (·.index)) 0 ∧
      ∀ r ∈ have_, replicaNeedsReplace r c = false) ∨
    (a = .scaleDown c (extras have_ c.replicas) ∧ c.replicas < have_.length ∧
      ∀ r ∈ have_, replicaNeedsReplace r c = false) ∨
    (∃ fire, a = .backupRun c fire) ∨ a = .noop c := by
  unfold planWorker at h
  split at h
  · rename_i hany
    rw [List.mem_singleton] at h
    exact .inl ⟨h, List.any_eq_true.mp hany⟩
  · rename_i hany
    have hno : ∀ r ∈ have_, replicaNeedsReplace r c = false := by
      intro r hr
      rw [← Bool.not_eq_true]
      exact fun h => hany (List.any_eq_true.mpr ⟨r, hr, h⟩)
    simp only [List.mem_append, List.mem_map, List.mem_filter] at h
    rcases h with (⟨r, ⟨hr, hstop⟩, rfl⟩ | h) | h
    · exact .inr (.inl ⟨r, hr, rfl, by simpa using hstop, hno⟩)
    · split at h
      · rename_i hlt
        obtain ⟨i, hi, rfl⟩ := List.mem_map.mp h
        exact .inr (.inr (.inl ⟨i, rfl, hlt, hi, hno⟩))
      · split at h
        · rename_i hgt
          rw [List.mem_singleton] at h
          exact .inr (.inr (.inr (.inl ⟨h, hgt, hno⟩)))
        · split at h
          · rw [List.mem_singleton] at h
            exact .inr (.inr (.inr (.inr (.inr h))))
          · cases h
    · split at h
      · rw [List.mem_singleton] at h
        exact .inr (.inr (.inr (.inr (.inr h))))
      · exact .inr (.inr (.inr (.inr (.inl (planBackupService_mem h)))))

theorem mem_planCronService {c : ServiceConfig} {have_ : List ManagedReplica} {key : String}
    {cron : Option CronPlanContext} {a : Action} (h : a ∈ planCronService c have_ key cron) :
    a = .remove key (have_.filter (·.cronFireMs.isNone)) ∨
    a = planCronRuns c (have_.filter (·.cronFireMs.isSome)) key cron := by
  unfold planCronService at h
  simp only [List.mem_append, List.mem_singleton] at h
  rcases h with h | h
  · split at h
    · cases h
    · exact .inl (List.mem_singleton.mp h)
  · exact .inr h

/-- The fold is the largest label, or 0. -/
theorem labelFire_spec (runs : List ManagedReplica) :
    0 ≤ labelFire runs ∧ (∀ r ∈ runs, r.cronFireMs.getD 0 ≤ labelFire runs) ∧
      (labelFire runs = 0 ∨ ∃ r ∈ runs, labelFire runs = r.cronFireMs.getD 0) := by
  have key : ∀ (l : List ManagedReplica) (m : Int),
      m ≤ l.foldl (fun m r => max m (r.cronFireMs.getD 0)) m ∧
        (∀ r ∈ l, r.cronFireMs.getD 0 ≤ l.foldl (fun m r => max m (r.cronFireMs.getD 0)) m) ∧
        (l.foldl (fun m r => max m (r.cronFireMs.getD 0)) m = m ∨
          ∃ r ∈ l, l.foldl (fun m r => max m (r.cronFireMs.getD 0)) m = r.cronFireMs.getD 0) := by
    intro l
    induction l with
    | nil => exact fun m => ⟨Int.le_refl m, fun _ h => (by cases h), .inl rfl⟩
    | cons r l ih =>
      intro m
      obtain ⟨h1, h2, h3⟩ := ih (max m (r.cronFireMs.getD 0))
      rw [List.foldl_cons]
      refine ⟨by omega, fun r' hr' => ?_, ?_⟩
      · rcases List.mem_cons.mp hr' with rfl | hr'
        · omega
        · exact h2 r' hr'
      · rcases h3 with h3 | ⟨r', hr', h3⟩
        · rcases Int.le_total m (r.cronFireMs.getD 0) with hle | hle
          · exact .inr ⟨r, List.mem_cons_self .., by rw [h3]; omega⟩
          · exact .inl (by rw [h3]; omega)
        · exact .inr ⟨r', List.mem_cons_of_mem _ hr', h3⟩
  exact key runs 0

/-- A due fire lies after every record and not after now. -/
theorem dueRun_spec {c : ServiceConfig} {runs : List ManagedReplica} {key : String} {cron : CronPlanContext}
    {fire : Int} (h : dueRun c runs key (some cron) = some fire) :
    (∀ last, SortedMap.get key cron.lastFires = some last → last < fire) ∧
      0 < fire ∧ fire ≤ cron.nowMs ∧ minuteMs ∣ fire := by
  unfold dueRun at h
  split at h
  · rename_i cron' schedule hcron _
    cases hcron
    simp only at h
    split at h
    · cases h
    · obtain ⟨hlt, hle, hdvd, _⟩ := dueCronFire_spec h
      have h0 := (labelFire_spec runs).1
      refine ⟨fun last hlast => ?_, by omega, hle, hdvd⟩
      rw [hlast, Option.getD_some] at hlt
      omega
  · cases h

theorem planCronRuns_cases (c : ServiceConfig) (runs : List ManagedReplica) (key : String)
    (cron : Option CronPlanContext) :
    planCronRuns c runs key cron = .noop c ∨
    (∃ fire, dueRun c runs key cron = some fire ∧ planCronRuns c runs key cron = .cronSkip c fire) ∨
    ∃ fire, dueRun c runs key cron = some fire ∧ (∀ r ∈ runs, r.running = false) ∧
      planCronRuns c runs key cron = .cronRun c fire runs := by
  unfold planCronRuns
  split
  · exact .inl rfl
  · rename_i due hdue
    split
    · exact .inr (.inl ⟨due, hdue, rfl⟩)
    · rename_i hrun
      refine .inr (.inr ⟨due, hdue, fun r hr => ?_, rfl⟩)
      rw [← Bool.not_eq_true]
      exact fun h => hrun (List.any_eq_true.mpr ⟨r, hr, h⟩)

theorem mem_planJobService {c : ServiceConfig} {have_ : List ManagedReplica} {a : Action}
    (h : a ∈ planJobService c have_) : a = .noop c ∨ a = .jobRun c have_ := by
  unfold planJobService at h
  split at h
  · cases h
  · split at h
    · exact .inl (List.mem_singleton.mp h)
    · split at h
      · exact .inl (List.mem_singleton.mp h)
      · exact .inr (List.mem_singleton.mp h)

/-- The replicas an action retires, or may retire. -/
def Action.replicas : Action → List ManagedReplica
  | .scaleDown _ rs | .rollout _ rs | .remove _ rs | .cronRun _ _ rs | .jobRun _ rs => rs
  | _ => []

/-- Every action of a service carries its config, except the removal of its leftovers. -/
theorem planService_config {c : ServiceConfig} {have_ : List ManagedReplica} {key : String}
    {cron : Option CronPlanContext} {a : Action} (h : a ∈ planService c have_ key cron) :
    a.config = some c ∨ ∃ rs, a = .remove key rs := by
  unfold planService at h
  split at h
  · rcases mem_planJobService h with rfl | rfl <;> exact .inl rfl
  split at h
  · rcases mem_planCronService h with rfl | rfl
    · exact .inr ⟨_, rfl⟩
    · rcases planCronRuns_cases c (have_.filter (·.cronFireMs.isSome)) key cron with h | ⟨fire, -, h⟩ | ⟨fire, -, -, h⟩
        <;> rw [h] <;> exact .inl rfl
  · rcases mem_planWorker h with ⟨rfl, -⟩ | ⟨r, -, rfl, -⟩ | ⟨i, rfl, -⟩ | ⟨rfl, -⟩ | ⟨fire, rfl⟩ | rfl <;> exact .inl rfl

/-- An action retires live replicas of its service, and starts one of them. -/
theorem planService_replicas {c : ServiceConfig} {have_ : List ManagedReplica} {key : String}
    {cron : Option CronPlanContext} {a : Action} (h : a ∈ planService c have_ key cron) :
    (∀ r ∈ a.replicas, r ∈ have_) ∧ ∀ c' i id, a = .start c' i id → ∃ r ∈ have_, r.id = id := by
  unfold planService at h
  split at h
  · rcases mem_planJobService h with rfl | rfl
    · exact ⟨fun r hr => (by cases hr), fun _ _ _ he => by cases he⟩
    · exact ⟨fun r hr => hr, fun _ _ _ he => by cases he⟩
  split at h
  · rcases mem_planCronService h with rfl | rfl
    · exact ⟨fun r hr => (List.mem_filter.mp hr).1, fun _ _ _ he => by cases he⟩
    · rcases planCronRuns_cases c (have_.filter (·.cronFireMs.isSome)) key cron with h | ⟨fire, -, h⟩ | ⟨fire, -, -, h⟩
        <;> rw [h]
      · exact ⟨fun r hr => (by cases hr), fun _ _ _ he => by cases he⟩
      · exact ⟨fun r hr => (by cases hr), fun _ _ _ he => by cases he⟩
      · exact ⟨fun r hr => (List.mem_filter.mp hr).1, fun _ _ _ he => by cases he⟩
  · rcases mem_planWorker h with ⟨rfl, -⟩ | ⟨r, hr, rfl, -⟩ | ⟨i, rfl, -⟩ | ⟨rfl, -⟩ | ⟨fire, rfl⟩ | rfl
    · exact ⟨fun r hr => hr, fun _ _ _ he => by cases he⟩
    · refine ⟨fun r hr => (by cases hr), fun _ _ _ he => ?_⟩
      cases he
      exact ⟨r, hr, rfl⟩
    · exact ⟨fun r hr => (by cases hr), fun _ _ _ he => by cases he⟩
    · refine ⟨fun r hr => ?_, fun _ _ _ he => by cases he⟩
      exact (List.mergeSort_perm _ _).mem_iff.mp (List.mem_of_mem_take hr)
    · exact ⟨fun r hr => (by cases hr), fun _ _ _ he => by cases he⟩
    · exact ⟨fun r hr => (by cases hr), fun _ _ _ he => by cases he⟩

/-- While the run is listed, no action of a plan retires its container. -/
theorem planReconcile_keeps_job {desired : DesiredState} {docker : List Container} {cron : Option CronPlanContext}
    (hkeys : (desired.services.map (·.key)).Nodup) (hids : (docker.map (·.replica.id)).Nodup) {e : ServiceConfig}
    (he : e ∈ desired.services) {id : String} (hrun : e.jobRun.map (·.id) = some id) {x : Container} (hx : x ∈ docker)
    (hkey : x.replica.key = e.key) (hid : x.replica.jobRunId = some id) {a : Action}
    (ha : a ∈ planReconcile desired (inspectManaged docker) cron) : ∀ r ∈ a.replicas, r.id ≠ x.replica.id := by
  intro r hr hsame
  -- what an action retires is live, so it would be the container itself
  have hlive : ∀ {key}, r ∈ replicasOf (inspectManaged docker) key → r = x.replica ∧ key = e.key := by
    intro key hmem
    obtain ⟨⟨y, hy, rfl⟩, -, hk⟩ := mem_replicasOf.mp hmem
    obtain rfl := List.inj_on_of_nodup_map hids hy hx hsame
    exact ⟨rfl, hk.symm.trans hkey⟩
  rcases mem_planReconcile.mp ha with ⟨c, hc, ha⟩ | ⟨key, replicas, hgroup, hno, rfl⟩
  · have hmem := (planService_replicas ha).1 r hr
    obtain ⟨rfl, hk⟩ := hlive hmem
    obtain rfl := List.inj_on_of_nodup_map hkeys hc he hk
    obtain ⟨req, hreq, rfl⟩ := Option.map_eq_some_iff.mp hrun
    -- the planner finds the request's container
    have hfound : (replicasOf (inspectManaged docker) c.key).any (fun r => r.jobRunId == some req.id) = true :=
      List.any_eq_true.mpr ⟨_, hmem, beq_iff_eq.mpr hid⟩
    simp only [planService, hreq, Option.isSome_some, if_true, planJobService, hfound] at ha
    rw [List.mem_singleton.mp ha] at hr
    cases hr
  · have hmem : r ∈ replicasOf (inspectManaged docker) key := by
      rw [← group_eq hgroup]
      exact hr
    exact hno e he (hlive hmem).2.symm

end LaunchPad.Agent
