/-
  LaunchPad.Cli.Drain — waiting for containers to stop: `drained` and `waitForDrain` after a
  destroy (`commands/destroy.ts`), `waitForVictimDrained` before a node is terminated
  (`commands/autoscale.ts`). Both poll `status.json` and take what a status does not list as
  stopped. How many polls there are before the deadline is a parameter.

  Proved:
  - `drained_iff`, `victimDrained_iff`: what a status must not list.
  - `waitForDrain_shown`, `waitForVictimDrained_shown`: a drain that is reported, the
    statuses that were read show.
-/
import LaunchPad.Cli.Alerts
import LaunchPad.Cli.Watch

namespace LaunchPad.Cli.Drain

open Lib Agent

/-! ## A destroy -/

/-- The service is one of those that were removed: all of the owner's, when there is no set. -/
def removed (ownerProject : String) (removeSet : Option (List String)) (project service : String) : Bool :=
  project == ownerProject && removeSet.all (·.contains service)

/-- No removed service is reported as running; `none` is a status that does not parse. -/
def drained (status : Option NodeStatus) (ownerProject : String) (removeSet : Option (List String)) : Bool :=
  match status with
  | none => false
  | some status => !status.services.any fun s =>
    removed ownerProject removeSet s.project s.service &&
      (decide (s.runningReplicas > 0) || s.replicas.any (·.state == .running))

structure DrainResult where
  drained : Bool
  unreachable : List String
  deriving DecidableEq, Repr

section Drain

variable (dateParse : String → Option Int)

/-- The nodes without a live heartbeat. -/
def unreachable (nowMs : Int) (statuses : List (String × Option NodeStatus)) : List String :=
  (statuses.filter fun e => e.2.all fun status => Alerts.heartbeatStale dateParse status.lastSeen nowMs heartbeatStaleMs).map (·.1)

/-- `nowMs` is the time at the last poll, the one that finds the deadline passed. -/
def waitForDrain (nodeIds : List String) (ownerProject : String) (removeSet : Option (List String)) (nowMs : Int) :
    Nat → ExceptT S3Error (Prog StatusResp) DrainResult
  | 0 => do
    let statuses ← readStatuses nodeIds
    if statuses.all fun e => drained e.2 ownerProject removeSet then return ⟨true, []⟩
    else return ⟨false, unreachable dateParse nowMs statuses⟩
  | polls + 1 => do
    let statuses ← readStatuses nodeIds
    if statuses.all fun e => drained e.2 ownerProject removeSet then return ⟨true, []⟩
    else waitForDrain nodeIds ownerProject removeSet nowMs polls

end Drain

/-! ## A scale-in -/

def victimDrained (status : Option NodeStatus) : Bool := status.any fun status => status.services.all (·.runningReplicas == 0)

def waitForVictimDrained (nodeId : String) : Nat → ExceptT S3Error (Prog StatusResp) Bool
  | 0 => do
    let statuses ← readStatuses [nodeId]
    return statuses.all fun e => victimDrained e.2
  | polls + 1 => do
    let statuses ← readStatuses [nodeId]
    if statuses.all fun e => victimDrained e.2 then return true
    else waitForVictimDrained nodeId polls

/-! ## What a drain was read from -/

theorem drained_iff {status : Option NodeStatus} {ownerProject : String} {removeSet : Option (List String)} :
    drained status ownerProject removeSet = true ↔ ∃ s, status = some s ∧ ∀ svc ∈ s.services,
      removed ownerProject removeSet svc.project svc.service = true →
        svc.runningReplicas ≤ 0 ∧ ∀ r ∈ svc.replicas, r.state ≠ .running := by
  cases status with
  | none => simp [drained]
  | some s =>
    simp only [drained, Bool.not_eq_true', List.any_eq_false, Bool.and_eq_true, Bool.or_eq_true, decide_eq_true_eq,
      List.any_eq_true, beq_iff_eq, not_and, not_or, not_exists, Option.some.injEq, exists_eq_left']
    exact ⟨fun h svc hsvc hrem => ⟨Int.not_lt.mp (h svc hsvc hrem).1, (h svc hsvc hrem).2⟩,
      fun h svc hsvc hrem => ⟨Int.not_lt.mpr (h svc hsvc hrem).1, (h svc hsvc hrem).2⟩⟩

theorem victimDrained_iff {status : Option NodeStatus} :
    victimDrained status = true ↔ ∃ s, status = some s ∧ ∀ svc ∈ s.services, svc.runningReplicas = 0 := by
  cases status with
  | none => simp [victimDrained]
  | some s => simp [victimDrained]

variable {written : String → List NodeStatus}

/-- Each node's part of a poll that all of them pass. -/
theorem poll_passed {nodeIds : List String} {statuses : List (String × Option NodeStatus)}
    (passes : Option NodeStatus → Bool) (hids : statuses.map (·.1) = nodeIds) (hread : ∀ e ∈ statuses, ∀ s, e.2 = some s → s ∈ written e.1)
    (hnone : passes none = false) (hall : (statuses.all fun e => passes e.2) = true) :
    ∀ nodeId ∈ nodeIds, ∃ s ∈ written nodeId, passes (some s) = true := by
  intro nodeId hid
  rw [← hids] at hid
  obtain ⟨⟨id, status⟩, he, rfl⟩ := List.mem_map.mp hid
  have hpass := List.all_eq_true.mp hall _ he
  cases status with
  | none => rw [hnone] at hpass; cases hpass
  | some s => exact ⟨s, hread _ he s rfl, hpass⟩

/-- A drain that is reported was read of a status of each node. -/
theorem waitForDrain_shown (dateParse : String → Option Int) (nodeIds : List String) (ownerProject : String)
    (removeSet : Option (List String)) (nowMs : Int) (polls : Nat) :
    Sat statusReads (fun _ _ => True) (onResult (fun (result : DrainResult) _ => result.drained = true →
        ∀ nodeId ∈ nodeIds, ∃ s ∈ written nodeId, drained (some s) ownerProject removeSet = true) fun _ _ => True)
      (waitForDrain dateParse nodeIds ownerProject removeSet nowMs polls).run written := by
  induction polls with
  | zero =>
    refine Sat.bindE (readStatuses_told _) (fun _ => statusReads_stable _) ?_
    rintro statuses w ⟨rfl, hids, hread⟩
    split
    · rename_i hall
      exact Sat.ret (statusReads_stable fun _ => True) trivial fun _ _ _ =>
        poll_passed (drained · ownerProject removeSet) hids hread rfl hall
    · exact Sat.ret (statusReads_stable fun _ => True) trivial fun _ _ h => nomatch h
  | succ polls ih =>
    refine Sat.bindE (readStatuses_told _) (fun _ => statusReads_stable _) ?_
    rintro statuses w ⟨rfl, hids, hread⟩
    split
    · rename_i hall
      exact Sat.ret (statusReads_stable fun _ => True) trivial fun _ _ _ =>
        poll_passed (drained · ownerProject removeSet) hids hread rfl hall
    · exact ih

theorem waitForVictimDrained_shown (nodeId : String) (polls : Nat) :
    Sat statusReads (fun _ _ => True) (onResult (fun confirmed _ => confirmed = true →
        ∃ s ∈ written nodeId, victimDrained (some s) = true) fun _ _ => True)
      (waitForVictimDrained nodeId polls).run written := by
  induction polls with
  | zero =>
    refine Sat.bindE (readStatuses_told _) (fun _ => statusReads_stable _) ?_
    rintro statuses w ⟨rfl, hids, hread⟩
    exact Sat.ret (statusReads_stable fun _ => True) trivial fun _ _ hall =>
      poll_passed victimDrained hids hread rfl hall nodeId (List.mem_singleton.mpr rfl)
  | succ polls ih =>
    refine Sat.bindE (readStatuses_told _) (fun _ => statusReads_stable _) ?_
    rintro statuses w ⟨rfl, hids, hread⟩
    split
    · rename_i hall
      exact Sat.ret (statusReads_stable fun _ => True) trivial fun _ _ _ =>
        poll_passed victimDrained hids hread rfl hall nodeId (List.mem_singleton.mpr rfl)
    · exact ih

end LaunchPad.Cli.Drain
