/-
  LaunchPad.Cli.Watch — waiting for a deploy to converge (`deploy/watch.ts` `evaluate`,
  `waitForConvergence`; `deploy/protocol-mismatch.ts` `detectProtocolMismatch`). The wait
  polls the `status.json` of every target's node until each target is running its image, one
  shows an error, a node's agent is too old for the document, or the time is up. How many
  polls there are before the deadline is a parameter.

  A status has no generation number: a target is judged by its image and by the containers
  that ran before a restart.

  Proved:
  - `evaluate_ok_iff`: what a status must show of a converged target.
  - `waitForConvergence_shown`: what the wait says of a target, its last poll's status shows.
-/
import LaunchPad.Agent.Status
import LaunchPad.Cli.Dotenv
import LaunchPad.Cli.S3State
import LaunchPad.Lib.Prog

namespace LaunchPad.Cli

open Lib Agent

/-! ## Reading statuses -/

inductive StatusOp where
  /-- `none` when the object is missing or does not parse. -/
  | getStatus (nodeId : String)

abbrev StatusResp : StatusOp → Type
  | .getStatus _ => Except S3Error (Option NodeStatus)

/-- One poll: the status of each node. -/
def readStatuses : List String → ExceptT S3Error (Prog StatusResp) (List (String × Option NodeStatus))
  | [] => pure []
  | nodeId :: rest => do
    let status ← ExceptT.mk (Prog.cmd (StatusOp.getStatus nodeId) : Prog StatusResp (Except S3Error (Option NodeStatus)))
    let others ← readStatuses rest
    return (nodeId, status) :: others

/-- `statusByNode.get(nodeId) ?? null`. -/
def statusOf (statuses : List (String × Option NodeStatus)) (nodeId : String) : Option NodeStatus :=
  (SortedMap.get nodeId statuses).join

/-! ## A protocol mismatch -/

structure ProtocolMismatch where
  nodeId : String
  publishedVersion : Nat
  agentExpectedVersion : Nat
  message : String
  deriving DecidableEq, Repr

/-- The rest after `text`, which is in lower case, in either case. -/
def afterText (text s : List Char) : Option (List Char) :=
  if (s.take text.length).map Char.toLower = text then some (s.drop text.length) else none

/-- `\s+`. -/
def afterSpaces (s : List Char) : Option (List Char) :=
  if s.head?.any Cron.isSpace then some (s.dropWhile Cron.isSpace) else none

/-- `(\d+)`. -/
def afterNumber (s : List Char) : Option (Nat × List Char) :=
  if s.head?.any Char.isDigit then
    some (Nat.ofDigitChars 10 (s.takeWhile Char.isDigit) 0, s.dropWhile Char.isDigit)
  else none

/-- `PROTOCOL_MISMATCH_RE` from the start of `s`: the two versions. -/
def matchMismatch (s : List Char) : Option (Nat × Nat) := do
  let s ← afterText "unsupported desired.json version".toList s
  let s ← afterSpaces s
  let (published, s) ← afterNumber s
  let s ← afterSpaces s
  let s ← afterText "(expected".toList s
  let s ← afterSpaces s
  let (expected, s) ← afterNumber s
  let _ ← afterText ")".toList s
  return (published, expected)

/-- The first place the pattern matches at. -/
def findMismatch : List Char → Option (Nat × Nat)
  | [] => none
  | c :: s => (matchMismatch (c :: s)).or (findMismatch s)

def detectProtocolMismatch (nodeId : String) (status : Option NodeStatus) : Option ProtocolMismatch := do
  let error ← (← status).caddy.error
  let (published, expected) ← findMismatch error.toList
  return ⟨nodeId, published, expected, String.ofList (Dotenv.trim error.toList)⟩

/-! ## The watch -/

structure WatchTarget where
  nodeId : String
  project : String
  service : String
  image : String
  expectedReplicas : Int
  /-- The containers that a restart has to replace. -/
  previousContainerIds : List String := []
  deriving DecidableEq, Repr

structure WatchResult where
  target : WatchTarget
  state : ServiceState
  ok : Bool
  message : String
  deriving DecidableEq, Repr

/-- The replicas that run the target's image. -/
def WatchTarget.onImage (target : WatchTarget) (svc : ServiceStatus) : List ReplicaStatus :=
  svc.replicas.filter fun r => r.image == target.image && r.state == .running

/-- Those of them with the id of a previous container. -/
def WatchTarget.oldStillRunning (target : WatchTarget) (svc : ServiceStatus) : List String :=
  ((target.onImage svc).filterMap fun r => r.containerId.filter (· ≠ "")).filter target.previousContainerIds.contains

def WatchTarget.reported (target : WatchTarget) (status : NodeStatus) : Option ServiceStatus :=
  status.services.find? fun s => s.project == target.project && s.service == target.service

def evaluate (status : Option NodeStatus) (target : WatchTarget) : WatchResult :=
  match status.bind target.reported with
  | none =>
    { target, state := .pending, ok := false
      message := if status.isSome then "not yet reported by the agent" else "no agent status yet" }
  | some svc =>
    if svc.state = .error then
      { target, state := .error, ok := false, message := if svc.message = "" then "error" else svc.message }
    else
      let onImage : Int := (target.onImage svc).length
      let oldStillRunning := target.oldStillRunning svc
      if svc.runningReplicas ≥ target.expectedReplicas ∧ onImage ≥ target.expectedReplicas ∧ oldStillRunning.length = 0 then
        { target, state := .running, ok := true
          message := toString onImage ++ "/" ++ toString target.expectedReplicas ++ " replicas" }
      else if oldStillRunning.length > 0 then
        { target, state := svc.state, ok := false
          message := toString oldStillRunning.length ++ " old container(s) still running (" ++
            toString svc.runningReplicas ++ " running)" }
      else
        { target, state := svc.state, ok := false
          message := toString onImage ++ "/" ++ toString target.expectedReplicas ++ " on new image (" ++
            toString svc.runningReplicas ++ " running)" }

/-- The polls of `waitForConvergence`, with that many left before the deadline has passed. -/
def pollTargets (targets : List WatchTarget) : Nat → ExceptT S3Error (Prog StatusResp) (List WatchResult)
  | 0 => do
    let statuses ← readStatuses (targets.map (·.nodeId)).eraseDups
    return targets.map fun target => evaluate (statusOf statuses target.nodeId) target
  | polls + 1 => do
    let statuses ← readStatuses (targets.map (·.nodeId)).eraseDups
    let results := targets.map fun target => evaluate (statusOf statuses target.nodeId) target
    let mismatches := statuses.filterMap fun e => detectProtocolMismatch e.1 e.2
    if results.all (·.ok) then return results
    -- Protocol skew never heals on its own.
    else if !mismatches.isEmpty then return results
    else if results.any (·.state == .error) then return results
    else pollTargets targets polls

def waitForConvergence (targets : List WatchTarget) (polls : Nat) :
    ExceptT S3Error (Prog StatusResp) (List WatchResult) := pollTargets targets polls

/-! ## What a result says -/

section Evaluate

variable {status : Option NodeStatus} {target : WatchTarget}

@[simp] theorem evaluate_target : (evaluate status target).target = target := by
  unfold evaluate
  split
  · rfl
  · split
    · rfl
    · dsimp only
      split
      · rfl
      · split <;> rfl

/-- Enough replicas run the target's image, none of them a previous container, and the
    service is not in error. -/
theorem evaluate_ok_iff : (evaluate status target).ok = true ↔
    ∃ s svc, status = some s ∧ target.reported s = some svc ∧ svc.state ≠ .error ∧
      target.expectedReplicas ≤ svc.runningReplicas ∧ target.expectedReplicas ≤ (target.onImage svc).length ∧
      target.oldStillRunning svc = [] := by
  unfold evaluate
  cases hstatus : status.bind target.reported with
  | none =>
    refine ⟨nofun, ?_⟩
    rintro ⟨s, svc, rfl, hsvc, -⟩
    rw [Option.bind_some, hsvc] at hstatus
    cases hstatus
  | some svc =>
    obtain ⟨s, rfl, hsvc⟩ := Option.bind_eq_some_iff.mp hstatus
    dsimp only
    by_cases herr : svc.state = .error
    · rw [if_pos herr]
      refine ⟨nofun, ?_⟩
      rintro ⟨s', svc', hs', hsvc', hne, -⟩
      cases hs'
      rw [hsvc] at hsvc'
      cases hsvc'
      exact absurd herr hne
    · rw [if_neg herr]
      by_cases hall : svc.runningReplicas ≥ target.expectedReplicas ∧
          ((target.onImage svc).length : Int) ≥ target.expectedReplicas ∧ (target.oldStillRunning svc).length = 0
      · rw [if_pos hall]
        exact ⟨fun _ => ⟨s, svc, rfl, hsvc, herr, hall.1, hall.2.1, List.length_eq_zero_iff.mp hall.2.2⟩, fun _ => rfl⟩
      · rw [if_neg hall]
        constructor
        · intro h
          split at h <;> cases h
        · rintro ⟨s', svc', hs', hsvc', -, h1, h2, h3⟩
          cases hs'
          rw [hsvc] at hsvc'
          cases hsvc'
          exact absurd ⟨h1, h2, List.length_eq_zero_iff.mpr h3⟩ hall

end Evaluate

/-! ## What the wait has read -/

/-- A poll reads some status that the node has written, or none. -/
def statusSem : (o : StatusOp) → (String → List NodeStatus) → StatusResp o → (String → List NodeStatus) → Prop
  | .getStatus nodeId, written, r, written' => written' = written ∧ ∀ s, r = .ok (some s) → s ∈ written nodeId

def statusReads : Machine StatusResp (String → List NodeStatus) := ⟨statusSem, fun _ _ => False⟩

variable {written : String → List NodeStatus}

theorem statusReads_stable (P : (String → List NodeStatus) → Prop) : statusReads.Stable P := fun _ _ _ h => h.elim

/-- What a poll found: each node of the list once, with a status it has written, or none. -/
theorem readStatuses_told (nodeIds : List String) :
    Sat statusReads (fun _ _ => True) (onResult (fun statuses w => w = written ∧ statuses.map (·.1) = nodeIds ∧
      ∀ e ∈ statuses, ∀ s, e.2 = some s → s ∈ written e.1) fun _ _ => True) (readStatuses nodeIds).run written := by
  induction nodeIds with
  | nil => exact Sat.ret (statusReads_stable (· = written)) rfl fun w hw => ⟨hw, rfl, nofun⟩
  | cons nodeId rest ih =>
    unfold readStatuses
    refine Sat.bindE (R := fun status w => w = written ∧ ∀ s, status = some s → s ∈ written nodeId) ?_
      (fun _ => statusReads_stable _) ?_
    · refine Sat.act (statusReads_stable (· = written)) rfl (fun _ _ => trivial) ?_
      rintro w r w' rfl ⟨rfl, hread⟩
      cases r with
      | error e => exact Sat.ret (statusReads_stable fun _ => True) trivial fun _ _ => trivial
      | ok status =>
        exact Sat.ret (statusReads_stable (· = w')) rfl fun w hw => ⟨hw, fun s hs => hread s (by rw [hs])⟩
    · rintro status w ⟨rfl, hstatus⟩
      refine Sat.bindE ih (fun _ => statusReads_stable _) ?_
      rintro others w' ⟨rfl, hids, hothers⟩
      refine Sat.ret (statusReads_stable (· = w')) rfl fun w hw => ⟨hw, by rw [List.map_cons, hids], ?_⟩
      intro e he s hs
      rcases List.mem_cons.mp he with rfl | he
      · exact hstatus s hs
      · exact hothers e he s hs

theorem mem_of_statusOf {statuses : List (String × Option NodeStatus)} {nodeId : String} {s : NodeStatus}
    (h : statusOf statuses nodeId = some s) : (nodeId, some s) ∈ statuses := by
  unfold statusOf at h
  rw [Option.join_eq_some_iff] at h
  exact SortedMap.get_mem h

/-- The result of each target is that of some status its node has written, or of none. -/
def Shown (targets : List WatchTarget) (written : String → List NodeStatus) (results : List WatchResult) : Prop :=
  ∀ r ∈ results, ∃ target ∈ targets, ∃ status, r = evaluate status target ∧
    ∀ s, status = some s → s ∈ written target.nodeId

theorem shown_poll {targets : List WatchTarget} {statuses : List (String × Option NodeStatus)}
    (h : ∀ e ∈ statuses, ∀ s, e.2 = some s → s ∈ written e.1) :
    Shown targets written (targets.map fun target => evaluate (statusOf statuses target.nodeId) target) := by
  intro r hr
  obtain ⟨target, ht, rfl⟩ := List.mem_map.mp hr
  exact ⟨target, ht, _, rfl, fun s hs => h _ (mem_of_statusOf hs) s rfl⟩

/-- What the wait says of its targets, the statuses it read show. -/
theorem waitForConvergence_shown (targets : List WatchTarget) (polls : Nat) :
    Sat statusReads (fun _ _ => True) (onResult (fun results _ => Shown targets written results) fun _ _ => True)
      (waitForConvergence targets polls).run written := by
  unfold waitForConvergence
  induction polls with
  | zero =>
    refine Sat.bindE (readStatuses_told _) (fun _ => statusReads_stable _) ?_
    rintro statuses w ⟨rfl, -, hread⟩
    exact Sat.ret (statusReads_stable fun _ => True) trivial fun _ _ => shown_poll hread
  | succ polls ih =>
    refine Sat.bindE (readStatuses_told _) (fun _ => statusReads_stable _) ?_
    rintro statuses w ⟨rfl, -, hread⟩
    have hshown : Shown targets w (targets.map fun target => evaluate (statusOf statuses target.nodeId) target) :=
      shown_poll hread
    dsimp only
    split
    · exact Sat.ret (statusReads_stable fun _ => True) trivial fun _ _ => hshown
    · split
      · exact Sat.ret (statusReads_stable fun _ => True) trivial fun _ _ => hshown
      · split
        · exact Sat.ret (statusReads_stable fun _ => True) trivial fun _ _ => hshown
        · exact ih

end LaunchPad.Cli
