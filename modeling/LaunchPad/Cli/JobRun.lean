/-
  LaunchPad.Cli.JobRun — `launchpad job run` once the image is built (`commands/job.ts`,
  `runJob`): the entry is published to the node's `desired.json`; an attached command then
  reads the node's status until it shows the end of its own run, and takes the entry out
  again. A detached one returns at once. The timeout bounds the polls of
  `waitForJob`; how many there are after the first is a parameter.

  Proved:
  - `waitForJob_told`: an outcome is the terminal state of that run in some status that
    was read.
-/
import LaunchPad.Agent.Status
import LaunchPad.Cli.Publish

namespace LaunchPad.Cli

open Lib Agent

inductive JobOp where
  /-- On the node's `desired.json`. -/
  | desired (o : DesiredOp)
  /-- The node's `status.json`; `none` when it is missing or does not parse. -/
  | pollStatus (nodeId : String)

abbrev JobResp : JobOp → Type
  | .desired o => S3Resp o
  | .pollStatus _ => Except S3Error (Option NodeStatus)

inductive JobError where
  | publish (e : PublishError)
  | s3 (e : S3Error)
  | timedOut (jobName : String)
  | jobFailed (jobName : String) (exitCode : Option Int) (hint : String)
  deriving DecidableEq, Repr

/-- How a command ends that did what it was asked. -/
inductive JobDone where
  | published
  | succeeded
  deriving DecidableEq, Repr

structure JobWaitOutcome where
  ok : Bool
  exitCode : Option Int
  message : String
  deriving DecidableEq, Repr

/-- The rollup of that run in a status. -/
def jobStatus (status : Option NodeStatus) (ownerProject jobName runId : String) : Option JobRunStatus :=
  status.bind fun status =>
    (status.services.find? fun s => s.project == ownerProject && s.service == jobName && s.jobRun.any (·.id == runId)).bind
      (·.jobRun)

theorem jobStatus_some (status : NodeStatus) (ownerProject jobName runId : String) :
    jobStatus (some status) ownerProject jobName runId =
      (status.services.find? fun s =>
        s.project == ownerProject && s.service == jobName && s.jobRun.any (·.id == runId)).bind (·.jobRun) := rfl

/-- What a rollup says to the waiting command. -/
def outcomeOf (run : JobRunStatus) : Option JobWaitOutcome :=
  match run.state with
  | .succeeded => some ⟨true, run.exitCode, run.message⟩
  | .failed => some ⟨false, run.exitCode, run.message⟩
  | _ => none

/-- The loop of `waitForJob`, with that many polls left before the deadline has passed. -/
def waitForJob (nodeId ownerProject jobName runId : String) : Nat → Prog JobResp (Except JobError JobWaitOutcome)
  | 0 => .ret (.error (.timedOut jobName))
  | polls + 1 => do
    match ← (Prog.cmd (JobOp.pollStatus nodeId) : Prog JobResp (Except S3Error (Option NodeStatus))) with
    | .error e => .ret (.error (.s3 e))
    | .ok status =>
      match (jobStatus status ownerProject jobName runId).bind outcomeOf with
      | some outcome => .ret (.ok outcome)
      | none => waitForJob nodeId ownerProject jobName runId polls

/-- A loop on `desired.json`, among the commands of a job. -/
def onDesired {α : Type} : Prog DesiredResp α → Prog JobResp α
  | .ret a => .ret a
  | .act o k => .act (.desired o) fun r => onDesired (k r)

/-- `runJob` from the publish on: the entry carries its run's id. -/
def runJob (nodeId : String) (incoming : ServiceConfig) (runId : String) (wait : Bool) (polls : Nat) :
    Prog JobResp (Except JobError JobDone) := do
  match ← onDesired (publishJobRun nodeId incoming) with
  | .error e => .ret (.error (.publish e))
  | .ok () =>
    if wait then
      match ← waitForJob nodeId incoming.project incoming.service runId (polls + 1) with
      | .error e => .ret (.error e)
      | .ok outcome =>
        -- `finally`: only a terminal outcome takes the entry out.
        match ← onDesired (removeJobRun nodeId incoming.project incoming.service runId) with
        | .error e => .ret (.error (.publish e))
        | .ok () =>
          if outcome.ok then .ret (.ok .succeeded)
          else .ret (.error (.jobFailed incoming.service outcome.exitCode outcome.message))
    else .ret (.ok .published)

/-! ## What the wait has seen -/

/-- A poll reads some status that was written, or none. -/
def pollSem : (o : JobOp) → List NodeStatus → JobResp o → List NodeStatus → Prop
  | .desired _, written, _, written' => written' = written
  | .pollStatus _, written, r, written' => written' = written ∧ ∀ status, r = .ok (some status) → status ∈ written

def polling : Machine JobResp (List NodeStatus) := ⟨pollSem, fun _ _ => False⟩

/-- What a wait has been told. -/
def Told (ownerProject jobName runId : String) (outcome : JobWaitOutcome) (written : List NodeStatus) : Prop :=
  ∃ status ∈ written, ∃ run, jobStatus (some status) ownerProject jobName runId = some run ∧
    outcomeOf run = some outcome

/-- An outcome is what a status that was read says of the run. -/
theorem waitForJob_told (nodeId ownerProject jobName runId : String) (polls : Nat) (written : List NodeStatus) :
    Sat polling (fun _ _ => True) (onResult (fun outcome _ => Told ownerProject jobName runId outcome written)
      fun _ _ => True) (waitForJob nodeId ownerProject jobName runId polls) written := by
  have hstable : ∀ P : List NodeStatus → Prop, polling.Stable P := fun P w w' _ h => h.elim
  induction polls with
  | zero => exact Sat.ret (hstable fun _ => True) trivial fun _ _ => trivial
  | succ polls ih =>
    simp only [waitForJob, Prog.cmd_bind]
    refine Sat.act (hstable (· = written)) rfl (fun _ _ => trivial) ?_
    rintro w r w' rfl ⟨rfl, hread⟩
    cases r with
    | error e => exact Sat.ret (hstable fun _ => True) trivial fun _ _ => trivial
    | ok status =>
      dsimp only
      cases hout : (jobStatus status ownerProject jobName runId).bind outcomeOf with
      | none => exact ih
      | some outcome =>
        obtain ⟨run, hrun, hend⟩ := Option.bind_eq_some_iff.mp hout
        cases status with
        | none => cases hrun
        | some status =>
          exact Sat.ret (hstable fun _ => True) trivial fun _ _ => ⟨status, hread status rfl, run, hrun, hend⟩

end LaunchPad.Cli
