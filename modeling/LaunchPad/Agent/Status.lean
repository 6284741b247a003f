/-
  LaunchPad.Agent.Status — the status a node publishes (`agent-rust/src/status.rs`, the
  status types of `types.rs`): the rollup of each desired service over the containers
  docker reports, and the minimal status of a failed pass.

  A service has no field of its own for "its container is gone": a status speaks of the
  services of the document only, each with the containers of its key. `buildStatus` is the
  builder of every pass that reads docker, `heartbeatStatus` that of a pass that failed.

  The host sample, which only the autoscaler reads, and the edge's routes, always empty
  here, are left out.

  Proved:
  - `buildStatus_keys`: the services of a status are those of the document, in order.
  - `replicas_serviceStatus`: each with all containers of its key.
  - `jobRunServiceView_spec`: what the state of a job run says of its container.
-/
import LaunchPad.Agent.Cron
import LaunchPad.Agent.Docker

namespace LaunchPad.Agent

open Lib

/-! ## The document -/

inductive ServiceState where
  | pending
  | pulling
  | starting
  | running
  | stopping
  | error
  | stopped
  deriving DecidableEq, Repr

def ServiceState.asStr : ServiceState → String
  | .pending => "pending"
  | .pulling => "pulling"
  | .starting => "starting"
  | .running => "running"
  | .stopping => "stopping"
  | .error => "error"
  | .stopped => "stopped"

structure ReplicaStatus where
  index : Int
  containerId : Option String
  hostPort : Option Int
  state : ServiceState
  image : String
  healthy : Bool
  deriving DecidableEq, Repr

structure CronRunStatus where
  lastRunAt : Option String
  lastExitCode : Option Int
  nextRunAt : Option String
  deriving DecidableEq, Repr

inductive JobRunState where
  | pending
  | running
  | succeeded
  | failed
  deriving DecidableEq, Repr

structure JobRunStatus where
  id : String
  requestedAt : String
  startedAt : Option String
  finishedAt : Option String
  exitCode : Option Int
  state : JobRunState
  message : String
  deriving DecidableEq, Repr

structure DatabaseBackupEntry where
  name : String
  lastSuccessAt : Option String
  sizeBytes : Option Int
  deriving DecidableEq, Repr

structure DatabaseBackupStatus where
  lastRunAt : Option String
  lastSuccessAt : Option String
  lastError : Option String
  nextRunAt : Option String
  databases : List DatabaseBackupEntry
  deriving DecidableEq, Repr

structure ServiceStatus where
  project : String
  service : String
  image : String
  state : ServiceState
  message : String
  containerId : Option String
  replicas : List ReplicaStatus
  desiredReplicas : Int
  runningReplicas : Int
  cron : Option CronRunStatus
  backup : Option DatabaseBackupStatus
  jobRun : Option JobRunStatus
  updatedAt : String
  deriving DecidableEq, Repr

def ServiceStatus.key (s : ServiceStatus) : String := serviceKey s.project s.service

structure CaddyStatus where
  managed : Bool
  lastReloadAt : Option String
  error : Option String
  deriving DecidableEq, Repr

structure NodeStatus where
  nodeId : String
  agentId : String
  lastSeen : String
  agentVersion : String
  services : List ServiceStatus
  caddy : CaddyStatus
  deriving DecidableEq, Repr

/-- App nodes never run Caddy. -/
def noCaddy : CaddyStatus := ⟨false, none, none⟩

/-! ## Instants as text -/

/-- `n` in at least `width` digits. -/
def padded (width n : Nat) : String :=
  let digits := toString n
  String.ofList (List.replicate (width - digits.length) '0') ++ digits

/-- The Gregorian year of an epoch day. -/
def yearOfDay (day : Int) : Int :=
  let z := day + 719468
  let doe := z % 146097
  let yoe := (doe - doe / 1460 + doe / 36524 - doe / 146096) / 365
  let y := yoe + z / 146097 * 400
  if (civilOfDay day).1 ≤ 2 then y + 1 else y

/-- Years outside 0 to 9999 are written with their sign. -/
def yearText (y : Int) : String :=
  if 0 ≤ y ∧ y ≤ 9999 then padded 4 y.toNat else (if y < 0 then "-" else "+") ++ padded 4 y.natAbs

/-- `iso_from_ms`: RFC 3339 in milliseconds; none for an instant outside chrono's range. -/
def isoFromMs (ms : Int) : Option String :=
  let day := ms / dayMs
  if day < chronoFirstDay || day > chronoLastDay then none
  else
    let (month, dayOfMonth) := civilOfDay day
    let rest := (ms % dayMs).toNat
    some (yearText (yearOfDay day) ++ "-" ++ padded 2 month.toNat ++ "-" ++ padded 2 dayOfMonth.toNat ++ "T"
      ++ padded 2 (rest / 3600000) ++ ":" ++ padded 2 (rest / 60000 % 60) ++ ":" ++ padded 2 (rest / 1000 % 60)
      ++ "." ++ padded 3 (rest % 1000) ++ "Z")

/-! ## The rollup of one service -/

def mapDockerState : ContainerState → ServiceState
  | .running => .running
  | .exited | .dead => .stopped
  | .created | .restarting => .starting
  | _ => .pending

def replicaStatus (r : ManagedReplica) : ReplicaStatus where
  index := r.index
  containerId := some r.id
  hostPort := r.hostPort
  state := mapDockerState r.state
  image := r.image
  -- The running state, not the result of the health probe.
  healthy := mapDockerState r.state == .running

def rollupState (replicas : List ReplicaStatus) (desiredReplicas : Int) (hasError : Bool) : ServiceState :=
  if hasError then .error
  else
    let running : Int := (replicas.filter (·.state == .running)).length
    if running ≥ desiredReplicas ∧ desiredReplicas > 0 then .running
    else if running > 0 then .starting
    else match replicas with
      | first :: _ => first.state
      | [] => .pending

structure CronView where
  cron : CronRunStatus
  state : ServiceState
  message : String

/-- The run with the greatest fire label; of equal ones the first. -/
def latestRun (runs : List ManagedReplica) : Option ManagedReplica :=
  runs.foldl (fun best r => match best with
    | none => some r
    | some b => if r.cronFireMs.getD 0 > b.cronFireMs.getD 0 then some r else some b) none

/-- An armed schedule counts as running; a failed run shows in the exit code only. -/
def cronServiceView (d : ServiceConfig) (reps : List ManagedReplica) (error : Option String) (nowMs : Int) : CronView :=
  let latest := latestRun (reps.filter (·.cronFireMs.isSome))
  let runInProgress := latest.any (·.running)
  let finished := latest.isSome && !runInProgress
  let lastExitCode := if finished then latest.bind (·.exitCode) else none
  let nextRunAt := match parseCronExpression (d.cron.getD "") with
    | .ok s => (nextCronFire s nowMs).bind isoFromMs
    | .error _ => none
  let cron : CronRunStatus := ⟨(latest.bind (·.cronFireMs)).bind isoFromMs, lastExitCode, nextRunAt⟩
  let nextHint := match nextRunAt with
    | some n => " · next " ++ n
    | none => ""
  match error with
  | some error => ⟨cron, .error, error⟩
  | none =>
    let message :=
      if runInProgress then "run in progress" ++ nextHint
      else match lastExitCode with
        | some code =>
          if code ≠ 0 then "last run failed (exit " ++ toString code ++ ")" ++ nextHint else "last run ok" ++ nextHint
        | none => "scheduled" ++ nextHint
    ⟨cron, .running, message⟩

structure JobRunView where
  jobRun : JobRunStatus
  state : ServiceState
  message : String

def matchesRequest (id : String) (r : ManagedReplica) : Bool := r.jobRunId == some id

/-- The rollup for the request id the CLI waits for. -/
def jobRunServiceView (req : JobRunRequest) (reps : List ManagedReplica) (error : Option String) (now : String) :
    JobRunView :=
  let view (state : JobRunState) (service : ServiceState) (message : String) (startedAt finishedAt : Option String)
      (exitCode : Option Int) : JobRunView :=
    ⟨⟨req.id, req.requestedAt, startedAt, finishedAt, exitCode, state, message⟩, service, message⟩
  match error with
  | some error => view .failed .error error none (some now) none
  | none =>
    match reps.find? (matchesRequest req.id) with
    | some r =>
      if r.running then view .running .running "job run in progress" (some req.requestedAt) none none
      else
        let code := r.exitCode.getD 1
        if code = 0 then view .succeeded .stopped "job run succeeded" (some req.requestedAt) (some now) (some code)
        else
          view .failed .error ("job run failed (exit " ++ toString code ++ ")") (some req.requestedAt) (some now)
            (some code)
    | none =>
      if reps.any (fun r => r.jobRunId.isSome && r.running) then
        view .pending .pending "waiting for previous job run to finish" none none none
      else view .pending .pending "job run pending" none none none

def serviceStatus (d : ServiceConfig) (reps : List ManagedReplica) (error : Option String)
    (backup : Option DatabaseBackupStatus) (now : String) (nowMs : Int) : ServiceStatus :=
  let replicas := reps.map replicaStatus
  let running := replicas.filter (·.state == .running)
  let base : ServiceStatus :=
    { project := d.project, service := d.service
      image := (running.head?.map (·.image)).getD d.image
      state := .pending, message := ""
      containerId := running.head?.bind (·.containerId)
      replicas, desiredReplicas := d.replicas, runningReplicas := running.length
      cron := none, backup := none, jobRun := none, updatedAt := now }
  match d.jobRun with
  | some req =>
    let view := jobRunServiceView req reps error now
    { base with state := view.state, message := view.message, desiredReplicas := 0, jobRun := some view.jobRun }
  | none =>
    if d.cron.isSome then
      let view := cronServiceView d reps error nowMs
      { base with state := view.state, message := view.message, cron := some view.cron }
    else
      let state := rollupState replicas d.replicas error.isSome
      { base with state, message := error.getD state.asStr, backup }

/-! ## The status of a node -/

structure AgentConfig where
  nodeId : String
  agentId : String
  deriving DecidableEq, Repr

def buildStatus (config : AgentConfig) (agentVersion : String) (desired : DesiredState) (live : Live)
    (errors : SortedMap String String) (backups : SortedMap String DatabaseBackupStatus) (caddy : CaddyStatus)
    (now : String) (nowMs : Int) : NodeStatus where
  nodeId := config.nodeId
  agentId := config.agentId
  lastSeen := now
  agentVersion
  services := desired.services.map fun d =>
    serviceStatus d (replicasOf live d.key) (SortedMap.get d.key errors) (SortedMap.get d.key backups) now nowMs
  caddy

/-- The status of a pass that failed: no services at all. -/
def heartbeatStatus (config : AgentConfig) (agentVersion message now : String) : NodeStatus where
  nodeId := config.nodeId
  agentId := config.agentId
  lastSeen := now
  agentVersion
  services := []
  caddy := ⟨false, none, some message⟩

/-! ## What a status says -/

section Spec

variable {d : ServiceConfig} {reps : List ManagedReplica} {error : Option String}
  {backup : Option DatabaseBackupStatus} {now : String} {nowMs : Int}

@[simp] theorem project_serviceStatus : (serviceStatus d reps error backup now nowMs).project = d.project := by
  unfold serviceStatus
  split
  · rfl
  · split <;> rfl

@[simp] theorem service_serviceStatus : (serviceStatus d reps error backup now nowMs).service = d.service := by
  unfold serviceStatus
  split
  · rfl
  · split <;> rfl

@[simp] theorem key_serviceStatus : (serviceStatus d reps error backup now nowMs).key = d.key := by
  simp [ServiceStatus.key, ServiceConfig.key]

/-- Every container of the key is in the status. -/
@[simp] theorem replicas_serviceStatus :
    (serviceStatus d reps error backup now nowMs).replicas = reps.map replicaStatus := by
  unfold serviceStatus
  split
  · rfl
  · split <;> rfl

theorem runningReplicas_serviceStatus : (serviceStatus d reps error backup now nowMs).runningReplicas =
    ((reps.map replicaStatus).filter (·.state == .running)).length := by
  unfold serviceStatus
  split
  · rfl
  · split <;> rfl

@[simp] theorem jobRun_serviceStatus : (serviceStatus d reps error backup now nowMs).jobRun =
    d.jobRun.map fun req => (jobRunServiceView req reps error now).jobRun := by
  unfold serviceStatus
  cases d.jobRun with
  | some req => rfl
  | none =>
    simp only
    split <;> rfl

theorem mapDockerState_running {s : ContainerState} : mapDockerState s = .running ↔ s = .running := by
  cases s <;> decide

theorem running_replicaStatus {r : ManagedReplica} : (replicaStatus r).state = .running ↔ r.running = true := by
  rw [ManagedReplica.running, beq_iff_eq]
  exact mapDockerState_running

/-- The services of a status are those of the document, in order. -/
theorem buildStatus_keys {config : AgentConfig} {agentVersion : String} {desired : DesiredState} {live : Live}
    {errors : SortedMap String String} {backups : SortedMap String DatabaseBackupStatus} {caddy : CaddyStatus} :
    (buildStatus config agentVersion desired live errors backups caddy now nowMs).services.map (·.key) =
      desired.services.map (·.key) := by
  simp [buildStatus]

/-- The state of a job run: an error of the pass; or the container of the request runs, or
    has ended with that code; or there is none. -/
theorem jobRunServiceView_spec (req : JobRunRequest) (reps : List ManagedReplica) (error : Option String)
    (now : String) :
    (jobRunServiceView req reps error now).jobRun.id = req.id ∧
    ((error.isSome = true ∧ (jobRunServiceView req reps error now).jobRun.state = .failed) ∨
      error = none ∧
      ((∃ r, reps.find? (matchesRequest req.id) = some r ∧ r.running = true ∧
          (jobRunServiceView req reps error now).jobRun.state = .running) ∨
        (∃ r, reps.find? (matchesRequest req.id) = some r ∧ r.running = false ∧
          (jobRunServiceView req reps error now).jobRun.exitCode = some (r.exitCode.getD 1) ∧
          (jobRunServiceView req reps error now).jobRun.state =
            if r.exitCode.getD 1 = 0 then .succeeded else .failed) ∨
        (reps.find? (matchesRequest req.id) = none ∧
          (jobRunServiceView req reps error now).jobRun.state = .pending))) := by
  cases error with
  | some e => exact ⟨rfl, .inl ⟨rfl, rfl⟩⟩
  | none =>
    cases hfind : reps.find? (matchesRequest req.id) with
    | none =>
      have hview : (jobRunServiceView req reps none now).jobRun.id = req.id ∧
          (jobRunServiceView req reps none now).jobRun.state = .pending := by
        unfold jobRunServiceView
        rw [hfind]
        by_cases hother : reps.any (fun r => r.jobRunId.isSome && r.running) = true
        · exact ⟨by simp [hother], by simp [hother]⟩
        · exact ⟨by simp [hother], by simp [hother]⟩
      exact ⟨hview.1, .inr ⟨rfl, .inr (.inr ⟨rfl, hview.2⟩)⟩⟩
    | some r =>
      have hview : (jobRunServiceView req reps none now).jobRun.id = req.id ∧
          (jobRunServiceView req reps none now).jobRun.exitCode =
            (if r.running then none else some (r.exitCode.getD 1)) ∧
          (jobRunServiceView req reps none now).jobRun.state =
            if r.running then .running else if r.exitCode.getD 1 = 0 then .succeeded else .failed := by
        unfold jobRunServiceView
        rw [hfind]
        cases hrun : r.running with
        | true => exact ⟨by simp [hrun], by simp [hrun], by simp [hrun]⟩
        | false =>
          by_cases hcode : r.exitCode.getD 1 = 0
          · exact ⟨by simp [hrun, hcode], by simp [hrun, hcode], by simp [hrun, hcode]⟩
          · exact ⟨by simp [hrun, hcode], by simp [hrun, hcode], by simp [hrun, hcode]⟩
      refine ⟨hview.1, .inr ⟨rfl, ?_⟩⟩
      cases hrun : r.running with
      | true => exact .inl ⟨r, rfl, hrun, by rw [hview.2.2, hrun]; rfl⟩
      | false => exact .inr (.inl ⟨r, rfl, hrun, by rw [hview.2.1, hrun]; rfl, by rw [hview.2.2, hrun]; rfl⟩)

end Spec

example : isoFromMs 1767225600123 = some "2026-01-01T00:00:00.123Z" := by decide +kernel

end LaunchPad.Agent
