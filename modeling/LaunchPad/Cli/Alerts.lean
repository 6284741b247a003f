/-
  LaunchPad.Cli.Alerts — the cluster's health check (`cli/src/alerts/evaluate.ts`) over the
  statuses the agents build (`agent-rust/src/status.rs` `build_status`).

  `Date.parse` is a parameter. All alerts of this version are critical; they are sorted by
  node, in the order of the nodes for one node.

  As built: a service that wants replicas and runs none is alerted as down. A cron service
  wants its replicas between two runs too, when nothing of it runs by design: the agent
  reports it as running, armed, with the document's replica count, and the check calls it
  down (`armed_cron_alerts`). A job run wants none in its status and is spared.

  Proved:
  - `serviceAlert_iff`: what a status must say of a service to be alerted.
  - `no_false_alert_iff`: on a converged node without errors no service is alerted exactly
    when every cron service is in the middle of a run.
-/
import LaunchPad.Agent.Status
import LaunchPad.Cli.Cluster
import Mathlib.Data.List.Sort

namespace LaunchPad.Cli.Alerts

open Lib Agent

inductive AlertSeverity where
  | warning
  | critical
  deriving DecidableEq, Repr

inductive AlertKind where
  | heartbeatStale
  | serviceUnhealthy
  deriving DecidableEq, Repr

structure Alert where
  nodeId : String
  kind : AlertKind
  severity : AlertSeverity
  message : String
  /-- Of an unhealthy service: its key. -/
  service : Option String := none
  deriving DecidableEq, Repr

/-- `DEFAULT_BOOT_GRACE_MS`. -/
def defaultBootGraceMs : Int := 600000

structure AlertNodeInput where
  nodeId : String
  state : NodeState
  createdAt : String
  status : Option NodeStatus

def severityRank : AlertSeverity → Nat
  | .critical => 0
  | .warning => 1

/-- The states of a node that is supposed to run. -/
def isLiveState : NodeState → Bool
  | .ready | .provisioning => true
  | .stopped | .terminating | .terminated => false

/-- `Math.round` of a quotient. -/
def rounded (n d : Int) : Int := (2 * n + d) / (2 * d)

section Evaluate

variable (dateParse : String → Option Int)

/-- `isHeartbeatStale` of a text; one that is no time is stale. -/
def heartbeatStale (lastSeen : String) (nowMs staleMs : Int) : Bool :=
  match dateParse lastSeen with
  | none => true
  | some seen => isHeartbeatStale seen nowMs staleMs

def serviceAlert (nodeId : String) (s : ServiceStatus) : Option Alert :=
  if s.state = .error then
    some {
      nodeId, kind := .serviceUnhealthy, severity := .critical, service := some s.key
      message := "service " ++ s.key ++ " is in error" ++ if s.message != "" then ": " ++ s.message else "" }
  else if s.desiredReplicas > 0 ∧ s.runningReplicas = 0 then
    some {
      nodeId, kind := .serviceUnhealthy, severity := .critical, service := some s.key
      message := "service " ++ s.key ++ " has 0/" ++ toString s.desiredReplicas ++ " replicas running" }
  else none

/-- A node that never reported gets its boot window. -/
def bootAlert (n : AlertNodeInput) (nowMs bootGraceMs : Int) : List Alert :=
  match dateParse n.createdAt with
  | none => []
  | some createdAt =>
    if nowMs - createdAt ≤ bootGraceMs then []
    else [{
      nodeId := n.nodeId, kind := .heartbeatStale, severity := .critical
      message := "agent has not reported status in " ++ toString (rounded (nowMs - createdAt) 60000) ++
        "m — the node may have failed to come up" }]

def staleAlert (nodeId lastSeen : String) (nowMs : Int) : Alert :=
  let ageS := match dateParse lastSeen with
    | none => "NaN"
    | some seen => toString (max 0 (rounded (nowMs - seen) 1000))
  { nodeId, kind := .heartbeatStale, severity := .critical
    message := "agent heartbeat is stale (last seen " ++ ageS ++ "s ago) — the node may be down" }

def nodeAlerts (nowMs staleMs bootGraceMs : Int) (n : AlertNodeInput) : List Alert :=
  if isLiveState n.state then
    match n.status with
    | none => bootAlert dateParse n nowMs bootGraceMs
    | some status =>
      -- A stale node's service states are unreliable.
      if heartbeatStale dateParse status.lastSeen nowMs staleMs then [staleAlert dateParse n.nodeId status.lastSeen nowMs]
      else status.services.filterMap (serviceAlert n.nodeId)
  else []

def alertOrder (a b : Alert) : Prop :=
  severityRank a.severity < severityRank b.severity ∨ (severityRank a.severity = severityRank b.severity ∧ a.nodeId ≤ b.nodeId)

instance : DecidableRel alertOrder := fun _ _ => inferInstanceAs (Decidable (_ ∨ _))

def evaluateAlerts (nodes : List AlertNodeInput) (nowMs staleMs bootGraceMs : Int) : List Alert :=
  (nodes.flatMap (nodeAlerts dateParse nowMs staleMs bootGraceMs)).insertionSort alertOrder

end Evaluate

/-! ## What is alerted -/

variable {dateParse : String → Option Int} {nodes : List AlertNodeInput} {nowMs staleMs bootGraceMs : Int}

theorem mem_evaluateAlerts {a : Alert} : a ∈ evaluateAlerts dateParse nodes nowMs staleMs bootGraceMs ↔
    ∃ n ∈ nodes, a ∈ nodeAlerts dateParse nowMs staleMs bootGraceMs n := by
  unfold evaluateAlerts
  rw [List.mem_insertionSort, List.mem_flatMap]

/-- A status says of a service that it is broken. -/
def Unhealthy (s : ServiceStatus) : Prop := s.state = .error ∨ (s.desiredReplicas > 0 ∧ s.runningReplicas = 0)

theorem serviceAlert_iff (nodeId : String) (s : ServiceStatus) : (serviceAlert nodeId s).isSome = true ↔ Unhealthy s := by
  unfold serviceAlert Unhealthy
  by_cases herror : s.state = .error
  · simp [herror]
  · by_cases hdown : s.desiredReplicas > 0 ∧ s.runningReplicas = 0
    · simp [herror, hdown]
    · simp [herror, hdown]

theorem serviceAlert_kind {nodeId : String} {s : ServiceStatus} {a : Alert} (h : serviceAlert nodeId s = some a) :
    a.kind = .serviceUnhealthy := by
  unfold serviceAlert at h
  split at h
  · cases h
    rfl
  · split at h
    · cases h
      rfl
    · cases h

/-- A live node with a fresh heartbeat has an unhealthy service alerted or none. -/
theorem quiet_iff {n : AlertNodeInput} {status : NodeStatus} (hlive : isLiveState n.state = true)
    (hstatus : n.status = some status) (hfresh : heartbeatStale dateParse status.lastSeen nowMs staleMs = false) :
    (∀ a ∈ evaluateAlerts dateParse [n] nowMs staleMs bootGraceMs, a.kind ≠ .serviceUnhealthy) ↔
      ∀ s ∈ status.services, ¬ Unhealthy s := by
  have halerts : nodeAlerts dateParse nowMs staleMs bootGraceMs n = status.services.filterMap (serviceAlert n.nodeId) := by
    unfold nodeAlerts
    rw [if_pos hlive, hstatus]
    simp [hfresh]
  constructor
  · intro hquiet s hs hbroken
    obtain ⟨a, ha⟩ := Option.isSome_iff_exists.mp ((serviceAlert_iff n.nodeId s).mpr hbroken)
    refine hquiet a (mem_evaluateAlerts.mpr ⟨n, List.mem_singleton_self n, ?_⟩) (serviceAlert_kind ha)
    rw [halerts]
    exact List.mem_filterMap.mpr ⟨s, hs, ha⟩
  · intro hall a ha _
    obtain ⟨m, hm, hmem⟩ := mem_evaluateAlerts.mp ha
    rw [List.mem_singleton.mp hm, halerts] at hmem
    obtain ⟨s, hs, hsome⟩ := List.mem_filterMap.mp hmem
    exact hall s hs ((serviceAlert_iff n.nodeId s).mp (hsome ▸ rfl))

/-! ## Converged services -/

/-- No run of the schedule is in progress, or one is: all containers are runs of it. -/
def ScheduleOnly (reps : List ManagedReplica) : Prop := ∀ r ∈ reps, r.cronFireMs.isSome = true

/-- The containers of a service that is where it should be: a job run pending, running or
    succeeded; a schedule armed or in the middle of a run; any other service with all its
    replicas running. -/
def Converged (d : ServiceConfig) (reps : List ManagedReplica) : Prop :=
  match d.jobRun with
  | some req => ∀ r, reps.find? (matchesRequest req.id) = some r → r.running = true ∨ r.exitCode = some 0
  | none =>
    if d.cron.isSome then ScheduleOnly reps
    else (∀ r ∈ reps, r.running = true) ∧ (reps.length : Int) = d.replicas

variable {d : ServiceConfig} {reps : List ManagedReplica} {backup : Option DatabaseBackupStatus} {now : String} {agentMs : Int}

/-- How many of the containers run. -/
def runningCount (reps : List ManagedReplica) : Nat := ((reps.map replicaStatus).filter (·.state == .running)).length

theorem runningCount_zero : runningCount reps = 0 ↔ ∀ r ∈ reps, r.running = false := by
  unfold runningCount
  rw [List.length_eq_zero_iff, List.filter_eq_nil_iff, List.forall_mem_map]
  refine forall₂_congr fun r _ => ?_
  rw [beq_iff_eq, running_replicaStatus, Bool.not_eq_true]

theorem runningCount_all (h : ∀ r ∈ reps, r.running = true) : runningCount reps = reps.length := by
  unfold runningCount
  rw [List.filter_eq_self.mpr, List.length_map]
  intro s hs
  obtain ⟨r, hr, rfl⟩ := List.mem_map.mp hs
  rw [beq_iff_eq, running_replicaStatus]
  exact h r hr

/-- A job run wants no replicas. -/
theorem job_healthy {req : JobRunRequest} (hjob : d.jobRun = some req) (h : Converged d reps) :
    ¬ Unhealthy (serviceStatus d reps none backup now agentMs) := by
  unfold Converged at h
  rw [hjob] at h
  have hview : (jobRunServiceView req reps none now).state ≠ .error := by
    unfold jobRunServiceView
    cases hfind : reps.find? (matchesRequest req.id) with
    | none =>
      by_cases hother : reps.any (fun r => r.jobRunId.isSome && r.running) = true
      · simp [hother]
      · simp [hother]
    | some r =>
      rcases h r hfind with hrun | hcode
      · simp [hrun]
      · by_cases hrun : r.running = true
        · simp [hrun]
        · simp [hrun, hcode]
  unfold serviceStatus
  rw [hjob]
  intro hbroken
  rcases hbroken with herror | ⟨hwant, _⟩
  · exact hview herror
  · exact absurd hwant (by simp)

/-- A schedule is alerted when nothing of it runs. -/
theorem cron_healthy_iff (hjob : d.jobRun = none) (hcron : d.cron.isSome = true) (hreplicas : 1 ≤ d.replicas) :
    ¬ Unhealthy (serviceStatus d reps none backup now agentMs) ↔ ∃ r ∈ reps, r.running = true := by
  have hfields : (serviceStatus d reps none backup now agentMs).state = .running ∧
      (serviceStatus d reps none backup now agentMs).desiredReplicas = d.replicas ∧
      (serviceStatus d reps none backup now agentMs).runningReplicas = (runningCount reps : Nat) := by
    unfold serviceStatus
    rw [hjob]
    simp [hcron, cronServiceView, runningCount]
  unfold Unhealthy
  rw [hfields.1, hfields.2.1, hfields.2.2]
  have hzero := @runningCount_zero reps
  constructor
  · intro hok
    by_contra hnone
    push Not at hnone
    have hcount := hzero.mpr fun r hr => by simpa using hnone r hr
    exact hok (.inr ⟨by omega, by simp [hcount]⟩)
  · intro ⟨r, hr, hrun⟩ hbroken
    rcases hbroken with herror | ⟨_, hcount⟩
    · cases herror
    · have hnone := hzero.mp (by exact_mod_cast hcount) r hr
      rw [hrun] at hnone
      cases hnone

/-- A service with all its replicas running is not alerted. -/
theorem worker_healthy (hjob : d.jobRun = none) (hcron : d.cron.isSome = false) (hreplicas : 1 ≤ d.replicas)
    (h : Converged d reps) : ¬ Unhealthy (serviceStatus d reps none backup now agentMs) := by
  unfold Converged at h
  rw [hjob] at h
  simp only [hcron, Bool.false_eq_true, if_false] at h
  obtain ⟨hall, hlength⟩ := h
  have hcount := runningCount_all hall
  have hstate : rollupState (reps.map replicaStatus) d.replicas false = .running := by
    have hlen : (((reps.map replicaStatus).filter (·.state == .running)).length : Int) = d.replicas := by
      rw [← hlength, ← hcount]
      rfl
    unfold rollupState
    simp only [Bool.false_eq_true, if_false, hlen]
    rw [if_pos (by omega)]
  unfold serviceStatus
  rw [hjob]
  simp only [hcron, Bool.false_eq_true, if_false]
  intro hbroken
  rcases hbroken with herror | ⟨_, hnone⟩
  · have herror' : rollupState (reps.map replicaStatus) d.replicas false = .error := herror
    rw [hstate] at herror'
    cases herror'
  · have hnone' : (runningCount reps : Int) = 0 := hnone
    omega

/-! ## A healthy node -/

/-- A node's documents and containers, all where they should be and no action failed. -/
structure HealthyNode where
  config : AgentConfig
  agentVersion : String
  desired : DesiredState
  live : Live
  backups : SortedMap String DatabaseBackupStatus
  caddy : CaddyStatus
  now : String
  agentMs : Int
  accepted : desiredStateSchema desired = true
  converged : ∀ d ∈ desired.services, Converged d (Agent.replicasOf live d.key)

namespace HealthyNode

/-- The status its agent builds. -/
def status (h : HealthyNode) : NodeStatus :=
  buildStatus h.config h.agentVersion h.desired h.live [] h.backups h.caddy h.now h.agentMs

/-- It is supposed to run, and was heard of lately. -/
structure Watched (h : HealthyNode) (dateParse : String → Option Int) (n : AlertNodeInput) (nowMs staleMs : Int) : Prop where
  live : isLiveState n.state = true
  status : n.status = some h.status
  fresh : heartbeatStale dateParse h.status.lastSeen nowMs staleMs = false

/-- Every schedule is in the middle of a run. -/
def NoneIdle (h : HealthyNode) : Prop := ∀ d ∈ h.desired.services, d.jobRun = none → d.cron.isSome = true →
  ∃ r ∈ Agent.replicasOf h.live d.key, r.running = true

theorem replicas_pos (h : HealthyNode) {d : ServiceConfig} (hd : d ∈ h.desired.services) : 1 ≤ d.replicas := by
  have hs := h.accepted
  simp only [desiredStateSchema, Bool.and_eq_true, List.all_eq_true] at hs
  exact (serviceConfigSchema_sized (hs.2 d hd)).replicas

end HealthyNode

/-- No service of a healthy node is alerted exactly when none of its schedules is idle. -/
theorem no_false_alert_iff {h : HealthyNode} {n : AlertNodeInput}
    (hwatched : h.Watched dateParse n nowMs staleMs) :
    (∀ a ∈ evaluateAlerts dateParse [n] nowMs staleMs bootGraceMs, a.kind ≠ .serviceUnhealthy) ↔ h.NoneIdle := by
  rw [quiet_iff hwatched.live hwatched.status hwatched.fresh]
  unfold HealthyNode.status buildStatus
  simp only [List.forall_mem_map]
  unfold HealthyNode.NoneIdle
  refine forall₂_congr fun d hd => ?_
  have hreplicas := h.replicas_pos hd
  have hconverged := h.converged d hd
  have hnone : SortedMap.get d.key ([] : SortedMap String String) = none := rfl
  rw [hnone]
  cases hjob : d.jobRun with
  | some req => simpa using job_healthy hjob hconverged
  | none =>
    cases hcron : d.cron.isSome with
    | true => simpa using cron_healthy_iff hjob hcron hreplicas
    | false => simpa using worker_healthy hjob hcron hreplicas hconverged

/-! ### A schedule between two runs -/

/-- A report that is due every night. -/
def nightly : ServiceConfig where
  project := "shop"
  service := "report"
  image := "report:1"
  cpu := 256
  memory := 256
  cron := some "0 3 * * *"
  ingress := none

/-- A run of it. -/
def nightlyRun : ManagedReplica where
  id := "c1"
  name := "shop-report-0"
  index := 0
  state := .running
  project := "shop"
  service := "report"
  image := "report:1"
  cpu := 256
  memory := 256
  hostPort := none
  configStamp := ""
  cronFireMs := some 10800000
  jobRunId := none
  exitCode := none

/-- A node with the schedule and these runs of it. -/
def nightlyNode (runs : List ManagedReplica) (hruns : ScheduleOnly runs) : HealthyNode where
  config := ⟨"n1", "a1"⟩
  agentVersion := "1"
  desired := ⟨protocolVersion, "n1", "t0", [nightly]⟩
  live := [("shop/report", runs)]
  backups := []
  caddy := noCaddy
  now := "t0"
  agentMs := 0
  accepted := by decide +kernel
  converged := by
    intro d hd
    rw [List.mem_singleton.mp hd]
    exact hruns

def watchedInput (h : HealthyNode) : AlertNodeInput := ⟨"n1", .ready, "t0", some h.status⟩

theorem watched_nightly (runs : List ManagedReplica) (hruns : ScheduleOnly runs) :
    (nightlyNode runs hruns).Watched (fun _ => some 0) (watchedInput (nightlyNode runs hruns)) 0 heartbeatStaleMs :=
  ⟨rfl, rfl, rfl⟩

theorem nightlyRun_scheduled : ScheduleOnly [nightlyRun] := by
  intro r hr
  rw [List.mem_singleton.mp hr]
  rfl

/-- In the middle of a run it is not alerted. -/
theorem no_false_alert_midrun : ¬ ∃ a ∈ evaluateAlerts (fun _ => some 0)
    [watchedInput (nightlyNode [nightlyRun] nightlyRun_scheduled)] 0 heartbeatStaleMs defaultBootGraceMs,
      a.kind = .serviceUnhealthy := by
  rintro ⟨a, ha, hkind⟩
  refine (no_false_alert_iff (watched_nightly [nightlyRun] nightlyRun_scheduled)).mpr (fun d hd _ _ => ?_) a ha hkind
  rw [List.mem_singleton.mp hd]
  exact ⟨nightlyRun, List.mem_singleton_self _, rfl⟩

/-- The armed schedule is called down. -/
theorem armed_cron_alerts : ¬ ∀ (dateParse : String → Option Int) (h : HealthyNode) (n : AlertNodeInput)
    (nowMs staleMs bootGraceMs : Int), h.Watched dateParse n nowMs staleMs →
      ∀ a ∈ evaluateAlerts dateParse [n] nowMs staleMs bootGraceMs, a.kind ≠ .serviceUnhealthy := by
  intro hall
  have hruns : ScheduleOnly [] := fun r hr => by cases hr
  have hwatched := watched_nightly [] hruns
  have hquiet := (quiet_iff hwatched.live hwatched.status hwatched.fresh).mp
    (hall (fun _ => some 0) _ _ 0 heartbeatStaleMs defaultBootGraceMs hwatched)
  have hstatus := hquiet _ (List.mem_map.mpr ⟨nightly, List.mem_singleton_self _, rfl⟩)
  obtain ⟨r, hr, _⟩ := (cron_healthy_iff rfl rfl (by decide)).mp hstatus
  cases hr

end LaunchPad.Cli.Alerts
