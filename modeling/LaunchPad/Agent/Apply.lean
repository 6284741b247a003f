/-
  LaunchPad.Agent.Apply — the imperative half of the reconciler (`reconcile.rs`,
  `apply_one`, `apply_actions`, `rollout_service`) as programs over the methods of the
  `Reconciler` trait. `Op` is the trait: one command for each method with an effect. The
  two pure methods (`bind_host`, `drain_floor_ms`) are the agent's own functions.

  `stop_container` takes a container's name or its id; `ContainerRef` says which one the
  caller passes. The rollout's loop is `rolloutLoop`, its two branches `surgeOne` and
  `drainOne`; it returns whether the loop was left by `break`.

  Proved:
  - `sat_rolloutLoop`: the rule of the rollout's loop.
  - `uses_applyActions`: what a plan may issue, from what each of its actions may issue.
  - `uses_rolloutService`: what a rollout may issue, whatever the commands answer.
-/
import LaunchPad.Agent.Plan
import LaunchPad.Lib.Prog

namespace LaunchPad.Agent

open Lib

inductive ContainerRef where
  | name (name : String)
  | id (id : String)
  deriving DecidableEq, Repr

inductive Op where
  | pull (image : String)
  | runContainer (config : ServiceConfig) (index : Int) (hostPort : Option Int) (bindHost : String)
      (cronFireMs : Option Int) (jobRunId : Option String)
  | startContainer (id : String)
  | stopContainer (container : ContainerRef) (graceSeconds : Int)
  | removeContainer (id : String)
  | allocatePort (key : String) (index : Int)
  | releasePort (key : String) (index : Int)
  | refreshRouting (excludeIds : List String)
  | heartbeat
  | sleepMs (ms : Int)
  | waitHealthy (hostPort : Int) (hc : HealthCheck) (ceilingMs : Int)
  | recordCronFire (key : String) (fireMs : Int)
  | setError (key : String) (message : String)
  | runBackup (config : ServiceConfig) (fireMs : Int)
  deriving DecidableEq, Repr

abbrev Resp : Op → Type
  | .allocatePort .. => Int
  | .releasePort .. | .heartbeat | .sleepMs .. | .setError .. => Unit
  | .waitHealthy .. => Bool
  | .pull .. | .runContainer .. | .startContainer .. | .stopContainer .. | .removeContainer ..
  | .refreshRouting .. | .recordCronFire .. | .runBackup .. => Except String Unit

instance (o : Op) : Nonempty (Resp o) := by
  cases o <;> first | exact ⟨(0 : Int)⟩ | exact ⟨()⟩ | exact ⟨false⟩ | exact ⟨Except.ok ()⟩

/-- A computation of the agent: `?` ends it with the error. -/
abbrev Eff (α : Type) := ExceptT String (Prog Resp) α

/-- One call of the trait. -/
abbrev issue (o : Op) : Prog Resp (Resp o) := Prog.cmd o

namespace Reconciler

def pull (image : String) : Eff Unit := .mk (issue (.pull image))
def runContainer (c : ServiceConfig) (index : Int) (hostPort : Option Int) (bindHost : String)
    (cronFireMs : Option Int) (jobRunId : Option String) : Eff Unit :=
  .mk (issue (.runContainer c index hostPort bindHost cronFireMs jobRunId))
def startContainer (id : String) : Eff Unit := .mk (issue (.startContainer id))
def stopContainer (container : ContainerRef) (graceSeconds : Int) : Eff Unit :=
  .mk (issue (.stopContainer container graceSeconds))
def removeContainer (id : String) : Eff Unit := .mk (issue (.removeContainer id))
def allocatePort (key : String) (index : Int) : Eff Int := .lift (issue (.allocatePort key index))
def releasePort (key : String) (index : Int) : Eff Unit := .lift (issue (.releasePort key index))
def refreshRouting (excludeIds : List String) : Eff Unit := .mk (issue (.refreshRouting excludeIds))
def heartbeat : Eff Unit := .lift (issue .heartbeat)
def sleepMs (ms : Int) : Eff Unit := .lift (issue (.sleepMs ms))
def waitHealthy (hostPort : Int) (hc : HealthCheck) (ceilingMs : Int) : Eff Bool :=
  .lift (issue (.waitHealthy hostPort hc ceilingMs))
def recordCronFire (key : String) (fireMs : Int) : Eff Unit := .mk (issue (.recordCronFire key fireMs))
def setError (key message : String) : Eff Unit := .lift (issue (.setError key message))
def runBackup (c : ServiceConfig) (fireMs : Int) : Eff Unit := .mk (issue (.runBackup c fireMs))

end Reconciler

open Reconciler

/-! ## The pure methods and bounds -/

/-- `REMOTE_EDGE_DRAIN_FLOOR_MS`. -/
def remoteEdgeDrainFloorMs : Int := defaultPollIntervalMs + defaultPollIntervalMs / 2

/-- Web replicas bind every interface so the edge can dial them. -/
def bindHost (c : ServiceConfig) : String := if c.ingress.isSome then "0.0.0.0" else "127.0.0.1"

def drainFloorMs (c : ServiceConfig) : Int := if c.ingress.isSome then remoteEdgeDrainFloorMs else 0

/-- `parse_duration_ms`: digits and a unit `ms`, `s` or `m`; 0 for anything else. -/
def parseDurationMs (duration : String) : Int :=
  let digits := duration.toList.takeWhile Char.isDigit
  if digits.isEmpty then 0
  else match parseDigits digits with
    | none => 0
    | some n =>
      match String.ofList (duration.toList.dropWhile Char.isDigit) with
      | "ms" => n
      | "s" => i64 (n * 1000)
      | "m" => i64 (n * 60000)
      | _ => 0

/-- `rollout_health_ceiling_ms`. -/
def rolloutHealthCeilingMs (hc : HealthCheck) : Int :=
  max 30000 (i64 (i64 (i64 (hc.timeoutMs + hc.intervalMs) * hc.healthyThreshold) * 8))

/-! ## The rolling update -/

structure RolloutState where
  oldQueue : List ManagedReplica
  newCount : Int
  nextIndex : Int
  draining : List String

/-- `max(index) + 1`, or 0 when there is no replica. -/
def nextIndex (current : List ManagedReplica) : Int :=
  match (current.map (·.index)).max? with
  | some m => i64 (m + 1)
  | none => 0

def RolloutState.init (c : ServiceConfig) (current : List ManagedReplica) : RolloutState where
  oldQueue := current.filter (replicaNeedsReplace · c)
  newCount := (current.filter (!replicaNeedsReplace · c)).length
  nextIndex := Agent.nextIndex current
  draining := []

/-- The number of replicas a rollout may have at once: `want + surge`. -/
def surgeLimit (c : ServiceConfig) : Int := i64 (c.replicas + c.rollout.maxSurge)

def RolloutState.total (s : RolloutState) : Int := s.oldQueue.length + s.newCount

/-- Too few new replicas, and headroom for one more. -/
def RolloutState.canSurge (c : ServiceConfig) (s : RolloutState) : Bool :=
  decide (s.newCount < c.replicas) && decide (s.total < surgeLimit c)

theorem RolloutState.canSurge_iff {c : ServiceConfig} {s : RolloutState} :
    s.canSurge c = true ↔ s.newCount < c.replicas ∧ s.oldQueue.length + s.newCount < surgeLimit c := by
  simp only [canSurge, Bool.and_eq_true, decide_eq_true_eq]
  rfl

def RolloutState.surged (s : RolloutState) : RolloutState :=
  { s with newCount := s.newCount + 1, nextIndex := i64 (s.nextIndex + 1) }

/-- After the first of the old replicas is retired. -/
def RolloutState.drained (s : RolloutState) (old : ManagedReplica) (rest : List ManagedReplica) : RolloutState :=
  { s with oldQueue := rest, draining := (s.draining.insert old.id).filter (· ≠ old.id) }

def graceSec (c : ServiceConfig) : Int := max 1 (i64 (parseDurationMs c.rollout.stopGrace + 999) / 1000)

def drainWaitMs (c : ServiceConfig) : Int := max (parseDurationMs c.rollout.drainTimeout) (drainFloorMs c)

/-- The port and health check a surged replica is probed with, when it is. -/
def gateOf (c : ServiceConfig) (hostPort : Option Int) : Option (HealthCheck × Int) :=
  match c.healthCheck, hostPort with
  | some hc, some hostPort => some (hc, hostPort)
  | _, _ => none

/-- A web replica's host port; a worker has none. -/
def hostPortFor (c : ServiceConfig) (index : Int) : Eff (Option Int) :=
  if c.ingress.isSome then do return some (← allocatePort c.key index) else return none

/-- Wait for a started replica; one without a health check or a port needs no probe. -/
def awaitHealthy (c : ServiceConfig) (hostPort : Option Int) : Eff Bool :=
  match gateOf c hostPort with
  | some (hc, hostPort) => waitHealthy hostPort hc (rolloutHealthCeilingMs hc)
  | none => return true

/-- Steps a rollout takes for a web service only. -/
def forWeb (c : ServiceConfig) (e : Eff Unit) : Eff Unit := if c.ingress.isSome then e else return ()

/-- Stop a surged replica that failed its health check. -/
def abortSurge (c : ServiceConfig) (idx : Int) (draining : List String) : Eff Unit := do
  stopContainer (.name (containerName c.project c.service idx)) (graceSec c)
  releasePort c.key idx
  setError c.key ("rollout aborted: new replica failed health check for " ++ c.image)
  forWeb c (refreshRouting draining)

/-- Branch 1: start one new replica; `false` when it failed its health check. -/
def surgeOne (c : ServiceConfig) (s : RolloutState) : Eff Bool := do
  let hostPort ← hostPortFor c s.nextIndex
  runContainer c s.nextIndex hostPort (bindHost c) none none
  let healthy ← awaitHealthy c hostPort
  if healthy then do
    forWeb c do
      refreshRouting s.draining
      heartbeat
    return true
  else do
    abortSurge c s.nextIndex s.draining
    return false

/-- Stop routing to one old replica and let its requests finish. A failed publish aborts
    the rollout: the edge still routes to the replica. -/
def divert (c : ServiceConfig) (draining : List String) : Eff Unit := do
  refreshRouting draining
  heartbeat
  if drainWaitMs c > 0 then sleepMs (drainWaitMs c) else return ()

/-- Branch 2: retire one old replica. -/
def drainOne (c : ServiceConfig) (s : RolloutState) (old : ManagedReplica) : Eff Unit := do
  forWeb c (divert c (s.draining.insert old.id))
  stopContainer (.id old.id) (graceSec c)
  releasePort c.key old.index
  heartbeat

def RolloutState.measure (c : ServiceConfig) (s : RolloutState) : Nat :=
  (c.replicas - s.newCount).toNat + s.oldQueue.length

/-- The loop of `rollout_service`; `false` when a failed health check ended the rollout. -/
def rolloutLoop (c : ServiceConfig) (s : RolloutState) : Eff Bool :=
  if _ : s.canSurge c = true then do
    if ← surgeOne c s then rolloutLoop c s.surged else return false
  else match _hq : s.oldQueue with
    | [] => return true
    | old :: rest => do
      drainOne c s old
      rolloutLoop c (s.drained old rest)
termination_by s.measure c
decreasing_by
  · rename_i h
    have := RolloutState.canSurge_iff.mp h
    simp only [RolloutState.measure, RolloutState.surged]
    omega
  · simp only [RolloutState.measure, RolloutState.drained, _hq, List.length_cons]
    omega

/-- The rule of the loop: an invariant that both branches keep. -/
theorem sat_rolloutLoop {W : Type} {M : Machine Resp W} {G : Op → W → Prop} {c : ServiceConfig}
    {I : RolloutState → W → Prop} {Q : Bool → W → Prop} {E : String → W → Prop} (hE : ∀ e, M.Stable (E e))
    (hQ : ∀ b, M.Stable (Q b)) (hdone : ∀ s w, s.canSurge c = false → s.oldQueue = [] → I s w → Q true w)
    (hsurge : ∀ s w, s.canSurge c = true → I s w →
      Sat M G (onResult (fun healthy w => if healthy = true then I s.surged w else Q false w) E) (surgeOne c s).run w)
    (hdrain : ∀ s old rest w, s.canSurge c = false → s.oldQueue = old :: rest → I s w →
      Sat M G (onResult (fun _ => I (s.drained old rest)) E) (drainOne c s old).run w)
    (hI : ∀ s, M.Stable (I s)) (s : RolloutState) {w : W} (h : I s w) :
    Sat M G (onResult Q E) (rolloutLoop c s).run w := by
  induction s using rolloutLoop.induct c generalizing w with
  | case1 s hs ih =>
    rw [rolloutLoop, dif_pos hs]
    refine Sat.bindE (hsurge s w hs h) hE fun healthy w hw => ?_
    cases healthy with
    | true => exact ih (by simpa using hw)
    | false => exact Sat.ret (hQ false) (by simpa using hw) fun _ h => h
  | case2 s hs hq =>
    rw [rolloutLoop, dif_neg hs]
    split
    · exact Sat.ret (hI s) h fun w hw => hdone s w (Bool.eq_false_iff.mpr hs) hq hw
    · rename_i hq'; rw [hq] at hq'; cases hq'
  | case3 s hs old rest hq ih =>
    rw [rolloutLoop, dif_neg hs]
    split
    · rename_i hq'; rw [hq] at hq'; cases hq'
    · rename_i hq'
      rw [hq] at hq'
      cases hq'
      exact Sat.bindE (hdrain s old rest w (Bool.eq_false_iff.mpr hs) hq h) hE fun _ w hw => ih hw

def rolloutService (c : ServiceConfig) (current : List ManagedReplica) : Eff Unit := do
  pull c.image
  let converged ← rolloutLoop c (RolloutState.init c current)
  if converged then forWeb c (refreshRouting []) else return ()

/-! ## Applying a plan -/

def applyOne : Action → Eff Unit
  | .noop _ => pure ()
  | .remove _ replicas => forM replicas fun r => removeContainer r.id
  | .scaleDown c retired => forM retired fun r => do
      removeContainer r.id
      releasePort c.key r.index
  | .start _ _ id => startContainer id
  | .create c index => do
      pull c.image
      let hostPort ← hostPortFor c index
      runContainer c index hostPort (bindHost c) none none
  | .rollout c replicas => rolloutService c replicas
  | .cronRun c fireMs previous => do
      pull c.image
      forM previous fun r => removeContainer r.id
      -- Recorded before the start: a crash between the two skips the run.
      recordCronFire c.key fireMs
      runContainer c 0 none (bindHost c) (some fireMs) none
  | .jobRun c previous =>
      match c.jobRun with
      | none => throw "job run action missing request"
      | some req => do
        pull c.image
        forM previous fun r => removeContainer r.id
        runContainer c 0 none (bindHost c) none (some req.id)
  | .cronSkip c fireMs => recordCronFire c.key fireMs
  | .backupRun c fireMs => runBackup c fireMs

/-- A failed action is recorded under its service and does not end the others. -/
def applyIsolated (a : Action) : Eff Unit :=
  tryCatch (applyOne a) fun e =>
    match a.config with
    | some c => setError c.key e
    | none => pure ()

def applyActions (actions : List Action) : Eff Unit := forM actions applyIsolated

/-! ## What a plan may issue -/

/-- The commands of a rollout of `c` over `current`. -/
inductive RolloutIssues (c : ServiceConfig) (current : List ManagedReplica) : Op → Prop
  | pull : RolloutIssues c current (.pull c.image)
  | allocate (index : Int) : c.ingress.isSome = true → RolloutIssues c current (.allocatePort c.key index)
  | run (index : Int) (hostPort : Option Int) :
      RolloutIssues c current (.runContainer c index hostPort (bindHost c) none none)
  | probe (hostPort : Int) (hc : HealthCheck) (ceiling : Int) :
      RolloutIssues c current (.waitHealthy hostPort hc ceiling)
  | stopNew (index : Int) :
      RolloutIssues c current (.stopContainer (.name (containerName c.project c.service index)) (graceSec c))
  | stopOld (old : ManagedReplica) : old ∈ current → replicaNeedsReplace old c = true →
      RolloutIssues c current (.stopContainer (.id old.id) (graceSec c))
  | release (index : Int) : RolloutIssues c current (.releasePort c.key index)
  | error (message : String) : RolloutIssues c current (.setError c.key message)
  | refresh (excludeIds : List String) : c.ingress.isSome = true →
      RolloutIssues c current (.refreshRouting excludeIds)
  | heartbeat : RolloutIssues c current .heartbeat
  | sleep (ms : Int) : RolloutIssues c current (.sleepMs ms)

/-- The commands of one action. -/
def Action.Issues : Action → Op → Prop
  | .noop _, _ => False
  | .remove _ replicas, o => ∃ r ∈ replicas, o = .removeContainer r.id
  | .scaleDown c retired, o => ∃ r ∈ retired, o = .removeContainer r.id ∨ o = .releasePort c.key r.index
  | .start _ _ id, o => o = .startContainer id
  | .create c index, o => o = .pull c.image ∨ o = .allocatePort c.key index ∨
      ∃ hostPort, o = .runContainer c index hostPort (bindHost c) none none
  | .rollout c replicas, o => RolloutIssues c replicas o
  | .cronRun c fireMs previous, o => o = .pull c.image ∨ (∃ r ∈ previous, o = .removeContainer r.id) ∨
      o = .recordCronFire c.key fireMs ∨ o = .runContainer c 0 none (bindHost c) (some fireMs) none
  | .jobRun c previous, o => o = .pull c.image ∨ (∃ r ∈ previous, o = .removeContainer r.id) ∨
      ∃ req, c.jobRun = some req ∧ o = .runContainer c 0 none (bindHost c) none (some req.id)
  | .cronSkip c fireMs, o => o = .recordCronFire c.key fireMs
  | .backupRun c fireMs, o => o = .runBackup c fireMs

section Footprint

variable {P : Op → Prop} {c : ServiceConfig} {current : List ManagedReplica}

theorem uses_forWeb {e : Eff Unit} (h : c.ingress.isSome = true → Uses P e.run) : Uses P (forWeb c e).run := by
  unfold forWeb
  split
  · rename_i hi; exact h hi
  · trivial

theorem uses_hostPortFor {index : Int} (h : c.ingress.isSome = true → P (.allocatePort c.key index)) :
    Uses P (hostPortFor c index).run := by
  unfold hostPortFor
  split
  · rename_i hi; exact ⟨h hi, fun _ => trivial⟩
  · trivial

theorem uses_awaitHealthy (hostPort : Option Int) :
    Uses (RolloutIssues c current) (awaitHealthy c hostPort).run := by
  unfold awaitHealthy
  split
  · exact ⟨.probe _ _ _, fun _ => trivial⟩
  · trivial

theorem uses_surgeOne (s : RolloutState) : Uses (RolloutIssues c current) (surgeOne c s).run := by
  unfold surgeOne
  refine Uses.bindE (uses_hostPortFor (.allocate _)) fun hostPort => ?_
  refine Uses.bindE ⟨.run _ _, fun _ => trivial⟩ fun _ => ?_
  refine Uses.bindE (uses_awaitHealthy hostPort) fun healthy => ?_
  split
  · refine Uses.bindE (uses_forWeb fun hi => ?_) fun _ => trivial
    exact Uses.bindE ⟨.refresh _ hi, fun _ => trivial⟩ fun _ => ⟨.heartbeat, fun _ => trivial⟩
  · refine Uses.bindE ?_ fun _ => trivial
    refine Uses.bindE ⟨.stopNew _, fun _ => trivial⟩ fun _ => ?_
    refine Uses.bindE ⟨.release _, fun _ => trivial⟩ fun _ => ?_
    refine Uses.bindE ⟨.error _, fun _ => trivial⟩ fun _ => ?_
    exact uses_forWeb fun hi => ⟨.refresh _ hi, fun _ => trivial⟩

theorem uses_drainOne (s : RolloutState) {old : ManagedReplica} (hm : old ∈ current)
    (hr : replicaNeedsReplace old c = true) : Uses (RolloutIssues c current) (drainOne c s old).run := by
  unfold drainOne
  refine Uses.bindE (uses_forWeb fun hi => ?_) fun _ => ?_
  · refine Uses.bindE ⟨.refresh _ hi, fun _ => trivial⟩ fun _ => ?_
    refine Uses.bindE ⟨.heartbeat, fun _ => trivial⟩ fun _ => ?_
    split
    · exact ⟨.sleep _, fun _ => trivial⟩
    · trivial
  · refine Uses.bindE ⟨.stopOld old hm hr, fun _ => trivial⟩ fun _ => ?_
    refine Uses.bindE ⟨.release _, fun _ => trivial⟩ fun _ => ?_
    exact ⟨.heartbeat, fun _ => trivial⟩

/-- What a loop may issue, from what its two branches may issue. -/
theorem uses_rolloutLoop_of {P : Op → Prop} (hsurge : ∀ s, Uses P (surgeOne c s).run)
    (hdrain : ∀ s old, old ∈ current → replicaNeedsReplace old c = true → Uses P (drainOne c s old).run)
    (s : RolloutState) (hold : ∀ r ∈ s.oldQueue, r ∈ current ∧ replicaNeedsReplace r c = true) :
    Uses P (rolloutLoop c s).run := by
  induction s using rolloutLoop.induct c with
  | case1 s h ih =>
    rw [rolloutLoop, dif_pos h]
    refine Uses.bindE (hsurge s) fun healthy => ?_
    split
    · exact ih hold
    · trivial
  | case2 s h hq =>
    rw [rolloutLoop, dif_neg h]
    split
    · trivial
    · rename_i hq'; rw [hq] at hq'; cases hq'
  | case3 s h old rest hq ih =>
    rw [rolloutLoop, dif_neg h]
    split
    · trivial
    · rename_i old' rest' hq'
      rw [hq] at hq'; cases hq'
      rw [hq] at hold
      obtain ⟨hm, hr⟩ := hold old (List.mem_cons_self ..)
      exact Uses.bindE (hdrain s old hm hr) fun _ => ih fun r hr => hold r (List.mem_cons_of_mem _ hr)

theorem uses_rolloutLoop (s : RolloutState)
    (hold : ∀ r ∈ s.oldQueue, r ∈ current ∧ replicaNeedsReplace r c = true) :
    Uses (RolloutIssues c current) (rolloutLoop c s).run :=
  uses_rolloutLoop_of uses_surgeOne (fun s _ hm hr => uses_drainOne s hm hr) s hold

theorem uses_rolloutService : Uses (RolloutIssues c current) (rolloutService c current).run := by
  unfold rolloutService
  refine Uses.bindE ⟨.pull, fun _ => trivial⟩ fun _ => ?_
  refine Uses.bindE (uses_rolloutLoop _ ?_) fun converged => ?_
  · intro r hr
    exact List.mem_filter.mp hr
  · split
    · exact uses_forWeb fun hi => ⟨.refresh _ hi, fun _ => trivial⟩
    · trivial

theorem uses_applyOne (a : Action) : Uses a.Issues (applyOne a).run := by
  cases a with
  | noop c => trivial
  | remove key replicas => exact Uses.forM _ _ fun r hr => ⟨⟨r, hr, rfl⟩, fun _ => trivial⟩
  | scaleDown c retired =>
    refine Uses.forM _ _ fun r hr => ?_
    exact Uses.bindE ⟨⟨r, hr, .inl rfl⟩, fun _ => trivial⟩ fun _ => ⟨⟨r, hr, .inr rfl⟩, fun _ => trivial⟩
  | start c index id => exact ⟨rfl, fun _ => trivial⟩
  | create c index =>
    refine Uses.bindE ⟨.inl rfl, fun _ => trivial⟩ fun _ => ?_
    refine Uses.bindE (uses_hostPortFor fun _ => .inr (.inl rfl)) fun hostPort => ?_
    exact ⟨.inr (.inr ⟨hostPort, rfl⟩), fun _ => trivial⟩
  | rollout c replicas => exact uses_rolloutService
  | cronRun c fireMs previous =>
    refine Uses.bindE ⟨.inl rfl, fun _ => trivial⟩ fun _ => ?_
    refine Uses.bindE (Uses.forM _ _ fun r hr => ⟨.inr (.inl ⟨r, hr, rfl⟩), fun _ => trivial⟩) fun _ => ?_
    refine Uses.bindE ⟨.inr (.inr (.inl rfl)), fun _ => trivial⟩ fun _ => ?_
    exact ⟨.inr (.inr (.inr rfl)), fun _ => trivial⟩
  | jobRun c previous =>
    simp only [applyOne]
    split
    · trivial
    · rename_i req hreq
      refine Uses.bindE ⟨.inl rfl, fun _ => trivial⟩ fun _ => ?_
      refine Uses.bindE (Uses.forM _ _ fun r hr => ⟨.inr (.inl ⟨r, hr, rfl⟩), fun _ => trivial⟩) fun _ => ?_
      exact ⟨.inr (.inr ⟨req, hreq, rfl⟩), fun _ => trivial⟩
  | cronSkip c fireMs => exact ⟨rfl, fun _ => trivial⟩
  | backupRun c fireMs => exact ⟨rfl, fun _ => trivial⟩

/-- An action with the recording of its failure. -/
theorem uses_applyIsolated (a : Action) :
    Uses (fun o => a.Issues o ∨ ∃ c m, a.config = some c ∧ o = .setError c.key m) (applyIsolated a).run := by
  have h := (uses_applyOne a).mono fun o (ho : a.Issues o) =>
    (Or.inl ho : a.Issues o ∨ ∃ c m, a.config = some c ∧ o = .setError c.key m)
  refine Uses.bind h ?_
  rintro (e | u)
  · simp only
    split
    · rename_i c hc; exact ⟨.inr ⟨c, e, hc, rfl⟩, fun _ => trivial⟩
    · trivial
  · trivial

theorem uses_applyActions (actions : List Action) :
    Uses (fun o => ∃ a ∈ actions, a.Issues o ∨ ∃ c m, a.config = some c ∧ o = .setError c.key m)
      (applyActions actions).run :=
  Uses.forM _ _ fun a ha => (uses_applyIsolated a).mono fun _ ho => ⟨a, ha, ho⟩

end Footprint

end LaunchPad.Agent
