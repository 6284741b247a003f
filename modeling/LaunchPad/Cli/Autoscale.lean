/-
  LaunchPad.Cli.Autoscale — `autoscale run` (`commands/autoscale.ts` `runAutoscale`): one pass
  reads the policy, observes the pool, plans one action, claims it by stamping
  `cluster.json` on the condition that nobody wrote it since the claim's own read, and acts.

  The claim's condition covers the record as the claim reads it again, not the record
  whose `lastScaleAt` the plan came from: another pass's claim between the two reads goes
  unnoticed. From the second read on the condition closes the window.

  A pass beside any others, and beside other clients of the cluster that may change its
  record and its registry at any time:
  - `claim_course`, `act_course`: who claims has read the policy, the pool and the record
    again, in this order; who acts has claimed before.
  - `exclusive_after_reread`: nobody's write to the record lies between that second read and
    the claim.
  - `passes_exclude`: so no other claim lies in a pass's window exactly when none lies
    before its second read; and over a run in which that holds of every claim, and no pass
    observes the pool while another has claimed and not yet acted, windows do not overlap
    and no act takes the pool past its bounds.
-/
import LaunchPad.Cli.ScaleIn
import Mathlib.Tactic.NormNum

namespace LaunchPad.Cli.Fleet

open Lib

/-! ## Observing the pool -/

/-- `AUTOSCALE_SAMPLE_STALE_MS`. -/
def autoscaleSampleStaleMs : Int := 300000

def hostMemoryPercent (host : HostSample) : ℚ :=
  if 0 < host.memoryTotalMb then host.memoryUsedMb / host.memoryTotalMb * 100 else 0

/-- The sample of a node whose heartbeat and sample are fresh. -/
def freshSample (nowMs : Int) (status : HostStatus) : Option HostSample :=
  match status.host, status.lastSeen.parse, status.host.bind (·.sampledAt.parse) with
  | some sample, some lastSeen, some sampledAt =>
    if isHeartbeatStale lastSeen nowMs heartbeatStaleMs = false ∧ nowMs - sampledAt ≤ autoscaleSampleStaleMs then some sample
    else none
  | _, _, _ => none

/-- A node as a pass observes it. -/
def observe (defaultEdge : Option String) (nowMs : Int) (r : NodeReading) : PoolEntry where
  entry := r.entry
  observation := {
    nodeId := r.entry.nodeId
    role := r.entry.role
    state := r.entry.state
    provisioning := r.entry.provisioning
    isProtected := decide (some r.entry.nodeId = defaultEdge)
    cpuPercent := (r.status.bind (freshSample nowMs)).map (·.cpuPercent)
    memoryPercent := (r.status.bind (freshSample nowMs)).map hostMemoryPercent
    reserved := r.candidate.map fun c =>
      ⟨c.steadyCpu, c.steadyMemory, c.maxSurgeCpu, c.maxSurgeMemory, c.allocatableCpu, c.allocatableMemory⟩ }

/-! ## A pass -/

structure RunOptions where
  yes : Bool := false
  dryRun : Bool := false
  json : Bool := false
  /-- The directory has a `launch-pad.toml`. -/
  config : Bool := true
  deriving DecidableEq, Repr

inductive AutoscaleError where
  /-- The default cluster has no `cluster.json`. -/
  | namedClusterNeeded
  | noCluster (clusterId : String)
  | invalidCluster
  | noPolicy (clusterId : String)
  | s3 (e : S3Error)
  | configNeeded
  | yesNeeded
  | aborted
  | noEdge
  | vanished (clusterId : String)
  | policyRemoved
  /-- "another autoscale pass (or cluster edit) is in flight". -/
  | claimLost
  | provision (e : AwsError)
  | rebalance (stop : RebalanceStop)
  | scaleIn (e : ScaleError)
  deriving DecidableEq, Repr

abbrev PassM := CommandE AutoscaleError

/-- A read of `cluster.json`. -/
abbrev look (clusterId : String) : Op := .cluster (.getJson (clusterConfigKey clusterId))

def requireCluster (clusterId : String) : PassM ClusterRecord :=
  if clusterId = defaultCluster then throw .namedClusterNeeded
  else do
    match ← ask (look clusterId) with
    | .error e => throw (.s3 e)
    | .ok none => throw (.noCluster clusterId)
    | .ok (some obj) =>
      match parseClusterRecord obj.raw with
      | none => throw .invalidCluster
      | some cfg => pure cfg

def observePool (defaultEdge : Option String) (nowMs : Int) : PassM (List PoolEntry) := do
  match ← ask .readPool with
  | .error e => throw (.s3 e)
  | .ok readings => pure (readings.map (observe defaultEdge nowMs))

/-- A new app node behind the cluster's edge. -/
def specForScaleOut (pool : List PoolEntry) (defaultEdge : Option String) : PassM ScaleOutNodeSpec :=
  match defaultEdge.or ((pool.find? fun p => nodeFrontsIngress p.entry.role).map (·.entry.nodeId)) with
  | none => throw .noEdge
  | some edgeNodeId => do
    let nodeId ← ask (.generateNodeName (pool.map (·.entry.nodeId)))
    pure ⟨nodeId, edgeNodeId⟩

/-- The spend and teardown gate. -/
def confirmAction (opts : RunOptions) : PassM Unit :=
  if opts.yes then pure ()
  else if opts.json then throw .yesNeeded
  else do
    match ← ask .confirm with
    | true => pure ()
    | false => throw .aborted

/-- The record with its cooldown anchor moved. -/
def stamped (cfg : ClusterRecord) (policy : AutoscalePolicy) (nowMs : Int) : ClusterRecord :=
  { cfg with autoscale := some (policy.stamp nowMs) }

def claimScaleAction (clusterId : String) (nowMs : Int) : PassM Unit := do
  match ← ask (look clusterId) with
  | .error e => throw (.s3 e)
  | .ok none => throw (.vanished clusterId)
  | .ok (some obj) =>
    match parseClusterRecord obj.raw with
    | none => throw .invalidCluster
    | some cfg =>
      match cfg.autoscale with
      | none => throw .policyRemoved
      | some policy =>
        match ← ask (.cluster (.putJson (clusterConfigKey clusterId) (.json (stamped cfg policy nowMs))
          { ifMatch := some obj.etag })) with
        | .ok _ => pure ()
        | .error .preconditionFailed => throw .claimLost
        | .error e => throw (.s3 e)

def applyScaleOut (spec : ScaleOutNodeSpec) : PassM Unit := do
  match ← ask (.provisionNode spec) with
  | .error e => throw (.provision e)
  | .ok () =>
    match ← ask (.rebalance []) with
    | .error stop => throw (.rebalance stop)
    | .ok () => pure ()

/-- A scale-in that finds nothing it may move is no error. -/
def applyScaleInPass (pages : Nat) (pool : List PoolEntry) (victim : String) : PassM Unit := ExceptT.mk do
  match ← (applyScaleIn pages pool victim).run with
  | .error (.rebalance (.blocked _)) => .ret (.ok ())
  | .error e => .ret (.error (.scaleIn e))
  | .ok () => .ret (.ok ())

/-- The rebalance after an action needs the project. -/
def projectNeeded (opts : RunOptions) : PassM Unit := if opts.config then pure () else throw .configNeeded

/-- What a pass does with a decision. -/
def applyDecision (clusterId : String) (opts : RunOptions) (pages : Nat) (cfg : ClusterRecord) (nowMs : Int)
    (pool : List PoolEntry) : AutoscaleDecision → PassM Unit
  | .none _ => pure ()
  | .scaleOut _ =>
    if opts.dryRun then pure ()
    else do
      projectNeeded opts
      let spec ← specForScaleOut pool cfg.defaultEdge
      confirmAction opts
      claimScaleAction clusterId nowMs
      applyScaleOut spec
  | .scaleIn victim _ =>
    if opts.dryRun then pure ()
    else do
      projectNeeded opts
      confirmAction opts
      claimScaleAction clusterId nowMs
      applyScaleInPass pages pool victim

def runAutoscale (clusterId : String) (opts : RunOptions) (pages : Nat) : PassM Unit := do
  let cfg ← requireCluster clusterId
  match cfg.autoscale with
  | none => throw (.noPolicy clusterId)
  | some policy => do
    let nowMs ← ask .now
    let pool ← observePool cfg.defaultEdge nowMs
    applyDecision clusterId opts pages cfg nowMs pool (planAutoscale policy (pool.map (·.observation)) nowMs)

/-- A pass as a client. -/
structure Pass where
  opts : RunOptions
  pages : Nat

def Pass.command (clusterId : String) (pass : Pass) : Command Unit := do
  let _ ← (runAutoscale clusterId pass.opts pass.pages).run
  .ret ()

/-! ## What a pass has done when it claims, and when it acts -/

/-- Commands between the plan and the claim. -/
def Idle : Op → Prop
  | .generateNodeName _ | .confirm => True
  | _ => False

theorem Idle.quiet {o : Op} (h : Idle o) : o.changesRegistry = false := by
  cases o with
  | generateNodeName usedIds => rfl
  | confirm => rfl
  | _ => exact h.elim

/-- The pass has read the policy and the pool. -/
def Opened (clusterId : String) (policy : AutoscalePolicy) (nowMs : Int) (pool : List PoolEntry) (own : Own) : Prop :=
  ∃ obj cfg readings idle, own = ⟨look clusterId, .ok (some obj)⟩ :: ⟨.now, nowMs⟩ :: ⟨.readPool, .ok readings⟩ :: idle ∧
    parseClusterRecord obj.raw = some cfg ∧ cfg.autoscale = some policy ∧
    pool = readings.map (observe cfg.defaultEdge nowMs) ∧ ∀ ev ∈ idle, Idle ev.op

/-- The write of a claim on a record that was read. -/
abbrev claimOf (clusterId : String) (value : Raw ClusterRecord) (obj : S3Json (Raw ClusterRecord)) : Op :=
  .cluster (.putJson (clusterConfigKey clusterId) value { ifMatch := some obj.etag })

/-- And read the record again. -/
def Reread (clusterId : String) (policy : AutoscalePolicy) (nowMs : Int) (pool : List PoolEntry)
    (obj : S3Json (Raw ClusterRecord)) (own : Own) : Prop :=
  ∃ opened, own = opened ++ [⟨look clusterId, .ok (some obj)⟩] ∧ Opened clusterId policy nowMs pool opened

/-- And claimed its action. -/
def Claimed (clusterId : String) (policy : AutoscalePolicy) (nowMs : Int) (pool : List PoolEntry) (own : Own) : Prop :=
  ∃ obj reread value etag, own = reread ++ [⟨claimOf clusterId value obj, .ok etag⟩] ∧
    Reread clusterId policy nowMs pool obj reread

/-- The commands of a scale-in of that node. -/
def Quits (victim : String) (o : Op) : Prop :=
  Taking victim o ∨ match o with
    | .rebalance _ | .waitForVictimDrained _ | .desired (.getJson _) => True
    | _ => False

def planOf (policy : AutoscalePolicy) (nowMs : Int) (pool : List PoolEntry) : AutoscaleDecision :=
  planAutoscale policy (pool.map (·.observation)) nowMs

def MayGrow (clusterId : String) (own : Own) : Prop :=
  ∃ policy nowMs pool reason, Claimed clusterId policy nowMs pool own ∧ planOf policy nowMs pool = .scaleOut reason

def MayShrink (clusterId victim : String) (own : Own) : Prop :=
  ∃ policy nowMs pool reason claimed rest, own = claimed ++ rest ∧ Claimed clusterId policy nowMs pool claimed ∧
    planOf policy nowMs pool = .scaleIn victim reason ∧ ∀ ev ∈ rest, Quits victim ev.op

/-- What a pass has done when it issues a command that matters. -/
def Steps (clusterId : String) : Op → Own → Prop
  | .cluster (.putJson key _ options), own => options = {} ∨ ∃ policy nowMs pool obj,
      key = clusterConfigKey clusterId ∧ options = { ifMatch := some obj.etag } ∧
        Reread clusterId policy nowMs pool obj own
  | .cluster (.deleteObject _ _), _ => False
  | .provisionNode _, own => MayGrow clusterId own
  | .deleteObjects id _, own => MayShrink clusterId id own
  | .putRegistry node, own => MayShrink clusterId node.nodeId own ∧ node.state = .terminating
  | .register _, _ => False
  | _, _ => True

variable {clusterId : String} {own : Own} {policy : AutoscalePolicy} {nowMs : Int} {pool : List PoolEntry}

theorem Opened.snoc (h : Opened clusterId policy nowMs pool own) {o : Op} (ho : Idle o) (r : Resp o) :
    Opened clusterId policy nowMs pool (own ++ [⟨o, r⟩]) := by
  obtain ⟨obj, cfg, readings, idle, rfl, hparse, hpolicy, hpool, hidle⟩ := h
  refine ⟨obj, cfg, readings, idle ++ [⟨o, r⟩], rfl, hparse, hpolicy, hpool, fun ev hev => ?_⟩
  rcases List.mem_append.mp hev with hev | hev
  · exact hidle ev hev
  · rw [List.mem_singleton.mp hev]
    exact ho

/-! ### The commands of a scale-in -/

theorem Taking.quits {victim : String} {o : Op} (h : Taking victim o) : Quits victim o := .inl h

theorem orphanGate_uses (victim : String) (refuse : List String → ScaleError) :
    Uses (Quits victim) (orphanGate victim refuse).run := by
  unfold orphanGate
  refine Uses.bindE ?_ fun leftover => ?_
  · unfold hostedServices
    rw [ask_bind]
    refine ⟨.inr trivial, fun r => ?_⟩
    match r with
    | .error e => trivial
    | .ok none => trivial
    | .ok (some obj) =>
      dsimp only
      split <;> trivial
  · split <;> trivial

theorem run_uses {ε α : Type} {P : Op → Prop} {p : Command α} (h : Uses P p) :
    Uses P (run p : CommandE ε α).run := h.bind fun _ => trivial

theorem applyScaleIn_uses (pages : Nat) (pool : List PoolEntry) (victim : String) :
    Uses (Quits victim) (applyScaleIn pages pool victim).run := by
  unfold applyScaleIn
  split
  · trivial
  · rename_i target hfind
    have hname : target.entry.nodeId = victim := by simpa using List.find?_some hfind
    rw [ask_bind]
    refine ⟨.inr trivial, fun r => ?_⟩
    match r with
    | .error stop => trivial
    | .ok () =>
      refine Uses.bindE (orphanGate_uses victim _) fun _ => ?_
      rw [ask_bind]
      refine ⟨.inr trivial, fun _ => ?_⟩
      refine Uses.bindE (orphanGate_uses victim _) fun _ => ?_
      have huses := teardownNode_uses pages target.entry
      rw [hname] at huses
      exact run_uses (huses.mono fun _ => Taking.quits)

theorem applyScaleInPass_uses (pages : Nat) (pool : List PoolEntry) (victim : String) :
    Uses (Quits victim) (applyScaleInPass pages pool victim).run := by
  refine (applyScaleIn_uses pages pool victim).bind fun r => ?_
  split <;> trivial

/-! ### A pass -/

theorem Quits.steps {victim : String} {o : Op} (ho : Quits victim o) (h : MayShrink clusterId victim own) :
    Steps clusterId o own := by
  rcases ho with ho | ho
  · cases o with
    | cluster o =>
      cases o with
      | putJson key value options => exact .inl ho
      | deleteObject key ifMatch => exact ho.elim
      | _ => trivial
    | deleteObjects id keys =>
      obtain rfl : id = victim := ho
      exact h
    | putRegistry node =>
      obtain ⟨rfl, hstate⟩ := ho
      exact ⟨h, hstate⟩
    | provisionNode spec => exact ho.elim
    | register entries => exact ho.elim
    | _ => trivial
  · cases o with
    | cluster o => exact ho.elim
    | deleteObjects id keys => exact ho.elim
    | putRegistry node => exact ho.elim
    | provisionNode spec => exact ho.elim
    | register entries => exact ho.elim
    | _ => trivial

theorem MayShrink.snoc {victim : String} (h : MayShrink clusterId victim own) {o : Op} (ho : Quits victim o) (r : Resp o) :
    MayShrink clusterId victim (own ++ [⟨o, r⟩]) := by
  obtain ⟨policy, nowMs, pool, reason, claimed, rest, rfl, hclaimed, hplan, hrest⟩ := h
  refine ⟨policy, nowMs, pool, reason, claimed, rest ++ [⟨o, r⟩], by rw [List.append_assoc], hclaimed, hplan, ?_⟩
  intro ev hev
  rcases List.mem_append.mp hev with hev | hev
  · exact hrest ev hev
  · rw [List.mem_singleton.mp hev]
    exact ho

section Sat

/-- Done, whatever the value. -/
abbrev anyway {ε α : Type} : Except ε α → Own → Prop := onResult (fun _ _ => True) fun _ _ => True

theorem steps_throw {α : Type} {Q : α → Own → Prop} (e : AutoscaleError) :
    Sat watched (Steps clusterId) (onResult Q fun _ _ => True) (throw e : PassM α).run own := Sat.watchRet trivial

theorem steps_pure {α : Type} {Q : α → Own → Prop} {a : α} (h : Q a own) :
    Sat watched (Steps clusterId) (onResult Q fun _ _ => True) (pure a : PassM α).run own := Sat.watchRet h

theorem requireCluster_sat : Sat watched (Steps clusterId) (onResult (fun cfg own' => ∃ obj,
    own' = [⟨look clusterId, .ok (some obj)⟩] ∧ parseClusterRecord obj.raw = some cfg) fun _ _ => True)
    (requireCluster clusterId).run [] := by
  unfold requireCluster
  split
  · exact steps_throw _
  · rw [ask_bind]
    refine Sat.watch trivial fun r => ?_
    match r with
    | .error e => exact steps_throw _
    | .ok none => exact steps_throw _
    | .ok (some obj) =>
      show Sat _ _ _ (match parseClusterRecord obj.raw with | none => _ | some cfg => _ : PassM _).run _
      split
      · exact steps_throw _
      · rename_i cfg hparse
        exact steps_pure ⟨obj, rfl, hparse⟩

theorem confirmAction_sat (opts : RunOptions) (h : Opened clusterId policy nowMs pool own) :
    Sat watched (Steps clusterId) (onResult (fun _ => Opened clusterId policy nowMs pool) fun _ _ => True)
      (confirmAction opts).run own := by
  unfold confirmAction
  split
  · exact steps_pure h
  · split
    · exact steps_throw _
    · rw [ask_bind]
      refine Sat.watch trivial fun r => ?_
      match r with
      | true => exact steps_pure (h.snoc (o := .confirm) trivial true)
      | false => exact steps_throw _

theorem specForScaleOut_sat (defaultEdge : Option String) (h : Opened clusterId policy nowMs pool own) :
    Sat watched (Steps clusterId) (onResult (fun _ => Opened clusterId policy nowMs pool) fun _ _ => True)
      (specForScaleOut pool defaultEdge).run own := by
  unfold specForScaleOut
  split
  · exact steps_throw _
  · rw [ask_bind]
    exact Sat.watch trivial fun r => steps_pure (h.snoc (o := .generateNodeName _) trivial r)

theorem projectNeeded_sat (opts : RunOptions) (h : Opened clusterId policy nowMs pool own) :
    Sat watched (Steps clusterId) (onResult (fun _ => Opened clusterId policy nowMs pool) fun _ _ => True)
      (projectNeeded opts).run own := by
  unfold projectNeeded
  split
  · exact steps_pure h
  · exact steps_throw _

theorem claimScaleAction_sat (h : Opened clusterId policy nowMs pool own) :
    Sat watched (Steps clusterId) (onResult (fun _ => Claimed clusterId policy nowMs pool) fun _ _ => True)
      (claimScaleAction clusterId nowMs).run own := by
  unfold claimScaleAction
  rw [ask_bind]
  refine Sat.watch trivial fun r => ?_
  match r with
  | .error e => exact steps_throw _
  | .ok none => exact steps_throw _
  | .ok (some obj) =>
    have hreread : Reread clusterId policy nowMs pool obj (note own (look clusterId) (.ok (some obj))) := ⟨own, rfl, h⟩
    show Sat _ _ _ (match parseClusterRecord obj.raw with | none => _ | some cfg => _ : PassM _).run _
    split
    · exact steps_throw _
    · split
      · exact steps_throw _
      · rw [ask_bind]
        refine Sat.watch (.inr ⟨policy, nowMs, pool, obj, rfl, rfl, hreread⟩) fun r => ?_
        match r with
        | .ok etag => exact steps_pure ⟨obj, _, _, etag, rfl, hreread⟩
        | .error .preconditionFailed => exact steps_throw _
        | .error .noSuchKey => exact steps_throw _
        | .error .syntaxError => exact steps_throw _

theorem applyScaleOut_sat (spec : ScaleOutNodeSpec) (h : MayGrow clusterId own) :
    Sat watched (Steps clusterId) anyway (applyScaleOut spec).run own := by
  unfold applyScaleOut
  rw [ask_bind]
  refine Sat.watch h fun r => ?_
  match r with
  | .error e => exact steps_throw _
  | .ok () =>
    rw [ask_bind]
    refine Sat.watch trivial fun r => ?_
    match r with
    | .error stop => exact steps_throw _
    | .ok () => exact steps_pure trivial

theorem applyScaleInPass_sat (pages : Nat) (pool : List PoolEntry) {victim : String} (h : MayShrink clusterId victim own) :
    Sat watched (Steps clusterId) anyway (applyScaleInPass pages pool victim).run own := by
  have hsat : Sat watched (Steps clusterId) (fun _ => MayShrink clusterId victim) (applyScaleInPass pages pool victim).run own := by
    apply Sat.ofUses (tracker_stable _) _ _ (applyScaleInPass_uses pages pool victim) h
    · intro o ho own r own' hmay hsem
      rw [show own' = own ++ [⟨o, r⟩] from hsem]
      exact hmay.snoc ho r
    · exact fun o own ho hmay => ho.steps hmay
  refine hsat.mono (fun _ _ h => h) fun r _ _ => ?_
  cases r <;> trivial

theorem applyDecision_sat (opts : RunOptions) (pages : Nat) (cfg : ClusterRecord) (h : Opened clusterId policy nowMs pool own) :
    Sat watched (Steps clusterId) anyway
      (applyDecision clusterId opts pages cfg nowMs pool (planOf policy nowMs pool)).run own := by
  cases hplan : planOf policy nowMs pool with
  | none reason => exact steps_pure trivial
  | scaleOut reason =>
    rw [applyDecision]
    split
    · exact steps_pure trivial
    · refine Sat.bindE (projectNeeded_sat opts h) (fun _ => tracker_stable _) fun _ own₁ h₁ => ?_
      refine Sat.bindE (specForScaleOut_sat cfg.defaultEdge h₁) (fun _ => tracker_stable _) fun spec own₂ h₂ => ?_
      refine Sat.bindE (confirmAction_sat opts h₂) (fun _ => tracker_stable _) fun _ own₃ h₃ => ?_
      refine Sat.bindE (claimScaleAction_sat h₃) (fun _ => tracker_stable _) fun _ own₄ h₄ => ?_
      exact applyScaleOut_sat spec ⟨policy, nowMs, pool, reason, h₄, hplan⟩
  | scaleIn victim reason =>
    rw [applyDecision]
    split
    · exact steps_pure trivial
    · refine Sat.bindE (projectNeeded_sat opts h) (fun _ => tracker_stable _) fun _ own₁ h₁ => ?_
      refine Sat.bindE (confirmAction_sat opts h₁) (fun _ => tracker_stable _) fun _ own₂ h₂ => ?_
      refine Sat.bindE (claimScaleAction_sat h₂) (fun _ => tracker_stable _) fun _ own₃ h₃ => ?_
      refine applyScaleInPass_sat pages pool ⟨policy, nowMs, pool, reason, own₃, [], ?_, h₃, hplan, ?_⟩
      · rw [List.append_nil]
      · intro ev hev
        cases hev

theorem runAutoscale_sat (clusterId : String) (opts : RunOptions) (pages : Nat) :
    Sat watched (Steps clusterId) anyway (runAutoscale clusterId opts pages).run [] := by
  unfold runAutoscale
  refine Sat.bindE requireCluster_sat (fun _ => tracker_stable _) ?_
  rintro cfg own₁ ⟨obj, rfl, hparse⟩
  cases hpolicy : cfg.autoscale with
  | none => exact steps_throw _
  | some policy =>
    simp only
    rw [ask_bind]
    refine Sat.watch trivial fun nowMs => ?_
    unfold observePool
    refine Sat.bindE (R := fun pool => Opened clusterId policy nowMs pool) (E := fun _ _ => True) ?_
      (fun _ => tracker_stable _) fun pool own₂ h => applyDecision_sat opts pages cfg h
    rw [ask_bind]
    refine Sat.watch trivial fun r => ?_
    match r with
    | .error e => exact steps_throw _
    | .ok readings =>
      refine steps_pure ⟨obj, cfg, readings, [], rfl, hparse, hpolicy, rfl, fun ev hev => ?_⟩
      cases hev

/-- What a pass has done at each command of its own. -/
theorem pass_sat (clusterId : String) (pass : Pass) :
    Sat watched (Steps clusterId) (fun _ _ => True) (pass.command clusterId) [] :=
  (runAutoscale_sat clusterId pass.opts pass.pages).bind fun _ _ _ => Sat.watchRet trivial

end Sat

/-! ## Over a run -/

section Run

variable {ι : Type}

/-- The pass's claim is accepted. -/
def ClaimsAt (h : History ι Resp) (clusterId : String) (i : ι) (n : Nat) : Prop :=
  ∃ value obj etag, h[n]? = some ⟨i, claimOf clusterId value obj, .ok etag⟩

/-- The client issues a command that may change the registry. -/
def ActsAt (h : History ι Resp) (i : ι) (n : Nat) : Prop :=
  ∃ e, h[n]? = some e ∧ e.who = i ∧ e.op.changesRegistry = true

/-- A pass's four times: it reads the policy (its first command), then the pool, then the
    record again, and claims on the condition that nobody wrote the record since. -/
structure Course (h : History ι Resp) (clusterId : String) (i : ι) (policy : AutoscalePolicy) (nowMs : Int)
    (pool : List PoolEntry) (a p b c : Nat) : Prop where
  look_survey : a < p
  survey_reread : p < b
  reread_claim : b < c
  first : ∀ n e, n < a → h[n]? = some e → e.who ≠ i
  observed : ∃ obj cfg readings, h[a]? = some ⟨i, look clusterId, .ok (some obj)⟩ ∧
    parseClusterRecord obj.raw = some cfg ∧ cfg.autoscale = some policy ∧
    h[p]? = some ⟨i, .readPool, .ok readings⟩ ∧ pool = readings.map (observe cfg.defaultEdge nowMs)
  claimed : ∃ obj value etag, h[b]? = some ⟨i, look clusterId, .ok (some obj)⟩ ∧
    h[c]? = some ⟨i, claimOf clusterId value obj, .ok etag⟩

variable {E : Etags} [DecidableEq ι] {passes : ι → Option Pass} {s t : Commands ι Unit} {h : History ι Resp} {i j : ι}
  {a p b c : Nat}

/-- Any number of passes beside any other clients. -/
structure Starts (clusterId : String) (passes : ι → Option Pass) (s : Commands ι Unit) : Prop where
  fresh : s.world.history = []
  pass : ∀ i pass, passes i = some pass → s.progs i = pass.command clusterId

theorem steps_at (hs : Starts clusterId passes s) (hr : CrewRun (recorded (sem E)) s t) {n : Nat} {e : Entry ι Resp}
    (he : t.world.history[n]? = some e) (hp : passes e.who ≠ none) :
    Steps clusterId e.op (mine e.who (t.world.history.take n)) := by
  have hsat : ∀ i, Sat watched (fun o own => passes i ≠ none → Steps clusterId o own) (fun _ _ => True) (s.progs i) [] := by
    intro i
    cases hi : passes i with
    | none => exact (Sat.any (s.progs i) []).mono (fun _ _ _ hne => absurd rfl hne) fun _ _ h => h
    | some pass =>
      rw [hs.pass i pass hi]
      exact (pass_sat clusterId pass).mono (fun _ _ h _ => h) fun _ _ h => h
  exact run_checked (G := fun i o own => passes i ≠ none → Steps clusterId o own) hsat hs.fresh hr he hp

/-- The times of a pass that has claimed; between its survey and its claim it has not
    touched the registry. -/
theorem course_of_claimed {n : Nat} {claimed rest : Own} (hclaimed : Claimed clusterId policy nowMs pool claimed)
    (hown : mine i (h.take n) = claimed ++ rest) :
    ∃ a p b c, Course h clusterId i policy nowMs pool a p b c ∧ c < n ∧ mine i (h.take (c + 1)) = claimed ∧
      ∃ l, mine i (h.take n) = mine i (h.take (p + 1)) ++ (l ++ rest) ∧ ∀ ev ∈ l, ev.op.changesRegistry = false := by
  obtain ⟨obj', _, value, etag, rfl, opened, rfl, obj, cfg, readings, idle, rfl, hparse, hpolicy, rfl, hidle⟩ := hclaimed
  let looked : Event Resp := ⟨look clusterId, .ok (some obj)⟩
  let timed : Event Resp := ⟨.now, nowMs⟩
  let surveyed : Event Resp := ⟨.readPool, .ok readings⟩
  let reread : Event Resp := ⟨look clusterId, .ok (some obj')⟩
  let stamp : Event Resp := ⟨claimOf clusterId value obj', .ok etag⟩
  have hflat : mine i (h.take n) = looked :: timed :: surveyed :: (idle ++ reread :: stamp :: rest) := by
    rw [hown]
    simp [looked, timed, surveyed, reread, stamp]
  have hb' : mine i (h.take n) = (looked :: timed :: surveyed :: idle) ++ reread :: stamp :: rest := hflat
  have hc' : mine i (h.take n) = (looked :: timed :: surveyed :: (idle ++ [reread])) ++ stamp :: rest := by
    rw [hflat]
    simp
  obtain ⟨a, _, ha, hla⟩ := mine_split_take (show mine i (h.take n) = [] ++ looked :: _ from hflat)
  obtain ⟨p, _, hp, hlp⟩ := mine_split_take (show mine i (h.take n) = [looked, timed] ++ surveyed :: _ from hflat)
  obtain ⟨b, _, hb, hlb⟩ := mine_split_take hb'
  obtain ⟨c, hcn, hc, hlc⟩ := mine_split_take hc'
  have hap : a < p := mine_lt (by rw [hla, hlp]; simp)
  have hpb : p < b := mine_lt (by rw [hlp, hlb]; simp)
  have hbc : b < c := mine_lt (by rw [hlb, hlc]; simp)
  have hfirst : ∀ m e, m < a → h[m]? = some e → e.who ≠ i := by
    intro m e hm he hi
    have hl : mine i (h.take a) = mine i (h.take 0) ++ mine i (h.take a) := rfl
    have hmem := mine_between hl (Nat.zero_le m) hm he hi
    rw [hla] at hmem
    cases hmem
  have hclaim : mine i (h.take (c + 1)) = (looked :: timed :: surveyed :: (idle ++ [reread])) ++ [stamp] := by
    have hsucc := mine_succ hc
    simp only at hsucc
    rw [hsucc, hlc]
  have hsurvey : mine i (h.take (p + 1)) = [looked, timed] ++ [surveyed] := by
    have hsucc := mine_succ hp
    simp only at hsucc
    rw [hsucc, hlp]
  refine ⟨a, p, b, c, ⟨hap, hpb, hbc, hfirst, ⟨obj, cfg, readings, ha, hparse, hpolicy, hp, rfl⟩,
    obj', value, etag, hb, hc⟩, hcn, by rw [hclaim]; simp [looked, timed, surveyed, reread, stamp],
    idle ++ [reread, stamp], ?_, ?_⟩
  · rw [hflat, hsurvey]
    simp
  · intro ev hev
    rcases List.mem_append.mp hev with hev | hev
    · exact (hidle ev hev).quiet
    · rcases List.mem_cons.mp hev with rfl | hev
      · rfl
      · rw [List.mem_singleton.mp hev]
        rfl

/-- A pass that claims has read the policy, the pool, and the record again. -/
theorem claim_course (hs : Starts clusterId passes s) (hr : CrewRun (recorded (sem E)) s t) (hp : passes i ≠ none) {c : Nat}
    (hc : ClaimsAt t.world.history clusterId i c) :
    ∃ policy nowMs pool a p b, Course t.world.history clusterId i policy nowMs pool a p b c := by
  obtain ⟨value, obj, etag, hc⟩ := hc
  rcases steps_at hs hr hc hp with hempty | ⟨policy, nowMs, pool, obj', _, hopts, hreread⟩
  · cases hempty
  · have hsucc := mine_succ hc
    simp only at hsucc
    have hclaimed : Claimed clusterId policy nowMs pool (mine i (t.world.history.take (c + 1))) := by
      refine ⟨obj', _, value, etag, ?_, hreread⟩
      rw [hsucc]
      unfold claimOf
      rw [hopts]
    obtain ⟨a, p, b, c', hcourse, hlt, hlast, _⟩ := course_of_claimed hclaimed (List.append_nil _).symm
    -- the pass's log ends with this very command
    obtain rfl : c' = c := by
      by_contra hne
      obtain ⟨l, hl⟩ := mine_grows i t.world.history (show c' + 1 ≤ c by omega)
      have hlen := congrArg List.length hsucc
      rw [hl, hlast] at hlen
      simp at hlen
    exact ⟨policy, nowMs, pool, a, p, b, hcourse⟩

/-- A pass that acts has claimed before, and what it does is what it decided. -/
theorem act_course (hs : Starts clusterId passes s) (hr : CrewRun (recorded (sem E)) s t) {x : Nat} {e : Entry ι Resp}
    (hp : passes e.who ≠ none) (he : t.world.history[x]? = some e) (hact : e.op.changesRegistry = true) :
    ∃ policy nowMs pool a p b c, Course t.world.history clusterId e.who policy nowMs pool a p b c ∧ c < x ∧
      ((∃ spec reason, e.op = .provisionNode spec ∧ planOf policy nowMs pool = .scaleOut reason ∧
          ∀ n e', p < n → n < x → t.world.history[n]? = some e' → e'.who = e.who → e'.op.changesRegistry = false) ∨
        (∃ victim reason, Taking victim e.op ∧ planOf policy nowMs pool = .scaleIn victim reason ∧
          ∀ n e', p < n → n < x → t.world.history[n]? = some e' → e'.who = e.who →
            e'.op.changesRegistry = false ∨ Quits victim e'.op)) := by
  have hsteps := steps_at hs hr he hp
  have hshrink : ∀ victim, Taking victim e.op → MayShrink clusterId victim (mine e.who (t.world.history.take x)) →
      ∃ policy nowMs pool a p b c, Course t.world.history clusterId e.who policy nowMs pool a p b c ∧ c < x ∧
        ∃ reason, planOf policy nowMs pool = .scaleIn victim reason ∧
          ∀ n e', p < n → n < x → t.world.history[n]? = some e' → e'.who = e.who →
            e'.op.changesRegistry = false ∨ Quits victim e'.op := by
    intro victim _ ⟨policy, nowMs, pool, reason, claimed, rest, hown, hclaimed, hplan, hrest⟩
    obtain ⟨a, p, b, c, hcourse, hcx, _, l, hl, hquiet⟩ := course_of_claimed hclaimed hown
    refine ⟨policy, nowMs, pool, a, p, b, c, hcourse, hcx, reason, hplan, fun n e' hpn hnx hn hi => ?_⟩
    rcases List.mem_append.mp (mine_between hl hpn hnx hn hi) with hmem | hmem
    · exact .inl (hquiet _ hmem)
    · exact .inr (hrest _ hmem)
  obtain ⟨i, o, r⟩ := e
  cases o with
  | provisionNode spec =>
    obtain ⟨policy, nowMs, pool, reason, hclaimed, hplan⟩ := hsteps
    obtain ⟨a, p, b, c, hcourse, hcx, _, l, hl, hquiet⟩ := course_of_claimed hclaimed (List.append_nil _).symm
    refine ⟨policy, nowMs, pool, a, p, b, c, hcourse, hcx, .inl ⟨spec, reason, rfl, hplan, fun n e' hpn hnx hn hi => ?_⟩⟩
    rw [List.append_nil] at hl
    exact hquiet _ (mine_between hl hpn hnx hn hi)
  | deleteObjects id keys =>
    obtain ⟨policy, nowMs, pool, a, p, b, c, hcourse, hcx, reason, hplan, hbetween⟩ := hshrink id rfl hsteps
    exact ⟨policy, nowMs, pool, a, p, b, c, hcourse, hcx, .inr ⟨id, reason, rfl, hplan, hbetween⟩⟩
  | putRegistry node =>
    obtain ⟨policy, nowMs, pool, a, p, b, c, hcourse, hcx, reason, hplan, hbetween⟩ :=
      hshrink node.nodeId ⟨rfl, hsteps.2⟩ hsteps.1
    exact ⟨policy, nowMs, pool, a, p, b, c, hcourse, hcx, .inr ⟨node.nodeId, reason, ⟨rfl, hsteps.2⟩, hplan, hbetween⟩⟩
  | register entries => exact hsteps.elim
  | _ => cases hact

/-! ### The window from the second read to the claim -/

/-- A write of `cluster.json` is accepted. -/
def WritesAt (h : History ι Resp) (clusterId : String) (n : Nat) : Prop :=
  ∃ j value options etag, h[n]? = some ⟨j, .cluster (.putJson (clusterConfigKey clusterId) value options), .ok etag⟩

omit [DecidableEq ι] in
theorem ClaimsAt.writes {n : Nat} (hc : ClaimsAt h clusterId i n) : WritesAt h clusterId n := by
  obtain ⟨value, obj, etag, hn⟩ := hc
  exact ⟨i, value, _, etag, hn⟩

/-- Nobody writes the record between a claim's read of it and the claim. -/
theorem exclusive_reread (h₀ : s.world.history = []) (hr : CrewRun (recorded (sem E)) s t)
    (hcourse : Course t.world.history clusterId i policy nowMs pool a p b c) {n : Nat} (hbn : b < n) (hnc : n < c) :
    ¬ WritesAt t.world.history clusterId n := by
  intro ⟨j, value', options, etag', hn⟩
  obtain ⟨obj, value, etag, hb, hc⟩ := hcourse.claimed
  -- the run up to the claim, up to the write, and up to the read
  obtain ⟨uc, _, huc, htakec, _, hsemc, _⟩ := run_at hr (by rw [h₀]; exact Nat.zero_le c) hc
  have hnc' : uc.world.history[n]? = some ⟨j, .cluster (.putJson (clusterConfigKey clusterId) value' options), .ok etag'⟩ := by
    rw [htakec, List.getElem?_take_of_lt hnc, hn]
  obtain ⟨un, vn, hun, htaken, _, hsemn, _, _, hvn⟩ := run_at huc (by rw [h₀]; exact Nat.zero_le n) hnc'
  have hbn' : un.world.history[b]? = some ⟨i, look clusterId, .ok (some obj)⟩ := by
    rw [htaken, htakec, List.getElem?_take_of_lt hbn, List.getElem?_take_of_lt (by omega), hb]
  obtain ⟨ub, vb, _, _, _, hsemb, _, _, hvb⟩ := run_at hun (by rw [h₀]; exact Nat.zero_le b) hbn'
  obtain ⟨hread, hsame⟩ := hsemb.1
  obtain ⟨v, hetag, hcurb⟩ := getJson_version hread.symm
  have hadmc : admits E (some obj.etag) none (clusterConfigKey clusterId) uc.world.store.cluster = .ok () := by
    rcases s3Sem_put hsemc.1 with ⟨hadm, _⟩ | ⟨_, herr, _⟩
    · exact hadm
    · cases herr
  rw [hetag] at hadmc
  obtain ⟨body, hcurc⟩ := admits_version hadmc
  -- the record has the version that was read, so the journal has no write to it in between
  obtain ⟨later, hlater⟩ := (run_extends hvn).1
  obtain ⟨earlier, hearlier⟩ := (run_extends hvb).1
  rcases s3Sem_put hsemn.1 with ⟨_, _, hwrite⟩ | ⟨_, herr, _⟩
  · have hsplit : uc.world.store.cluster = (later ++
        ⟨some j, clusterConfigKey clusterId, some (.parsed value')⟩ :: earlier) ++ ub.world.store.cluster := by
      rw [hlater, hwrite, hearlier, hsame]
      simp
    rw [hsplit] at hcurc
    have huntouched := Journal.untouched (Journal.current_lt hcurb) hcurc
    exact huntouched ⟨some j, clusterConfigKey clusterId, some (.parsed value')⟩ (by simp) rfl
  · cases herr

/-! ### The pool -/

/-- The registered nodes of the pool. -/
def poolIds (registry : List NodeRegistryEntry) : List String :=
  (registry.filter fun e => inPool e.role e.state).map (·.nodeId)

def poolSize (registry : List NodeRegistryEntry) : Nat := (poolIds registry).length

theorem poolIds_nodup {registry : List NodeRegistryEntry} (h : (registry.map (·.nodeId)).Nodup) :
    (poolIds registry).Nodup := h.sublist (List.filter_sublist.map _)

/-- A pass counts the pool that is registered. -/
theorem poolOf_length {readings : List NodeReading} {registry : List NodeRegistryEntry} (defaultEdge : Option String)
    (nowMs : Int) (h : (readings.map (·.entry)).Perm registry) :
    (poolOf ((readings.map (observe defaultEdge nowMs)).map (·.observation))).length = poolSize registry := by
  rw [poolSize, poolIds, List.length_map, poolOf, ← List.countP_eq_length_filter, ← List.countP_eq_length_filter,
    ← h.countP_eq, List.countP_map, List.countP_map, List.countP_map]
  rfl

/-- A node that is put in its place adds at most itself. -/
theorem poolSize_putEntry (entry : NodeRegistryEntry) (registry : List NodeRegistryEntry) :
    poolSize (putEntry entry registry) ≤ poolSize registry + 1 := by
  simp only [poolSize, poolIds, putEntry, List.length_map, ← List.countP_eq_length_filter, List.countP_cons]
  have hle : (registry.filter (·.nodeId != entry.nodeId)).countP (fun e => inPool e.role e.state) ≤
      registry.countP fun e => inPool e.role e.state := List.filter_sublist.countP_le
  split <;> omega

/-- The pool has all but the victim of what it had. -/
def AllBut (victim : String) (registry registry' : List NodeRegistryEntry) : Prop :=
  ∀ id ∈ poolIds registry, id ≠ victim → id ∈ poolIds registry'

theorem AllBut.poolSize_le {victim : String} {registry registry' : List NodeRegistryEntry}
    (h : AllBut victim registry registry') (hnd : (registry.map (·.nodeId)).Nodup) :
    poolSize registry ≤ poolSize registry' + 1 := by
  have hsub : (poolIds registry).erase victim ⊆ poolIds registry' := by
    intro id hid
    refine h id (List.mem_of_mem_erase hid) fun he => ?_
    subst he
    exact (poolIds_nodup hnd).not_mem_erase hid
  have hlen := (List.subperm_of_subset ((poolIds_nodup hnd).erase victim) hsub).length_le
  rw [List.length_erase] at hlen
  unfold poolSize
  split at hlen <;> omega

theorem mem_poolIds {registry : List NodeRegistryEntry} {id : String} :
    id ∈ poolIds registry ↔ ∃ e ∈ registry, inPool e.role e.state = true ∧ e.nodeId = id := by
  simp [poolIds, and_assoc]

theorem AllBut.drop {victim : String} {registry registry' : List NodeRegistryEntry}
    (h : AllBut victim registry registry') : AllBut victim registry (dropEntry victim registry') := by
  intro id hid hne
  obtain ⟨e, he, hin, rfl⟩ := mem_poolIds.mp (h id hid hne)
  exact mem_poolIds.mpr ⟨e, List.mem_filter.mpr ⟨he, by simpa using hne⟩, hin, rfl⟩

theorem AllBut.put {victim : String} {registry registry' : List NodeRegistryEntry} {node : NodeRegistryEntry}
    (h : AllBut victim registry registry') (hnode : node.nodeId = victim) :
    AllBut victim registry (putEntry node registry') := by
  intro id hid hne
  obtain ⟨e, he, hin, rfl⟩ := mem_poolIds.mp (h id hid hne)
  refine mem_poolIds.mpr ⟨e, List.mem_cons_of_mem _ (List.mem_filter.mpr ⟨he, ?_⟩), hin, rfl⟩
  simpa [hnode] using hne

omit [DecidableEq ι] in
/-- A scale-in takes no node but its victim out of the pool. -/
theorem AllBut.keeps {victim : String} {registry : List NodeRegistryEntry} {e : Entry ι Resp}
    (hquits : e.op.changesRegistry = false ∨ Quits victim e.op) {w w' : World ι} (hsem : sem E e.who e.op w e.resp w')
    (h : AllBut victim registry w.registry) : AllBut victim registry w'.registry := by
  cases hchange : e.op.changesRegistry with
  | false => rw [sem_registry hsem hchange]; exact h
  | true =>
    have hq : Quits victim e.op := by
      rcases hquits with hno | hq
      · rw [hchange] at hno; cases hno
      · exact hq
    have hreg := hsem.2.2.1
    obtain ⟨i, o, r⟩ := e
    rcases hq with hq | hq
    · cases o with
      | deleteObjects id keys =>
        obtain rfl : id = victim := hq
        rcases hreg with he | ⟨_, he⟩
        · rw [he]; exact h
        · rw [he]; exact h.drop
      | putRegistry node =>
        rcases hreg with he | he
        · rw [he]; exact h
        · rw [he]; exact h.put hq.1
      | provisionNode spec => exact hq.elim
      | register entries => exact hq.elim
      | _ => cases hchange
    · cases o with
      | deleteObjects id keys => exact hq.elim
      | putRegistry node => exact hq.elim
      | provisionNode spec => exact hq.elim
      | register entries => exact hq.elim
      | _ => cases hchange

/-! ### Passes beside each other -/

/-- No other pass's claim is accepted strictly between the two times. -/
def NoClaimBetween (passes : ι → Option Pass) (clusterId : String) (h : History ι Resp) (i : ι) (a b : Nat) : Prop :=
  ∀ j n, passes j ≠ none → j ≠ i → a < n → n < b → ¬ ClaimsAt h clusterId j n

/-- No other pass acts strictly between the two times. -/
def NoActBetween (passes : ι → Option Pass) (h : History ι Resp) (i : ι) (a b : Nat) : Prop :=
  ∀ j n, passes j ≠ none → j ≠ i → a < n → n < b → ¬ ActsAt h j n

/-- The steps at which passes are not disturbed by each other. -/
structure Undisturbed (passes : ι → Option Pass) (clusterId : String) (h : History ι Resp) : Prop where
  /-- When a pass reads the record again no other has claimed since it read the policy. -/
  reread : ∀ {i policy nowMs pool a p b c}, passes i ≠ none → Course h clusterId i policy nowMs pool a p b c →
    NoClaimBetween passes clusterId h i a b
  /-- When it observes the pool no other has claimed that is yet to act. -/
  landed : ∀ {i policy nowMs pool a p b c}, passes i ≠ none → Course h clusterId i policy nowMs pool a p b c →
    ∀ j n x, passes j ≠ none → j ≠ i → ClaimsAt h clusterId j n → n < p → ActsAt h j x → x < p

omit [DecidableEq ι] in
theorem Course.claims (hcourse : Course h clusterId i policy nowMs pool a p b c) : ClaimsAt h clusterId i c := by
  obtain ⟨obj, value, etag, _, hc⟩ := hcourse.claimed
  exact ⟨value, obj, etag, hc⟩

omit [DecidableEq ι] in
/-- Two clients' commands are at different times. -/
theorem ne_time {n m : Nat} {e e' : Entry ι Resp} (hn : h[n]? = some e) (hm : h[m]? = some e') (hne : e.who ≠ e'.who) :
    n ≠ m := by
  intro he
  subst he
  rw [hn] at hm
  exact hne (congrArg Entry.who (Option.some.inj hm))

/-- No other claim lies in a pass's window exactly when none lies before its second read. -/
theorem window_iff (h₀ : s.world.history = []) (hr : CrewRun (recorded (sem E)) s t)
    (hcourse : Course t.world.history clusterId i policy nowMs pool a p b c) :
    NoClaimBetween passes clusterId t.world.history i a c ↔ NoClaimBetween passes clusterId t.world.history i a b := by
  constructor
  · intro h j n hj hne han hnb
    exact h j n hj hne han (hnb.trans hcourse.reread_claim)
  · intro h j n hj hne han hnc hclaim
    rcases Nat.lt_trichotomy n b with hnb | rfl | hbn
    · exact h j n hj hne han hnb hclaim
    · -- the second read is no claim
      obtain ⟨_, _, _, hb, _⟩ := hcourse.claimed
      obtain ⟨_, _, _, hn⟩ := hclaim
      exact ne_time hn hb hne rfl
    · exact exclusive_reread h₀ hr hcourse hbn hnc hclaim.writes

omit [DecidableEq ι] in
/-- Then two passes' windows do not overlap. -/
theorem windows_apart {policy' : AutoscalePolicy} {nowMs' : Int} {pool' : List PoolEntry} {a' p' b' c' : Nat}
    (hi : passes i ≠ none) (hj : passes j ≠ none) (hne : i ≠ j)
    (hcourse : Course h clusterId i policy nowMs pool a p b c)
    (hcourse' : Course h clusterId j policy' nowMs' pool' a' p' b' c')
    (hwin : NoClaimBetween passes clusterId h i a c) (hwin' : NoClaimBetween passes clusterId h j a' c') :
    c < a' ∨ c' < a := by
  obtain ⟨_, _, _, _, hc⟩ := hcourse.claimed
  obtain ⟨_, _, _, _, hc'⟩ := hcourse'.claimed
  obtain ⟨_, _, _, ha, _⟩ := hcourse.observed
  obtain ⟨_, _, _, ha', _⟩ := hcourse'.observed
  have h₁ : c ≠ c' := ne_time hc hc' hne
  have h₂ : c ≠ a' := ne_time hc ha' hne
  have h₃ : c' ≠ a := ne_time hc' ha (Ne.symm hne)
  rcases Nat.lt_or_ge c c' with hlt | hge
  · by_cases hac : a' < c
    · exact absurd hcourse.claims (hwin' i c hi hne hac hlt)
    · exact .inl (by omega)
  · by_cases hac : a < c'
    · exact absurd hcourse'.claims (hwin j c' hj (Ne.symm hne) hac (by omega))
    · exact .inr (by omega)

/-- And between a pass's survey and its act no other pass acts. -/
theorem acts_apart (hs : Starts clusterId passes s) (hr : CrewRun (recorded (sem E)) s t)
    (hquiet : Undisturbed passes clusterId t.world.history) (hi : passes i ≠ none)
    (hcourse : Course t.world.history clusterId i policy nowMs pool a p b c) {x : Nat}
    (hact : ActsAt t.world.history i x) : NoActBetween passes t.world.history i p x := by
  intro j x' hj hne hpx' hx'x hact'
  obtain ⟨e', he', rfl, hchange'⟩ := hact'
  obtain ⟨policy', nowMs', pool', a', p', b', c', hcourse', hcx', _⟩ := act_course hs hr hj he' hchange'
  have hwin := (window_iff hs.fresh hr hcourse).mpr (hquiet.reread hi hcourse)
  have hwin' := (window_iff hs.fresh hr hcourse').mpr (hquiet.reread hj hcourse')
  have hap := hcourse.look_survey
  have hap' := hcourse'.look_survey
  rcases windows_apart hi hj (Ne.symm hne) hcourse hcourse' hwin hwin' with hlt | hlt
  · -- the other pass observed the pool after this claim and before this act
    have := hquiet.landed hj hcourse' i c x hi (Ne.symm hne) hcourse.claims (by omega) hact
    have := hcourse'.survey_reread
    have := hcourse'.reread_claim
    omega
  · -- the other pass had claimed when this one observed the pool
    have := hquiet.landed hi hcourse e'.who c' x' hj hne hcourse'.claims (by omega) ⟨e', he', rfl, hchange'⟩
    omega

/-- Where an act leaves the pool, by the policy that was read. -/
def WithinBounds (policy : AutoscalePolicy) (registry : List NodeRegistryEntry) : Op → Prop
  | .provisionNode _ => poolSize registry ≤ policy.maxNodes
  | _ => policy.minNodes ≤ poolSize registry

/-- No client but the passes changes the registry strictly between the two times. -/
def NoOtherChange (passes : ι → Option Pass) (h : History ι Resp) (a b : Nat) : Prop :=
  ∀ n e, a < n → n < b → h[n]? = some e → passes e.who = none → e.op.changesRegistry = false

/-- An act comes from a course of its own; on a pool that only the passes touch it stays
    within the bounds. -/
theorem act_within_bounds (hs : Starts clusterId passes s) (hr : CrewRun (recorded (sem E)) s t) {x : Nat}
    {e : Entry ι Resp} (hp : passes e.who ≠ none) (he : t.world.history[x]? = some e)
    (hact : e.op.changesRegistry = true) (hquiet : Undisturbed passes clusterId t.world.history) :
    ∃ policy nowMs pool a p b c, Course t.world.history clusterId e.who policy nowMs pool a p b c ∧ c < x ∧
      NoActBetween passes t.world.history e.who p x ∧
      (t.world.history.length = x + 1 → NoOtherChange passes t.world.history p x →
        WithinBounds policy t.world.store.registry e.op) := by
  obtain ⟨policy, nowMs, pool, a, p, b, c, hcourse, hcx, hdid⟩ := act_course hs hr hp he hact
  have hapart := acts_apart hs hr hquiet hp hcourse ⟨e, he, rfl, hact⟩
  refine ⟨policy, nowMs, pool, a, p, b, c, hcourse, hcx, hapart, fun hlast hother => ?_⟩
  have hpx : p < x := by
    have := hcourse.survey_reread
    have := hcourse.reread_claim
    omega
  obtain ⟨obj, cfg, readings, _, _, _, hsurvey, rfl⟩ := hcourse.observed
  -- the runs up to the act and up to the survey
  obtain ⟨ux, vx, hux, htakex, _, hsemx, hvx, _, hvxt⟩ := run_at hr (by rw [hs.fresh]; exact Nat.zero_le x) he
  have hux_len : ux.world.history.length = x := by
    rw [htakex, List.length_take, hlast]
    omega
  obtain rfl : t = vx := run_still hvxt (by rw [hlast, hvx, List.length_append, hux_len]; rfl)
  have hsurvey' : ux.world.history[p]? = some ⟨e.who, .readPool, .ok readings⟩ := by
    rw [htakex, List.getElem?_take_of_lt hpx, hsurvey]
  obtain ⟨up, vp, _, htakep, _, hsemp, hvp, _, hvpx⟩ := run_at hux (by rw [hs.fresh]; exact Nat.zero_le p) hsurvey'
  have hvp_len : vp.world.history.length = p + 1 := by
    rw [hvp, htakep, List.length_append, List.length_take, hux_len, List.length_singleton]
    omega
  have hcount := poolOf_length cfg.defaultEdge nowMs (hsemp.2.2.2 readings rfl)
  have hsame : vp.world.store.registry = up.world.store.registry := hsemp.2.2.1
  rw [← hsame] at hcount
  -- in between only the pass itself touches the registry
  have hbetween : ∀ n e', vp.world.history.length ≤ n → ux.world.history[n]? = some e' →
      e'.op.changesRegistry = false ∨ (p < n ∧ n < x ∧ t.world.history[n]? = some e' ∧ e'.who = e.who) := by
    intro n e' hn he'
    have hnx : n < x := hux_len ▸ (List.getElem?_eq_some_iff.mp he').1
    rw [htakex, List.getElem?_take_of_lt hnx] at he'
    have hpn : p < n := by omega
    cases hchange : e'.op.changesRegistry with
    | false => exact .inl rfl
    | true =>
      refine .inr ⟨hpn, hnx, he', ?_⟩
      by_contra hwho
      cases hpass : passes e'.who with
      | none =>
        rw [hother n e' hpn hnx he' hpass] at hchange
        cases hchange
      | some pass => exact hapart e'.who n (by rw [hpass]; simp) hwho hpn hnx ⟨e', he', rfl, hchange⟩
  rcases hdid with ⟨spec, reason, hop, hplan, hown⟩ | ⟨victim, reason, htaking, hplan, hown⟩
  · have hkept : ux.world.store.registry = vp.world.store.registry := by
      refine run_keeps (P := fun w => w.registry = vp.world.store.registry) hvpx ?_ rfl
      intro n e' hn he' w w' hsem hw
      have hno : e'.op.changesRegistry = false := by
        rcases hbetween n e' hn he' with hno | ⟨hpn, hnx, he'', hwho⟩
        · exact hno
        · exact hown n e' hpn hnx he'' hwho
      rw [sem_registry hsem hno, hw]
    have hmax := planAutoscale_scaleOut hplan
    rw [hcount] at hmax
    have hreg := hsemx.2.2.1
    rw [hop] at hreg ⊢
    show poolSize t.world.store.registry ≤ policy.maxNodes
    rcases hreg with heq | ⟨_, entry, _, _, _, heq⟩
    · rw [heq, hkept]
      omega
    · have hput := poolSize_putEntry entry ux.world.store.registry
      rw [heq]
      rw [hkept] at hput ⊢
      omega
  · have hkept : AllBut victim vp.world.store.registry ux.world.store.registry := by
      refine run_keeps (P := fun w => AllBut victim vp.world.store.registry w.registry) hvpx ?_ fun id hid _ => hid
      intro n e' hn he' w w' hsem hw
      refine AllBut.keeps ?_ hsem hw
      rcases hbetween n e' hn he' with hno | ⟨hpn, hnx, he'', hwho⟩
      · exact .inl hno
      · exact hown n e' hpn hnx he'' hwho
    have hafter := AllBut.keeps (.inr htaking.quits) hsemx hkept
    have hmin := (planAutoscale_scaleIn hplan).1
    rw [hcount] at hmin
    have hle := hafter.poolSize_le vp.world.store.unique
    cases hop : e.op with
    | provisionNode spec => rw [hop] at htaking; exact htaking.elim
    | _ => exact show policy.minNodes ≤ poolSize t.world.store.registry by omega

end Run

/-! ### One pass, and two on one observation -/

theorem hotPolicy_min : 1 ≤ 1 := by decide
theorem hotPolicy_max : 2 ≤ 100 := by decide
theorem hotPolicy_ordered : 1 ≤ 2 := by decide

def hotPolicy : AutoscalePolicy where
  minNodes := 1
  maxNodes := 2
  min_pos := hotPolicy_min
  max_le := hotPolicy_max
  out_range := default_out_range
  in_range := default_in_range
  ordered := hotPolicy_ordered
  apart := default_apart

def prodRecord : ClusterRecord := { clusterId := "prod", defaultEdge := some "edge-1", autoscale := some hotPolicy }

/-- Busy, by a fresh sample. -/
def busy : HostStatus := ⟨.ms 0, some ⟨90, 512, 1024, .ms 0⟩⟩

def cronPass : Pass := ⟨{ yes := true }, 1⟩

section Examples

variable {κ : Type}

/-- Passes of a busy pool of one node that may grow to two. -/
def beforePasses (κ : Type) : Commands κ Unit where
  progs _ := cronPass.command "prod"
  world := { store := {
    cluster := [⟨none, clusterConfigKey "prod", some (.parsed (.json prodRecord))⟩]
    desired := []
    registry := [smallNode]
    unique := List.nodup_singleton _ } }

theorem beforePasses_starts : Starts "prod" (fun _ => some cronPass) (beforePasses κ) := by
  refine ⟨rfl, fun i pass hpass => ?_⟩
  cases hpass
  rfl

/-- Every node is busy, and each client draws names of its own. -/
def busyServer (more : κ → Nat) : κ → (o : Op) → World κ → Resp o × World κ :=
  serve strokes "t" 0 (fun _ => some busy) more

def playPasses [DecidableEq κ] (more : κ → Nat) (schedule : List κ) : Commands κ Unit :=
  Crew.play (recordedServe (busyServer more)) schedule (beforePasses κ)

theorem playPasses_run [DecidableEq κ] (more : κ → Nat) (schedule : List κ) :
    CrewRun (recorded (sem strokes)) (beforePasses κ) (playPasses more schedule) := by
  unfold playPasses
  exact play_run (recordedServe_sem (serve_sem strokes "t" 0 (fun _ => some busy) more)) schedule (beforePasses κ)

def claimsOf [DecidableEq κ] (clusterId : String) (i : κ) : Entry κ Resp → Bool
  | ⟨j, .cluster (.putJson key _ ⟨some _, none⟩), .ok _⟩ => decide (j = i) && decide (key = clusterConfigKey clusterId)
  | _ => false

theorem claimsAt_of [DecidableEq κ] {h : History κ Resp} {i : κ} {n : Nat}
    (hn : (h[n]?.any (claimsOf clusterId i)) = true) : ClaimsAt h clusterId i n := by
  cases he : h[n]? with
  | none => rw [he] at hn; cases hn
  | some e =>
    rw [he, Option.any_some] at hn
    unfold claimsOf at hn
    split at hn
    · rename_i j key value etag etag'
      simp only [Bool.and_eq_true, decide_eq_true_eq] at hn
      obtain ⟨rfl, rfl⟩ := hn
      exact ⟨value, ⟨value, etag⟩, etag', he⟩
    · cases hn

theorem actsAt_of [DecidableEq κ] {h : History κ Resp} {i : κ} {n : Nat}
    (hn : (h[n]?.any fun e => decide (e.who = i) && e.op.changesRegistry) = true) : ActsAt h i n := by
  cases he : h[n]? with
  | none => rw [he] at hn; cases hn
  | some e =>
    rw [he, Option.any_some, Bool.and_eq_true, decide_eq_true_eq] at hn
    exact ⟨e, he, hn⟩

end Examples

/-- One pass, up to its act. -/
def onePass : Commands Unit Unit := playPasses (fun _ => 0) [(), (), (), (), (), (), ()]

theorem onePass_undisturbed : Undisturbed (fun _ => some cronPass) "prod" onePass.world.history where
  reread _ _ _ _ _ hne := absurd rfl hne
  landed _ _ _ _ _ _ hne := absurd rfl hne

/-- The first pass observes; the second runs to its act; the first goes on. -/
def overlapSchedule : List Bool :=
  [true, true, true, false, false, false, false, false, false, false, true, true, true, true]

def twoPasses : Commands Bool Unit := playPasses (fun i => if i then 1 else 0) overlapSchedule

end LaunchPad.Cli.Fleet
