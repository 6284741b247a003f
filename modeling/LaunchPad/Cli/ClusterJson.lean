/-
  LaunchPad.Cli.ClusterJson — the operations that rewrite a cluster's `cluster.json`: a
  deploy that keeps its SNS topic (`commands/deploy.ts`), `adoptEdgeIfUnset`
  (`cluster/store.ts`), a node's teardown (`commands/node/index.ts`), and the autoscaler's
  policy and claim (`commands/autoscale.ts`).

  Each reads the whole record, changes a field and writes the whole record back. The
  autoscaler writes on the condition that the record is the one it read; the others write
  in any case.

  As built:
  - `stale_edge_write_drops_claim`: an edge adopted on a record read before a claim writes
    the record without the claim's `lastScaleAt`.

  Proved, for any number of operations in any order:
  - `cluster_fields_kept_iff`: a field keeps its value until an operation that means to
    change it writes, exactly when every unconditional write finds the other fields as its
    operation had read them.

  The proof rests on `edits`: a write carries what its operation read, but for the fields
  it means to change; and on the journal: a version never names two bodies.
-/
import LaunchPad.Shared.Autoscale
import LaunchPad.Shared.Schema
import LaunchPad.Lib.History
import LaunchPad.Cli.S3State

namespace LaunchPad.Cli.ClusterJson

open Lib

/-! ## The record -/

/-- `ClusterConfigSchema`; a policy is one its own schema accepts. -/
structure ClusterDocument where
  clusterId : String
  defaultEdge : Option String := none
  region : String
  createdAt : String
  createdBy : String
  autoscale : Option AutoscalePolicy := none
  snsTopicArn : Option String := none
  deriving DecidableEq, Repr

def clusterDocumentSchema (c : ClusterDocument) : Bool :=
  labelMatches c.clusterId && c.defaultEdge != some "" && c.region != "" && c.snsTopicArn != some ""

/-- `parseClusterConfig`. -/
def parseClusterDocument : Raw ClusterDocument → Option ClusterDocument
  | .json c => if clusterDocumentSchema c then some c else none
  | .other _ => none

theorem parseClusterDocument_json {raw : Raw ClusterDocument} {c : ClusterDocument} (h : parseClusterDocument raw = some c) :
    raw = .json c := by
  cases raw with
  | json c' =>
    simp only [parseClusterDocument] at h
    split at h
    · rw [Option.some.inj h]
    · cases h
  | other body => cases h

inductive Field where
  | defaultEdge
  | snsTopicArn
  /-- The policy, without its cooldown anchor. -/
  | policy
  | lastScaleAt
  deriving DecidableEq, Repr

inductive FieldValue where
  | text (o : Option String)
  | policy (o : Option AutoscalePolicy)
  | time (o : Option Timestamp)
  deriving DecidableEq, Repr

def Field.get (c : ClusterDocument) : Field → FieldValue
  | .defaultEdge => .text c.defaultEdge
  | .snsTopicArn => .text c.snsTopicArn
  | .policy => .policy (c.autoscale.map fun p => { p with lastScaleAt := none })
  | .lastScaleAt => .time (c.autoscale.bind (·.lastScaleAt))

/-! ## The operations -/

inductive Op where
  | s3 (o : S3Op String (Raw ClusterDocument))
  | createOrGetTopic

/-- SNS answers with the topic's ARN, or fails with a message. -/
abbrev Resp : Op → Type
  | .s3 o => S3Resp o
  | .createOrGetTopic => Except String String

inductive ConfigError where
  | s3 (e : S3Error)
  | invalidCluster
  | sns (message : String)
  /-- The default cluster has no `cluster.json`. -/
  | namedClusterNeeded
  | noCluster (clusterId : String)
  | vanished (clusterId : String)
  | policyRemoved
  /-- "cluster.json changed while writing". -/
  | changedWhileWriting
  /-- "another autoscale pass (or cluster edit) is in flight". -/
  | claimLost
  deriving DecidableEq, Repr

abbrev ConfigM := ExceptT ConfigError (Prog Resp)

def ask (o : Op) : ConfigM (Resp o) := ExceptT.mk (.act o fun r => .ret (.ok r))

theorem ask_bind {α : Type} (o : Op) (k : Resp o → ConfigM α) : (ask o >>= k).run = .act o fun r => (k r).run := rfl

abbrev look (clusterId : String) : Op := .s3 (.getJson (clusterConfigKey clusterId))

def getClusterConfig (clusterId : String) : ConfigM (Option ClusterDocument) := do
  match ← ask (look clusterId) with
  | .error e => throw (.s3 e)
  | .ok none => pure none
  | .ok (some obj) =>
    match parseClusterDocument obj.raw with
    | none => throw .invalidCluster
    | some cfg => pure (some cfg)

/-- Under the record's own name, on no condition. -/
def putClusterConfig (config : ClusterDocument) : ConfigM Unit := do
  match ← ask (.s3 (.putJson (clusterConfigKey config.clusterId) (.json config) {})) with
  | .error e => throw (.s3 e)
  | .ok _ => pure ()

/-- `createOrGetTopic`, and the topic kept in the record. -/
def createTopic (clusterCfg : Option ClusterDocument) : ConfigM Unit := do
  match ← ask .createOrGetTopic with
  | .error message => throw (.sns message)
  | .ok snsTopicArn =>
    match clusterCfg with
    | none => pure ()
    | some cfg => putClusterConfig { cfg with snsTopicArn := some snsTopicArn }

/-- A deploy's read; the default cluster has no `cluster.json`. -/
def deployClusterCfg (clusterId : String) : ConfigM (Option ClusterDocument) :=
  if clusterId = defaultCluster then pure none else getClusterConfig clusterId

/-- A deploy's topic; without one it goes on. -/
def persistTopic (clusterId : String) (dryRun : Bool) : ConfigM Unit := do
  let clusterCfg ← deployClusterCfg clusterId
  if dryRun = false ∧ clusterCfg.bind (·.snsTopicArn) = none then tryCatch (createTopic clusterCfg) fun _ => pure ()
  else pure ()

def adoptEdgeIfUnset (clusterId edgeNodeId : String) : ConfigM Unit := do
  match ← getClusterConfig clusterId with
  | none => pure ()
  | some cfg => if cfg.defaultEdge = none then putClusterConfig { cfg with defaultEdge := some edgeNodeId } else pure ()

/-- A node that is torn down is no cluster's default edge. -/
def clearDefaultEdge (clusterId name : String) : ConfigM Unit :=
  if clusterId = defaultCluster then pure ()
  else do
    match ← getClusterConfig clusterId with
    | none => pure ()
    | some cc => if cc.defaultEdge = some name then putClusterConfig { cc with defaultEdge := none } else pure ()

def requireCluster (clusterId : String) : ConfigM (ClusterDocument × String) :=
  if clusterId = defaultCluster then throw .namedClusterNeeded
  else do
    match ← ask (look clusterId) with
    | .error e => throw (.s3 e)
    | .ok none => throw (.noCluster clusterId)
    | .ok (some obj) =>
      match parseClusterDocument obj.raw with
      | none => throw .invalidCluster
      | some cfg => pure (cfg, obj.etag)

def putClusterConfigCas (clusterId : String) (cfg : ClusterDocument) (etag : String) : ConfigM Unit := do
  match ← ask (.s3 (.putJson (clusterConfigKey clusterId) (.json cfg) { ifMatch := some etag })) with
  | .ok _ => pure ()
  | .error .preconditionFailed => throw .changedWhileWriting
  | .error e => throw (.s3 e)

/-- `autoscale set`: setting the policy again resets the cooldown anchor. -/
def runSet (clusterId : String) (policy : AutoscalePolicy) : ConfigM Unit := do
  let (cfg, etag) ← requireCluster clusterId
  putClusterConfigCas clusterId { cfg with autoscale := some { policy with lastScaleAt := none } } etag

/-- `autoscale off`. -/
def runOff (clusterId : String) : ConfigM Unit := do
  let (cfg, etag) ← requireCluster clusterId
  putClusterConfigCas clusterId { cfg with autoscale := none } etag

def claimScaleAction (clusterId : String) (nowMs : Int) : ConfigM Unit := do
  match ← ask (look clusterId) with
  | .error e => throw (.s3 e)
  | .ok none => throw (.vanished clusterId)
  | .ok (some obj) =>
    match parseClusterDocument obj.raw with
    | none => throw .invalidCluster
    | some cfg =>
      match cfg.autoscale with
      | none => throw .policyRemoved
      | some policy =>
        match ← ask (.s3 (.putJson (clusterConfigKey clusterId) (.json { cfg with autoscale := some (policy.stamp nowMs) })
          { ifMatch := some obj.etag })) with
        | .ok _ => pure ()
        | .error .preconditionFailed => throw .claimLost
        | .error e => throw (.s3 e)

inductive Operation where
  | persistTopic (dryRun : Bool)
  | adoptEdge (edgeNodeId : String)
  | clearDefaultEdge (name : String)
  | setAutoscale (policy : AutoscalePolicy)
  | autoscaleOff
  | claim (nowMs : Int)

namespace Operation

/-- The fields an operation means to change. -/
def intends : Operation → List Field
  | .persistTopic _ => [.snsTopicArn]
  | .adoptEdge _ | .clearDefaultEdge _ => [.defaultEdge]
  | .setAutoscale _ | .autoscaleOff => [.policy, .lastScaleAt]
  | .claim _ => [.lastScaleAt]

def command (clusterId : String) : Operation → Prog Resp (Except ConfigError Unit)
  | .persistTopic dryRun => (ClusterJson.persistTopic clusterId dryRun).run
  | .adoptEdge edgeNodeId => (adoptEdgeIfUnset clusterId edgeNodeId).run
  | .clearDefaultEdge name => (ClusterJson.clearDefaultEdge clusterId name).run
  | .setAutoscale policy => (runSet clusterId policy).run
  | .autoscaleOff => (runOff clusterId).run
  | .claim nowMs => (claimScaleAction clusterId nowMs).run

end Operation

/-! ## Side by side -/

section Run

variable {ι : Type} (E : Etags)

/-- The state bucket; SNS is no part of it. -/
def sem (i : ι) : (o : Op) → Bucketed ι String (Raw ClusterDocument) → Resp o → Bucketed ι String (Raw ClusterDocument) → Prop
  | .s3 o, w, r, w' => s3Sem E i o w r w'
  | .createOrGetTopic, w, _, w' => w' = w

abbrev Clients (ι : Type) :=
  Crew ι Resp (Except ConfigError Unit) (Recorded ι Resp (Bucketed ι String (Raw ClusterDocument)))

/-- What a command put under a key. -/
def wrote (key : String) : Entry ι Resp → Option (Raw ClusterDocument)
  | ⟨_, .s3 (.putJson k value _), .ok _⟩ => if k = key then some value else none
  | _ => none

/-- What is under a key after these commands. -/
def after (key : String) (first : Option (Body (Raw ClusterDocument))) (h : History ι Resp) :
    Option (Body (Raw ClusterDocument)) :=
  h.foldl (fun held e => ((wrote key e).map .parsed).or held) first

/-- A field of what is under a key. -/
def Field.of (f : Field) : Option (Body (Raw ClusterDocument)) → Option FieldValue
  | some (.parsed (.json c)) => some (f.get c)
  | _ => none

/-- A field keeps its value until an operation that means to change it writes. -/
def FieldsKept (ops : ι → Operation) (key : String) (first : Option (Body (Raw ClusterDocument))) (h : History ι Resp) : Prop :=
  ∀ (f : Field) (m n : Nat), m ≤ n → n ≤ h.length →
    (∀ k e, m ≤ k → k < n → h[k]? = some e → (wrote key e).isSome → f ∉ (ops e.who).intends) →
    f.of (after key first (h.take n)) = f.of (after key first (h.take m))

/-- An unconditional write finds the fields it does not mean to change as they were when
    its operation read the record. -/
def WritesFresh (ops : ι → Operation) (key : String) (first : Option (Body (Raw ClusterDocument))) (h : History ι Resp) : Prop :=
  ∀ i r n obj value etag, r < n → h[r]? = some ⟨i, .s3 (.getJson key), .ok (some obj)⟩ →
    h[n]? = some ⟨i, .s3 (.putJson key value {}), .ok etag⟩ →
    ∀ f, f ∉ (ops i).intends → f.of (after key first (h.take n)) = f.of (after key first (h.take r))

/-- Any number of operations on one cluster. -/
structure Starts (clusterId : String) (ops : ι → Operation) (s : Clients ι) : Prop where
  fresh : s.world.history = []
  command : ∀ i, s.progs i = (ops i).command clusterId

end Run

/-! ## What an operation writes -/

abbrev Own := List (Event Resp)

/-- The operation has read that record. -/
def Looked (clusterId : String) (cfg : ClusterDocument) (own : Own) : Prop :=
  ∃ obj quiet, own = ⟨look clusterId, .ok (some obj)⟩ :: quiet ∧ parseClusterDocument obj.raw = some cfg

/-- An operation reads first; a write carries what was read, but for the fields the
    operation means to change. -/
def Edits (clusterId : String) (op : Operation) : Op → Own → Prop
  | .s3 (.putJson _ value options), own => ∃ obj quiet cfg cfg', own = ⟨look clusterId, .ok (some obj)⟩ :: quiet ∧
      parseClusterDocument obj.raw = some cfg ∧ value = .json cfg' ∧ (∀ f, f ∉ op.intends → f.get cfg' = f.get cfg) ∧
      (options = {} ∨ options = { ifMatch := some obj.etag })
  | .s3 (.getJson _), own => own = []
  | .s3 (.deleteObject _ _), _ => False
  | _, _ => True

section Sat

abbrev watched : Machine Resp Own := tracker note

/-- Done, whatever the value. -/
abbrev anyway {α : Type} : Except ConfigError α → Own → Prop := onResult (fun _ _ => True) fun _ _ => True

variable {clusterId : String} {op : Operation} {own : Own} {cfg : ClusterDocument}

theorem edits_throw {α : Type} {Q : α → Own → Prop} (e : ConfigError) :
    Sat watched (Edits clusterId op) (onResult Q fun _ _ => True) (throw e : ConfigM α).run own := Sat.watchRet trivial

theorem edits_pure {α : Type} {Q : α → Own → Prop} {a : α} (h : Q a own) :
    Sat watched (Edits clusterId op) (onResult Q fun _ _ => True) (pure a : ConfigM α).run own := Sat.watchRet h

theorem getClusterConfig_sat : Sat watched (Edits clusterId op)
    (onResult (fun found own' => ∀ cfg, found = some cfg → Looked clusterId cfg own') fun _ _ => True)
    (getClusterConfig clusterId).run [] := by
  unfold getClusterConfig
  rw [ask_bind]
  refine Sat.watch rfl fun r => ?_
  match r with
  | .error e => exact edits_throw _
  | .ok none => exact edits_pure fun cfg hcfg => by cases hcfg
  | .ok (some obj) =>
    dsimp only
    split
    · exact edits_throw _
    · rename_i cfg hparse
      refine edits_pure fun cfg' hcfg => ?_
      cases hcfg
      exact ⟨obj, [], rfl, hparse⟩

theorem putClusterConfig_sat {cfg' : ClusterDocument} (h : Looked clusterId cfg own)
    (hkeep : ∀ f, f ∉ op.intends → f.get cfg' = f.get cfg) :
    Sat watched (Edits clusterId op) anyway (putClusterConfig cfg').run own := by
  obtain ⟨obj, quiet, rfl, hparse⟩ := h
  unfold putClusterConfig
  rw [ask_bind]
  refine Sat.watch ⟨obj, quiet, cfg, cfg', rfl, hparse, rfl, hkeep, .inl rfl⟩ fun r => ?_
  match r with
  | .error e => exact edits_throw _
  | .ok etag => exact edits_pure trivial

theorem persistTopic_sat (dryRun : Bool) :
    Sat watched (Edits clusterId (.persistTopic dryRun)) anyway (persistTopic clusterId dryRun).run [] := by
  unfold persistTopic
  refine Sat.bindE (R := fun found own' => ∀ cfg, found = some cfg → Looked clusterId cfg own') (E := fun _ _ => True) ?_
    (fun _ => tracker_stable _) fun found own hfound => ?_
  · unfold deployClusterCfg
    split
    · exact edits_pure fun cfg hcfg => by cases hcfg
    · exact getClusterConfig_sat
  · split
    · refine Sat.tryCatch (E := fun _ _ => True) ?_ (fun _ => tracker_stable _) fun e own' _ => edits_pure trivial
      unfold createTopic
      rw [ask_bind]
      refine Sat.watch trivial fun r => ?_
      match r with
      | .error message => exact edits_throw _
      | .ok arn =>
        cases found with
        | none => exact edits_pure trivial
        | some cfg =>
          obtain ⟨obj, quiet, rfl, hparse⟩ := hfound cfg rfl
          refine putClusterConfig_sat ⟨obj, quiet ++ [⟨.createOrGetTopic, .ok arn⟩], rfl, hparse⟩ fun f hf => ?_
          cases f with
          | snsTopicArn => exact absurd (List.mem_singleton_self _) hf
          | _ => rfl
    · exact edits_pure trivial

theorem adoptEdge_sat (edgeNodeId : String) :
    Sat watched (Edits clusterId (.adoptEdge edgeNodeId)) anyway (adoptEdgeIfUnset clusterId edgeNodeId).run [] := by
  unfold adoptEdgeIfUnset
  refine Sat.bindE getClusterConfig_sat (fun _ => tracker_stable _) fun found own hfound => ?_
  cases found with
  | none => exact edits_pure trivial
  | some cfg =>
    dsimp only
    split
    · refine putClusterConfig_sat (hfound cfg rfl) fun f hf => ?_
      cases f with
      | defaultEdge => exact absurd (List.mem_singleton_self _) hf
      | _ => rfl
    · exact edits_pure trivial

theorem clearDefaultEdge_sat (name : String) :
    Sat watched (Edits clusterId (.clearDefaultEdge name)) anyway (clearDefaultEdge clusterId name).run [] := by
  unfold clearDefaultEdge
  split
  · exact edits_pure trivial
  · refine Sat.bindE getClusterConfig_sat (fun _ => tracker_stable _) fun found own hfound => ?_
    cases found with
    | none => exact edits_pure trivial
    | some cfg =>
      dsimp only
      split
      · refine putClusterConfig_sat (hfound cfg rfl) fun f hf => ?_
        cases f with
        | defaultEdge => exact absurd (List.mem_singleton_self _) hf
        | _ => rfl
      · exact edits_pure trivial

theorem requireCluster_sat : Sat watched (Edits clusterId op) (onResult (fun found own' => ∃ obj quiet,
      own' = ⟨look clusterId, .ok (some obj)⟩ :: quiet ∧ parseClusterDocument obj.raw = some found.1 ∧ found.2 = obj.etag)
      fun _ _ => True) (requireCluster clusterId).run [] := by
  unfold requireCluster
  split
  · exact edits_throw _
  · rw [ask_bind]
    refine Sat.watch rfl fun r => ?_
    match r with
    | .error e => exact edits_throw _
    | .ok none => exact edits_throw _
    | .ok (some obj) =>
      dsimp only
      split
      · exact edits_throw _
      · rename_i cfg hparse
        exact edits_pure ⟨obj, [], rfl, hparse, rfl⟩

theorem putClusterConfigCas_sat {cfg' : ClusterDocument} {obj : S3Json (Raw ClusterDocument)} {quiet : Own}
    (hown : own = ⟨look clusterId, .ok (some obj)⟩ :: quiet) (hparse : parseClusterDocument obj.raw = some cfg)
    (hkeep : ∀ f, f ∉ op.intends → f.get cfg' = f.get cfg) :
    Sat watched (Edits clusterId op) anyway (putClusterConfigCas clusterId cfg' obj.etag).run own := by
  unfold putClusterConfigCas
  rw [ask_bind]
  refine Sat.watch ⟨obj, quiet, cfg, cfg', hown, hparse, rfl, hkeep, .inr rfl⟩ fun r => ?_
  cases r with
  | ok etag => exact edits_pure trivial
  | error e => cases e <;> exact edits_throw _

theorem runSet_sat (policy : AutoscalePolicy) :
    Sat watched (Edits clusterId (.setAutoscale policy)) anyway (runSet clusterId policy).run [] := by
  unfold runSet
  refine Sat.bindE requireCluster_sat (fun _ => tracker_stable _) ?_
  rintro ⟨cfg, etag⟩ own ⟨obj, quiet, hown, hparse, rfl⟩
  refine putClusterConfigCas_sat hown hparse fun f hf => ?_
  cases f with
  | policy => exact absurd (List.mem_cons_self ..) hf
  | lastScaleAt => exact absurd (List.mem_cons_of_mem _ (List.mem_singleton_self _)) hf
  | _ => rfl

theorem runOff_sat : Sat watched (Edits clusterId .autoscaleOff) anyway (runOff clusterId).run [] := by
  unfold runOff
  refine Sat.bindE requireCluster_sat (fun _ => tracker_stable _) ?_
  rintro ⟨cfg, etag⟩ own ⟨obj, quiet, hown, hparse, rfl⟩
  refine putClusterConfigCas_sat hown hparse fun f hf => ?_
  cases f with
  | policy => exact absurd (List.mem_cons_self ..) hf
  | lastScaleAt => exact absurd (List.mem_cons_of_mem _ (List.mem_singleton_self _)) hf
  | _ => rfl

theorem claimScaleAction_sat (nowMs : Int) :
    Sat watched (Edits clusterId (.claim nowMs)) anyway (claimScaleAction clusterId nowMs).run [] := by
  unfold claimScaleAction
  rw [ask_bind]
  refine Sat.watch rfl fun r => ?_
  match r with
  | .error e => exact edits_throw _
  | .ok none => exact edits_throw _
  | .ok (some obj) =>
    dsimp only
    split
    · exact edits_throw _
    · rename_i cfg hparse
      split
      · exact edits_throw _
      · rename_i policy hpolicy
        rw [ask_bind]
        refine Sat.watch ⟨obj, [], cfg, _, rfl, hparse, rfl, fun f hf => ?_, .inr rfl⟩ fun r => ?_
        · cases f with
          | policy =>
            -- the anchor is no part of the policy
            simp only [Field.get, hpolicy, Option.map_some, AutoscalePolicy.stamp]
          | lastScaleAt => exact absurd (List.mem_singleton_self _) hf
          | _ => rfl
        · cases r with
          | ok etag => exact edits_pure trivial
          | error e => cases e <;> exact edits_throw _

theorem edits (clusterId : String) (op : Operation) :
    Sat watched (Edits clusterId op) (fun _ _ => True) (op.command clusterId) [] := by
  have hany : Sat watched (Edits clusterId op) anyway (op.command clusterId) [] := by
    cases op with
    | persistTopic dryRun => exact persistTopic_sat dryRun
    | adoptEdge edgeNodeId => exact adoptEdge_sat edgeNodeId
    | clearDefaultEdge name => exact clearDefaultEdge_sat name
    | setAutoscale policy => exact runSet_sat policy
    | autoscaleOff => exact runOff_sat
    | claim nowMs => exact claimScaleAction_sat nowMs
  exact hany.mono (fun _ _ h => h) fun _ _ _ => trivial

end Sat

/-! ## Over a run -/

section Fields

variable {ι : Type} [DecidableEq ι] {E : Etags} {ops : ι → Operation} {clusterId key : String} {s t : Clients ι}
  {first : Option (Body (Raw ClusterDocument))} {h : History ι Resp}

theorem checked (hs : Starts clusterId ops s) (hr : CrewRun (recorded (sem E)) s t) {n : Nat} {e : Entry ι Resp}
    (he : t.world.history[n]? = some e) : Edits clusterId (ops e.who) e.op (mine e.who (t.world.history.take n)) := by
  have hsat : ∀ i, Sat watched (Edits clusterId (ops i)) (fun _ _ => True) (s.progs i) [] := by
    intro i
    rw [hs.command i]
    exact edits clusterId (ops i)
  exact run_checked (G := fun i => Edits clusterId (ops i)) hsat hs.fresh hr he

omit [DecidableEq ι] in
theorem after_snoc (e : Entry ι Resp) :
    after key first (h ++ [e]) = ((wrote key e).map .parsed).or (after key first h) := by
  unfold after
  rw [List.foldl_append]
  rfl

omit [DecidableEq ι] in
/-- What a command leaves under a key. -/
theorem step_held {e : Entry ι Resp} {own : Own} (hedits : Edits clusterId (ops e.who) e.op own)
    {w w' : Bucketed ι String (Raw ClusterDocument)} (hsem : sem E e.who e.op w e.resp w') :
    (Journal.current key w').map (·.2) = ((wrote key e).map .parsed).or ((Journal.current key w).map (·.2)) := by
  obtain ⟨i, op, resp⟩ := e
  cases op with
  | createOrGetTopic =>
    rw [show w' = w from hsem]
    rfl
  | s3 o =>
    cases o with
    | getJson k =>
      rw [show w' = w from hsem.2]
      rfl
    | putJson k value options =>
      rcases s3Sem_put hsem with ⟨_, hresp, rfl⟩ | ⟨e, hresp, rfl⟩
      · simp only at hresp
        subst hresp
        rw [Journal.current]
        simp only [wrote]
        split <;> rfl
      · simp only at hresp
        subst hresp
        rfl
    | deleteObject k ifMatch => exact hedits.elim
    | nowIso =>
      rw [show w' = w from hsem]
      rfl

theorem held_after (hs : Starts clusterId ops s) (hr : CrewRun (recorded (sem E)) s t) :
    (Journal.current key t.world.store).map (·.2) =
      after key ((Journal.current key s.world.store).map (·.2)) t.world.history := by
  induction hr with
  | refl =>
    rw [hs.fresh]
    rfl
  | tail hr hstep ih =>
    obtain ⟨e, hhistory, hsem, -, -⟩ := step_history hstep
    have hlast : ∀ {h : History ι Resp}, (h ++ [e])[h.length]? = some e := by simp
    have hedits := checked hs (.tail hr hstep) (by rw [hhistory]; exact hlast)
    rw [step_held hedits hsem, ih, hhistory, after_snoc]

theorem store_grows (hr : CrewRun (recorded (sem E)) s t) : ∃ newer, t.world.store = newer ++ s.world.store := by
  induction hr with
  | refl => exact ⟨[], rfl⟩
  | tail _ hstep ih =>
    obtain ⟨newer, hnewer⟩ := ih
    obtain ⟨e, -, hsem, -, -⟩ := step_history hstep
    obtain ⟨i, op, resp⟩ := e
    cases op with
    | createOrGetTopic => exact ⟨newer, by rw [show _ = _ from hsem, hnewer]⟩
    | s3 o =>
      rcases s3Sem_grows hsem with he | ⟨w, -, he⟩
      · exact ⟨newer, by rw [he, hnewer]⟩
      · exact ⟨w :: newer, by rw [he, hnewer, List.cons_append]⟩

/-- A record that was read is what the object held then. -/
theorem read_held (hs : Starts clusterId ops s) (hr : CrewRun (recorded (sem E)) s t) {i : ι} {r : Nat}
    {obj : S3Json (Raw ClusterDocument)} (he : t.world.history[r]? = some ⟨i, .s3 (.getJson key), .ok (some obj)⟩) :
    after key ((Journal.current key s.world.store).map (·.2)) (t.world.history.take r) = some (.parsed obj.raw) := by
  obtain ⟨u, v, hu, htake, -, hsem, -, -, -⟩ := run_at hr (by rw [hs.fresh]; exact Nat.zero_le r) he
  rw [← htake, ← held_after hs hu]
  exact getJson_current hsem.1.symm

/-- A write on the condition that the record is the one that was read replaces that one. -/
theorem conditional_finds (hs : Starts clusterId ops s) (hr : CrewRun (recorded (sem E)) s t) {i j : ι} {r n : Nat}
    {obj : S3Json (Raw ClusterDocument)} {value : Raw ClusterDocument} {etag : String} (hrn : r < n)
    (hread : t.world.history[r]? = some ⟨i, .s3 (.getJson key), .ok (some obj)⟩)
    (hwrite : t.world.history[n]? = some ⟨j, .s3 (.putJson key value { ifMatch := some obj.etag }), .ok etag⟩) :
    after key ((Journal.current key s.world.store).map (·.2)) (t.world.history.take n) = some (.parsed obj.raw) := by
  obtain ⟨u, _, hu, htake, -, hput, -, -, -⟩ := run_at hr (by rw [hs.fresh]; exact Nat.zero_le n) hwrite
  have hread' : u.world.history[r]? = some ⟨i, .s3 (.getJson key), .ok (some obj)⟩ := by
    rw [htake, List.getElem?_take_of_lt hrn, hread]
  obtain ⟨x, y, -, -, -, hget, -, -, hxu⟩ := run_at hu (by rw [hs.fresh]; exact Nat.zero_le r) hread'
  obtain ⟨v, hv, hcurrent⟩ := getJson_version hget.1.symm
  obtain ⟨newer, hnewer⟩ := store_grows hxu
  rw [show y.world.store = x.world.store from hget.2] at hnewer
  obtain ⟨writer, hat⟩ := Journal.at?_current hcurrent
  have hnow : ∃ body, Journal.current key u.world.store = some (v, body) := by
    rcases s3Sem_put hput with ⟨hadmits, -, -⟩ | ⟨e, herr, -⟩
    · rw [hv] at hadmits
      exact admits_version hadmits
    · cases herr
  obtain ⟨body, hbody⟩ := hnow
  have hsame : body = .parsed obj.raw := by
    rw [hnewer] at hbody
    exact Journal.version_body (Journal.at?_append hat newer) hbody
  rw [← htake, ← held_after hs hu, hbody, hsame]
  rfl

omit [DecidableEq ι] in
theorem wrote_some {e : Entry ι Resp} {value : Raw ClusterDocument} (hw : wrote key e = some value) :
    ∃ i options etag, e = ⟨i, .s3 (.putJson key value options), .ok etag⟩ := by
  unfold wrote at hw
  split at hw
  · rename_i i k value' options etag
    split at hw
    · rename_i hkey
      cases hw
      exact ⟨i, options, etag, by rw [hkey]⟩
    · cases hw
  · cases hw

/-- The one read of an operation that writes, and what it changes of it. -/
theorem write_course (hs : Starts clusterId ops s) (hr : CrewRun (recorded (sem E)) s t) {i : ι} {n : Nat} {key : String}
    {value : Raw ClusterDocument} {options : PutJsonOptions} {etag : String}
    (he : t.world.history[n]? = some ⟨i, .s3 (.putJson key value options), .ok etag⟩) :
    ∃ r obj, r < n ∧ t.world.history[r]? = some ⟨i, look clusterId, .ok (some obj)⟩ ∧
      (∀ f, f ∉ (ops i).intends → Field.of f (some (.parsed value)) = f.of (some (.parsed obj.raw))) ∧
      (options = {} ∨ options = { ifMatch := some obj.etag }) := by
  obtain ⟨obj, quiet, cfg, cfg', hown, hparse, hvalue, hkeep, hoptions⟩ := checked hs hr he
  have hown : mine i (t.world.history.take n) = [] ++ ⟨look clusterId, .ok (some obj)⟩ :: quiet := hown
  obtain ⟨r, hrn, hread, -⟩ := mine_split_take hown
  refine ⟨r, obj, hrn, hread, fun f hf => ?_, hoptions⟩
  rw [hvalue, parseClusterDocument_json hparse]
  exact congrArg some (hkeep f hf)

/-- An operation reads the record once. -/
theorem read_once (hs : Starts clusterId ops s) (hr : CrewRun (recorded (sem E)) s t) {i : ι} {r r' : Nat}
    {found found' : Except S3Error (Option (S3Json (Raw ClusterDocument)))} {key key' : String}
    (he : t.world.history[r]? = some ⟨i, .s3 (.getJson key), found⟩)
    (he' : t.world.history[r']? = some ⟨i, .s3 (.getJson key'), found'⟩) : r = r' := by
  have hfirst : ∀ {x y : Nat} {kx ky : String} {fx fy : Except S3Error (Option (S3Json (Raw ClusterDocument)))},
      t.world.history[x]? = some ⟨i, .s3 (.getJson kx), fx⟩ → t.world.history[y]? = some ⟨i, .s3 (.getJson ky), fy⟩ →
      ¬ x < y := by
    intro x y kx ky fx fy hx hy hlt
    have hnone : mine i (t.world.history.take y) = [] := checked hs hr hy
    obtain ⟨l, hl⟩ := mine_grows i t.world.history (Nat.succ_le_of_lt hlt)
    have hsucc := mine_succ hx
    simp only at hsucc
    rw [hnone, hsucc] at hl
    simp at hl
  have hle := hfirst he' he
  have hge := hfirst he he'
  omega

/-- A write keeps the fields its operation does not mean to change, if the record it
    replaces has them as they were read. -/
theorem write_keeps (hs : Starts clusterId ops s) (hr : CrewRun (recorded (sem E)) s t)
    (hfresh : WritesFresh ops (clusterConfigKey clusterId)
      ((Journal.current (clusterConfigKey clusterId) s.world.store).map (·.2)) t.world.history)
    {n : Nat} {e : Entry ι Resp} (he : t.world.history[n]? = some e) {value : Raw ClusterDocument}
    (hw : wrote (clusterConfigKey clusterId) e = some value) {f : Field} (hf : f ∉ (ops e.who).intends) :
    f.of (some (.parsed value)) = f.of (after (clusterConfigKey clusterId)
      ((Journal.current (clusterConfigKey clusterId) s.world.store).map (·.2)) (t.world.history.take n)) := by
  obtain ⟨i, options, etag, rfl⟩ := wrote_some hw
  obtain ⟨r, obj, hrn, hread, hsame, hoptions⟩ := write_course hs hr he
  rw [hsame f hf, ← read_held hs hr hread]
  rcases hoptions with rfl | rfl
  · exact (hfresh i r n obj value etag hrn hread he f hf).symm
  · rw [conditional_finds hs hr hrn hread he, read_held hs hr hread]

/-- Over every run: every field keeps its value until an operation that means to change it
    writes, exactly when each unconditional write finds the fields it does not mean to change
    as its operation had read them. -/
theorem cluster_fields_kept_iff (hs : Starts clusterId ops s) (hr : CrewRun (recorded (sem E)) s t) :
    FieldsKept ops (clusterConfigKey clusterId) ((Journal.current (clusterConfigKey clusterId) s.world.store).map (·.2))
        t.world.history ↔
      WritesFresh ops (clusterConfigKey clusterId) ((Journal.current (clusterConfigKey clusterId) s.world.store).map (·.2))
        t.world.history := by
  constructor
  · intro hkept i r n obj value etag hrn hread hwrite f hf
    have hlast : (t.world.history).take (n + 1) = t.world.history.take n ++ [⟨i, .s3 (.putJson _ value {}), .ok etag⟩] :=
      take_succ_get hwrite
    have hlen := (List.getElem?_eq_some_iff.mp hwrite).1
    have hstep := hkept f n (n + 1) (Nat.le_succ n) hlen fun k e hk hk' he _ => by
      obtain rfl : k = n := by omega
      rw [hwrite] at he
      cases he
      exact hf
    obtain ⟨r', obj', hrn', hread', hsame, -⟩ := write_course hs hr hwrite
    obtain rfl := read_once hs hr hread hread'
    rw [hlast, after_snoc] at hstep
    simp only [wrote, if_pos, Option.map_some, Option.some_or] at hstep
    rw [← hstep, hsame f hf, read_held hs hr hread']
  · intro hfresh f m n hmn hn hnone
    induction n, hmn using Nat.le_induction with
    | base => rfl
    | succ n hmn ih =>
      have hkept := ih (by omega) fun k e hk hk' => hnone k e hk (by omega)
      cases hw : wrote (clusterConfigKey clusterId) t.world.history[n] with
      | none =>
        rw [List.take_succ_eq_append_getElem (by omega), after_snoc, hw]
        exact hkept
      | some value =>
        have he : t.world.history[n]? = some t.world.history[n] := List.getElem?_eq_getElem (by omega)
        have hf := hnone n _ hmn (by omega) he (by rw [hw]; rfl)
        rw [List.take_succ_eq_append_getElem (by omega), after_snoc, hw, ← hkept]
        exact write_keeps hs hr hfresh he hw hf

end Fields

/-! ### An edge adopted across a claim -/

def threeToFive : AutoscalePolicy where
  minNodes := 3
  maxNodes := 5
  min_pos := by decide
  max_le := by decide
  out_range := default_out_range
  in_range := default_in_range
  ordered := by decide
  apart := default_apart

def prodDocument : ClusterDocument where
  clusterId := "prod"
  region := "us-east-1"
  createdAt := "2024-05-01T10:00:00.000Z"
  createdBy := "arn:aws:iam::123456789012:user/ops"
  autoscale := some threeToFive

/-- A node is created as the cluster's edge; an autoscale pass claims its action. -/
def edgeAndClaim (isClaim : Bool) : Operation := if isClaim then .claim 60000 else .adoptEdge "edge-1"

def beforeBoth : Clients Bool where
  progs i := (edgeAndClaim i).command "prod"
  world := { store := [⟨none, clusterConfigKey "prod", some (.parsed (.json prodDocument))⟩] }

def topicServer : Bool → (o : Op) → Bucketed Bool String (Raw ClusterDocument) → Resp o × Bucketed Bool String (Raw ClusterDocument)
  | i, .s3 o, w => s3Serve strokes "t" i o w
  | _, .createOrGetTopic, w => (.ok "arn:aws:sns:us-east-1:123456789012:launch-pad-prod", w)

theorem topicServer_sem (i : Bool) (o : Op) (w : Bucketed Bool String (Raw ClusterDocument)) :
    sem strokes i o w (topicServer i o w).1 (topicServer i o w).2 := by
  cases o with
  | s3 o => exact s3Serve_sem strokes "t" i o w
  | createOrGetTopic => rfl

def playBoth (schedule : List Bool) : Clients Bool := Crew.play (recordedServe topicServer) schedule beforeBoth

/-- The claim lands, then the edge's operation reads and writes. -/
def oneThenOther : Clients Bool := playBoth [true, true, false, false]

/-- The edge's operation reads, the claim reads and lands, the edge's operation writes. -/
def afterBoth : Clients Bool := playBoth [false, true, true, false]

theorem beforeBoth_starts : Starts "prod" edgeAndClaim beforeBoth := ⟨rfl, fun _ => rfl⟩

theorem playBoth_run (schedule : List Bool) : CrewRun (recorded (sem strokes)) beforeBoth (playBoth schedule) :=
  play_run (recordedServe_sem topicServer_sem) schedule beforeBoth

/-- A bare write by that operation. -/
def bareWrite (i : Bool) : Entry Bool Resp → Bool
  | ⟨j, .s3 (.putJson _ _ ⟨none, none⟩), _⟩ => decide (j = i)
  | _ => false

def readBy (i : Bool) : Entry Bool Resp → Bool
  | ⟨j, .s3 (.getJson _), _⟩ => decide (j = i)
  | _ => false

theorem oneThenOther_fresh :
    WritesFresh edgeAndClaim (clusterConfigKey "prod") (some (.parsed (.json prodDocument))) oneThenOther.world.history := by
  intro i r n obj value etag hrn hread hwrite f _
  have hlen : oneThenOther.world.history.length = 4 := by decide +kernel
  have hn4 : n < 4 := hlen ▸ (List.getElem?_eq_some_iff.mp hwrite).1
  have hbare : ∀ i, ∀ n < 4, (oneThenOther.world.history[n]?.any (bareWrite i)) = true → i = false ∧ n = 3 := by decide +kernel
  have hlook : ∀ r < 4, (oneThenOther.world.history[r]?.any (readBy false)) = true → r = 2 := by decide +kernel
  obtain ⟨rfl, rfl⟩ := hbare i n hn4 (by rw [hwrite]; simp [bareWrite])
  obtain rfl := hlook r (by omega) (by rw [hread]; simp [readBy])
  have hsame : after (clusterConfigKey "prod") (some (.parsed (.json prodDocument))) (oneThenOther.world.history.take 3) =
      after (clusterConfigKey "prod") (some (.parsed (.json prodDocument))) (oneThenOther.world.history.take 2) := by
    decide +kernel
  rw [hsame]

theorem cluster_fields_kept_apart :
    FieldsKept edgeAndClaim (clusterConfigKey "prod") (some (.parsed (.json prodDocument))) oneThenOther.world.history :=
  (cluster_fields_kept_iff beforeBoth_starts (playBoth_run [true, true, false, false])).mpr oneThenOther_fresh

/-- The claim has landed with its `lastScaleAt`; the edge's write drops it. -/
theorem stale_edge_write_drops_claim :
    ∃ (ops : Bool → Operation) (s t : Clients Bool), Starts "prod" ops s ∧ CrewRun (recorded (sem strokes)) s t ∧
      ∃ (n : Nat) (e : Entry Bool Resp) (value : Raw ClusterDocument), t.world.history[n]? = some e ∧ wrote (clusterConfigKey "prod") e = some value ∧
        Field.lastScaleAt ∈ (ops e.who).intends ∧
        (∀ (k : Nat) (e' : Entry Bool Resp), n < k → t.world.history[k]? = some e' → Field.lastScaleAt ∉ (ops e'.who).intends) ∧
        Field.lastScaleAt.of ((Journal.current (clusterConfigKey "prod") t.world.store).map (·.2)) ≠
          Field.lastScaleAt.of (some (.parsed value)) := by
  refine ⟨edgeAndClaim, beforeBoth, afterBoth, beforeBoth_starts, playBoth_run _, 2, afterBoth.world.history[2],
    .json { prodDocument with autoscale := some (threeToFive.stamp 60000) }, rfl, by decide +kernel, by decide +kernel, ?_,
    by decide +kernel⟩
  intro k e' hk he'
  have hlen : afterBoth.world.history.length = 4 := by decide +kernel
  obtain rfl : k = 3 := by
    have hlt := (List.getElem?_eq_some_iff.mp he').1
    omega
  have hwho : (afterBoth.world.history[3]?.all fun e : Entry Bool Resp =>
      decide (Field.lastScaleAt ∉ (edgeAndClaim e.who).intends)) = true := by
    decide +kernel
  rw [he'] at hwho
  exact decide_eq_true_eq.mp hwho

end LaunchPad.Cli.ClusterJson
