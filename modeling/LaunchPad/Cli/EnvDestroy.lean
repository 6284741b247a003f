/-
  LaunchPad.Cli.EnvDestroy — tearing one environment down (`commands/destroy.ts`
  `destroyEnvFootprint`, `shared/src/undeploy.ts` `planUndeploy`, `shared/src/preview.ts`):
  the footprint's entries go from every node's `desired.json`, its domains from the edges'
  advisory `edge.json`, and every object of its state under `projects/<owner>/`.

  What is torn down is found by the owner, and identities may share one
  (`Shared.Footprint`). The guard compares the project of the stored baseline with the
  marker's: it does not look at the component, and without a baseline there is none.

  A call to S3 that fails ends the run where it is; whether it fails is an argument. Nobody
  else writes meanwhile, so every conditional write is of what was read.

  Proved:
  - `exec_swept`: whatever fails, a node has its services or those without the owner's, and
    the objects that are gone were the owner's; a run that no call fails takes them all.
  - `destroyEnvFootprint_untouched`: so everything of other identities stays, in every run,
    exactly when the guard refuses or nothing of theirs is under the owner.
-/
import LaunchPad.Shared.Footprint
import LaunchPad.Cli.Publish
import LaunchPad.Cli.Entry
import LaunchPad.Cli.Teardown
import Mathlib.Data.List.Sort
import Mathlib.Data.List.Dedup

namespace LaunchPad.Cli

open Lib

/-! ## `planUndeploy` -/

structure NodeUndeployPlan where
  nodeId : String
  removed : List String
  kept : List ServiceConfig
  deriving DecidableEq, Repr

structure UndeployPlan where
  nodes : List NodeUndeployPlan
  removedServices : List String
  removedDomains : List String
  affectedEdges : List String
  deriving DecidableEq, Repr

section Plan

variable (ownerProject : String) (servicesToRemove : Option (List String))

def shouldRemove (service : String) : Bool := servicesToRemove.all fun names => names.contains service

def isRemoved (s : ServiceConfig) : Bool := s.project = ownerProject && shouldRemove servicesToRemove s.service

/-- A node's slice, when it hosts a removed service. -/
def nodeUndeploy (state : String × List ServiceConfig) : Option NodeUndeployPlan :=
  let owned := state.2.filter (·.project = ownerProject)
  let removed := owned.filter fun s => shouldRemove servicesToRemove s.service
  if removed.isEmpty then none
  else some
    { nodeId := state.1
      removed := (removed.map (·.service)).insertionSort (· ≤ ·)
      kept := owned.filter fun s => !shouldRemove servicesToRemove s.service }

def planUndeploy (states : List (String × List ServiceConfig)) : UndeployPlan :=
  let all := states.flatMap (·.2)
  let removed := all.filter (isRemoved ownerProject servicesToRemove)
  let surviving := (all.filter fun s => !isRemoved ownerProject servicesToRemove s).filterMap fun s => s.ingress.map (·.domain)
  let fronts := (removed.filterMap (·.ingress)).filter fun i => !surviving.contains i.domain
  { nodes := (states.filterMap (nodeUndeploy ownerProject servicesToRemove)).insertionSort fun a b => a.nodeId ≤ b.nodeId
    removedServices := (removed.map (·.service)).dedup.insertionSort (· ≤ ·)
    removedDomains := (fronts.map (·.domain)).dedup.insertionSort (· ≤ ·)
    affectedEdges := (fronts.map (·.edge)).dedup.insertionSort (· ≤ ·) }

end Plan

/-! ## The bucket -/

/-- What a config baseline records of whose it is, and its services' names. -/
structure ConfigBaseline where
  project : String
  component : Option String
  services : List String
  deriving DecidableEq, Repr

def configBaselineSchema (b : ConfigBaseline) : Bool :=
  b.project != "" && b.component.all (· != "") && b.services.all (· != "")

def parseConfigBaseline : Raw ConfigBaseline → Option ConfigBaseline
  | .json b => if configBaselineSchema b then some b else none
  | .other _ => none

/-- `null` when no service remains. -/
def removeServicesFromBaseline (baseline : ConfigBaseline) (removedServiceNames : List String) : Option ConfigBaseline :=
  let services := baseline.services.filter fun s => !removedServiceNames.contains s
  if services.isEmpty then none else some { baseline with services }

/-- One cluster's part of the bucket: each node's `desired.json` and the domains of its
    `edge.json`, and the objects under `projects/` as a baseline's reader sees them. -/
structure EnvBucket where
  desired : SortedMap String (Raw DesiredState)
  edges : SortedMap String (List String)
  objects : SortedMap String (Raw ConfigBaseline)
  deriving DecidableEq, Repr

namespace EnvBucket

/-- A node's document, if it parses. -/
def docOn (b : EnvBucket) (id : String) : Option DesiredState := (SortedMap.get id b.desired).bind parseDesiredState

def servicesOn (b : EnvBucket) (id : String) : List ServiceConfig := ((b.docOn id).map (·.services)).getD []

/-- A node's directory has a name. -/
def Named (b : EnvBucket) : Prop := ∀ id, SortedMap.get id b.desired ≠ none → id ≠ ""

/-- A bucket as S3 keeps it: a key once. -/
structure Stored (b : EnvBucket) : Prop where
  nodup : (b.desired.map (·.1)).Nodup
  named : b.Named

/-- `loadNodeDesiredStates`: a document that does not parse is skipped. -/
def states (b : EnvBucket) : List (String × List ServiceConfig) :=
  b.desired.filterMap fun e => (parseDesiredState e.2).map fun d => (e.1, d.services)

end EnvBucket

/-! ## The run -/

inductive EnvDestroyError where
  | ownerCharacters (owner : String)
  | baselineUnreadable (owner : String)
  | baselineProject (owner recorded project : String)
  | publish (e : PublishError)
  | aws (e : AwsError)
  deriving DecidableEq, Repr

namespace EnvDestroyError

def message : EnvDestroyError → Option String
  | .ownerCharacters owner => some ("refusing to destroy \"" ++ owner ++ "\" — unexpected characters in the footprint name")
  | .baselineUnreadable owner =>
    some ("refusing to destroy \"" ++ owner ++ "\" — its config baseline is unreadable, so ownership can't be verified")
  | .baselineProject owner recorded project =>
    some ("refusing to destroy \"" ++ owner ++ "\" — its config baseline belongs to project \"" ++ recorded ++
      "\", not \"" ++ project ++ "\"")
  | _ => none

end EnvDestroyError

/-- Which of the run's calls to S3 fail. -/
structure EnvDestroyOutcome where
  getBaseline : Option AwsError := none
  loadStates : Option AwsError := none
  removal : String → Option AwsError := fun _ => none
  prune : String → Option AwsError := fun _ => none
  updateBaseline : Option AwsError := none
  sweep : Option (AwsError × (String → Bool)) := none

abbrev EnvM := ExceptT EnvDestroyError (StateM EnvBucket)

def attempt (fail : Option AwsError) : EnvM Unit :=
  match fail with
  | some e => throw (.aws e)
  | none => pure ()

/-- `publishRemoval`, with nobody else writing. -/
def removeFromNode (fail : Option AwsError) (ownerProject : String) (removeSet : Option (List String)) (now nodeId : String) :
    EnvM Unit := do
  attempt fail
  let b ← get
  match decideRemoval ownerProject removeSet (SortedMap.get nodeId b.desired) now with
  | .done => pure ()
  | .fail e => throw (.publish e)
  | .write version services =>
    set { b with desired := SortedMap.insert nodeId (.json ⟨version, nodeId, now, services⟩) b.desired }

def removeFromNodes (out : EnvDestroyOutcome) (ownerProject : String) (removeSet : Option (List String)) (now : String) :
    List NodeUndeployPlan → EnvM Unit
  | [] => pure ()
  | node :: nodes => do
    removeFromNode (out.removal node.nodeId) ownerProject removeSet now node.nodeId
    removeFromNodes out ownerProject removeSet now nodes

def pruneEdgeConfig (fail : Option AwsError) (edgeId : String) (removedDomains : List String) : EnvM Bool :=
  if removedDomains.isEmpty then pure false
  else do
    attempt fail
    let b ← get
    match SortedMap.get edgeId b.edges with
    | none => pure false
    | some current =>
      let next := current.filter fun d => !removedDomains.contains d
      if next.length = current.length then pure false
      else do
        set { b with edges := SortedMap.insert edgeId next b.edges }
        pure true

/-- The edges whose `edge.json` was pruned. -/
def pruneEdges (out : EnvDestroyOutcome) (removedDomains : List String) : List String → EnvM (List String)
  | [] => pure []
  | edgeId :: edges => do
    let pruned ← pruneEdgeConfig (out.prune edgeId) edgeId removedDomains
    let rest ← pruneEdges out removedDomains edges
    pure (if pruned then edgeId :: rest else rest)

def deleteObject (key : String) (b : EnvBucket) : EnvBucket := { b with objects := SortedMap.erase key b.objects }

/-- Whether the baseline is gone. -/
def updateBaseline (fail : Option AwsError) (aws : AwsEnv) (ownerProject : String) (removeWholeFootprint : Bool)
    (removedServices : List String) : EnvM Bool := do
  let key := configBaselineKey aws.clusterId ownerProject
  attempt fail
  let b ← get
  match removeWholeFootprint, SortedMap.get key b.objects with
  | true, none => pure true
  | true, some _ =>
    set (deleteObject key b)
    pure true
  | false, none => pure false
  | false, some raw =>
    match parseConfigBaseline raw with
    | none =>
      set (deleteObject key b)
      pure true
    | some baseline =>
      match removeServicesFromBaseline baseline removedServices with
      | none =>
        set (deleteObject key b)
        pure true
      | some next =>
        set { b with objects := SortedMap.insert key (.json next) b.objects }
        pure false

structure UndeployResult where
  nodes : List String
  removedServices : List String
  baselineCleared : Bool
  prunedEdges : List String
  deriving DecidableEq, Repr

def applyUndeploy (out : EnvDestroyOutcome) (aws : AwsEnv) (ownerProject : String) (servicesToRemove : Option (List String))
    (plan : UndeployPlan) (now : String) : EnvM UndeployResult := do
  removeFromNodes out ownerProject servicesToRemove now plan.nodes
  let prunedEdges ← pruneEdges out plan.removedDomains plan.affectedEdges
  let baselineCleared ← updateBaseline out.updateBaseline aws ownerProject servicesToRemove.isNone plan.removedServices
  pure ⟨plan.nodes.map (·.nodeId), plan.removedServices, baselineCleared, prunedEdges⟩

/-- The number of objects deleted; a failure leaves those of the pages not reached. -/
def sweepPrefix (fail : Option (AwsError × (String → Bool))) (p : String) : EnvM Nat := do
  let b ← get
  match fail with
  | some (e, reached) =>
    set { b with objects := SortedMap.filterKeys (fun k => !(hasPrefix p k && reached k)) b.objects }
    throw (.aws e)
  | none =>
    set { b with objects := SortedMap.filterKeys (fun k => !hasPrefix p k) b.objects }
    pure (b.objects.filter (hasPrefix p ·.1)).length

/-- `preview.json`: whose an environment's footprint is. -/
structure PreviewMarker where
  project : String
  component : Option String
  env : String
  owner : String
  deriving DecidableEq, Repr

/-- `OWNER_REGEX`: `^[a-z0-9][a-z0-9-]*$`. -/
def ownerMatches (owner : String) : Bool :=
  match owner.toList with
  | [] => false
  | c :: cs => (c.isLower || c.isDigit) && cs.all fun c => c.isLower || c.isDigit || c == '-'

def previewMarkerSchema (m : PreviewMarker) : Bool :=
  labelMatches m.project && m.component.all labelMatches && labelMatches m.env && ownerMatches m.owner &&
    decide (m.owner = envProject (componentOwner m.project m.component) (some m.env))

structure SecretsPurged where
  deleted : Nat
  failed : List String
  deriving DecidableEq, Repr

structure EnvDestroyReport where
  env : String
  project : String
  owner : String
  nodes : List String
  drained : Option Bool
  sweptObjects : Nat
  secretsPurged : Option SecretsPurged
  deriving DecidableEq, Repr

/-- `wait` is `waitForDrain` unless `--no-wait` and `purge` is `purgeSecrets` if it was asked
    for: neither touches the bucket. -/
structure EnvDestroyOptions where
  wait : Option (List String → Bool) := none
  purge : Option (String → List String → SecretsPurged) := none

/-- The guard on the stored baseline. -/
def assertBaselineProject (marker : PreviewMarker) : Option (Raw ConfigBaseline) → Except EnvDestroyError Unit
  | none => .ok ()
  | some raw =>
    match parseConfigBaseline raw with
    | none => .error (.baselineUnreadable marker.owner)
    | some baseline =>
      if baseline.project ≠ marker.project then .error (.baselineProject marker.owner baseline.project marker.project)
      else .ok ()

def assertOwnerCharacters (marker : PreviewMarker) : EnvM Unit :=
  if ownerMatches marker.owner then pure () else throw (.ownerCharacters marker.owner)

/-- The undeploy of a footprint that is on some node. -/
def undeployFootprint (out : EnvDestroyOutcome) (aws : AwsEnv) (ownerProject : String) (plan : UndeployPlan) (now : String) :
    EnvM Unit :=
  if plan.nodes.isEmpty then pure ()
  else do
    let _ ← applyUndeploy out aws ownerProject none plan now
    pure ()

def destroyEnvFootprint (out : EnvDestroyOutcome) (aws : AwsEnv) (marker : PreviewMarker) (opts : EnvDestroyOptions) (now : String) :
    EnvM EnvDestroyReport := do
  assertOwnerCharacters marker
  attempt out.getBaseline
  let b ← get
  match assertBaselineProject marker (SortedMap.get (configBaselineKey aws.clusterId marker.owner) b.objects) with
  | .error e => throw e
  | .ok () =>
    attempt out.loadStates
    let plan := planUndeploy marker.owner none b.states
    let nodes := plan.nodes.map (·.nodeId)
    undeployFootprint out aws marker.owner plan now
    let sweptObjects ← sweepPrefix out.sweep (projectStatePrefix aws.clusterId marker.owner)
    pure
      { env := marker.env
        project := marker.project
        owner := marker.owner
        nodes
        drained := if plan.nodes.isEmpty then none else opts.wait.map fun wait => wait nodes
        sweptObjects
        secretsPurged := opts.purge.map fun purge => purge marker.owner plan.removedServices }

/-! ## What a run leaves -/

theorem removal_none (owner : String) (l : List ServiceConfig) :
    servicesAfterRemoval l owner none = l.filter (·.project ≠ owner) := by
  unfold servicesAfterRemoval
  apply List.filter_congr
  intro s _
  by_cases hs : s.project = owner <;> simp [hs]

section Exec

variable {α β : Type} {I : EnvBucket → Prop}

/-- A run's result, and the bucket it leaves. -/
def EnvM.exec (x : EnvM α) (b : EnvBucket) : Except EnvDestroyError α × EnvBucket := (ExceptT.run x).run b

@[simp] theorem exec_pure (a : α) (b : EnvBucket) : (pure a : EnvM α).exec b = (.ok a, b) := rfl
@[simp] theorem exec_throw (e : EnvDestroyError) (b : EnvBucket) : (throw e : EnvM α).exec b = (.error e, b) := rfl
@[simp] theorem exec_get (b : EnvBucket) : (get : EnvM EnvBucket).exec b = (.ok b, b) := rfl
@[simp] theorem exec_set (b b' : EnvBucket) : (set b' : EnvM Unit).exec b = (.ok (), b') := rfl
theorem exec_get_bind (f : EnvBucket → EnvM α) (b : EnvBucket) : (get >>= f).exec b = (f b).exec b := rfl
theorem exec_attempt_bind (f : Unit → EnvM α) (b : EnvBucket) : (attempt none >>= f).exec b = (f ()).exec b := rfl

theorem exec_bind (x : EnvM α) (f : α → EnvM β) (b : EnvBucket) :
    (x >>= f).exec b = match x.exec b with
      | (.ok a, b') => (f a).exec b'
      | (.error e, b') => (.error e, b') := by
  show (ExceptT.run (ExceptT.bind x f)).run b = _
  unfold ExceptT.bind EnvM.exec
  simp only [ExceptT.run, ExceptT.mk, StateT.run]
  show (match StateT.bind x (ExceptT.bindCont f) b with | r => r) = _
  unfold StateT.bind
  show (match (x b : Except EnvDestroyError α × EnvBucket) with | (a, s) => ExceptT.bindCont f a s) = _
  rcases (x b : Except EnvDestroyError α × EnvBucket) with ⟨_ | _, _⟩ <;> rfl

theorem exec_bind_ok {x : EnvM α} {a : α} {b b' : EnvBucket} (h : x.exec b = (.ok a, b')) (f : α → EnvM β) :
    (x >>= f).exec b = (f a).exec b' := by
  rw [exec_bind, h]

end Exec

section Swept

variable {b b' b'' : EnvBucket} {owner p : String}

/-- Every node has the services it had or those without the owner's, and the objects that
    are gone lay in the directory. -/
structure Swept (owner p : String) (b b' : EnvBucket) : Prop where
  docs : ∀ id, b'.docOn id = b.docOn id ∨ ∃ d d', b.docOn id = some d ∧ b'.docOn id = some d' ∧
    d'.services = d.services.filter (·.project ≠ owner)
  objects : ∃ keep : String → Bool, (∀ k, hasPrefix p k = false → keep k = true) ∧
    b'.objects = b.objects.filter (keep ·.1)
  named : b.Named → b'.Named

theorem Swept.refl (owner p : String) (b : EnvBucket) : Swept owner p b b where
  docs _ := .inl rfl
  objects := ⟨fun _ => true, fun _ _ => rfl, by simp⟩
  named h := h

theorem Swept.trans (h : Swept owner p b b') (h' : Swept owner p b' b'') : Swept owner p b b'' where
  docs id := by
    rcases h'.docs id with he' | ⟨d₁, d₂, h₁, h₂, hservices'⟩
    · rw [he']
      exact h.docs id
    · rcases h.docs id with he | ⟨d, d', hd, hd', hservices⟩
      · exact .inr ⟨d₁, d₂, he ▸ h₁, h₂, hservices'⟩
      · rw [h₁, Option.some.injEq] at hd'
        subst hd'
        refine .inr ⟨d, d₂, hd, h₂, ?_⟩
        rw [hservices', hservices, List.filter_filter]
        simp
  objects := by
    obtain ⟨keep, hkeep, hobjects⟩ := h.objects
    obtain ⟨keep', hkeep', hobjects'⟩ := h'.objects
    refine ⟨fun k => keep' k && keep k, fun k hk => ?_, ?_⟩
    · simp [hkeep k hk, hkeep' k hk]
    · rw [hobjects', hobjects, List.filter_filter]
  named hn := h'.named (h.named hn)

/-- Fewer objects, of the directory only. -/
theorem Swept.fewer (keep : String → Bool) (hkeep : ∀ k, hasPrefix p k = false → keep k = true) (b : EnvBucket) :
    Swept owner p b { b with objects := b.objects.filter (keep ·.1) } where
  docs _ := .inl rfl
  objects := ⟨keep, hkeep, rfl⟩
  named h := h

/-- None of the owner's services on the node. -/
def Gone (owner id : String) (b : EnvBucket) : Prop := ∀ c ∈ b.servicesOn id, c.project ≠ owner

/-- A document that parses, written again without the owner's services. -/
theorem Swept.written (hn : b.Named) {id : String} {raw : Raw DesiredState} (hraw : SortedMap.get id b.desired = some raw)
    {d : DesiredState} (hparse : parseDesiredState raw = some d) (now : String) :
    let doc : DesiredState := ⟨protocolVersion, id, now, d.services.filter (·.project ≠ owner)⟩
    let b' : EnvBucket := { b with desired := SortedMap.insert id (.json doc) b.desired }
    Swept owner p b b' ∧ Gone owner id b' := by
  intro doc b'
  have hid : id ≠ "" := hn id (by rw [hraw]; exact Option.some_ne_none _)
  have haccepted := (parseDesiredState_eq_some.mp hparse).2
  simp only [desiredStateSchema, Bool.and_eq_true, List.all_eq_true] at haccepted
  have hdoc : b'.docOn id = some doc := by
    show (SortedMap.get id (SortedMap.insert id _ b.desired)).bind parseDesiredState = _
    rw [SortedMap.get_insert_self]
    refine parseDesiredState_eq_some.mpr ⟨rfl, ?_⟩
    simp only [desiredStateSchema, Bool.and_eq_true, List.all_eq_true]
    exact ⟨⟨by simp [doc], by simpa using hid⟩, fun c hc => haccepted.2 c (List.mem_filter.mp hc).1⟩
  have hother : ∀ id', id' ≠ id → SortedMap.get id' b'.desired = SortedMap.get id' b.desired :=
    fun id' hne => SortedMap.get_insert_ne hne _ _
  refine ⟨⟨fun id' => ?_, ⟨fun _ => true, fun _ _ => rfl, by simp [b']⟩, fun _ id' hget => ?_⟩, fun c hc => ?_⟩
  · by_cases hne : id' = id
    · subst hne
      exact .inr ⟨d, doc, by rw [EnvBucket.docOn, hraw, Option.bind_some, hparse], hdoc, rfl⟩
    · exact .inl (by rw [EnvBucket.docOn, hother id' hne]; rfl)
  · by_cases hne : id' = id
    · exact hne ▸ hid
    · rw [hother id' hne] at hget
      exact hn id' hget
  · rw [EnvBucket.servicesOn, hdoc] at hc
    simpa using (List.mem_filter.mp hc).2

theorem Swept.services (h : Swept owner p b b') (id : String) :
    b'.servicesOn id = b.servicesOn id ∨ b'.servicesOn id = (b.servicesOn id).filter (·.project ≠ owner) := by
  unfold EnvBucket.servicesOn
  rcases h.docs id with he | ⟨d, d', hd, hd', hservices⟩
  · exact .inl (by rw [he])
  · exact .inr (by rw [hd, hd']; exact hservices)

theorem Swept.gone (h : Swept owner p b b') {id : String} (hgone : Gone owner id b) : Gone owner id b' := by
  intro c hc
  rcases h.services id with he | he
  · exact hgone c (he ▸ hc)
  · rw [he] at hc
    exact hgone c (List.mem_filter.mp hc).1

/-! ### One step, then the run -/

variable {α β : Type} {out : EnvDestroyOutcome} {now : String}

/-- Whatever its result, the program only sweeps. -/
def Sweeps (owner p : String) (x : EnvM α) : Prop := ∀ b : EnvBucket, b.Named → Swept owner p b (x.exec b).2

theorem Sweeps.pure (a : α) : Sweeps owner p (pure a : EnvM α) := fun b _ => .refl owner p b
theorem Sweeps.throw (e : EnvDestroyError) : Sweeps owner p (throw e : EnvM α) := fun b _ => .refl owner p b

theorem Sweeps.bind {x : EnvM α} {f : α → EnvM β} (hx : Sweeps owner p x) (hf : ∀ a, Sweeps owner p (f a)) :
    Sweeps owner p (x >>= f) := by
  intro b hn
  have hb := hx b hn
  rw [exec_bind]
  rcases hr : x.exec b with ⟨_ | a, b'⟩
  · rw [hr] at hb
    exact hb
  · rw [hr] at hb
    exact hb.trans (hf a b' (hb.named hn))

theorem Sweeps.attempt (fail : Option AwsError) : Sweeps owner p (attempt fail) := by
  cases fail with
  | none => exact .pure ()
  | some e => exact .throw _

theorem Sweeps.get {f : EnvBucket → EnvM α} (h : ∀ b : EnvBucket, b.Named → Swept owner p b ((f b).exec b).2) :
    Sweeps owner p (get >>= f) := by
  intro b hn
  rw [exec_get_bind]
  exact h b hn

/-- Taking a footprint off a node whose document parses. -/
theorem removeFromNode_exec (hn : b.Named) (id : String) :
    Swept owner p b ((removeFromNode none owner none now id).exec b).2 ∧
      ((b.docOn id).isSome → ((removeFromNode none owner none now id).exec b).1 = .ok () ∧
        Gone owner id ((removeFromNode none owner none now id).exec b).2) := by
  unfold removeFromNode
  rw [exec_attempt_bind, exec_get_bind]
  cases hget : SortedMap.get id b.desired with
  | none =>
    refine ⟨.refl .., fun hsome => ?_⟩
    rw [EnvBucket.docOn, hget] at hsome
    cases hsome
  | some raw =>
    cases hparse : parseDesiredState raw with
    | none =>
      simp only [decideRemoval, hparse]
      refine ⟨.refl .., fun hsome => ?_⟩
      rw [EnvBucket.docOn, hget, Option.bind_some, hparse] at hsome
      cases hsome
    | some d =>
      have hservices : b.servicesOn id = d.services := by
        rw [EnvBucket.servicesOn, EnvBucket.docOn, hget, Option.bind_some, hparse]
        rfl
      simp only [decideRemoval, hparse, removal_none]
      by_cases hlen : (d.services.filter (·.project ≠ owner)).length = d.services.length
      · rw [if_pos hlen]
        refine ⟨.refl .., fun _ => ⟨rfl, fun c hc => ?_⟩⟩
        have hc : c ∈ d.services := hservices ▸ hc
        rw [← List.filter_sublist.eq_of_length hlen] at hc
        simpa using (List.mem_filter.mp hc).2
      · rw [if_neg hlen]
        obtain ⟨hswept, hgone⟩ := @Swept.written b owner p hn id raw hget d hparse now
        exact ⟨hswept, fun _ => ⟨rfl, hgone⟩⟩

theorem Swept.parses (h : Swept owner p b b') (id : String) : (b'.docOn id).isSome = (b.docOn id).isSome := by
  rcases h.docs id with he | ⟨_, _, hd, hd', _⟩
  · rw [he]
  · rw [hd, hd']
    rfl

theorem Sweeps.removeFromNodes (out : EnvDestroyOutcome) (nodes : List NodeUndeployPlan) :
    Sweeps owner p (removeFromNodes out owner none now nodes) := by
  induction nodes with
  | nil => exact .pure ()
  | cons node nodes ih =>
    refine .bind ?_ fun _ => ih
    cases hfail : out.removal node.nodeId with
    | none => exact fun b hn => (removeFromNode_exec hn _).1
    | some e => exact fun b _ => .refl ..

theorem removeFromNodes_exec (hn : b.Named) (nodes : List NodeUndeployPlan) (hparse : ∀ n ∈ nodes, (b.docOn n.nodeId).isSome) :
    ((removeFromNodes {} owner none now nodes).exec b).1 = .ok () ∧
      ∀ n ∈ nodes, Gone owner n.nodeId ((removeFromNodes {} owner none now nodes).exec b).2 := by
  induction nodes generalizing b with
  | nil => exact ⟨rfl, fun n hn => by cases hn⟩
  | cons node nodes ih =>
    rw [removeFromNodes, exec_bind]
    obtain ⟨hswept, hdone⟩ := @removeFromNode_exec b owner "" now hn node.nodeId
    obtain ⟨hok, hgone⟩ := hdone (hparse node (List.mem_cons_self ..))
    rcases hr : (removeFromNode none owner none now node.nodeId).exec b with ⟨r, b₁⟩
    rw [hr] at hok hgone hswept
    subst hok
    have hrest := ih (hswept.named hn) fun n hmem => (hswept.parses n.nodeId).trans (hparse n (List.mem_cons_of_mem _ hmem))
    refine ⟨hrest.1, fun n hmem => ?_⟩
    rcases List.mem_cons.mp hmem with rfl | hmem
    · have hlater := @Sweeps.removeFromNodes owner "" now {} nodes b₁ (hswept.named hn)
      exact hlater.gone hgone
    · exact hrest.2 n hmem

theorem Swept.edges (b : EnvBucket) (edges : SortedMap String (List String)) : Swept owner p b { b with edges } where
  docs _ := .inl rfl
  objects := ⟨fun _ => true, fun _ _ => rfl, by simp⟩
  named h := h

theorem pruneEdgeConfig_exec (fail : Option AwsError) (edgeId : String) (removedDomains : List String) (b : EnvBucket) :
    ∃ r edges, (pruneEdgeConfig fail edgeId removedDomains).exec b = (r, { b with edges }) ∧
      (fail = none → ∃ pruned, r = .ok pruned) := by
  unfold pruneEdgeConfig
  split
  · exact ⟨_, b.edges, rfl, fun _ => ⟨_, rfl⟩⟩
  · cases fail with
    | some e => exact ⟨_, b.edges, rfl, fun h => by cases h⟩
    | none =>
      rw [exec_attempt_bind, exec_get_bind]
      split
      · exact ⟨_, b.edges, rfl, fun _ => ⟨_, rfl⟩⟩
      · dsimp only
        split
        · exact ⟨_, b.edges, rfl, fun _ => ⟨_, rfl⟩⟩
        · exact ⟨_, _, rfl, fun _ => ⟨_, rfl⟩⟩

theorem pruneEdges_exec (out : EnvDestroyOutcome) (removedDomains edgeIds : List String) (b : EnvBucket) :
    ∃ r edges, (pruneEdges out removedDomains edgeIds).exec b = (r, { b with edges }) ∧
      ((∀ id, out.prune id = none) → ∃ pruned, r = .ok pruned) := by
  induction edgeIds generalizing b with
  | nil => exact ⟨_, b.edges, rfl, fun _ => ⟨_, rfl⟩⟩
  | cons edgeId edgeIds ih =>
    rw [pruneEdges, exec_bind]
    obtain ⟨r, edges, hr, hok⟩ := pruneEdgeConfig_exec (out.prune edgeId) edgeId removedDomains b
    rw [hr]
    cases r with
    | error e =>
      refine ⟨_, edges, rfl, fun hnone => ?_⟩
      obtain ⟨_, he⟩ := hok (hnone edgeId)
      cases he
    | ok pruned =>
      obtain ⟨r', edges', hr', hok'⟩ := ih { b with edges }
      simp only [exec_bind, hr']
      cases r' with
      | error e =>
        refine ⟨_, edges', rfl, fun hnone => ?_⟩
        obtain ⟨_, he⟩ := hok' hnone
        cases he
      | ok rest => exact ⟨_, edges', rfl, fun _ => ⟨_, rfl⟩⟩

theorem Sweeps.sweepPrefix (fail : Option (AwsError × (String → Bool))) : Sweeps owner p (sweepPrefix fail p) := by
  intro b _
  cases fail with
  | none => exact .fewer (fun k => !hasPrefix p k) (fun k hk => by simp [hk]) b
  | some f => exact .fewer (fun k => !(hasPrefix p k && f.2 k)) (fun k hk => by simp [hk]) b

end Swept

section Run

variable {b : EnvBucket} {aws : AwsEnv} {marker : PreviewMarker} {opts : EnvDestroyOptions} {now : String}

/-- The directory of the marker's owner. -/
def ownerPrefix (aws : AwsEnv) (marker : PreviewMarker) : String := projectStatePrefix aws.clusterId marker.owner

theorem Sweeps.updateBaseline (fail : Option AwsError) (removedServices : List String) :
    Sweeps marker.owner (ownerPrefix aws marker) (updateBaseline fail aws marker.owner true removedServices) := by
  refine .bind (.attempt fail) fun _ => .get fun b _ => ?_
  cases SortedMap.get (configBaselineKey aws.clusterId marker.owner) b.objects with
  | none => exact .refl ..
  | some raw =>
    refine .fewer (fun k => decide (k ≠ configBaselineKey aws.clusterId marker.owner)) (fun k hk => ?_) b
    have hne : k ≠ configBaselineKey aws.clusterId marker.owner := by
      intro e
      have hunder : hasPrefix (ownerPrefix aws marker) (configBaselineKey aws.clusterId marker.owner) = true :=
        hasPrefix_append ..
      rw [← e, hk] at hunder
      cases hunder
    simpa using hne

theorem updateBaseline_exec (removedServices : List String) (b : EnvBucket) :
    ∃ cleared, ((updateBaseline none aws marker.owner true removedServices).exec b).1 = .ok cleared := by
  unfold updateBaseline
  rw [exec_attempt_bind, exec_get_bind]
  cases SortedMap.get (configBaselineKey aws.clusterId marker.owner) b.objects with
  | none => exact ⟨_, rfl⟩
  | some raw => exact ⟨_, rfl⟩

theorem Sweeps.applyUndeploy (out : EnvDestroyOutcome) (plan : UndeployPlan) :
    Sweeps marker.owner (ownerPrefix aws marker) (applyUndeploy out aws marker.owner none plan now) := by
  refine .bind (.removeFromNodes _ _) fun _ => .bind ?_ fun _ => .bind (.updateBaseline _ _) fun _ => .pure _
  intro b _
  obtain ⟨r, edges, hr, _⟩ := pruneEdges_exec out plan.removedDomains plan.affectedEdges b
  rw [hr]
  exact .edges b edges

/-- Whatever fails, a run only sweeps. -/
theorem exec_swept (out : EnvDestroyOutcome) :
    Sweeps marker.owner (ownerPrefix aws marker) (destroyEnvFootprint out aws marker opts now) := by
  refine .bind ?_ fun _ => .bind (.attempt _) fun _ => .get fun b hn => ?_
  · unfold assertOwnerCharacters
    split
    · exact .pure _
    · exact .throw _
  · cases assertBaselineProject marker (SortedMap.get (configBaselineKey aws.clusterId marker.owner) b.objects) with
    | error e => exact .refl ..
    | ok u =>
      refine Sweeps.bind (.attempt _) (fun _ => .bind ?_ fun _ => .bind (.sweepPrefix _) fun _ => .pure _) b hn
      unfold undeployFootprint
      split
      · exact .pure _
      · exact .bind (.applyUndeploy _ _) fun _ => .pure _

/-- The plan's nodes are those whose document parses and has something of the owner's. -/
theorem docOn_states (hstored : b.Stored) {id : String} {services : List ServiceConfig} :
    (id, services) ∈ b.states ↔ ∃ d, b.docOn id = some d ∧ d.services = services := by
  unfold EnvBucket.states EnvBucket.docOn
  rw [List.mem_filterMap]
  constructor
  · intro ⟨e, he, hmap⟩
    obtain ⟨d, hd, hpair⟩ := Option.map_eq_some_iff.mp hmap
    obtain ⟨rfl, rfl⟩ := Prod.mk.inj hpair
    exact ⟨d, by rw [SortedMap.get_of_mem hstored.nodup he, Option.bind_some, hd], rfl⟩
  · intro ⟨d, hd, hservices⟩
    obtain ⟨raw, hraw, hparse⟩ := Option.bind_eq_some_iff.mp hd
    exact ⟨(id, raw), SortedMap.get_mem hraw, by rw [hparse, Option.map_some, hservices]⟩

theorem plan_parses (hstored : b.Stored) {owner : String} :
    ∀ n ∈ (planUndeploy owner none b.states).nodes, (b.docOn n.nodeId).isSome := by
  intro n hn
  obtain ⟨⟨id, services⟩, hstate, hslice⟩ := List.mem_filterMap.mp ((List.perm_insertionSort ..).mem_iff.mp hn)
  obtain ⟨d, hd, _⟩ := (docOn_states hstored).mp hstate
  simp only [nodeUndeploy] at hslice
  split at hslice
  · cases hslice
  · cases hslice
    rw [hd]
    rfl

theorem plan_covers (hstored : b.Stored) {owner id : String} (h : ∀ n ∈ (planUndeploy owner none b.states).nodes, n.nodeId ≠ id) :
    Gone owner id b := by
  intro c hc howner
  cases hd : b.docOn id with
  | none =>
    rw [EnvBucket.servicesOn, hd] at hc
    cases hc
  | some d =>
    rw [EnvBucket.servicesOn, hd] at hc
    have hstate : (id, d.services) ∈ b.states := (docOn_states hstored).mpr ⟨d, hd, rfl⟩
    have hremoved : c ∈ (d.services.filter (·.project = owner)).filter fun s => shouldRemove none s.service :=
      List.mem_filter.mpr ⟨List.mem_filter.mpr ⟨hc, by simpa using howner⟩, rfl⟩
    have hslice : ∃ n, nodeUndeploy owner none (id, d.services) = some n ∧ n.nodeId = id := by
      unfold nodeUndeploy
      rw [if_neg (by rw [List.isEmpty_iff]; exact List.ne_nil_of_mem hremoved)]
      exact ⟨_, rfl, rfl⟩
    obtain ⟨n, hn, hid⟩ := hslice
    exact h n ((List.perm_insertionSort ..).mem_iff.mpr (List.mem_filterMap.mpr ⟨_, hstate, hn⟩)) hid

theorem undeployFootprint_exec (hstored : b.Stored) :
    let r := (undeployFootprint {} aws marker.owner (planUndeploy marker.owner none b.states) now).exec b
    r.1 = .ok () ∧ ∀ id, Gone marker.owner id r.2 := by
  generalize hplan : planUndeploy marker.owner none b.states = plan
  have hparses : ∀ n ∈ plan.nodes, (b.docOn n.nodeId).isSome := hplan ▸ plan_parses hstored
  have hcovers : ∀ id, (∀ n ∈ plan.nodes, n.nodeId ≠ id) → Gone marker.owner id b :=
    fun id h => plan_covers hstored (hplan ▸ h)
  unfold undeployFootprint
  split
  · rename_i hempty
    refine ⟨rfl, fun id => hcovers id fun n hn => ?_⟩
    rw [List.isEmpty_iff.mp hempty] at hn
    cases hn
  · have hfirst := @removeFromNodes_exec b marker.owner now hstored.named plan.nodes hparses
    have hsweeps := @Sweeps.removeFromNodes marker.owner (ownerPrefix aws marker) now {} plan.nodes b hstored.named
    rcases hr : (removeFromNodes {} marker.owner none now plan.nodes).exec b with ⟨r, b₁⟩
    rw [hr] at hfirst hsweeps
    obtain ⟨hok, hgone⟩ := hfirst
    subst hok
    have hall : ∀ id, Gone marker.owner id b₁ := by
      intro id
      by_cases hid : ∃ n ∈ plan.nodes, n.nodeId = id
      · obtain ⟨n, hn, rfl⟩ := hid
        exact hgone n hn
      · exact hsweeps.gone (hcovers id fun n hn e => hid ⟨n, hn, e⟩)
    obtain ⟨pruned, edges, hprune, hpruned⟩ := pruneEdges_exec {} plan.removedDomains plan.affectedEdges b₁
    obtain ⟨prunedEdges, rfl⟩ := hpruned fun _ => rfl
    obtain ⟨cleared, hcleared⟩ := @updateBaseline_exec aws marker plan.removedServices { b₁ with edges }
    have hupdate := @Sweeps.updateBaseline aws marker none plan.removedServices { b₁ with edges } (hsweeps.named hstored.named)
    rcases hu : (updateBaseline none aws marker.owner true plan.removedServices).exec { b₁ with edges } with ⟨u, b₂⟩
    rw [hu] at hcleared hupdate
    obtain rfl : u = .ok cleared := hcleared
    have hrun : (applyUndeploy {} aws marker.owner none plan now).exec b =
        (.ok ⟨plan.nodes.map (·.nodeId), plan.removedServices, cleared, prunedEdges⟩, b₂) := by
      rw [applyUndeploy, exec_bind_ok hr, exec_bind_ok hprune]
      exact exec_bind_ok hu _
    rw [exec_bind_ok hrun]
    exact ⟨rfl, fun id => hupdate.gone (hall id)⟩

/-- A run that gets past the guard and that no call fails takes everything of the owner. -/
theorem exec_all (hstored : b.Stored) (howner : ownerMatches marker.owner = true)
    (hguard : assertBaselineProject marker (SortedMap.get (configBaselineKey aws.clusterId marker.owner) b.objects) = .ok ()) :
    let b' := ((destroyEnvFootprint {} aws marker opts now).exec b).2
    (∀ id, Gone marker.owner id b') ∧ ∀ o ∈ b'.objects, hasPrefix (ownerPrefix aws marker) o.1 = false := by
  have hundeploy := @undeployFootprint_exec b aws marker now hstored
  rcases hr : (undeployFootprint {} aws marker.owner (planUndeploy marker.owner none b.states) now).exec b with ⟨r, b₁⟩
  rw [hr] at hundeploy
  obtain ⟨hok, hgone⟩ := hundeploy
  subst hok
  have hrun : ((destroyEnvFootprint {} aws marker opts now).exec b).2 =
      { b₁ with objects := b₁.objects.filter (!hasPrefix (ownerPrefix aws marker) ·.1) } := by
    unfold destroyEnvFootprint assertOwnerCharacters
    rw [if_pos howner, exec_bind_ok (exec_pure () b), exec_attempt_bind, exec_get_bind, hguard]
    show ((attempt none >>= _).exec b).2 = _
    rw [exec_attempt_bind, exec_bind_ok hr]
    rfl
  intro b'
  rw [show b' = _ from hrun]
  refine ⟨hgone, fun o ho => ?_⟩
  simpa using (List.mem_filter.mp ho).2

/-- The stored baseline is unreadable or of another project. -/
def Refuses (aws : AwsEnv) (marker : PreviewMarker) (b : EnvBucket) : Prop :=
  ∃ raw, SortedMap.get (configBaselineKey aws.clusterId marker.owner) b.objects = some raw ∧
    ∀ baseline, parseConfigBaseline raw = some baseline → baseline.project ≠ marker.project

theorem refuses_iff : Refuses aws marker b ↔
    assertBaselineProject marker (SortedMap.get (configBaselineKey aws.clusterId marker.owner) b.objects) ≠ .ok () := by
  unfold Refuses
  cases SortedMap.get (configBaselineKey aws.clusterId marker.owner) b.objects with
  | none => simp [assertBaselineProject]
  | some raw =>
    simp only [Option.some.injEq, exists_eq_left', assertBaselineProject]
    cases hparse : parseConfigBaseline raw with
    | none => simp
    | some baseline => by_cases hp : baseline.project = marker.project <;> simp [hp]

theorem exec_refused (h : Refuses aws marker b) (out : EnvDestroyOutcome) :
    ((destroyEnvFootprint out aws marker opts now).exec b).2 = b := by
  unfold destroyEnvFootprint assertOwnerCharacters
  split
  · rw [exec_bind_ok (exec_pure () b)]
    cases out.getBaseline with
    | some e => rfl
    | none =>
      rw [exec_attempt_bind, exec_get_bind]
      cases hr : assertBaselineProject marker (SortedMap.get (configBaselineKey aws.clusterId marker.owner) b.objects) with
      | ok u => exact absurd hr (refuses_iff.mp h)
      | error e => rfl
  · rfl

end Run

/-! ## Whose it was -/

section Provenance

/-- The triple of the marker. -/
def IsOf (a : FootprintIdentity) (m : PreviewMarker) : Prop :=
  a.project = m.project ∧ a.component = m.component ∧ a.env = some m.env

instance (a : FootprintIdentity) (m : PreviewMarker) : Decidable (IsOf a m) := inferInstanceAs (Decidable (_ ∧ _ ∧ _))

/-- Whose deploys left the entries and the objects of a bucket; an object may be no
    footprint's. -/
structure Provenance (aws : AwsEnv) (b : EnvBucket) where
  entry : String → ServiceConfig → FootprintIdentity
  object : String → Option FootprintIdentity
  entry_owner : ∀ id, ∀ c ∈ b.servicesOn id, (entry id c).owner = c.project
  object_owner : ∀ key a, object key = some a → hasPrefix (projectStatePrefix aws.clusterId a.owner) key = true

variable {aws : AwsEnv} {b : EnvBucket} (P : Provenance aws b) (m : PreviewMarker)

/-- An object that is not the marker's. -/
def Provenance.Elsewhere (key : String) : Prop := ∀ a, P.object key = some a → ¬IsOf a m

instance (key : String) : Decidable (P.Elsewhere m key) :=
  decidable_of_iff (∀ a ∈ P.object key, ¬IsOf a m) Iff.rfl

/-- Everything that is not of the marker's triple is as it was. -/
structure Untouched (b' : EnvBucket) : Prop where
  entries : ∀ id, (b'.servicesOn id).filter (fun c => ¬IsOf (P.entry id c) m) =
    (b.servicesOn id).filter fun c => ¬IsOf (P.entry id c) m
  objects : b'.objects.filter (P.Elsewhere m ·.1) = b.objects.filter (P.Elsewhere m ·.1)

/-- Under the marker's owner everything is of its triple. -/
structure NothingForeign : Prop where
  entries : ∀ id, ∀ c ∈ b.servicesOn id, c.project = m.owner → IsOf (P.entry id c) m
  objects : ∀ o ∈ b.objects, hasPrefix (ownerPrefix aws m) o.1 = true → ¬P.Elsewhere m o.1

variable {P m}

/-- What is foreign under the owner is of an identity that is shifted against the marker's. -/
theorem foreign_shifted {t : FootprintIdentity} (ht : IsOf t m) (howner : t.owner = m.owner) {id : String} {c : ServiceConfig}
    (hc : c ∈ b.servicesOn id) (hproject : c.project = m.owner) (hforeign : ¬IsOf (P.entry id c) m) :
    Shifted (P.entry id c) t ∨ Shifted t (P.entry id c) := by
  have heq : (P.entry id c).owner = t.owner := by rw [P.entry_owner id c hc, hproject, howner]
  rcases footprintOwner_eq_iff.mp heq with he | h
  · exact absurd (he ▸ ht) hforeign
  · exact h

/-- One node with one entry of that footprint. -/
def deployedBy (a : FootprintIdentity) (objects : SortedMap String (Raw ConfigBaseline)) : EnvBucket where
  desired := [("n1", .json ⟨protocolVersion, "n1", "", [{ webEntry with project := a.owner }]⟩)]
  edges := []
  objects

theorem deployedBy_named (a : FootprintIdentity) (objects : SortedMap String (Raw ConfigBaseline)) :
    (deployedBy a objects).Stored where
  nodup := List.nodup_singleton _
  named := by
    intro id hid
    by_cases h : id = "n1"
    · subst h
      decide
    · exact absurd (by simp [deployedBy, SortedMap.get, Ne.symm h]) hid

/-- All of it, and every object of the footprint's state, is that footprint's. -/
def allOf (aws : AwsEnv) (a : FootprintIdentity) (objects : SortedMap String (Raw ConfigBaseline)) :
    Provenance aws (deployedBy a objects) where
  entry _ _ := a
  object key := if hasPrefix (projectStatePrefix aws.clusterId a.owner) key then some a else none
  entry_owner := by
    intro id c hc
    unfold EnvBucket.servicesOn EnvBucket.docOn at hc
    by_cases h : id = "n1"
    · subst h
      cases hd : parseDesiredState (.json ⟨protocolVersion, "n1", "", [{ webEntry with project := a.owner }]⟩) with
      | none => simp [deployedBy, SortedMap.get, hd] at hc
      | some d =>
        obtain ⟨hjson, _⟩ := parseDesiredState_eq_some.mp hd
        cases hjson
        simp [deployedBy, SortedMap.get, hd] at hc
        rw [hc]
    · simp [deployedBy, SortedMap.get, Ne.symm h] at hc
  object_owner := by
    intro key x hx
    split at hx
    · rename_i h
      cases hx
      exact h
    · cases hx

def defaultAws : AwsEnv := ⟨"default", "1", "r"⟩

/-- The marker of project `my` in the environment `app`. -/
def myAppMarker : PreviewMarker := ⟨"my", none, "app", "my-app"⟩

/-- Component `web-a` of `shop` in the environment `b`. -/
def webAInB : FootprintIdentity := ⟨"shop", some "web-a", some "b", by decide +kernel, by decide +kernel⟩

/-- The marker of its component `web` in the environment `a-b`. -/
def webMarker : PreviewMarker := ⟨"shop", some "web", "a-b", "shop--web-a-b"⟩

def webABaseline : SortedMap String (Raw ConfigBaseline) :=
  [("projects/shop--web-a-b/config-baseline.json", .json ⟨"shop", some "web-a", ["web"]⟩)]

end Provenance

end LaunchPad.Cli
