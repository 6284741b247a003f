/-
  LaunchPad.Cli.ScaleIn — taking a node away: `applyScaleIn` (`commands/autoscale.ts`) and
  `node destroy` (`commands/node/index.ts` `runDestroy`), each a gate on the services that
  the node's `desired.json` names, then a teardown that deletes the document.

  The gate is a plain read and the deletion has no condition. Other clients go on working
  with the node while it is still registered: whatever they are, what they may publish to
  it after the gate's last read is deleted with it.

  Proved:
  - `deletes_gated`: whatever the node's document answers, no deletion of a node's objects is
    issued but after a last read of its document that names no service, or in the sweep of a
    directory that has no registry entry.
  - `teardown_spares_committed`: beside any other clients, over every run: nothing
    published is torn down exactly when no write to the node's document is accepted after
    the gate's last read, and so when none is issued.
-/
import LaunchPad.Cli.Fleet
import LaunchPad.Cli.Cluster

namespace LaunchPad.Cli.Fleet

open Lib

/-! ## Scale-in -/

inductive ScaleError where
  | s3 (e : S3Error)
  /-- A `desired.json` that `parseDesiredState` refuses. -/
  | malformed
  | victimVanished (victim : String)
  | rebalance (stop : RebalanceStop)
  /-- "scale-in aborted: … still hosts …". -/
  | stillHosts (victim : String) (names : List String)
  /-- "scale-in aborted: a concurrent deploy placed … on …". -/
  | reappeared (victim : String) (names : List String)
  deriving DecidableEq, Repr

/-- The services on a node, by its `desired.json`. -/
def hostedServices (nodeId : String) : CommandE ScaleError (List ServiceConfig) := do
  match ← ask (.desired (.getJson nodeId)) with
  | .error e => throw (.s3 e)
  | .ok none => pure []
  | .ok (some obj) =>
    match parseDesiredState obj.raw with
    | none => throw .malformed
    | some state => pure state.services

/-- Stop when the node hosts anything. -/
def orphanGate (nodeId : String) (refuse : List String → ScaleError) : CommandE ScaleError Unit := do
  let leftover ← hostedServices nodeId
  if leftover = [] then pure () else throw (refuse (leftover.map (·.key)))

def applyScaleIn (pages : Nat) (pool : List PoolEntry) (victim : String) : CommandE ScaleError Unit := do
  match pool.find? (·.entry.nodeId = victim) with
  | none => throw (.victimVanished victim)
  | some target =>
    match ← ask (.rebalance [victim]) with
    | .error stop => throw (.rebalance stop)
    | .ok () =>
      orphanGate victim (.stillHosts victim)
      let _ ← ask (.waitForVictimDrained victim)
      -- a deploy may have placed services there while the agent drained
      orphanGate victim (.reappeared victim)
      run (teardownNode pages target.entry)

/-! ## `node destroy` -/

structure ScheduledService where
  project : String
  service : String
  hasVolume : Bool
  deriving DecidableEq, Repr

/-- A document that cannot be read counts as a service with a volume. -/
def scheduledServicesFromDesired (raw : DesiredRaw) : List ScheduledService :=
  match parseDesiredState raw with
  | some state => state.services.map fun s => ⟨s.project, s.service, decide (s.volumes ≠ [])⟩
  | none => [⟨"(unknown)", "(unparseable desired.json)", true⟩]

structure DestroyTarget where
  name : String
  node : NodeRegistryEntry
  services : List ScheduledService
  /-- An entry lies in its node's directory. -/
  named : node.nodeId = name

inductive DestroyError where
  | s3 (e : S3Error)
  /-- "registry entry is malformed". -/
  | malformedEntry (name : String)
  /-- `--evacuate` without a project to move. -/
  | noConfig
  | rebalance (message : String)
  | volumes (risks : List (String × List ScheduledService))
  | orphans (risks : List (String × List ScheduledService))
  | aborted
  deriving DecidableEq, Repr

structure DestroyOptions where
  yes : Bool := false
  force : Bool := false
  deleteData : Bool := false
  evacuate : Bool := false
  /-- The project that `--evacuate` moves, and its services without volumes. -/
  project : Option (String × List String) := none

def listScheduledServices (name : String) : CommandE DestroyError (List ScheduledService) := do
  match ← ask (.desired (.getJson name)) with
  | .error e => throw (.s3 e)
  | .ok none => pure []
  | .ok (some obj) => pure (scheduledServicesFromDesired obj.raw)

/-- A name with its registry entry, or without one. -/
def loadDestroyTarget (name : String) : CommandE DestroyError (Option DestroyTarget) := do
  match ← ask (.getRegistry name) with
  | .error e => throw (.s3 e)
  | .ok none => pure none
  | .ok (some (.other _)) => throw (.malformedEntry name)
  | .ok (some (.json e)) =>
    if nodeRegistryEntrySchema e.1 then do
      let services ← listScheduledServices name
      pure (some ⟨name, e.1, services, e.2⟩)
    else throw (.malformedEntry name)

/-- Every name, in turn: the nodes there are, and the names without one. -/
def loadTargets : List String → CommandE DestroyError (List DestroyTarget × List String)
  | [] => pure ([], [])
  | name :: names => do
    let target ← loadDestroyTarget name
    let (active, gone) ← loadTargets names
    match target with
    | some t => pure (t :: active, gone)
    | none => pure (active, name :: gone)

def volumeBearingTargets (targets : List DestroyTarget) : List (String × List ScheduledService) :=
  (targets.map fun t => (t.name, t.services.filter (·.hasVolume))).filter (·.2 ≠ [])

def nodesThatWouldOrphan (targets : List DestroyTarget) : List (String × List ScheduledService) :=
  (targets.filter (·.services ≠ [])).map fun t => (t.name, t.services)

/-- The nodes that host a service the project may move. -/
def drainableNodes (targets : List DestroyTarget) (project : String) (movable : List String) : List String :=
  (targets.filter fun t => t.services.any fun s => s.project = project ∧ s.service ∈ movable).map (·.name)

/-- Each target's services, read again. -/
def reread : List DestroyTarget → CommandE DestroyError (List DestroyTarget)
  | [] => pure []
  | t :: ts => do
    let services ← listScheduledServices t.name
    let ts ← reread ts
    pure ({ t with services := services } :: ts)

/-- The targets, with what the evacuation left on them. -/
def autoEvacuate (active : List DestroyTarget) (opts : DestroyOptions) : CommandE DestroyError (List DestroyTarget) := do
  match opts.project with
  | none => throw .noConfig
  | some (project, movable) =>
    if drainableNodes active project movable = [] then pure active
    else
      match ← ask (.rebalance (drainableNodes active project movable)) with
      | .error (.failed message) => throw (.rebalance message)
      | .error (.blocked _) => reread active
      | .ok () => reread active

/-- The data-loss gate, then the orphan gate. -/
def destroyGates (active : List DestroyTarget) (opts : DestroyOptions) : Except DestroyError Unit :=
  if volumeBearingTargets active ≠ [] ∧ opts.deleteData = false then .error (.volumes (volumeBearingTargets active))
  else if nodesThatWouldOrphan active ≠ [] ∧ opts.force = false then .error (.orphans (nodesThatWouldOrphan active))
  else .ok ()

def confirmed (opts : DestroyOptions) : CommandE DestroyError Unit :=
  if opts.yes then pure ()
  else do
    match ← ask .confirm with
    | true => pure ()
    | false => throw .aborted

/-- `sweepOrphanNodePrefix`. -/
def sweepOrphanNodePrefix (pages : Nat) (name : String) : Command Unit := tryDestroyStep (deletePrefix name pages)

def sweepAll (pages : Nat) (gone : List String) : CommandE DestroyError Unit :=
  gone.forM fun name => run (sweepOrphanNodePrefix pages name)

/-- The nodes of a destroy are torn down one after another. -/
def destroyAll (pages : Nat) (active : List DestroyTarget) (gone : List String) : CommandE DestroyError Unit := do
  active.forM fun t => run (teardownNode pages t.node)
  sweepAll pages gone

/-- `--evacuate`, when something would be orphaned. -/
def evacuated (active : List DestroyTarget) (opts : DestroyOptions) : CommandE DestroyError (List DestroyTarget) :=
  if nodesThatWouldOrphan active ≠ [] ∧ opts.evacuate = true then autoEvacuate active opts else pure active

def runDestroy (pages : Nat) (names : List String) (opts : DestroyOptions) : CommandE DestroyError Unit := do
  let (active, gone) ← loadTargets names
  if active = [] then sweepAll pages gone
  else do
    let active ← evacuated active opts
    match destroyGates active opts with
    | .error e => throw e
    | .ok () => do
      confirmed opts
      destroyAll pages active gone

/-! ## What a removal has read -/

/-- One of the two commands that take a node away; the destroy is unforced. -/
inductive Removal where
  | scaleIn (pages : Nat) (pool : List PoolEntry) (victim : String)
  | destroy (pages : Nat) (names : List String) (opts : DestroyOptions) (unforced : opts.force = false)

def Removal.command : Removal → Command Unit
  | .scaleIn pages pool victim => do
    let _ ← (applyScaleIn pages pool victim).run
    .ret ()
  | .destroy pages names opts _ => do
    let _ ← (runDestroy pages names opts).run
    .ret ()

/-- A read of the node's document. -/
abbrev gateOf (nodeId : String) : Op := .desired (.getJson nodeId)

abbrev Answer := Except S3Error (Option (S3Json DesiredRaw))

/-- The answer names no service. -/
def NamesNone : Answer → Prop
  | .ok none => True
  | .ok (some obj) => ∃ state, parseDesiredState obj.raw = some state ∧ state.services = []
  | .error _ => False

/-- Neither a read of the node's document nor a write of a document. -/
def Sparing (nodeId : String) : Op → Prop
  | .desired (.getJson key) => key ≠ nodeId
  | .desired .nowIso => True
  | .desired _ => False
  | _ => True

abbrev Own := List (Event Resp)

/-- The last read of the node's document named no service. -/
def Gated (nodeId : String) (own : Own) : Prop :=
  ∃ before answer after, own = before ++ ⟨gateOf nodeId, answer⟩ :: after ∧ NamesNone answer ∧
    ∀ ev ∈ after, Sparing nodeId ev.op

def Unread (nodeId : String) (own : Own) : Prop := ∀ ev ∈ own, ev.op ≠ gateOf nodeId

/-- The node had no registry entry, and its document was not read. -/
def Swept (nodeId : String) (own : Own) : Prop :=
  Unread nodeId own ∧ (⟨.getRegistry nodeId, .ok none⟩ : Event Resp) ∈ own

def Deletable (nodeId : String) (own : Own) : Prop := Gated nodeId own ∨ Swept nodeId own

/-- Objects are only deleted of a node that is deletable; documents are not written. -/
def Tears : Op → Own → Prop
  | .deleteObjects nodeId _, own => Deletable nodeId own
  | .desired (.putJson _ _ _), _ => False
  | .desired (.deleteObject _ _), _ => False
  | _, _ => True

variable {nodeId : String} {own : Own} {o : Op}

theorem Sparing.ne (h : Sparing nodeId o) : o ≠ gateOf nodeId := by
  intro he
  subst he
  exact h rfl

theorem Gated.snoc (h : Gated nodeId own) (ho : Sparing nodeId o) (r : Resp o) : Gated nodeId (own ++ [⟨o, r⟩]) := by
  obtain ⟨before, answer, after, rfl, hans, hafter⟩ := h
  refine ⟨before, answer, after ++ [⟨o, r⟩], by simp, hans, fun ev hev => ?_⟩
  rcases List.mem_append.mp hev with hev | hev
  · exact hafter ev hev
  · rw [List.mem_singleton.mp hev]
    exact ho

theorem Gated.ofRead {answer : Answer} (h : NamesNone answer) : Gated nodeId (own ++ [⟨gateOf nodeId, answer⟩]) :=
  ⟨own, answer, [], rfl, h, fun ev hev => by cases hev⟩

theorem Unread.snoc (h : Unread nodeId own) (ho : o ≠ gateOf nodeId) (r : Resp o) :
    Unread nodeId (own ++ [⟨o, r⟩]) := by
  intro ev hev
  rcases List.mem_append.mp hev with hev | hev
  · exact h ev hev
  · rw [List.mem_singleton.mp hev]
    exact ho

theorem Swept.snoc (h : Swept nodeId own) (ho : o ≠ gateOf nodeId) (r : Resp o) : Swept nodeId (own ++ [⟨o, r⟩]) :=
  ⟨h.1.snoc ho r, List.mem_append_left _ h.2⟩

theorem Deletable.snoc (h : Deletable nodeId own) (ho : Sparing nodeId o) (r : Resp o) :
    Deletable nodeId (own ++ [⟨o, r⟩]) :=
  h.imp (·.snoc ho r) (·.snoc ho.ne r)

/-! ## A teardown deletes what was deletable -/

/-- The commands of a teardown of that node. -/
def Taking (nodeId : String) : Op → Prop
  | .deleteObjects id _ | .listPrefix id => id = nodeId
  | .putRegistry node => node.nodeId = nodeId ∧ node.state = .terminating
  | .cluster (.getJson _) | .remote _ => True
  | .cluster (.putJson _ _ options) => options = {}
  | _ => False

theorem Taking.sparing {id : String} (h : Taking id o) (nodeId : String) : Sparing nodeId o := by
  cases o with
  | desired o => exact h.elim
  | _ => trivial

theorem tryDestroyStep_uses {ε : Type} {P : Op → Prop} {step : Command (Except ε Unit)} (h : Uses P step) :
    Uses P (tryDestroyStep step) := h.bind fun _ => trivial

theorem deleteKeys_uses (nodeId : String) (keys : List NodeObject) :
    Uses (Taking nodeId) (deleteKeys nodeId keys) := by
  unfold deleteKeys
  split
  · trivial
  · exact ⟨rfl, fun _ => trivial⟩

theorem deletePrefix_uses (nodeId : String) (pages : Nat) : Uses (Taking nodeId) (deletePrefix nodeId pages) := by
  induction pages with
  | zero => trivial
  | succ pages ih =>
    simp only [deletePrefix, Prog.cmd_bind]
    refine ⟨rfl, fun r => ?_⟩
    match r with
    | .error e => trivial
    | .ok (keys, more) =>
      refine Uses.bind (deleteKeys_uses nodeId keys) fun deleted => ?_
      match deleted with
      | .error e => trivial
      | .ok () =>
        show Uses _ (if more = true then deletePrefix nodeId pages else .ret (.ok ()))
        split
        · exact ih
        · trivial

theorem clearDefaultEdge_uses (nodeId : String) (node : NodeRegistryEntry) :
    Uses (Taking nodeId) (clearDefaultEdge node) := by
  simp only [clearDefaultEdge, Prog.cmd_bind]
  refine ⟨trivial, fun r => ?_⟩
  match r with
  | .error e => trivial
  | .ok none => trivial
  | .ok (some obj) =>
    dsimp only
    split
    · trivial
    · split
      · exact ⟨rfl, fun _ => trivial⟩
      · trivial

theorem remote_uses (nodeId : String) (call : RemoteCall) : Uses (Taking nodeId) (remote call) :=
  ⟨trivial, fun _ => trivial⟩

theorem remoteIf_uses (nodeId : String) (id : Option String) (call : String → RemoteCall) :
    Uses (Taking nodeId) (remoteIf id call) := by
  cases id with
  | none => trivial
  | some id => exact remote_uses ..

theorem releaseIam_uses (node : NodeRegistryEntry) : Uses (Taking node.nodeId) (releaseIam node) := by
  unfold releaseIam
  cases node.provisioning with
  | external => exact Uses.bind (p := cordon node) ⟨⟨rfl, rfl⟩, fun _ => trivial⟩ fun _ => remote_uses ..
  | ec2 => exact remote_uses ..

theorem releaseNode_uses (node : NodeRegistryEntry) : Uses (Taking node.nodeId) (releaseNode node) := by
  unfold releaseNode
  refine (remoteIf_uses ..).bind fun _ => ?_
  refine (remoteIf_uses ..).bind fun _ => ?_
  exact (remoteIf_uses ..).bind fun _ => releaseIam_uses ..

theorem teardownNode_uses (pages : Nat) (node : NodeRegistryEntry) :
    Uses (Taking node.nodeId) (teardownNode pages node) := by
  unfold teardownNode
  refine (releaseNode_uses ..).bind fun _ => Uses.bind ?_ fun _ => tryDestroyStep_uses (deletePrefix_uses ..)
  unfold forgetDefaultEdge
  split
  · trivial
  · exact tryDestroyStep_uses (clearDefaultEdge_uses ..)

/-- Everything in the list is deletable, and stays so under commands that spare it. -/
def AllDeletable (ids : List String) (own : Own) : Prop := ∀ id ∈ ids, Deletable id own

/-- The machine that watches one removal. -/
abbrev watched : Machine Resp Own := tracker note

theorem sat_ofTaking {α : Type} {ids : List String} {id : String} (hid : id ∈ ids) {p : Command α} (hp : Uses (Taking id) p)
    (h : AllDeletable ids own) : Sat watched Tears (fun _ => AllDeletable ids) p own := by
  apply Sat.ofUses (tracker_stable _) _ _ hp h
  · intro o ho own r own' hall hsem
    rw [show own' = own ++ [⟨o, r⟩] from hsem]
    exact fun id' hid' => (hall id' hid').snoc (ho.sparing id') r
  · intro o own ho hall
    cases o with
    | deleteObjects id' keys =>
      obtain rfl : id' = id := ho
      exact hall id' hid
    | desired o => exact ho.elim
    | _ => trivial

theorem sat_run {ε α : Type} {Q : α → Own → Prop} {p : Command α} (h : Sat watched Tears Q p own) :
    Sat watched Tears (onResult Q fun (_ : ε) _ => True) (run p).run own :=
  h.bind fun _ _ hq => Sat.watchRet hq

/-- An error is nothing to show. -/
theorem sat_throw {ε α : Type} {Q : α → Own → Prop} (e : ε) :
    Sat watched Tears (onResult Q fun (_ : ε) _ => True) (throw e : CommandE ε α).run own := Sat.watchRet trivial

theorem sat_pure {ε α : Type} {Q : α → Own → Prop} {a : α} (h : Q a own) :
    Sat watched Tears (onResult Q fun (_ : ε) _ => True) (pure a : CommandE ε α).run own := Sat.watchRet h

/-! ## Scale-in reads before it tears down -/

theorem hostedServices_sat (nodeId : String) (own : Own) :
    Sat watched Tears (onResult (fun services own' => services = [] → Gated nodeId own') fun _ _ => True)
      (hostedServices nodeId).run own := by
  unfold hostedServices
  rw [ask_bind]
  refine Sat.watch trivial fun r => ?_
  match r with
  | .error e => exact sat_throw _
  | .ok none => exact sat_pure fun _ => Gated.ofRead trivial
  | .ok (some obj) =>
    show Sat _ _ _ (match parseDesiredState obj.raw with | none => _ | some state => _ : CommandE _ _).run _
    split
    · exact sat_throw _
    · rename_i state hparse
      exact sat_pure fun hnone => Gated.ofRead ⟨state, hparse, hnone⟩

theorem orphanGate_sat (nodeId : String) (refuse : List String → ScaleError) (own : Own) :
    Sat watched Tears (onResult (fun _ => Gated nodeId) fun _ _ => True) (orphanGate nodeId refuse).run own := by
  unfold orphanGate
  refine Sat.bindE (hostedServices_sat nodeId own) (fun _ => tracker_stable _) fun services own' h => ?_
  split
  · rename_i hnone
    exact sat_pure (h hnone)
  · exact sat_throw _

theorem applyScaleIn_sat (pages : Nat) (pool : List PoolEntry) (victim : String) (own : Own) :
    Sat watched Tears (onResult (fun _ _ => True) fun _ _ => True) (applyScaleIn pages pool victim).run own := by
  unfold applyScaleIn
  split
  · exact sat_throw _
  · rename_i target hfind
    have hname : target.entry.nodeId = victim := by simpa using List.find?_some hfind
    rw [ask_bind]
    refine Sat.watch trivial fun r => ?_
    match r with
    | .error stop => exact sat_throw _
    | .ok () =>
      refine Sat.bindE (orphanGate_sat victim _ _) (fun _ => tracker_stable _) fun _ own₁ _ => ?_
      rw [ask_bind]
      refine Sat.watch trivial fun _ => ?_
      refine Sat.bindE (orphanGate_sat victim _ _) (fun _ => tracker_stable _) fun _ own₂ hgated => ?_
      have hall : AllDeletable [victim] own₂ := by
        intro id hid
        rw [List.mem_singleton.mp hid]
        exact .inl hgated
      have huses := teardownNode_uses pages target.entry
      rw [hname] at huses
      exact (sat_run (sat_ofTaking (List.mem_singleton_self victim) huses hall)).mono (fun _ _ h => h) fun r _ _ => by
        cases r <;> trivial

/-! ## A destroy reads before it tears down -/

/-- What the targets that were loaded say of the documents read: a target is seen to host
    something, or the last read of each one's document named nothing. -/
structure Loaded (names : List String) (targets : List DestroyTarget) (gone : List String) (own : Own) : Prop where
  gated : (∃ t ∈ targets, t.services ≠ []) ∨ ∀ t ∈ targets, Gated t.name own
  swept : ∀ id ∈ gone, Swept id own ∨ id ∈ names
  unread : ∀ id, Unread id own ∨ id ∈ names

section Loaded

variable {names gone : List String} {targets : List DestroyTarget} {t : DestroyTarget} {id : String}

theorem Loaded.nil : Loaded [] [] [] [] where
  gated := .inr fun t ht => by cases ht
  swept id hid := by cases hid
  unread id := .inl fun ev hev => by cases hev

/-- A command that is no read of a document. -/
theorem Loaded.snoc (h : Loaded names targets gone own) (ho : ∀ id, Sparing id o) (r : Resp o) :
    Loaded names targets gone (own ++ [⟨o, r⟩]) where
  gated := h.gated.imp_right fun hall t ht => (hall t ht).snoc (ho _) r
  swept id hid := (h.swept id hid).imp_left (·.snoc (ho id).ne r)
  unread id := (h.unread id).imp_left (·.snoc (ho id).ne r)

theorem Loaded.snocRegistry (h : Loaded names targets gone own) (id : String) (r : Resp (.getRegistry id)) :
    Loaded names targets gone (own ++ [⟨.getRegistry id, r⟩]) := by
  have ho : ∀ id', Sparing id' (.getRegistry id) := fun _ => trivial
  exact h.snoc ho r

/-- A name that turns out to have no registry entry. -/
theorem Loaded.missing (h : Loaded names targets gone own) (id : String) :
    Loaded names targets (gone ++ [id]) (own ++ [⟨.getRegistry id, .ok none⟩]) where
  gated := (h.snocRegistry id _).gated
  swept id' hid' := by
    have h' := h.snocRegistry id (.ok none)
    rcases List.mem_append.mp hid' with hid' | hid'
    · exact h'.swept id' hid'
    · rw [List.mem_singleton.mp hid']
      exact (h'.unread id).imp_left fun hu => ⟨hu, List.mem_append_right _ (List.mem_singleton_self _)⟩
  unread := (h.snocRegistry id _).unread

/-- A read of a target's document. -/
theorem Loaded.read (h : Loaded names targets gone own) {answer : Answer} (hname : t.name ∈ names)
    (hans : t.services = [] → NamesNone answer) :
    Loaded names (targets ++ [t]) gone (own ++ [⟨gateOf t.name, answer⟩]) where
  gated := by
    by_cases hnone : t.services = []
    · refine h.gated.imp ?_ ?_
      · rintro ⟨t', ht', hne⟩
        exact ⟨t', List.mem_append_left _ ht', hne⟩
      · intro hall t' ht'
        by_cases he : t'.name = t.name
        · rw [he]
          exact Gated.ofRead (hans hnone)
        · rcases List.mem_append.mp ht' with ht' | ht'
          · have hspare : Sparing t'.name (gateOf t.name) := Ne.symm he
            exact (hall t' ht').snoc hspare _
          · exact absurd (congrArg (·.name) (List.mem_singleton.mp ht')) he
    · exact .inl ⟨t, List.mem_append_right _ (List.mem_singleton_self t), hnone⟩
  swept id hid := by
    by_cases he : id = t.name
    · exact .inr (he ▸ hname)
    · refine (h.swept id hid).imp_left (·.snoc ?_ _)
      intro heq
      cases heq
      exact he rfl
  unread id := by
    by_cases he : id = t.name
    · exact .inr (he ▸ hname)
    · refine (h.unread id).imp_left (·.snoc ?_ _)
      intro heq
      cases heq
      exact he rfl

theorem Loaded.widen (h : Loaded names targets gone own) {names' : List String} (hsub : ∀ id ∈ names, id ∈ names') :
    Loaded names' targets gone own where
  gated := h.gated
  swept id hid := (h.swept id hid).imp_right (hsub id)
  unread id := (h.unread id).imp_right (hsub id)

/-- Before the targets are read again. -/
theorem Loaded.fresh (h : Loaded names targets gone own) : Loaded names [] gone own where
  gated := .inr fun t ht => by cases ht
  swept := h.swept
  unread := h.unread

/-- Behind the orphan gate all are deletable. -/
theorem Loaded.deletable (h : Loaded (targets.map (·.name)) targets gone own) (hnone : ∀ t ∈ targets, t.services = []) :
    AllDeletable (targets.map (·.name) ++ gone) own := by
  have hgated : ∀ t ∈ targets, Gated t.name own := by
    rcases h.gated with ⟨t, ht, hne⟩ | hall
    · exact absurd (hnone t ht) hne
    · exact hall
  have hnames : ∀ id ∈ targets.map (·.name), Deletable id own := by
    intro id hid
    obtain ⟨t, ht, rfl⟩ := List.mem_map.mp hid
    exact .inl (hgated t ht)
  intro id hid
  rcases List.mem_append.mp hid with hid | hid
  · exact hnames id hid
  · rcases h.swept id hid with hs | hid
    · exact .inr hs
    · exact hnames id hid

end Loaded

theorem scheduledServicesFromDesired_none {raw : DesiredRaw} (h : scheduledServicesFromDesired raw = []) :
    ∃ state, parseDesiredState raw = some state ∧ state.services = [] := by
  unfold scheduledServicesFromDesired at h
  split at h
  · rename_i state hparse
    exact ⟨state, hparse, List.map_eq_nil_iff.mp h⟩
  · cases h

theorem listScheduledServices_sat (name : String) (own : Own) :
    Sat watched Tears (onResult (fun services own' => ∃ answer : Answer, own' = own ++ [⟨gateOf name, answer⟩] ∧
      (services = [] → NamesNone answer)) fun _ _ => True) (listScheduledServices name).run own := by
  unfold listScheduledServices
  rw [ask_bind]
  refine Sat.watch trivial fun r => ?_
  match r with
  | .error e => exact sat_throw _
  | .ok none => exact sat_pure ⟨_, rfl, fun _ => trivial⟩
  | .ok (some obj) => exact sat_pure ⟨_, rfl, scheduledServicesFromDesired_none⟩

theorem loadDestroyTarget_sat {names gone : List String} {targets : List DestroyTarget} (name : String)
    (h : Loaded names targets gone own) :
    Sat watched Tears (onResult (fun target own' =>
        (∃ t, target = some t ∧ t.name = name ∧ Loaded (names ++ [name]) (targets ++ [t]) gone own') ∨
          (target = none ∧ Loaded names targets (gone ++ [name]) own')) fun _ _ => True)
      (loadDestroyTarget name).run own := by
  unfold loadDestroyTarget
  rw [ask_bind]
  refine Sat.watch trivial fun r => ?_
  match r with
  | .error e => exact sat_throw _
  | .ok none => exact sat_pure (.inr ⟨rfl, h.missing name⟩)
  | .ok (some (.other _)) => exact sat_throw _
  | .ok (some (.json e)) =>
    show Sat _ _ _ (if nodeRegistryEntrySchema e.1 = true then _ else _ : CommandE _ _).run _
    split
    · refine Sat.bindE (listScheduledServices_sat name _) (fun _ => tracker_stable _) ?_
      rintro services own' ⟨answer, rfl, hans⟩
      have hread : Loaded (names ++ [name]) targets gone _ :=
        (h.snocRegistry name (.ok (some (.json e)))).widen fun id hid => List.mem_append_left _ hid
      have hname : name ∈ names ++ [name] := List.mem_append_right _ (List.mem_singleton_self name)
      exact sat_pure (.inl ⟨⟨name, e.1, services, e.2⟩, rfl, rfl, hread.read hname hans⟩)
    · exact sat_throw _

theorem loadTargets_sat (names : List String) : ∀ {gone : List String} {targets : List DestroyTarget} {own : Own},
    Loaded (targets.map (·.name)) targets gone own →
    Sat watched Tears (onResult (fun loaded own' =>
      Loaded ((targets ++ loaded.1).map (·.name)) (targets ++ loaded.1) (gone ++ loaded.2) own') fun _ _ => True)
      (loadTargets names).run own := by
  induction names with
  | nil =>
    intro gone targets own h
    exact sat_pure (by simpa using h)
  | cons name names ih =>
    intro gone targets own h
    unfold loadTargets
    refine Sat.bindE (loadDestroyTarget_sat name h) (fun _ => tracker_stable _) ?_
    rintro target own₁ (⟨t, rfl, hname, hloaded⟩ | ⟨rfl, hloaded⟩)
    · have h₁ : Loaded ((targets ++ [t]).map (·.name)) (targets ++ [t]) gone own₁ := by simpa [hname] using hloaded
      refine Sat.bindE (ih h₁) (fun _ => tracker_stable _) fun loaded own₂ h₂ => ?_
      exact sat_pure (by simpa using h₂)
    · refine Sat.bindE (ih hloaded) (fun _ => tracker_stable _) fun loaded own₂ h₂ => ?_
      exact sat_pure (by simpa using h₂)

theorem reread_sat {names gone : List String} (ts : List DestroyTarget) : ∀ {done : List DestroyTarget} {own : Own},
    (∀ t ∈ ts, t.name ∈ names) → Loaded names done gone own →
    Sat watched Tears (onResult (fun ts' own' =>
      ts'.map (·.name) = ts.map (·.name) ∧ Loaded names (done ++ ts') gone own') fun _ _ => True) (reread ts).run own := by
  induction ts with
  | nil =>
    intro done own _ h
    exact sat_pure (by simpa using h)
  | cons t ts ih =>
    intro done own hnames h
    unfold reread
    refine Sat.bindE (listScheduledServices_sat t.name own) (fun _ => tracker_stable _) ?_
    rintro services own₁ ⟨answer, rfl, hans⟩
    have hread : Loaded names (done ++ [{ t with services := services }]) gone _ :=
      h.read (t := { t with services := services }) (hnames t (List.mem_cons_self ..)) hans
    refine Sat.bindE (ih (fun t' ht' => hnames t' (List.mem_cons_of_mem _ ht')) hread) (fun _ => tracker_stable _) ?_
    rintro ts' own₂ ⟨hmap, h₂⟩
    exact sat_pure ⟨by simp [hmap], by simpa using h₂⟩

theorem autoEvacuate_sat {gone : List String} {active : List DestroyTarget} (opts : DestroyOptions)
    (h : Loaded (active.map (·.name)) active gone own) :
    Sat watched Tears (onResult (fun active' own' =>
      active'.map (·.name) = active.map (·.name) ∧ Loaded (active.map (·.name)) active' gone own') fun _ _ => True)
      (autoEvacuate active opts).run own := by
  unfold autoEvacuate
  split
  · exact sat_throw _
  · rename_i project movable _
    split
    · exact sat_pure ⟨rfl, h⟩
    · rw [ask_bind]
      refine Sat.watch trivial fun r => ?_
      have hfresh : Loaded (active.map (·.name)) [] gone
          (note own (.rebalance (drainableNodes active project movable)) r) :=
        h.fresh.snoc (o := .rebalance _) (fun _ => trivial) r
      have hreread := reread_sat active (fun t ht => List.mem_map_of_mem ht) hfresh
      match r with
      | .error (.failed message) => exact sat_throw _
      | .error (.blocked _) => exact hreread
      | .ok () => exact hreread

/-- Behind the gates of an unforced destroy no target hosts anything. -/
theorem destroyGates_ok {active : List DestroyTarget} {opts : DestroyOptions} (hforce : opts.force = false)
    (h : destroyGates active opts = .ok ()) : ∀ t ∈ active, t.services = [] := by
  unfold destroyGates at h
  split at h
  · cases h
  · split at h
    · cases h
    · rename_i horphans
      intro t ht
      by_contra hne
      refine horphans ⟨?_, hforce⟩
      have hmem : (t.name, t.services) ∈ nodesThatWouldOrphan active :=
        List.mem_map.mpr ⟨t, List.mem_filter.mpr ⟨ht, by simpa using hne⟩, rfl⟩
      exact List.ne_nil_of_mem hmem

theorem evacuated_sat {gone : List String} {active : List DestroyTarget} (opts : DestroyOptions)
    (h : Loaded (active.map (·.name)) active gone own) :
    Sat watched Tears (onResult (fun active' own' =>
      active'.map (·.name) = active.map (·.name) ∧ Loaded (active.map (·.name)) active' gone own') fun _ _ => True)
      (evacuated active opts).run own := by
  unfold evacuated
  split
  · exact autoEvacuate_sat opts h
  · exact sat_pure ⟨rfl, h⟩

theorem confirmed_sat {ids : List String} (opts : DestroyOptions) (h : AllDeletable ids own) :
    Sat watched Tears (onResult (fun _ => AllDeletable ids) fun _ _ => True) (confirmed opts).run own := by
  unfold confirmed
  split
  · exact sat_pure h
  · rw [ask_bind]
    refine Sat.watch trivial fun r => ?_
    match r with
    | true => exact sat_pure fun id hid => (h id hid).snoc (o := .confirm) trivial _
    | false => exact sat_throw _

theorem sweepAll_sat (pages : Nat) {gone ids : List String} (hsub : ∀ id ∈ gone, id ∈ ids) (h : AllDeletable ids own) :
    Sat watched Tears (onResult (fun _ => AllDeletable ids) fun (_ : DestroyError) _ => True)
      (sweepAll pages gone).run own := by
  refine Sat.forM (tracker_stable _) (fun _ => tracker_stable _) gone _ ?_ h
  intro name hname own' hall
  exact sat_run (sat_ofTaking (hsub name hname) (tryDestroyStep_uses (deletePrefix_uses ..)) hall)

theorem destroyAll_sat (pages : Nat) {active : List DestroyTarget} {gone : List String}
    (h : AllDeletable (active.map (·.name) ++ gone) own) :
    Sat watched Tears (onResult (fun _ _ => True) fun _ _ => True) (destroyAll pages active gone).run own := by
  unfold destroyAll
  refine Sat.bindE (R := fun _ => AllDeletable (active.map (·.name) ++ gone)) (E := fun _ _ => True) ?_
    (fun _ => tracker_stable _) fun _ own' h' => ?_
  · refine Sat.forM (tracker_stable _) (fun _ => tracker_stable _) active _ ?_ h
    intro t ht own' hall
    have huses := teardownNode_uses pages t.node
    rw [t.named] at huses
    exact sat_run (sat_ofTaking (List.mem_append_left _ (List.mem_map_of_mem ht)) huses hall)
  · refine (sweepAll_sat pages (fun id hid => List.mem_append_right _ hid) h').mono (fun _ _ h => h) ?_
    intro r _ _
    cases r <;> trivial

theorem runDestroy_sat (pages : Nat) (names : List String) {opts : DestroyOptions} (hforce : opts.force = false) :
    Sat watched Tears (onResult (fun _ _ => True) fun _ _ => True) (runDestroy pages names opts).run [] := by
  unfold runDestroy
  have hnil : Loaded (([] : List DestroyTarget).map (·.name)) [] [] [] := Loaded.nil
  refine Sat.bindE (loadTargets_sat names hnil) (fun _ => tracker_stable _) ?_
  rintro ⟨active, gone⟩ own hloaded
  simp only [List.nil_append] at hloaded
  show Sat _ _ _ (if active = [] then _ else _ : CommandE _ _).run _
  split
  · rename_i hactive
    subst hactive
    have hall := hloaded.deletable fun t ht => by cases ht
    refine (sweepAll_sat pages (fun id hid => hid) hall).mono (fun _ _ h => h) ?_
    intro r _ _
    cases r <;> trivial
  · refine Sat.bindE (evacuated_sat opts hloaded) (fun _ => tracker_stable _) ?_
    rintro active' own₁ ⟨hmap, hloaded'⟩
    rw [← hmap] at hloaded'
    split
    · exact sat_throw _
    · rename_i hgates
      have hall := hloaded'.deletable (destroyGates_ok hforce hgates)
      refine Sat.bindE (confirmed_sat opts hall) (fun _ => tracker_stable _) fun _ own₂ hall' => ?_
      exact destroyAll_sat pages hall'

/-- Whatever is answered, objects are only deleted of a node that was gated or is swept. -/
theorem deletes_gated (removal : Removal) : Sat watched Tears (fun _ _ => True) removal.command [] := by
  cases removal with
  | scaleIn pages pool victim => exact (applyScaleIn_sat pages pool victim []).bind fun _ _ _ => Sat.watchRet trivial
  | destroy pages names opts unforced => exact (runDestroy_sat pages names unforced).bind fun _ _ _ => Sat.watchRet trivial

/-! ## Amid any other clients -/

section Run

variable {ι : Type} {E : Etags}

/-- The node's document is absent, or names no service. -/
def NoService (nodeId : String) (j : DesiredBucket ι) : Prop :=
  ∀ c, Journal.current nodeId j = some c → ∃ raw state, c.2 = .parsed raw ∧ parseDesiredState raw = some state ∧
    state.services = []

theorem NoService.ofRead {j : DesiredBucket ι} {answer : Answer} (h : answer = getJson E nodeId j)
    (hans : NamesNone answer) : NoService nodeId j := by
  intro c hc
  obtain ⟨v, body⟩ := c
  subst h
  unfold getJson at hans
  rw [hc] at hans
  cases body with
  | garbled text => exact hans.elim
  | parsed raw =>
    obtain ⟨state, hparse, hnone⟩ := hans
    exact ⟨raw, state, rfl, hparse, hnone⟩

/-- A deletion leaves no service. -/
theorem NoService.erased {j : DesiredBucket ι} (h : NoService nodeId j) (writer : Option ι) (key : String) :
    NoService nodeId (⟨writer, key, none⟩ :: j) := by
  intro c hc
  rw [Journal.current] at hc
  split at hc
  · cases hc
  · exact h c hc

theorem NoService.elsewhere {j : DesiredBucket ι} (h : NoService nodeId j) {w : Write (Option ι) String (Body DesiredRaw)}
    (hw : w.key ≠ nodeId) : NoService nodeId (w :: j) := by
  intro c hc
  rw [Journal.current_cons_ne hw] at hc
  exact h c hc

/-- What is not an accepted write of the document leaves it without services. -/
theorem NoService.keeps {e : Entry ι Resp}
    (hacc : ∀ i value options etag, e ≠ ⟨i, .desired (.putJson nodeId value options), .ok etag⟩) {w w' : World ι}
    (h : sem E e.who e.op w e.resp w') (hnone : NoService nodeId w.desired) : NoService nodeId w'.desired := by
  obtain ⟨i, o, r⟩ := e
  have hp := h.2.1
  cases o with
  | desired o =>
    cases o with
    | getJson key => rw [show w'.desired = w.desired from hp.2]; exact hnone
    | nowIso => rw [show w'.desired = w.desired from hp]; exact hnone
    | putJson key value options =>
      rcases s3Sem_put hp with ⟨_, hok, he⟩ | ⟨_, _, he⟩
      · rw [he]
        refine hnone.elsewhere fun hkey => ?_
        change key = nodeId at hkey
        change r = _ at hok
        subst hkey hok
        exact hacc i value options _ rfl
      · rw [he]; exact hnone
    | deleteObject key ifMatch =>
      rcases s3Sem_delete hp with ⟨_, _, he⟩ | ⟨_, _, he⟩
      · rw [he]; exact hnone.erased _ _
      · rw [he]; exact hnone
  | deleteObjects id keys =>
    rcases hp with he | ⟨_, he⟩
    · rw [he]; exact hnone
    · rw [he]; exact hnone.erased _ _
  | _ => rw [show w'.desired = w.desired from hp]; exact hnone

/-! ### Times -/

/-- The client deletes objects of the node. -/
def DeletesAt (h : History ι Resp) (d : ι) (nodeId : String) (x : Nat) : Prop :=
  ∃ keys r, h[x]? = some ⟨d, .deleteObjects nodeId keys, r⟩

/-- Its last read of the node's document before then. -/
structure LastGate (h : History ι Resp) (d : ι) (nodeId : String) (g x : Nat) : Prop where
  before : g < x
  read : ∃ answer, h[g]? = some ⟨d, gateOf nodeId, answer⟩ ∧ NamesNone answer
  last : ∀ n e, g < n → n < x → h[n]? = some e → e.who = d → e.op ≠ gateOf nodeId

/-- It had seen no registry entry of the node, and never read the document. -/
structure SweptAt (h : History ι Resp) (d : ι) (nodeId : String) (x : Nat) : Prop where
  unread : ∀ n e, n < x → h[n]? = some e → e.who = d → e.op ≠ gateOf nodeId
  unregistered : ∃ n, n < x ∧ h[n]? = some ⟨d, .getRegistry nodeId, .ok none⟩

/-- A client writes the node's document on its condition; `AcceptedAt`: and it goes through. -/
def IssuedAt (h : History ι Resp) (nodeId : String) (n : Nat) : Prop :=
  ∃ i value options r, h[n]? = some ⟨i, .desired (.putJson nodeId value options), r⟩

def AcceptedAt (h : History ι Resp) (nodeId : String) (n : Nat) : Prop :=
  ∃ i value options etag, h[n]? = some ⟨i, .desired (.putJson nodeId value options), .ok etag⟩

variable (E) in
/-- Nothing that was published is torn down: where the run passed the deletion the
    document named no service, and since the gate's last read no publish returned success. -/
structure Spares [DecidableEq ι] (s t : Commands ι Unit) (nodeId : String) (g x : Nat) : Prop where
  empty : ∀ u, CrewRun (recorded (sem E)) s u → CrewRun (recorded (sem E)) u t → u.world.history.length = x →
    NoService nodeId u.world.store.desired
  unpublished : ∀ n, g < n → ¬ AcceptedAt t.world.history nodeId n

variable [DecidableEq ι] {s t : Commands ι Unit}

/-- Where a gate read no service and nothing was accepted since, there is none. -/
theorem empty_since (h₀ : s.world.history = []) {d : ι} {g : Nat} {answer : Answer} (hans : NamesNone answer)
    (hg : t.world.history[g]? = some ⟨d, gateOf nodeId, answer⟩) (hr : CrewRun (recorded (sem E)) s t)
    (hacc : ∀ n, g < n → ¬ AcceptedAt t.world.history nodeId n) : NoService nodeId t.world.store.desired := by
  obtain ⟨u, v, _, htake, _, hsem, hv, _, hvt⟩ := run_at hr (by rw [h₀]; exact Nat.zero_le g) hg
  have hread : NoService nodeId v.world.store.desired := by
    obtain ⟨hanswer, hsame⟩ := hsem.2.1
    rw [hsame]
    exact NoService.ofRead hanswer hans
  have hlen : v.world.history.length = g + 1 := by
    have hlt := (List.getElem?_eq_some_iff.mp hg).1
    rw [hv, htake, List.length_append, List.length_take, List.length_singleton]
    omega
  refine run_keeps (P := fun w => NoService nodeId w.desired) hvt ?_ hread
  intro n e hn he w w' hsem' hnone
  refine hnone.keeps (fun i value options etag heq => ?_) hsem'
  exact hacc n (by omega) ⟨i, value, options, etag, heq ▸ he⟩

/-- Every deletion follows a gate's last read that named no service, or is a sweep. -/
theorem deletion_gated {d : ι} (removal : Removal) (hd : s.progs d = removal.command) (h₀ : s.world.history = [])
    (hr : CrewRun (recorded (sem E)) s t) {x : Nat} (hx : DeletesAt t.world.history d nodeId x) :
    SweptAt t.world.history d nodeId x ∨ ∃ g, LastGate t.world.history d nodeId g x := by
  have hsat : ∀ i, Sat watched (fun o own => i = d → Tears o own) (fun _ _ => True) (s.progs i) [] := by
    intro i
    by_cases hi : i = d
    · subst hi
      rw [hd]
      exact (deletes_gated removal).mono (fun _ _ h _ => h) fun _ _ h => h
    · exact (Sat.any (s.progs i) []).mono (fun _ _ _ h => absurd h hi) fun _ _ h => h
  obtain ⟨keys, r, hxe⟩ := hx
  rcases run_checked (G := fun i o own => i = d → Tears o own) hsat h₀ hr hxe rfl with
    ⟨before, answer, after, hown, hans, hafter⟩ | ⟨hunread, hswept⟩
  · obtain ⟨g, hgx, hg, hbefore⟩ := mine_split_take hown
    refine .inr ⟨g, hgx, ⟨answer, hg, hans⟩, fun n e hgn hnx hn hi => ?_⟩
    have hl : mine d (t.world.history.take x) = mine d (t.world.history.take (g + 1)) ++ after := by
      have hsucc := mine_succ hg
      simp only at hsucc
      rw [hown, hsucc, hbefore, List.append_assoc]
      rfl
    exact (hafter _ (mine_between hl hgn hnx hn hi)).ne
  · refine .inl ⟨fun n e hnx hn hi => ?_, ?_⟩
    · have hl : mine d (t.world.history.take x) = mine d (t.world.history.take 0) ++ mine d (t.world.history.take x) := rfl
      exact hunread _ (mine_between hl (Nat.zero_le n) hnx hn hi)
    · obtain ⟨l₁, l₂, hl⟩ := List.append_of_mem hswept
      obtain ⟨n, hnx, hn, _⟩ := mine_split_take hl
      exact ⟨n, hnx, hn⟩

/-- Beside any other clients, over every run of a scale-in or an unforced destroy: what it
    deletes of a node it has gated, and nothing published is torn down exactly when no
    write to the node's document is accepted after the gate's last read; so when none is
    issued. -/
theorem teardown_spares_committed {d : ι} (removal : Removal) (hd : s.progs d = removal.command)
    (h₀ : s.world.history = []) (hr : CrewRun (recorded (sem E)) s t) {x : Nat}
    (hx : DeletesAt t.world.history d nodeId x) :
    SweptAt t.world.history d nodeId x ∨ ∃ g, LastGate t.world.history d nodeId g x ∧
      (Spares E s t nodeId g x ↔ ∀ n, g < n → ¬ AcceptedAt t.world.history nodeId n) ∧
      ((∀ n, g < n → ¬ IssuedAt t.world.history nodeId n) → Spares E s t nodeId g x) := by
  rcases deletion_gated removal hd h₀ hr hx with hswept | ⟨g, hgate⟩
  · exact .inl hswept
  obtain ⟨answer, hg, hans⟩ := hgate.read
  have hspares : (∀ n, g < n → ¬ AcceptedAt t.world.history nodeId n) → Spares E s t nodeId g x := by
    intro hacc
    refine ⟨fun u hsu hut hlen => ?_, hacc⟩
    have hgu : u.world.history[g]? = some ⟨d, gateOf nodeId, answer⟩ := by
      rw [← run_history_get hut (by rw [hlen]; exact hgate.before), hg]
    refine empty_since h₀ hans hgu hsu fun n hgn ⟨i, value, options, etag, hn⟩ => ?_
    refine hacc n hgn ⟨i, value, options, etag, ?_⟩
    rw [run_history_get hut (List.getElem?_eq_some_iff.mp hn).1, hn]
  refine .inr ⟨g, hgate, ⟨fun h => h.unpublished, hspares⟩, fun hissued => hspares fun n hgn hacc => ?_⟩
  obtain ⟨i, value, options, etag, hn⟩ := hacc
  exact hissued n hgn ⟨i, value, options, .ok etag, hn⟩

end Run

/-! ### A deploy behind the gate's back -/

/-- A client of one document, among these. -/
def asCommand {α : Type} : Prog DesiredResp α → Command α
  | .ret a => .ret a
  | .act o k => .act (.desired o) fun r => asCommand (k r)

def appNode : NodeRegistryEntry := { smallNode with instanceId := some "i-1" }

def appPool : List PoolEntry :=
  [⟨appNode, { nodeId := "n1", role := .app, state := .ready, cpuPercent := none, memoryPercent := none }⟩]

def dbEntry : ServiceConfig := { webEntry with service := "db", volumes := [⟨"data", "/data"⟩] }

def takeAppNode : Removal := .scaleIn 1 appPool "n1"

def deployDb : Command Unit := do
  let _ ← asCommand (publishDesired "n1" appNode "shop" [dbEntry] false)
  .ret ()

/-- A scale-in of the node (`true`), and a deploy of a database onto it. -/
def beforeScaleIn : Commands Bool Unit where
  progs i := if i then takeAppNode.command else deployDb
  world := { store := { cluster := [], desired := [], registry := [appNode], unique := List.nodup_singleton _ } }

/-- Both gates pass; the deploy publishes; the instance goes, and the directory is listed. -/
def listedSchedule : List Bool := [true, true, true, true, false, false, false, false, true, true, true]

def atDeletion : Commands Bool Unit :=
  Crew.play (recordedServe (serve strokes "t" 0 (fun _ => none) fun _ => 0)) listedSchedule beforeScaleIn

def afterScaleIn : Commands Bool Unit :=
  Crew.play (recordedServe (serve strokes "t" 0 (fun _ => none) fun _ => 0)) [true] atDeletion

theorem atDeletion_run : CrewRun (recorded (sem strokes)) beforeScaleIn atDeletion :=
  play_run (recordedServe_sem (serve_sem strokes "t" 0 (fun _ => none) fun _ => 0)) _ _

theorem afterScaleIn_run : CrewRun (recorded (sem strokes)) atDeletion afterScaleIn :=
  play_run (recordedServe_sem (serve_sem strokes "t" 0 (fun _ => none) fun _ => 0)) _ _

def deletesOf (nodeId : String) : Op → Bool
  | .deleteObjects id _ => id = nodeId
  | _ => false

theorem deletesAt_of {h : History Bool Resp} {d : Bool} {x : Nat}
    (hx : (h[x]?.any fun e => decide (e.who = d) && deletesOf nodeId e.op) = true) : DeletesAt h d nodeId x := by
  cases he : h[x]? with
  | none => rw [he] at hx; cases hx
  | some e =>
    rw [he] at hx
    obtain ⟨i, o, r⟩ := e
    simp only [Option.any_some, Bool.and_eq_true, decide_eq_true_eq] at hx
    obtain ⟨rfl, ho⟩ := hx
    cases o with
    | deleteObjects id keys =>
      obtain rfl : id = nodeId := of_decide_eq_true ho
      exact ⟨keys, r, he⟩
    | _ => cases ho

theorem afterScaleIn_deletes : DeletesAt afterScaleIn.world.history true "n1" 11 := deletesAt_of (by decide +kernel)

theorem teardown_spares_committed_one :
    SweptAt afterScaleIn.world.history true "n1" 11 ∨ ∃ g, LastGate afterScaleIn.world.history true "n1" g 11 ∧
      (Spares strokes beforeScaleIn afterScaleIn "n1" g 11 ↔
        ∀ n, g < n → ¬ AcceptedAt afterScaleIn.world.history "n1" n) ∧
      ((∀ n, g < n → ¬ IssuedAt afterScaleIn.world.history "n1" n) →
        Spares strokes beforeScaleIn afterScaleIn "n1" g 11) :=
  teardown_spares_committed takeAppNode rfl rfl (run_trans atDeletion_run afterScaleIn_run) afterScaleIn_deletes

def readsOf (nodeId : String) : Op → Bool
  | .desired (.getJson key) => key = nodeId
  | .getRegistry _ => true
  | _ => false

def acceptsOf (nodeId : String) : Entry Bool Resp → Bool
  | ⟨_, .desired (.putJson key _ _), .ok _⟩ => key = nodeId
  | _ => false

theorem acceptedAt_of {h : History Bool Resp} {n : Nat} (hn : (h[n]?.any (acceptsOf nodeId)) = true) :
    AcceptedAt h nodeId n := by
  cases he : h[n]? with
  | none => rw [he] at hn; cases hn
  | some e =>
    rw [he] at hn
    obtain ⟨i, o, r⟩ := e
    cases o with
    | desired o =>
      cases o with
      | putJson key value options =>
        cases r with
        | ok etag =>
          obtain rfl : key = nodeId := of_decide_eq_true hn
          exact ⟨i, value, options, etag, he⟩
        | error _ => cases hn
      | _ => cases hn
    | _ => cases hn

/-- From its second gate on the scale-in reads nothing more of the node. -/
theorem gate_before_publish {g : Nat} (h : LastGate afterScaleIn.world.history true "n1" g 11) : g < 7 := by
  obtain ⟨answer, hg, _⟩ := h.read
  by_contra hge
  have hquiet : ((afterScaleIn.world.history.drop 7).all fun e => !(e.who && readsOf "n1" e.op)) = true := by
    decide +kernel
  have hmem : (⟨true, gateOf "n1", answer⟩ : Entry Bool Resp) ∈ afterScaleIn.world.history.drop 7 := by
    apply List.mem_of_getElem? (i := g - 7)
    rw [List.getElem?_drop, show 7 + (g - 7) = g by omega, hg]
  have hno := List.all_eq_true.mp hquiet _ hmem
  simp [readsOf] at hno

/-- A database published after the gate's last read is deleted with the node. -/
theorem committed_service_destroyed :
    ∃ s u t : Commands Bool Unit, s.progs true = takeAppNode.command ∧ s.world.history = [] ∧
      CrewRun (recorded (sem strokes)) s u ∧ CrewRun (recorded (sem strokes)) u t ∧ t.progs true = .ret () ∧
      DeletesAt t.world.history true "n1" u.world.history.length ∧
      servicesAt "n1" u.world.store.desired = [dbEntry] ∧ dbEntry.volumes ≠ [] ∧
      Journal.current "n1" t.world.store.desired = none ∧
      ∃ g, LastGate t.world.history true "n1" g u.world.history.length ∧
        ∃ n, g < n ∧ AcceptedAt t.world.history "n1" n := by
  have hlen : atDeletion.world.history.length = 11 := by decide +kernel
  refine ⟨beforeScaleIn, atDeletion, afterScaleIn, rfl, rfl, atDeletion_run, afterScaleIn_run,
    Prog.eq_ret (by decide +kernel), hlen ▸ afterScaleIn_deletes, by decide +kernel, by decide, by decide +kernel, ?_⟩
  rw [hlen]
  have hgated := deletion_gated takeAppNode rfl rfl (run_trans atDeletion_run afterScaleIn_run) afterScaleIn_deletes
  rcases hgated with hswept | ⟨g, hg⟩
  · obtain ⟨n, _, hn⟩ := hswept.unregistered
    have hnone : (afterScaleIn.world.history.all fun e => !readsOf "" e.op) = true := by decide +kernel
    have hno := List.all_eq_true.mp hnone _ (List.mem_of_getElem? hn)
    cases hno
  · exact ⟨g, hg, 7, gate_before_publish hg, acceptedAt_of (by decide +kernel)⟩

end LaunchPad.Cli.Fleet
