/-
  LaunchPad.Cli.Lifecycle — a node's instance as commands stop, start, resize and replace it
  (`provision/provision-node.ts`, `resize-plan.ts`, `deploy/drift-plan.ts`, `drift-apply.ts`,
  and the commands `node pause`, `resume`, `resize` and `reconcile`).

  The entry of the registry is what the rest of the cluster knows of a node: an edge's DNS
  records point to its `publicIp`. EC2 is changed by others too: the console stops, starts
  and terminates instances, and a start gives an instance another address unless an Elastic
  IP is associated with it.

  Proved, over every run of one command after the other, each with any of its calls failing
  and cut short anywhere, and whatever happens to the instances in between:
  - `entry_kept`: the entry stays one of the same node, at the same address, and the account
    has this address for the instance that the entry names, or the instance is gone.
-/
import LaunchPad.Cli.NodeCalls
import LaunchPad.Lib.Crew

namespace LaunchPad.Cli.Lifecycle

open Lib NodeCalls

/-! ## The plan -/

inductive DriftClass
  | none
  | stopped
  | running
  | transitional
  | gone
  deriving DecidableEq, Repr

inductive DriftAction
  | noop
  | sync (network : InstanceNetwork)
  | resume
  | recreate
  | blocked (reason : String)
  deriving DecidableEq, Repr

structure NodeDrift where
  drift : DriftClass
  action : DriftAction
  deriving DecidableEq, Repr

/-- Of the registry's states only `stopped` is an intent: a pause. -/
def planNodeDrift (entry : NodeRecord) (ec2 : Ec2Observation) (allowRecreate : Bool) : NodeDrift :=
  match ec2 with
  | .running network => if entry.state = .stopped then ⟨.running, .sync network⟩ else ⟨.none, .noop⟩
  | .stopped => if entry.state = .stopped then ⟨.none, .resume⟩ else ⟨.stopped, .resume⟩
  | .transitional state => ⟨.transitional, .blocked ("instance is " ++ state ++ ", not stable yet")⟩
  | .missing =>
    if allowRecreate then ⟨.gone, .recreate⟩
    else ⟨.gone, .blocked "instance is gone (terminated, or credentials point at another account/region)"⟩

/-! ## What the commands do -/

/-- A field that is set: neither null nor empty. -/
def given (field : Option String) : Option String := field.filter (· != "")

def startInstance (instanceId : String) : Action InstanceNetwork := do
  lift (call (.startInstances instanceId))
  waitForRunning instanceId

def stopInstance (instanceId : String) : Action Unit := do
  lift (call (.stopInstances instanceId))
  lift (call (.waitUntilInstanceStopped instanceId))

/-- The address of a node whose instance started. -/
def startedIp (node : NodeRecord) (network : InstanceNetwork) : Option String :=
  if nodeUsesElasticIp node.role then
    if (given node.eipAllocationId).isSome then node.publicIp else network.publicIp
  else none

def resumeNode (node : NodeRecord) : Action NodeRecord := do
  match given node.instanceId with
  | none => throw (.cli ("node \"" ++ node.nodeId ++ "\" has no instance to resume"))
  | some instanceId =>
    let net ← startInstance instanceId
    let updated : NodeRecord := { node with
      state := .ready
      publicIp := startedIp node net
      privateIp := net.privateIp <|> node.privateIp
      availabilityZone := net.availabilityZone }
    lift (call (.updateNode updated))
    return updated

/-- Where the node was not running it stays so. -/
def planResizedEntry (node : NodeRecord) (instanceType : String) (capacity : InstanceCapacity) (restarted : Bool)
    (network : Option InstanceNetwork) : NodeRecord :=
  let base : NodeRecord := { node with
    instanceType := instanceType
    architecture := capacity.architecture
    totalCpu := capacity.totalCpu
    totalMemory := capacity.totalMemory }
  if !restarted then
    { base with
      publicIp := if (given node.eipAllocationId).isSome then node.publicIp else none
      state := .stopped }
  else
    let net := network.getD ⟨none, none, none⟩
    { base with
      publicIp := startedIp node net
      privateIp := net.privateIp <|> node.privateIp
      availabilityZone := net.availabilityZone
      state := .ready }

def architectureText : NodeArchitecture → String
  | .x86_64 => "x86_64"
  | .arm64 => "arm64"

def resizeNode (node : NodeRecord) (instanceType : String) (capacity : InstanceCapacity) : Action NodeRecord := do
  match given node.instanceId with
  | none => throw (.cli ("node \"" ++ node.nodeId ++ "\" has no instance to resize"))
  | some instanceId =>
    if node.architecture ≠ capacity.architecture then
      throw (.cli ("cannot resize node \"" ++ node.nodeId ++ "\" across architectures ("
        ++ architectureText node.architecture ++ " → " ++ architectureText capacity.architecture ++ ")"))
    match ← lift (call (.describeInstancesById instanceId)) with
    | .missing => throw (.cli ("node \"" ++ node.nodeId ++ "\"'s instance " ++ instanceId ++ " is gone"))
    | obs =>
      let restarted := obs ≠ .stopped
      stopInstance instanceId
      lift (call (.modifyInstanceType instanceId instanceType))
      let network ← (if restarted then some <$> startInstance instanceId else pure none)
      let updated := planResizedEntry node instanceType capacity restarted network
      lift (call (.updateNode updated))
      return updated

/-- What a new instance is made of. -/
structure Ami where
  agentVersion : String
  amiId : Option String := none
  amiBootstrapMode : AmiBootstrapMode := .full
  deriving DecidableEq, Repr

def replaceInstance (node : NodeRecord) (ami : Ami) : Action NodeRecord := do
  match given node.securityGroupId, given node.iamInstanceProfile with
  | some securityGroupId, some profile =>
    let amiId ← orCall ami.amiId (call (.resolveLatestAl2023Ami node.architecture))
    lift (call (.uploadAgentBinary node.architecture))
    let agentBinaryUrl ← (match ami.amiBootstrapMode with
      | .full => some <$> lift (call .presignAgentBinary)
      | .golden => pure none)
    let instanceId ← runNode ⟨amiId, node.instanceType, agentBinaryUrl, securityGroupId, profile, none⟩ maxConsistencyRetries
    let network ← tryCatch (waitForRunning instanceId) fun _ => return ⟨none, none, none⟩
    let eip ← (if nodeUsesElasticIp node.role then some <$> ensureEipForInstance instanceId
      else match given node.eipAllocationId with
        | some allocationId => do
          releaseEip allocationId
          return none
        | none => pure none)
    let updated : NodeRecord := { node with
      instanceId := some instanceId
      availabilityZone := network.availabilityZone
      privateIp := network.privateIp
      publicIp := eip.map (·.publicIp)
      eipAllocationId := eip.map (·.allocationId)
      agentVersion := some ami.agentVersion
      agentType := "rust"
      state := .ready }
    lift (call (.updateNode updated))
    return updated
  | _, _ => throw (.cli ("node \"" ++ node.nodeId ++ "\" can't be recreated — its security group or IAM profile is gone"))

def applyNodeDrift (entry : NodeRecord) (ami : Ami) : DriftAction → Action NodeRecord
  | .noop => return entry
  | .sync network => do
    let updated : NodeRecord := { entry with
      state := .ready
      publicIp := if nodeUsesElasticIp entry.role then network.publicIp <|> entry.publicIp else none
      privateIp := network.privateIp <|> entry.privateIp
      availabilityZone := network.availabilityZone <|> entry.availabilityZone }
    lift (call (.updateNode updated))
    return updated
  | .resume => resumeNode entry
  | .recreate => replaceInstance entry ami
  | .blocked reason => throw (.cli ("node \"" ++ entry.nodeId ++ "\": " ++ reason))

/-! ## The commands -/

section Runs

variable (clusterId nodeId : String)

def loadNode : Action NodeRecord := do
  match ← lift (call (.getNode nodeId)) with
  | none => throw (.cli ("node \"" ++ nodeId ++ "\" does not exist in cluster \"" ++ clusterId ++ "\""))
  | some node => return node

/-- The node with its instance, where it has one of EC2. -/
def loadInstance (verb : String) : Action (NodeRecord × String) := do
  let node ← loadNode clusterId nodeId
  if node.provisioning = .external then throw (.cli ("node \"" ++ node.nodeId ++ "\" is an external (BYOS) node"))
  else
    match given node.instanceId with
    | none => throw (.cli ("node \"" ++ nodeId ++ "\" has no instance to " ++ verb))
    | some instanceId => return (node, instanceId)

def runPause : Action Unit := do
  let (node, instanceId) ← loadInstance clusterId nodeId "pause"
  stopInstance instanceId
  lift (call (.updateNode { node with state := .stopped }))

def runResume : Action Unit := do
  let (node, _) ← loadInstance clusterId nodeId "resume"
  discard (resumeNode node)

/-- From where the new type is known to hold what the node runs. The drain of `--evacuate` is
    a rebalance. -/
def runResize (instanceType : String) (capacity : InstanceCapacity) : Action Unit := do
  let (node, _) ← loadInstance clusterId nodeId "resize"
  if node.instanceType = instanceType then throw (.cli ("node \"" ++ nodeId ++ "\" is already a " ++ instanceType))
  discard (resizeNode node instanceType capacity)

/-- For one node, as `deploy` repairs it too. -/
def runReconcile (allowRecreate : Bool) (ami : Ami) : Action Unit := do
  let node ← loadNode clusterId nodeId
  match given node.instanceId with
  | none => return ()
  | some instanceId =>
    let obs ← lift (call (.describeInstancesById instanceId))
    discard (applyNodeDrift node ami (planNodeDrift node obs allowRecreate).action)

end Runs

inductive Command
  | pause
  | resume
  | resize (instanceType : String) (capacity : InstanceCapacity)
  | reconcile (allowRecreate : Bool) (ami : Ami)
  deriving DecidableEq, Repr

def Command.run (clusterId nodeId : String) : Command → Action Unit
  | .pause => runPause clusterId nodeId
  | .resume => runResume clusterId nodeId
  | .resize instanceType capacity => runResize clusterId nodeId instanceType capacity
  | .reconcile allowRecreate ami => runReconcile clusterId nodeId allowRecreate ami

/-! ## EC2 -/

inductive InstanceState
  | pending
  | running
  | stopping
  | stopped
  | shuttingDown
  | terminated
  deriving DecidableEq, Repr

/-- An instance, with the network it has of its own. -/
structure Instance where
  state : InstanceState
  instanceType : String
  network : InstanceNetwork
  deriving DecidableEq, Repr

/-- What concerns one node: the instances of the account, the Elastic IP that is tagged for the
    node with the instance it is associated with, and the node's entry. -/
structure World where
  instances : String → Option Instance
  eip : Option (NodeEip × Option String)
  entry : Option NodeRecord

/-- An associated address takes the place of the instance's own. -/
def World.network (w : World) (id : String) (x : Instance) : InstanceNetwork :=
  match w.eip with
  | some (eip, some target) => if target = id then { x.network with publicIp := some eip.publicIp } else x.network
  | _ => x.network

/-- `observationFromInstance`. -/
def World.observe (w : World) (id : String) : Ec2Observation :=
  match w.instances id with
  | none => .missing
  | some x =>
    match x.state with
    | .running => .running (w.network id x)
    | .stopped => .stopped
    | .terminated => .missing
    | .pending => .transitional "pending"
    | .stopping => .transitional "stopping"
    | .shuttingDown => .transitional "shutting-down"

/-- Instances are started, stopped and terminated, by whomever, and get other addresses.
    What is terminated stays so. -/
structure Turns (w w' : World) : Prop where
  eip : w'.eip = w.eip
  entry : w'.entry = w.entry
  absent : ∀ id, w.instances id = none → w'.instances id = none
  present : ∀ id x, w.instances id = some x → ∃ y, w'.instances id = some y ∧ (x.state = .terminated → y.state = .terminated)

def World.set (w : World) (id : String) (x : Instance) : World :=
  { w with instances := fun id' => if id' = id then some x else w.instances id' }

def World.associate (w : World) (allocationId id : String) : World :=
  { w with eip := w.eip.map fun a => if a.1.allocationId = allocationId then (a.1, some id) else a }

/-- What the calls do. One that fails may have done it. -/
def sem : (o : Call) → World → Answer o → World → Prop
  | .getNode _, w, r, w' => w' = w ∧ ∀ e, r = .ok e → e = w.entry
  | .updateNode entry, w, r, w' =>
    match r with
    | .ok () => w' = { w with entry := some entry }
    | .error _ => w' = w ∨ w' = { w with entry := some entry }
  | .describeInstancesById id, w, r, w' => w' = w ∧ ∀ obs, r = .ok obs → obs = w.observe id
  | .describeInstance id, w, r, w' => w' = w ∧ ∀ net, r = .ok net → ∀ x, w.instances id = some x → net = w.network id x
  | .runInstances input, w, r, w' =>
    match r with
    | .ok (some id) => w.instances id = none ∧ ∃ net, w' = w.set id ⟨.pending, input.instanceType, net⟩
    | _ => w' = w ∨ ∃ id net, w.instances id = none ∧ w' = w.set id ⟨.pending, input.instanceType, net⟩
  | .waitUntilInstanceRunning id, w, r, w' =>
    Turns w w' ∧ (r = .ok () → ∃ x, w'.instances id = some x ∧ x.state = .running)
  | .waitUntilInstanceStopped id, w, r, w' =>
    Turns w w' ∧ (r = .ok () → ∃ x, w'.instances id = some x ∧ x.state = .stopped)
  | .startInstances _, w, _, w' | .stopInstances _, w, _, w' | .modifyInstanceType _ _, w, _, w'
  | .terminateInstances _, w, _, w' | .waitUntilInstanceTerminated _, w, _, w' => Turns w w'
  | .findNodeEip, w, r, w' => w' = w ∧ ∀ e, r = .ok e → e = w.eip.map (·.1)
  | .allocateAddress, w, r, w' =>
    match w.eip, r with
    | none, .ok (some eip) => w' = { w with eip := some (eip, none) }
    | none, _ => w' = w ∨ ∃ eip, w' = { w with eip := some (eip, none) }
    -- A second address of the node is found by no one.
    | some _, _ => w' = w
  | .associateAddress allocationId id, w, r, w' =>
    match r with
    | .ok () => w' = w.associate allocationId id
    | .error _ => w' = w ∨ w' = w.associate allocationId id
  | .disassociateAddress _, w, _, w' => w' = w ∨ w' = { w with eip := w.eip.map fun a => (a.1, none) }
  | .releaseAddress allocationId, w, _, w' =>
    w' = w ∨ ((∃ a, w.eip = some a ∧ a.1.allocationId = allocationId) ∧ w' = { w with eip := none })
  | _, w, _, w' => w' = w

/-- A command, amid what the console does. -/
def machine : Machine Answer World := ⟨sem, Turns⟩

/-! ## One command after the other -/

/-- The node's commands over time, with what is left of the one under way. -/
structure Session where
  command : Option (Prog Answer (Except NodeError Unit))
  world : World

inductive Step (clusterId nodeId : String) : Session → Session → Prop
  | start (c : Command) {w : World} : Step clusterId nodeId ⟨none, w⟩ ⟨some (c.run clusterId nodeId).run, w⟩
  | move {p p' : Prog Answer (Except NodeError Unit)} {w w' : World} :
      ProgStep machine p w p' w' → Step clusterId nodeId ⟨some p, w⟩ ⟨some p', w'⟩
  /-- Done, or cut short. -/
  | leave {p : Prog Answer (Except NodeError Unit)} {w : World} : Step clusterId nodeId ⟨some p, w⟩ ⟨none, w⟩
  | console {w w' : World} : Turns w w' → Step clusterId nodeId ⟨none, w⟩ ⟨none, w'⟩

/-! ## The entry -/

/-- What of an entry no command changes. -/
def identity (e : NodeRecord) : NodeRecord :=
  { e with
    instanceId := none, instanceType := "", totalCpu := 0, totalMemory := 0, availabilityZone := none, privateIp := none
    agentVersion := none, agentType := "", state := .ready }

/-- An edge has its address, and an app node none. -/
structure Formed (e : NodeRecord) : Prop where
  edge : nodeUsesElasticIp e.role = true →
    ∃ eip : NodeEip, eip.allocationId ≠ "" ∧ e.eipAllocationId = some eip.allocationId ∧ e.publicIp = some eip.publicIp
  app : nodeUsesElasticIp e.role = false → e.eipAllocationId = none ∧ e.publicIp = none

/-- The entry is stored, and what it says of the node's address is so. -/
structure Held (e : NodeRecord) (w : World) : Prop where
  entry : w.entry = some e
  formed : Formed e
  /-- Its instance is gone, or has the address. -/
  at_ : ∀ id, e.instanceId = some id → ∃ x, w.instances id = some x ∧
    (x.state = .terminated ∨ (nodeUsesElasticIp e.role = true → ∃ eip, w.eip = some (eip, some id)))
  eip : ∀ a ip, e.eipAllocationId = some a → e.publicIp = some ip → ∃ target, w.eip = some (⟨a, ip⟩, target)

/-- In the place of the entry `e₀` stands one of the same node and address. -/
def Kept (e₀ : NodeRecord) (w : World) : Prop := ∃ e, Held e w ∧ identity e = identity e₀

variable {e e' e₀ : NodeRecord} {w w' : World} {id : String} {eip : NodeEip}

theorem Held.kept (h : Held e w) (hid : identity e = identity e₀) : Kept e₀ w := ⟨e, h, hid⟩

theorem given_eq {field : Option String} {v : String} (h : given field = some v) : field = some v ∧ v ≠ "" := by
  obtain ⟨hf, hv⟩ := Option.filter_eq_some_iff.mp h
  exact ⟨hf, by simpa using hv⟩

theorem Formed.given_edge (h : Formed e) (hrole : nodeUsesElasticIp e.role = true) :
    (given e.eipAllocationId).isSome = true := by
  obtain ⟨eip, hne, halloc, -⟩ := h.edge hrole
  have hgiven : given e.eipAllocationId = some eip.allocationId := by
    rw [halloc]
    exact Option.filter_eq_some_iff.mpr ⟨rfl, by simpa using hne⟩
  rw [hgiven]
  rfl

/-- The address is kept over stop and start. -/
theorem startedIp_eq (h : Formed e) (network : InstanceNetwork) : startedIp e network = e.publicIp := by
  unfold startedIp
  split
  · rename_i hrole
    rw [h.given_edge hrole]
    rfl
  · rename_i hrole
    exact (h.app (by simpa using hrole)).2.symm

/-- And while stopped. -/
theorem stoppedIp_eq (h : Formed e) : (if (given e.eipAllocationId).isSome then e.publicIp else none) = e.publicIp := by
  cases hrole : nodeUsesElasticIp e.role with
  | true =>
    rw [h.given_edge hrole]
    rfl
  | false =>
    rw [(h.app hrole).1, (h.app hrole).2]
    rfl

/-! ## Calls that keep it -/

/-- The entry stays, instances stay, what is terminated stays so, and the address stays. -/
structure Calm (w w' : World) : Prop where
  entry : w'.entry = w.entry
  present : ∀ id x, w.instances id = some x → ∃ y, w'.instances id = some y ∧ (x.state = .terminated → y.state = .terminated)
  eip : ∀ a, w.eip = some a → w'.eip = some a

theorem Calm.refl (w : World) : Calm w w := ⟨rfl, fun _ x h => ⟨x, h, fun h => h⟩, fun _ h => h⟩

theorem Turns.calm (h : Turns w w') : Calm w w' := ⟨h.entry, h.present, fun _ ha => h.eip.trans ha⟩

theorem calm_set {x : Instance} (h : w.instances id = none) : Calm w (w.set id x) where
  entry := rfl
  present id' y hy := by
    have hne : id' ≠ id := by
      rintro rfl
      rw [h] at hy
      cases hy
    exact ⟨y, (if_neg hne).trans hy, fun h => h⟩
  eip _ ha := ha

theorem calm_allocate (h : w.eip = none) (a : NodeEip × Option String) : Calm w { w with eip := some a } where
  entry := rfl
  present _ x hx := ⟨x, hx, fun h => h⟩
  eip _ ha := by
    rw [h] at ha
    cases ha

/-- Calls that write no entry and move no address. -/
def steady : Call → Bool
  | .updateNode _ | .associateAddress _ _ | .disassociateAddress _ | .releaseAddress _ => false
  | _ => true

theorem steady_calm {o : Call} {r : Answer o} (ho : steady o = true) (h : sem o w r w') : Calm w w' := by
  cases o with
  | updateNode | associateAddress | disassociateAddress | releaseAddress => cases ho
  | runInstances input =>
    simp only [sem] at h
    split at h
    · obtain ⟨hnew, net, rfl⟩ := h
      exact calm_set hnew
    · rcases h with rfl | ⟨id, net, hnew, rfl⟩
      · exact Calm.refl _
      · exact calm_set hnew
  | allocateAddress =>
    simp only [sem] at h
    split at h
    · rename_i hnone
      rw [h]
      exact calm_allocate hnone _
    · rename_i hnone _
      rcases h with rfl | ⟨eip, rfl⟩
      · exact Calm.refl _
      · exact calm_allocate hnone _
    · rw [h]
      exact Calm.refl _
  | getNode | describeInstancesById | describeInstance | findNodeEip | waitUntilInstanceRunning | waitUntilInstanceStopped =>
    first
    | exact h.1 ▸ Calm.refl _
    | exact Turns.calm h.1
  | startInstances | stopInstances | modifyInstanceType | terminateInstances | waitUntilInstanceTerminated =>
    exact Turns.calm h
  | _ =>
    replace h : w' = w := h
    exact h ▸ Calm.refl _

theorem Calm.held (hc : Calm w w') (h : Held e w) : Held e w' where
  entry := hc.entry.trans h.entry
  formed := h.formed
  at_ id hid := by
    obtain ⟨x, hx, hat⟩ := h.at_ id hid
    obtain ⟨y, hy, hxy⟩ := hc.present id x hx
    refine ⟨y, hy, hat.imp hxy fun hserves hrole => ?_⟩
    obtain ⟨eip, ha⟩ := hserves hrole
    exact ⟨eip, hc.eip _ ha⟩
  eip a ip ha hip := by
    obtain ⟨target, ht⟩ := h.eip a ip ha hip
    exact ⟨target, hc.eip _ ht⟩

/-- What calm steps keep is stable. -/
theorem stable_of {P : World → Prop} (hP : ∀ w w', Calm w w' → P w → P w') : machine.Stable P :=
  fun w w' hw ht => hP w w' ht.calm hw

theorem held_stable : machine.Stable (Held e) := stable_of fun _ _ => Calm.held

theorem kept_stable : machine.Stable (Kept e₀) := stable_of fun _ _ hc ⟨e, h, hid⟩ => ⟨e, hc.held h, hid⟩

/-- A program of steady calls keeps what they keep. -/
theorem sat_steady {α : Type} {P : World → Prop} (hP : ∀ w w', Calm w w' → P w → P w') (hK : ∀ w, P w → Kept e₀ w)
    {a : Action α} (ha : Uses (steady · = true) a.run) (hw : P w) :
    Sat machine (fun _ => Kept e₀) (onResult (fun _ => P) fun _ => P) a.run w := by
  have hsat := Sat.ofUses (stable_of hP) (fun o ho w r w' h hs => hP w w' (steady_calm ho hs) h) (fun o w _ h => hK w h) ha hw
  refine hsat.mono (fun _ _ h => h) ?_
  rintro (e | b) w h
  · exact h
  · exact h

/-! ## Writing the entry -/

/-- The id is of an instance that has the address, or is gone. -/
def Placed (e : NodeRecord) (id : String) (w : World) : Prop := ∃ x, w.instances id = some x ∧
  (x.state = .terminated ∨ (nodeUsesElasticIp e.role = true → ∃ eip, w.eip = some (eip, some id)))

/-- Another entry of the same node. -/
theorem Held.written (h : Held e w) (hid : identity e' = identity e) (hat : ∀ id, e'.instanceId = some id → Placed e id w) :
    Held e' { w with entry := some e' } := by
  have hrole : e'.role = e.role := congrArg (·.role) hid
  have halloc : e'.eipAllocationId = e.eipAllocationId := congrArg (·.eipAllocationId) hid
  have hip : e'.publicIp = e.publicIp := congrArg (·.publicIp) hid
  refine ⟨rfl, ⟨?_, ?_⟩, ?_, ?_⟩
  · rw [hrole, halloc, hip]
    exact h.formed.edge
  · rw [hrole, halloc, hip]
    exact h.formed.app
  · rw [hrole]
    exact hat
  · rw [halloc, hip]
    exact h.eip

theorem Held.restated (h : Held e w) (hid : identity e' = identity e) (hinst : e'.instanceId = e.instanceId) :
    Held e' { w with entry := some e' } := h.written hid fun id hi => h.at_ id (hinst ▸ hi)

/-- A write that fails may have been made. -/
theorem sat_updateNode {P : World → Prop} (hP : ∀ w w', Calm w w' → P w → P w') (hK : ∀ w, P w → Kept e₀ w)
    (hput : ∀ w, P w → Kept e₀ { w with entry := some e' }) (hw : P w) :
    Sat machine (fun _ => Kept e₀) (onResult (fun _ => Kept e₀) fun _ => Kept e₀) (lift (call (.updateNode e'))).run w := by
  refine Sat.act (stable_of hP) hw (fun w h => hK w h) fun w r w' hw hs => ?_
  simp only [machine, sem] at hs
  rcases r with error | _
  · refine Sat.ret kept_stable ?_ fun _ h => h
    rcases hs with rfl | rfl
    · exact hK w' hw
    · exact hput w hw
  · refine Sat.ret kept_stable ?_ fun _ h => h
    rw [hs]
    exact hput w hw

/-- And the command is done. -/
theorem sat_update {α : Type} {P : World → Prop} (hP : ∀ w w', Calm w w' → P w → P w') (hK : ∀ w, P w → Kept e₀ w)
    (hput : ∀ w, P w → Kept e₀ { w with entry := some e' }) (a : α) (hw : P w) :
    Sat machine (fun _ => Kept e₀) (onResult (fun _ => Kept e₀) fun _ => Kept e₀)
      (do lift (call (.updateNode e')); return a : Action α).run w := by
  refine Sat.bindE (sat_updateNode hP hK hput hw) (fun _ => kept_stable) fun _ w hw => ?_
  exact Sat.ret kept_stable hw fun _ h => h

theorem uses_startInstance (instanceId : String) : Uses (steady · = true) (startInstance instanceId).run :=
  Uses.bindE (uses_lift (uses_call rfl)) fun _ => Uses.bindE (uses_lift (uses_call rfl)) fun _ => uses_lift (uses_call rfl)

theorem uses_stopInstance (instanceId : String) : Uses (steady · = true) (stopInstance instanceId).run :=
  Uses.bindE (uses_lift (uses_call rfl)) fun _ => uses_lift (uses_call rfl)

theorem planResizedEntry_identity (hf : Formed e) (instanceType : String) {capacity : InstanceCapacity}
    (harch : e.architecture = capacity.architecture) (restarted : Bool) (network : Option InstanceNetwork) :
    identity (planResizedEntry e instanceType capacity restarted network) = identity e := by
  unfold planResizedEntry
  split
  · simp only [identity, stoppedIp_eq hf, harch]
  · simp only [identity, startedIp_eq hf, harch]

/-! ## Another instance -/

/-- Whatever instance the entry names is gone. -/
structure Vacant (e : NodeRecord) (w : World) : Prop where
  held : Held e w
  gone : ∀ old, e.instanceId = some old → ∃ x, w.instances old = some x ∧ x.state = .terminated

/-- And there is another. -/
structure Replacing (e : NodeRecord) (id : String) (w : World) : Prop extends Vacant e w where
  new : ∃ x, w.instances id = some x

/-- Which has the address that the entry has, if it has one. -/
structure Seated (e : NodeRecord) (id : String) (eip : Option NodeEip) (w : World) : Prop extends Replacing e id w where
  allocationId : eip.map (·.allocationId) = e.eipAllocationId
  publicIp : eip.map (·.publicIp) = e.publicIp
  serves : nodeUsesElasticIp e.role = true → ∃ a, w.eip = some (a, some id)

theorem Calm.vacant (hc : Calm w w') (h : Vacant e w) : Vacant e w' where
  held := hc.held h.held
  gone old hold := by
    obtain ⟨x, hx, hdead⟩ := h.gone old hold
    obtain ⟨y, hy, hxy⟩ := hc.present old x hx
    exact ⟨y, hy, hxy hdead⟩

theorem Calm.replacing (hc : Calm w w') (h : Replacing e id w) : Replacing e id w' where
  toVacant := hc.vacant h.toVacant
  new := by
    obtain ⟨x, hx⟩ := h.new
    obtain ⟨y, hy, -⟩ := hc.present id x hx
    exact ⟨y, hy⟩

theorem Calm.seated {eip : Option NodeEip} (hc : Calm w w') (h : Seated e id eip w) : Seated e id eip w' where
  toReplacing := hc.replacing h.toReplacing
  allocationId := h.allocationId
  publicIp := h.publicIp
  serves hrole := by
    obtain ⟨a, ha⟩ := h.serves hrole
    exact ⟨a, hc.eip _ ha⟩

/-- The address is moved once the entry's instance is gone. -/
theorem Vacant.associate (h : Vacant e w) (allocationId : String) : Vacant e (w.associate allocationId id) where
  held :=
    { entry := h.held.entry
      formed := h.held.formed
      at_ := fun old hold => by
        obtain ⟨x, hx, hdead⟩ := h.gone old hold
        exact ⟨x, hx, Or.inl hdead⟩
      eip := fun a ip ha hip => by
        obtain ⟨target, ht⟩ := h.held.eip a ip ha hip
        unfold World.associate
        rw [ht]
        simp only [Option.map_some]
        split
        · exact ⟨_, rfl⟩
        · exact ⟨_, rfl⟩ }
  gone := h.gone

/-- What an observation says of the entry. -/
structure Observed (e : NodeRecord) (obs : Ec2Observation) (w : World) : Prop where
  held : Held e w
  vacant : obs = .missing → Vacant e w
  address : ∀ network, obs = .running network → nodeUsesElasticIp e.role = true → network.publicIp = e.publicIp

theorem Calm.observed {obs : Ec2Observation} (hc : Calm w w') (h : Observed e obs w) : Observed e obs w' :=
  ⟨hc.held h.held, fun hm => hc.vacant (h.vacant hm), h.address⟩

theorem Held.observed (h : Held e w) (hinst : e.instanceId = some id) : Observed e (w.observe id) w := by
  obtain ⟨x, hx, hat⟩ := h.at_ id hinst
  refine ⟨h, fun hm => ⟨h, fun old hold => ?_⟩, fun network hr hrole => ?_⟩
  · obtain rfl : id = old := Option.some.inj (hinst.symm.trans hold)
    refine ⟨x, hx, ?_⟩
    simp only [World.observe, hx] at hm
    cases hstate : x.state with
    | terminated => rfl
    | _ => rw [hstate] at hm; cases hm
  · simp only [World.observe, hx] at hr
    cases hstate : x.state with
    | running =>
      rw [hstate] at hr
      cases hr
      rw [hstate] at hat
      obtain ⟨eip, heip⟩ := hat.resolve_left (fun h => nomatch h) hrole
      obtain ⟨own, -, halloc, hip⟩ := h.formed.edge hrole
      obtain ⟨target, ht⟩ := h.eip _ _ halloc hip
      have hsame : (eip, some id) = (own, target) := Option.some.inj (heip.symm.trans ht)
      cases hsame
      rw [hip, World.network, heip]
      exact congrArg InstanceNetwork.publicIp (if_pos rfl)
    | _ => rw [hstate] at hr; cases hr

theorem sat_discard {a : Action NodeRecord}
    (ha : Sat machine (fun _ => Kept e₀) (onResult (fun _ => Kept e₀) fun _ => Kept e₀) a.run w) :
    Sat machine (fun _ => Kept e₀) (onResult (fun _ => Kept e₀) fun _ => Kept e₀) (discard a : Action Unit).run w :=
  Sat.bindE ha (fun _ => kept_stable) fun _ _ hw => Sat.ret kept_stable hw fun _ h => h

section Commands

variable (hid : identity e = identity e₀)
include hid

theorem sat_held {α : Type} {a : Action α} (ha : Uses (steady · = true) a.run) (hw : Held e w) :
    Sat machine (fun _ => Kept e₀) (onResult (fun _ => Held e) fun _ => Kept e₀) a.run w := by
  refine (sat_steady (fun _ _ => Calm.held) (fun _ h => h.kept hid) ha hw).mono (fun _ _ h => h) ?_
  rintro (error | b) w h
  · exact h.kept hid
  · exact h

theorem sat_throw {α : Type} {Q : α → World → Prop} (error : NodeError) (hw : Held e w) :
    Sat machine (fun _ => Kept e₀) (onResult Q fun _ => Kept e₀) (throw error : Action α).run w :=
  Sat.ret kept_stable (hw.kept hid) fun _ h => h

/-- The entry in another state. -/
theorem sat_restate {α : Type} (hsame : identity e' = identity e) (hinst : e'.instanceId = e.instanceId) (a : α)
    (hw : Held e w) :
    Sat machine (fun _ => Kept e₀) (onResult (fun _ => Kept e₀) fun _ => Kept e₀)
      (do lift (call (.updateNode e')); return a : Action α).run w :=
  sat_update (fun _ _ => Calm.held) (fun _ h => h.kept hid) (fun _ h => (h.restated hsame hinst).kept (hsame.trans hid)) a hw

theorem sat_resumeNode (hw : Held e w) :
    Sat machine (fun _ => Kept e₀) (onResult (fun _ => Kept e₀) fun _ => Kept e₀) (resumeNode e).run w := by
  unfold resumeNode
  split
  · exact sat_throw hid _ hw
  · rename_i instanceId _
    refine Sat.bindE (sat_held hid (uses_startInstance instanceId) hw) (fun _ => kept_stable) fun net w hw => ?_
    refine sat_restate hid ?_ ?_ _ hw
    · simp only [identity, startedIp_eq hw.formed]
    · rfl

theorem sat_resizeNode (instanceType : String) (capacity : InstanceCapacity) (hw : Held e w) :
    Sat machine (fun _ => Kept e₀) (onResult (fun _ => Kept e₀) fun _ => Kept e₀)
      (resizeNode e instanceType capacity).run w := by
  unfold resizeNode
  split
  · exact sat_throw hid _ hw
  rename_i instanceId _
  split
  · exact sat_throw hid _ hw
  rename_i harch
  refine Sat.bindE (sat_held hid (uses_lift (uses_call rfl)) hw) (fun _ => kept_stable) fun obs w hw => ?_
  split
  · exact sat_throw hid _ hw
  refine Sat.bindE (sat_held hid (uses_stopInstance instanceId) hw) (fun _ => kept_stable) fun _ w hw => ?_
  refine Sat.bindE (sat_held hid (uses_lift (uses_call rfl)) hw) (fun _ => kept_stable) fun _ w hw => ?_
  refine Sat.bindE (sat_held hid ?_ hw) (fun _ => kept_stable) fun network w hw => ?_
  · split
    · exact Uses.bindE (uses_startInstance instanceId) fun _ => trivial
    · trivial
  · refine sat_restate hid ?_ ?_ _ hw
    · exact planResizedEntry_identity hw.formed instanceType (by simpa using harch) _ _
    · unfold planResizedEntry
      split
      · rfl
      · rfl

theorem sat_vacant {α : Type} {a : Action α} (ha : Uses (steady · = true) a.run) (hw : Vacant e w) :
    Sat machine (fun _ => Kept e₀) (onResult (fun _ => Vacant e) fun _ => Kept e₀) a.run w := by
  refine (sat_steady (fun _ _ => Calm.vacant) (fun _ h => h.held.kept hid) ha hw).mono (fun _ _ h => h) ?_
  rintro (error | b) w h
  · exact h.held.kept hid
  · exact h

theorem sat_launchOnce (input : RunNodeParams) {again : AwsFailure → Action String} (hw : Vacant e w)
    (hagain : ∀ error w, Vacant e w →
      Sat machine (fun _ => Kept e₀) (onResult (Replacing e) fun _ => Kept e₀) (again error).run w) :
    Sat machine (fun _ => Kept e₀) (onResult (Replacing e) fun _ => Kept e₀) (launchOnce input again).run w := by
  refine Sat.act (stable_of fun _ _ => Calm.vacant) hw (fun _ h => h.held.kept hid) fun w r w' hw hs => ?_
  replace hs : sem (.runInstances input) w r w' := hs
  have hw' : Vacant e w' := (steady_calm rfl hs).vacant hw
  rcases r with error | id | id
  · exact hagain error w' hw'
  · exact Sat.ret kept_stable (hw'.held.kept hid) fun _ h => h
  · obtain ⟨-, net, hset⟩ := hs
    refine Sat.ret (stable_of fun _ _ => Calm.replacing) ⟨hw', ?_⟩ fun _ h => h
    rw [hset]
    exact ⟨_, if_pos rfl⟩

theorem sat_runNode (input : RunNodeParams) (tries : Nat) (hw : Vacant e w) :
    Sat machine (fun _ => Kept e₀) (onResult (Replacing e) fun _ => Kept e₀) (runNode input tries).run w := by
  induction tries generalizing w with
  | zero => exact sat_launchOnce hid input hw fun error w hw => Sat.ret kept_stable (hw.held.kept hid) fun _ h => h
  | succ tries ih =>
    refine sat_launchOnce hid input hw fun error w hw => ?_
    split
    · exact Sat.bindE (sat_vacant hid ⟨rfl, fun _ => trivial⟩ hw) (fun _ => kept_stable) fun _ w hw => ih hw
    · exact Sat.ret kept_stable (hw.held.kept hid) fun _ h => h

theorem sat_replacing {α : Type} {a : Action α} (ha : Uses (steady · = true) a.run) (hw : Replacing e id w) :
    Sat machine (fun _ => Kept e₀) (onResult (fun _ => Replacing e id) fun _ => Kept e₀) a.run w := by
  refine (sat_steady (fun _ _ => Calm.replacing) (fun _ h => h.held.kept hid) ha hw).mono (fun _ _ h => h) ?_
  rintro (error | b) w h
  · exact h.held.kept hid
  · exact h

/-- The node's address is found, and given to the new instance. -/
theorem sat_ensureEip (hrole : nodeUsesElasticIp e.role = true) (hw : Replacing e id w) :
    Sat machine (fun _ => Kept e₀) (onResult (fun eip => Seated e id (some eip)) fun _ => Kept e₀)
      (ensureEipForInstance id).run w := by
  obtain ⟨eip, -, halloc, hip⟩ := hw.held.formed.edge hrole
  have hstable : machine.Stable (Replacing e id) := stable_of fun _ _ => Calm.replacing
  have hfind : Sat machine (fun _ => Kept e₀)
      (onResult (fun found w => found = some eip ∧ Replacing e id w) fun _ => Kept e₀) (lift (call .findNodeEip)).run w := by
    refine Sat.act hstable hw (fun _ h => h.held.kept hid) fun w r w' hw hs => ?_
    obtain ⟨rfl, hfound⟩ := hs
    rcases r with error | found
    · exact Sat.ret kept_stable (hw.held.kept hid) fun _ h => h
    · obtain ⟨target, ht⟩ := hw.held.eip _ _ halloc hip
      refine Sat.ret hstable hw fun w h => ⟨?_, h⟩
      rw [hfound found rfl, ht]
      rfl
  refine Sat.bindE (R := fun got w => got = eip ∧ Replacing e id w) ?_ (fun _ => kept_stable) fun got w hw => ?_
  · refine Sat.bindE hfind (fun _ => kept_stable) fun found w hw => ?_
    obtain ⟨rfl, hw⟩ := hw
    refine Sat.bindE (sat_replacing hid (uses_lift (uses_call rfl)) hw) (fun _ => kept_stable) fun _ w hw => ?_
    exact Sat.ret hstable hw fun w h => ⟨rfl, h⟩
  obtain ⟨rfl, hw⟩ := hw
  have hset (w : World) (hw : Replacing e id w) : Seated e id (some got) (w.associate got.allocationId id) := by
    obtain ⟨target, ht⟩ := hw.held.eip _ _ halloc hip
    refine ⟨⟨hw.toVacant.associate _, hw.new⟩, halloc.symm, hip.symm, fun _ => ⟨got, ?_⟩⟩
    unfold World.associate
    rw [ht]
    exact congrArg some (if_pos rfl)
  refine Sat.bindE (R := fun _ => Seated e id (some got)) ?_ (fun _ => kept_stable) fun _ w hw => ?_
  · refine Sat.act hstable hw (fun _ h => h.held.kept hid) fun w r w' hw hs => ?_
    simp only [machine, sem] at hs
    rcases r with error | _
    · refine Sat.ret kept_stable ?_ fun _ h => h
      rcases hs with rfl | rfl
      · exact hw.held.kept hid
      · exact (hset w hw).held.kept hid
    · refine Sat.ret (stable_of fun _ _ => Calm.seated) ?_ fun _ h => h
      rw [hs]
      exact hset w hw
  · exact Sat.ret (stable_of fun _ _ => Calm.seated) hw fun _ h => h

/-- The entry goes over to the new instance. -/
theorem Seated.kept {eip : Option NodeEip} (h : Seated e id eip w) (hsame : identity e' = identity e)
    (hinst : e'.instanceId = some id) : Kept e₀ { w with entry := some e' } := by
  refine ⟨e', h.held.written hsame fun id' hid' => ?_, hsame.trans hid⟩
  obtain rfl : id = id' := Option.some.inj (hinst.symm.trans hid')
  obtain ⟨x, hx⟩ := h.new
  exact ⟨x, hx, Or.inr h.serves⟩

theorem sat_replaceInstance (ami : Ami) (hw : Vacant e w) :
    Sat machine (fun _ => Kept e₀) (onResult (fun _ => Kept e₀) fun _ => Kept e₀) (replaceInstance e ami).run w := by
  unfold replaceInstance
  split
  · rename_i sg profile _ _
    have hor : Uses (steady · = true) (orCall ami.amiId (call (.resolveLatestAl2023Ami e.architecture))).run := by
      unfold orCall
      split
      · trivial
      · exact uses_lift (uses_call rfl)
    refine Sat.bindE (sat_vacant hid hor hw) (fun _ => kept_stable) fun amiId w hw => ?_
    refine Sat.bindE (sat_vacant hid (uses_lift (uses_call rfl)) hw) (fun _ => kept_stable) fun _ w hw => ?_
    refine Sat.bindE (sat_vacant hid ?_ hw) (fun _ => kept_stable) fun url w hw => ?_
    · split
      · exact Uses.bindE (uses_lift (uses_call rfl)) fun _ => trivial
      · trivial
    refine Sat.bindE (sat_runNode hid _ _ hw) (fun _ => kept_stable) fun id w hw => ?_
    refine Sat.bindE (sat_replacing hid (uses_tryCatch ?_ fun _ => trivial) hw) (fun _ => kept_stable) fun network w hw => ?_
    · exact Uses.bindE (uses_lift (uses_call rfl)) fun _ => uses_lift (uses_call rfl)
    refine Sat.bindE (R := fun eip => Seated e id eip) ?_ (fun _ => kept_stable) fun eip w hw => ?_
    · split
      · rename_i hrole
        refine Sat.bindE (sat_ensureEip hid hrole hw) (fun _ => kept_stable) fun eip w hw => ?_
        exact Sat.ret (stable_of fun _ _ => Calm.seated) hw fun _ h => h
      · rename_i hrole
        have happ := hw.held.formed.app (by simpa using hrole)
        rw [show given e.eipAllocationId = none by rw [happ.1]; rfl]
        refine Sat.ret (stable_of fun _ _ => Calm.seated) ⟨hw, ?_, ?_, ?_⟩ fun _ h => h
        · exact happ.1.symm
        · exact happ.2.symm
        · exact fun h => absurd h hrole
    · refine sat_update (fun _ _ => Calm.seated) (fun _ h => h.held.kept hid) (fun w h => h.kept hid ?_ ?_) _ hw
      · simp only [identity, h.allocationId, h.publicIp]
      · rfl
  · exact sat_throw hid _ hw.held

theorem sat_applyNodeDrift (ami : Ami) (allowRecreate : Bool) {obs : Ec2Observation} (hw : Observed e obs w) :
    Sat machine (fun _ => Kept e₀) (onResult (fun _ => Kept e₀) fun _ => Kept e₀)
      (applyNodeDrift e ami (planNodeDrift e obs allowRecreate).action).run w := by
  cases obs with
  | running network =>
    dsimp only [planNodeDrift]
    split
    · refine sat_restate hid ?_ ?_ _ hw.held
      · have hip : (if nodeUsesElasticIp e.role then network.publicIp <|> e.publicIp else none) = e.publicIp := by
          split
          · rename_i hrole
            rw [hw.address network rfl hrole]
            cases e.publicIp <;> rfl
          · rename_i hrole
            exact (hw.held.formed.app (by simpa using hrole)).2.symm
        simp only [identity, hip]
      · rfl
    · exact Sat.ret kept_stable (hw.held.kept hid) fun _ h => h
  | stopped =>
    dsimp only [planNodeDrift]
    split
    · exact sat_resumeNode hid hw.held
    · exact sat_resumeNode hid hw.held
  | transitional state => exact sat_throw hid _ hw.held
  | missing =>
    dsimp only [planNodeDrift]
    split
    · exact sat_replaceInstance hid ami (hw.vacant rfl)
    · exact sat_throw hid _ hw.held

theorem sat_loadNode (clusterId nodeId : String) (hw : Held e w) :
    Sat machine (fun _ => Kept e₀) (onResult (fun node w => node = e ∧ Held e w) fun _ => Kept e₀)
      (loadNode clusterId nodeId).run w := by
  refine Sat.act held_stable hw (fun _ h => h.kept hid) fun w r w' hw hs => ?_
  obtain ⟨rfl, hread⟩ := hs
  rcases r with error | node | node
  · exact Sat.ret kept_stable (hw.kept hid) fun _ h => h
  · exact Sat.ret kept_stable (hw.kept hid) fun _ h => h
  · have hnode : some node = some e := (hread _ rfl).trans hw.entry
    cases hnode
    exact Sat.ret held_stable hw fun _ h => ⟨rfl, h⟩

theorem sat_loadInstance (clusterId nodeId verb : String) (hw : Held e w) :
    Sat machine (fun _ => Kept e₀) (onResult (fun p w => p.1 = e ∧ Held e w) fun _ => Kept e₀)
      (loadInstance clusterId nodeId verb).run w := by
  refine Sat.bindE (sat_loadNode hid clusterId nodeId hw) (fun _ => kept_stable) fun node w hw => ?_
  obtain ⟨rfl, hw⟩ := hw
  split
  · exact sat_throw hid _ hw
  split
  · exact sat_throw hid _ hw
  · exact Sat.ret held_stable hw fun _ h => ⟨rfl, h⟩

/-- Every command keeps the node's entry, at each of its calls and at its end. -/
theorem sat_run (clusterId nodeId : String) (c : Command) (hw : Held e w) :
    Sat machine (fun _ => Kept e₀) (onResult (fun _ => Kept e₀) fun _ => Kept e₀) (c.run clusterId nodeId).run w := by
  cases c with
  | pause =>
    refine Sat.bindE (sat_loadInstance hid clusterId nodeId _ hw) (fun _ => kept_stable) fun p w hw => ?_
    obtain ⟨node, instanceId⟩ := p
    obtain ⟨rfl, hw⟩ := hw
    refine Sat.bindE (sat_held hid (uses_stopInstance instanceId) hw) (fun _ => kept_stable) fun _ w hw => ?_
    refine sat_updateNode (fun _ _ => Calm.held) (fun _ h => h.kept hid) (fun _ h => (h.restated ?_ ?_).kept ?_) hw
    · rfl
    · rfl
    · exact hid
  | resume =>
    refine Sat.bindE (sat_loadInstance hid clusterId nodeId _ hw) (fun _ => kept_stable) fun p w hw => ?_
    obtain ⟨node, instanceId⟩ := p
    obtain ⟨rfl, hw⟩ := hw
    exact sat_discard (sat_resumeNode hid hw)
  | resize instanceType capacity =>
    refine Sat.bindE (sat_loadInstance hid clusterId nodeId _ hw) (fun _ => kept_stable) fun p w hw => ?_
    obtain ⟨node, instanceId⟩ := p
    obtain ⟨rfl, hw⟩ := hw
    dsimp only
    split
    · exact sat_throw hid _ hw
    · exact sat_discard (sat_resizeNode hid instanceType capacity hw)
  | reconcile allowRecreate ami =>
    refine Sat.bindE (sat_loadNode hid clusterId nodeId hw) (fun _ => kept_stable) fun node w hw => ?_
    obtain ⟨rfl, hw⟩ := hw
    split
    · exact Sat.ret kept_stable (hw.kept hid) fun _ h => h
    rename_i instanceId hgiven
    refine Sat.bindE (R := fun obs => Observed node obs) ?_ (fun _ => kept_stable) fun obs w hw => ?_
    · refine Sat.act held_stable hw (fun _ h => h.kept hid) fun w r w' hw hs => ?_
      obtain ⟨rfl, hobs⟩ := hs
      rcases r with error | obs
      · exact Sat.ret kept_stable (hw.kept hid) fun _ h => h
      · refine Sat.ret (stable_of fun _ _ => Calm.observed) ?_ fun _ h => h
        rw [hobs obs rfl]
        exact hw.observed (given_eq hgiven).1
    · exact sat_discard (sat_applyNodeDrift hid ami allowRecreate hw)

end Commands

/-! ## Every run -/

/-- The entry, and that the command under way keeps it. -/
structure Good (e₀ : NodeRecord) (s : Session) : Prop where
  kept : Kept e₀ s.world
  under_way : ∀ p, s.command = some p → Sat machine (fun _ => Kept e₀) (fun _ => Kept e₀) p s.world

variable {clusterId nodeId : String} {s t : Session}

theorem good_step (h : Good e₀ s) (hs : Step clusterId nodeId s t) : Good e₀ t := by
  cases hs with
  | start c =>
    obtain ⟨e, hheld, hid⟩ := h.kept
    refine ⟨h.kept, fun p hp => ?_⟩
    cases hp
    refine (sat_run hid clusterId nodeId c hheld).mono (fun _ _ h => h) ?_
    rintro (error | u) w hw
    · exact hw
    · exact hw
  | @move p p' w w' hmove =>
    have hsat := (h.under_way p rfl).step hmove
    refine ⟨?_, fun q hq => ?_⟩
    · cases p' with
      | ret a => exact hsat.atRet
      | act o k => exact hsat.atAct
    · cases hq
      exact hsat
  | leave => exact ⟨h.kept, fun p hp => nomatch hp⟩
  | console ht => exact ⟨kept_stable _ _ h.kept ht, fun p hp => nomatch hp⟩

/-- The node's entry in every state of every run: of the same node, at the same address, which
    is the one that its instance has. -/
theorem entry_kept (hrun : Relation.ReflTransGen (Step clusterId nodeId) s t) (hidle : s.command = none)
    (h : Held e₀ s.world) : ∃ e, Held e t.world ∧ identity e = identity e₀ := by
  have hgood : Good e₀ t := by
    induction hrun with
    | refl => exact ⟨⟨e₀, h, rfl⟩, fun p hp => by rw [hidle] at hp; cases hp⟩
    | tail _ hs ih => exact good_step ih hs
  exact hgood.kept

theorem steps_of_runs {p q : Prog Answer (Except NodeError Unit)} (h : Runs machine p w q w') :
    Relation.ReflTransGen (Step clusterId nodeId) ⟨some p, w⟩ ⟨some q, w'⟩ := by
  induction h with
  | refl => exact .refl
  | act hs _ ih => exact .head (.move (.act hs)) ih

def edgeEntry : NodeRecord where
  nodeId := "edge-1"
  instanceId := some "i-1"
  role := .edge
  totalCpu := 2048
  totalMemory := 2048
  reservedCpu := 128
  reservedMemory := 256
  eipAllocationId := some "eipalloc-1"
  state := .ready
  instanceType := "t3.small"
  region := "eu-west-1"
  availabilityZone := none
  publicIp := some "203.0.113.7"
  iamInstanceProfile := none
  agentId := "agent-edge-1"
  agentVersion := none
  agentType := "rust"
  createdAt := "2024-01-01T00:00:00.000Z"
  createdBy := "arn"

def edgeWorld (state : InstanceState) (entry : NodeRecord) : World where
  instances id := if id = "i-1" then some ⟨state, "t3.small", ⟨some "198.51.100.1", none, none⟩⟩ else none
  eip := some (⟨"eipalloc-1", "203.0.113.7"⟩, some "i-1")
  entry := some entry

theorem edge_turns (a b : InstanceState) (ha : a ≠ .terminated) (e : NodeRecord) :
    Turns (edgeWorld a e) (edgeWorld b e) where
  eip := rfl
  entry := rfl
  absent id h := by
    by_cases hid : id = "i-1"
    · simp [edgeWorld, hid] at h
    · simp [edgeWorld, hid]
  present id x h := by
    by_cases hid : id = "i-1"
    · simp only [edgeWorld, hid, if_true, Option.some.injEq] at h
      refine ⟨_, if_pos hid, fun hx => ?_⟩
      rw [← h] at hx
      exact absurd hx ha
    · simp [edgeWorld, hid] at h

theorem edge_held (state : InstanceState) : Held edgeEntry (edgeWorld state edgeEntry) where
  entry := rfl
  formed := ⟨fun _ => ⟨⟨"eipalloc-1", "203.0.113.7"⟩, by decide, rfl, rfl⟩, fun h => nomatch h⟩
  at_ id h := by
    obtain rfl : "i-1" = id := Option.some.inj h
    exact ⟨_, rfl, Or.inr fun _ => ⟨_, rfl⟩⟩
  eip a ip ha hip := by
    cases ha
    cases hip
    exact ⟨_, rfl⟩

/-- A pause keeps the address. -/
theorem entry_kept_pause : ∃ w,
    Relation.ReflTransGen (Step "default" "edge-1") ⟨none, edgeWorld .running edgeEntry⟩ ⟨none, w⟩ ∧
    w.entry = some { edgeEntry with state := .stopped } ∧ ∃ e, Held e w ∧ identity e = identity edgeEntry := by
  have hrun : Runs machine ((Command.pause).run "default" "edge-1").run (edgeWorld .running edgeEntry) (.ret (.ok ()))
      (edgeWorld .stopped { edgeEntry with state := .stopped }) := by
    refine .act (r := .ok (some edgeEntry)) ⟨rfl, fun e he => (Except.ok.inj he).symm⟩ ?_
    refine .act (r := .ok ()) (edge_turns .running .stopping (by decide) edgeEntry) ?_
    refine .act (r := .ok ()) ⟨edge_turns .stopping .stopped (by decide) edgeEntry, fun _ => ⟨_, rfl, rfl⟩⟩ ?_
    have hput : machine.sem (.updateNode { edgeEntry with state := .stopped }) (edgeWorld .stopped edgeEntry) (.ok ())
      (edgeWorld .stopped { edgeEntry with state := .stopped }) := rfl
    exact .act hput (.refl _ _)
  have hsteps := ((Relation.ReflTransGen.single (.start .pause)).trans (steps_of_runs hrun)).tail .leave
  exact ⟨_, hsteps, rfl, entry_kept hsteps rfl (edge_held .running)⟩

end LaunchPad.Cli.Lifecycle
