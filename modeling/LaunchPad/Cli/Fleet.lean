/-
  LaunchPad.Cli.Fleet — a cluster's nodes as commands that run side by side see them:
  `cluster.json`, each node's `desired.json`, the registry, and the calls that grow and
  shrink the fleet (`provision/provision-node.ts`, `commands/node/index.ts`).

  The two documents that are written on a condition are journals; the registry is the list
  of the nodes' entries, one a node. A call outside the bucket, and a command of another
  subsystem, is one step here, with every effect on these documents it may have.

  Proved:
  - `sem_extends`: a command adds to each journal writes of its own client, or nothing.
  - `sem_registry`: only these commands change the registry.
-/
import LaunchPad.Shared.Autoscale
import LaunchPad.Lib.History
import LaunchPad.Cli.Publish
import LaunchPad.Cli.Teardown

namespace LaunchPad.Cli.Fleet

open Lib

/-! ## Documents -/

/-- `cluster.json` with its policy. -/
structure ClusterRecord extends ClusterConfig where
  autoscale : Option AutoscalePolicy := none
  deriving DecidableEq, Repr

/-- `parseClusterConfig`; a policy in a record is one its schema accepts. -/
def parseClusterRecord : Raw ClusterRecord → Option ClusterRecord
  | .json c => if labelMatches c.clusterId then some c else none
  | .other _ => none

/-- An object in a node's directory. -/
inductive NodeObject where
  | registry
  | desired
  | other (name : String)
  deriving DecidableEq, Repr

structure HostSample where
  cpuPercent : ℚ
  memoryUsedMb : ℚ
  memoryTotalMb : ℚ
  sampledAt : Timestamp
  deriving DecidableEq, Repr

/-- What the autoscaler reads of a status document. -/
structure HostStatus where
  lastSeen : Timestamp
  host : Option HostSample
  deriving DecidableEq, Repr

/-- A registered node, the scheduler's view of it, and its status; `none` for a status
    that is absent or malformed. -/
structure NodeReading where
  entry : NodeRegistryEntry
  candidate : Option CandidateNode := none
  status : Option HostStatus := none
  deriving DecidableEq, Repr

/-- A node and what a pass makes of it. -/
structure PoolEntry where
  entry : NodeRegistryEntry
  observation : AutoscaleNodeObservation
  deriving DecidableEq, Repr

/-- What node a scale-out creates: an app node behind that edge. -/
structure ScaleOutNodeSpec where
  nodeId : String
  edgeNodeId : String
  deriving DecidableEq, Repr

inductive RemoteCall where
  | terminateInstance (instanceId : String)
  | releaseEip (allocationId : String)
  | deleteSecurityGroup (groupId : String)
  | deleteNodeIam (clusterId nodeId : String)
  | deleteExternalNodeIam (clusterId nodeId : String)
  deriving DecidableEq, Repr

/-- How a rebalance stops. -/
inductive RebalanceStop where
  /-- `EvacuationBlockedError`: nothing was moved. -/
  | blocked (message : String)
  | failed (message : String)
  deriving DecidableEq, Repr

/-! ## Commands -/

inductive Op where
  /-- On `cluster.json`. -/
  | cluster (o : S3Op String (Raw ClusterRecord))
  /-- On the `desired.json` of the node that is the key. -/
  | desired (o : DesiredOp)
  | getRegistry (nodeId : String)
  | putRegistry (node : NodeRegistryEntry)
  /-- `buildCandidateNodes`, then each node's status. -/
  | readPool
  | provisionNode (spec : ScaleOutNodeSpec)
  /-- `runRebalance`, draining these nodes: awaited here, its writes are commands of a
      client of their own. -/
  | rebalance (drainNodes : List String)
  /-- `waitForVictimDrained`: whether the drain was confirmed in time. -/
  | waitForVictimDrained (nodeId : String)
  | remote (call : RemoteCall)
  /-- A page of the directory's keys, and whether more follow. -/
  | listPrefix (nodeId : String)
  | deleteObjects (nodeId : String) (keys : List NodeObject)
  | generateNodeName (usedIds : List String)
  | confirm
  | now
  /-- Another command's change of the registry. -/
  | register (entries : List NodeRegistryEntry)

abbrev Resp : Op → Type
  | .cluster o => S3Resp o
  | .desired o => S3Resp o
  | .getRegistry nodeId => Except S3Error (Option (Raw {e : NodeRegistryEntry // e.nodeId = nodeId}))
  | .putRegistry _ => Except S3Error Unit
  | .readPool => Except S3Error (List NodeReading)
  | .provisionNode _ => Except AwsError Unit
  | .rebalance _ => Except RebalanceStop Unit
  | .waitForVictimDrained _ => Bool
  | .remote _ => Except AwsError Unit
  | .listPrefix _ => Except S3Error (List NodeObject × Bool)
  | .deleteObjects _ _ => Except S3Error Unit
  | .generateNodeName _ => String
  | .confirm => Bool
  | .now => Int
  | .register _ => Unit

/-- The documents of a cluster. -/
structure World (ι : Type) where
  cluster : Bucketed ι String (Raw ClusterRecord)
  desired : DesiredBucket ι
  registry : List NodeRegistryEntry
  /-- A node has one directory. -/
  unique : (registry.map (·.nodeId)).Nodup

abbrev Command := Prog Resp

/-- A command that may stop with an error. -/
abbrev CommandE (ε : Type) := ExceptT ε Command

/-- A command whose answer, an error too, goes on. -/
def ask {ε : Type} (o : Op) : CommandE ε (Resp o) := ExceptT.mk (.act o fun r => .ret (.ok r))

/-- A command that does not stop, in one that may. -/
def run {ε α : Type} (p : Command α) : CommandE ε α := ExceptT.mk (p >>= fun a => .ret (.ok a))

theorem ask_bind {ε α : Type} (o : Op) (k : Resp o → CommandE ε α) :
    (ask o >>= k).run = .act o fun r => (k r).run := rfl

/-- Commands side by side, with what they did. -/
abbrev Commands (ι : Type) (α : Type) := Crew ι Resp α (Recorded ι Resp (World ι))

/-! ## What a command does -/

section Sem

variable {ι : Type} (E : Etags)

/-- The entry in its node's place. -/
def putEntry (entry : NodeRegistryEntry) (registry : List NodeRegistryEntry) : List NodeRegistryEntry :=
  entry :: registry.filter (·.nodeId != entry.nodeId)

def dropEntry (nodeId : String) (registry : List NodeRegistryEntry) : List NodeRegistryEntry :=
  registry.filter (·.nodeId != nodeId)

/-- Some writes of that client, on top. -/
def Extends {κ β : Type} (i : ι) (j j' : Bucketed ι κ β) : Prop :=
  ∃ newer, j' = newer ++ j ∧ ∀ w ∈ newer, w.writer = some i

/-- The registry `registry'` follows from the command, carried out or not. -/
def Registers : Op → List NodeRegistryEntry → List NodeRegistryEntry → Prop
  | .putRegistry node, registry, registry' => registry' = registry ∨ registry' = putEntry node registry
  | .provisionNode spec, registry, registry' =>
    registry' = registry ∨ (spec.nodeId ∉ registry.map (·.nodeId) ∧ ∃ entry : NodeRegistryEntry,
      entry.nodeId = spec.nodeId ∧ entry.role = .app ∧ entry.state = .provisioning ∧ registry' = putEntry entry registry)
  | .deleteObjects nodeId keys, registry, registry' =>
    registry' = registry ∨ (NodeObject.registry ∈ keys ∧ registry' = dropEntry nodeId registry)
  | .register entries, registry, registry' => registry' = registry ∨ registry' = entries
  | _, registry, registry' => registry' = registry

/-- What the command does to `cluster.json`. -/
def Configures (i : ι) : (o : Op) → Bucketed ι String (Raw ClusterRecord) → Resp o →
    Bucketed ι String (Raw ClusterRecord) → Prop
  | .cluster o, j, r, j' => s3Sem E i o j r j'
  | .provisionNode _, j, _, j' => Extends i j j'
  | _, j, _, j' => j' = j

/-- What it does to the nodes' `desired.json`. -/
def Publishes (i : ι) : (o : Op) → DesiredBucket ι → Resp o → DesiredBucket ι → Prop
  | .desired o, j, r, j' => s3Sem E i o j r j'
  | .deleteObjects nodeId keys, j, _, j' => j' = j ∨ (NodeObject.desired ∈ keys ∧ j' = ⟨some i, nodeId, none⟩ :: j)
  | _, j, _, j' => j' = j

/-- What a read answers. -/
def Reads : (o : Op) → World ι → Resp o → Prop
  | .getRegistry nodeId, w, r =>
    (r = .ok none → ∀ e ∈ w.registry, e.nodeId ≠ nodeId) ∧ ∀ e, r = .ok (some (.json e)) → e.1 ∈ w.registry
  | .readPool, w, r => ∀ pool, r = .ok pool → (pool.map (·.entry)).Perm w.registry
  | .listPrefix nodeId, w, r =>
    ∀ keys more, r = .ok (keys, more) → NodeObject.desired ∈ keys → Journal.current nodeId w.desired ≠ none
  | .generateNodeName usedIds, _, r => r ∉ usedIds
  | _, _, _ => True

/-- What client `i`'s command does, and its answer. -/
def sem (i : ι) (o : Op) (w : World ι) (r : Resp o) (w' : World ι) : Prop :=
  Configures E i o w.cluster r w'.cluster ∧ Publishes E i o w.desired r w'.desired ∧
    Registers o w.registry w'.registry ∧ Reads o w r

variable {E} {i : ι} {o : Op} {w w' : World ι} {r : Resp o}

theorem Extends.refl {κ β : Type} (i : ι) (j : Bucketed ι κ β) : Extends i j j := ⟨[], rfl, fun w hw => by cases hw⟩

theorem Extends.cons {κ β : Type} {j : Bucketed ι κ β} {w : Write (Option ι) κ (Body β)} (h : w.writer = some i) :
    Extends i j (w :: j) := by
  refine ⟨[w], rfl, fun x hx => ?_⟩
  rw [List.mem_singleton.mp hx]
  exact h

theorem s3Sem_extends {κ β : Type} [DecidableEq κ] {o : S3Op κ β} {j j' : Bucketed ι κ β} {r : S3Resp o}
    (h : s3Sem E i o j r j') : Extends i j j' := by
  rcases s3Sem_grows h with rfl | ⟨w, hw, rfl⟩
  · exact Extends.refl i _
  · exact Extends.cons hw

theorem configures_extends (h : sem E i o w r w') : Extends i w.cluster w'.cluster := by
  have hc := h.1
  cases o with
  | cluster o => exact s3Sem_extends hc
  | provisionNode spec => exact hc
  | _ => rw [show w'.cluster = w.cluster from hc]; exact Extends.refl i _

theorem publishes_extends (h : sem E i o w r w') : Extends i w.desired w'.desired := by
  have hp := h.2.1
  cases o with
  | desired o => exact s3Sem_extends hp
  | deleteObjects nodeId keys =>
    rcases hp with he | ⟨_, he⟩
    · rw [he]; exact Extends.refl i _
    · rw [he]; exact Extends.cons rfl
  | _ => rw [show w'.desired = w.desired from hp]; exact Extends.refl i _

/-- A command adds to each journal writes of its own client, or nothing. -/
theorem sem_extends (h : sem E i o w r w') : Extends i w.cluster w'.cluster ∧ Extends i w.desired w'.desired :=
  ⟨configures_extends h, publishes_extends h⟩

/-- The command may change the registry. -/
def Op.changesRegistry : Op → Bool
  | .putRegistry _ | .provisionNode _ | .deleteObjects _ _ | .register _ => true
  | _ => false

theorem sem_registry (h : sem E i o w r w') (ho : o.changesRegistry = false) : w'.registry = w.registry := by
  have hr := h.2.2.1
  cases o with
  | putRegistry node => cases ho
  | provisionNode spec => cases ho
  | deleteObjects nodeId keys => cases ho
  | register entries => cases ho
  | _ => exact hr

end Sem

/-! ## Over a run -/

section Run

variable {ι α : Type} [DecidableEq ι] {E : Etags} {s t : Commands ι α}

/-- Over a run each journal grows. -/
theorem run_extends (hr : CrewRun (recorded (sem E)) s t) :
    (∃ newer, t.world.store.cluster = newer ++ s.world.store.cluster) ∧
      ∃ newer, t.world.store.desired = newer ++ s.world.store.desired := by
  induction hr with
  | refl => exact ⟨⟨[], rfl⟩, [], rfl⟩
  | tail _ hs ih =>
    obtain ⟨⟨nc, hc⟩, nd, hd⟩ := ih
    obtain ⟨_, _, hsem, _⟩ := step_history hs
    obtain ⟨⟨nc', hc', _⟩, nd', hd', _⟩ := sem_extends hsem
    exact ⟨⟨nc' ++ nc, by rw [hc', hc, List.append_assoc]⟩, nd' ++ nd, by rw [hd', hd, List.append_assoc]⟩

end Run

/-! ## A server -/

section Serve

variable {ι : Type}

theorem dropEntry_unique (nodeId : String) {registry : List NodeRegistryEntry}
    (h : (registry.map (·.nodeId)).Nodup) : ((dropEntry nodeId registry).map (·.nodeId)).Nodup :=
  h.sublist (List.filter_sublist.map _)

theorem putEntry_unique (entry : NodeRegistryEntry) {registry : List NodeRegistryEntry}
    (h : (registry.map (·.nodeId)).Nodup) : ((putEntry entry registry).map (·.nodeId)).Nodup := by
  refine List.nodup_cons.mpr ⟨fun hmem => ?_, dropEntry_unique entry.nodeId h⟩
  obtain ⟨e, he, heq⟩ := List.mem_map.mp hmem
  have hne := (List.mem_filter.mp he).2
  rw [heq] at hne
  simp at hne

/-- A name longer than every one in use. -/
def unusedName (usedIds : List String) (more : Nat) : String :=
  String.ofList (List.replicate ((usedIds.map String.length).sum + 1 + more) 'n')

theorem unusedName_fresh (usedIds : List String) (more : Nat) : unusedName usedIds more ∉ usedIds := by
  intro h
  have hle := List.le_sum_of_mem (List.mem_map_of_mem (f := String.length) h)
  simp only [unusedName, String.length_ofList, List.length_replicate] at hle
  omega

/-- The entry of a node that was just launched. -/
def launched (spec : ScaleOutNodeSpec) : NodeRegistryEntry where
  nodeId := spec.nodeId
  role := .app
  totalCpu := 1024
  totalMemory := 1024
  reservedCpu := 0
  reservedMemory := 0
  state := .provisioning

/-- The directory's keys. -/
def keysOf (nodeId : String) (w : World ι) : List NodeObject :=
  (if (Journal.current nodeId w.desired).isSome then [.desired] else []) ++
    if w.registry.any (·.nodeId = nodeId) then [.registry] else []

def readEntry (nodeId : String) (registry : List NodeRegistryEntry) :
    Option (Raw {e : NodeRegistryEntry // e.nodeId = nodeId}) :=
  match h : registry.find? (·.nodeId = nodeId) with
  | some e => some (.json ⟨e, by simpa using List.find?_some h⟩)
  | none => none

variable (E : Etags) (nowIso : String) (nowMs : Int) (status : String → Option HostStatus) (more : ι → Nat)

/-- Every call that can succeed does, at that time and with those statuses; each client
    draws names of its own. -/
def serve (i : ι) : (o : Op) → World ι → Resp o × World ι
  | .cluster o, w => ((s3Serve E nowIso i o w.cluster).1, { w with cluster := (s3Serve E nowIso i o w.cluster).2 })
  | .desired o, w => ((s3Serve E nowIso i o w.desired).1, { w with desired := (s3Serve E nowIso i o w.desired).2 })
  | .getRegistry nodeId, w => (.ok (readEntry nodeId w.registry), w)
  | .putRegistry node, w => (.ok (), { w with registry := putEntry node w.registry, unique := putEntry_unique node w.unique })
  | .readPool, w => (.ok (w.registry.map fun e => { entry := e, status := status e.nodeId }), w)
  | .provisionNode spec, w =>
    if spec.nodeId ∈ w.registry.map (·.nodeId) then (.error { message := "already exists" }, w)
    else
      (.ok (), { w with registry := putEntry (launched spec) w.registry, unique := putEntry_unique (launched spec) w.unique })
  | .rebalance _, w => (.ok (), w)
  | .waitForVictimDrained _, w => (true, w)
  | .remote _, w => (.ok (), w)
  | .listPrefix nodeId, w => (.ok (keysOf nodeId w, false), w)
  | .deleteObjects nodeId keys, w =>
    (.ok (), {
      cluster := w.cluster
      desired := if NodeObject.desired ∈ keys then ⟨some i, nodeId, none⟩ :: w.desired else w.desired
      registry := if NodeObject.registry ∈ keys then dropEntry nodeId w.registry else w.registry
      unique := by
        split
        · exact dropEntry_unique nodeId w.unique
        · exact w.unique })
  | .generateNodeName usedIds, w => (unusedName usedIds (more i), w)
  | .confirm, w => (true, w)
  | .now, w => (nowMs, w)
  | .register _, w => ((), w)

theorem readEntry_reads (nodeId : String) (registry : List NodeRegistryEntry) :
    (readEntry nodeId registry = none → ∀ e ∈ registry, e.nodeId ≠ nodeId) ∧
      ∀ e, readEntry nodeId registry = some (.json e) → e.1 ∈ registry := by
  unfold readEntry
  split
  · rename_i e h
    refine ⟨(fun he => by cases he), fun e' he' => ?_⟩
    cases he'
    exact List.mem_of_find?_eq_some h
  · rename_i h
    refine ⟨fun _ e he => ?_, (fun e' he' => by cases he')⟩
    simpa using List.find?_eq_none.mp h e he

theorem serve_sem (i : ι) (o : Op) (w : World ι) :
    sem E i o w (serve E nowIso nowMs status more i o w).1 (serve E nowIso nowMs status more i o w).2 := by
  cases o with
  | cluster o => exact ⟨s3Serve_sem E nowIso i o w.cluster, rfl, rfl, trivial⟩
  | desired o => exact ⟨rfl, s3Serve_sem E nowIso i o w.desired, rfl, trivial⟩
  | getRegistry nodeId =>
    obtain ⟨hnone, hsome⟩ := readEntry_reads nodeId w.registry
    exact ⟨rfl, rfl, rfl, fun h => hnone (Except.ok.inj h), fun e h => hsome e (Except.ok.inj h)⟩
  | putRegistry node => exact ⟨rfl, rfl, .inr rfl, trivial⟩
  | readPool =>
    refine ⟨rfl, rfl, rfl, fun pool h => ?_⟩
    cases h
    simp [List.map_map, Function.comp_def]
  | provisionNode spec =>
    simp only [serve]
    split
    · exact ⟨Extends.refl .., rfl, .inl rfl, trivial⟩
    · rename_i hfresh
      exact ⟨Extends.refl .., rfl, .inr ⟨hfresh, launched spec, rfl, rfl, rfl, rfl⟩, trivial⟩
  | rebalance drainNodes => exact ⟨rfl, rfl, rfl, trivial⟩
  | waitForVictimDrained nodeId => exact ⟨rfl, rfl, rfl, trivial⟩
  | remote call => exact ⟨rfl, rfl, rfl, trivial⟩
  | listPrefix nodeId =>
    refine ⟨rfl, rfl, rfl, fun keys more h hmem hnone => ?_⟩
    cases h
    simp [keysOf, hnone] at hmem
  | deleteObjects nodeId keys =>
    refine ⟨rfl, ?_, ?_, trivial⟩
    · by_cases h : NodeObject.desired ∈ keys
      · exact .inr ⟨h, if_pos h⟩
      · exact .inl (if_neg h)
    · by_cases h : NodeObject.registry ∈ keys
      · exact .inr ⟨h, if_pos h⟩
      · exact .inl (if_neg h)
  | generateNodeName usedIds => exact ⟨rfl, rfl, rfl, unusedName_fresh usedIds (more i)⟩
  | confirm => exact ⟨rfl, rfl, rfl, trivial⟩
  | now => exact ⟨rfl, rfl, rfl, trivial⟩
  | register entries => exact ⟨rfl, rfl, .inl rfl, trivial⟩

end Serve

/-! ## Tearing a node down -/

/-- A step that fails is a warning, and the next one runs. -/
def tryDestroyStep {ε : Type} (step : Command (Except ε Unit)) : Command Unit := do
  let _ ← step
  .ret ()

/-- A page of keys; an empty one asks for nothing. -/
def deleteKeys (nodeId : String) (keys : List NodeObject) : Command (Except S3Error Unit) :=
  if keys = [] then .ret (.ok ()) else Prog.cmd (Op.deleteObjects nodeId keys)

/-- `deletePrefix`, for a directory of at most that many pages. -/
def deletePrefix (nodeId : String) : Nat → Command (Except S3Error Unit)
  | 0 => .ret (.ok ())
  | pages + 1 => do
    match ← (Prog.cmd (Op.listPrefix nodeId) : Command _) with
    | .error e => .ret (.error e)
    | .ok (keys, more) =>
      match ← deleteKeys nodeId keys with
      | .error e => .ret (.error e)
      | .ok () => if more then deletePrefix nodeId pages else .ret (.ok ())

/-- A teardown of the cluster's default edge clears the pointer to it. -/
def clearDefaultEdge (node : NodeRegistryEntry) : Command (Except S3Error Unit) := do
  match ← (Prog.cmd (Op.cluster (.getJson (clusterConfigKey node.clusterId))) : Command _) with
  | .error e => .ret (.error e)
  | .ok none => .ret (.ok ())
  | .ok (some obj) =>
    match parseClusterRecord obj.raw with
    | none => .ret (.error .syntaxError)
    | some cc =>
      if cc.defaultEdge = some node.nodeId then do
        let put ← (Prog.cmd (Op.cluster (.putJson (clusterConfigKey cc.clusterId)
          (.json { cc with defaultEdge := none }) {})) : Command _)
        .ret (put.map fun _ => ())
      else .ret (.ok ())

def remote (call : RemoteCall) : Command Unit := tryDestroyStep (Prog.cmd (Op.remote call))

/-- The call, when the node has what it is about. -/
def remoteIf (id : Option String) (call : String → RemoteCall) : Command Unit :=
  match id with
  | some id => remote (call id)
  | none => .ret ()

def cordon (node : NodeRegistryEntry) : Command Unit :=
  tryDestroyStep (Prog.cmd (Op.putRegistry { node with state := .terminating }))

/-- An external node is cordoned and loses its user; another its role. -/
def releaseIam (node : NodeRegistryEntry) : Command Unit :=
  match node.provisioning with
  | .external => do
    cordon node
    remote (.deleteExternalNodeIam node.clusterId node.nodeId)
  | .ec2 => remote (.deleteNodeIam node.clusterId node.nodeId)

/-- The node's instance, address, firewall and credentials. -/
def releaseNode (node : NodeRegistryEntry) : Command Unit := do
  remoteIf node.instanceId .terminateInstance
  remoteIf node.eipAllocationId .releaseEip
  remoteIf node.securityGroupId .deleteSecurityGroup
  releaseIam node

/-- Only a named cluster has the record. -/
def forgetDefaultEdge (node : NodeRegistryEntry) : Command Unit :=
  if node.clusterId = defaultCluster then .ret () else tryDestroyStep (clearDefaultEdge node)

/-- `teardownNode`: last, every object of the node's directory. -/
def teardownNode (pages : Nat) (node : NodeRegistryEntry) : Command Unit := do
  releaseNode node
  forgetDefaultEdge node
  tryDestroyStep (deletePrefix node.nodeId pages)

end LaunchPad.Cli.Fleet
