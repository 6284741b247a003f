/-
  LaunchPad.Cli.Cluster — a cluster as the CLI reads it: one directory per node, with its
  registry entry, its `desired.json` and its last heartbeat; the scheduler's view of it
  (`deploy/candidate-nodes.ts` `buildCandidateNodes`) and a footprint's published
  placement (`deploy/deployed-footprint.ts`).

  Proved:
  - `Pool.candidates_nodup`: the schedulable pool names each node once.
  - `candidate_loads`: a candidate's committed load is the total demand of the other
    projects' published services.
-/
import LaunchPad.Shared.Schema
import LaunchPad.Cli.Placement
import Mathlib.Data.String.Basic

namespace LaunchPad.Cli

open Lib

/-- `HEARTBEAT_STALE_MS`. -/
def heartbeatStaleMs : Int := 60000

/-- The directories of a cluster's nodes. A status document is kept as the time of its
    heartbeat. -/
structure ClusterState where
  /-- `listNodeIds`: every directory, in key order. -/
  nodeIds : List String
  registry : String → Option (Raw NodeRegistryEntry)
  desired : String → Option (Raw DesiredState)
  status : String → Option (Raw Int)
  sorted : nodeIds.Pairwise (· < ·)
  named : ∀ id ∈ nodeIds, id ≠ ""
  /-- An object lies in a directory. -/
  listed : ∀ id, registry id ≠ none ∨ desired id ≠ none → id ∈ nodeIds

/-! ## Directories -/

/-- A new directory among those in key order. -/
def insertId (id : String) : List String → List String
  | [] => [id]
  | x :: xs => if id = x then x :: xs else if id < x then id :: x :: xs else x :: insertId id xs

theorem mem_insertId {id x : String} {ids : List String} : x ∈ insertId id ids ↔ x = id ∨ x ∈ ids := by
  induction ids with
  | nil => simp [insertId]
  | cons y ys ih =>
    rw [insertId]
    split
    · rename_i h; subst h; simp
    · split
      · simp
      · simp only [List.mem_cons, ih]
        exact or_left_comm

theorem insertId_sorted {id : String} {ids : List String} (h : ids.Pairwise (· < ·)) :
    (insertId id ids).Pairwise (· < ·) := by
  induction ids with
  | nil => exact List.pairwise_singleton _ _
  | cons y ys ih =>
    rw [insertId]
    split
    · exact h
    · rename_i hne
      obtain ⟨hy, hys⟩ := List.pairwise_cons.mp h
      split
      · rename_i hlt
        refine List.pairwise_cons.mpr ⟨fun x hx => ?_, h⟩
        rcases List.mem_cons.mp hx with rfl | hx
        · exact hlt
        · exact hlt.trans (hy x hx)
      · rename_i hnlt
        refine List.pairwise_cons.mpr ⟨fun x hx => ?_, ih hys⟩
        rcases mem_insertId.mp hx with rfl | hx
        · exact lt_of_le_of_ne (not_lt.mp hnlt) (Ne.symm hne)
        · exact hy x hx

/-! ## Reading a node's objects -/

/-- `NodeRegistryEntrySchema`, for the fields kept here. -/
def nodeRegistryEntrySchema (e : NodeRegistryEntry) : Bool :=
  e.nodeId != "" && labelMatches e.clusterId && decide (0 ≤ e.totalCpu) && decide (0 ≤ e.totalMemory) &&
    decide (0 ≤ e.reservedCpu) && decide (0 ≤ e.reservedMemory)

def parseNodeRegistryEntry : Raw NodeRegistryEntry → Option NodeRegistryEntry
  | .json e => if nodeRegistryEntrySchema e then some e else none
  | .other _ => none

/-- `desired.json`, or an empty document when it is absent, legacy or corrupt. -/
def readDesired (st : ClusterState) (id now : String) : DesiredState :=
  match st.desired id with
  | some raw => parseDesiredStateOrEmpty id raw now
  | none => emptyDesiredState id now

/-- What a document that parses says runs there. -/
def publishedServices (st : ClusterState) (id : String) : List ServiceConfig :=
  match (st.desired id).bind parseDesiredState with
  | some d => d.services
  | none => []

theorem readDesired_services (st : ClusterState) (id now : String) :
    (readDesired st id now).services = publishedServices st id := by
  unfold readDesired publishedServices
  cases st.desired id with
  | none => rfl
  | some raw =>
    show (parseDesiredStateOrEmpty id raw now).services = _
    unfold parseDesiredStateOrEmpty
    cases h : parseDesiredState raw <;> simp [h, emptyDesiredState]

theorem publishedServices_sized {st : ClusterState} {id : String} {c : ServiceConfig}
    (h : c ∈ publishedServices st id) : Sized c := by
  unfold publishedServices at h
  split at h
  · rename_i d hd
    obtain ⟨raw, _, hraw⟩ := Option.bind_eq_some_iff.mp hd
    exact parsed_sized hraw h
  · cases h

/-! ## The schedulable pool (`candidate-nodes.ts`) -/

def isHeartbeatStale (lastSeen nowMs staleMs : Int) : Bool := decide (nowMs - lastSeen > staleMs)

def externalNodeHasFreshHeartbeat (st : ClusterState) (nodeId : String) (nowMs : Int) : Bool :=
  match st.status nodeId with
  | some (.json lastSeen) => !isHeartbeatStale lastSeen nowMs heartbeatStaleMs
  | _ => false

structure CandidateNodes where
  /-- Every registered node, all roles. -/
  nodes : List (String × NodeRegistryEntry)
  clusterAppNodeIds : List String
  candidateNodes : List CandidateNode
  deriving DecidableEq, Repr

inductive DeployError where
  /-- A registry entry its schema refuses. -/
  | malformedRegistry (nodeId : String)
  | plan (e : PlanError)
  | unknownNode (nodeId : String)
  | noCapacity (nodeId : String) (result : CapacityCheckResult) (merged : List CapacityServiceDemand)
  deriving DecidableEq, Repr

/-- The registered nodes among some directories; a directory without `node.json` is passed over. -/
def registeredNodes (st : ClusterState) : List String → Except DeployError (List (String × NodeRegistryEntry))
  | [] => .ok []
  | id :: ids =>
    match st.registry id with
    | none => registeredNodes st ids
    | some raw =>
      match parseNodeRegistryEntry raw with
      | none => .error (.malformedRegistry id)
      | some entry => do
        let rest ← registeredNodes st ids
        return (id, entry) :: rest

/-- An app node, and if external a ready one that was seen lately. -/
def schedulable (st : ClusterState) (nowMs : Int) (id : String) (entry : NodeRegistryEntry) : Bool :=
  nodeHostsContainers entry.role &&
    (entry.provisioning != .external ||
      ((entry.state == .ready || entry.state == .provisioning) && externalNodeHasFreshHeartbeat st id nowMs))

/-- The demand of the other projects' services. -/
def committedDemands (st : ClusterState) (ownerProject id : String) : List CapacityServiceDemand :=
  demandsOf ((publishedServices st id).filter (·.project ≠ ownerProject))

def candidateNode (st : ClusterState) (ownerProject : String) (needsCapacitySnapshot : Bool) (id : String)
    (entry : NodeRegistryEntry) : CandidateNode :=
  let ds := if needsCapacitySnapshot then committedDemands st ownerProject id else []
  { nodeId := id
    architecture := entry.architecture
    allocatableCpu := allocatableCpu entry
    allocatableMemory := allocatableMemory entry
    steadyCpu := ds.foldl (fun sum d => sum + d.cpu) 0
    steadyMemory := ds.foldl (fun sum d => sum + d.memory) 0
    maxSurgeCpu := ds.foldl (fun m d => max m d.surgeCpu) 0
    maxSurgeMemory := ds.foldl (fun m d => max m d.surgeMemory) 0 }

def buildCandidateNodes (st : ClusterState) (ownerProject : String) (needsCapacitySnapshot : Bool) (nowMs : Int) :
    Except DeployError CandidateNodes := do
  let nodes ← registeredNodes st st.nodeIds
  let pool := nodes.filter fun e => schedulable st nowMs e.1 e.2
  return {
    nodes
    clusterAppNodeIds := pool.map (·.1)
    candidateNodes := pool.map fun e => candidateNode st ownerProject needsCapacitySnapshot e.1 e.2 }

/-! ## The published placement (`deployed-footprint.ts`) -/

structure NodeOccupancy where
  service : String
  replicas : Int
  ingress : Option Ingress
  deriving DecidableEq, Repr

structure DeployedPlacementSnapshot where
  /-- Every node that hosts the footprint, sorted. -/
  occupiedNodeIds : List String
  byNode : List (String × List NodeOccupancy)
  deriving DecidableEq, Repr

def occupanciesOf (st : ClusterState) (ownerProject id : String) : List NodeOccupancy :=
  ((publishedServices st id).filter (·.project = ownerProject)).map fun s => ⟨s.service, s.replicas, s.ingress⟩

/-- `loadDeployedPlacement`: absent and malformed documents are skipped. The directories
    come in key order, so the occupied ones need no sorting. -/
def loadDeployedPlacement (st : ClusterState) (ownerProject : String) : DeployedPlacementSnapshot :=
  let byNode := (st.nodeIds.map fun id => (id, occupanciesOf st ownerProject id)).filter fun e => !e.2.isEmpty
  { occupiedNodeIds := byNode.map (·.1), byNode }

/-- The first node a service occupies. -/
def publishedNodeOf (snapshot : DeployedPlacementSnapshot) (serviceName : String) : Option String :=
  (snapshot.byNode.find? fun e => e.2.any (·.service == serviceName)).map (·.1)

/-! ## What the views say -/

theorem ClusterState.nodup (st : ClusterState) : st.nodeIds.Nodup := by
  apply st.sorted.imp
  intro a b h
  rintro rfl
  exact String.lt_irrefl _ h

/-- A node's registry entry, when it has one its schema accepts. -/
def entryOf (st : ClusterState) (id : String) : Option NodeRegistryEntry :=
  (st.registry id).bind parseNodeRegistryEntry

theorem registeredNodes_eq {st : ClusterState} {ids : List String} {nodes : List (String × NodeRegistryEntry)}
    (h : registeredNodes st ids = .ok nodes) : nodes = ids.filterMap fun id => (entryOf st id).map fun e => (id, e) := by
  induction ids generalizing nodes with
  | nil => cases h; rfl
  | cons id ids ih =>
    rw [registeredNodes] at h
    rw [List.filterMap_cons]
    cases hr : st.registry id with
    | none =>
      rw [hr] at h
      simp only [entryOf, hr, Option.bind_none, Option.map_none]
      exact ih h
    | some raw =>
      simp only [hr] at h
      simp only [entryOf, hr, Option.bind_some]
      cases hp : parseNodeRegistryEntry raw with
      | none => rw [hp] at h; cases h
      | some entry =>
        rw [hp] at h
        cases hrest : registeredNodes st ids with
        | error e => simp only [hrest, bind, Except.bind] at h; cases h
        | ok rest =>
          simp only [hrest, bind, Except.bind] at h
          cases h
          rw [ih hrest]
          rfl

/-- The registry is read when every entry is well formed. -/
theorem registeredNodes_ok {st : ClusterState} {ids : List String}
    (h : ∀ id ∈ ids, st.registry id ≠ none → entryOf st id ≠ none) : ∃ nodes, registeredNodes st ids = .ok nodes := by
  induction ids with
  | nil => exact ⟨[], rfl⟩
  | cons id ids ih =>
    obtain ⟨rest, hrest⟩ := ih fun x hx => h x (List.mem_cons_of_mem _ hx)
    have hid := h id (List.mem_cons_self ..)
    rw [registeredNodes]
    cases hr : st.registry id with
    | none => exact ⟨rest, hrest⟩
    | some raw =>
      cases hp : parseNodeRegistryEntry raw with
      | none => exact absurd (by rw [entryOf, hr]; exact hp) (hid (by rw [hr]; exact fun e => by cases e))
      | some entry => exact ⟨(id, entry) :: rest, by simp only [hp, hrest]; rfl⟩

/-- The pool the planner gets: the registered nodes that can take containers, in key order. -/
structure Pool (st : ClusterState) (ownerProject : String) (nowMs : Int) (c : CandidateNodes) : Prop where
  nodes : c.nodes = st.nodeIds.filterMap fun id => (entryOf st id).map fun e => (id, e)
  candidates : c.candidateNodes = (c.nodes.filter fun e => schedulable st nowMs e.1 e.2).map
    fun e => candidateNode st ownerProject true e.1 e.2

theorem buildCandidateNodes_spec {st : ClusterState} {ownerProject : String} {nowMs : Int} {c : CandidateNodes}
    (h : buildCandidateNodes st ownerProject true nowMs = .ok c) : Pool st ownerProject nowMs c := by
  unfold buildCandidateNodes at h
  cases hn : registeredNodes st st.nodeIds with
  | error e => rw [hn] at h; cases h
  | ok nodes =>
    rw [hn] at h
    cases h
    exact ⟨registeredNodes_eq hn, rfl⟩

section Pool

variable {st : ClusterState} {ownerProject : String} {nowMs : Int} {c : CandidateNodes}

theorem Pool.mem_nodes (h : Pool st ownerProject nowMs c) {id : String} {entry : NodeRegistryEntry} :
    (id, entry) ∈ c.nodes ↔ entryOf st id = some entry := by
  rw [h.nodes, List.mem_filterMap]
  constructor
  · intro ⟨id', _, he⟩
    obtain ⟨e, he, heq⟩ := Option.map_eq_some_iff.mp he
    cases heq
    exact he
  · intro he
    refine ⟨id, st.listed id (.inl ?_), by rw [he]; rfl⟩
    intro hr
    rw [entryOf, hr] at he
    cases he

theorem Pool.nodes_nodup (h : Pool st ownerProject nowMs c) : (c.nodes.map (·.1)).Nodup := by
  have hsub : (c.nodes.map (·.1)).Sublist st.nodeIds := by
    rw [h.nodes]
    clear h
    induction st.nodeIds with
    | nil => exact List.Sublist.refl _
    | cons id ids ih =>
      rw [List.filterMap_cons]
      cases entryOf st id with
      | none => exact ih.cons _
      | some e => exact ih.cons_cons _
  exact st.nodup.sublist hsub

theorem Pool.candidates_nodup (h : Pool st ownerProject nowMs c) :
    ((c.candidateNodes.map tallyOf).map (·.id)).Nodup := by
  have hids : (c.candidateNodes.map tallyOf).map (·.id) =
      (c.nodes.filter fun e => schedulable st nowMs e.1 e.2).map (·.1) := by
    rw [h.candidates, List.map_map, List.map_map]
    rfl
  rw [hids]
  exact h.nodes_nodup.sublist (List.Sublist.map _ List.filter_sublist)

theorem Pool.mem_candidates (h : Pool st ownerProject nowMs c) {x : CandidateNode} :
    x ∈ c.candidateNodes ↔
      ∃ id entry, entryOf st id = some entry ∧ schedulable st nowMs id entry = true ∧
        x = candidateNode st ownerProject true id entry := by
  rw [h.candidates, List.mem_map]
  constructor
  · intro ⟨⟨id, entry⟩, he, hx⟩
    obtain ⟨hmem, hs⟩ := List.mem_filter.mp he
    exact ⟨id, entry, h.mem_nodes.mp hmem, hs, hx.symm⟩
  · intro ⟨id, entry, hmem, hs, hx⟩
    exact ⟨(id, entry), List.mem_filter.mpr ⟨h.mem_nodes.mpr hmem, hs⟩, hx.symm⟩

end Pool

/-- A candidate starts from the total demand of the other projects. -/
theorem candidate_loads (st : ClusterState) (ownerProject id : String) (entry : NodeRegistryEntry) :
    (tallyOf (candidateNode st ownerProject true id entry)).cpuLoad = cpuTotal (committedDemands st ownerProject id) ∧
      (tallyOf (candidateNode st ownerProject true id entry)).memoryLoad =
        memoryTotal (committedDemands st ownerProject id) := by
  constructor
  · ext
    · simp [tallyOf, candidateNode, NodeTally.cpuLoad, cpuTotal, Load.total_steady, List.foldl_map, idle,
        CapacityServiceDemand.cpuLoad]
    · simp [tallyOf, candidateNode, NodeTally.cpuLoad, cpuTotal, Load.total_surge, List.foldl_map, idle,
        CapacityServiceDemand.cpuLoad]
  · ext
    · simp [tallyOf, candidateNode, NodeTally.memoryLoad, memoryTotal, Load.total_steady, List.foldl_map, idle,
        CapacityServiceDemand.memoryLoad]
    · simp [tallyOf, candidateNode, NodeTally.memoryLoad, memoryTotal, Load.total_surge, List.foldl_map, idle,
        CapacityServiceDemand.memoryLoad]

end LaunchPad.Cli
