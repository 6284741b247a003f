/-
  LaunchPad.Cli.ProvisionPlan — which nodes a deploy starts, and how large
  (`deploy/provision-plan.ts` `buildProvisionPlan`; the demands from `commands/deploy.ts`). A
  node that is placed on and has no registry entry is created, sized for what the plan puts
  on it, the largest surge included.

  Proved:
  - `demandByNode_spec`: what is summed up for a node is the total of what it is given.
  - `sizing_exact`: the type chosen for a list of demands has room for them, none before it
    has, and there is none only when no candidate has; and every node of the plan that is
    created has room for all that is placed on it.
-/
import LaunchPad.Cli.Preflight
import LaunchPad.Lib.Split
import LaunchPad.Shared.Sizing

namespace LaunchPad.Cli

open Lib

/-! ## What is placed on a node (`deploy.ts`) -/

structure NodeDemand where
  nodeId : String
  architecture : NodeArchitecture
  cpu : Int
  memory : Int
  surgeCpu : Int := 0
  surgeMemory : Int := 0
  deriving DecidableEq, Repr

/-- The sums of one node. -/
structure DemandSums where
  cpu : Int := 0
  memory : Int := 0
  surgeCpu : Int := 0
  surgeMemory : Int := 0
  deriving DecidableEq, Repr

/-- Largest single surge wins, per resource. -/
def DemandSums.add (d : DemandSums) (s : ServiceDecl) (replicas : Int) : DemandSums :=
  let surge := min s.rollout.maxSurge replicas
  { cpu := d.cpu + s.cpu * replicas
    memory := d.memory + s.memory * replicas
    surgeCpu := max d.surgeCpu (s.cpu * surge)
    surgeMemory := max d.surgeMemory (s.memory * surge) }

def addDemand (s : ServiceDecl) (m : FirstSeen String DemandSums) (p : Placement) : FirstSeen String DemandSums :=
  m.upsert p.nodeId fun d => (d.getD {}).add s p.replicas

def demandByNode (services : List ServiceDecl) (plans : List ClusterServicePlan) : FirstSeen String DemandSums :=
  services.foldl (fun m s => (placementsOf plans s.name).foldl (addDemand s) m) FirstSeen.empty

/-- The demand of every node in the pool of a service. Of two candidates of one id the last
    counts. -/
def nodeDemands (services : List ServiceDecl) (plans : List ClusterServicePlan) (candidateNodes : List CandidateNode)
    (nodes : List (String × NodeRegistryEntry)) : List NodeDemand :=
  (plans.flatMap (·.pool)).eraseDups.map fun nodeId =>
    let d := (SortedMap.get nodeId (demandByNode services plans).byKey).getD {}
    let candidate := (candidateNodes.filter (·.nodeId = nodeId)).getLast?
    { nodeId
      architecture := ((candidate.map (·.architecture)).or ((SortedMap.get nodeId nodes).map (·.architecture))).getD .arm64
      cpu := d.cpu, memory := d.memory, surgeCpu := d.surgeCpu, surgeMemory := d.surgeMemory }

/-! ## The plan -/

structure NewNode where
  nodeId : String
  role : NodeRole
  edgeNodeId : Option String
  instanceType : String
  architecture : NodeArchitecture
  capacity : InstanceCapacity
  deriving DecidableEq, Repr

inductive NodeAction where
  | ready (nodeId : String) (entry : NodeRegistryEntry)
  | resume (nodeId : String) (entry : NodeRegistryEntry)
  | create (node : NewNode)
  deriving DecidableEq, Repr

inductive ProvisionError where
  /-- `node does not exist`, under `--no-create`. -/
  | missing (nodeId : String)
  | noInstanceType (nodeId : String) (peakCpu peakMemory : Int)
  deriving DecidableEq, Repr

structure BuildProvisionPlanArgs where
  demands : List NodeDemand
  edgeNodeId : String
  load : String → Option NodeRegistryEntry
  allowCreate : Bool
  floor : String := "t4g.micro"

/-- The body of the loop. -/
def planNode (args : BuildProvisionPlanArgs) (d : NodeDemand) : Except ProvisionError NodeAction :=
  match args.load d.nodeId with
  | some entry =>
    -- An operator's own host is never resumed.
    if entry.provisioning = .external then .ok (.ready d.nodeId entry)
    else if entry.state = .stopped then .ok (.resume d.nodeId entry)
    else .ok (.ready d.nodeId entry)
  | none =>
    if !args.allowCreate then .error (.missing d.nodeId)
    else
      let peakCpu := d.cpu + d.surgeCpu
      let peakMemory := d.memory + d.surgeMemory
      match smallestInstanceTypeFor peakCpu peakMemory { floor := args.floor, architecture := some d.architecture } with
      | none => .error (.noInstanceType d.nodeId peakCpu peakMemory)
      | some sized => .ok (.create {
          nodeId := d.nodeId, role := .app, edgeNodeId := some args.edgeNodeId, instanceType := sized.instanceType
          architecture := sized.capacity.architecture, capacity := sized.capacity })

def buildProvisionPlan (args : BuildProvisionPlanArgs) : Except ProvisionError (List NodeAction) :=
  args.demands.mapM (planNode args)

/-! ## The sums -/

def DemandSums.cpuLoad (d : DemandSums) : Load Int := ⟨d.cpu, d.surgeCpu⟩
def DemandSums.memoryLoad (d : DemandSums) : Load Int := ⟨d.memory, d.surgeMemory⟩

/-- The sums of what one node is given. -/
def sumsOf (placed : List NodeService) : DemandSums := placed.foldl (fun d p => d.add p.built.decl p.replicas) {}

theorem sumsOf_cpu (project : String) (placed : List NodeService) :
    (sumsOf placed).cpuLoad = cpuTotal (placed.map (·.demand project)) := by
  have hfold : ∀ (l : List NodeService) (d : DemandSums),
      (l.foldl (fun d p => d.add p.built.decl p.replicas) d).cpuLoad =
        Load.total d.cpuLoad ((l.map (·.demand project)).map (·.cpuLoad)) := by
    intro l
    induction l with
    | nil => exact fun d => rfl
    | cons p l ih => exact fun d => ih _
  exact hfold placed {}

theorem sumsOf_memory (project : String) (placed : List NodeService) :
    (sumsOf placed).memoryLoad = memoryTotal (placed.map (·.demand project)) := by
  have hfold : ∀ (l : List NodeService) (d : DemandSums),
      (l.foldl (fun d p => d.add p.built.decl p.replicas) d).memoryLoad =
        Load.total d.memoryLoad ((l.map (·.demand project)).map (·.memoryLoad)) := by
    intro l
    induction l with
    | nil => exact fun d => rfl
    | cons p l ih => exact fun d => ih _
  exact hfold placed {}

/-- The sums are of what the nodes are given so far. -/
def Sums (m : FirstSeen String DemandSums) (g : FirstSeen String (List NodeService)) : Prop :=
  ∀ id, (SortedMap.get id m.byKey).getD {} = sumsOf (contentOf g id)

theorem Sums.add {m : FirstSeen String DemandSums} {g : FirstSeen String (List NodeService)} (h : Sums m g)
    (b : BuiltService) (p : Placement) : Sums (addDemand b.decl m p) (addPlacement b g p) := by
  intro id
  unfold addDemand addPlacement contentOf
  rw [FirstSeen.get_upsert, FirstSeen.get_upsert]
  by_cases hid : id = p.nodeId
  · rw [if_pos hid, if_pos hid, Option.getD_some, Option.getD_some, h p.nodeId]
    unfold sumsOf contentOf
    rw [List.foldl_append]
    rfl
  · rw [if_neg hid, if_neg hid]
    exact h id

theorem Sums.addAll {m : FirstSeen String DemandSums} {g : FirstSeen String (List NodeService)} (h : Sums m g)
    (b : BuiltService) (ps : List Placement) : Sums (ps.foldl (addDemand b.decl) m) (ps.foldl (addPlacement b) g) := by
  induction ps generalizing m g with
  | nil => exact h
  | cons p ps ih => exact ih (h.add b p)

/-- What is summed up for a node is what the plan gives it. -/
theorem demandByNode_spec (built : List BuiltService) (plans : List ClusterServicePlan) (id : String) :
    (SortedMap.get id (demandByNode (built.map (·.decl)) plans).byKey).getD {} = sumsOf (nodeServices built plans id) := by
  have hfold : ∀ (l : List BuiltService) (m : FirstSeen String DemandSums) (g : FirstSeen String (List NodeService)),
      Sums m g → Sums (l.foldl (fun m b => (placementsOf plans b.decl.name).foldl (addDemand b.decl) m) m)
        (l.foldl (fun g b => (placementsOf plans b.decl.name).foldl (addPlacement b) g) g) := by
    intro l
    induction l with
    | nil => exact fun m g h => h
    | cons b l ih => exact fun m g h => ih _ _ (h.addAll b _)
  have hsums := hfold built FirstSeen.empty FirstSeen.empty (fun _ => rfl) id
  have hempty : Filled FirstSeen.empty := fun id l h => by cases h
  have hcontent := (nodePlacements_spec plans built hempty).2 id
  unfold demandByNode
  rw [List.foldl_map, hsums, hcontent]
  rfl

/-! ## The nodes that are created -/

/-- A created node is of the type chosen for its demand. -/
theorem planNode_create {args : BuildProvisionPlanArgs} {d : NodeDemand} {node : NewNode}
    (h : planNode args d = .ok (.create node)) : node.nodeId = d.nodeId ∧
      ∃ sized, smallestInstanceTypeFor (d.cpu + d.surgeCpu) (d.memory + d.surgeMemory)
        { floor := args.floor, architecture := some d.architecture } = some sized ∧ node.capacity = sized.capacity := by
  unfold planNode at h
  cases hload : args.load d.nodeId with
  | some entry =>
    rw [hload] at h
    dsimp only at h
    split at h
    · cases h
    · split at h <;> cases h
  | none =>
    rw [hload] at h
    dsimp only at h
    split at h
    · cases h
    · cases hsized : smallestInstanceTypeFor (d.cpu + d.surgeCpu) (d.memory + d.surgeMemory)
          { floor := args.floor, architecture := some d.architecture } with
      | none =>
        rw [hsized] at h
        cases h
      | some sized =>
        rw [hsized] at h
        cases h
        exact ⟨rfl, sized, rfl, rfl⟩

/-- The demand of a node is the peak of all it is given. -/
theorem nodeDemands_peak {built : List BuiltService} {plans : List ClusterServicePlan} {candidateNodes : List CandidateNode}
    {nodes : List (String × NodeRegistryEntry)} {d : NodeDemand}
    (hd : d ∈ nodeDemands (built.map (·.decl)) plans candidateNodes nodes) (project : String) :
    d.cpu + d.surgeCpu = (cpuTotal ((nodeServices built plans d.nodeId).map (·.demand project))).peak ∧
      d.memory + d.surgeMemory = (memoryTotal ((nodeServices built plans d.nodeId).map (·.demand project))).peak := by
  obtain ⟨nodeId, -, rfl⟩ := List.mem_map.mp hd
  have hsums := demandByNode_spec built plans nodeId
  rw [← sumsOf_cpu, ← sumsOf_memory, ← hsums]
  exact ⟨rfl, rfl⟩

/-- For every list of demands and every choice of reservations, floor and architecture, the
    choice has room, nothing before it has, and there is none only when nothing has. And
    every node a deploy's plan creates has room for all that is placed on it. -/
theorem sizing_exact (services : List CapacityServiceDemand) (opts : SmallestTypeOptions) (project : String)
    (built : List BuiltService) (plans : List ClusterServicePlan) (candidateNodes : List CandidateNode)
    (nodes : List (String × NodeRegistryEntry)) (edgeNodeId : String) (load : String → Option NodeRegistryEntry)
    (allowCreate : Bool) (floor : String) :
    (∀ c, smallestInstanceTypeFor (cpuTotal services).peak (memoryTotal services).peak opts = some c →
      c ∈ eligible opts ∧ passesOn c opts services = true ∧
        ∀ t ∈ eligible opts, sizeKey t < sizeKey c → passesOn t opts services = false) ∧
    (smallestInstanceTypeFor (cpuTotal services).peak (memoryTotal services).peak opts = none →
      ∀ t ∈ eligible opts, passesOn t opts services = false) ∧
    ∀ actions node,
      buildProvisionPlan ⟨nodeDemands (built.map (·.decl)) plans candidateNodes nodes, edgeNodeId, load, allowCreate, floor⟩ =
        .ok actions →
      NodeAction.create node ∈ actions →
      (checkCapacity {
        totalCpu := node.capacity.totalCpu
        totalMemory := node.capacity.totalMemory
        reservedCpu := defaultReservedCpu
        reservedMemory := defaultReservedMemory
        services := (nodeServices built plans node.nodeId).map (·.demand project) }).ok = true := by
  refine ⟨fun c h => smallest_spec h, smallest_none.mp, fun actions node hplan hnode => ?_⟩
  obtain ⟨d, hd, hcreate⟩ := (mapM_ok_iff hplan).2 _ hnode
  obtain ⟨hid, sized, hsized, hcapacity⟩ := planNode_create hcreate
  obtain ⟨hcpu, hmemory⟩ := nodeDemands_peak hd project
  rw [hcpu, hmemory] at hsized
  rw [hid, hcapacity]
  exact (smallest_spec hsized).2.1

end LaunchPad.Cli
