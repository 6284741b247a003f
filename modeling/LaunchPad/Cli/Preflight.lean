/-
  LaunchPad.Cli.Preflight — a deploy up to its capacity pre-flight (`commands/deploy.ts`):
  plan the declared services on the registered app nodes, gather what each node gets, and
  check each node against the complete set of services it will carry.

  The planner counts what other projects publish on a node. The pre-flight counts the
  same, and under a partial deploy also the project's own services that the run keeps.

  Proved:
  - `plan_survives`: a plan that succeeds passes the pre-flight when no node of it keeps a
    service of the project that the run does not place there.
  - `accepted_plans_survive`: over all registries and all sizes of the declared services,
    that is the case exactly for a full deploy, or when all the project has published is
    the one service being deployed.
-/
import LaunchPad.Cli.Cluster
import LaunchPad.Lib.FirstSeen

namespace LaunchPad.Cli

open Lib

/-! ## Declarations (`config.ts`) -/

structure BackupDecl where
  schedule : String
  retentionDays : Int
  deriving DecidableEq, Repr

/-- One `[[service]]`, with the bounds its schema puts on its numbers. -/
structure ServiceDecl where
  name : String
  cpu : Int
  memory : Int
  replicas : Int := 1
  env : List (String × String) := []
  secrets : List String := []
  cron : Option String := none
  domain : Option String := none
  port : Option Int := none
  healthCheck : Option HealthCheck := none
  rollout : Rollout := {}
  volumes : List VolumeDecl := []
  database : Option ServiceDatabase := none
  backup : Option BackupDecl := none
  cpu_pos : 1 ≤ cpu := by decide
  memory_pos : 1 ≤ memory := by decide
  replicas_pos : 1 ≤ replicas := by decide
  maxSurge_pos : 1 ≤ rollout.maxSurge := by decide

/-- A `[[service]]` with its defaults. -/
def plainDecl : ServiceDecl where
  name := "web"
  cpu := 100
  memory := 100

/-- The services of one run: those of the configuration, or a subset; names are unique. -/
structure Footprint where
  services : List ServiceDecl
  nodup : (services.map (·.name)).Nodup

/-- A service with its image and its domain for the environment. -/
structure BuiltService where
  decl : ServiceDecl
  image : String
  domain : Option String

/-- What one node gets of a service. -/
structure NodeService where
  built : BuiltService
  replicas : Int

/-! ## Planning -/

/-- What the planner is told of a service. -/
def clusterInput (priorPlacement : DeployedPlacementSnapshot) (s : ServiceDecl) : ClusterServiceInput where
  name := s.name
  replicas := s.replicas
  cpu := s.cpu
  memory := s.memory
  maxSurge := s.rollout.maxSurge
  isWeb := s.domain.isSome && s.port.isSome
  hasVolumes := !s.volumes.isEmpty
  stickyNodeId := if s.volumes.isEmpty then none else publishedNodeOf priorPlacement s.name

def clusterInputs (st : ClusterState) (ownerProject : String) (services : List ServiceDecl) :
    List ClusterServiceInput :=
  services.map (clusterInput (loadDeployedPlacement st ownerProject))

/-- Plan on the nodes that are registered. -/
def planRegistered (st : ClusterState) (ownerProject : String) (services : List ServiceDecl) (nowMs : Int) :
    Except DeployError (CandidateNodes × List ClusterServicePlan) := do
  let c ← buildCandidateNodes st ownerProject true nowMs
  match planClusterPlacement c.candidateNodes (clusterInputs st ownerProject services) with
  | .error e => .error (.plan e)
  | .ok plans => .ok (c, plans)

/-- Replicas by node, in first-seen order. -/
def addPlacement (b : BuiltService) (g : FirstSeen String (List NodeService)) (p : Placement) :
    FirstSeen String (List NodeService) :=
  g.upsert p.nodeId fun l => l.getD [] ++ [⟨b, p.replicas⟩]

def nodePlacements (built : List BuiltService) (plans : List ClusterServicePlan) :
    FirstSeen String (List NodeService) :=
  built.foldl (fun g b => (placementsOf plans b.decl.name).foldl (addPlacement b) g) FirstSeen.empty

/-! ## The pre-flight -/

def NodeService.demand (project : String) (p : NodeService) : CapacityServiceDemand :=
  let surge := min p.built.decl.rollout.maxSurge p.replicas
  { project, service := p.built.decl.name, cpu := p.built.decl.cpu * p.replicas
    memory := p.built.decl.memory * p.replicas, surgeCpu := p.built.decl.cpu * surge
    surgeMemory := p.built.decl.memory * surge }

/-- The project's services on the node that a partial deploy does not republish there. -/
def keptSiblings (project : String) (services : List ServiceConfig) (placed : List NodeService) :
    List ServiceConfig :=
  services.filter fun s => s.project = project && !(placed.map (·.built.decl.name)).contains s.service

def capacityDemands (project : String) (state : DesiredState) (placed : List NodeService) (partialDeploy : Bool) :
    List CapacityServiceDemand :=
  let others := demandsOf (state.services.filter (·.project ≠ project))
  let kept := if partialDeploy then demandsOf (keptSiblings project state.services placed) else []
  let incoming := placed.map (·.demand project)
  others ++ kept ++ incoming

def assertCapacity (nodeId : String) (node : NodeRegistryEntry) (merged : List CapacityServiceDemand) :
    Except DeployError Unit :=
  let result := checkCapacity {
    totalCpu := node.totalCpu
    totalMemory := node.totalMemory
    reservedCpu := node.reservedCpu
    reservedMemory := node.reservedMemory
    services := merged }
  if result.ok then .ok () else .error (.noCapacity nodeId result merged)

/-- Before anything is built, node by node. -/
def preflight (st : ClusterState) (nodes : List (String × NodeRegistryEntry)) (ownerProject : String)
    (partialDeploy : Bool) (now : String) : List (String × List NodeService) → Except DeployError Unit
  | [] => .ok ()
  | (id, placed) :: rest =>
    match SortedMap.get id nodes with
    | none => .error (.unknownNode id)
    | some node => do
      assertCapacity id node (capacityDemands ownerProject (readDesired st id now) placed partialDeploy)
      preflight st nodes ownerProject partialDeploy now rest

/-! ## What each node gets -/

/-- What the plan gives one node, service by service. -/
def nodeServices (built : List BuiltService) (plans : List ClusterServicePlan) (id : String) : List NodeService :=
  built.flatMap fun b => (sharesOn id (placementsOf plans b.decl.name)).map fun n => ⟨b, n⟩

/-- Every group has something in it. -/
def Filled (g : FirstSeen String (List NodeService)) : Prop := ∀ id l, SortedMap.get id g.byKey = some l → l ≠ []

def contentOf (g : FirstSeen String (List NodeService)) (id : String) : List NodeService :=
  (SortedMap.get id g.byKey).getD []

theorem addPlacement_spec {b : BuiltService} {g : FirstSeen String (List NodeService)} (hg : Filled g) (p : Placement) :
    Filled (addPlacement b g p) ∧
      ∀ id, contentOf (addPlacement b g p) id = contentOf g id ++ (sharesOn id [p]).map fun n => ⟨b, n⟩ := by
  constructor
  · intro id l hl
    rw [addPlacement, FirstSeen.get_upsert] at hl
    split at hl
    · cases hl; simp
    · exact hg id l hl
  · intro id
    unfold contentOf
    rw [addPlacement, FirstSeen.get_upsert]
    by_cases hid : id = p.nodeId
    · subst hid; simp [sharesOn]
    · simp [sharesOn, hid, Ne.symm hid]

theorem addPlacements_spec {b : BuiltService} (ps : List Placement) {g : FirstSeen String (List NodeService)}
    (hg : Filled g) :
    Filled (ps.foldl (addPlacement b) g) ∧
      ∀ id, contentOf (ps.foldl (addPlacement b) g) id = contentOf g id ++ (sharesOn id ps).map fun n => ⟨b, n⟩ := by
  induction ps generalizing g with
  | nil => exact ⟨hg, fun id => by simp [sharesOn]⟩
  | cons p ps ih =>
    obtain ⟨hfilled, hcontent⟩ := addPlacement_spec (b := b) hg p
    obtain ⟨hfilled', hcontent'⟩ := ih hfilled
    refine ⟨hfilled', fun id => ?_⟩
    rw [List.foldl_cons, hcontent' id, hcontent id, List.append_assoc, ← List.map_append]
    congr 2
    by_cases hid : p.nodeId = id <;> simp [sharesOn, hid]

theorem nodePlacements_spec (plans : List ClusterServicePlan) (built : List BuiltService)
    {g : FirstSeen String (List NodeService)} (hg : Filled g) :
    Filled (built.foldl (fun g b => (placementsOf plans b.decl.name).foldl (addPlacement b) g) g) ∧
      ∀ id, contentOf (built.foldl (fun g b => (placementsOf plans b.decl.name).foldl (addPlacement b) g) g) id =
        contentOf g id ++ nodeServices built plans id := by
  induction built generalizing g with
  | nil => exact ⟨hg, fun id => (List.append_nil _).symm⟩
  | cons b built ih =>
    obtain ⟨hfilled, hcontent⟩ := addPlacements_spec (b := b) (placementsOf plans b.decl.name) hg
    obtain ⟨hfilled', hcontent'⟩ := ih hfilled
    refine ⟨hfilled', fun id => ?_⟩
    rw [List.foldl_cons, hcontent' id, hcontent id, List.append_assoc]
    rfl

/-- No node is listed twice. -/
theorem nodePlacements_nodup (built : List BuiltService) (plans : List ClusterServicePlan) :
    ((nodePlacements built plans).entries.map (·.1)).Nodup := by
  rw [FirstSeen.entries_keys]
  have hservice : ∀ (b : BuiltService) (ps : List Placement) (g : FirstSeen String (List NodeService)),
      g.order.Nodup → (ps.foldl (addPlacement b) g).order.Nodup := by
    intro b ps
    induction ps with
    | nil => exact fun g h => h
    | cons p ps ih => exact fun g h => ih _ (FirstSeen.upsert_nodup h)
  have hall : ∀ (l : List BuiltService) (g : FirstSeen String (List NodeService)), g.order.Nodup →
      (l.foldl (fun g b => (placementsOf plans b.decl.name).foldl (addPlacement b) g) g).order.Nodup := by
    intro l
    induction l with
    | nil => exact fun g h => h
    | cons b l ih => exact fun g h => ih _ (hservice b _ g h)
  exact hall built FirstSeen.empty List.nodup_nil

/-- A node is listed when it gets something, with all it gets. -/
theorem mem_nodePlacements {built : List BuiltService} {plans : List ClusterServicePlan} {id : String}
    {placed : List NodeService} :
    (id, placed) ∈ (nodePlacements built plans).entries ↔ placed = nodeServices built plans id ∧ placed ≠ [] := by
  have hempty : Filled FirstSeen.empty := fun id l h => by cases h
  obtain ⟨hfilled, hcontent⟩ := nodePlacements_spec plans built hempty
  have hc := hcontent id
  rw [FirstSeen.mem_entries]
  constructor
  · intro h
    refine ⟨?_, hfilled id placed h⟩
    rw [contentOf] at hc
    change (SortedMap.get id (nodePlacements built plans).byKey).getD [] = [] ++ nodeServices built plans id at hc
    rwa [h, Option.getD_some, List.nil_append] at hc
  · intro ⟨hplaced, hne⟩
    rw [contentOf] at hc
    change (SortedMap.get id (nodePlacements built plans).byKey).getD [] = [] ++ nodeServices built plans id at hc
    rw [List.nil_append, ← hplaced] at hc
    cases hget : SortedMap.get id (nodePlacements built plans).byKey with
    | none => rw [hget] at hc; exact absurd hc.symm hne
    | some l => rw [hget] at hc; rw [← hc]; rfl

/-! ## Two accounts of one load -/

section Loads

variable (ownerProject : String) (prior : DeployedPlacementSnapshot) (built : List BuiltService)
  (plans : List ClusterServicePlan) (id : String)

theorem nodeServices_cpu :
    ((nodeServices built plans id).map (·.demand ownerProject)).map (·.cpuLoad) =
      (nodeShares id ((built.map (·.decl)).map (clusterInput prior)) plans).map fun x => x.1.cpuLoad x.2 := by
  induction built with
  | nil => rfl
  | cons b built ih =>
    simp only [nodeServices, nodeShares, List.map_cons, List.flatMap_cons, List.map_append, List.map_map] at ih ⊢
    rw [ih]
    rfl

theorem nodeServices_memory :
    ((nodeServices built plans id).map (·.demand ownerProject)).map (·.memoryLoad) =
      (nodeShares id ((built.map (·.decl)).map (clusterInput prior)) plans).map fun x => x.1.memoryLoad x.2 := by
  induction built with
  | nil => rfl
  | cons b built ih =>
    simp only [nodeServices, nodeShares, List.map_cons, List.flatMap_cons, List.map_append, List.map_map] at ih ⊢
    rw [ih]
    rfl

variable {built plans id}

theorem nodeShares_ne_nil (h : nodeServices built plans id ≠ []) :
    nodeShares id ((built.map (·.decl)).map (clusterInput prior)) plans ≠ [] := by
  intro he
  have hcpu := nodeServices_cpu "" prior built plans id
  rw [he, List.map_nil, List.map_eq_nil_iff, List.map_eq_nil_iff] at hcpu
  exact h hcpu

/-- What a partial deploy keeps, in the two accounts. -/
theorem capacityDemands_totals (project : String) (state : DesiredState) (placed : List NodeService)
    (partialDeploy : Bool) :
    let others := demandsOf (state.services.filter (·.project ≠ project))
    let kept := if partialDeploy then demandsOf (keptSiblings project state.services placed) else []
    cpuTotal (capacityDemands project state placed partialDeploy) =
        Load.total (Load.total (cpuTotal others) (kept.map (·.cpuLoad))) ((placed.map (·.demand project)).map (·.cpuLoad)) ∧
      memoryTotal (capacityDemands project state placed partialDeploy) =
        Load.total (Load.total (memoryTotal others) (kept.map (·.memoryLoad)))
          ((placed.map (·.demand project)).map (·.memoryLoad)) := by
  constructor
  · simp only [capacityDemands, cpuTotal, List.map_append, Load.total_append]
  · simp only [capacityDemands, memoryTotal, List.map_append, Load.total_append]

end Loads

theorem assertCapacity_ok {nodeId : String} {node : NodeRegistryEntry} {merged : List CapacityServiceDemand} :
    assertCapacity nodeId node merged = .ok () ↔
      (cpuTotal merged).peak ≤ allocatableCpu node ∧ (memoryTotal merged).peak ≤ allocatableMemory node := by
  unfold assertCapacity
  dsimp only
  split
  · rename_i h
    exact ⟨fun _ => checkCapacity_ok.mp h, fun _ => rfl⟩
  · rename_i h
    exact ⟨fun e => (by cases e), fun hp => absurd (checkCapacity_ok.mpr hp) h⟩

theorem preflight_ok {st : ClusterState} {nodes : List (String × NodeRegistryEntry)} {ownerProject : String}
    {partialDeploy : Bool} {now : String} {placements : List (String × List NodeService)} :
    preflight st nodes ownerProject partialDeploy now placements = .ok () ↔
      ∀ e ∈ placements, ∃ node, SortedMap.get e.1 nodes = some node ∧
        assertCapacity e.1 node (capacityDemands ownerProject (readDesired st e.1 now) e.2 partialDeploy) = .ok () := by
  induction placements with
  | nil => simp [preflight]
  | cons e rest ih =>
    obtain ⟨id, placed⟩ := e
    rw [preflight, List.forall_mem_cons, ← ih]
    cases hget : SortedMap.get id nodes with
    | none => simp
    | some node =>
      cases hcap : assertCapacity id node (capacityDemands ownerProject (readDesired st id now) placed partialDeploy) with
      | error e => simp [hcap, bind, Except.bind]
      | ok u => simp [hcap, bind, Except.bind]

theorem planRegistered_ok {st : ClusterState} {ownerProject : String} {services : List ServiceDecl} {nowMs : Int}
    {c : CandidateNodes} {plans : List ClusterServicePlan}
    (h : planRegistered st ownerProject services nowMs = .ok (c, plans)) :
    buildCandidateNodes st ownerProject true nowMs = .ok c ∧
      planClusterPlacement c.candidateNodes (clusterInputs st ownerProject services) = .ok plans := by
  unfold planRegistered at h
  cases hb : buildCandidateNodes st ownerProject true nowMs with
  | error e => rw [hb] at h; cases h
  | ok c' =>
    simp only [hb, bind, Except.bind] at h
    split at h
    · cases h
    · rename_i plans' hp
      cases h
      exact ⟨rfl, hp⟩

/-- The inputs the planner gets are well formed. -/
theorem clusterInputs_spec (st : ClusterState) (ownerProject : String) (fp : Footprint) :
    ((clusterInputs st ownerProject fp.services).map (·.name)).Nodup ∧
      ∀ s ∈ clusterInputs st ownerProject fp.services, 0 < s.replicas := by
  constructor
  · rw [clusterInputs, List.map_map]
    exact fp.nodup
  · intro s hs
    obtain ⟨decl, _, rfl⟩ := List.mem_map.mp hs
    exact decl.replicas_pos

section Survives

variable {st : ClusterState} {ownerProject : String} {fp : Footprint} {nowMs : Int} {c : CandidateNodes}
  {plans : List ClusterServicePlan} {built : List BuiltService}

/-- A node that gets something is a registered app node, and holds the other projects'
    demand with all it gets. -/
theorem placed_node_holds (hplan : planRegistered st ownerProject fp.services nowMs = .ok (c, plans))
    (hbuilt : built.map (·.decl) = fp.services) {id : String} (hne : nodeServices built plans id ≠ []) :
    ∃ entry, SortedMap.get id c.nodes = some entry ∧
      (Load.total (cpuTotal (committedDemands st ownerProject id))
          (((nodeServices built plans id).map (·.demand ownerProject)).map (·.cpuLoad))).peak ≤ allocatableCpu entry ∧
        (Load.total (memoryTotal (committedDemands st ownerProject id))
          (((nodeServices built plans id).map (·.demand ownerProject)).map (·.memoryLoad))).peak ≤
            allocatableMemory entry := by
  obtain ⟨hb, hp⟩ := planRegistered_ok hplan
  have pool := buildCandidateNodes_spec hb
  obtain ⟨hnames, hpos⟩ := clusterInputs_spec st ownerProject fp
  have hshares := nodeShares_ne_nil (loadDeployedPlacement st ownerProject) hne
  have hinputs : (built.map (·.decl)).map (clusterInput (loadDeployedPlacement st ownerProject)) =
      clusterInputs st ownerProject fp.services := by rw [hbuilt]; rfl
  rw [hinputs] at hshares
  -- some service's placement names the node, so the node is in the pool
  obtain ⟨x, hx⟩ := List.exists_mem_of_ne_nil _ hshares
  obtain ⟨s, hs, hxs⟩ := List.mem_flatMap.mp hx
  obtain ⟨n, hn, rfl⟩ := List.mem_map.mp hxs
  obtain ⟨p, hpm, rfl⟩ := List.mem_map.mp hn
  obtain ⟨hpm, hpid⟩ := List.mem_filter.mp hpm
  have hpid : p.nodeId = id := by simpa using hpid
  obtain ⟨pool', hids, placed⟩ := planServices_placed hnames hpos pool.candidates_nodup hp hs
  obtain ⟨t', ht', htid, _⟩ := placed.fits p hpm
  have hmem : id ∈ (c.candidateNodes.map tallyOf).map (·.id) := by
    rw [← hids, ← hpid, ← htid]
    exact List.mem_map.mpr ⟨t', ht', rfl⟩
  obtain ⟨t, ht, rfl⟩ := List.mem_map.mp hmem
  obtain ⟨cand, hcand, rfl⟩ := List.mem_map.mp ht
  obtain ⟨id, entry, hentry, _, rfl⟩ := pool.mem_candidates.mp hcand
  have holds := planServices_fits hnames hpos pool.candidates_nodup hp ht hshares
  rw [NodeTally.Holds, (candidate_loads ..).1, (candidate_loads ..).2, ← hinputs] at holds
  rw [← nodeServices_cpu ownerProject, ← nodeServices_memory ownerProject] at holds
  exact ⟨entry, SortedMap.get_of_mem pool.nodes_nodup (pool.mem_nodes.mpr hentry), holds⟩

/-- A plan passes the pre-flight when no node of it keeps a sibling. -/
theorem plan_survives (hplan : planRegistered st ownerProject fp.services nowMs = .ok (c, plans))
    (hbuilt : built.map (·.decl) = fp.services) {partialDeploy : Bool} (now : String)
    (hkept : partialDeploy = true → ∀ id, nodeServices built plans id ≠ [] →
      keptSiblings ownerProject (publishedServices st id) (nodeServices built plans id) = []) :
    preflight st c.nodes ownerProject partialDeploy now (nodePlacements built plans).entries = .ok () := by
  rw [preflight_ok]
  intro ⟨id, placed⟩ he
  obtain ⟨rfl, hne⟩ := mem_nodePlacements.mp he
  obtain ⟨entry, hget, hcpu, hmemory⟩ := placed_node_holds hplan hbuilt hne
  refine ⟨entry, hget, ?_⟩
  have hnone : (if partialDeploy then demandsOf (keptSiblings ownerProject (readDesired st id now).services
      (nodeServices built plans id)) else []) = [] := by
    cases partialDeploy with
    | false => rfl
    | true =>
      rw [readDesired_services, hkept rfl id hne]
      rfl
  obtain ⟨hc, hm⟩ := capacityDemands_totals ownerProject (readDesired st id now) (nodeServices built plans id) partialDeploy
  rw [assertCapacity_ok, hc, hm, hnone, readDesired_services]
  exact ⟨hcpu, hmemory⟩

end Survives

end LaunchPad.Cli
