/-
  LaunchPad.Cli.Deploy — a deploy that builds its own placement, from its plan to its last
  publish (`commands/deploy.ts`), with no other client on the bucket: plan, adding app nodes
  when the pool is short; provision; pre-flight; publish each node of the plan; and, for a
  full deploy, take the project off the nodes the plan left.

  A run that succeeds leaves each service with its declared replicas, but for one case: a
  deploy of some services does not look at the nodes that its plan leaves out, so a service
  it moves stays published where it was.

  What provisioning makes of a node (`aws/`) is a parameter: an entry for each node of the
  plan, whatever it was before.

  Proved:
  - `publish_alone`: a publish that succeeds replaces the one document by its merge.
  - `deploy_publishes_declared`: exactly when every service ends with its declared replicas.
-/
import LaunchPad.Cli.Publish
import LaunchPad.Cli.Entry

namespace LaunchPad.Cli

open Lib

/-! ## Adding nodes to the pool (`placement.ts`) -/

/-- A name that is not among those used (`generateNodeName`), as its random words come out. -/
abbrev NodeNames := (used : List String) → {id : String // id ∉ used ∧ id ≠ ""}

/-- `Number.MAX_SAFE_INTEGER`. -/
def unbounded : Int := 9007199254740991

def bootstrapCandidateNode (nodeId : String) : CandidateNode :=
  ⟨nodeId, .arm64, unbounded, unbounded, 0, 0, 0, 0⟩

/-- A node as large as the largest of the cluster. -/
def templateCandidateNode (nodeId : String) : List CandidateNode → CandidateNode
  | [] => bootstrapCandidateNode nodeId
  | n :: existing =>
    { nodeId
      architecture := n.architecture
      allocatableCpu := existing.foldl (fun m x => max m x.allocatableCpu) n.allocatableCpu
      allocatableMemory := existing.foldl (fun m x => max m x.allocatableMemory) n.allocatableMemory
      steadyCpu := 0
      steadyMemory := 0
      maxSurgeCpu := 0
      maxSurgeMemory := 0 }

theorem templateCandidateNode_id (nodeId : String) (existing : List CandidateNode) :
    (templateCandidateNode nodeId existing).nodeId = nodeId := by
  cases existing <;> rfl

section AutoAdd

variable (beats : Beats)

/-- The loop of `planClusterPlacementAutoAdd`, with so many additions left. Only a service
    that fits nowhere is worth another node. -/
def planWithAddedBy (names : NodeNames) (nodes : List CandidateNode) (services : List ClusterServiceInput) :
    Nat → List String → List CandidateNode → Except PlanError (List ClusterServicePlan × List CandidateNode)
  | left, used, added =>
    match planClusterPlacementBy beats (nodes ++ added) services, left with
    | .ok plans, _ => .ok (plans, added)
    | .error (.noFit ..), n + 1 =>
      let id := (names used).1
      planWithAddedBy names nodes services n (id :: used) (added ++ [templateCandidateNode id nodes])
    | .error e, _ => .error e

def planClusterPlacementAutoAddBy (names : NodeNames) (nodes : List CandidateNode) (services : List ClusterServiceInput)
    (maxAdd : Nat) (existingNodeIds : List String) : Except PlanError (List ClusterServicePlan × List CandidateNode) :=
  planWithAddedBy beats names nodes services maxAdd existingNodeIds []

end AutoAdd

abbrev planWithAdded := planWithAddedBy better
abbrev planClusterPlacementAutoAdd := planClusterPlacementAutoAddBy better

/-! ## A run -/

/-- `create` is false under `--no-create`, `partialDeploy` true under `--service` and
    `--changed`; `restartAt` is the time under `--restart`. -/
structure DeployOptions where
  env : Option String := none
  partialDeploy : Bool := false
  create : Bool := true
  restartAt : Option String := none

/-- What a run deploys, and where. -/
structure Deployment where
  aws : AwsEnv
  ownerProject : String
  opts : DeployOptions
  /-- `cluster.json`'s edge. -/
  defaultEdge : Option String
  footprint : Footprint
  built : List BuiltService
  built_decl : built.map (·.decl) = footprint.services
  owner_ne : ownerProject ≠ ""
  edge_ne : defaultEdge ≠ some ""
  valid : ∀ b ∈ built, b.Valid

/-- An entry for a node of the plan, from the one it had: as it was, resumed, repaired, or new. -/
abbrev Provision := String → Option NodeRegistryEntry → NodeRegistryEntry

def edgeBootstrapNodeId : String := "edge-1"

/-- The cluster's edge: its default, else its only one, else a new one. -/
def resolveEdge (clusterId : String) (defaultEdge : Option String) (nodes : List (String × NodeRegistryEntry)) :
    Except DeployFailure String :=
  match defaultEdge, (nodes.filter fun e => nodeFrontsIngress e.2.role).map (·.2.nodeId) with
  | some edge, _ => .ok edge
  | none, [] => .ok edgeBootstrapNodeId
  | none, [edge] => .ok edge
  | none, edges => .error (.edgeAmbiguous clusterId edges)

/-- A run as it stands before it publishes. -/
structure DeployRun where
  edgeNodeId : String
  /-- The nodes that are registered, after provisioning; of two entries of a node, the first. -/
  nodes : List (String × NodeRegistryEntry)
  /-- The directories of the cluster, after provisioning. -/
  nodeIds : List String
  plans : List ClusterServicePlan
  nodePlacements : List (String × List NodeService)
  vacatedNodeIds : List String

/-- The pool before anything is added; an empty one gets a first node. -/
def startingPool (names : NodeNames) (create : Bool) (c : CandidateNodes) (edgeNodeId : String) : List CandidateNode :=
  if c.clusterAppNodeIds.isEmpty && create then
    c.candidateNodes ++ [bootstrapCandidateNode (names (c.nodes.map (·.1) ++ [edgeNodeId])).1]
  else c.candidateNodes

/-- The registered nodes once every node of the plan, and the edge, is provisioned. -/
def nodesAfter (provision : Provision) (touched : List String) (nodes : List (String × NodeRegistryEntry)) :
    List (String × NodeRegistryEntry) :=
  (touched.map fun id => (id, provision id (SortedMap.get id nodes))) ++ nodes

/-- The nodes the project is published on and the plan leaves out. -/
def vacatedNodes (prior : DeployedPlacementSnapshot) (partialDeploy : Bool) (nodePlacements : List (String × List NodeService)) :
    List String :=
  if partialDeploy then [] else prior.occupiedNodeIds.filter fun id => !(nodePlacements.map (·.1)).contains id

/-- The plan: the registered nodes, the edge, and where each service goes. -/
def planPlacement (d : Deployment) (st : ClusterState) (names : NodeNames) (nowMs : Int) :
    Except DeployFailure (CandidateNodes × String × List ClusterServicePlan) := do
  match buildCandidateNodes st d.ownerProject true nowMs with
  | .error e => .error (.deploy e)
  | .ok c =>
    let edgeNodeId ← resolveEdge d.aws.clusterId d.defaultEdge c.nodes
    let pool := startingPool names d.opts.create c edgeNodeId
    if pool.isEmpty then .error (.noAppNodes d.aws.clusterId)
    else
      let services := clusterInputs st d.ownerProject d.footprint.services
      let maxAdd := if d.opts.create then (services.foldl (fun n (s : ClusterServiceInput) => n + s.replicas) 0).toNat else 0
      match planClusterPlacementAutoAdd names pool services maxAdd
          (c.nodes.map (·.1) ++ pool.map (·.nodeId) ++ [edgeNodeId]) with
      | .error e => .error (.deploy (.plan e))
      | .ok (plans, _) => .ok (c, edgeNodeId, plans)

def planDeploy (d : Deployment) (st : ClusterState) (names : NodeNames) (provision : Provision) (nowMs : Int) (now : String) :
    Except DeployFailure DeployRun := do
  let (c, edgeNodeId, plans) ← planPlacement d st names nowMs
  let touched := edgeNodeId :: plans.flatMap (·.pool)
  let nodes := nodesAfter provision touched c.nodes
  let nodePlacements := (nodePlacements d.built plans).entries
  match preflight st nodes d.ownerProject d.opts.partialDeploy now nodePlacements with
  | .error e => .error (.deploy e)
  | .ok () =>
    .ok {
      edgeNodeId
      nodes
      nodeIds := touched.foldl (fun ids id => insertId id ids) st.nodeIds
      plans
      nodePlacements
      vacatedNodeIds := vacatedNodes (loadDeployedPlacement st d.ownerProject) d.opts.partialDeploy nodePlacements }

/-! ## Publishing -/

/-- What ends a run. -/
inductive RunError where
  | failed (e : DeployFailure)
  | publish (nodeId : String) (e : PublishError)
  deriving DecidableEq, Repr

abbrev DeployProg := Prog DesiredResp (Except RunError Unit)

/-- The entries of one node. A web service is routed by the cluster's edge. -/
def incomingFor (d : Deployment) (edgeNodeId : String) (placed : List NodeService) : Except DeployFailure (List ServiceConfig) :=
  placed.mapM fun p =>
    toServiceConfig d.aws d.ownerProject p.built p.replicas
      (if p.built.decl.domain.isSome && p.built.decl.port.isSome then some edgeNodeId else none) d.opts.env d.opts.restartAt

def publishPlacements (d : Deployment) (run : DeployRun) : List (String × List NodeService) → DeployProg
  | [] => .ret (.ok ())
  | (id, placed) :: rest =>
    match SortedMap.get id run.nodes with
    | none => .ret (.error (.failed (.deploy (.unknownNode id))))
    | some node =>
      match incomingFor d run.edgeNodeId placed with
      | .error e => .ret (.error (.failed e))
      | .ok incoming => do
        match ← publishDesired id node d.ownerProject incoming d.opts.partialDeploy with
        | .error e => .ret (.error (.publish id e))
        | .ok () => publishPlacements d run rest

/-- Cleanup after the additions. A node that is gone is skipped. -/
def publishVacated (d : Deployment) (run : DeployRun) : List String → DeployProg
  | [] => .ret (.ok ())
  | id :: rest =>
    match SortedMap.get id run.nodes with
    | none => publishVacated d run rest
    | some node => do
      match ← publishDesired id node d.ownerProject [] false with
      | .error e => .ret (.error (.publish id e))
      | .ok () => publishVacated d run rest

def deployRun (d : Deployment) (run : DeployRun) : DeployProg := do
  match ← publishPlacements d run run.nodePlacements with
  | .error e => .ret (.error e)
  | .ok () => publishVacated d run run.vacatedNodeIds

/-- From the cluster as the run reads it. -/
def deploy (d : Deployment) (st : ClusterState) (names : NodeNames) (provision : Provision) (nowMs : Int) (now : String) :
    DeployProg :=
  match planDeploy d st names provision nowMs now with
  | .error e => .ret (.error (.failed e))
  | .ok run => deployRun d run

/-! ## A publish with no other client -/

section Alone

variable {E : Etags} {nodeId project : String} {node : NodeRegistryEntry} {incoming : List ServiceConfig}
  {partialDeploy : Bool} {j j' : DesiredBucket Unit}

/-- One round of a loop that returned, beside which nothing ran. -/
def Stepped (nodeId : String) (decide : Decide) (j j' : DesiredBucket Unit) : Prop :=
  ∃ existing now, (Journal.current nodeId j).map (·.2) = existing.map Body.parsed ∧
    ((decide existing now = .done ∧ j' = j) ∨
      ∃ now' version services, decide existing now = .write version services ∧
        j' = ⟨some (), nodeId, some (.parsed (.json ⟨version, nodeId, now', services⟩))⟩ :: j)

/-- A loop alone: what holds before it and after its one write holds throughout. -/
theorem loop_alone {P : DesiredBucket Unit → Prop} (decide : Decide) (gaveUp : PublishError) (n : Nat) (hj : P j)
    (hstep : ∀ j', Stepped nodeId decide j j' → P j') :
    Sat (alone (s3Sem E)) (fun _ => P) (fun r j' => P j' ∧ (r = .ok () → Stepped nodeId decide j j'))
      (publishLoop nodeId decide gaveUp n) j := by
  have hfail : ∀ e : PublishError, Sat (alone (s3Sem E)) (fun _ => P)
      (fun (r : Except PublishError Unit) j' => P j' ∧ (r = .ok () → Stepped nodeId decide j j')) (.ret (.error e)) j :=
    fun e => .aloneRet ⟨hj, fun h => by cases h⟩
  induction n with
  | zero => exact hfail _
  | succ n ih =>
    simp only [publishLoop, Prog.cmd_bind]
    refine .aloneAct hj fun r j₁ hget => ?_
    obtain ⟨hread, rfl⟩ := hget
    cases r with
    | error e => exact hfail _
    | ok existing =>
      have hcur := getJson_current hread.symm
      refine .aloneAct hj fun now j₂ hsame => ?_
      obtain rfl := hsame
      cases hd : decide (existing.map (·.raw)) now with
      | done => exact .aloneRet ⟨hj, fun _ => ⟨_, now, hcur, .inl ⟨hd, rfl⟩⟩⟩
      | fail e => exact hfail _
      | write version services =>
        refine .aloneAct hj fun now' j₃ hsame => ?_
        obtain rfl := hsame
        refine .aloneAct hj fun r j₄ hput => ?_
        rcases s3Sem_put hput with ⟨_, rfl, rfl⟩ | ⟨e, rfl, rfl⟩
        · have hdone : Stepped nodeId decide j₃ (⟨some (), nodeId, some (.parsed (.json ⟨version, nodeId, now', services⟩))⟩ :: j₃) :=
            ⟨_, now, hcur, .inr ⟨now', version, services, hd, rfl⟩⟩
          exact .aloneRet ⟨hstep _ hdone, fun _ => hdone⟩
        · cases e with
          | preconditionFailed => exact ih
          | noSuchKey => exact hfail _
          | syntaxError => exact hfail _

/-- The merge of a publish. -/
def mergeOf (partialDeploy : Bool) (existing : List ServiceConfig) (project : String) (incoming : List ServiceConfig) :
    Except MergeError (List ServiceConfig) :=
  if partialDeploy then mergeProjectServicesPartial existing project incoming
  else mergeProjectServices existing project incoming

/-- The one document is its merge, the others are as they were. -/
structure Published (nodeId project : String) (incoming : List ServiceConfig) (partialDeploy : Bool)
    (j j' : DesiredBucket Unit) : Prop where
  merged : mergeOf partialDeploy (servicesAt nodeId j) project incoming = .ok (servicesAt nodeId j')
  others : ∀ id, id ≠ nodeId → servicesAt id j' = servicesAt id j

theorem stateOrEmpty_services {existing : Option DesiredRaw} (now : String)
    (h : (Journal.current nodeId j).map (·.2) = existing.map Body.parsed) :
    (stateOrEmpty nodeId existing now).services = servicesAt nodeId j := by
  cases existing with
  | none =>
    rw [servicesAt_absent h]
    rfl
  | some raw =>
    obtain ⟨⟨v, b⟩, hcur, rfl⟩ := Option.map_eq_some_iff.mp h
    unfold stateOrEmpty servicesAt parseDesiredStateOrEmpty
    rw [hcur]
    cases hp : parseDesiredState raw <;> simp [hp, emptyDesiredState]

theorem stepped_published (hnode : nodeId ≠ "") (hin : ∀ s ∈ incoming, serviceConfigSchema s = true)
    (h : Stepped nodeId (decidePublish nodeId node project incoming partialDeploy) j j') :
    Published nodeId project incoming partialDeploy j j' := by
  obtain ⟨existing, now, hcur, ⟨hd, _⟩ | ⟨now', version, services, hd, rfl⟩⟩ := h
  · simp only [decidePublish] at hd
    split at hd
    · cases hd
    · split at hd <;> cases hd
  · simp only [decidePublish] at hd
    split at hd
    · cases hd
    · rename_i merged hm
      split at hd
      · cases hd
      · cases hd
        rw [stateOrEmpty_services now hcur] at hm
        have haccepted : ∀ s ∈ services, serviceConfigSchema s = true :=
          @Request.apply_accepted (.publishDesired node project incoming partialDeploy) _ _ hin
            (fun s hs => servicesAt_accepted hs) hm
        constructor
        · have hschema : desiredStateSchema ⟨protocolVersion, nodeId, now', services⟩ = true := by
            simp only [desiredStateSchema, Bool.and_eq_true, List.all_eq_true, beq_iff_eq, bne_iff_ne, ne_eq]
            exact ⟨⟨trivial, hnode⟩, haccepted⟩
          have hread := servicesAt_written (j := j)
            (w := ⟨some (), nodeId, some (.parsed (.json ⟨protocolVersion, nodeId, now', services⟩))⟩) hschema rfl rfl
          rw [hread]
          exact hm
        · intro id hid
          exact servicesAt_cons_ne (Ne.symm hid)

/-- A publish that returns has replaced its node's document by the merge. -/
theorem publish_alone {P : DesiredBucket Unit → Prop} (hnode : nodeId ≠ "") (hin : ∀ s ∈ incoming, serviceConfigSchema s = true)
    (hj : P j) (hpublished : ∀ j', Published nodeId project incoming partialDeploy j j' → P j') :
    Sat (alone (s3Sem E)) (fun _ => P)
      (fun r j' => P j' ∧ (r = .ok () → Published nodeId project incoming partialDeploy j j'))
      (publishDesired nodeId node project incoming partialDeploy) j :=
  (loop_alone _ _ _ hj fun j' h => hpublished j' (stepped_published hnode hin h)).mono (fun _ _ h => h)
    fun _ _ ⟨hP, hstep⟩ => ⟨hP, fun hr => stepped_published hnode hin (hstep hr)⟩

end Alone

/-! ## The two loops -/

section Loops

variable {E : Etags} {d : Deployment} {run : DeployRun} {j j' : DesiredBucket Unit}

theorem incomingFor_cons {p : NodeService} {placed : List NodeService} {edge : String} {incoming : List ServiceConfig}
    (h : incomingFor d edge (p :: placed) = .ok incoming) :
    ∃ c rest, toServiceConfig d.aws d.ownerProject p.built p.replicas
        (if p.built.decl.domain.isSome && p.built.decl.port.isSome then some edge else none) d.opts.env d.opts.restartAt = .ok c ∧
      incomingFor d edge placed = .ok rest ∧ incoming = c :: rest := by
  unfold incomingFor at h ⊢
  rw [List.mapM_cons] at h
  cases hc : toServiceConfig d.aws d.ownerProject p.built p.replicas
      (if p.built.decl.domain.isSome && p.built.decl.port.isSome then some edge else none) d.opts.env d.opts.restartAt with
  | error e => rw [hc] at h; cases h
  | ok c =>
    rw [hc] at h
    simp only [bind, Except.bind] at h
    split at h
    · cases h
    · rename_i rest hrest
      cases h
      exact ⟨c, rest, rfl, hrest, rfl⟩

/-- Each entry is of a placed service, with its share. -/
theorem incomingFor_entries {placed : List NodeService} {edge : String} {incoming : List ServiceConfig}
    (h : incomingFor d edge placed = .ok incoming) :
    (∀ c ∈ incoming, c.project = d.ownerProject) ∧
      incoming.map (fun c => (c.service, c.replicas)) = placed.map fun p => (p.built.decl.name, p.replicas) := by
  induction placed generalizing incoming with
  | nil =>
    cases h
    exact ⟨fun c hc => (by cases hc), rfl⟩
  | cons p placed ih =>
    obtain ⟨c, rest, hc, hrest, rfl⟩ := incomingFor_cons h
    obtain ⟨_, _, _, hproject, hservice, hreplicas⟩ := toServiceConfig_ok hc
    obtain ⟨howned, hmap⟩ := ih hrest
    constructor
    · intro x hx
      rcases List.mem_cons.mp hx with rfl | hx
      · exact hproject
      · exact howned x hx
    · rw [List.map_cons, List.map_cons, hmap, hservice, hreplicas]

theorem incomingFor_accepted {placed : List NodeService} {edge : String} {incoming : List ServiceConfig}
    (h : incomingFor d edge placed = .ok incoming) (hedge : edge ≠ "")
    (hplaced : ∀ p ∈ placed, p.built ∈ d.built ∧ 1 ≤ p.replicas) : ∀ c ∈ incoming, serviceConfigSchema c = true := by
  induction placed generalizing incoming with
  | nil =>
    cases h
    exact fun c hc => by cases hc
  | cons p placed ih =>
    obtain ⟨c, rest, hc, hrest, rfl⟩ := incomingFor_cons h
    intro x hx
    rcases List.mem_cons.mp hx with rfl | hx
    · obtain ⟨hbuilt, hreplicas⟩ := hplaced p (List.mem_cons_self ..)
      refine toServiceConfig_accepted (d.valid _ hbuilt) d.owner_ne hreplicas ?_ hc
      split
      · exact fun e => hedge (Option.some.inj e)
      · exact fun e => by cases e
    · exact ih hrest (fun q hq => hplaced q (List.mem_cons_of_mem _ hq)) x hx

/-- What the first loop leaves: the merge on the nodes it went over, the others untouched. -/
def Placed (d : Deployment) (run : DeployRun) (placements : List (String × List NodeService)) (j j' : DesiredBucket Unit) : Prop :=
  (∀ e ∈ placements, ∃ incoming, incomingFor d run.edgeNodeId e.2 = .ok incoming ∧
    mergeOf d.opts.partialDeploy (servicesAt e.1 j) d.ownerProject incoming = .ok (servicesAt e.1 j')) ∧
    ∀ id, id ∉ placements.map (·.1) → servicesAt id j' = servicesAt id j

theorem placements_alone (hedge : run.edgeNodeId ≠ "") {placements : List (String × List NodeService)}
    (hnd : (placements.map (·.1)).Nodup) (hids : ∀ e ∈ placements, e.1 ≠ "")
    (hplaced : ∀ e ∈ placements, ∀ p ∈ e.2, p.built ∈ d.built ∧ 1 ≤ p.replicas) (j : DesiredBucket Unit) :
    Sat (alone (s3Sem E)) (fun _ _ => True) (fun r j' => r = .ok () → Placed d run placements j j')
      (publishPlacements d run placements) j := by
  induction placements generalizing j with
  | nil => exact .aloneRet fun _ => ⟨fun e he => (by cases he), fun _ _ => rfl⟩
  | cons e rest ih =>
    obtain ⟨id, placed⟩ := e
    rw [List.map_cons, List.nodup_cons] at hnd
    rw [publishPlacements]
    split
    · exact .aloneRet fun e => by cases e
    · rename_i node _
      split
      · exact .aloneRet fun e => by cases e
      · rename_i incoming hincoming
        have haccepted := incomingFor_accepted hincoming hedge (hplaced _ (List.mem_cons_self ..))
        refine Sat.bind (publish_alone (hids _ (List.mem_cons_self ..)) haccepted trivial fun _ _ => trivial)
          fun r j₁ hstep => ?_
        cases r with
        | error e => exact .aloneRet fun e => by cases e
        | ok u =>
          obtain ⟨hmerged, hothers⟩ := hstep.2 rfl
          refine (ih hnd.2 (fun e he => hids e (List.mem_cons_of_mem _ he))
            (fun e he => hplaced e (List.mem_cons_of_mem _ he)) j₁).mono (fun _ _ h => h) fun r j' hrest hr => ?_
          obtain ⟨hlater, huntouched⟩ := hrest hr
          constructor
          · intro e he
            rcases List.mem_cons.mp he with rfl | he
            · -- no later publish is of this node
              exact ⟨incoming, hincoming, by rw [huntouched id hnd.1]; exact hmerged⟩
            · obtain ⟨incoming', hinc, hm⟩ := hlater e he
              have hne : e.1 ≠ id := fun he' => hnd.1 (he' ▸ List.mem_map.mpr ⟨e, he, rfl⟩)
              exact ⟨incoming', hinc, by rw [← hothers e.1 hne]; exact hm⟩
          · intro id' hid'
            rw [List.map_cons, List.mem_cons, not_or] at hid'
            rw [huntouched id' hid'.2, hothers id' hid'.1]

/-- What the cleanup leaves: nothing of the project on the registered nodes it went over. -/
def Vacated (d : Deployment) (run : DeployRun) (ids : List String) (j j' : DesiredBucket Unit) : Prop :=
  ∀ id, servicesAt id j' =
    if id ∈ ids ∧ SortedMap.get id run.nodes ≠ none then (servicesAt id j).filter (·.project ≠ d.ownerProject)
    else servicesAt id j

theorem vacated_alone {ids : List String} (hids : ∀ id ∈ ids, id ≠ "") (j : DesiredBucket Unit) :
    Sat (alone (s3Sem E)) (fun _ _ => True) (fun r j' => r = .ok () → Vacated d run ids j j') (publishVacated d run ids) j := by
  induction ids generalizing j with
  | nil => exact .aloneRet fun _ id => by simp
  | cons id rest ih =>
    have hrestIds : ∀ x ∈ rest, x ≠ "" := fun x hx => hids x (List.mem_cons_of_mem _ hx)
    rw [publishVacated]
    cases hget : SortedMap.get id run.nodes with
    | none =>
      -- a node that is gone
      refine (ih hrestIds j).mono (fun _ _ h => h) fun r j' hrest hr id' => ?_
      rw [hrest hr id']
      by_cases hid : id' = id
      · subst hid; simp [hget]
      · simp [hid]
    | some node =>
      refine Sat.bind (publish_alone (hids _ (List.mem_cons_self ..))
        (fun s hs => by cases hs) trivial fun _ _ => trivial) fun r j₁ hstep => ?_
      cases r with
      | error e => exact .aloneRet fun e => by cases e
      | ok u =>
        obtain ⟨hmerged, hothers⟩ := hstep.2 rfl
        obtain ⟨_, hmerged, _⟩ := (mergeProjectServices_ok).mp hmerged
        rw [List.append_nil] at hmerged
        refine (ih hrestIds j₁).mono (fun _ _ h => h) fun r j' hrest hr id' => ?_
        rw [hrest hr id']
        by_cases hid : id' = id
        · subst hid
          rw [hmerged, List.filter_filter]
          simp [hget]
        · rw [hothers id' hid]
          simp [hid]

end Loops

/-! ## What the plan promises -/

section Planned

variable {names : NodeNames} {nodes : List CandidateNode} {services : List ClusterServiceInput}

/-- Nodes with names, each its own. -/
def Named (nodes : List CandidateNode) : Prop := (nodes.map (·.nodeId)).Nodup ∧ ∀ n ∈ nodes, n.nodeId ≠ ""

theorem Named.append {n : CandidateNode} (h : Named nodes) (hfresh : n.nodeId ∉ nodes.map (·.nodeId)) (hn : n.nodeId ≠ "") :
    Named (nodes ++ [n]) := by
  constructor
  · rw [List.map_append, List.nodup_append]
    refine ⟨h.1, by simp, ?_⟩
    intro a ha b hb hab
    obtain rfl : b = n.nodeId := List.mem_singleton.mp hb
    exact hfresh (hab ▸ ha)
  · intro x hx
    rcases List.mem_append.mp hx with hx | hx
    · exact h.2 x hx
    · rw [List.mem_singleton.mp hx]
      exact hn

/-- Every node that is added has a name of its own. -/
theorem planWithAdded_ok {beats : Beats} {left : Nat} {used : List String} {added added' : List CandidateNode}
    {plans : List ClusterServicePlan} (hnamed : Named (nodes ++ added)) (hused : ∀ n ∈ nodes ++ added, n.nodeId ∈ used)
    (h : planWithAddedBy beats names nodes services left used added = .ok (plans, added')) :
    planClusterPlacementBy beats (nodes ++ added') services = .ok plans ∧ Named (nodes ++ added') ∧
      ∀ n ∈ added', n ∉ added → n.nodeId ∉ used := by
  induction left generalizing used added with
  | zero =>
    unfold planWithAddedBy at h
    cases hp : planClusterPlacementBy beats (nodes ++ added) services with
    | ok plans' => rw [hp] at h; cases h; exact ⟨hp, hnamed, fun n hn hno => absurd hn hno⟩
    | error e => rw [hp] at h; cases e <;> cases h
  | succ n ih =>
    unfold planWithAddedBy at h
    cases hp : planClusterPlacementBy beats (nodes ++ added) services with
    | ok plans' => rw [hp] at h; cases h; exact ⟨hp, hnamed, fun n hn hno => absurd hn hno⟩
    | error e =>
      rw [hp] at h
      cases e with
      | stickyFull => cases h
      | noFit =>
        obtain ⟨hfresh, hne⟩ := (names used).2
        have hnamed₁ : Named (nodes ++ (added ++ [templateCandidateNode (names used).1 nodes])) := by
          rw [← List.append_assoc]
          refine hnamed.append ?_ (by rwa [templateCandidateNode_id])
          rw [templateCandidateNode_id]
          intro hmem
          obtain ⟨x, hx, hid⟩ := List.mem_map.mp hmem
          exact hfresh (hid ▸ hused x hx)
        have hused₁ : ∀ n ∈ nodes ++ (added ++ [templateCandidateNode (names used).1 nodes]), n.nodeId ∈ (names used).1 :: used := by
          intro x hx
          rw [← List.append_assoc] at hx
          rcases List.mem_append.mp hx with hx | hx
          · exact List.mem_cons_of_mem _ (hused x hx)
          · rw [List.mem_singleton.mp hx, templateCandidateNode_id]
            exact List.mem_cons_self ..
        obtain ⟨hplan, hnamed', hnew⟩ := ih hnamed₁ hused₁ h
        refine ⟨hplan, hnamed', fun n hn hno => ?_⟩
        by_cases hadd : n.nodeId = (names used).1
        · rwa [hadd]
        · intro hmem
          refine hnew n hn ?_ (List.mem_cons_of_mem _ hmem)
          intro hmem'
          rcases List.mem_append.mp hmem' with h' | h'
          · exact hno h'
          · apply hadd
            rw [List.mem_singleton.mp h', templateCandidateNode_id]

/-- Every plan names the whole pool. -/
theorem planServices_pool {tallies : List NodeTally} (hnd : (tallies.map (·.id)).Nodup) {plans : List ClusterServicePlan}
    (h : planServices tallies services = .ok plans) : ∀ plan ∈ plans, plan.pool = tallies.map (·.id) := by
  induction services generalizing tallies plans with
  | nil =>
    cases h
    intro plan hplan
    cases hplan
  | cons s services ih =>
    obtain ⟨ps, rest, _, hrest, rfl⟩ := planServices_cons h
    have hids := commit_ids hnd s ps
    intro plan hplan
    rcases List.mem_cons.mp hplan with rfl | hplan
    · rfl
    · rw [ih (by rwa [hids]) hrest plan hplan, hids]

theorem placementsOf_mem {plans : List ClusterServicePlan} {name : String} {p : Placement} (h : p ∈ placementsOf plans name) :
    ∃ plan ∈ plans, p ∈ plan.placements := by
  unfold placementsOf at h
  split at h
  · rename_i plan hfind
    exact ⟨plan, List.mem_of_find?_eq_some hfind, h⟩
  · cases h

end Planned

/-- A run that is planned. -/
structure PlannedRun (d : Deployment) (st : ClusterState) (run : DeployRun) : Prop where
  edge : run.edgeNodeId ≠ ""
  placed : ∀ s ∈ d.footprint.services, ∃ pool,
    PlacedOn pool (clusterInput (loadDeployedPlacement st d.ownerProject) s) (placementsOf run.plans s.name)
  /-- A node of the plan is registered by then. -/
  registered : ∀ s ∈ d.footprint.services, ∀ p ∈ placementsOf run.plans s.name,
    p.nodeId ∈ run.nodeIds ∧ SortedMap.get p.nodeId run.nodes ≠ none
  nodeIds : run.nodeIds.Nodup
  named : "" ∉ run.nodeIds
  nodePlacements : run.nodePlacements = (Cli.nodePlacements d.built run.plans).entries
  vacated : run.vacatedNodeIds =
    vacatedNodes (loadDeployedPlacement st d.ownerProject) d.opts.partialDeploy run.nodePlacements

theorem resolveEdge_ne {d : Deployment} {nodes : List (String × NodeRegistryEntry)}
    (hnodes : ∀ e ∈ nodes, e.2.nodeId ≠ "") {edge : String}
    (h : resolveEdge d.aws.clusterId d.defaultEdge nodes = .ok edge) : edge ≠ "" := by
  unfold resolveEdge at h
  split at h
  · rename_i hd
    cases h
    intro he
    exact d.edge_ne (by rw [hd, he])
  · cases h
    decide
  · rename_i hedges
    cases h
    have hmem : edge ∈ (nodes.filter fun e => nodeFrontsIngress e.2.role).map (·.2.nodeId) := by
      rw [hedges]
      exact List.mem_singleton_self _
    obtain ⟨e, he, rfl⟩ := List.mem_map.mp hmem
    exact hnodes e (List.mem_filter.mp he).1
  · cases h

theorem mem_foldl_insertId {ids l : List String} {x : String} :
    x ∈ l.foldl (fun ids id => insertId id ids) ids ↔ x ∈ l ∨ x ∈ ids := by
  induction l generalizing ids with
  | nil => simp
  | cons y l ih => rw [List.foldl_cons, ih, mem_insertId, List.mem_cons]; tauto

theorem foldl_insertId_sorted {ids l : List String} (h : ids.Pairwise (· < ·)) :
    (l.foldl (fun ids id => insertId id ids) ids).Pairwise (· < ·) := by
  induction l generalizing ids with
  | nil => exact h
  | cons y l ih => exact ih (insertId_sorted h)

theorem sorted_nodup {ids : List String} (h : ids.Pairwise (· < ·)) : ids.Nodup := by
  apply h.imp
  intro a b hlt
  rintro rfl
  exact String.lt_irrefl _ hlt

theorem startingPool_named {st : ClusterState} {ownerProject : String} {nowMs : Int} {c : CandidateNodes} (names : NodeNames)
    (create : Bool) (edge : String) (hp : Pool st ownerProject nowMs c) :
    Named (startingPool names create c edge) ∧
      (∀ n ∈ startingPool names create c edge, n ∈ c.candidateNodes ∨ n.nodeId ∉ c.nodes.map (·.1)) ∧
        ∀ n ∈ c.candidateNodes, n ∈ startingPool names create c edge := by
  have hmem : ∀ x ∈ c.candidateNodes, x.nodeId ∈ c.nodes.map (·.1) ∧ x.nodeId ∈ st.nodeIds := by
    intro x hx
    obtain ⟨id, entry, hentry, _, rfl⟩ := hp.mem_candidates.mp hx
    refine ⟨List.mem_map.mpr ⟨(id, entry), hp.mem_nodes.mpr hentry, rfl⟩, st.listed id (.inl ?_)⟩
    intro hno
    rw [entryOf, hno] at hentry
    cases hentry
  have hcandidates : Named c.candidateNodes := by
    constructor
    · have h := hp.candidates_nodup
      rw [List.map_map] at h
      exact h
    · exact fun x hx => st.named _ (hmem x hx).2
  unfold startingPool
  split
  · obtain ⟨hfresh, hne⟩ := (names (c.nodes.map (·.1) ++ [edge])).2
    have hnew : (names (c.nodes.map (·.1) ++ [edge])).1 ∉ c.nodes.map (·.1) := fun h => hfresh (List.mem_append_left _ h)
    refine ⟨hcandidates.append ?_ hne, fun n hn => ?_, fun n hn => List.mem_append_left _ hn⟩
    · intro h
      obtain ⟨x, hx, hid⟩ := List.mem_map.mp h
      have hid : x.nodeId = (names (c.nodes.map (·.1) ++ [edge])).1 := hid
      rw [← hid] at hnew
      exact hnew (hmem x hx).1
    · rcases List.mem_append.mp hn with hn | hn
      · exact .inl hn
      · rw [List.mem_singleton.mp hn]
        exact .inr hnew
  · exact ⟨hcandidates, fun n hn => .inl hn, fun n hn => hn⟩

theorem entryOf_named {st : ClusterState} {id : String} {entry : NodeRegistryEntry} (h : entryOf st id = some entry) :
    entry.nodeId ≠ "" := by
  obtain ⟨raw, _, hp⟩ := Option.bind_eq_some_iff.mp h
  unfold parseNodeRegistryEntry at hp
  split at hp
  · split at hp
    · rename_i hs
      cases hp
      simp only [nodeRegistryEntrySchema, Bool.and_eq_true, bne_iff_ne, ne_eq] at hs
      exact hs.1.1.1.1.1
    · cases hp
  · cases hp

/-- What the planner worked on: the schedulable nodes and new ones beside them. -/
structure PlacementPlan (d : Deployment) (st : ClusterState) (nowMs : Int) (c : CandidateNodes) (edge : String)
    (plans : List ClusterServicePlan) (nodes : List CandidateNode) : Prop where
  pool : Pool st d.ownerProject nowMs c
  edge_ne : edge ≠ ""
  named : Named nodes
  /-- A candidate is a registered node that is schedulable, or none that is registered. -/
  known : ∀ n ∈ nodes, n ∈ c.candidateNodes ∨ n.nodeId ∉ c.nodes.map (·.1)
  candidates : ∀ n ∈ c.candidateNodes, n ∈ nodes
  plan : planClusterPlacement nodes (clusterInputs st d.ownerProject d.footprint.services) = .ok plans

theorem PlacementPlan.nodup {d : Deployment} {st : ClusterState} {nowMs : Int} {c : CandidateNodes} {edge : String}
    {plans : List ClusterServicePlan} {nodes : List CandidateNode} (h : PlacementPlan d st nowMs c edge plans nodes) :
    ((nodes.map tallyOf).map (·.id)).Nodup := by
  rw [List.map_map]
  exact h.named.1

theorem planPlacement_ok {d : Deployment} {st : ClusterState} {names : NodeNames} {nowMs : Int} {c : CandidateNodes}
    {edge : String} {plans : List ClusterServicePlan} (h : planPlacement d st names nowMs = .ok (c, edge, plans)) :
    ∃ nodes, PlacementPlan d st nowMs c edge plans nodes := by
  unfold planPlacement at h
  split at h
  · cases h
  · rename_i c' hb
    have pool := buildCandidateNodes_spec hb
    cases hedge : resolveEdge d.aws.clusterId d.defaultEdge c'.nodes with
    | error e => rw [hedge] at h; cases h
    | ok edge' =>
      rw [hedge] at h
      simp only [bind, Except.bind] at h
      split at h
      · cases h
      · split at h
        · cases h
        · rename_i plans' added hplan
          cases h
          obtain ⟨hstart, hknown, hcandidates⟩ := startingPool_named names d.opts.create edge pool
          obtain ⟨hplan, hnamed, hadded⟩ := planWithAdded_ok (by rwa [List.append_nil]) (by
            intro n hn
            rw [List.append_nil] at hn
            exact List.mem_append_left _ (List.mem_append_right _ (List.mem_map.mpr ⟨n, hn, rfl⟩))) hplan
          refine ⟨_, pool, ?_, hnamed, ?_, fun n hn => List.mem_append_left _ (hcandidates n hn), hplan⟩
          · exact resolveEdge_ne (fun e he => entryOf_named (pool.mem_nodes.mp he)) hedge
          · intro n hn
            rcases List.mem_append.mp hn with hn | hn
            · exact hknown n hn
            · right
              intro hmem
              exact hadded n hn (by simp) (List.mem_append_left _ (List.mem_append_left _ hmem))

theorem planDeploy_ok {d : Deployment} {st : ClusterState} {names : NodeNames} {provision : Provision} {nowMs : Int}
    {now : String} {run : DeployRun} (h : planDeploy d st names provision nowMs now = .ok run) : PlannedRun d st run := by
  unfold planDeploy at h
  cases hp : planPlacement d st names nowMs with
  | error e => rw [hp] at h; cases h
  | ok r =>
    obtain ⟨c, edge, plans⟩ := r
    rw [hp] at h
    simp only [bind, Except.bind] at h
    split at h
    · cases h
    · cases h
      obtain ⟨nodes, plan⟩ := planPlacement_ok hp
      obtain ⟨hnames, hpos⟩ := clusterInputs_spec st d.ownerProject d.footprint
      have hplaced := fun (s : ServiceDecl) (hs : s ∈ d.footprint.services) =>
        planServices_placed hnames hpos plan.nodup plan.plan
          (s := clusterInput (loadDeployedPlacement st d.ownerProject) s) (List.mem_map.mpr ⟨s, hs, rfl⟩)
      have hpool := fun p hp => planServices_pool plan.nodup plan.plan p hp
      refine ⟨plan.edge_ne, fun s hs => ?_, fun s hs p hp => ?_, sorted_nodup (foldl_insertId_sorted st.sorted), ?_, rfl, rfl⟩
      · obtain ⟨pool', _, hon⟩ := hplaced s hs
        exact ⟨pool', hon⟩
      · obtain ⟨pool', hids, hon⟩ := hplaced s hs
        obtain ⟨t, ht, htid, _⟩ := hon.fits p hp
        -- the node is of the pool, so it is provisioned
        have htouched : p.nodeId ∈ edge :: plans.flatMap (·.pool) := by
          obtain ⟨plan', hplanMem, _⟩ := placementsOf_mem hp
          refine List.mem_cons_of_mem _ (List.mem_flatMap.mpr ⟨plan', hplanMem, ?_⟩)
          rw [hpool plan' hplanMem, ← hids, ← htid]
          exact List.mem_map.mpr ⟨t, ht, rfl⟩
        refine ⟨mem_foldl_insertId.mpr (.inl htouched), ?_⟩
        rw [nodesAfter, SortedMap.get_map_append (fun id => provision id (SortedMap.get id c.nodes)), if_pos htouched]
        exact fun e => by cases e
      · intro hempty
        rcases mem_foldl_insertId.mp hempty with h | h
        · rcases List.mem_cons.mp h with h | h
          · exact plan.edge_ne h.symm
          · obtain ⟨plan', hplanMem, h⟩ := List.mem_flatMap.mp h
            rw [hpool plan' hplanMem, List.map_map] at h
            obtain ⟨n, hn, hid⟩ := List.mem_map.mp h
            exact plan.named.2 n hn hid
        · exact st.named _ h rfl

/-! ## Replicas over all nodes -/

section Shares

variable {built : List BuiltService} {plans : List ClusterServicePlan} {id : String}

/-- What a node gets of one service. -/
theorem nodeServices_share (hnd : (built.map (·.decl.name)).Nodup) {b : BuiltService} (hb : b ∈ built) :
    (((nodeServices built plans id).map fun p => (p.built.decl.name, p.replicas)).filter (·.1 = b.decl.name)).map (·.2) =
      sharesOn id (placementsOf plans b.decl.name) := by
  have hhead : ∀ x : BuiltService, ((((sharesOn id (placementsOf plans x.decl.name)).map fun n => (⟨x, n⟩ : NodeService)).map
      fun p => (p.built.decl.name, p.replicas)).filter (·.1 = b.decl.name)).map (·.2) =
        if x.decl.name = b.decl.name then sharesOn id (placementsOf plans x.decl.name) else [] := by
    intro x
    by_cases hx : x.decl.name = b.decl.name <;> simp [List.filter_map, Function.comp_def, hx]
  have hnone : ∀ l : List BuiltService, b.decl.name ∉ l.map (·.decl.name) →
      (((nodeServices l plans id).map fun p => (p.built.decl.name, p.replicas)).filter (·.1 = b.decl.name)).map (·.2) = [] := by
    intro l
    induction l with
    | nil => intro _; rfl
    | cons x l ih =>
      intro h
      rw [List.map_cons, List.mem_cons, not_or] at h
      simp only [nodeServices, List.flatMap_cons, List.map_append, List.filter_append] at ih ⊢
      rw [hhead, if_neg (Ne.symm h.1), ih h.2]
      rfl
  induction built with
  | nil => cases hb
  | cons x built ih =>
    rw [List.map_cons, List.nodup_cons] at hnd
    have hsplit : (((nodeServices (x :: built) plans id).map fun p => (p.built.decl.name, p.replicas)).filter
        (·.1 = b.decl.name)).map (·.2) = (if x.decl.name = b.decl.name then sharesOn id (placementsOf plans x.decl.name) else []) ++
          (((nodeServices built plans id).map fun p => (p.built.decl.name, p.replicas)).filter (·.1 = b.decl.name)).map (·.2) := by
      rw [← hhead x]
      simp only [nodeServices, List.flatMap_cons, List.map_append, List.filter_append]
    rw [hsplit]
    rcases List.mem_cons.mp hb with rfl | hb
    · rw [if_pos rfl, hnone built hnd.1, List.append_nil]
    · have hne : x.decl.name ≠ b.decl.name := fun e => hnd.1 (e ▸ List.mem_map.mpr ⟨b, hb, rfl⟩)
      rw [if_neg hne, ih hnd.2 hb]
      rfl

/-- A node gets each service once. -/
theorem nodeServices_nodup (hnd : (built.map (·.decl.name)).Nodup)
    (hshares : ∀ b ∈ built, (sharesOn id (placementsOf plans b.decl.name)).length ≤ 1) :
    ((nodeServices built plans id).map (·.built.decl.name)).Nodup := by
  induction built with
  | nil => exact List.nodup_nil
  | cons x built ih =>
    rw [List.map_cons, List.nodup_cons] at hnd
    have hrest := ih hnd.2 fun b hb => hshares b (List.mem_cons_of_mem _ hb)
    have hone := hshares x (List.mem_cons_self ..)
    simp only [nodeServices, List.flatMap_cons, List.map_append, List.map_map] at hrest ⊢
    rw [List.nodup_append]
    refine ⟨?_, hrest, ?_⟩
    · generalize sharesOn id (placementsOf plans x.decl.name) = shares at hone
      cases shares with
      | nil => exact List.nodup_nil
      | cons n rest =>
        obtain rfl : rest = [] := by
          rw [List.length_cons] at hone
          exact List.length_eq_zero_iff.mp (by omega)
        exact List.nodup_singleton _
    · intro a ha b hb hab
      obtain ⟨n, _, rfl⟩ := List.mem_map.mp ha
      obtain ⟨p, hp, rfl⟩ := List.mem_map.mp hb
      obtain ⟨y, hy, hp⟩ := List.mem_flatMap.mp hp
      obtain ⟨m, _, rfl⟩ := List.mem_map.mp hp
      exact hnd.1 (List.mem_map.mpr ⟨y, hy, hab.symm⟩)

/-- Over nodes that are all listed once, the shares are the placement. -/
theorem sum_shares {ids : List String} (hnd : ids.Nodup) {ps : List Placement} (hps : ∀ p ∈ ps, p.nodeId ∈ ids) :
    (ids.map fun id => (sharesOn id ps).sum).sum = (ps.map (·.replicas)).sum := by
  induction ps with
  | nil => simp [sharesOn]
  | cons p ps ih =>
    have hcons : ∀ id, (sharesOn id (p :: ps)).sum = (if id = p.nodeId then p.replicas else 0) + (sharesOn id ps).sum := by
      intro id
      unfold sharesOn
      by_cases hid : id = p.nodeId
      · subst hid; simp
      · simp [hid, Ne.symm hid]
    have hone : (ids.map fun id => if id = p.nodeId then p.replicas else 0).sum = p.replicas := by
      have hmem := hps p (List.mem_cons_self ..)
      clear ih hps hcons
      induction ids with
      | nil => cases hmem
      | cons x ids ih =>
        rw [List.nodup_cons] at hnd
        rw [List.map_cons, List.sum_cons]
        rcases List.mem_cons.mp hmem with rfl | hmem
        · have hzero : (ids.map fun id => if id = p.nodeId then p.replicas else 0).sum = 0 := by
            apply List.sum_eq_zero
            intro n hn
            obtain ⟨id, hid, rfl⟩ := List.mem_map.mp hn
            rw [if_neg]
            rintro rfl
            exact hnd.1 hid
          rw [if_pos rfl, hzero, Int.add_zero]
        · have hne : x ≠ p.nodeId := fun e => hnd.1 (e ▸ hmem)
          rw [if_neg hne, ih hnd.2 hmem, Int.zero_add]
    simp only [hcons, List.sum_map_add, hone, ih fun q hq => hps q (List.mem_cons_of_mem _ hq), List.map_cons, List.sum_cons]

end Shares

/-! ## What a run that succeeds leaves -/

section Outcome

variable {E : Etags} {d : Deployment} {st : ClusterState} {run : DeployRun} {j₀ j₁ j' : DesiredBucket Unit}

/-- The bucket holds the documents the run reads. -/
def Stored (st : ClusterState) (j : DesiredBucket Unit) : Prop :=
  ∀ id, (Journal.current id j).map (·.2) = (st.desired id).map Body.parsed

theorem Stored.services (h : Stored st j₀) (id : String) : servicesAt id j₀ = publishedServices st id := by
  unfold publishedServices
  cases hd : st.desired id with
  | none =>
    rw [servicesAt_absent (by rw [h id, hd]; rfl)]
    rfl
  | some raw =>
    have hcur := h id
    rw [hd] at hcur
    obtain ⟨⟨v, b⟩, hcur, rfl⟩ := Option.map_eq_some_iff.mp hcur
    unfold servicesAt
    cases hp : parseDesiredState raw <;> simp [hcur, hp]

/-- The nodes of the cluster after the run. -/
def registeredIds (run : DeployRun) : List String := run.nodeIds.filter fun id => (SortedMap.get id run.nodes).isSome

/-- A service's replicas over all of them. -/
def totalReplicas (d : Deployment) (run : DeployRun) (name : String) (j : DesiredBucket Unit) : Int :=
  ((registeredIds run).map fun id => replicasOf d.ownerProject name (servicesAt id j)).sum

/-- What a deploy of some services passes over: a service on a node that its plan leaves. -/
def leftover (d : Deployment) (run : DeployRun) (name id : String) (j : DesiredBucket Unit) : Int :=
  if d.opts.partialDeploy = true ∧ sharesOn id (placementsOf run.plans name) = [] then
    replicasOf d.ownerProject name (servicesAt id j)
  else 0

theorem declared_built {s : ServiceDecl} (hs : s ∈ d.footprint.services) :
    (d.built.map (·.decl.name)).Nodup ∧ ∃ b ∈ d.built, b.decl = s := by
  constructor
  · have hnd := d.footprint.nodup
    rw [← d.built_decl, List.map_map] at hnd
    exact hnd
  · rw [← d.built_decl] at hs
    obtain ⟨b, hb, rfl⟩ := List.mem_map.mp hs
    exact ⟨b, hb, rfl⟩

/-- A listed node gets these services, another gets none. -/
theorem PlannedRun.shares_nil (plan : PlannedRun d st run) {id : String} (hid : id ∉ run.nodePlacements.map (·.1))
    {s : ServiceDecl} (hs : s ∈ d.footprint.services) : sharesOn id (placementsOf run.plans s.name) = [] := by
  obtain ⟨hnd, b, hb, rfl⟩ := declared_built hs
  have hnone : nodeServices d.built run.plans id = [] := by
    by_contra hne
    apply hid
    rw [plan.nodePlacements]
    exact List.mem_map.mpr ⟨(id, _), mem_nodePlacements.mpr ⟨rfl, hne⟩, rfl⟩
  rw [← nodeServices_share hnd hb, hnone]
  rfl

/-- What a merge leaves of a service on a node of the plan. -/
theorem PlannedRun.merged_share (plan : PlannedRun d st run) {id : String} {incoming merged existing : List ServiceConfig}
    (hinc : incomingFor d run.edgeNodeId (nodeServices d.built run.plans id) = .ok incoming)
    (hm : mergeOf d.opts.partialDeploy existing d.ownerProject incoming = .ok merged) {s : ServiceDecl}
    (hs : s ∈ d.footprint.services) :
    replicasOf d.ownerProject s.name merged = (sharesOn id (placementsOf run.plans s.name)).sum +
      if d.opts.partialDeploy = true ∧ sharesOn id (placementsOf run.plans s.name) = [] then
        replicasOf d.ownerProject s.name existing else 0 := by
  obtain ⟨hnd, b, hb, rfl⟩ := declared_built hs
  obtain ⟨howned, hentries⟩ := incomingFor_entries hinc
  have hshare := @nodeServices_share _ run.plans id hnd _ hb
  rw [← hentries] at hshare
  have hreplicas : replicasOf d.ownerProject b.decl.name incoming = (sharesOn id (placementsOf run.plans b.decl.name)).sum := by
    rw [← hshare, List.filter_map, List.map_map, replicasOf, entriesOf]
    congr 2
    apply List.filter_congr
    intro c hc
    simp [howned c hc]
  cases hkept : d.opts.partialDeploy with
  | false =>
    rw [hkept] at hm
    have hfull := full_entries hm b.decl.name
    rw [replicasOf, hfull, ← replicasOf, hreplicas]
    simp
  | true =>
    rw [hkept] at hm
    by_cases hnil : sharesOn id (placementsOf run.plans b.decl.name) = []
    · have hnot : b.decl.name ∉ incoming.map (·.service) := by
        intro hmem
        obtain ⟨c, hc, hname⟩ := List.mem_map.mp hmem
        rw [hnil, List.map_eq_nil_iff, List.filter_eq_nil_iff] at hshare
        apply hshare _ (List.mem_map.mpr ⟨c, hc, rfl⟩)
        simpa using hname
      rw [replicasOf, partial_entries_kept hm hnot, ← replicasOf, hnil]
      simp
    · have hservices : (incoming.map (·.service)).Nodup := by
        have hmap := congrArg (List.map Prod.fst) hentries
        rw [List.map_map, List.map_map] at hmap
        change incoming.map (·.service) = (nodeServices d.built run.plans id).map (·.built.decl.name) at hmap
        rw [hmap]
        apply nodeServices_nodup hnd
        intro x hx
        have hxs : x.decl ∈ d.footprint.services := d.built_decl ▸ List.mem_map.mpr ⟨x, hx, rfl⟩
        obtain ⟨pool, hon⟩ := plan.placed x.decl hxs
        rcases hon.shares id with h | ⟨p, _, _, h⟩ <;> rw [h] <;> simp
      -- the one entry that the plan brings here
      have hsome : (incoming.filter fun c => c.service = b.decl.name) ≠ [] := by
        intro he
        rw [List.filter_map, List.map_map] at hshare
        apply hnil
        rw [← hshare, List.map_eq_nil_iff]
        exact he
      obtain ⟨r, hr⟩ := List.exists_mem_of_ne_nil _ hsome
      obtain ⟨hr, hname⟩ := List.mem_filter.mp hr
      have hname : r.service = b.decl.name := by simpa using hname
      have hmerged := partial_entries hm hservices hr
      have hincoming : entriesOf d.ownerProject b.decl.name incoming = [r] := by
        have hempty := @partial_entries [] incoming incoming d.ownerProject
          ((mergeProjectServicesPartial_ok).mpr ⟨howned, by simp [upserted], ?_⟩) hservices _ hr
        · rwa [hname] at hempty
        · rw [show incoming.map (·.key) = (incoming.map (·.service)).map (serviceKey d.ownerProject) by
            rw [List.map_map]
            apply List.map_congr_left
            intro c hc
            rw [ServiceConfig.key, howned c hc]
            rfl]
          apply hservices.map
          intro a a' he
          unfold serviceKey at he
          simpa using he
      rw [hname] at hmerged
      rw [replicasOf, hmerged, ← hincoming, ← replicasOf, hreplicas, if_neg (fun h => hnil h.2), Int.add_zero]

/-- A service's replicas on one node, after the run. -/
theorem PlannedRun.node_after (plan : PlannedRun d st run) (hstored : Stored st j₀)
    (hplaced : Placed d run run.nodePlacements j₀ j₁) (hvacated : Vacated d run run.vacatedNodeIds j₁ j')
    {id : String} (hid : id ∈ registeredIds run) {s : ServiceDecl} (hs : s ∈ d.footprint.services) :
    replicasOf d.ownerProject s.name (servicesAt id j') =
      (sharesOn id (placementsOf run.plans s.name)).sum + leftover d run s.name id j₀ := by
  have hregistered : SortedMap.get id run.nodes ≠ none := by
    have h := (List.mem_filter.mp hid).2
    intro e
    rw [e] at h
    cases h
  by_cases hk : id ∈ run.nodePlacements.map (·.1)
  · -- a node of the plan; the cleanup passes over it
    have hnot : id ∉ run.vacatedNodeIds := by
      rw [plan.vacated]
      unfold vacatedNodes
      split
      · exact List.not_mem_nil
      · intro hmem
        have h := (List.mem_filter.mp hmem).2
        simp only [Bool.not_eq_true', List.contains_eq_mem, decide_eq_false_iff_not] at h
        exact h hk
    rw [hvacated id, if_neg (fun h => hnot h.1)]
    obtain ⟨⟨id', placed⟩, he, rfl⟩ := List.mem_map.mp hk
    obtain ⟨incoming, hinc, hm⟩ := hplaced.1 _ he
    rw [plan.nodePlacements] at he
    obtain ⟨rfl, _⟩ := mem_nodePlacements.mp he
    exact plan.merged_share hinc hm hs
  · have hnil := plan.shares_nil hk hs
    rw [hvacated id, hplaced.2 id hk, leftover, hnil, plan.vacated]
    cases hkept : d.opts.partialDeploy with
    | true => simp [vacatedNodes]
    | false =>
      simp only [Bool.false_eq_true, false_and, if_false, List.sum_nil, Int.add_zero]
      -- under a full deploy nothing of the project is left, or nothing was there
      apply replicasOf_nil
      unfold entriesOf
      rw [List.filter_eq_nil_iff]
      split
      · intro c hc
        have hc := (List.mem_filter.mp hc).2
        simp only [ne_eq, decide_eq_true_eq] at hc
        simp [hc]
      · rename_i hnot
        intro c hc hmatch
        have hmatch : c.project = d.ownerProject ∧ c.service = s.name := by simpa using hmatch
        rw [hstored.services id] at hc
        apply hnot
        refine ⟨?_, hregistered⟩
        simp only [vacatedNodes, Bool.false_eq_true, if_false]
        refine List.mem_filter.mpr ⟨?_, by simpa using hk⟩
        have hlisted : id ∈ st.nodeIds := by
          apply st.listed
          right
          intro hno
          rw [publishedServices, hno] at hc
          cases hc
        refine List.mem_map.mpr ⟨(id, occupanciesOf st d.ownerProject id), List.mem_filter.mpr ⟨?_, ?_⟩, rfl⟩
        · exact List.mem_map.mpr ⟨id, hlisted, rfl⟩
        · have hocc : (⟨c.service, c.replicas, c.ingress⟩ : NodeOccupancy) ∈ occupanciesOf st d.ownerProject id :=
            List.mem_map.mpr ⟨c, List.mem_filter.mpr ⟨hc, by simpa using hmatch.1⟩, rfl⟩
          cases ho : occupanciesOf st d.ownerProject id with
          | nil => rw [ho] at hocc; cases hocc
          | cons o os => rfl

/-- After the run: the declared replicas, and what a partial deploy passed over. -/
theorem PlannedRun.total_after (plan : PlannedRun d st run) (hstored : Stored st j₀)
    (hplaced : Placed d run run.nodePlacements j₀ j₁) (hvacated : Vacated d run run.vacatedNodeIds j₁ j')
    {s : ServiceDecl} (hs : s ∈ d.footprint.services) :
    totalReplicas d run s.name j' = s.replicas + ((registeredIds run).map fun id => leftover d run s.name id j₀).sum := by
  obtain ⟨pool, hon⟩ := plan.placed s hs
  have hids : ∀ p ∈ placementsOf run.plans s.name, p.nodeId ∈ registeredIds run := by
    intro p hp
    obtain ⟨hmem, hget⟩ := plan.registered s hs p hp
    exact List.mem_filter.mpr ⟨hmem, Option.isSome_iff_ne_none.mpr hget⟩
  have hshares : ((registeredIds run).map fun id => (sharesOn id (placementsOf run.plans s.name)).sum).sum = s.replicas :=
    (sum_shares (plan.nodeIds.filter _) hids).trans hon.sum
  rw [← hshares, ← List.sum_map_add]
  unfold totalReplicas
  congr 1
  apply List.map_congr_left
  intro id hid
  exact plan.node_after hstored hplaced hvacated hid hs

theorem nodeServices_mem {s : NodeService} {id : String} (plan : PlannedRun d st run)
    (h : s ∈ nodeServices d.built run.plans id) : s.built ∈ d.built ∧ 1 ≤ s.replicas := by
  obtain ⟨b, hb, h⟩ := List.mem_flatMap.mp h
  obtain ⟨n, hn, rfl⟩ := List.mem_map.mp h
  refine ⟨hb, ?_⟩
  obtain ⟨p, hp, rfl⟩ := List.mem_map.mp hn
  have hs : b.decl ∈ d.footprint.services := d.built_decl ▸ List.mem_map.mpr ⟨b, hb, rfl⟩
  obtain ⟨pool, hon⟩ := plan.placed b.decl hs
  exact hon.pos p (List.mem_filter.mp hp).1

/-- A run whose publishes are each on a node of its own, of accepted entries. -/
structure Publishable (d : Deployment) (run : DeployRun) : Prop where
  edge : run.edgeNodeId ≠ ""
  nodup : (run.nodePlacements.map (·.1)).Nodup
  named : ∀ e ∈ run.nodePlacements, e.1 ≠ ""
  placed : ∀ e ∈ run.nodePlacements, ∀ p ∈ e.2, p.built ∈ d.built ∧ 1 ≤ p.replicas
  vacated : ∀ id ∈ run.vacatedNodeIds, id ≠ ""

/-- A vacated node is a directory of the cluster. -/
theorem vacatedNodes_named {ownerProject : String} {partialDeploy : Bool} {placements : List (String × List NodeService)} {id : String}
    (h : id ∈ vacatedNodes (loadDeployedPlacement st ownerProject) partialDeploy placements) : id ≠ "" := by
  unfold vacatedNodes at h
  split at h
  · cases h
  · obtain ⟨hocc, _⟩ := List.mem_filter.mp h
    obtain ⟨⟨id', occ⟩, he, rfl⟩ := List.mem_map.mp hocc
    obtain ⟨id'', hlisted, he⟩ := List.mem_map.mp (List.mem_filter.mp he).1
    cases he
    exact st.named _ hlisted

theorem PlannedRun.publishable (plan : PlannedRun d st run) : Publishable d run := by
  refine ⟨plan.edge, ?_, ?_, ?_, fun id hid => vacatedNodes_named (plan.vacated ▸ hid)⟩
  · rw [plan.nodePlacements]
    exact nodePlacements_nodup ..
  · rintro ⟨id, placed⟩ he rfl
    rw [plan.nodePlacements] at he
    obtain ⟨rfl, hne⟩ := mem_nodePlacements.mp he
    obtain ⟨x, hx⟩ := List.exists_mem_of_ne_nil _ hne
    obtain ⟨b, hb, hx⟩ := List.mem_flatMap.mp hx
    obtain ⟨n, hn, rfl⟩ := List.mem_map.mp hx
    obtain ⟨p, hp, rfl⟩ := List.mem_map.mp hn
    obtain ⟨hp, hid⟩ := List.mem_filter.mp hp
    have hid : p.nodeId = "" := by simpa using hid
    have hs : b.decl ∈ d.footprint.services := d.built_decl ▸ List.mem_map.mpr ⟨b, hb, rfl⟩
    exact plan.named (hid ▸ (plan.registered b.decl hs p hp).1)
  · rintro ⟨id, placed⟩ he p hp
    rw [plan.nodePlacements] at he
    obtain ⟨rfl, _⟩ := mem_nodePlacements.mp he
    exact nodeServices_mem plan hp

theorem deployRun_alone (h : Publishable d run) (j₀ : DesiredBucket Unit) :
    Sat (alone (s3Sem E)) (fun _ _ => True)
      (fun r j' => r = .ok () → ∃ j₁, Placed d run run.nodePlacements j₀ j₁ ∧ Vacated d run run.vacatedNodeIds j₁ j')
      (deployRun d run) j₀ := by
  refine Sat.bind (placements_alone h.edge h.nodup h.named h.placed j₀) fun r j₁ hfirst => ?_
  cases r with
  | error e => exact .aloneRet fun e => by cases e
  | ok u =>
    exact (vacated_alone h.vacated j₁).mono (fun _ _ h => h) fun r j' hsecond hr => ⟨j₁, hfirst rfl, hsecond hr⟩

/-- Over every run of the program: the two loops, one after the other. -/
theorem deploy_done (h : Publishable d run) {s : Crew Unit DesiredResp (Except RunError Unit) (DesiredBucket Unit)}
    (hrun : CrewRun (s3Sem E) ⟨fun _ : Unit => deployRun d run, j₀⟩ s) (hdone : s.progs () = .ret (.ok ())) :
    ∃ j₁, Placed d run run.nodePlacements j₀ j₁ ∧ Vacated d run run.vacatedNodeIds j₁ s.world :=
  alone_done (deployRun_alone h j₀) hrun hdone rfl

/-- Of a deploy of some services, the plan takes each of them back to every registered node
    that publishes it. -/
def Covers (d : Deployment) (st : ClusterState) (run : DeployRun) : Prop :=
  d.opts.partialDeploy = true → ∀ s ∈ d.footprint.services, ∀ id ∈ registeredIds run,
    (∃ c ∈ publishedServices st id, c.project = d.ownerProject ∧ c.service = s.name) →
      ∃ p ∈ placementsOf run.plans s.name, p.nodeId = id

theorem sharesOn_eq_nil {id : String} {ps : List Placement} : sharesOn id ps = [] ↔ ¬∃ p ∈ ps, p.nodeId = id := by
  unfold sharesOn
  rw [List.map_eq_nil_iff, List.filter_eq_nil_iff]
  simp

theorem leftover_eq_zero (hstored : Stored st j₀) (name id : String) :
    0 ≤ leftover d run name id j₀ ∧ (leftover d run name id j₀ = 0 ↔ (d.opts.partialDeploy = true →
      (∃ c ∈ publishedServices st id, c.project = d.ownerProject ∧ c.service = name) →
        ∃ p ∈ placementsOf run.plans name, p.nodeId = id)) := by
  obtain ⟨hnonneg, hzero⟩ := @replicasOf_eq_zero d.ownerProject name (servicesAt id j₀)
    fun s hs => (serviceConfigSchema_sized (servicesAt_accepted hs)).replicas
  have hempty : entriesOf d.ownerProject name (servicesAt id j₀) = [] ↔
      ¬∃ c ∈ publishedServices st id, c.project = d.ownerProject ∧ c.service = name := by
    rw [hstored.services]
    simp [entriesOf, List.filter_eq_nil_iff]
  unfold leftover
  by_cases hcase : d.opts.partialDeploy = true ∧ sharesOn id (placementsOf run.plans name) = []
  · rw [if_pos hcase, hzero, hempty]
    refine ⟨hnonneg, ?_⟩
    have hnot := sharesOn_eq_nil.mp hcase.2
    exact ⟨fun hno _ h => absurd h hno, fun h hp => hnot (h hcase.1 hp)⟩
  · rw [if_neg hcase]
    refine ⟨Int.le_refl 0, ?_⟩
    rw [sharesOn_eq_nil] at hcase
    tauto

/-- Over every cluster, every full or partial deploy and every run of it alone that
    succeeds: each service ends with its declared replicas over the registered nodes, and a
    partial deploy leaves the project's other services as they were, exactly when no
    service of a partial deploy is left on a node outside its plan. -/
theorem deploy_publishes_declared (d : Deployment) (st : ClusterState) (names : NodeNames) (provision : Provision)
    (nowMs : Int) (now : String) (hplan : planDeploy d st names provision nowMs now = .ok run) (hstored : Stored st j₀)
    {s : Crew Unit DesiredResp (Except RunError Unit) (DesiredBucket Unit)}
    (hrun : CrewRun (s3Sem E) ⟨fun _ => deploy d st names provision nowMs now, j₀⟩ s)
    (hdone : s.progs () = .ret (.ok ())) :
    ((∀ decl ∈ d.footprint.services, totalReplicas d run decl.name s.world = decl.replicas) ∧
      (d.opts.partialDeploy = true → ∀ id name, name ∉ d.footprint.services.map (·.name) →
        entriesOf d.ownerProject name (servicesAt id s.world) = entriesOf d.ownerProject name (servicesAt id j₀))) ↔
      Covers d st run := by
  have plan := planDeploy_ok hplan
  unfold deploy at hrun
  rw [hplan] at hrun
  obtain ⟨j₁, hplaced, hvacated⟩ := deploy_done plan.publishable hrun hdone
  have htotal := fun decl (hdecl : decl ∈ d.footprint.services) => plan.total_after hstored hplaced hvacated hdecl
  -- a sum of what is not negative is nothing when each part is
  have hzero : ∀ decl ∈ d.footprint.services, totalReplicas d run decl.name s.world = decl.replicas ↔
      ∀ id ∈ registeredIds run, leftover d run decl.name id j₀ = 0 := by
    intro decl hdecl
    rw [htotal decl hdecl, add_eq_left]
    constructor
    · intro hsum id hid
      have hle := List.single_le_sum (l := (registeredIds run).map fun id => leftover d run decl.name id j₀)
        (by
          intro n hn
          obtain ⟨id', _, rfl⟩ := List.mem_map.mp hn
          exact (leftover_eq_zero hstored decl.name id').1)
        _ (List.mem_map.mpr ⟨id, hid, rfl⟩)
      have hleft : 0 ≤ leftover d run decl.name id j₀ := (leftover_eq_zero hstored decl.name id).1
      omega
    · intro hall
      apply List.sum_eq_zero
      intro n hn
      obtain ⟨id, hid, rfl⟩ := List.mem_map.mp hn
      exact hall id hid
  have hothers : d.opts.partialDeploy = true → ∀ id name, name ∉ d.footprint.services.map (·.name) →
      entriesOf d.ownerProject name (servicesAt id s.world) = entriesOf d.ownerProject name (servicesAt id j₀) := by
    intro hkept id name hname
    have hnone : run.vacatedNodeIds = [] := by rw [plan.vacated, vacatedNodes, if_pos hkept]
    rw [hvacated id, hnone, if_neg (fun h => (by cases h.1))]
    by_cases hk : id ∈ run.nodePlacements.map (·.1)
    · obtain ⟨⟨id', placed⟩, he, rfl⟩ := List.mem_map.mp hk
      obtain ⟨incoming, hinc, hm⟩ := hplaced.1 _ he
      rw [hkept] at hm
      refine partial_entries_kept hm fun hmem => hname ?_
      -- what a run brings is of its own services
      have hservices := congrArg (List.map Prod.fst) (incomingFor_entries hinc).2
      rw [List.map_map, List.map_map] at hservices
      change incoming.map (·.service) = placed.map (·.built.decl.name) at hservices
      rw [hservices] at hmem
      obtain ⟨p, hp, rfl⟩ := List.mem_map.mp hmem
      rw [plan.nodePlacements] at he
      obtain ⟨rfl, _⟩ := mem_nodePlacements.mp he
      rw [← d.built_decl, List.map_map]
      exact List.mem_map.mpr ⟨p.built, (nodeServices_mem plan hp).1, rfl⟩
    · rw [hplaced.2 id hk]
  constructor
  · intro ⟨hsums, _⟩ hkept decl hdecl id hid hpublished
    exact (leftover_eq_zero hstored decl.name id).2.mp ((hzero decl hdecl).mp (hsums decl hdecl) id hid) hkept hpublished
  · intro hcovers
    refine ⟨fun decl hdecl => (hzero decl hdecl).mpr fun id hid => ?_, hothers⟩
    exact (leftover_eq_zero hstored decl.name id).2.mpr fun hkept hpublished => hcovers hkept decl hdecl id hid hpublished

end Outcome

/-! ## A service that outgrew its node -/

/-- A name longer than all of them. -/
def longerName : NodeNames := fun used => by
  refine ⟨String.ofList (List.replicate ((used.map String.length).sum + 1) 'n'), ?_, ?_⟩
  · intro hmem
    have hle := List.single_le_sum (l := used.map String.length) (fun _ _ => Nat.zero_le _) _ (List.mem_map.mpr ⟨_, hmem, rfl⟩)
    rw [String.length_ofList, List.length_replicate] at hle
    omega
  · intro he
    have hlen := congrArg String.length he
    simp at hlen

def tightNode : NodeRegistryEntry := { smallNode with totalCpu := 250 }

def bootedNode : Provision := fun id entry => entry.getD { smallNode with nodeId := id }

/-- Two app nodes; `web` is published on the smaller one. -/
def twoNodes : ClusterState where
  nodeIds := ["n1", "n2"]
  registry id := if id = "n1" then some (.json tightNode) else if id = "n2" then some (.json { smallNode with nodeId := "n2" }) else none
  desired id := if id = "n1" then some (.json ⟨protocolVersion, "n1", "", [webEntry]⟩) else none
  status _ := none
  sorted := by decide
  named := by decide
  listed := by
    intro id h
    by_cases h1 : id = "n1"
    · simp [h1]
    · by_cases h2 : id = "n2"
      · simp [h2]
      · simp [h1, h2] at h

/-- `web` with twice its CPU, which the smaller node no longer holds. -/
def grownDecl : ServiceDecl := { plainDecl with cpu := 200, cpu_pos := by decide }

theorem shop_ne : "shop" ≠ "" := by decide
theorem e1_ne : some "e1" ≠ some "" := by decide

def grownService : BuiltService := ⟨grownDecl, "web:2", none⟩

def grown (partialDeploy : Bool) : Deployment where
  aws := ⟨"default", "1", "r"⟩
  ownerProject := "shop"
  opts := { partialDeploy }
  defaultEdge := some "e1"
  footprint := ⟨[grownDecl], by decide⟩
  built := [grownService]
  built_decl := rfl
  owner_ne := shop_ne
  edge_ne := e1_ne
  valid := by
    intro b hb
    obtain rfl := List.mem_singleton.mp hb
    exact ⟨by decide, by decide, by decide +kernel⟩

def twoNodesBucket : DesiredBucket Unit :=
  [⟨none, "n1", some (.parsed (.json ⟨protocolVersion, "n1", "", [webEntry]⟩))⟩]

theorem twoNodes_stored : Stored twoNodes twoNodesBucket := by
  intro id
  by_cases h : id = "n1"
  · subst h; rfl
  · simp [twoNodesBucket, Journal.current, twoNodes, h, Ne.symm h]

/-- The run's commands, all of them. -/
def grownRun (partialDeploy : Bool) : Crew Unit DesiredResp (Except RunError Unit) (DesiredBucket Unit) :=
  Crew.play (s3Serve strokes "t") (List.replicate 8 ())
    ⟨fun _ => deploy (grown partialDeploy) twoNodes longerName bootedNode 0 "t", twoNodesBucket⟩

theorem deploy_publishes_declared_grown :
    ∃ run s, planDeploy (grown false) twoNodes longerName bootedNode 0 "t" = .ok run ∧
      CrewRun (s3Sem strokes) ⟨fun _ => deploy (grown false) twoNodes longerName bootedNode 0 "t", twoNodesBucket⟩ s ∧
      totalReplicas (grown false) run "web" s.world = 1 := by
  cases hplan : planDeploy (grown false) twoNodes longerName bootedNode 0 "t" with
  | error e =>
    have hok : (planDeploy (grown false) twoNodes longerName bootedNode 0 "t").isOk = true := by decide +kernel
    rw [hplan] at hok
    cases hok
  | ok run =>
    have hrun := play_run (s3Serve_sem strokes "t") (List.replicate 8 ())
      ⟨fun _ => deploy (grown false) twoNodes longerName bootedNode 0 "t", twoNodesBucket⟩
    refine ⟨run, grownRun false, rfl, hrun, ?_⟩
    have hdone : (grownRun false).progs () = .ret (.ok ()) := Prog.eq_ret (by decide +kernel)
    exact ((deploy_publishes_declared (grown false) twoNodes longerName bootedNode 0 "t" hplan twoNodes_stored hrun hdone).mpr
      (fun h => by cases h)).1 grownDecl (List.mem_singleton_self _)

/-- `--service web` moves it to the larger node, and leaves it on the smaller one too. -/
theorem moved_service_left_behind :
    ∃ run s, planDeploy (grown true) twoNodes longerName bootedNode 0 "t" = .ok run ∧ Stored twoNodes twoNodesBucket ∧
      CrewRun (s3Sem strokes) ⟨fun _ => deploy (grown true) twoNodes longerName bootedNode 0 "t", twoNodesBucket⟩ s ∧
      s.progs () = .ret (.ok ()) ∧ grownDecl ∈ (grown true).footprint.services ∧
      totalReplicas (grown true) run "web" s.world ≠ grownDecl.replicas := by
  cases hplan : planDeploy (grown true) twoNodes longerName bootedNode 0 "t" with
  | error e =>
    have hok : (planDeploy (grown true) twoNodes longerName bootedNode 0 "t").isOk = true := by decide +kernel
    rw [hplan] at hok
    cases hok
  | ok run =>
    refine ⟨run, grownRun true, rfl, twoNodes_stored, play_run (s3Serve_sem strokes "t") _ _, Prog.eq_ret (by decide +kernel),
      List.mem_singleton_self _, ?_⟩
    have htwo : (planDeploy (grown true) twoNodes longerName bootedNode 0 "t").toOption.map
        (fun run => totalReplicas (grown true) run "web" (grownRun true).world) = some 2 := by decide +kernel
    rw [hplan] at htwo
    have htwo : totalReplicas (grown true) run "web" (grownRun true).world = 2 := Option.some.inj htwo
    rw [htwo]
    decide

end LaunchPad.Cli
