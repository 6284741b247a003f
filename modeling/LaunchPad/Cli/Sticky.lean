/-
  LaunchPad.Cli.Sticky — data and its node (`deploy/placement.ts` `stickyNodeId`,
  `commands/deploy.ts` `publishedNodeOf`): while the node that holds a service's volumes
  exists, the planner keeps the service there.

  What the planner asks is whether the node is in the pool it plans on. A registered node
  may be out of the pool (an external node whose heartbeat is late, or that is not ready);
  then its data counts as gone. And the planner knows one node of a service: the first
  directory that publishes it.

  Proved:
  - `sticky_placed`: a service whose node is in the pool is placed there.
  - `data_follows_volume`: over every cluster and every plan that is accepted, services
    with volumes stay with their data when each node that holds any is the first to publish
    its service and is schedulable; and only then, but for directories that are no nodes.
-/
import LaunchPad.Cli.Deploy

namespace LaunchPad.Cli

open Lib

/-! ## The node a service is on -/

def publishes (st : ClusterState) (ownerProject name id : String) : Bool :=
  (publishedServices st id).any fun c => c.project = ownerProject && c.service = name

theorem publishes_iff {st : ClusterState} {ownerProject name id : String} :
    publishes st ownerProject name id = true ↔
      ∃ c ∈ publishedServices st id, c.project = ownerProject ∧ c.service = name := by
  simp [publishes]

theorem publishes_listed {st : ClusterState} {ownerProject name id : String}
    (h : publishes st ownerProject name id = true) : id ∈ st.nodeIds := by
  obtain ⟨c, hc, _⟩ := publishes_iff.mp h
  apply st.listed
  right
  intro hno
  rw [publishedServices, hno] at hc
  cases hc

/-- The node of a service is the first directory that publishes it. -/
theorem publishedNodeOf_eq (st : ClusterState) (ownerProject name : String) :
    publishedNodeOf (loadDeployedPlacement st ownerProject) name = st.nodeIds.find? (publishes st ownerProject name) := by
  have hocc : ∀ id, (occupanciesOf st ownerProject id).any (·.service == name) = publishes st ownerProject name id := by
    intro id
    simp only [occupanciesOf, publishes, List.any_map, List.any_filter]
    congr 1
  unfold publishedNodeOf loadDeployedPlacement
  dsimp only
  induction st.nodeIds with
  | nil => rfl
  | cons id ids ih =>
    rw [List.map_cons, List.filter_cons]
    cases hempty : (occupanciesOf st ownerProject id).isEmpty with
    | true =>
      have hnot : publishes st ownerProject name id = false := by
        rw [← hocc, List.isEmpty_iff.mp hempty]
        rfl
      rw [List.find?_cons_of_neg (by rw [hnot]; simp)]
      simpa [hempty] using ih
    | false =>
      cases hp : publishes st ownerProject name id with
      | true => simp [hocc, hp]
      | false => simpa [hempty, hocc, hp] using ih

/-! ## Staying -/

/-- A service with volumes whose node is in the pool is placed on that node, whole. -/
theorem sticky_placed {pool : List NodeTally} {s : ClusterServiceInput} {id : String} (hvolumes : s.hasVolumes = true)
    (hsticky : s.stickyNodeId = some id) (hmem : id ∈ pool.map (·.id)) {ps : List Placement} (h : place pool s = .ok ps) :
    ps = [⟨id, s.replicas⟩] := by
  have h : placeBy better pool s = .ok ps := h
  unfold placeBy placeVolumeServiceBy at h
  rw [if_pos hvolumes, hsticky] at h
  dsimp only at h
  split at h
  · rename_i hnone
    obtain ⟨t, ht, hid⟩ := List.mem_map.mp hmem
    have := List.find?_eq_none.mp hnone t ht
    simp [hid] at this
  · rename_i sticky hfind
    have hid : sticky.id = id := by simpa using List.find?_some hfind
    split at h
    · cases h
      rw [hid]
    · cases h

section Follow

variable (d : Deployment) (st : ClusterState)

/-- The node is registered and publishes the service. -/
def HoldsData (s : ServiceDecl) (id : String) : Prop :=
  entryOf st id ≠ none ∧ publishes st d.ownerProject s.name id = true

/-- Each service with volumes is on the node that holds its data. -/
def DataFollows (plans : List ClusterServicePlan) : Prop :=
  ∀ s ∈ d.footprint.services, s.volumes ≠ [] → ∀ id, HoldsData d st s id → placementsOf plans s.name = [⟨id, s.replicas⟩]

/-- The registered node can take containers now. -/
def InPool (nowMs : Int) (id : String) : Prop := ∃ entry, entryOf st id = some entry ∧ schedulable st nowMs id entry = true

/-- Each node that holds data of a service is in the pool and the first to publish it. -/
def Anchored (nowMs : Int) : Prop :=
  ∀ s ∈ d.footprint.services, s.volumes ≠ [] → ∀ id, HoldsData d st s id →
    InPool st nowMs id ∧ st.nodeIds.find? (publishes st d.ownerProject s.name) = some id

variable {d st} {names : NodeNames} {nowMs : Int} {c : CandidateNodes} {edge : String} {plans : List ClusterServicePlan}

/-- A node of the pool that is registered is schedulable. -/
theorem PlacementPlan.inPool {nodes : List CandidateNode} (plan : PlacementPlan d st nowMs c edge plans nodes) {id : String}
    (hregistered : entryOf st id ≠ none) : id ∈ (nodes.map tallyOf).map (·.id) ↔ InPool st nowMs id := by
  obtain ⟨entry, hentry⟩ := Option.ne_none_iff_exists'.mp hregistered
  rw [List.map_map, List.mem_map]
  constructor
  · intro ⟨n, hn, hid⟩
    have hid : n.nodeId = id := hid
    rcases plan.known n hn with hn | hnew
    · obtain ⟨id', entry', hentry', hs, rfl⟩ := plan.pool.mem_candidates.mp hn
      exact ⟨entry', hid ▸ hentry', hid ▸ hs⟩
    · apply absurd _ hnew
      rw [hid]
      exact List.mem_map.mpr ⟨(id, entry), plan.pool.mem_nodes.mpr hentry, rfl⟩
  · intro ⟨entry', hentry', hs⟩
    exact ⟨_, plan.candidates _ (plan.pool.mem_candidates.mpr ⟨id, entry', hentry', hs, rfl⟩), rfl⟩

/-- Over every cluster and every plan that is accepted: data stays with its volume when its
    nodes are anchored. Where it stays, each of them is in the pool, and no other registered
    node publishes the service before it. -/
theorem data_follows_volume (hplan : planPlacement d st names nowMs = .ok (c, edge, plans)) :
    (Anchored d st nowMs → DataFollows d st plans) ∧
      (DataFollows d st plans → ∀ s ∈ d.footprint.services, s.volumes ≠ [] → ∀ id, HoldsData d st s id →
        InPool st nowMs id ∧ ∀ m, st.nodeIds.find? (publishes st d.ownerProject s.name) = some m →
          m = id ∨ entryOf st m = none) := by
  obtain ⟨nodes, plan⟩ := planPlacement_ok hplan
  obtain ⟨hnames, hpos⟩ := clusterInputs_spec st d.ownerProject d.footprint
  have hinput : ∀ s ∈ d.footprint.services,
      clusterInput (loadDeployedPlacement st d.ownerProject) s ∈ clusterInputs st d.ownerProject d.footprint.services :=
    fun s hs => List.mem_map.mpr ⟨s, hs, rfl⟩
  constructor
  · intro hanchored s hs hvolumes id hdata
    obtain ⟨hpool, hfirst⟩ := hanchored s hs hvolumes id hdata
    obtain ⟨pool, hids, hplace⟩ := planServices_place hnames plan.nodup plan.plan (hinput s hs)
    have hempty : s.volumes.isEmpty = false := by simpa using hvolumes
    apply sticky_placed (by simp [clusterInput, hempty]) _ _ hplace
    · simp only [clusterInput, hempty, Bool.false_eq_true, if_false]
      rw [publishedNodeOf_eq, hfirst]
    · rw [hids]
      exact (plan.inPool hdata.1).mpr hpool
  · intro hfollows s hs hvolumes id hdata
    have hplaced := hfollows s hs hvolumes id hdata
    constructor
    · -- the node that got the service is of the pool
      obtain ⟨pool, hids, hon⟩ := planServices_placed hnames hpos plan.nodup plan.plan (hinput s hs)
      obtain ⟨t, ht, htid, _⟩ := hon.fits ⟨id, s.replicas⟩ (by
        change _ ∈ placementsOf plans s.name
        rw [hplaced]
        exact List.mem_singleton_self _)
      rw [← plan.inPool hdata.1, ← hids]
      exact List.mem_map.mpr ⟨t, ht, htid⟩
    · intro m hm
      by_cases hregistered : entryOf st m = none
      · exact .inr hregistered
      · left
        have hother := hfollows s hs hvolumes m ⟨hregistered, List.find?_some hm⟩
        rw [hplaced] at hother
        injection hother with hother _
        injection hother with hid _
        exact hid.symm

end Follow

/-! ## A late heartbeat -/

def dbEntry : ServiceConfig := { webEntry with service := "db", volumes := [⟨"data", "/data"⟩] }

def dbDecl : ServiceDecl := { plainDecl with name := "db", volumes := [⟨"data", "/data"⟩] }

/-- An external node with `db` on it, last seen at time 0, beside an empty managed one. -/
def externalData : ClusterState where
  nodeIds := ["n1", "n2"]
  registry id :=
    if id = "n1" then some (.json { smallNode with provisioning := .external })
    else if id = "n2" then some (.json { smallNode with nodeId := "n2" }) else none
  desired id := if id = "n1" then some (.json ⟨protocolVersion, "n1", "", [dbEntry]⟩) else none
  status id := if id = "n1" then some (.json 0) else none
  sorted := twoNodes.sorted
  named := twoNodes.named
  listed := by
    intro id h
    by_cases h1 : id = "n1"
    · simp [h1]
    · by_cases h2 : id = "n2"
      · simp [h2]
      · simp [h1, h2] at h

def dbDeploy : Deployment where
  aws := ⟨"default", "1", "r"⟩
  ownerProject := "shop"
  opts := {}
  defaultEdge := some "e1"
  footprint := ⟨[dbDecl], by decide⟩
  built := [⟨dbDecl, "db:1", none⟩]
  built_decl := rfl
  owner_ne := shop_ne
  edge_ne := e1_ne
  valid := by
    intro b hb
    obtain rfl := List.mem_singleton.mp hb
    exact ⟨by decide, by decide, by decide +kernel⟩

theorem externalData_holds {id : String} (h : HoldsData dbDeploy externalData dbDecl id) : id = "n1" := by
  have hlisted : id ∈ ["n1", "n2"] := publishes_listed h.2
  rcases List.mem_cons.mp hlisted with rfl | hlisted
  · rfl
  · obtain rfl := List.mem_singleton.mp hlisted
    exact absurd h.2 (by decide +kernel)

/-- While the node is seen, the plan keeps `db` on it. -/
theorem data_follows_volume_seen :
    ∃ c edge plans, planPlacement dbDeploy externalData longerName 60000 = .ok (c, edge, plans) ∧
      placementsOf plans "db" = [⟨"n1", 1⟩] := by
  cases hplan : planPlacement dbDeploy externalData longerName 60000 with
  | error e =>
    have hok : (planPlacement dbDeploy externalData longerName 60000).isOk = true := by decide +kernel
    rw [hplan] at hok
    cases hok
  | ok r =>
    obtain ⟨c, edge, plans⟩ := r
    refine ⟨c, edge, plans, rfl, (data_follows_volume hplan).1 ?_ dbDecl (List.mem_singleton_self _) (by decide) "n1" ?_⟩
    · intro s hs _ id hdata
      obtain rfl := List.mem_singleton.mp hs
      obtain rfl := externalData_holds hdata
      exact ⟨⟨{ smallNode with provisioning := .external }, by decide +kernel, by decide +kernel⟩, by decide +kernel⟩
    · exact ⟨by decide +kernel, by decide +kernel⟩

/-- A minute after it was last seen, `db` starts afresh on the other node. -/
theorem data_left_behind :
    ∃ c edge plans, planPlacement dbDeploy externalData longerName 60001 = .ok (c, edge, plans) ∧
      dbDecl ∈ dbDeploy.footprint.services ∧ dbDecl.volumes ≠ [] ∧ HoldsData dbDeploy externalData dbDecl "n1" ∧
      placementsOf plans "db" = [⟨"n2", 1⟩] := by
  cases hplan : planPlacement dbDeploy externalData longerName 60001 with
  | error e =>
    have hok : (planPlacement dbDeploy externalData longerName 60001).isOk = true := by decide +kernel
    rw [hplan] at hok
    cases hok
  | ok r =>
    obtain ⟨c, edge, plans⟩ := r
    refine ⟨c, edge, plans, rfl, List.mem_singleton_self _, by decide, ⟨by decide +kernel, by decide +kernel⟩, ?_⟩
    have hplaced : (planPlacement dbDeploy externalData longerName 60001).toOption.map
        (fun r => placementsOf r.2.2 "db") = some [⟨"n2", 1⟩] := by decide +kernel
    rw [hplan] at hplaced
    exact Option.some.inj hplaced

end LaunchPad.Cli
