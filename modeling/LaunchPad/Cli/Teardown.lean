/-
  LaunchPad.Cli.Teardown — tearing a node down (`commands/node/index.ts` `teardownNode`):
  the instance, its address and its firewall, its credentials, the cluster's default-edge
  pointer, and last every object under the node's own directory.

  A step that fails is a warning and the next step runs (`tryDestroyStep`); its outcome is
  an argument, and a step on the bucket that fails leaves what it had not yet written or
  deleted. The calls that touch EC2 and IAM do nothing to the bucket.

  Proved:
  - `teardownNode_under`: another node's directory is as it was.
  - `teardown_retracts_routes`: so the node's routes are gone after a teardown exactly
    when they were gone before it: what the node told an edge lives under the edge.
-/
import LaunchPad.Agent.Routes

namespace LaunchPad.Cli

open Lib Agent

/-! ## Steps -/

structure AwsError where
  message : String
  /-- `isDestroyAlreadyGoneError`. -/
  alreadyGone : Bool := false
  deriving DecidableEq, Repr

/-- The bucket, and what the operator was warned of. -/
structure Teardown where
  bucket : Bucket
  warnings : List String := []
  deriving DecidableEq, Repr

def tryDestroyStep (label : String) (step : Bucket → Except AwsError Unit × Bucket) (t : Teardown) : Teardown :=
  match step t.bucket with
  | (.ok (), b) => { t with bucket := b }
  | (.error e, b) =>
    { bucket := b, warnings := if e.alreadyGone then t.warnings else t.warnings ++ [label ++ ": " ++ e.message] }

/-- A call that does not touch the bucket. -/
def remote (fail : Option AwsError) (b : Bucket) : Except AwsError Unit × Bucket :=
  match fail with
  | some e => (.error e, b)
  | none => (.ok (), b)

def putJson (fail : Option AwsError) (key : String) (value : Object) (b : Bucket) : Except AwsError Unit × Bucket :=
  match fail with
  | some e => (.error e, b)
  | none => (.ok (), SortedMap.insert key value b)

/-- `getClusterConfig`: a document its schema refuses is an error. -/
def getClusterConfig (fail : Option AwsError) (clusterId : String) (b : Bucket) :
    Except AwsError (Option ClusterConfig) :=
  match fail, SortedMap.get (clusterConfigKey clusterId) b with
  | some e, _ => .error e
  | none, none => .ok none
  | none, some obj =>
    match parseClusterConfig obj with
    | some cc => .ok (some cc)
    | none => .error { message := "invalid cluster.json" }

/-- Delete every key under a directory; a failure leaves those of the pages not reached. -/
def deletePrefix (fail : Option (AwsError × (String → Bool))) (p : String) (b : Bucket) :
    Except AwsError Unit × Bucket :=
  match fail with
  | some (e, reached) => (.error e, SortedMap.filterKeys (fun k => !(hasPrefix p k && reached k)) b)
  | none => (.ok (), SortedMap.filterKeys (fun k => !hasPrefix p k) b)

/-- How each step ends: its error, or none. -/
structure TeardownOutcome where
  terminateInstance : Option AwsError := none
  releaseEip : Option AwsError := none
  deleteSecurityGroup : Option AwsError := none
  cordon : Option AwsError := none
  deleteIam : Option AwsError := none
  getCluster : Option AwsError := none
  putCluster : Option AwsError := none
  deletePrefix : Option (AwsError × (String → Bool)) := none

/-- Every step on the bucket succeeds. -/
structure TeardownOutcome.Stored (out : TeardownOutcome) : Prop where
  cordon : out.cordon = none
  getCluster : out.getCluster = none
  putCluster : out.putCluster = none
  deletePrefix : out.deletePrefix = none

/-! ## `teardownNode` -/

/-- `iamSlug` (`iam.ts`): what IAM refuses in a name becomes a hyphen. -/
def iamSlug (clusterId nodeId : String) : String :=
  (clusterId ++ "-" ++ nodeId).map fun c => if c.isAlphanum || "+=,.@_-".toList.contains c then c else '-'

/-- `nodeRoleName`: at most 64 characters. -/
def nodeRoleName (clusterId nodeId : String) : String :=
  String.ofList (("launch-pad-node-" ++ iamSlug clusterId nodeId).toList.take 64)

def clearDefaultEdge (out : TeardownOutcome) (node : NodeRegistryEntry) (b : Bucket) :
    Except AwsError Unit × Bucket :=
  match getClusterConfig out.getCluster node.clusterId b with
  | .error e => (.error e, b)
  | .ok none => (.ok (), b)
  | .ok (some cc) =>
    if cc.defaultEdge = some node.nodeId then
      putJson out.putCluster (clusterConfigKey cc.clusterId) (.cluster { cc with defaultEdge := none }) b
    else (.ok (), b)

/-- The node's instance, address, firewall and credentials. -/
def releaseNode (out : TeardownOutcome) (node : NodeRegistryEntry) (t : Teardown) : Teardown :=
  let t := match node.instanceId with
    | some id => tryDestroyStep ("terminate " ++ id) (remote out.terminateInstance) t
    | none => t
  let t := match node.eipAllocationId with
    | some id => tryDestroyStep ("release Elastic IP " ++ id) (remote out.releaseEip) t
    | none => t
  let t := match node.securityGroupId with
    | some id => tryDestroyStep ("delete security group " ++ id) (remote out.deleteSecurityGroup) t
    | none => t
  match node.provisioning with
  | .external =>
    let t := tryDestroyStep ("cordon external node " ++ node.nodeId)
      (putJson out.cordon (nodeRegistryKey node.clusterId node.nodeId) (.node { node with state := .terminating })) t
    tryDestroyStep ("delete IAM user for " ++ node.nodeId) (remote out.deleteIam) t
  | .ec2 =>
    tryDestroyStep ("delete IAM role " ++ nodeRoleName node.clusterId node.nodeId) (remote out.deleteIam) t

/-- `bucketName` is the bucket's name, for the warning. -/
def teardownNode (bucketName : String) (out : TeardownOutcome) (node : NodeRegistryEntry) (b : Bucket) : Teardown :=
  let t := releaseNode out node { bucket := b }
  let t :=
    if node.clusterId = defaultCluster then t
    else tryDestroyStep "clear default edge" (clearDefaultEdge out node) t
  let p := nodePrefix node.clusterId node.nodeId
  tryDestroyStep ("delete s3://" ++ bucketName ++ "/" ++ p) (deletePrefix out.deletePrefix p) t

/-! ## What a teardown leaves alone -/

/-- The step changes nothing under the directory. -/
def KeepsUnder (p : String) (step : Bucket → Except AwsError Unit × Bucket) : Prop :=
  ∀ b, under p (step b).2 = under p b

theorem KeepsUnder.remote (p : String) (fail : Option AwsError) : KeepsUnder p (remote fail) := by
  intro b
  cases fail <;> rfl

theorem KeepsUnder.putJson {p key : String} (h : hasPrefix p key = false) (fail : Option AwsError)
    (value : Object) : KeepsUnder p (putJson fail key value) := by
  intro b
  cases fail with
  | some e => rfl
  | none => exact SortedMap.filterKeys_insert h value b

theorem KeepsUnder.deletePrefix {p q : String} (h : ∀ k, hasPrefix p k = true → hasPrefix q k = false)
    (fail : Option (AwsError × (String → Bool))) : KeepsUnder p (deletePrefix fail q) := by
  intro b
  cases fail with
  | none =>
    show under p (SortedMap.filterKeys (fun k => !hasPrefix q k) b) = under p b
    exact SortedMap.filterKeys_filterKeys (fun k hk => by simp [h k hk]) b
  | some f =>
    show under p (SortedMap.filterKeys (fun k => !(hasPrefix q k && f.2 k)) b) = under p b
    exact SortedMap.filterKeys_filterKeys (fun k hk => by simp [h k hk]) b

theorem getClusterConfig_label {fail : Option AwsError} {clusterId : String} {b : Bucket} {cc : ClusterConfig}
    (h : getClusterConfig fail clusterId b = .ok (some cc)) : labelMatches cc.clusterId = true := by
  unfold getClusterConfig at h
  split at h
  · cases h
  · cases h
  · split at h
    · rename_i hp; cases h; exact parseClusterConfig_label hp
    · cases h

theorem KeepsUnder.clearDefaultEdge (clusterId id : String) (out : TeardownOutcome) (node : NodeRegistryEntry) :
    KeepsUnder (nodePrefix clusterId id) (clearDefaultEdge out node) := by
  intro b
  unfold Cli.clearDefaultEdge
  split
  · rfl
  · rfl
  · rename_i cc hc
    split
    · exact KeepsUnder.putJson
        (clusterConfigKey_outside (slash_not_mem_label (getClusterConfig_label hc)) ..) _ _ b
    · rfl

theorem tryDestroyStep_under {p label : String} {step : Bucket → Except AwsError Unit × Bucket}
    (h : KeepsUnder p step) (t : Teardown) :
    under p (tryDestroyStep label step t).bucket = under p t.bucket := by
  have hb := h t.bucket
  unfold tryDestroyStep
  split
  · rename_i b hs; rw [hs] at hb; exact hb
  · rename_i e b hs; rw [hs] at hb; exact hb

variable {node : NodeRegistryEntry} {id : String}

theorem releaseNode_under (hn : nodeIdError node.nodeId = none) (hid : nodeIdError id = none)
    (hne : node.nodeId ≠ id) (out : TeardownOutcome) (t : Teardown) :
    under (nodePrefix node.clusterId id) (releaseNode out node t).bucket =
      under (nodePrefix node.clusterId id) t.bucket := by
  have own : hasPrefix (nodePrefix node.clusterId id) (nodeRegistryKey node.clusterId node.nodeId) = false :=
    nodePrefix_disjoint hn hid hne (hasPrefix_nodeRegistryKey ..)
  have call : ∀ label fail t, under (nodePrefix node.clusterId id) (tryDestroyStep label (remote fail) t).bucket =
      under (nodePrefix node.clusterId id) t.bucket :=
    fun _ fail t => tryDestroyStep_under (.remote _ fail) t
  have cordon : ∀ label value t, under (nodePrefix node.clusterId id) (tryDestroyStep label
      (putJson out.cordon (nodeRegistryKey node.clusterId node.nodeId) value) t).bucket =
        under (nodePrefix node.clusterId id) t.bucket :=
    fun _ value t => tryDestroyStep_under (.putJson own out.cordon value) t
  unfold releaseNode
  cases node.instanceId <;> cases node.eipAllocationId <;> cases node.securityGroupId <;> cases node.provisioning <;>
    simp only [call, cordon]

/-- Another node's directory is as it was. -/
theorem teardownNode_under (hn : nodeIdError node.nodeId = none) (hid : nodeIdError id = none)
    (hne : node.nodeId ≠ id) (bucketName : String) (out : TeardownOutcome) (b : Bucket) :
    under (nodePrefix node.clusterId id) (teardownNode bucketName out node b).bucket = under (nodePrefix node.clusterId id) b := by
  unfold teardownNode
  rw [tryDestroyStep_under (.deletePrefix (fun k hk => nodePrefix_disjoint hid hn hne.symm hk) _)]
  split
  · exact releaseNode_under hn hid hne out _
  · rw [tryDestroyStep_under (.clearDefaultEdge _ _ out node)]
    exact releaseNode_under hn hid hne out _

/-- The node's own directory is empty. -/
theorem teardownNode_own {bucketName : String} {out : TeardownOutcome} (hout : out.deletePrefix = none) (b : Bucket)
    {key : String}
    (h : hasPrefix (nodePrefix node.clusterId node.nodeId) key = true) :
    SortedMap.get key (teardownNode bucketName out node b).bucket = none := by
  unfold teardownNode
  simp only [hout, tryDestroyStep, deletePrefix]
  rw [SortedMap.get_filterKeys]
  simp [h]

/-! ## Routes -/

/-- No edge of the cluster has a shard of the node, or routes to its address. -/
def RoutesRetracted (node : NodeRegistryEntry) (b : Bucket) : Prop :=
  ∀ edge, IsEdge b node.clusterId edge →
    SortedMap.get (edgeUpstreamKey node.clusterId edge node.nodeId) b = none ∧
      ∀ addr, node.address = some addr → ∀ routes, edgeRoutes b node.clusterId edge = some routes →
        ∀ r ∈ routes, ∀ port, dial addr port ∉ r.upstreams

/-- No other node that routes ingress has a shard of the node, or a shard with a backend
    at its address. -/
def NeverTold (node : NodeRegistryEntry) (b : Bucket) : Prop :=
  ∀ edge, IsEdge b node.clusterId edge → edge ≠ node.nodeId →
    SortedMap.get (edgeUpstreamKey node.clusterId edge node.nodeId) b = none ∧
      ∀ addr, node.address = some addr → ∀ shards, listUpstreamShards b node.clusterId edge = some shards →
        ∀ s ∈ shards, s.privateIp = addr → s.backends = []

/-- An edge routes to an address when one of its shards lists a backend there. -/
theorem edgeRoutes_address {b : Bucket} {clusterId edge addr : String} :
    (∀ routes, edgeRoutes b clusterId edge = some routes → ∀ r ∈ routes, ∀ port, dial addr port ∉ r.upstreams) ↔
      ∀ shards, listUpstreamShards b clusterId edge = some shards → ∀ s ∈ shards, s.privateIp = addr →
        s.backends = [] := by
  constructor
  · intro h shards hl s hs haddr
    rw [List.eq_nil_iff_forall_not_mem]
    intro x hx
    obtain ⟨r, hr, hu⟩ := mem_edgeRoutes.mpr ⟨s, hs, x, hx, rfl⟩
    rw [haddr] at hu
    exact h _ (by rw [edgeRoutes, hl]; rfl) r hr _ hu
  · intro h routes hroutes r hr port hu
    obtain ⟨shards, hl, rfl⟩ := Option.map_eq_some_iff.mp hroutes
    obtain ⟨s, hs, x, hx, hd⟩ := mem_edgeRoutes.mp ⟨r, hr, hu⟩
    have hs := h shards hl s hs (dial_address hd).symm
    rw [hs] at hx
    cases hx

/-- What is read in a directory is read in its part of the bucket. -/
theorem get_of_under {p key : String} {b b' : Bucket} (hu : under p b = under p b') (h : hasPrefix p key = true) :
    SortedMap.get key b = SortedMap.get key b' := by
  rw [← get_under b h, hu, get_under b' h]

theorem under_trans {p q : String} (h : hasPrefix p q = true) {b b' : Bucket} (hu : under p b = under p b') :
    under q b = under q b' := by
  have sub : ∀ b : Bucket, under q (under p b) = under q b :=
    fun b => SortedMap.filterKeys_filterKeys (fun k hk => hasPrefix_trans h hk) b
  rw [← sub b, hu, sub b']

theorem isEdge_congr {clusterId edge : String} {b b' : Bucket}
    (hu : under (nodePrefix clusterId edge) b = under (nodePrefix clusterId edge) b') :
    IsEdge b clusterId edge ↔ IsEdge b' clusterId edge := by
  unfold IsEdge
  rw [get_of_under hu (hasPrefix_nodeRegistryKey ..)]

/-- A teardown takes no route away from an edge, and adds none: what the node told an edge
    lives in the edge's directory. -/
theorem teardown_retracts_routes (hn : nodeIdError node.nodeId = none) {out : TeardownOutcome} (hout : out.Stored)
    (bucketName : String) (b : Bucket) :
    RoutesRetracted node (teardownNode bucketName out node b).bucket ↔ NeverTold node b := by
  have gone : ¬ IsEdge (teardownNode bucketName out node b).bucket node.clusterId node.nodeId := by
    intro ⟨_, entry, hget, _⟩
    rw [teardownNode_own hout.deletePrefix b (hasPrefix_nodeRegistryKey ..)] at hget
    cases hget
  have same : ∀ edge, nodeIdError edge = none → edge ≠ node.nodeId →
      under (nodePrefix node.clusterId edge) (teardownNode bucketName out node b).bucket =
        under (nodePrefix node.clusterId edge) b :=
    fun edge hid hne => teardownNode_under hn hid hne.symm bucketName out b
  have upstream := hasPrefix_edgeUpstreamPrefix node.clusterId
  have key := fun edge => hasPrefix_trans (upstream edge) (hasPrefix_edgeUpstreamKey node.clusterId edge node.nodeId)
  constructor
  · intro h edge hedge hne
    have hu := same edge hedge.1 hne
    obtain ⟨hget, hroutes⟩ := h edge ((isEdge_congr hu).mpr hedge)
    rw [get_of_under hu (key edge)] at hget
    refine ⟨hget, fun addr haddr => ?_⟩
    rw [← listUpstreamShards_congr (under_trans (upstream edge) hu)]
    exact edgeRoutes_address.mp (hroutes addr haddr)
  · intro h edge hedge
    have hne : edge ≠ node.nodeId := by
      rintro rfl
      exact gone hedge
    have hu := same edge hedge.1 hne
    obtain ⟨hget, hshards⟩ := h edge ((isEdge_congr hu).mp hedge) hne
    refine ⟨(get_of_under hu (key edge)).trans hget, fun addr haddr => ?_⟩
    rw [edgeRoutes_address, listUpstreamShards_congr (under_trans (upstream edge) hu)]
    exact hshards addr haddr

/-- A node whose agent has told the edge of one replica. -/
def toldNode : NodeRegistryEntry :=
  { nodeId := "app-1", role := .app, instanceId := some "i-1", privateIp := some "10.0.0.5", totalCpu := 2048
    totalMemory := 1024, reservedCpu := 256, reservedMemory := 512, state := .ready }

def toldEdge : NodeRegistryEntry := { toldNode with nodeId := "edge-1", role := .edge, privateIp := some "10.0.0.9" }

def toldShard : UpstreamShard := ⟨"app-1", "10.0.0.5", "t0", [⟨"a.example.com", 20001, none⟩]⟩

def toldBucket : Bucket :=
  [(nodeRegistryKey defaultCluster "app-1", .node toldNode),
    (nodeRegistryKey defaultCluster "edge-1", .node toldEdge),
    (edgeUpstreamKey defaultCluster "edge-1" "app-1", .shard toldShard)]

theorem teardown_retracts_routes_told :
    RoutesRetracted toldNode (teardownNode "state" {} toldNode toldBucket).bucket ↔ NeverTold toldNode toldBucket :=
  teardown_retracts_routes (by decide +kernel) ⟨rfl, rfl, rfl, rfl⟩ "state" toldBucket

/-- Every step succeeds, and the edge still has the shard and still dials the address. -/
theorem torn_down_node_stays_routed :
    nodeIdError toldNode.nodeId = none ∧ TeardownOutcome.Stored {} ∧
      edgeRoutes (teardownNode "state" {} toldNode toldBucket).bucket defaultCluster "edge-1" =
        some [⟨"a.example.com", [dial "10.0.0.5" 20001], none⟩] ∧
      ¬ RoutesRetracted toldNode (teardownNode "state" {} toldNode toldBucket).bucket := by
  refine ⟨by decide +kernel, ⟨rfl, rfl, rfl, rfl⟩, by decide +kernel, fun h => ?_⟩
  have hedge : IsEdge (teardownNode "state" {} toldNode toldBucket).bucket defaultCluster "edge-1" :=
    ⟨by decide +kernel, toldEdge, by decide +kernel, rfl⟩
  have hkept : SortedMap.get (edgeUpstreamKey defaultCluster "edge-1" "app-1")
      (teardownNode "state" {} toldNode toldBucket).bucket = some (.shard toldShard) := by decide +kernel
  exact absurd ((h "edge-1" hedge).1.symm.trans hkept) (by decide)

end LaunchPad.Cli
