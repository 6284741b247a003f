/-
  LaunchPad.Shared.Registry — a node's registry entry and a cluster's configuration
  (`shared/src/registry.ts`, `node-role.ts`, `cluster.ts`), and the bucket that holds them.

  An object of the bucket is kept as what its parser makes of it; `other` is a text none
  of the parsers accepts. A record's fields that no modelled function reads are left out.
-/
import LaunchPad.Shared.Keys

namespace LaunchPad

open Lib

inductive NodeState where
  | provisioning | ready | stopped | terminating | terminated
  deriving DecidableEq, Repr

inductive NodeRole where
  | app | edge | both
  deriving DecidableEq, Repr

inductive NodeArchitecture where
  | x86_64 | arm64
  deriving DecidableEq, Repr

inductive Provisioning where
  | ec2 | external
  deriving DecidableEq, Repr

/-- The node runs app containers. -/
def nodeHostsContainers : NodeRole → Bool
  | .app | .both => true
  | .edge => false

/-- The node terminates TLS and routes ingress. -/
def nodeFrontsIngress : NodeRole → Bool
  | .edge | .both => true
  | .app => false

structure NodeRegistryEntry where
  nodeId : String
  clusterId : String := defaultCluster
  instanceId : Option String := none
  architecture : NodeArchitecture := .x86_64
  role : NodeRole
  privateIp : Option String := none
  totalCpu : Int
  totalMemory : Int
  reservedCpu : Int
  reservedMemory : Int
  eipAllocationId : Option String := none
  securityGroupId : Option String := none
  provisioning : Provisioning := .ec2
  advertiseIp : Option String := none
  state : NodeState
  deriving DecidableEq, Repr

/-- The address an edge dials to reach the node's containers. -/
def NodeRegistryEntry.address (n : NodeRegistryEntry) : Option String :=
  match n.provisioning with
  | .external => n.advertiseIp
  | .ec2 => n.privateIp

def allocatableCpu (n : NodeRegistryEntry) : Int := n.totalCpu - n.reservedCpu
def allocatableMemory (n : NodeRegistryEntry) : Int := n.totalMemory - n.reservedMemory

structure ClusterConfig where
  clusterId : String
  defaultEdge : Option String := none
  deriving DecidableEq, Repr

/-! ## The state bucket -/

inductive Object where
  | node (entry : NodeRegistryEntry)
  | cluster (config : ClusterConfig)
  | shard (shard : UpstreamShard)
  | other (body : String)
  deriving DecidableEq, Repr

abbrev Bucket := SortedMap String Object

/-- `parseUpstreamShard`. -/
def parseUpstreamShard : Object → Option UpstreamShard
  | .shard s => some s
  | _ => none

/-- `parseClusterConfig`: `ClusterIdSchema` asks for a label. -/
def parseClusterConfig : Object → Option ClusterConfig
  | .cluster cc => if labelMatches cc.clusterId then some cc else none
  | _ => none

theorem parseClusterConfig_label {obj : Object} {cc : ClusterConfig} (h : parseClusterConfig obj = some cc) :
    labelMatches cc.clusterId = true := by
  cases obj with
  | cluster cc' =>
    simp only [parseClusterConfig] at h
    split at h
    · rename_i hl; cases h; exact hl
    · cases h
  | _ => cases h

/-- A registered node that routes ingress for the cluster. -/
def IsEdge (b : Bucket) (clusterId id : String) : Prop :=
  nodeIdError id = none ∧
    ∃ entry, SortedMap.get (nodeRegistryKey clusterId id) b = some (.node entry) ∧ nodeFrontsIngress entry.role = true

end LaunchPad
