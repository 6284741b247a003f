/-
  LaunchPad.Shared.Types — the documents both sides exchange: a service's configuration,
  a node's `desired.json`, and the upstream shard a node publishes for an edge.

  The records are those of `agent-rust/src/types.rs` and of the schemas in `shared/src`
  (the agent's `i64` and the CLI's numbers are both `Int`). A `BTreeMap` or a JSON record
  is a list of pairs in key order.
-/
import LaunchPad.Lib.SortedMap

namespace LaunchPad

open Lib

/-! ## Constants (`constants.ts`) -/

/-- `PROTOCOL_VERSION` of `desired.json` and `status.json`. -/
def protocolVersion : Int := 3

def defaultCluster : String := "default"

/-- `HOST_PORT_MIN` and `HOST_PORT_COUNT`: the window of published container ports. -/
def hostPortMin : Int := 20000
def hostPortCount : Nat := 10000

/-- `DEFAULT_POLL_INTERVAL_MS`. -/
def defaultPollIntervalMs : Int := 60000

/-! ## The agent's 64-bit arithmetic -/

/-- An `i64` result in a release build: overflow wraps. -/
def i64 (x : Int) : Int := x.bmod 0x10000000000000000

/-- The largest `i64`. -/
def i64Max : Int := 0x7fffffffffffffff

theorem i64_exact {x : Int} (hlow : -i64Max - 1 ≤ x) (hhigh : x ≤ i64Max) : i64 x = x := by
  unfold i64Max at hlow hhigh
  unfold i64
  rw [Int.bmod_eq_of_le] <;> omega

theorem i64_of_le {n : Int} (hmin : 0 ≤ n) (hmax : n ≤ i64Max) : i64 n = n := by
  have hlow : -i64Max - 1 ≤ 0 := by decide
  exact i64_exact (by omega) hmax

theorem i64_ge (x : Int) : -i64Max - 1 ≤ i64 x := by
  have := @Int.le_bmod x 0x10000000000000000 (by decide)
  unfold i64 i64Max
  omega

theorem i64_le (x : Int) : i64 x ≤ i64Max := by
  have := @Int.bmod_lt x 0x10000000000000000 (by decide)
  unfold i64 i64Max
  omega

theorem i64_wraps {x : Int} (h : i64Max < x) (hx : x ≤ 2 * i64Max + 1) : i64 x = x - 18446744073709551616 := by
  unfold i64Max at h hx
  unfold i64
  rw [Int.bmod_def]
  omega

/-! ## A service's configuration -/

/-- Web ingress: the domain, the container port, and the edge node that fronts it. -/
structure Ingress where
  domain : String
  port : Int
  edge : String
  deriving DecidableEq, Repr

structure HealthCheck where
  path : String
  port : Option Int := none
  intervalMs : Int := 2000
  timeoutMs : Int := 2000
  healthyThreshold : Int := 2
  deriving DecidableEq, Repr

/-- Rolling-update policy. -/
structure Rollout where
  maxSurge : Int := 1
  drainTimeout : String := "20s"
  stopGrace : String := "30s"
  deriving DecidableEq, Repr

/-- A secret the agent resolves at container start: only the parameter's path travels. -/
structure SecretRef where
  name : String
  ssm : String
  deriving DecidableEq, Repr

/-- A persistent named volume and where the container mounts it. -/
structure VolumeDecl where
  name : String
  path : String
  deriving DecidableEq, Repr

structure ServiceDatabase where
  engine : String
  version : String
  databases : List String := []
  deriving DecidableEq, Repr

structure ServiceBackupConfig where
  schedule : String
  retentionDays : Int
  bucket : String
  keyPrefix : String
  deriving DecidableEq, Repr

structure JobRunRequest where
  id : String
  requestedAt : String
  deriving DecidableEq, Repr

/-- One service inside a node's `desired.json`. -/
structure ServiceConfig where
  project : String
  service : String
  image : String
  cpu : Int
  memory : Int
  replicas : Int := 1
  env : List (String × String) := []
  secretRefs : List SecretRef := []
  restartAt : Option String := none
  cron : Option String := none
  ingress : Option Ingress
  healthCheck : Option HealthCheck := none
  rollout : Rollout := {}
  volumes : List VolumeDecl := []
  database : Option ServiceDatabase := none
  backup : Option ServiceBackupConfig := none
  jobRun : Option JobRunRequest := none
  deriving DecidableEq, Repr

/-- `${project}/${service}`. -/
def serviceKey (project service : String) : String := project ++ "/" ++ service

def ServiceConfig.key (c : ServiceConfig) : String := serviceKey c.project c.service

structure DesiredState where
  version : Int
  nodeId : String
  updatedAt : String
  services : List ServiceConfig
  deriving DecidableEq, Repr

def emptyDesiredState (nodeId now : String) : DesiredState := ⟨protocolVersion, nodeId, now, []⟩

/-! ## Upstream shards -/

structure UpstreamBackend where
  domain : String
  hostPort : Int
  healthPath : Option String
  deriving DecidableEq, Repr

/-- What one app node tells one edge: its address and the replicas to route to. -/
structure UpstreamShard where
  nodeId : String
  privateIp : String
  updatedAt : String
  backends : List UpstreamBackend
  deriving DecidableEq, Repr

end LaunchPad
