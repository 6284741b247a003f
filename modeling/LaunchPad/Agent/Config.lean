/-
  LaunchPad.Agent.Config — the agent's config file: written by the CLI, for a node's first boot
  or for a server of the operator's own, and read when the agent starts
  (`packages/agent-rust/src/config.rs`).

  Left out: the texts of the errors, and a config written as an array or a role written as an
  object (serde takes both).

  Proved:
  - `parse_agentJson`: the agent's config is the one that was written.
-/
import LaunchPad.Agent.Wire
import LaunchPad.Lib.Json
import LaunchPad.Shared.Registry

namespace LaunchPad.Agent.Config

open LaunchPad.Lib (JsonValue)

structure AgentConfig where
  nodeId : String
  agentId : String
  bucket : String
  region : String
  clusterId : String
  role : NodeRole
  advertiseIp : Option String := none
  deriving DecidableEq, Repr

def roleText : NodeRole → String
  | .app => "app"
  | .edge => "edge"
  | .both => "both"

/-! ## Written -/

/-- The object, which has an `advertiseIp` only where it is given. -/
def AgentConfig.json (c : AgentConfig) : JsonValue :=
  .obj ([("nodeId", .str c.nodeId), ("agentId", .str c.agentId), ("bucket", .str c.bucket), ("region", .str c.region),
    ("clusterId", .str c.clusterId), ("role", .str (roleText c.role))]
    ++ c.advertiseIp.toList.map fun ip => ("advertiseIp", .str ip))

/-- `JSON.stringify(config, null, 2)`. -/
def agentJson (c : AgentConfig) : String := String.ofList (JsonValue.stringify [' ', ' '] [] c.json)

/-! ## Read -/

mutual

/-- The document that a text is. -/
def document : JsonValue → Json
  | .null => .null
  | .bool b => .bool b
  | .num n => .num (.int n)
  | .str s => .str s
  | .arr items => .arr (documents items)
  | .obj fields => .obj (fieldDocuments fields)

def documents : List JsonValue → List Json
  | [] => []
  | v :: vs => document v :: documents vs

def fieldDocuments : List (String × JsonValue) → List (String × Json)
  | [] => []
  | (k, v) :: fs => (k, document v) :: fieldDocuments fs

end

/-- `NodeRole`, in lower case. -/
def roleOf : Json → Option NodeRole
  | .str "app" => some .app
  | .str "edge" => some .edge
  | .str "both" => some .both
  | _ => none

def defaultCluster : String := "default"

def agentConfigOf : Json → Option AgentConfig := recordOf fun o => do
  let nodeId ← required "nodeId" stringOf o
  let agentId ← required "agentId" stringOf o
  let bucket ← required "bucket" stringOf o
  let region ← required "region" stringOf o
  let clusterId ← defaulted "clusterId" stringOf defaultCluster o
  let role ← required "role" roleOf o
  let advertiseIp ← optional "advertiseIp" stringOf o
  return { nodeId, agentId, bucket, region, clusterId, role, advertiseIp }

def parseAgentConfig (json : List Char) : Option AgentConfig := (JsonValue.parse json).bind fun v => agentConfigOf (document v)

/-! ## The same config -/

theorem roleOf_roleText (role : NodeRole) : roleOf (.str (roleText role)) = some role := by
  cases role with
  | app => rfl
  | edge => rfl
  | both => rfl

theorem agentConfigOf_json (c : AgentConfig) : agentConfigOf (document c.json) = some c := by
  obtain ⟨nodeId, agentId, bucket, region, clusterId, role, advertiseIp⟩ := c
  cases advertiseIp with
  | none =>
    simp [AgentConfig.json, document, fieldDocuments, agentConfigOf, recordOf, required, defaulted, optional, fieldOf, stringOf,
      roleOf_roleText]
  | some ip =>
    simp [AgentConfig.json, document, fieldDocuments, agentConfigOf, recordOf, required, defaulted, optional, optionOf, fieldOf, stringOf,
      roleOf_roleText]

/-- The agent's config is the one that was written, whatever its texts. -/
theorem parse_agentJson (c : AgentConfig) {ws : List Char} (hws : JsonValue.Blank ws) :
    parseAgentConfig ((agentJson c).toList ++ ws) = some c := by
  have htext : (agentJson c).toList = JsonValue.stringify [' ', ' '] [] c.json := String.toList_ofList
  have hgap : JsonValue.Blank [' ', ' '] := by simp [JsonValue.Blank, JsonValue.isBlank]
  unfold parseAgentConfig
  rw [htext, JsonValue.parse_stringify hgap hws c.json, Option.bind_some]
  exact agentConfigOf_json c

end LaunchPad.Agent.Config
