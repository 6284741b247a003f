/-
  LaunchPad.Cli.Scripts — the shell scripts that the CLI runs on its nodes: the first boot of a
  node (`provision/user-data.ts`), the log shipping that it and `node install-logging` set up
  (`provision/cloudwatch.ts`), the agent's unit (`provision/systemd-unit.ts`) and its upgrade
  (`provision/agent-upgrade.ts`).

  Left out: what the commands of a script do, but for the files that `cat` writes, and how a
  script gets to its node.

  Proved, for all names, URLs and configs:
  - `first_boot`: a shell reads the script whole, it writes the node's files, and the agent that
    reads its file has the node's config.
  - `export_read`: `secret get --format shell` exports the secret as it is.
-/
import LaunchPad.Agent.CloudwatchLogs
import LaunchPad.Agent.Config
import LaunchPad.Cli.NodeCalls
import LaunchPad.Lib.Shell

namespace LaunchPad.Cli.Scripts

open LaunchPad.Agent (SystemComponent CwLogFileEntry systemComponentsForRole systemLogFilePath buildSystemLogCollectList)
open LaunchPad.Agent.Config (AgentConfig agentJson parse_agentJson parseAgentConfig roleText)
open LaunchPad.Cli.NodeCalls (AmiBootstrapMode)
open LaunchPad.Lib LaunchPad.Lib.Shell

/-! ## Pieces -/

inductive ProvisionNodeRole
  | app
  | edge
  deriving DecidableEq, Repr

def ProvisionNodeRole.text : ProvisionNodeRole → String
  | .app => "app"
  | .edge => "edge"

/-- `value.replace(/'/g, …)`: a single quote leaves the quotes and is escaped. -/
def shellQuote (value : String) : String :=
  "'" ++ String.ofList (value.toList.flatMap fun c => if c = '\'' then ['\'', '\\', '\'', '\''] else [c]) ++ "'"

/-- `shellEscapeSecret`: as `shellQuote`, but a single quote stands between double quotes. -/
def shellEscapeSecret (value : String) : String :=
  "'" ++ String.ofList (value.toList.flatMap fun c => if c = '\'' then ['\'', '"', '\'', '"', '\''] else [c]) ++ "'"

/-- `secret get --format shell`. -/
def exportSecret (key value : String) : String := "export " ++ key ++ "=" ++ shellEscapeSecret value

/-- `cat > PATH <<'DELIMITER'`, as the templates write it. -/
def catDoc (path delimiter body : String) : String :=
  "cat > " ++ path ++ " <<'" ++ delimiter ++ "'\n" ++ body ++ delimiter ++ "\n"

def unitAfter : ProvisionNodeRole → String
  | .app => "docker.service network-online.target"
  | .edge => "network-online.target"

def environmentLine : Option String → String
  | none => ""
  | some file => if file = "" then "" else "EnvironmentFile=" ++ file ++ "\n"

def renderSystemdUnit (role : ProvisionNodeRole) (environmentFile : Option String) : String :=
  "[Unit]\nDescription=launchpad agent (" ++ role.text ++ ")\nAfter=" ++ unitAfter role ++ "\nWants=" ++ unitAfter role ++ "

[Service]
Type=simple
" ++ environmentLine environmentFile ++ "ExecStart=/opt/launch-pad/agent
Restart=always
RestartSec=5

[Install]
WantedBy=multi-user.target
"

/-- The source unit of a component. -/
def componentUnit : SystemComponent → String
  | .agent => "launch-pad-agent.service"
  | .caddy => "caddy.service"

/-- The unit that forwards a component's journal to a file; `kind` is what it ships to. -/
def logForwarderUnit (kind : String) (component : SystemComponent) : String :=
  let sourceUnit := componentUnit component
  let logFile := systemLogFilePath component
  "[Unit]\nDescription=launch-pad " ++ kind ++ " log forwarder (" ++ component.asStr ++ ")\nAfter=" ++ sourceUnit ++ "

[Service]
ExecStart=/bin/sh -c 'exec journalctl -n 0 -f -u " ++ sourceUnit ++ " -o cat'
StandardOutput=append:" ++ logFile ++ "
StandardError=append:" ++ logFile ++ "
Restart=always
RestartSec=5

[Install]
WantedBy=multi-user.target
"

/-- `component.toUpperCase()`. -/
def upperComponent : SystemComponent → String
  | .agent => "AGENT"
  | .caddy => "CADDY"

def forwarderName (component : SystemComponent) : String := "launch-pad-logforward-" ++ component.asStr

def caddyArchForArchitecture : NodeArchitecture → String
  | .arm64 => "arm64"
  | .x86_64 => "amd64"

def caddyInit : String := "\x7b
  \"admin\": \x7b
    \"listen\": \"127.0.0.1:2019\",
    \"origins\": [\"\", \"127.0.0.1:2019\", \"localhost:2019\", \"[::1]:2019\"]
  \x7d
\x7d
"

def caddyUnit : String := "[Unit]
Description=Caddy
After=network-online.target
Wants=network-online.target

[Service]
Environment=XDG_DATA_HOME=/var/lib/caddy
Environment=XDG_CONFIG_HOME=/var/lib/caddy
ExecStart=/usr/local/bin/caddy run --config /etc/launch-pad/caddy-init.json
Restart=always
RestartSec=5
AmbientCapabilities=CAP_NET_BIND_SERVICE
LimitNOFILE=1048576

[Install]
WantedBy=multi-user.target
"

def caddyDownload (architecture : NodeArchitecture) : String :=
  "curl -fsSL \"https://caddyserver.com/api/download?os=linux&arch=" ++ caddyArchForArchitecture architecture
    ++ "\" -o /usr/local/bin/caddy\nchmod +x /usr/local/bin/caddy"

/-! ## Log shipping -/

def cwAgentCtl : String := "/opt/aws/amazon-cloudwatch-agent/bin/amazon-cloudwatch-agent-ctl"
def cwBaseConfigPath : String := "/opt/aws/amazon-cloudwatch-agent/etc/launch-pad-base.json"
def cwContainersFragmentPath : String := "/etc/launch-pad/cw-agent-containers.json"

def CwLogFileEntry.json (e : CwLogFileEntry) : JsonValue :=
  .obj [("file_path", .str e.filePath), ("log_group_name", .str e.logGroupName), ("log_stream_name", .str e.logStreamName),
    ("timezone", .str e.timezone), ("retention_in_days", .num e.retentionInDays)]

def cwAgentConfig (collectList : List CwLogFileEntry) : JsonValue :=
  .obj [("logs", .obj [("logs_collected", .obj [("files", .obj [("collect_list", .arr (collectList.map CwLogFileEntry.json))])])])]

def systemCwConfig (clusterId nodeId : String) (role : NodeRole) : JsonValue :=
  cwAgentConfig (buildSystemLogCollectList clusterId nodeId role)

/-- `JSON.stringify(value, null, 2)`. -/
def pretty (v : JsonValue) : String := String.ofList (JsonValue.stringify [' ', ' '] [] v)

structure CloudWatchInstallParams where
  clusterId : String
  nodeId : String
  role : NodeRole
  installPackage : Option Bool := none

def forwarder (component : SystemComponent) : String :=
  catDoc ("/etc/systemd/system/" ++ forwarderName component ++ ".service") ("LPFWD_" ++ upperComponent component)
      (logForwarderUnit "CloudWatch" component)
    ++ "systemctl enable --now " ++ forwarderName component ++ ".service"

def packageBlock : Bool → String
  | true => "dnf install -y amazon-cloudwatch-agent"
  | false => "test -x " ++ cwAgentCtl

def renderCloudWatchInstall (params : CloudWatchInstallParams) : String :=
  let baseConfig := pretty (systemCwConfig params.clusterId params.nodeId params.role)
  let emptyFragment := pretty (cwAgentConfig [])
  let forwarders := "\n".intercalate ((systemComponentsForRole params.role).map forwarder)
  "# --- Amazon CloudWatch Agent (ships app stdout + agent/caddy journald) ---\n" ++ packageBlock (params.installPackage.getD true)
    ++ "\nmkdir -p /var/log/launch-pad /opt/aws/amazon-cloudwatch-agent/etc\n\n" ++ forwarders ++ "\n\n"
    ++ catDoc cwBaseConfigPath "CWBASE" (baseConfig ++ "\n")
    ++ "\n# Agent-owned placeholder; the launchpad agent writes cw-agent-combined.json each tick.\n"
    ++ catDoc cwContainersFragmentPath "CWFRAG" (emptyFragment ++ "\n")
    ++ "\n" ++ cwAgentCtl ++ " -a fetch-config -m ec2 -s -c file:" ++ cwBaseConfigPath ++ "\n"

def renderCloudWatchInstallScript (params : CloudWatchInstallParams) : String :=
  "#!/bin/bash\nset -euxo pipefail\nmkdir -p /etc/launch-pad\n" ++ renderCloudWatchInstall params

/-! ## First boot -/

structure UserDataParams where
  agent : AgentConfig
  architecture : NodeArchitecture
  agentBinaryUrl : Option String := none
  bootstrapMode : Option AmiBootstrapMode := none

def binaryBlock (architecture : NodeArchitecture) : Bool → String
  | true => caddyDownload architecture
  | false => "test -x /usr/local/bin/caddy"

def caddyBlock (installBinary : Bool) (architecture : NodeArchitecture) : String :=
  "# --- Caddy (static binary; the agent pushes routes via the admin API on :2019) ---\n" ++ binaryBlock architecture installBinary
    ++ "\nmkdir -p /var/lib/caddy\n\n" ++ catDoc "/etc/launch-pad/caddy-init.json" "CADDYINIT" caddyInit ++ "\n"
    ++ catDoc "/etc/systemd/system/caddy.service" "CADDYUNIT" caddyUnit
    ++ "systemctl daemon-reload\nsystemctl enable --now caddy\n"

def dockerBlock (role : NodeRole) (mode : AmiBootstrapMode) : String :=
  match role, mode with
  | .app, .full => "# --- Docker ---\ndnf install -y docker\nsystemctl enable --now docker\n"
  | .app, .golden => "# --- Docker (preinstalled by launchpad golden AMI) ---\nsystemctl enable --now docker\n"
  | _, _ => ""

def fetchAgent (role : NodeRole) (agentBinaryUrl : Option String) : AmiBootstrapMode → Except String String
  | .golden => return "# --- agent binary baked into the launchpad golden AMI ---\ntest -x /opt/launch-pad/agent"
  | .full =>
    match agentBinaryUrl with
    | none => throw "agentBinaryUrl is required for full bootstrap"
    | some url =>
      if url = "" then throw "agentBinaryUrl is required for full bootstrap"
      else return "# --- launchpad agent binary (role: " ++ roleText role ++ ") ---\n" ++ "curl -fsSL " ++ shellQuote url
        ++ " -o /opt/launch-pad/agent\n" ++ "chmod +x /opt/launch-pad/agent"

def renderUserData (params : UserDataParams) : Except String String := do
  let bootstrapMode := params.bootstrapMode.getD .full
  let role := params.agent.role
  let agentText := agentJson params.agent
  let unit := renderSystemdUnit (if role = .app then .app else .edge) none
  let caddy := if role = .app then "" else "\n" ++ caddyBlock (bootstrapMode = .full) params.architecture
  let cloudwatch := renderCloudWatchInstall
    { clusterId := params.agent.clusterId, nodeId := params.agent.nodeId, role, installPackage := some (bootstrapMode = .full) }
  let fetch ← fetchAgent role params.agentBinaryUrl bootstrapMode
  return "#!/bin/bash\nset -euo pipefail\n\n# --- launchpad dirs ---\nmkdir -p /etc/launch-pad /var/lib/launch-pad /opt/launch-pad\n\n"
    ++ dockerBlock role bootstrapMode ++ caddy ++ "\n# --- launchpad agent ---\n"
    ++ catDoc "/etc/launch-pad/agent.json" "AGENTCONF" (agentText ++ "\n") ++ "\n" ++ fetch ++ "\n\n"
    ++ catDoc "/etc/systemd/system/launch-pad-agent.service" "UNIT" unit
    ++ "\nsystemctl daemon-reload\nsystemctl enable --now launch-pad-agent\n\n" ++ cloudwatch

/-! ## As parts -/

def around : List Char := ['\'', '\\', '\'', '\'']

/-- A single quote within a quoted text. -/
def escapedQuote : Glyph := ⟨'\'', .hard⟩

theorem leaves_around : Leaves around escapedQuote := fun _ _ _ => rfl

theorem shellQuote_toList (value : String) : (shellQuote value).toList = quoted around value.toList := by
  have hbody : (String.ofList (value.toList.flatMap fun c => if c = '\'' then ['\'', '\\', '\'', '\''] else [c])).toList =
      value.toList.flatMap fun c => if c = '\'' then ['\'', '\\', '\'', '\''] else [c] := String.toList_ofList
  have hquote : "'".toList = ['\''] := Spelled.lit rfl
  unfold shellQuote
  rw [String.toList_append, String.toList_append, hbody, hquote]
  rfl

theorem shellEscapeSecret_toList (value : String) :
    (shellEscapeSecret value).toList = quoted ['\'', '"', '\'', '"', '\''] value.toList := by
  have hbody : (String.ofList (value.toList.flatMap fun c => if c = '\'' then ['\'', '"', '\'', '"', '\''] else [c])).toList =
      value.toList.flatMap fun c => if c = '\'' then ['\'', '"', '\'', '"', '\''] else [c] := String.toList_ofList
  have hquote : "'".toList = ['\''] := Spelled.lit rfl
  unfold shellEscapeSecret
  rw [String.toList_append, String.toList_append, hbody, hquote]
  rfl

/-- A shell that reads the line exports the secret as it is, whatever it is. -/
theorem export_read {key : String} (hkey : PlainWord key.toList) (value : String) : ∃ w, Literal w value.toList ∧
    read ((exportSecret key value).toList ++ ['\n']) =
      some [.word (bareWord ['e', 'x', 'p', 'o', 'r', 't']), .word (bareWord key.toList ++ [⟨'=', .bare⟩] ++ w), .newline] := by
  have hleaves : Leaves ['\'', '"', '\'', '"', '\''] ⟨'\'', .soft⟩ := fun _ _ _ => rfl
  have hexport : "export ".toList = ['e', 'x', 'p', 'o', 'r', 't', ' '] := Spelled.lit rfl
  have hequals : "=".toList = ['='] := Spelled.lit rfl
  refine ⟨glyphs ⟨'\'', .soft⟩ value.toList, glyphs_literal rfl rfl _, read_of ?_⟩
  have hfirst : Reads {} ['e', 'x', 'p', 'o', 'r', 't', ' '] {} [.word (bareWord ['e', 'x', 'p', 'o', 'r', 't'])] := rfl
  have heq : Reads ⟨.bare (bareWord key.toList), 0, []⟩ ['='] ⟨.bare (bareWord key.toList ++ [⟨'=', .bare⟩]), 0, []⟩ [] := rfl
  have hend (w : Word) : Reads ⟨.bare w, 0, []⟩ ['\n'] {} [.word w, .newline] := rfl
  have htext : (exportSecret key value).toList ++ ['\n'] = ['e', 'x', 'p', 'o', 'r', 't', ' '] ++
      (key.toList ++ (['='] ++ (quoted ['\'', '"', '\'', '"', '\''] value.toList ++ ['\n']))) := by
    unfold exportSecret
    simp only [String.toList_append, hexport, hequals, shellEscapeSecret_toList, List.append_assoc]
  rw [htext]
  exact hfirst.trans ((read_plain hkey).trans (heq.trans ((read_quoted_bare hleaves _ _).trans (hend _))))

def plainPart (t : String) : Part := .plain t.toList

def docPart (path delimiter body : String) : Part := .file path.toList delimiter.toList body.toList

theorem newline_toList : "\n".toList = ['\n'] := Spelled.lit rfl

theorem catDoc_toList (path delimiter body : String) :
    (catDoc path delimiter body).toList = (docPart path delimiter body).render around := by
  have hcat : "cat > ".toList = ['c', 'a', 't', ' ', '>', ' '] := Spelled.lit rfl
  have hfrom : " <<'".toList = [' ', '<', '<', '\''] := Spelled.lit rfl
  have hend : "'\n".toList = ['\'', '\n'] := Spelled.lit rfl
  unfold catDoc docPart
  simp only [String.toList_append, hcat, hfrom, hend, newline_toList, Part.render, header, List.append_assoc, List.cons_append, List.nil_append]

def forwarderParts (component : SystemComponent) : List Part :=
  [docPart ("/etc/systemd/system/" ++ forwarderName component ++ ".service") ("LPFWD_" ++ upperComponent component)
      (logForwarderUnit "CloudWatch" component),
   plainPart ("systemctl enable --now " ++ forwarderName component ++ ".service" ++ "\n")]

def cloudwatchParts (params : CloudWatchInstallParams) : List Part :=
  [plainPart ("# --- Amazon CloudWatch Agent (ships app stdout + agent/caddy journald) ---\n"
    ++ packageBlock (params.installPackage.getD true) ++ "\nmkdir -p /var/log/launch-pad /opt/aws/amazon-cloudwatch-agent/etc\n\n")]
  ++ (systemComponentsForRole params.role).flatMap forwarderParts
  ++ [plainPart "\n", docPart cwBaseConfigPath "CWBASE" (pretty (systemCwConfig params.clusterId params.nodeId params.role) ++ "\n"),
    plainPart "\n# Agent-owned placeholder; the launchpad agent writes cw-agent-combined.json each tick.\n",
    docPart cwContainersFragmentPath "CWFRAG" (pretty (cwAgentConfig []) ++ "\n"),
    plainPart ("\n" ++ cwAgentCtl ++ " -a fetch-config -m ec2 -s -c file:" ++ cwBaseConfigPath ++ "\n")]

/-- The text that the parts are. -/
def rendered (parts : List Part) : List Char := parts.flatMap (·.render around)

theorem rendered_nil : rendered [] = [] := rfl

theorem rendered_append (xs ys : List Part) : rendered (xs ++ ys) = rendered xs ++ rendered ys := List.flatMap_append

theorem rendered_plain (t : String) (parts : List Part) : rendered (plainPart t :: parts) = t.toList ++ rendered parts := by
  unfold rendered
  rw [List.flatMap_cons]
  rfl

theorem rendered_doc (path delimiter body : String) (parts : List Part) :
    rendered (docPart path delimiter body :: parts) = (catDoc path delimiter body).toList ++ rendered parts := by
  unfold rendered
  rw [List.flatMap_cons, catDoc_toList]

theorem forwarder_toList (component : SystemComponent) :
    rendered (forwarderParts component) = (forwarder component).toList ++ ['\n'] := by
  unfold forwarderParts forwarder
  simp only [rendered_plain, rendered_doc, rendered_nil, String.toList_append, List.append_assoc, List.append_nil]
  rw [newline_toList]

/-- Texts for the components, joined by line feeds, and one more. -/
theorem joined_lines {components : List SystemComponent} (hne : components ≠ []) {text : SystemComponent → String}
    {parts : SystemComponent → List Part} (hparts : ∀ c, rendered (parts c) = (text c).toList ++ ['\n']) :
    rendered (components.flatMap parts) = ("\n".intercalate (components.map text)).toList ++ ['\n'] := by
  have hunlines : rendered (components.flatMap parts) = unlines (components.map fun c => (text c).toList) := by
    clear hne
    induction components with
    | nil => rfl
    | cons c components ih =>
      rw [List.flatMap_cons, rendered_append, hparts, ih]
      rfl
  rw [hunlines, unlines_eq (by simpa using hne), String.toList_intercalate, newline_toList, List.map_map]
  rfl

theorem renderCloudWatchInstall_toList (params : CloudWatchInstallParams) :
    (renderCloudWatchInstall params).toList = rendered (cloudwatchParts params) := by
  have hcomponents : systemComponentsForRole params.role ≠ [] := by cases params.role <;> decide
  have hlines : "\n\n".toList = ['\n', '\n'] := Spelled.lit rfl
  unfold renderCloudWatchInstall cloudwatchParts
  rw [rendered_append, rendered_append, joined_lines hcomponents forwarder_toList]
  simp only [rendered_plain, rendered_doc, rendered_nil, String.toList_append, hlines, newline_toList, List.append_assoc, List.cons_append,
    List.nil_append, List.append_nil]

/-! ## Sound parts -/

theorem Spelled.of {P : List Char → Prop} {s : String} {l : List Char} (h : Spelled s l) (hl : P l) : P s.toList := by rwa [h]

/-- A JSON text is never ended by a delimiter in capital letters. -/
theorem ended_pretty {d : List Char} (hd : d.head?.any (·.isUpper) = true) (v : JsonValue) : EndedBy d (pretty v ++ "\n").toList := by
  have hsmall : JsonValue.Small (JsonValue.stringify [' ', ' '] [] v) :=
    JsonValue.small_stringify (by simp [JsonValue.Blank, JsonValue.isBlank]) JsonValue.blank_nil v
  have hnot : d ∉ (JsonValue.stringify [' ', ' '] [] v).splitOn '\n' := by
    intro hmem
    cases d with
    | nil => cases hd
    | cons c d =>
      have hlow := hsmall.of_mem hmem c rfl
      have hup : c.isUpper = true := hd
      rw [hlow] at hup
      cases hup
  unfold pretty
  rw [String.toList_append, String.toList_ofList, newline_toList]
  exact ended_line hnot

/-- A delimiter in capital letters. -/
def Capital (d : List Char) : Prop := PlainWord d ∧ d.head?.any (·.isUpper) = true

instance (d : List Char) : Decidable (Capital d) := inferInstanceAs (Decidable (_ ∧ _))

/-- A file of JSON. -/
theorem sound_pretty {path delimiter : String} {p d : List Char} (hpath : Spelled path p) (hdel : Spelled delimiter d)
    (hp : PlainWord p) (hd : Capital d) (v : JsonValue) : (docPart path delimiter (pretty v ++ "\n")).Sound := by
  show PlainWord path.toList ∧ PlainWord delimiter.toList ∧ EndedBy delimiter.toList (pretty v ++ "\n").toList
  rw [hpath, hdel]
  exact ⟨hp, hd.1, ended_pretty hd.2 v⟩

/-- A file of a given text. -/
theorem sound_doc {path delimiter body : String} {p d b : List Char} (hpath : Spelled path p) (hdel : Spelled delimiter d)
    (hbody : Spelled body b) (h : PlainWord p ∧ PlainWord d ∧ EndedBy d b) : (docPart path delimiter body).Sound := by
  show PlainWord path.toList ∧ PlainWord delimiter.toList ∧ EndedBy delimiter.toList body.toList
  rwa [hpath, hdel, hbody]

set_option maxRecDepth 20000 in
theorem sound_forwarder (component : SystemComponent) : ∀ p ∈ forwarderParts component, p.Sound := by
  unfold forwarderParts logForwarderUnit systemLogFilePath forwarderName
  intro p hp
  simp only [List.mem_cons, List.not_mem_nil, or_false] at hp
  rcases hp with rfl | rfl
  · cases component
    all_goals
      apply sound_doc
      · repeat' first | with_reducible apply Spelled.append | exact Spelled.lit rfl
      · repeat' first | with_reducible apply Spelled.append | exact Spelled.lit rfl
      · repeat' first | with_reducible apply Spelled.append | exact Spelled.lit rfl
      · decide
  · cases component
    all_goals
      apply Spelled.quiet
      · repeat' first | with_reducible apply Spelled.append | exact Spelled.lit rfl
      · rfl

set_option maxRecDepth 20000 in
theorem sound_cloudwatch (params : CloudWatchInstallParams) : ∀ p ∈ cloudwatchParts params, p.Sound := by
  intro p hp
  simp only [cloudwatchParts, List.mem_append, List.mem_cons, List.not_mem_nil, or_false] at hp
  rcases hp with (rfl | hp) | rfl | rfl | rfl | rfl | rfl
  · cases params.installPackage.getD true
    all_goals
      dsimp only [packageBlock]
      apply Spelled.quiet
      · repeat' first | with_reducible apply Spelled.append | exact Spelled.lit rfl
      · rfl
  · obtain ⟨component, -, hp⟩ := List.mem_flatMap.mp hp
    exact sound_forwarder component p hp
  · exact Spelled.quiet (Spelled.lit rfl) rfl
  · exact sound_pretty (Spelled.lit rfl) (Spelled.lit rfl) (by decide) (by decide) _
  · exact Spelled.quiet (Spelled.lit rfl) rfl
  · exact sound_pretty (Spelled.lit rfl) (Spelled.lit rfl) (by decide) (by decide) _
  · apply Spelled.quiet
    · repeat' first | with_reducible apply Spelled.append | exact Spelled.lit rfl
    · rfl


/-! ## First boot, as parts -/

def caddyParts (installBinary : Bool) (architecture : NodeArchitecture) : List Part :=
  [plainPart ("\n" ++ "# --- Caddy (static binary; the agent pushes routes via the admin API on :2019) ---\n"
      ++ binaryBlock architecture installBinary ++ "\nmkdir -p /var/lib/caddy\n\n"),
   docPart "/etc/launch-pad/caddy-init.json" "CADDYINIT" caddyInit, plainPart "\n",
   docPart "/etc/systemd/system/caddy.service" "CADDYUNIT" caddyUnit,
   plainPart "systemctl daemon-reload\nsystemctl enable --now caddy\n"]

/-- A line that fetches the agent from the URL. -/
def curlPart (url after : String) : Part := .line "curl -fsSL ".toList url.toList after.toList

def fetchParts (role : NodeRole) (url : String) : AmiBootstrapMode → List Part
  | .golden => [plainPart ("\n" ++ "# --- agent binary baked into the launchpad golden AMI ---\ntest -x /opt/launch-pad/agent" ++ "\n\n")]
  | .full =>
    [plainPart ("\n" ++ "# --- launchpad agent binary (role: " ++ roleText role ++ ") ---\n"),
     curlPart url " -o /opt/launch-pad/agent\n", plainPart ("chmod +x /opt/launch-pad/agent" ++ "\n\n")]

/-- The parts of the script, of which the URL and the two configs are the node's own. -/
def userDataParts (params : UserDataParams) (mode : AmiBootstrapMode) (url : String) : List Part :=
  [plainPart "#!/bin/bash\nset -euo pipefail\n\n# --- launchpad dirs ---\nmkdir -p /etc/launch-pad /var/lib/launch-pad /opt/launch-pad\n\n",
   plainPart (dockerBlock params.agent.role mode)]
  ++ (if params.agent.role = .app then [] else caddyParts (mode = .full) params.architecture)
  ++ [plainPart "\n# --- launchpad agent ---\n",
    docPart "/etc/launch-pad/agent.json" "AGENTCONF" (agentJson params.agent ++ "\n")]
  ++ fetchParts params.agent.role url mode
  ++ [docPart "/etc/systemd/system/launch-pad-agent.service" "UNIT"
      (renderSystemdUnit (if params.agent.role = .app then .app else .edge) none),
    plainPart "\nsystemctl daemon-reload\nsystemctl enable --now launch-pad-agent\n\n"]
  ++ cloudwatchParts { clusterId := params.agent.clusterId, nodeId := params.agent.nodeId, role := params.agent.role,
                       installPackage := some (mode = .full) }

theorem rendered_caddy (installBinary : Bool) (architecture : NodeArchitecture) :
    rendered (caddyParts installBinary architecture) = ("\n" ++ caddyBlock installBinary architecture).toList := by
  unfold caddyParts caddyBlock
  simp only [rendered_plain, rendered_doc, rendered_nil, String.toList_append, List.append_assoc, List.append_nil]

theorem rendered_curl (url after : String) (parts : List Part) :
    rendered (curlPart url after :: parts) = "curl -fsSL ".toList ++ (shellQuote url).toList ++ after.toList ++ rendered parts := by
  unfold rendered
  rw [List.flatMap_cons, shellQuote_toList]
  simp only [curlPart, Part.render, List.append_assoc]

theorem rendered_fetch {role : NodeRole} {url : Option String} {mode : AmiBootstrapMode} {text : String}
    (h : fetchAgent role url mode = .ok text) : rendered (fetchParts role (url.getD "") mode) = ("\n" ++ text ++ "\n\n").toList := by
  cases mode with
  | golden =>
    obtain rfl := Except.ok.inj h
    unfold fetchParts
    simp only [rendered_plain, rendered_nil, List.append_nil]
  | full =>
    unfold fetchAgent at h
    cases url with
    | none => cases h
    | some url =>
      dsimp only at h
      split at h
      · cases h
      · obtain rfl := Except.ok.inj h
        unfold fetchParts
        simp only [rendered_plain, rendered_curl, rendered_nil, String.toList_append, List.append_assoc, List.append_nil, Option.getD_some]

/-- A script is its parts. -/
theorem renderUserData_toList {params : UserDataParams} {script : String} (h : renderUserData params = .ok script) :
    script.toList = rendered (userDataParts params (params.bootstrapMode.getD .full) (params.agentBinaryUrl.getD "")) := by
  obtain ⟨text, htext⟩ : ∃ text, fetchAgent params.agent.role params.agentBinaryUrl (params.bootstrapMode.getD .full) = .ok text := by
    cases hfetch : fetchAgent params.agent.role params.agentBinaryUrl (params.bootstrapMode.getD .full) with
    | error e =>
      unfold renderUserData at h
      dsimp only at h
      rw [hfetch] at h
      cases h
    | ok text => exact ⟨text, rfl⟩
  have hcaddy : rendered (if params.agent.role = .app then [] else
        caddyParts (params.bootstrapMode.getD .full = .full) params.architecture) =
      (if params.agent.role = .app then "" else
        "\n" ++ caddyBlock (params.bootstrapMode.getD .full = .full) params.architecture).toList := by
    split
    · exact String.toList_empty.symm
    · exact rendered_caddy _ _
  unfold renderUserData at h
  dsimp only at h
  rw [htext] at h
  obtain rfl := Except.ok.inj h
  unfold userDataParts
  simp only [rendered_append, hcaddy, rendered_fetch htext, ← renderCloudWatchInstall_toList]
  simp only [rendered_plain, rendered_doc, rendered_nil, String.toList_append, List.append_assoc, List.append_nil]

/-! ### Sound -/

set_option maxRecDepth 20000 in
theorem sound_caddy (installBinary : Bool) (architecture : NodeArchitecture) : ∀ p ∈ caddyParts installBinary architecture, p.Sound := by
  intro p hp
  simp only [caddyParts, List.mem_cons, List.not_mem_nil, or_false] at hp
  rcases hp with rfl | rfl | rfl | rfl | rfl
  · cases installBinary
    all_goals
      cases architecture
      all_goals
        dsimp only [binaryBlock, caddyDownload]
        apply Spelled.of (P := Quiet)
        · repeat' first | with_reducible apply Spelled.append | exact Spelled.lit rfl
        · decide
  · exact sound_doc (Spelled.lit rfl) (Spelled.lit rfl) (Spelled.lit rfl) (by decide)
  · exact Spelled.quiet (Spelled.lit rfl) rfl
  · exact sound_doc (Spelled.lit rfl) (Spelled.lit rfl) (Spelled.lit rfl) (by decide)
  · exact Spelled.quiet (Spelled.lit rfl) rfl

theorem curl_tokens : given "curl -fsSL ".toList = [.word (bareWord ['c', 'u', 'r', 'l']), .word (bareWord ['-', 'f', 's', 'S', 'L'])] :=
  Spelled.of (P := fun l => given l = _) (Spelled.lit rfl) (by decide)

theorem sound_curl {after : String} {l : List Char} (h : Spelled after l) (hcloses : Closes l) (url : String) : (curlPart url after).Sound := by
  have hbefore : Balanced "curl -fsSL ".toList ∧ Inline (given "curl -fsSL ".toList) :=
    Spelled.of (P := fun l => Balanced l ∧ Inline (given l)) (Spelled.lit rfl) (by decide)
  exact ⟨hbefore, Spelled.of (P := Closes) h hcloses⟩

theorem sound_fetch (role : NodeRole) (url : String) (mode : AmiBootstrapMode) : ∀ p ∈ fetchParts role url mode, p.Sound := by
  intro p hp
  cases mode with
  | golden =>
    obtain rfl := List.mem_singleton.mp hp
    apply Spelled.quiet
    · repeat' first | with_reducible apply Spelled.append | exact Spelled.lit rfl
    · rfl
  | full =>
    simp only [fetchParts, List.mem_cons, List.not_mem_nil, or_false] at hp
    rcases hp with rfl | rfl | rfl
    · cases role
      all_goals
        apply Spelled.quiet
        · repeat' first | with_reducible apply Spelled.append | exact Spelled.lit rfl
        · rfl
    · exact sound_curl (Spelled.lit rfl) (by decide) url
    · apply Spelled.quiet
      · repeat' first | with_reducible apply Spelled.append | exact Spelled.lit rfl
      · rfl

set_option maxRecDepth 20000 in
theorem sound_unit (role : ProvisionNodeRole) :
    (docPart "/etc/systemd/system/launch-pad-agent.service" "UNIT" (renderSystemdUnit role none)).Sound := by
  unfold renderSystemdUnit
  cases role
  all_goals
    apply sound_doc (Spelled.lit rfl) (Spelled.lit rfl)
    · repeat' first | with_reducible apply Spelled.append | exact Spelled.lit rfl
    · decide

set_option maxRecDepth 20000 in
theorem sound_userData (params : UserDataParams) (mode : AmiBootstrapMode) (url : String) :
    ∀ p ∈ userDataParts params mode url, p.Sound := by
  intro p hp
  simp only [userDataParts, List.mem_append, List.mem_cons, List.not_mem_nil, or_false] at hp
  rcases hp with ((((((rfl | rfl) | hp) | rfl | rfl) | hp) | rfl | rfl) | hp)
  · exact Spelled.quiet (Spelled.lit rfl) rfl
  · cases params.agent.role
    all_goals
      cases mode
      all_goals exact Spelled.quiet (Spelled.lit rfl) rfl
  · split at hp
    · cases hp
    · exact sound_caddy _ _ p hp
  · exact Spelled.quiet (Spelled.lit rfl) rfl
  · exact sound_pretty (Spelled.lit rfl) (Spelled.lit rfl) (by decide) (by decide) _
  · exact sound_fetch _ _ _ p hp
  · exact sound_unit _
  · exact Spelled.quiet (Spelled.lit rfl) rfl
  · exact sound_cloudwatch _ p hp

/-! ## What a first boot does -/

/-- The files that a first boot writes. -/
def userDataFiles (params : UserDataParams) : List (String × String) :=
  (if params.agent.role = .app then [] else
    [("/etc/launch-pad/caddy-init.json", caddyInit), ("/etc/systemd/system/caddy.service", caddyUnit)])
  ++ [("/etc/launch-pad/agent.json", agentJson params.agent ++ "\n"),
    ("/etc/systemd/system/launch-pad-agent.service", renderSystemdUnit (if params.agent.role = .app then .app else .edge) none)]
  ++ (systemComponentsForRole params.agent.role).map (fun component =>
    ("/etc/systemd/system/" ++ forwarderName component ++ ".service", logForwarderUnit "CloudWatch" component))
  ++ [(cwBaseConfigPath, pretty (systemCwConfig params.agent.clusterId params.agent.nodeId params.agent.role) ++ "\n"),
    (cwContainersFragmentPath, pretty (cwAgentConfig []) ++ "\n")]

def spelledFile (f : String × String) : List Char × List Char := (f.1.toList, f.2.toList)

theorem written_plain (t : String) : (plainPart t).written = [] := by
  unfold plainPart
  rw [Part.written]

theorem written_doc (path delimiter body : String) : (docPart path delimiter body).written = [spelledFile (path, body)] := by
  unfold docPart
  rw [Part.written]
  rfl

theorem written_userData (params : UserDataParams) (mode : AmiBootstrapMode) (url : String) :
    (userDataParts params mode url).flatMap (·.written) = (userDataFiles params).map spelledFile := by
  have hcaddy : (if params.agent.role = .app then [] else caddyParts (mode = .full) params.architecture).flatMap (·.written) =
      (if params.agent.role = .app then [] else
        [("/etc/launch-pad/caddy-init.json", caddyInit), ("/etc/systemd/system/caddy.service", caddyUnit)]).map spelledFile := by
    split
    · rfl
    · rfl
  have hfetch : (fetchParts params.agent.role url mode).flatMap (·.written) = [] := by cases mode <;> rfl
  have hforwarders (components : List SystemComponent) : (components.flatMap forwarderParts).flatMap (·.written) =
      (components.map fun component =>
        ("/etc/systemd/system/" ++ forwarderName component ++ ".service", logForwarderUnit "CloudWatch" component)).map spelledFile := by
    induction components with
    | nil => rfl
    | cons c components ih =>
      rw [List.flatMap_cons, List.flatMap_append, ih]
      rfl
  unfold userDataParts userDataFiles cloudwatchParts
  simp only [List.flatMap_append, List.map_append, hcaddy, hfetch, hforwarders]
  simp only [List.flatMap_cons, List.flatMap_nil, written_plain, written_doc, List.map_cons, List.map_nil, spelledFile, List.nil_append,
    List.append_nil, List.cons_append, List.append_assoc]

/-- What a file has after the script: the last text written to it. -/
def content (written : List (List Char × List Char)) (path : String) : Option (List Char) :=
  (written.reverse.find? fun f => f.1 == path.toList).map (·.2)

/-- The last text of a file that no later one overwrites. -/
theorem content_last {before later : List (String × String)} {path body : String} (h : ∀ f ∈ later, f.1 ≠ path) :
    content ((before ++ (path, body) :: later).map spelledFile) path = some body.toList := by
  have hlater : (later.map spelledFile).reverse.find? (fun f => f.1 == path.toList) = none := by
    refine List.find?_eq_none.mpr fun f hf => ?_
    obtain ⟨g, hg, rfl⟩ := List.mem_map.mp (List.mem_reverse.mp hf)
    intro heq
    exact h g hg (String.toList_inj.mp (beq_iff_eq.mp heq))
  unfold content
  rw [List.map_append, List.map_cons, List.reverse_append, List.reverse_cons, List.append_assoc, List.find?_append, hlater]
  simp [spelledFile]

/-- The script fetches the URL, as one word that stands for itself. -/
def Fetches (ts : List Token) (url : String) : Prop :=
  ∃ before after w, ts = before ++ [.word (bareWord ['c', 'u', 'r', 'l']), .word (bareWord ['-', 'f', 's', 'S', 'L']), .word w] ++ after ∧
    Literal w url.toList

/-- The commands of a script, without what is literal in them. -/
def commands (ts : List Token) : List Token := ts.map Token.shape

/-- The node's kind, on which the commands depend. -/
def kind (params : UserDataParams) : NodeRole × NodeArchitecture × AmiBootstrapMode :=
  (params.agent.role, params.architecture, params.bootstrapMode.getD .full)

/-- What a shell reads in a script of parts. -/
def script (parts : List Part) : List Token := parts.flatMap (·.tokens escapedQuote)

theorem read_rendered {parts : List Part} (h : ∀ p ∈ parts, p.Sound) : read (rendered parts) = some (script parts) :=
  read_parts leaves_around h

theorem script_append (xs ys : List Part) : script (xs ++ ys) = script xs ++ script ys := List.flatMap_append

theorem fetches_of_mem {parts : List Part} {url after : String} (h : curlPart url after ∈ parts) : Fetches (script parts) url := by
  obtain ⟨before, rest, rfl⟩ := List.append_of_mem h
  have hcurl : script (curlPart url after :: rest) =
      given "curl -fsSL ".toList ++ .word (glyphs escapedQuote url.toList) :: (given after.toList ++ script rest) := by
    unfold script
    rw [List.flatMap_cons]
    show (_ ++ _ :: _) ++ _ = _
    rw [List.append_assoc, List.cons_append]
  refine ⟨script before, given after.toList ++ script rest, glyphs escapedQuote url.toList, ?_, glyphs_literal rfl rfl _⟩
  rw [script_append, hcurl, curl_tokens]
  simp only [List.cons_append, List.nil_append, List.append_assoc]

theorem curl_mem (params : UserDataParams) (url : String) :
    curlPart url " -o /opt/launch-pad/agent\n" ∈ userDataParts params .full url := by
  have hfetch : curlPart url " -o /opt/launch-pad/agent\n" ∈ fetchParts params.agent.role url .full :=
    List.mem_cons_of_mem _ (List.mem_cons_self ..)
  unfold userDataParts
  simp only [List.mem_append]
  exact Or.inl (Or.inl (Or.inr hfetch))

theorem shape_plain (t : String) : (plainPart t).shape = plainPart t := by
  unfold plainPart
  rw [Part.shape]

theorem shape_doc (path delimiter body : String) : (docPart path delimiter body).shape = .file path.toList delimiter.toList [] := by
  unfold docPart
  rw [Part.shape]

theorem shape_userData {params params' : UserDataParams} (h : kind params = kind params') (url url' : String) :
    commands (script (userDataParts params (params.bootstrapMode.getD .full) url)) =
      commands (script (userDataParts params' (params'.bootstrapMode.getD .full) url')) := by
  obtain ⟨hrole, hrest⟩ := Prod.mk.inj h
  obtain ⟨harch, hmode⟩ := Prod.mk.inj hrest
  have hfetch (role : NodeRole) (mode : AmiBootstrapMode) :
      (fetchParts role url mode).map Part.shape = (fetchParts role url' mode).map Part.shape := by cases mode <;> rfl
  refine shape_eq rfl rfl ?_
  unfold userDataParts cloudwatchParts
  rw [hrole, harch, hmode]
  simp only [List.map_append, List.map_cons, List.map_nil, shape_plain, shape_doc, hfetch params'.agent.role]

theorem ne_of_spelled {s t : String} {l m : List Char} (hs : Spelled s l) (ht : Spelled t m) (h : l ≠ m) : s ≠ t := by
  intro hst
  rw [← hs, ← ht, hst] at h
  exact h rfl

theorem forwarder_file (component : SystemComponent) :
    "/etc/systemd/system/" ++ forwarderName component ++ ".service" ≠ "/etc/launch-pad/agent.json" := by
  unfold forwarderName
  cases component
  all_goals
    apply ne_of_spelled
    · repeat' first | with_reducible apply Spelled.append | exact Spelled.lit rfl
    · exact Spelled.lit rfl
    · decide

/-- The agent's config is what was written to its file last. -/
theorem content_agent (params : UserDataParams) :
    content ((userDataFiles params).map spelledFile) "/etc/launch-pad/agent.json" = some ((agentJson params.agent).toList ++ ['\n']) := by
  unfold userDataFiles
  simp only [List.append_assoc, List.cons_append, List.nil_append]
  rw [content_last, String.toList_append, newline_toList]
  intro f hf
  simp only [List.mem_cons, List.mem_append, List.mem_map, List.not_mem_nil, or_false] at hf
  rcases hf with rfl | ⟨component, -, rfl⟩ | rfl | rfl
  · exact ne_of_spelled (Spelled.lit rfl) (Spelled.lit rfl) (by decide)
  · exact forwarder_file component
  · exact ne_of_spelled (Spelled.lit rfl) (Spelled.lit rfl) (by decide)
  · exact ne_of_spelled (Spelled.lit rfl) (Spelled.lit rfl) (by decide)

/-- A full bootstrap has a URL. -/
theorem url_of_ok {params : UserDataParams} {text : String} (h : renderUserData params = .ok text)
    (hmode : params.bootstrapMode.getD .full = .full) : ∃ url, params.agentBinaryUrl = some url := by
  cases hurl : params.agentBinaryUrl with
  | none =>
    unfold renderUserData at h
    dsimp only at h
    rw [hmode, hurl] at h
    cases h
  | some url => exact ⟨url, rfl⟩

/-- Whatever a node's names, region and URL are: a shell reads the script whole, and what it writes
    is the node's files and no others. The agent that starts from them has the node's config. The
    agent is fetched from the URL, and no text of these is a command or part of one. -/
theorem first_boot {params : UserDataParams} {text : String} (h : renderUserData params = .ok text) :
    ∃ ts, read text.toList = some ts ∧ files [] ts = (userDataFiles params).map spelledFile ∧
      (content (files [] ts) "/etc/launch-pad/agent.json").bind parseAgentConfig = some params.agent ∧
      (params.bootstrapMode.getD .full = .full → ∃ url, params.agentBinaryUrl = some url ∧ Fetches ts url) ∧
      ∀ params' text', kind params' = kind params → renderUserData params' = .ok text' →
        ∃ ts', read text'.toList = some ts' ∧ commands ts' = commands ts := by
  have hsound := sound_userData params (params.bootstrapMode.getD .full) (params.agentBinaryUrl.getD "")
  have hfiles : files [] (script (userDataParts params (params.bootstrapMode.getD .full) (params.agentBinaryUrl.getD ""))) =
      (userDataFiles params).map spelledFile := (files_parts hsound).trans (written_userData params _ _)
  refine ⟨script (userDataParts params (params.bootstrapMode.getD .full) (params.agentBinaryUrl.getD "")), ?_, hfiles, ?_, ?_, ?_⟩
  · rw [renderUserData_toList h]
    exact read_rendered hsound
  · rw [hfiles, content_agent, Option.bind_some]
    exact parse_agentJson params.agent (by simp [JsonValue.Blank, JsonValue.isBlank])
  · intro hmode
    obtain ⟨url, hurl⟩ := url_of_ok h hmode
    rw [hmode, hurl]
    exact ⟨url, rfl, fetches_of_mem (curl_mem params url)⟩
  · intro params' text' hkind h'
    refine ⟨script (userDataParts params' (params'.bootstrapMode.getD .full) (params'.agentBinaryUrl.getD "")), ?_,
      shape_userData hkind _ _⟩
    rw [renderUserData_toList h']
    exact read_rendered (sound_userData params' _ _)

/-- An edge of a golden image, as a shell reads its script. -/
theorem first_boot_golden : ∃ text ts, renderUserData
      { agent := { nodeId := "n", agentId := "agent-n", bucket := "b", region := "eu-west-1", clusterId := "c", role := .edge }
        architecture := .arm64, bootstrapMode := some .golden } = .ok text ∧ read text.toList = some ts := by
  obtain ⟨text, htext⟩ : ∃ text, renderUserData
      { agent := { nodeId := "n", agentId := "agent-n", bucket := "b", region := "eu-west-1", clusterId := "c", role := .edge }
        architecture := .arm64, bootstrapMode := some .golden } = .ok text := ⟨_, rfl⟩
  obtain ⟨ts, hread, -⟩ := first_boot htext
  exact ⟨text, ts, htext, hread⟩

end LaunchPad.Cli.Scripts
