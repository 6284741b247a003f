/-
  LaunchPad.Cli.External — the scripts of a server of the operator's own: its enrollment and a
  change of its AWS credentials (`provision/external-bootstrap.ts`, `commands/node/init.ts`),
  and an agent's upgrade, also on EC2 (`provision/agent-upgrade.ts`).

  Left out: how systemd reads `agent.env`.

  Proved, for all names, URLs and credentials:
  - `enrolled`: a shell reads the script whole, it writes the server's files, and the agent that
    reads them has the server's config and credentials.
  - `update_read`, `upgrade_read`: what it reads in the other two.
-/
import LaunchPad.Cli.Scripts

namespace LaunchPad.Cli.External

open LaunchPad.Agent (SystemComponent systemComponentsForRole systemLogFilePath)
open LaunchPad.Agent.Config (AgentConfig agentJson parse_agentJson parseAgentConfig)
open LaunchPad.Cli.NodeCalls (agentIdForNode)
open LaunchPad.Cli.Scripts
open LaunchPad.Lib LaunchPad.Lib.Shell

/-! ## Scripts -/

def agentEnvFile : String := "/etc/launch-pad/agent.env"

structure Aws where
  accessKeyId : String
  secretAccessKey : String
  region : String

structure ExternalBootstrapParams where
  role : ProvisionNodeRole
  agentConfigJson : String
  agentBinaryUrl : String
  systemdUnit : String
  architecture : Option NodeArchitecture := none
  aws : Aws

def nodeRole : ProvisionNodeRole → NodeRole
  | .app => .app
  | .edge => .edge

/-- `cat > PATH <<'DELIMITER'` up to the delimiter. -/
def forwarder (component : SystemComponent) : String :=
  "cat > " ++ ("/etc/systemd/system/" ++ forwarderName component ++ ".service") ++ " <<'" ++ ("LPFWD_" ++ upperComponent component)
    ++ "'\n" ++ logForwarderUnit "direct" component ++ ("LPFWD_" ++ upperComponent component)

def enableForwarder (component : SystemComponent) : String := "systemctl enable --now " ++ forwarderName component

def caddyBlock (architecture : NodeArchitecture) : String :=
  "# --- Caddy (edge role only; static binary, admin API on 127.0.0.1:2019) ---\n" ++ caddyDownload architecture
    ++ "\nmkdir -p /var/lib/caddy\n\n" ++ catDoc "/etc/launch-pad/caddy-init.json" "CADDYINIT" caddyInit ++ "\n"
    ++ catDoc "/etc/systemd/system/caddy.service" "CADDYUNIT" caddyUnit ++ "systemctl enable --now caddy\n"

def dockerBlock : ProvisionNodeRole → String
  | .app => "# --- Docker (app role only) ---\n$PKG_INSTALL docker\nsystemctl enable --now docker\n"
  | .edge => ""

def edgeBlock (architecture : NodeArchitecture) : ProvisionNodeRole → String
  | .app => ""
  | .edge => caddyBlock architecture

/-- The lines of `agent.env`. -/
def credentials (aws : Aws) : String :=
  "AWS_ACCESS_KEY_ID=" ++ aws.accessKeyId ++ "\n" ++ "AWS_SECRET_ACCESS_KEY=" ++ aws.secretAccessKey ++ "\n"
    ++ "AWS_REGION=" ++ aws.region ++ "\n"

def detectPackageManager : String := "#!/bin/bash
set -euo pipefail

# --- detect package manager (dnf: Amazon Linux/Fedora/RHEL; apt-get: Debian/Ubuntu) ---
if command -v dnf >/dev/null 2>&1; then
  PKG_INSTALL=\"dnf install -y\"
elif command -v apt-get >/dev/null 2>&1; then
  apt-get update -y
  PKG_INSTALL=\"apt-get install -y\"
else
  echo \"launchpad: unsupported host — neither dnf nor apt-get found\" >&2
  exit 1
fi

# --- launchpad dirs ---
mkdir -p /etc/launch-pad /opt/launch-pad /var/lib/launch-pad /var/log/launch-pad

"

def renderExternalBootstrap (p : ExternalBootstrapParams) : String :=
  let components := systemComponentsForRole (nodeRole p.role)
  let forwarders := "\n".intercalate (components.map forwarder)
  let enableForwarders := "\n".intercalate (components.map enableForwarder)
  detectPackageManager ++ dockerBlock p.role ++ edgeBlock (p.architecture.getD .x86_64) p.role
    ++ "\n\n# --- AWS credentials (loaded by systemd EnvironmentFile; never logged elsewhere) ---\ntouch " ++ agentEnvFile
    ++ "\nchmod 600 " ++ agentEnvFile ++ "\n" ++ catDoc agentEnvFile "AGENTENV" (credentials p.aws)
    ++ "\n# --- agent config ---\ntouch /etc/launch-pad/agent.json\nchmod 600 /etc/launch-pad/agent.json\n"
    ++ catDoc "/etc/launch-pad/agent.json" "AGENTCONF" (p.agentConfigJson ++ "\n")
    ++ "\n# --- launchpad agent binary (role: " ++ p.role.text ++ ") ---\n" ++ "curl -fsSL " ++ shellQuote p.agentBinaryUrl
    ++ " -o /opt/launch-pad/agent\n" ++ "chmod 755 /opt/launch-pad/agent\n\n# --- systemd unit ---\n"
    ++ catDoc "/etc/systemd/system/launch-pad-agent.service" "UNIT" p.systemdUnit
    ++ "\n# --- journald forwarders for direct CloudWatch Logs shipping ---\n" ++ forwarders
    ++ "\n" ++ "\nsystemctl daemon-reload\n" ++ enableForwarders ++ "\n" ++ "systemctl enable --now launch-pad-agent\n"

/-- Rewrites the credentials only. -/
def renderExternalCredentialsUpdate (aws : Aws) : String :=
  "#!/bin/bash\nset -euo pipefail\ntouch " ++ agentEnvFile ++ "\nchmod 600 " ++ agentEnvFile ++ "\n"
    ++ catDoc agentEnvFile "AGENTENV" (credentials aws)
    ++ "systemctl restart launch-pad-agent\nsystemctl is-active --quiet launch-pad-agent\n"

def edgeExtras : ProvisionNodeRole → String
  | .app => ""
  | .edge => "# Edge nodes never run containers — stop paying for an idle Docker daemon.\nsudo systemctl disable --now docker 2>/dev/null || true\n"

def renderRemoteUpgradeScript (binaryUrl : String) (role : ProvisionNodeRole) : String :=
  "#!/bin/bash\nset -euo pipefail\nstaged=\"$(mktemp)\"\n" ++ "curl -fsSL " ++ shellQuote binaryUrl ++ " -o \"$staged\"\n"
    ++ ("sudo install -m 755 \"$staged\" /opt/launch-pad/agent\nrm -f \"$staged\"\n"
      ++ "sudo tee /etc/systemd/system/launch-pad-agent.service > /dev/null <<'UNIT'\n" ++ renderSystemdUnit role none ++ "UNIT\n"
      ++ "sudo rm -f /opt/launch-pad/agent.cjs\n" ++ edgeExtras role
      ++ "sudo systemctl daemon-reload\nsudo systemctl restart launch-pad-agent\nsudo systemctl is-active --quiet launch-pad-agent\n")

/-! ## Enrollment -/

/-- What `node init` gives the script. -/
structure InitParams where
  nodeId : String
  bucket : String
  region : String
  clusterId : String
  role : ProvisionNodeRole
  architecture : NodeArchitecture
  advertiseIp : Option String := none
  presignedUrl : String
  accessKeyId : String
  secretAccessKey : String

/-- The config of the server's agent. -/
def initConfig (p : InitParams) : AgentConfig where
  nodeId := p.nodeId
  agentId := agentIdForNode p.nodeId
  bucket := p.bucket
  region := p.region
  clusterId := p.clusterId
  role := nodeRole p.role
  advertiseIp := p.advertiseIp.filter (· ≠ "")

def initAws (p : InitParams) : Aws where
  accessKeyId := p.accessKeyId
  secretAccessKey := p.secretAccessKey
  region := p.region

def initBootstrap (p : InitParams) : ExternalBootstrapParams where
  role := p.role
  agentConfigJson := agentJson (initConfig p)
  agentBinaryUrl := p.presignedUrl
  systemdUnit := renderSystemdUnit p.role (some agentEnvFile)
  architecture := some p.architecture
  aws := initAws p

def initScript (p : InitParams) : String := renderExternalBootstrap (initBootstrap p)

/-! ## As parts -/

def edgeParts (architecture : NodeArchitecture) : ProvisionNodeRole → List Part
  | .app => []
  | .edge =>
    [plainPart ("# --- Caddy (edge role only; static binary, admin API on 127.0.0.1:2019) ---\n" ++ caddyDownload architecture
      ++ "\nmkdir -p /var/lib/caddy\n\n"), docPart "/etc/launch-pad/caddy-init.json" "CADDYINIT" caddyInit, plainPart "\n",
     docPart "/etc/systemd/system/caddy.service" "CADDYUNIT" caddyUnit, plainPart "systemctl enable --now caddy\n"]

def forwarderParts (component : SystemComponent) : List Part :=
  [docPart ("/etc/systemd/system/" ++ forwarderName component ++ ".service") ("LPFWD_" ++ upperComponent component)
    (logForwarderUnit "direct" component)]

def enableParts (component : SystemComponent) : List Part := [plainPart (enableForwarder component ++ "\n")]

def bootstrapParts (p : ExternalBootstrapParams) : List Part :=
  [plainPart detectPackageManager, plainPart (dockerBlock p.role)] ++ edgeParts (p.architecture.getD .x86_64) p.role
  ++ [plainPart ("\n\n# --- AWS credentials (loaded by systemd EnvironmentFile; never logged elsewhere) ---\ntouch " ++ agentEnvFile
      ++ "\nchmod 600 " ++ agentEnvFile ++ "\n"),
    docPart agentEnvFile "AGENTENV" (credentials p.aws),
    plainPart "\n# --- agent config ---\ntouch /etc/launch-pad/agent.json\nchmod 600 /etc/launch-pad/agent.json\n",
    docPart "/etc/launch-pad/agent.json" "AGENTCONF" (p.agentConfigJson ++ "\n"),
    plainPart ("\n# --- launchpad agent binary (role: " ++ p.role.text ++ ") ---\n"),
    curlPart p.agentBinaryUrl " -o /opt/launch-pad/agent\n",
    plainPart "chmod 755 /opt/launch-pad/agent\n\n# --- systemd unit ---\n",
    docPart "/etc/systemd/system/launch-pad-agent.service" "UNIT" p.systemdUnit,
    plainPart "\n# --- journald forwarders for direct CloudWatch Logs shipping ---\n"]
  ++ (systemComponentsForRole (nodeRole p.role)).flatMap forwarderParts ++ [plainPart "\nsystemctl daemon-reload\n"]
  ++ (systemComponentsForRole (nodeRole p.role)).flatMap enableParts ++ [plainPart "systemctl enable --now launch-pad-agent\n"]

theorem components_ne_nil (role : ProvisionNodeRole) : systemComponentsForRole (nodeRole role) ≠ [] := by cases role <;> decide

theorem forwarder_line (c : SystemComponent) : rendered (forwarderParts c) = (forwarder c).toList ++ ['\n'] := by
  unfold forwarderParts forwarder
  rw [rendered_doc, rendered_nil, List.append_nil]
  unfold catDoc
  simp only [String.toList_append, newline_toList, List.append_assoc]

theorem enable_line (c : SystemComponent) : rendered (enableParts c) = (enableForwarder c).toList ++ ['\n'] := by
  unfold enableParts
  rw [rendered_plain, rendered_nil, List.append_nil, String.toList_append, newline_toList]

theorem rendered_edge (architecture : NodeArchitecture) (role : ProvisionNodeRole) :
    rendered (edgeParts architecture role) = (edgeBlock architecture role).toList := by
  cases role with
  | app => exact String.toList_empty.symm
  | edge =>
    unfold edgeParts edgeBlock caddyBlock
    simp only [rendered_plain, rendered_doc, rendered_nil, String.toList_append, List.append_assoc, List.append_nil]

/-- The script is its parts. -/
theorem renderExternalBootstrap_toList (p : ExternalBootstrapParams) :
    (renderExternalBootstrap p).toList = rendered (bootstrapParts p) := by
  have hforwarders := joined_lines (components_ne_nil p.role) forwarder_line
  have henable := joined_lines (components_ne_nil p.role) enable_line
  unfold renderExternalBootstrap bootstrapParts
  simp only [rendered_append, hforwarders, henable, rendered_edge]
  simp only [rendered_plain, rendered_doc, rendered_curl, rendered_nil, String.toList_append, newline_toList, List.append_assoc,
    List.append_nil]

/-! ## Sound parts -/

/-- AWS gives credentials of one line each. -/
structure OneLine (aws : Aws) : Prop where
  accessKeyId : '\n' ∉ aws.accessKeyId.toList
  secretAccessKey : '\n' ∉ aws.secretAccessKey.toList
  region : '\n' ∉ aws.region.toList

/-- The lines of the file, each with the name of its variable. -/
theorem credentials_lines (aws : Aws) : (credentials aws).toList =
    unlines [['A', 'W', 'S', '_', 'A', 'C', 'C', 'E', 'S', 'S', '_', 'K', 'E', 'Y', '_', 'I', 'D', '='] ++ aws.accessKeyId.toList,
      ['A', 'W', 'S', '_', 'S', 'E', 'C', 'R', 'E', 'T', '_', 'A', 'C', 'C', 'E', 'S', 'S', '_', 'K', 'E', 'Y', '=']
        ++ aws.secretAccessKey.toList,
      ['A', 'W', 'S', '_', 'R', 'E', 'G', 'I', 'O', 'N', '='] ++ aws.region.toList] := by
  have hid : "AWS_ACCESS_KEY_ID=".toList = ['A', 'W', 'S', '_', 'A', 'C', 'C', 'E', 'S', 'S', '_', 'K', 'E', 'Y', '_', 'I', 'D', '='] :=
    Spelled.lit rfl
  have hsecret : "AWS_SECRET_ACCESS_KEY=".toList =
      ['A', 'W', 'S', '_', 'S', 'E', 'C', 'R', 'E', 'T', '_', 'A', 'C', 'C', 'E', 'S', 'S', '_', 'K', 'E', 'Y', '='] := Spelled.lit rfl
  have hregion : "AWS_REGION=".toList = ['A', 'W', 'S', '_', 'R', 'E', 'G', 'I', 'O', 'N', '='] := Spelled.lit rfl
  unfold credentials
  simp only [String.toList_append, hid, hsecret, hregion, newline_toList, unlines, List.flatMap_cons, List.flatMap_nil, List.append_assoc,
    List.append_nil]

/-- No line of the file is its delimiter. -/
theorem ended_credentials {aws : Aws} (h : OneLine aws) : EndedBy "AGENTENV".toList (credentials aws).toList := by
  have hdel : "AGENTENV".toList = ['A', 'G', 'E', 'N', 'T', 'E', 'N', 'V'] := Spelled.lit rfl
  rw [credentials_lines, hdel]
  refine ended_lines (by simp) ?_ ?_
  · simp [h.accessKeyId, h.secretAccessKey, h.region]
  · simp

set_option maxRecDepth 20000 in
theorem sound_edge (architecture : NodeArchitecture) (role : ProvisionNodeRole) : ∀ p ∈ edgeParts architecture role, p.Sound := by
  intro p hp
  cases role with
  | app => cases hp
  | edge =>
    simp only [edgeParts, List.mem_cons, List.not_mem_nil, or_false] at hp
    rcases hp with rfl | rfl | rfl | rfl | rfl
    · cases architecture
      all_goals
        dsimp only [caddyDownload]
        apply Spelled.of (P := Quiet)
        · repeat' first | with_reducible apply Spelled.append | exact Spelled.lit rfl
        · decide
    · exact sound_doc (Spelled.lit rfl) (Spelled.lit rfl) (Spelled.lit rfl) (by decide)
    · exact Spelled.quiet (Spelled.lit rfl) rfl
    · exact sound_doc (Spelled.lit rfl) (Spelled.lit rfl) (Spelled.lit rfl) (by decide)
    · exact Spelled.quiet (Spelled.lit rfl) rfl

set_option maxRecDepth 20000 in
theorem sound_forwarder (component : SystemComponent) : ∀ p ∈ forwarderParts component, p.Sound := by
  intro p hp
  obtain rfl := List.mem_singleton.mp hp
  unfold logForwarderUnit systemLogFilePath forwarderName
  cases component
  all_goals
    apply sound_doc
    · repeat' first | with_reducible apply Spelled.append | exact Spelled.lit rfl
    · repeat' first | with_reducible apply Spelled.append | exact Spelled.lit rfl
    · repeat' first | with_reducible apply Spelled.append | exact Spelled.lit rfl
    · decide

theorem sound_enable (component : SystemComponent) : ∀ p ∈ enableParts component, p.Sound := by
  intro p hp
  obtain rfl := List.mem_singleton.mp hp
  unfold enableForwarder forwarderName
  cases component
  all_goals
    apply Spelled.quiet
    · repeat' first | with_reducible apply Spelled.append | exact Spelled.lit rfl
    · rfl

set_option maxRecDepth 20000 in
theorem sound_envUnit (role : ProvisionNodeRole) :
    (docPart "/etc/systemd/system/launch-pad-agent.service" "UNIT" (renderSystemdUnit role (some agentEnvFile))).Sound := by
  have hline : environmentLine (some agentEnvFile) = "EnvironmentFile=" ++ agentEnvFile ++ "\n" := by
    unfold environmentLine
    refine if_neg ?_
    exact ne_of_spelled (Spelled.lit rfl) (Spelled.lit (l := []) rfl) (by decide)
  unfold renderSystemdUnit
  rw [hline]
  cases role
  all_goals
    apply sound_doc (Spelled.lit rfl) (Spelled.lit rfl)
    · repeat' first | with_reducible apply Spelled.append | exact Spelled.lit rfl
    · decide

set_option maxRecDepth 20000 in
theorem sound_bootstrap {p : InitParams} (h : OneLine (initAws p)) : ∀ q ∈ bootstrapParts (initBootstrap p), q.Sound := by
  intro q hq
  simp only [bootstrapParts, List.mem_append, List.mem_cons, List.mem_flatMap, List.not_mem_nil, or_false] at hq
  rcases hq with ((((((rfl | rfl) | hq) | hq) | hq) | rfl) | hq) | rfl
  · exact Spelled.of (P := Quiet) (Spelled.lit rfl) (by decide)
  · show Quiet (dockerBlock p.role).toList
    cases p.role
    all_goals exact Spelled.quiet (Spelled.lit rfl) rfl
  · exact sound_edge _ _ q hq
  · rcases hq with rfl | rfl | rfl | rfl | rfl | rfl | rfl | rfl | rfl
    · apply Spelled.quiet
      · repeat' first | with_reducible apply Spelled.append | exact Spelled.lit rfl
      · rfl
    · exact ⟨Spelled.of (P := PlainWord) (Spelled.lit rfl) (by decide),
        Spelled.of (P := PlainWord) (Spelled.lit rfl) (by decide), ended_credentials h⟩
    · exact Spelled.quiet (Spelled.lit rfl) rfl
    · exact sound_pretty (Spelled.lit rfl) (Spelled.lit rfl) (by decide) (by decide) (initConfig p).json
    · show Quiet ("\n# --- launchpad agent binary (role: " ++ p.role.text ++ ") ---\n").toList
      cases p.role
      all_goals
        apply Spelled.quiet
        · repeat' first | with_reducible apply Spelled.append | exact Spelled.lit rfl
        · rfl
    · exact sound_curl (Spelled.lit rfl) (by decide) _
    · exact Spelled.quiet (Spelled.lit rfl) rfl
    · exact sound_envUnit p.role
    · exact Spelled.quiet (Spelled.lit rfl) rfl
  · obtain ⟨component, -, hq⟩ := hq
    exact sound_forwarder component q hq
  · exact Spelled.quiet (Spelled.lit rfl) rfl
  · obtain ⟨component, -, hq⟩ := hq
    exact sound_enable component q hq
  · exact Spelled.quiet (Spelled.lit rfl) rfl

/-! ## What an enrollment does -/

/-- The files that an enrollment writes. -/
def initFiles (p : InitParams) : List (String × String) :=
  (if p.role = .app then [] else
    [("/etc/launch-pad/caddy-init.json", caddyInit), ("/etc/systemd/system/caddy.service", caddyUnit)])
  ++ [(agentEnvFile, credentials (initAws p)), ("/etc/launch-pad/agent.json", agentJson (initConfig p) ++ "\n"),
    ("/etc/systemd/system/launch-pad-agent.service", renderSystemdUnit p.role (some agentEnvFile))]
  ++ (systemComponentsForRole (nodeRole p.role)).map fun component =>
    ("/etc/systemd/system/" ++ forwarderName component ++ ".service", logForwarderUnit "direct" component)

theorem written_curl (url after : String) : (curlPart url after).written = [] := by
  unfold curlPart
  rw [Part.written]

theorem written_init (p : InitParams) : (bootstrapParts (initBootstrap p)).flatMap (·.written) = (initFiles p).map spelledFile := by
  have hedge : (edgeParts p.architecture p.role).flatMap (·.written) = (if p.role = .app then [] else
      [("/etc/launch-pad/caddy-init.json", caddyInit), ("/etc/systemd/system/caddy.service", caddyUnit)]).map spelledFile := by
    cases p.role <;> rfl
  have hforwarders (components : List SystemComponent) : (components.flatMap forwarderParts).flatMap (·.written) =
      (components.map fun component =>
        ("/etc/systemd/system/" ++ forwarderName component ++ ".service", logForwarderUnit "direct" component)).map spelledFile := by
    induction components with
    | nil => rfl
    | cons c components ih =>
      rw [List.flatMap_cons, List.flatMap_append, ih]
      rfl
  have henable (components : List SystemComponent) : (components.flatMap enableParts).flatMap (·.written) = [] := by
    induction components with
    | nil => rfl
    | cons c components ih =>
      rw [List.flatMap_cons, List.flatMap_append, ih]
      rfl
  have harch : (initBootstrap p).architecture.getD .x86_64 = p.architecture := rfl
  have hrole : (initBootstrap p).role = p.role := rfl
  unfold bootstrapParts initFiles
  simp only [harch, hrole, List.flatMap_append, List.map_append, hedge, hforwarders, henable]
  simp only [List.flatMap_cons, List.flatMap_nil, written_plain, written_doc, written_curl, List.map_cons, List.map_nil, List.nil_append,
    List.append_nil, List.cons_append, List.append_assoc]
  rfl

theorem forwarder_env (component : SystemComponent) :
    "/etc/systemd/system/" ++ forwarderName component ++ ".service" ≠ agentEnvFile := by
  unfold forwarderName
  cases component
  all_goals
    apply ne_of_spelled
    · repeat' first | with_reducible apply Spelled.append | exact Spelled.lit rfl
    · exact Spelled.lit rfl
    · decide

theorem content_config (p : InitParams) :
    content ((initFiles p).map spelledFile) "/etc/launch-pad/agent.json" = some ((agentJson (initConfig p)).toList ++ ['\n']) := by
  have hsplit (xs ys : List (String × String)) (a b : String × String) : xs ++ a :: b :: ys = (xs ++ [a]) ++ b :: ys := by simp
  unfold initFiles
  simp only [List.append_assoc, List.cons_append, List.nil_append]
  rw [hsplit, content_last, String.toList_append, newline_toList]
  intro f hf
  simp only [List.mem_cons, List.mem_map] at hf
  rcases hf with rfl | ⟨component, -, rfl⟩
  · exact ne_of_spelled (Spelled.lit rfl) (Spelled.lit rfl) (by decide)
  · exact forwarder_file component

theorem content_env (p : InitParams) :
    content ((initFiles p).map spelledFile) agentEnvFile = some (credentials (initAws p)).toList := by
  unfold initFiles
  simp only [List.append_assoc, List.cons_append, List.nil_append]
  rw [content_last]
  intro f hf
  simp only [List.mem_cons, List.mem_map] at hf
  rcases hf with rfl | rfl | ⟨component, -, rfl⟩
  · exact ne_of_spelled (Spelled.lit rfl) (Spelled.lit rfl) (by decide)
  · exact ne_of_spelled (Spelled.lit rfl) (Spelled.lit rfl) (by decide)
  · exact forwarder_env component

theorem curl_mem (p : ExternalBootstrapParams) : curlPart p.agentBinaryUrl " -o /opt/launch-pad/agent\n" ∈ bootstrapParts p := by
  simp [bootstrapParts]

theorem shape_curl (url after : String) : (curlPart url after).shape = curlPart "" after := by
  unfold curlPart
  rw [Part.shape]
  rw [String.toList_empty]

theorem shape_init {p p' : InitParams} (hrole : p.role = p'.role) (harch : p.architecture = p'.architecture) :
    commands (script (bootstrapParts (initBootstrap p))) = commands (script (bootstrapParts (initBootstrap p'))) := by
  refine shape_eq rfl rfl ?_
  unfold bootstrapParts initBootstrap
  dsimp only
  rw [hrole, harch]
  simp only [List.map_append, List.map_cons, List.map_nil, shape_plain, shape_doc, shape_curl]

/-- Whatever a server's names and URL are, and whatever one-line credentials AWS made for it: a
    shell reads the script whole, and what it writes is the server's files and no others. Its agent
    has the config that `node init` gave it and the credentials stand in `agent.env` only; the agent
    is fetched from the URL, and no text of these is a command or part of one. -/
theorem enrolled {p : InitParams} (h : OneLine (initAws p)) :
    ∃ ts, read (initScript p).toList = some ts ∧ files [] ts = (initFiles p).map spelledFile ∧
      (content (files [] ts) "/etc/launch-pad/agent.json").bind parseAgentConfig = some (initConfig p) ∧
      content (files [] ts) agentEnvFile = some (credentials (initAws p)).toList ∧ Fetches ts p.presignedUrl ∧
      ∀ p', p'.role = p.role → p'.architecture = p.architecture → OneLine (initAws p') →
        ∃ ts', read (initScript p').toList = some ts' ∧ commands ts' = commands ts := by
  have hfiles : files [] (script (bootstrapParts (initBootstrap p))) = (initFiles p).map spelledFile :=
    (files_parts (sound_bootstrap h)).trans (written_init p)
  refine ⟨script (bootstrapParts (initBootstrap p)), ?_, hfiles, ?_, ?_, fetches_of_mem (curl_mem _), ?_⟩
  · unfold initScript
    rw [renderExternalBootstrap_toList]
    exact read_rendered (sound_bootstrap h)
  · rw [hfiles, content_config p, Option.bind_some]
    exact parse_agentJson (initConfig p) (by simp [JsonValue.Blank, JsonValue.isBlank])
  · rw [hfiles]
    exact content_env p
  · intro p' hrole harch h'
    refine ⟨script (bootstrapParts (initBootstrap p')), ?_, shape_init hrole harch⟩
    unfold initScript
    rw [renderExternalBootstrap_toList]
    exact read_rendered (sound_bootstrap h')

/-- A server without a public address, as a shell reads its script. -/
theorem enrolled_server : ∃ ts, read (initScript
      { nodeId := "attic", bucket := "b", region := "eu-west-1", clusterId := "home", role := .app, architecture := .arm64,
        presignedUrl := "https://b/agent?x='&y=1", accessKeyId := "AKIA", secretAccessKey := "a/b+c" }).toList = some ts ∧
    Fetches ts "https://b/agent?x='&y=1" := by
  obtain ⟨ts, hread, -, -, -, hfetch, -⟩ := @enrolled
    { nodeId := "attic", bucket := "b", region := "eu-west-1", clusterId := "home", role := .app, architecture := .arm64,
      presignedUrl := "https://b/agent?x='&y=1", accessKeyId := "AKIA", secretAccessKey := "a/b+c" }
    ⟨by decide, by decide, by decide⟩
  exact ⟨ts, hread, hfetch⟩

/-! ## The other scripts -/

def updateParts (aws : Aws) : List Part :=
  [plainPart ("#!/bin/bash\nset -euo pipefail\ntouch " ++ agentEnvFile ++ "\nchmod 600 " ++ agentEnvFile ++ "\n"),
   docPart agentEnvFile "AGENTENV" (credentials aws),
   plainPart "systemctl restart launch-pad-agent\nsystemctl is-active --quiet launch-pad-agent\n"]

theorem renderExternalCredentialsUpdate_toList (aws : Aws) :
    (renderExternalCredentialsUpdate aws).toList = rendered (updateParts aws) := by
  unfold renderExternalCredentialsUpdate updateParts
  simp only [rendered_plain, rendered_doc, rendered_nil, String.toList_append, List.append_assoc, List.append_nil]

theorem sound_update {aws : Aws} (h : OneLine aws) : ∀ p ∈ updateParts aws, p.Sound := by
  intro p hp
  simp only [updateParts, List.mem_cons, List.not_mem_nil, or_false] at hp
  rcases hp with rfl | rfl | rfl
  · apply Spelled.quiet
    · repeat' first | with_reducible apply Spelled.append | exact Spelled.lit rfl
    · rfl
  · exact ⟨Spelled.of (P := PlainWord) (Spelled.lit rfl) (by decide),
      Spelled.of (P := PlainWord) (Spelled.lit rfl) (by decide), ended_credentials h⟩
  · exact Spelled.quiet (Spelled.lit rfl) rfl

/-- A change of the credentials writes them, and nothing else. -/
theorem update_read {aws : Aws} (h : OneLine aws) : ∃ ts, read (renderExternalCredentialsUpdate aws).toList = some ts ∧
    files [] ts = [spelledFile (agentEnvFile, credentials aws)] := by
  refine ⟨script (updateParts aws), ?_, ?_⟩
  · rw [renderExternalCredentialsUpdate_toList]
    exact read_rendered (sound_update h)
  · refine (files_parts (sound_update h)).trans ?_
    unfold updateParts
    simp only [List.flatMap_cons, List.flatMap_nil, written_plain, written_doc, List.nil_append, List.append_nil]

def upgradeParts (binaryUrl : String) (role : ProvisionNodeRole) : List Part :=
  [plainPart "#!/bin/bash\nset -euo pipefail\nstaged=\"$(mktemp)\"\n", curlPart binaryUrl " -o \"$staged\"\n",
   plainPart ("sudo install -m 755 \"$staged\" /opt/launch-pad/agent\nrm -f \"$staged\"\n"
      ++ "sudo tee /etc/systemd/system/launch-pad-agent.service > /dev/null <<'UNIT'\n" ++ renderSystemdUnit role none ++ "UNIT\n"
      ++ "sudo rm -f /opt/launch-pad/agent.cjs\n" ++ edgeExtras role
      ++ "sudo systemctl daemon-reload\nsudo systemctl restart launch-pad-agent\nsudo systemctl is-active --quiet launch-pad-agent\n")]

theorem renderRemoteUpgradeScript_toList (binaryUrl : String) (role : ProvisionNodeRole) :
    (renderRemoteUpgradeScript binaryUrl role).toList = rendered (upgradeParts binaryUrl role) := by
  unfold renderRemoteUpgradeScript upgradeParts
  simp only [rendered_plain, rendered_curl, rendered_nil, String.toList_append, List.append_assoc, List.append_nil]

set_option maxRecDepth 20000 in
theorem sound_upgrade (binaryUrl : String) (role : ProvisionNodeRole) : ∀ p ∈ upgradeParts binaryUrl role, p.Sound := by
  intro p hp
  simp only [upgradeParts, List.mem_cons, List.not_mem_nil, or_false] at hp
  rcases hp with rfl | rfl | rfl
  · exact Spelled.of (P := Quiet) (Spelled.lit rfl) (by decide)
  · exact sound_curl (Spelled.lit rfl) (by decide) _
  · unfold renderSystemdUnit
    cases role
    all_goals
      apply Spelled.of (P := Quiet)
      · repeat' first | with_reducible apply Spelled.append | exact Spelled.lit rfl
      · decide

theorem staged_mem (binaryUrl : String) (role : ProvisionNodeRole) :
    curlPart binaryUrl " -o \"$staged\"\n" ∈ upgradeParts binaryUrl role := List.mem_cons_of_mem _ (List.mem_cons_self ..)

/-- An upgrade fetches the URL, and its other commands are the same for all URLs. -/
theorem upgrade_read (binaryUrl : String) (role : ProvisionNodeRole) :
    ∃ ts, read (renderRemoteUpgradeScript binaryUrl role).toList = some ts ∧ Fetches ts binaryUrl ∧
      commands ts = commands (script (upgradeParts "" role)) := by
  refine ⟨script (upgradeParts binaryUrl role), ?_, fetches_of_mem (staged_mem binaryUrl role), ?_⟩
  · rw [renderRemoteUpgradeScript_toList]
    exact read_rendered (sound_upgrade binaryUrl role)
  · refine shape_eq rfl rfl ?_
    simp only [upgradeParts, List.map_cons, List.map_nil, shape_plain, shape_curl]

end LaunchPad.Cli.External
