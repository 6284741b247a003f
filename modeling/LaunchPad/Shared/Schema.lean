/-
  LaunchPad.Shared.Schema — what the CLI accepts as a `desired.json` (`shared/src/desired.ts`
  and the schemas it uses).

  A stored body is `json` when it has the document's shape, defaults filled in and no
  other key, whatever its values; `other` is any other text. `parseDesiredState` accepts a
  body of the right shape whose values the schema accepts.
-/
import LaunchPad.Shared.Keys

namespace LaunchPad

/-! ## Texts -/

/-- `SECRET_KEY_REGEX`: `^[A-Z][A-Z0-9_]*$`. -/
def secretKeyMatches (s : String) : Bool :=
  match s.toList with
  | [] => false
  | c :: cs => c.isUpper && cs.all fun c => c.isUpper || c.isDigit || c == '_'

/-- `DURATION_PATTERN`: `^(\d+)(ms|s|m)$`. -/
def durationMatches (s : String) : Bool :=
  let digits := s.toList.takeWhile Char.isDigit
  let unit := s.toList.dropWhile Char.isDigit
  !digits.isEmpty && (unit == ['m', 's'] || unit == ['s'] || unit == ['m'])

/-- `\d{1,3}`. -/
def octetLike (l : List Char) : Bool := decide (1 ≤ l.length) && decide (l.length ≤ 3) && l.all Char.isDigit

/-- `HOSTNAME_REGEX`: two labels or more, and not an IPv4 address. -/
def hostnameMatches (s : String) : Bool :=
  let labels := s.toList.splitOn '.'
  !(labels.length == 4 && labels.all octetLike) &&
    decide (2 ≤ labels.length) && labels.all (labelLike Char.isAlphanum 63)

/-- `volumePathError`. -/
def volumePathOk (path : String) : Bool :=
  let l := path.toList
  l.head? == some '/' && l != ['/'] && l.getLast? != some '/' && !(l.splitOn '/').contains ['.', '.'] &&
    l.all fun c => c.isAlphanum || c == '.' || c == '_' || c == '-' || c == '/'

/-- `POSTGRES_VERSION_REGEX`: `^[0-9]+(\.[0-9]+)?$`. -/
def postgresVersionMatches (s : String) : Bool :=
  let parts := s.toList.splitOn '.'
  decide (parts.length ≤ 2) && parts.all fun l => !l.isEmpty && l.all Char.isDigit

/-- `LOGICAL_DB_NAME_REGEX`: `^[A-Za-z_][A-Za-z0-9_$]{0,62}$`. -/
def logicalDbNameMatches (s : String) : Bool :=
  match s.toList with
  | [] => false
  | c :: cs => (c.isAlpha || c == '_') && decide (cs.length ≤ 62) && cs.all fun c => c.isAlphanum || c == '_' || c == '$'

/-! ## Records -/

def portOk (port : Int) : Bool := decide (1 ≤ port) && decide (port ≤ 65535)

def ingressSchema (i : Ingress) : Bool := hostnameMatches i.domain && portOk i.port && i.edge != ""

def healthCheckSchema (h : HealthCheck) : Bool :=
  hasPrefix "/" h.path && h.port.all portOk && decide (0 < h.intervalMs) && decide (0 < h.timeoutMs) &&
    decide (0 < h.healthyThreshold)

def rolloutSchema (r : Rollout) : Bool :=
  decide (1 ≤ r.maxSurge) && durationMatches r.drainTimeout && durationMatches r.stopGrace

def secretRefSchema (r : SecretRef) : Bool := secretKeyMatches r.name && r.ssm != ""

def volumeDeclSchema (v : VolumeDecl) : Bool := labelMatches v.name && volumePathOk v.path

def serviceDatabaseSchema (d : ServiceDatabase) : Bool :=
  d.engine == "postgres" && postgresVersionMatches d.version && d.databases.all logicalDbNameMatches

def serviceBackupConfigSchema (b : ServiceBackupConfig) : Bool :=
  b.schedule != "" && decide (1 ≤ b.retentionDays) && b.bucket != "" && b.keyPrefix != ""

def jobRunRequestSchema (j : JobRunRequest) : Bool := j.id != "" && j.requestedAt != ""

def serviceConfigSchema (c : ServiceConfig) : Bool :=
  c.project != "" && c.service != "" && c.image != "" && decide (0 < c.cpu) && decide (0 < c.memory) &&
    decide (1 ≤ c.replicas) && c.secretRefs.all secretRefSchema && c.cron.all (· != "") &&
    c.ingress.all ingressSchema && c.healthCheck.all healthCheckSchema && rolloutSchema c.rollout &&
    c.volumes.all volumeDeclSchema && c.database.all serviceDatabaseSchema &&
    c.backup.all serviceBackupConfigSchema && c.jobRun.all jobRunRequestSchema

def desiredStateSchema (d : DesiredState) : Bool :=
  d.version == protocolVersion && d.nodeId != "" && d.services.all serviceConfigSchema

/-! ## Parsing -/

/-- An object's body. -/
inductive Raw (α : Type) where
  | json (value : α)
  | other (body : String)
  deriving DecidableEq, Repr

def parseDesiredState : Raw DesiredState → Option DesiredState
  | .json d => if desiredStateSchema d then some d else none
  | .other _ => none

/-- An empty document when the body is legacy or corrupt. -/
def parseDesiredStateOrEmpty (nodeId : String) (raw : Raw DesiredState) (now : String) : DesiredState :=
  (parseDesiredState raw).getD (emptyDesiredState nodeId now)

theorem parseDesiredState_eq_some {raw : Raw DesiredState} {d : DesiredState} :
    parseDesiredState raw = some d ↔ raw = .json d ∧ desiredStateSchema d = true := by
  cases raw with
  | json d' =>
    simp only [parseDesiredState]
    split
    · rename_i h
      constructor
      · intro e; cases e; exact ⟨rfl, h⟩
      · intro ⟨e, _⟩; cases e; rfl
    · rename_i h
      constructor
      · intro e; cases e
      · intro ⟨e, hd⟩; cases e; exact absurd hd h
  | other body => simp [parseDesiredState]

/-- The numbers of an accepted service. -/
structure Sized (c : ServiceConfig) : Prop where
  cpu : 0 < c.cpu
  memory : 0 < c.memory
  replicas : 1 ≤ c.replicas
  maxSurge : 1 ≤ c.rollout.maxSurge

theorem serviceConfigSchema_sized {c : ServiceConfig} (h : serviceConfigSchema c = true) : Sized c := by
  simp only [serviceConfigSchema, rolloutSchema, Bool.and_eq_true, decide_eq_true_eq] at h
  obtain ⟨⟨⟨⟨⟨⟨⟨⟨⟨⟨⟨⟨⟨⟨_, _⟩, _⟩, hcpu⟩, hmem⟩, hrep⟩, _⟩, _⟩, _⟩, _⟩, ⟨⟨hsurge, _⟩, _⟩⟩, _⟩, _⟩, _⟩, _⟩ := h
  exact ⟨hcpu, hmem, hrep, hsurge⟩

/-- The durations of an accepted service. -/
theorem serviceConfigSchema_rollout {c : ServiceConfig} (h : serviceConfigSchema c = true) :
    durationMatches c.rollout.drainTimeout = true ∧ durationMatches c.rollout.stopGrace = true := by
  simp only [serviceConfigSchema, rolloutSchema, Bool.and_eq_true, decide_eq_true_eq] at h
  obtain ⟨⟨⟨⟨⟨_, ⟨_, hdrain⟩, hstop⟩, _⟩, _⟩, _⟩, _⟩ := h
  exact ⟨hdrain, hstop⟩

theorem parsed_sized {raw : Raw DesiredState} {d : DesiredState} (h : parseDesiredState raw = some d)
    {c : ServiceConfig} (hc : c ∈ d.services) : Sized c := by
  have hs := (parseDesiredState_eq_some.mp h).2
  simp only [desiredStateSchema, Bool.and_eq_true, List.all_eq_true] at hs
  exact serviceConfigSchema_sized (hs.2 c hc)

end LaunchPad
