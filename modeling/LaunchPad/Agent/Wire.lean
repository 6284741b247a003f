/-
  LaunchPad.Agent.Wire — `desired.json` between the two languages: as the CLI writes it
  (`JSON.stringify` of a document that `DesiredStateSchema` accepts) and as the agent reads
  it (`agent-rust/src/types.rs` `parse_desired_state`, with serde's rules for its records).

  The schema's integers are doubles of any size, and its durations have any number of
  digits; the agent has 64 bits for both.

  Proved:
  - `serviceConfig_reads`, `desiredState_reads`: when the agent takes what was written,
    whatever keys are left to their defaults, with the values the two sides share.
  - `duration_agrees_iff`: when a duration has the same length on both sides.
  - `wire_agrees_iff`: exactly when both sides have the same document.
  - `number_refused`: one service whose number is too large stops the whole document.
-/
import LaunchPad.Agent.Apply
import LaunchPad.Lib.Double
import LaunchPad.Shared.Schema

namespace LaunchPad.Agent

open Lib

/-! ## JSON -/

/-- A number as it stands in a text: a whole numeral, or one with a fraction or an exponent. -/
inductive Numeral where
  | int (n : Int)
  | float
  deriving DecidableEq, Repr

inductive Json where
  | null
  | bool (b : Bool)
  | num (x : Numeral)
  | str (s : String)
  | arr (items : List Json)
  | obj (fields : List (String × Json))

/-! ## As the CLI writes it -/

/-- `JSON.stringify` of a number that is whole: its shortest numeral, with an exponent from
    1e21 on. -/
def stringifyNumber (n : Int) : Numeral :=
  if n.natAbs < 10 ^ 21 then .int (n.sign * Double.shortest n.natAbs) else .float

def numberJson (n : Int) : Json := .num (stringifyNumber n)

/-- `Number` of a duration's digits. -/
def durationDigits (duration : String) : Nat :=
  (duration.toList.takeWhile Char.isDigit).foldl (fun n c => n * 10 + (c.toNat - '0'.toNat)) 0

def durationUnit (duration : String) : Nat :=
  match String.ofList (duration.toList.dropWhile Char.isDigit) with
  | "ms" => 1
  | "s" => 1000
  | "m" => 60000
  | _ => 0

/-- `parseDurationMs` (`shared/src/health.ts`), in doubles; none is `Infinity`. -/
def cliDurationMs (duration : String) : Option Nat :=
  (Double.ofNat (durationDigits duration)).bind fun n => Double.ofNat (n * durationUnit duration)

/-! ## As the agent reads it -/

/-- The value of a key. A second one of the same name is an error (`none`). -/
def fieldOf (key : String) (fields : List (String × Json)) : Option (Option Json) :=
  match fields.filter (·.1 = key) with
  | [] => some none
  | [e] => some (some e.2)
  | _ => none

def i64Of : Json → Option Int
  | .num (.int n) => if -0x8000000000000000 ≤ n ∧ n ≤ i64Max then some n else none
  | _ => none

def stringOf : Json → Option String
  | .str s => some s
  | _ => none

def vecOf {α : Type} (f : Json → Option α) : Json → Option (List α)
  | .arr items => items.mapM f
  | _ => none

def optionOf {α : Type} (f : Json → Option α) : Json → Option (Option α)
  | .null => some none
  | j => (f j).map some

/-- `BTreeMap<String, String>`. -/
def mapOf : Json → Option (List (String × String))
  | .obj fields => (fields.mapM fun e => (stringOf e.2).map fun s => (e.1, s)).map fun pairs =>
      pairs.foldl (fun m e => SortedMap.insert e.1 e.2 m) []
  | _ => none

section Fields

variable {α : Type} (key : String) (f : Json → Option α)

/-- A field that must be there. -/
def required (fields : List (String × Json)) : Option α := (fieldOf key fields).bind fun o => o.bind f

/-- `#[serde(default)]`. -/
def defaulted (value : α) (fields : List (String × Json)) : Option α :=
  (fieldOf key fields).bind fun
    | none => some value
    | some j => f j

/-- An `Option` field: absent and `null` are alike. -/
def optional (fields : List (String × Json)) : Option (Option α) := defaulted key (optionOf f) none fields

end Fields

/-- A record is read from an object; keys it does not know are passed over. -/
def recordOf {α : Type} (f : List (String × Json) → Option α) : Json → Option α
  | .obj fields => f fields
  | _ => none

def ingressOf : Json → Option Ingress := recordOf fun o => do
  let domain ← required "domain" stringOf o
  let port ← required "port" i64Of o
  let edge ← required "edge" stringOf o
  return { domain, port, edge }

def healthCheckOf : Json → Option HealthCheck := recordOf fun o => do
  let path ← required "path" stringOf o
  let port ← optional "port" i64Of o
  let intervalMs ← defaulted "intervalMs" i64Of 2000 o
  let timeoutMs ← defaulted "timeoutMs" i64Of 2000 o
  let healthyThreshold ← defaulted "healthyThreshold" i64Of 2 o
  return { path, port, intervalMs, timeoutMs, healthyThreshold }

def rolloutOf : Json → Option Rollout := recordOf fun o => do
  let maxSurge ← defaulted "maxSurge" i64Of 1 o
  let drainTimeout ← defaulted "drainTimeout" stringOf "20s" o
  let stopGrace ← defaulted "stopGrace" stringOf "30s" o
  return { maxSurge, drainTimeout, stopGrace }

def secretRefOf : Json → Option SecretRef := recordOf fun o => do
  let name ← required "name" stringOf o
  let ssm ← required "ssm" stringOf o
  return { name, ssm }

def volumeDeclOf : Json → Option VolumeDecl := recordOf fun o => do
  let name ← required "name" stringOf o
  let path ← required "path" stringOf o
  return { name, path }

def serviceDatabaseOf : Json → Option ServiceDatabase := recordOf fun o => do
  let engine ← required "engine" stringOf o
  let version ← required "version" stringOf o
  let databases ← defaulted "databases" (vecOf stringOf) [] o
  return { engine, version, databases }

def serviceBackupConfigOf : Json → Option ServiceBackupConfig := recordOf fun o => do
  let schedule ← required "schedule" stringOf o
  let retentionDays ← required "retentionDays" i64Of o
  let bucket ← required "bucket" stringOf o
  let keyPrefix ← required "prefix" stringOf o
  return { schedule, retentionDays, bucket, keyPrefix }

def jobRunRequestOf : Json → Option JobRunRequest := recordOf fun o => do
  let id ← required "id" stringOf o
  let requestedAt ← required "requestedAt" stringOf o
  return { id, requestedAt }

def serviceConfigOf : Json → Option ServiceConfig := recordOf fun o => do
  let project ← required "project" stringOf o
  let service ← required "service" stringOf o
  let image ← required "image" stringOf o
  let cpu ← required "cpu" i64Of o
  let memory ← required "memory" i64Of o
  let replicas ← defaulted "replicas" i64Of 1 o
  let env ← defaulted "env" mapOf [] o
  let secretRefs ← defaulted "secretRefs" (vecOf secretRefOf) [] o
  let restartAt ← optional "restartAt" stringOf o
  let cron ← optional "cron" stringOf o
  let ingress ← optional "ingress" ingressOf o
  let healthCheck ← optional "healthCheck" healthCheckOf o
  let rollout ← defaulted "rollout" rolloutOf {} o
  let volumes ← defaulted "volumes" (vecOf volumeDeclOf) [] o
  let database ← optional "database" serviceDatabaseOf o
  let backup ← optional "backup" serviceBackupConfigOf o
  let jobRun ← optional "jobRun" jobRunRequestOf o
  return { project, service, image, cpu, memory, replicas, env, secretRefs, restartAt, cron, ingress, healthCheck,
           rollout, volumes, database, backup, jobRun }

def desiredStateOf : Json → Option DesiredState := recordOf fun o => do
  let version ← required "version" i64Of o
  let nodeId ← required "nodeId" stringOf o
  let updatedAt ← required "updatedAt" stringOf o
  let services ← defaulted "services" (vecOf serviceConfigOf) [] o
  return { version, nodeId, updatedAt, services }

inductive ParseError where
  /-- What serde says is not modelled. -/
  | serde
  | unsupportedVersion (version : Int)
  deriving DecidableEq, Repr

def ParseError.message (serde : String) : ParseError → String
  | .serde => serde
  | .unsupportedVersion version =>
    "unsupported desired.json version " ++ toString version ++ " (expected " ++ toString protocolVersion ++ ")"

/-- `parse_desired_state`. -/
def parseDesiredState (json : Json) : Except ParseError DesiredState :=
  match desiredStateOf json with
  | none => .error .serde
  | some desired => if desired.version ≠ protocolVersion then .error (.unsupportedVersion desired.version) else .ok desired

/-! ## A value and the text written for it -/

section Written

variable {α : Type} (key : String) (W : α → Json → Prop) (fields : List (String × Json))

/-- The key is there once, with the value. -/
def Field (x : α) : Prop := ∃ j, fields.filter (·.1 = key) = [(key, j)] ∧ W x j

def Absent : Prop := fields.filter (·.1 = key) = []

/-- A value that is the schema's default may be left out. -/
def FieldOr (value : α) (x : α) : Prop := Field key W fields x ∨ (Absent key fields ∧ x = value)

/-- One that is not there is left out, or `null`. -/
def FieldOpt : Option α → Prop
  | some x => Field key W fields x
  | none => Absent key fields ∨ Field key (fun (_ : Unit) j => j = .null) fields ()

end Written

def StringJson (s : String) (j : Json) : Prop := j = .str s

/-- A number of the CLI is a double. -/
def NumberJson (n : Int) (j : Json) : Prop := Double.IsDouble n.natAbs ∧ j = numberJson n

def ArrayJson {α : Type} (W : α → Json → Prop) (l : List α) (j : Json) : Prop :=
  ∃ items, j = .arr items ∧ List.Forall₂ W l items

/-- A record's pairs, in whatever order; the model keeps them by key. -/
def MapJson (m : List (String × String)) (j : Json) : Prop :=
  ∃ pairs : List (String × String), j = .obj (pairs.map fun e => (e.1, .str e.2)) ∧
    m = pairs.foldl (fun m e => SortedMap.insert e.1 e.2 m) []

def RecordJson {α : Type} (R : α → List (String × Json) → Prop) (x : α) (j : Json) : Prop := ∃ fields, j = .obj fields ∧ R x fields

structure IngressFields (i : Ingress) (o : List (String × Json)) : Prop where
  domain : Field "domain" StringJson o i.domain
  port : Field "port" NumberJson o i.port
  edge : Field "edge" StringJson o i.edge

structure HealthCheckFields (h : HealthCheck) (o : List (String × Json)) : Prop where
  path : Field "path" StringJson o h.path
  port : FieldOpt "port" NumberJson o h.port
  intervalMs : FieldOr "intervalMs" NumberJson o 2000 h.intervalMs
  timeoutMs : FieldOr "timeoutMs" NumberJson o 2000 h.timeoutMs
  healthyThreshold : FieldOr "healthyThreshold" NumberJson o 2 h.healthyThreshold

structure RolloutFields (r : Rollout) (o : List (String × Json)) : Prop where
  maxSurge : FieldOr "maxSurge" NumberJson o 1 r.maxSurge
  drainTimeout : FieldOr "drainTimeout" StringJson o "20s" r.drainTimeout
  stopGrace : FieldOr "stopGrace" StringJson o "30s" r.stopGrace

structure SecretRefFields (r : SecretRef) (o : List (String × Json)) : Prop where
  name : Field "name" StringJson o r.name
  ssm : Field "ssm" StringJson o r.ssm

structure VolumeDeclFields (v : VolumeDecl) (o : List (String × Json)) : Prop where
  name : Field "name" StringJson o v.name
  path : Field "path" StringJson o v.path

structure ServiceDatabaseFields (d : ServiceDatabase) (o : List (String × Json)) : Prop where
  engine : Field "engine" StringJson o d.engine
  version : Field "version" StringJson o d.version
  databases : FieldOr "databases" (ArrayJson StringJson) o [] d.databases

structure ServiceBackupConfigFields (b : ServiceBackupConfig) (o : List (String × Json)) : Prop where
  schedule : Field "schedule" StringJson o b.schedule
  retentionDays : Field "retentionDays" NumberJson o b.retentionDays
  bucket : Field "bucket" StringJson o b.bucket
  keyPrefix : Field "prefix" StringJson o b.keyPrefix

structure JobRunRequestFields (r : JobRunRequest) (o : List (String × Json)) : Prop where
  id : Field "id" StringJson o r.id
  requestedAt : Field "requestedAt" StringJson o r.requestedAt

structure ServiceConfigFields (c : ServiceConfig) (o : List (String × Json)) : Prop where
  project : Field "project" StringJson o c.project
  service : Field "service" StringJson o c.service
  image : Field "image" StringJson o c.image
  cpu : Field "cpu" NumberJson o c.cpu
  memory : Field "memory" NumberJson o c.memory
  replicas : FieldOr "replicas" NumberJson o 1 c.replicas
  env : FieldOr "env" MapJson o [] c.env
  secretRefs : FieldOr "secretRefs" (ArrayJson (RecordJson SecretRefFields)) o [] c.secretRefs
  restartAt : FieldOpt "restartAt" StringJson o c.restartAt
  cron : FieldOpt "cron" StringJson o c.cron
  ingress : FieldOpt "ingress" (RecordJson IngressFields) o c.ingress
  healthCheck : FieldOpt "healthCheck" (RecordJson HealthCheckFields) o c.healthCheck
  rollout : FieldOr "rollout" (RecordJson RolloutFields) o {} c.rollout
  volumes : FieldOr "volumes" (ArrayJson (RecordJson VolumeDeclFields)) o [] c.volumes
  database : FieldOpt "database" (RecordJson ServiceDatabaseFields) o c.database
  backup : FieldOpt "backup" (RecordJson ServiceBackupConfigFields) o c.backup
  jobRun : FieldOpt "jobRun" (RecordJson JobRunRequestFields) o c.jobRun

structure DesiredStateFields (d : DesiredState) (o : List (String × Json)) : Prop where
  version : Field "version" NumberJson o d.version
  nodeId : Field "nodeId" StringJson o d.nodeId
  updatedAt : Field "updatedAt" StringJson o d.updatedAt
  services : Field "services" (ArrayJson (RecordJson ServiceConfigFields)) o d.services

/-- The text is one that the CLI writes for the document. -/
def DesiredJson (d : DesiredState) (j : Json) : Prop := RecordJson DesiredStateFields d j

/-! ## Numbers -/

/-- Written as a numeral that the agent takes. -/
def Accepted (n : Int) : Prop :=
  n.natAbs < 10 ^ 21 ∧ -0x8000000000000000 ≤ n.sign * Double.shortest n.natAbs ∧
    n.sign * Double.shortest n.natAbs ≤ i64Max

/-- Written with its own digits, and within 64 bits. -/
structure Faithful (n : Int) : Prop where
  digits : Double.shortest n.natAbs = n.natAbs
  min : -0x8000000000000000 ≤ n
  max : n ≤ i64Max

theorem faithful_of_safe {n : Int} (h : n.natAbs < 2 ^ 53) : Faithful n := by
  refine ⟨Double.shortest_of_lt h, ?_, ?_⟩
  · omega
  · unfold i64Max
    omega

theorem faithful_iff {n : Int} : Faithful n ↔ Accepted n ∧ n.sign * Double.shortest n.natAbs = n := by
  constructor
  · intro ⟨hdigits, hmin, hmax⟩
    have hself : n.sign * (Double.shortest n.natAbs : Int) = n := by
      rw [hdigits, Int.sign_mul_natAbs]
    refine ⟨⟨?_, hself.symm ▸ hmin, hself.symm ▸ hmax⟩, hself⟩
    unfold i64Max at hmax
    omega
  · intro ⟨⟨_, hmin, hmax⟩, hself⟩
    refine ⟨?_, hself ▸ hmin, hself ▸ hmax⟩
    have habs := congrArg Int.natAbs hself
    rw [Int.natAbs_mul, Int.natAbs_natCast] at habs
    by_cases hzero : n = 0
    · subst hzero
      decide +kernel
    · rwa [Int.natAbs_sign_of_ne_zero hzero, Nat.one_mul] at habs

/-- What the agent reads for a number. -/
theorem i64Of_number {n m : Int} :
    i64Of (numberJson n) = some m ↔ Accepted n ∧ m = n.sign * Double.shortest n.natAbs := by
  unfold numberJson stringifyNumber i64Of Accepted
  by_cases hsize : n.natAbs < 10 ^ 21
  · rw [if_pos hsize]
    simp only [Option.ite_none_right_eq_some, Option.some.injEq]
    constructor
    · intro ⟨hbounds, hm⟩
      exact ⟨⟨hsize, hbounds⟩, hm.symm⟩
    · intro ⟨⟨_, hbounds⟩, hm⟩
      exact ⟨hbounds, hm.symm⟩
  · rw [if_neg hsize]
    constructor
    · intro h
      cases h
    · intro ⟨⟨h, _⟩, _⟩
      exact absurd h hsize

/-! ## Field by field -/

/-- What is written is read as a value that stands in a relation to it exactly when the
    condition holds. -/
def ReadsAs {α : Type} (f : Json → Option α) (W : α → Json → Prop) (R : α → α → Prop) (P : α → Prop) : Prop :=
  ∀ x j, W x j → ((∃ y, f j = some y ∧ R x y) ↔ P x)

/-- What is written is read back exactly when the condition holds. -/
def Reads {α : Type} (f : Json → Option α) (W : α → Json → Prop) (P : α → Prop) : Prop := ReadsAs f W Eq P

section Reads

variable {α : Type} {f : Json → Option α} {W : α → Json → Prop} {R : α → α → Prop} {P : α → Prop} {key : String}
  {o : List (String × Json)}

theorem reads_iff : Reads f W P ↔ ∀ x j, W x j → (f j = some x ↔ P x) := by
  simp [Reads, ReadsAs]

theorem string_reads : Reads stringOf StringJson fun _ => True := by
  rw [reads_iff]
  rintro s j rfl
  simp [stringOf]

theorem number_reads : Reads i64Of NumberJson Faithful := by
  rw [reads_iff]
  rintro n j ⟨_, rfl⟩
  rw [i64Of_number, faithful_iff, eq_comm (a := n)]

theorem number_accepted : ReadsAs i64Of NumberJson (fun _ _ => True) Accepted := by
  rintro n j ⟨_, rfl⟩
  simp [i64Of_number]

theorem map_reads : Reads mapOf MapJson fun _ => True := by
  rw [reads_iff]
  rintro m j ⟨pairs, rfl, rfl⟩
  have hpairs : ((pairs.map fun e => (e.1, Json.str e.2)).mapM fun e => (stringOf e.2).map fun s => (e.1, s)) = some pairs := by
    induction pairs with
    | nil => rfl
    | cons e pairs ih =>
      rw [List.map_cons, List.mapM_cons, ih]
      rfl
  simp [mapOf, hpairs]

theorem vec_readsAs (h : ReadsAs f W R P) :
    ReadsAs (vecOf f) (ArrayJson W) (List.Forall₂ R) fun l => ∀ x ∈ l, P x := by
  rintro l j ⟨items, rfl, hitems⟩
  simp only [vecOf]
  induction hitems with
  | nil => simp
  | @cons x item l items hx _ ih =>
    rw [List.mapM_cons, List.forall_mem_cons, ← ih, ← h x item hx]
    simp only [bind, Option.bind_eq_some_iff, pure, Option.some.injEq]
    constructor
    · rintro ⟨_, ⟨y, hy, ys, hys, rfl⟩, hall⟩
      cases hall with
      | cons hxy hrest => exact ⟨⟨y, hy, hxy⟩, ys, hys, hrest⟩
    · rintro ⟨⟨y, hy, hxy⟩, ys, hys, hrest⟩
      exact ⟨y :: ys, ⟨y, hy, ys, hys, rfl⟩, .cons hxy hrest⟩

theorem vec_reads (h : Reads f W P) : Reads (vecOf f) (ArrayJson W) fun l => ∀ x ∈ l, P x := by
  have := vec_readsAs h
  rwa [List.forall₂_eq_eq_eq] at this

theorem record_readsAs {Q : α → List (String × Json) → Prop} {g : List (String × Json) → Option α}
    (h : ∀ x o, Q x o → ((∃ y, g o = some y ∧ R x y) ↔ P x)) : ReadsAs (recordOf g) (RecordJson Q) R P := by
  rintro x j ⟨o, rfl, hx⟩
  exact h x o hx

theorem record_reads {Q : α → List (String × Json) → Prop} {g : List (String × Json) → Option α}
    (h : ∀ x o, Q x o → (g o = some x ↔ P x)) : Reads (recordOf g) (RecordJson Q) P := by
  rw [reads_iff]
  rintro x j ⟨o, rfl, hx⟩
  exact h x o hx

theorem fieldOf_absent (h : Absent key o) : fieldOf key o = some none := by
  unfold fieldOf
  rw [h]

theorem fieldOf_there {j : Json} (h : o.filter (·.1 = key) = [(key, j)]) : fieldOf key o = some (some j) := by
  unfold fieldOf
  rw [h]

theorem required_readsAs (h : ReadsAs f W R P) {x : α} (hx : Field key W o x) :
    (∃ y, required key f o = some y ∧ R x y) ↔ P x := by
  obtain ⟨j, hj, hw⟩ := hx
  unfold required
  rw [fieldOf_there hj]
  exact h x j hw

theorem required_reads (h : Reads f W P) {x : α} (hx : Field key W o x) : required key f o = some x ↔ P x := by
  simpa using required_readsAs h hx

theorem defaulted_readsAs (h : ReadsAs f W R P) {x value : α} (hvalue : P value) (hsame : R value value)
    (hx : FieldOr key W o value x) : (∃ y, defaulted key f value o = some y ∧ R x y) ↔ P x := by
  unfold defaulted
  rcases hx with ⟨j, hj, hw⟩ | ⟨habsent, rfl⟩
  · rw [fieldOf_there hj]
    exact h x j hw
  · rw [fieldOf_absent habsent]
    simp [hvalue, hsame]

theorem defaulted_reads (h : Reads f W P) {x value : α} (hvalue : P value) (hx : FieldOr key W o value x) :
    defaulted key f value o = some x ↔ P x := by
  simpa using defaulted_readsAs h hvalue rfl hx

theorem optional_readsAs (h : ReadsAs f W R P) (hnull : f .null = none) {x : Option α} (hx : FieldOpt key W o x) :
    (∃ y, optional key f o = some y ∧ Option.Rel R x y) ↔ ∀ a ∈ x, P a := by
  unfold optional defaulted
  cases x with
  | none =>
    rcases hx with habsent | ⟨j, hj, rfl⟩
    · rw [fieldOf_absent habsent]
      simp
    · rw [fieldOf_there hj]
      simp [optionOf]
  | some a =>
    obtain ⟨j, hj, hw⟩ := hx
    have hall : (∀ b ∈ some a, P b) ↔ P a := by
      simp
    rw [fieldOf_there hj, Option.bind_some, hall, ← h a j hw]
    dsimp only
    constructor
    · rintro ⟨_, hread, @⟨_, y, hr⟩⟩
      refine ⟨y, ?_, hr⟩
      cases j
      · cases hread
      all_goals simpa [optionOf] using hread
    · rintro ⟨y, hread, hr⟩
      refine ⟨some y, ?_, .some hr⟩
      cases j
      · rw [hnull] at hread
        cases hread
      all_goals simp [optionOf, hread]

theorem optional_reads (h : Reads f W P) (hnull : f .null = none) {x : Option α} (hx : FieldOpt key W o x) :
    optional key f o = some x ↔ ∀ a ∈ x, P a := by
  rw [← optional_readsAs h hnull hx]
  constructor
  · intro hread
    refine ⟨x, hread, ?_⟩
    cases x
    · exact .none
    · exact .some rfl
  · rintro ⟨y, hread, hrel⟩
    cases hrel with
    | none => exact hread
    | some hr => exact hr ▸ hread

/-- A value that is there and read at all. -/
theorem optional_accepted (h : ReadsAs f W (fun _ _ => True) P) (hnull : ∀ a, ¬W a .null) {x : Option α}
    (hx : FieldOpt key W o x) {y : Option α} (hread : optional key f o = some y) : ∀ a ∈ x, P a := by
  rintro a rfl
  obtain ⟨j, hj, hw⟩ := hx
  rw [← h a j hw]
  unfold optional defaulted at hread
  rw [fieldOf_there hj, Option.bind_some] at hread
  have hmap : (f j).map some = some y := by
    cases j
    · exact absurd hw (hnull a)
    all_goals exact hread
  obtain ⟨b, hb, _⟩ := Option.map_eq_some_iff.mp hmap
  exact ⟨b, hb, trivial⟩

end Reads

/-! ## Record by record -/

section Records

variable {o : List (String × Json)}

theorem bind_some {α β : Type} {x : Option α} {f : α → Option β} {a : α} {b : β} (hx : x = some a) (hf : f a = some b) :
    x.bind f = some b := by
  rw [hx]
  exact hf

theorem ingress_reads : Reads ingressOf (RecordJson IngressFields) fun i => Faithful i.port := by
  refine record_reads fun i o h => ?_
  simp only [bind, Option.bind_eq_some_iff, pure, Option.some.injEq]
  constructor
  · rintro ⟨_, _, port, hport, _, _, rfl⟩
    exact (required_reads number_reads h.port).mp hport
  · intro hport
    exact ⟨_, (required_reads string_reads h.domain).mpr trivial, _, (required_reads number_reads h.port).mpr hport,
      _, (required_reads string_reads h.edge).mpr trivial, rfl⟩

/-- The numbers of a health check. -/
def healthNumbers (h : HealthCheck) : List Int := h.port.toList ++ [h.intervalMs, h.timeoutMs, h.healthyThreshold]

theorem faithful_defaults : Faithful 1 ∧ Faithful 2 ∧ Faithful 2000 :=
  ⟨faithful_of_safe (by decide), faithful_of_safe (by decide), faithful_of_safe (by decide)⟩

theorem healthCheck_reads : Reads healthCheckOf (RecordJson HealthCheckFields) fun h => ∀ n ∈ healthNumbers h, Faithful n := by
  refine record_reads fun hc o h => ?_
  obtain ⟨_, htwo, hinterval⟩ := faithful_defaults
  simp only [bind, Option.bind_eq_some_iff, pure, Option.some.injEq]
  constructor
  · rintro ⟨_, _, port, hport, intervalMs, hi, timeoutMs, ht, healthyThreshold, hth, rfl⟩
    have hport := (optional_reads number_reads rfl h.port).mp hport
    have hi := (defaulted_reads number_reads hinterval h.intervalMs).mp hi
    have ht := (defaulted_reads number_reads hinterval h.timeoutMs).mp ht
    have hth := (defaulted_reads number_reads htwo h.healthyThreshold).mp hth
    simp only [healthNumbers, List.mem_append, Option.mem_toList, List.mem_cons, List.not_mem_nil, or_false]
    rintro n (hn | rfl | rfl | rfl)
    · exact hport n hn
    · exact hi
    · exact ht
    · exact hth
  · intro hall
    simp only [healthNumbers, List.mem_append, Option.mem_toList, List.mem_cons, List.not_mem_nil, or_false] at hall
    exact ⟨_, (required_reads string_reads h.path).mpr trivial,
      _, (optional_reads number_reads rfl h.port).mpr fun n hn => hall n (.inl hn),
      _, (defaulted_reads number_reads hinterval h.intervalMs).mpr (hall _ (.inr (.inl rfl))),
      _, (defaulted_reads number_reads hinterval h.timeoutMs).mpr (hall _ (.inr (.inr (.inl rfl)))),
      _, (defaulted_reads number_reads htwo h.healthyThreshold).mpr (hall _ (.inr (.inr (.inr rfl)))), rfl⟩

/-- The two durations of a rollout. -/
structure SameDurations (r r' : Rollout) : Prop where
  drainTimeout : r'.drainTimeout = r.drainTimeout
  stopGrace : r'.stopGrace = r.stopGrace

theorem rollout_reads : ReadsAs rolloutOf (RecordJson RolloutFields) SameDurations fun r => Accepted r.maxSurge := by
  refine record_readsAs fun r o h => ?_
  have hone := (faithful_iff.mp faithful_defaults.1).1
  have hdrain := (defaulted_reads string_reads trivial h.drainTimeout).mpr trivial
  have hstop := (defaulted_reads string_reads trivial h.stopGrace).mpr trivial
  simp only [bind, Option.bind_eq_some_iff, pure, Option.some.injEq]
  constructor
  · rintro ⟨_, ⟨maxSurge, hmax, _⟩, _⟩
    exact (defaulted_readsAs number_accepted hone trivial h.maxSurge).mp ⟨maxSurge, hmax, trivial⟩
  · intro hmax
    obtain ⟨maxSurge, hmax, _⟩ := (defaulted_readsAs number_accepted hone trivial h.maxSurge).mpr hmax
    exact ⟨_, ⟨maxSurge, hmax, _, hdrain, _, hstop, rfl⟩, rfl, rfl⟩

theorem secretRef_reads : Reads secretRefOf (RecordJson SecretRefFields) fun _ => True := by
  refine record_reads fun r o h => ?_
  simp only [bind, Option.bind_eq_some_iff, pure, Option.some.injEq, iff_true]
  exact ⟨_, (required_reads string_reads h.name).mpr trivial, _, (required_reads string_reads h.ssm).mpr trivial, rfl⟩

theorem volumeDecl_reads : Reads volumeDeclOf (RecordJson VolumeDeclFields) fun _ => True := by
  refine record_reads fun v o h => ?_
  simp only [bind, Option.bind_eq_some_iff, pure, Option.some.injEq, iff_true]
  exact ⟨_, (required_reads string_reads h.name).mpr trivial, _, (required_reads string_reads h.path).mpr trivial, rfl⟩

theorem serviceDatabase_reads : Reads serviceDatabaseOf (RecordJson ServiceDatabaseFields) fun _ => True := by
  refine record_reads fun d o h => ?_
  simp only [bind, Option.bind_eq_some_iff, pure, Option.some.injEq, iff_true]
  exact ⟨_, (required_reads string_reads h.engine).mpr trivial, _, (required_reads string_reads h.version).mpr trivial,
    _, (defaulted_reads (vec_reads string_reads) (fun _ _ => trivial) h.databases).mpr fun _ _ => trivial, rfl⟩

theorem serviceBackupConfig_accepted :
    ReadsAs serviceBackupConfigOf (RecordJson ServiceBackupConfigFields) (fun _ _ => True) fun b =>
      Accepted b.retentionDays := by
  refine record_readsAs fun b o h => ?_
  simp only [bind, Option.bind_eq_some_iff, pure, Option.some.injEq]
  constructor
  · rintro ⟨_, ⟨_, _, retentionDays, hdays, _⟩, _⟩
    exact (required_readsAs number_accepted h.retentionDays).mp ⟨retentionDays, hdays, trivial⟩
  · intro hdays
    obtain ⟨retentionDays, hdays, _⟩ := (required_readsAs number_accepted h.retentionDays).mpr hdays
    exact ⟨_, ⟨_, (required_reads string_reads h.schedule).mpr trivial, retentionDays, hdays,
      _, (required_reads string_reads h.bucket).mpr trivial,
      _, (required_reads string_reads h.keyPrefix).mpr trivial, rfl⟩, trivial⟩

theorem jobRunRequest_reads : Reads jobRunRequestOf (RecordJson JobRunRequestFields) fun _ => True := by
  refine record_reads fun r o h => ?_
  simp only [bind, Option.bind_eq_some_iff, pure, Option.some.injEq, iff_true]
  exact ⟨_, (required_reads string_reads h.id).mpr trivial, _, (required_reads string_reads h.requestedAt).mpr trivial, rfl⟩

/-- What the two sides have to have in common. -/
structure SameService (c c' : ServiceConfig) : Prop where
  key : c'.project = c.project ∧ c'.service = c.service
  image : c'.image = c.image
  replicas : c'.replicas = c.replicas
  ingress : c'.ingress = c.ingress
  healthCheck : c'.healthCheck = c.healthCheck
  rollout : SameDurations c.rollout c'.rollout
  cron : c'.cron = c.cron
  jobRun : c'.jobRun = c.jobRun
  env : c'.env = c.env
  secretRefs : c'.secretRefs = c.secretRefs

/-- The numbers of a service that have to be the same on both sides. -/
def sharedNumbers (c : ServiceConfig) : List Int :=
  c.replicas :: ((c.ingress.map (·.port)).toList ++ (c.healthCheck.map healthNumbers).getD [])

/-- Its other numbers. -/
def otherNumbers (c : ServiceConfig) : List Int :=
  [c.cpu, c.memory, c.rollout.maxSurge] ++ (c.backup.map (·.retentionDays)).toList

/-- Every number is one the agent takes, and the shared ones are read back. -/
structure NumbersFit (c : ServiceConfig) : Prop where
  shared : ∀ n ∈ sharedNumbers c, Faithful n
  other : ∀ n ∈ otherNumbers c, Accepted n

theorem numbersFit_iff {c : ServiceConfig} : NumbersFit c ↔
    Accepted c.cpu ∧ Accepted c.memory ∧ Faithful c.replicas ∧ Accepted c.rollout.maxSurge ∧
      (∀ i ∈ c.ingress, Faithful i.port) ∧ (∀ hc ∈ c.healthCheck, ∀ n ∈ healthNumbers hc, Faithful n) ∧
        ∀ b ∈ c.backup, Accepted b.retentionDays := by
  have hshared : (∀ n ∈ sharedNumbers c, Faithful n) ↔ Faithful c.replicas ∧
      (∀ i ∈ c.ingress, Faithful i.port) ∧ ∀ hc ∈ c.healthCheck, ∀ n ∈ healthNumbers hc, Faithful n := by
    unfold sharedNumbers
    cases c.ingress <;> cases c.healthCheck <;> simp
  have hother : (∀ n ∈ otherNumbers c, Accepted n) ↔ Accepted c.cpu ∧ Accepted c.memory ∧
      Accepted c.rollout.maxSurge ∧ ∀ b ∈ c.backup, Accepted b.retentionDays := by
    unfold otherNumbers
    cases c.backup <;> simp
  constructor
  · intro ⟨hs, ho⟩
    obtain ⟨hreplicas, hingress, hhealth⟩ := hshared.mp hs
    obtain ⟨hcpu, hmemory, hsurge, hbackup⟩ := hother.mp ho
    exact ⟨hcpu, hmemory, hreplicas, hsurge, hingress, hhealth, hbackup⟩
  · intro ⟨hcpu, hmemory, hreplicas, hsurge, hingress, hhealth, hbackup⟩
    exact ⟨hshared.mpr ⟨hreplicas, hingress, hhealth⟩, hother.mpr ⟨hcpu, hmemory, hsurge, hbackup⟩⟩

/-- The agent takes a service that was written, with what the two sides share, exactly when
    its numbers fit. -/
theorem serviceConfig_reads :
    ReadsAs serviceConfigOf (RecordJson ServiceConfigFields) SameService NumbersFit := by
  refine record_readsAs fun c o h => ?_
  have hone := faithful_defaults.1
  have hsurge := defaulted_readsAs rollout_reads (faithful_iff.mp hone).1 ⟨rfl, rfl⟩ h.rollout
  rw [numbersFit_iff]
  constructor
  · rintro ⟨c', hread, hsame⟩
    obtain ⟨_, _, hread⟩ := Option.bind_eq_some_iff.mp hread
    obtain ⟨_, _, hread⟩ := Option.bind_eq_some_iff.mp hread
    obtain ⟨_, _, hread⟩ := Option.bind_eq_some_iff.mp hread
    obtain ⟨cpu, hcpu, hread⟩ := Option.bind_eq_some_iff.mp hread
    obtain ⟨memory, hmemory, hread⟩ := Option.bind_eq_some_iff.mp hread
    obtain ⟨replicas, hreplicas, hread⟩ := Option.bind_eq_some_iff.mp hread
    obtain ⟨_, _, hread⟩ := Option.bind_eq_some_iff.mp hread
    obtain ⟨_, _, hread⟩ := Option.bind_eq_some_iff.mp hread
    obtain ⟨_, _, hread⟩ := Option.bind_eq_some_iff.mp hread
    obtain ⟨_, _, hread⟩ := Option.bind_eq_some_iff.mp hread
    obtain ⟨ingress, hingress, hread⟩ := Option.bind_eq_some_iff.mp hread
    obtain ⟨healthCheck, hhealth, hread⟩ := Option.bind_eq_some_iff.mp hread
    obtain ⟨rollout, hrollout, hread⟩ := Option.bind_eq_some_iff.mp hread
    obtain ⟨_, _, hread⟩ := Option.bind_eq_some_iff.mp hread
    obtain ⟨_, _, hread⟩ := Option.bind_eq_some_iff.mp hread
    obtain ⟨backup, hbackup, hread⟩ := Option.bind_eq_some_iff.mp hread
    obtain ⟨_, _, hread⟩ := Option.bind_eq_some_iff.mp hread
    obtain rfl := Option.some.inj hread
    obtain ⟨_, _, rfl, rfl, rfl, hrollout', _, _, _, _⟩ := hsame
    refine ⟨(required_readsAs number_accepted h.cpu).mp ⟨cpu, hcpu, trivial⟩,
      (required_readsAs number_accepted h.memory).mp ⟨memory, hmemory, trivial⟩,
      (defaulted_reads number_reads hone h.replicas).mp hreplicas, hsurge.mp ⟨rollout, hrollout, hrollout'⟩,
      (optional_reads ingress_reads rfl h.ingress).mp hingress,
      (optional_reads healthCheck_reads rfl h.healthCheck).mp hhealth,
      optional_accepted serviceBackupConfig_accepted (fun _ hnull => ?_) h.backup hbackup⟩
    obtain ⟨_, hobj, _⟩ := hnull
    cases hobj
  · intro ⟨hcpu, hmemory, hreplicas, hrollout, hingress, hhealth, hbackup⟩
    obtain ⟨cpu, hcpu, _⟩ := (required_readsAs number_accepted h.cpu).mpr hcpu
    obtain ⟨memory, hmemory, _⟩ := (required_readsAs number_accepted h.memory).mpr hmemory
    obtain ⟨rollout, hrollout, hsame⟩ := hsurge.mpr hrollout
    obtain ⟨backup, hbackup, _⟩ := (optional_readsAs serviceBackupConfig_accepted rfl h.backup).mpr hbackup
    refine ⟨{ c with cpu, memory, rollout, backup }, ?_, ⟨rfl, rfl⟩, rfl, rfl, rfl, rfl, hsame, rfl, rfl, rfl, rfl⟩
    refine bind_some ((required_reads string_reads h.project).mpr trivial) ?_
    refine bind_some ((required_reads string_reads h.service).mpr trivial) ?_
    refine bind_some ((required_reads string_reads h.image).mpr trivial) ?_
    refine bind_some hcpu ?_
    refine bind_some hmemory ?_
    refine bind_some ((defaulted_reads number_reads hone h.replicas).mpr hreplicas) ?_
    refine bind_some ((defaulted_reads map_reads trivial h.env).mpr trivial) ?_
    refine bind_some ((defaulted_reads (vec_reads secretRef_reads) (fun _ _ => trivial) h.secretRefs).mpr fun _ _ => trivial) ?_
    refine bind_some ((optional_reads string_reads rfl h.restartAt).mpr fun _ _ => trivial) ?_
    refine bind_some ((optional_reads string_reads rfl h.cron).mpr fun _ _ => trivial) ?_
    refine bind_some ((optional_reads ingress_reads rfl h.ingress).mpr hingress) ?_
    refine bind_some ((optional_reads healthCheck_reads rfl h.healthCheck).mpr hhealth) ?_
    refine bind_some hrollout ?_
    refine bind_some ((defaulted_reads (vec_reads volumeDecl_reads) (fun _ _ => trivial) h.volumes).mpr fun _ _ => trivial) ?_
    refine bind_some ((optional_reads serviceDatabase_reads rfl h.database).mpr fun _ _ => trivial) ?_
    refine bind_some hbackup ?_
    exact bind_some ((optional_reads jobRunRequest_reads rfl h.jobRun).mpr fun _ _ => trivial) rfl

/-- The version, and what the two sides share of the services. -/
structure SameDesired (d d' : DesiredState) : Prop where
  version : d'.version = d.version
  services : List.Forall₂ SameService d.services d'.services

theorem desiredState_reads : ReadsAs desiredStateOf (RecordJson DesiredStateFields) SameDesired fun d =>
    Faithful d.version ∧ ∀ c ∈ d.services, NumbersFit c := by
  refine record_readsAs fun d o h => ?_
  simp only [bind, Option.bind_eq_some_iff, pure, Option.some.injEq]
  have hwritten : FieldOr "services" (ArrayJson (RecordJson ServiceConfigFields)) o [] d.services := .inl h.services
  have hservices := defaulted_readsAs (vec_readsAs serviceConfig_reads) (fun _ hc => by cases hc) .nil hwritten
  constructor
  · rintro ⟨_, ⟨version, hversion, _, _, _, _, services, hread, rfl⟩, rfl, hsame⟩
    exact ⟨(required_reads number_reads h.version).mp hversion, hservices.mp ⟨services, hread, hsame⟩⟩
  · intro ⟨hversion, hall⟩
    obtain ⟨services, hread, hsame⟩ := hservices.mpr hall
    exact ⟨{ d with services }, ⟨_, (required_reads number_reads h.version).mpr hversion,
      _, (required_reads string_reads h.nodeId).mpr trivial,
      _, (required_reads string_reads h.updatedAt).mpr trivial, services, hread, rfl⟩, rfl, hsame⟩

end Records

/-! ## Durations -/

/-- A duration that has the same length on both sides: its number and its milliseconds are
    doubles, and its milliseconds are within 64 bits. -/
structure DurationFits (t : String) : Prop where
  digits : Double.IsDouble (durationDigits t)
  exact : Double.IsDouble (durationDigits t * durationUnit t)
  max : ((durationDigits t * durationUnit t : Nat) : Int) ≤ i64Max

/-- Both sides have the same length for it. -/
def DurationAgrees (t : String) : Prop := (cliDurationMs t).map Int.ofNat = some (parseDurationMs t)

instance (t : String) : Decidable (DurationAgrees t) := inferInstanceAs (Decidable (_ = _))

theorem durationUnit_cases {t : String} (h : durationMatches t = true) :
    durationUnit t = 1 ∨ durationUnit t = 1000 ∨ durationUnit t = 60000 := by
  simp only [durationMatches, Bool.and_eq_true, Bool.or_eq_true, beq_iff_eq] at h
  unfold durationUnit
  rcases h.2 with (hunit | hunit) | hunit
  all_goals
    rw [hunit]
    decide

/-- The agent reads the same digits. -/
theorem parseDigits_eq {l : List Char} (h : ∀ c ∈ l, c.isDigit = true) (n : Nat) :
    l.foldl (fun (n : Int) c => n * 10 + (c.toNat - '0'.toNat)) n =
      (l.foldl (fun n c => n * 10 + (c.toNat - '0'.toNat)) n : Nat) := by
  induction l generalizing n with
  | nil => rfl
  | cons c l ih =>
    have hc : '0'.toNat ≤ c.toNat := by
      have := h c List.mem_cons_self
      simp only [Char.isDigit, Bool.and_eq_true, decide_eq_true_eq] at this
      exact this.1
    rw [List.foldl_cons, List.foldl_cons, ← ih fun d hd => h d (List.mem_cons_of_mem c hd)]
    congr 1
    omega

/-- The agent's length of a duration that the schema accepts. -/
theorem parseDurationMs_eq {t : String} (h : durationMatches t = true) :
    parseDurationMs t =
      if (durationDigits t : Int) ≤ i64Max then i64 (durationDigits t * durationUnit t : Nat) else 0 := by
  have hdigits : ∀ c ∈ t.toList.takeWhile Char.isDigit, c.isDigit = true := List.all_eq_true.mp List.all_takeWhile
  have hparse : parseDigits (t.toList.takeWhile Char.isDigit) =
      if (durationDigits t : Int) ≤ i64Max then some (durationDigits t : Int) else none := by
    have := parseDigits_eq hdigits 0
    unfold parseDigits durationDigits
    dsimp only
    rw [← this]
    rfl
  simp only [durationMatches, Bool.and_eq_true, Bool.or_eq_true, beq_iff_eq, Bool.not_eq_true'] at h
  obtain ⟨hne, hunit⟩ := h
  unfold parseDurationMs
  dsimp only
  rw [hparse, hne, if_neg Bool.false_ne_true]
  by_cases hmax : (durationDigits t : Int) ≤ i64Max
  · rw [if_pos hmax, if_pos hmax]
    have hself : i64 (durationDigits t) = durationDigits t := i64_of_le (by omega) hmax
    unfold durationUnit
    rcases hunit with (hunit | hunit) | hunit
    · rw [hunit]
      simp [hself]
    · rw [hunit]
      simp
    · rw [hunit]
      simp
  · rw [if_neg hmax, if_neg hmax]

theorem parseDurationMs_le {t : String} (h : durationMatches t = true) : parseDurationMs t ≤ i64Max := by
  rw [parseDurationMs_eq h]
  split
  · exact i64_le _
  · decide

/-- A duration over 64 bits is over them in doubles too. -/
theorem cliDuration_overflow {n u : Nat} (hu : u = 1 ∨ u = 1000 ∨ u = 60000) (h : 2 ^ 63 ≤ n * u) :
    2 ^ 63 ≤ Double.round (Double.round n * u) := by
  refine Double.le_round (by decide) ?_
  rcases hu with rfl | rfl | rfl
  · have := Double.le_round (n := n) (e := 63) (by decide) (by omega)
    omega
  · have hfrom : 9223372036854776 ≤ n := by omega
    have hround := Double.double_le_round (by decide +kernel) hfrom
    calc 2 ^ 63 ≤ 9223372036854776 * 1000 := by decide
      _ ≤ Double.round n * 1000 := Nat.mul_le_mul_right _ hround
  · have hfrom : 153722867280913 ≤ n := by omega
    have hround := Double.double_le_round (by decide +kernel) hfrom
    calc 2 ^ 63 ≤ 153722867280913 * 60000 := by decide
      _ ≤ Double.round n * 60000 := Nat.mul_le_mul_right _ hround

/-- Where the milliseconds come out right, no digit was lost before. -/
theorem digits_exact {n u : Nat} (hu : u = 1 ∨ u = 1000 ∨ u = 60000) (hmax : n * u < 2 ^ 63)
    (h : Double.round (Double.round n * u) = n * u) : Double.round n = n := by
  by_cases hsmall : n < 2 ^ 53
  · exact Double.round_of_lt hsmall
  rcases hu with rfl | rfl | rfl
  · -- the number is a rounded one
    rw [Nat.mul_one, Nat.mul_one] at h
    have hn : n ≠ 0 := by omega
    have hlog : 53 ≤ n.log2 := (Nat.le_log2 hn).mpr (by omega)
    refine Double.round_of_dvd ?_
    have hzeros := Double.pow_dvd_round (Double.le_round (by omega) (Nat.log2_self_le hn))
    rw [h] at hzeros
    rw [Double.ulp_eq (Nat.log2_self_le hn) Nat.lt_log2_self]
    exact hzeros
  · -- its milliseconds end with ten zeros, so it ends with one
    have hlow : 2 ^ 62 ≤ Double.round n * 1000 := by
      have := Double.le_round (n := n) (e := 53) (by decide) (by omega)
      omega
    have hzeros := Double.pow_dvd_round hlow
    rw [h] at hzeros
    refine Double.round_of_dvd ?_
    rw [Double.ulp_eq (e := 53) (by omega) (by omega)]
    omega
  · omega

theorem duration_agrees_iff {t : String} (h : durationMatches t = true) : DurationAgrees t ↔ DurationFits t := by
  have hunit := durationUnit_cases h
  have hvalue := parseDurationMs_eq h
  constructor
  · intro hagrees
    unfold DurationAgrees cliDurationMs at hagrees
    simp only [Option.map_eq_some_iff, Option.bind_eq_some_iff] at hagrees
    obtain ⟨ms, ⟨n, hn, hms⟩, hsame⟩ := hagrees
    obtain ⟨rfl, hnmax⟩ := Double.ofNat_eq_some.mp hn
    obtain ⟨hround, hmsmax⟩ := Double.ofNat_eq_some.mp hms
    have hle : (ms : Int) ≤ i64Max := by
      have := parseDurationMs_le h
      rw [← hsame] at this
      exact this
    have hmax : durationDigits t * durationUnit t < 2 ^ 63 := by
      by_contra hover
      have := cliDuration_overflow hunit (by omega : 2 ^ 63 ≤ durationDigits t * durationUnit t)
      unfold i64Max at hle
      omega
    have hi64 : ((durationDigits t * durationUnit t : Nat) : Int) ≤ i64Max := by
      unfold i64Max
      omega
    have hfit : (durationDigits t : Int) ≤ i64Max := by
      rcases hunit with hunit | hunit | hunit
      all_goals
        rw [hunit] at hi64
        omega
    rw [hvalue, if_pos hfit, i64_of_le (by omega) hi64] at hsame
    have hms : ms = durationDigits t * durationUnit t := Int.ofNat.inj hsame
    rw [hms] at hround
    have hdigits := digits_exact hunit hmax hround
    rw [hdigits] at hround hnmax
    exact ⟨Double.isDouble_iff.mpr ⟨hdigits, hnmax⟩, Double.isDouble_iff.mpr ⟨hround, hms ▸ hmsmax⟩, hi64⟩
  · intro ⟨hdigits, hexact, hmax⟩
    have hfit : (durationDigits t : Int) ≤ i64Max := by
      refine le_trans ?_ hmax
      rcases hunit with hunit | hunit | hunit
      all_goals
        rw [hunit]
        omega
    unfold DurationAgrees cliDurationMs
    rw [hdigits, Option.bind_some, hexact, Option.map_some, hvalue, if_pos hfit, i64_of_le (by omega) hmax]
    rfl

/-! ## The document -/

/-- Both sides have the same services, with the same lengths of their durations. -/
def WireAgrees (d : DesiredState) (j : Json) : Prop :=
  ∃ d', parseDesiredState j = .ok d' ∧ List.Forall₂ SameService d.services d'.services ∧
    ∀ c ∈ d.services, DurationAgrees c.rollout.drainTimeout ∧ DurationAgrees c.rollout.stopGrace

/-- The services' numbers and durations fit the agent's 64 bits. -/
structure WireFits (c : ServiceConfig) : Prop where
  numbers : NumbersFit c
  drainTimeout : DurationFits c.rollout.drainTimeout
  stopGrace : DurationFits c.rollout.stopGrace

theorem parseDesiredState_ok {j : Json} {d : DesiredState} :
    parseDesiredState j = .ok d ↔ desiredStateOf j = some d ∧ d.version = protocolVersion := by
  unfold parseDesiredState
  cases hread : desiredStateOf j with
  | none => simp
  | some d' =>
    by_cases hversion : d'.version = protocolVersion
    · simp only [hversion, ne_eq, not_true_eq_false, if_false, Except.ok.injEq, Option.some.injEq]
      constructor
      · rintro rfl
        exact ⟨rfl, hversion⟩
      · exact And.left
    · simp only [ne_eq, hversion, not_false_eq_true, if_true, Option.some.injEq, false_iff, not_and, reduceCtorEq]
      rintro rfl
      exact hversion

/-- For a document the CLI accepts and the text it writes, the agent has the same services,
    with the same durations, exactly when their numbers and durations fit. -/
theorem wire_agrees_iff {d : DesiredState} {j : Json} (hd : desiredStateSchema d = true) (hj : DesiredJson d j) :
    WireAgrees d j ↔ ∀ c ∈ d.services, WireFits c := by
  simp only [desiredStateSchema, Bool.and_eq_true, beq_iff_eq, List.all_eq_true] at hd
  obtain ⟨⟨hversion, _⟩, hservices⟩ := hd
  have hfaithful : Faithful d.version := hversion ▸ faithful_of_safe (by decide)
  have hread := desiredState_reads d j hj
  have hdurations : ∀ c ∈ d.services,
      (DurationAgrees c.rollout.drainTimeout ↔ DurationFits c.rollout.drainTimeout) ∧
        (DurationAgrees c.rollout.stopGrace ↔ DurationFits c.rollout.stopGrace) := by
    intro c hc
    have hrollout := serviceConfigSchema_rollout (hservices c hc)
    exact ⟨duration_agrees_iff hrollout.1, duration_agrees_iff hrollout.2⟩
  constructor
  · rintro ⟨d', hparse, hsame, hagree⟩ c hc
    obtain ⟨hread', hversion'⟩ := parseDesiredState_ok.mp hparse
    have hfit := hread.mp ⟨d', hread', hversion'.trans hversion.symm, hsame⟩
    exact ⟨hfit.2 c hc, (hdurations c hc).1.mp (hagree c hc).1, (hdurations c hc).2.mp (hagree c hc).2⟩
  · intro hfit
    obtain ⟨d', hread', hsame⟩ := hread.mpr ⟨hfaithful, fun c hc => (hfit c hc).numbers⟩
    exact ⟨d', parseDesiredState_ok.mpr ⟨hread', hsame.version.trans hversion⟩, hsame.services, fun c hc =>
      ⟨(hdurations c hc).1.mpr (hfit c hc).drainTimeout, (hdurations c hc).2.mpr (hfit c hc).stopGrace⟩⟩

/-- A document with one worker. -/
def workerDocument (cpu : Int) : DesiredState where
  version := protocolVersion
  nodeId := "n1"
  updatedAt := "t0"
  services := [{ project := "shop", service := "mail", image := "mail:1", cpu, memory := 512, ingress := none }]

def workerJson (cpu : Int) : Json := .obj
  [("version", numberJson protocolVersion), ("nodeId", .str "n1"), ("updatedAt", .str "t0"), ("services", .arr [.obj
    [("project", .str "shop"), ("service", .str "mail"), ("image", .str "mail:1"), ("cpu", numberJson cpu),
      ("memory", numberJson 512), ("ingress", .null)]])]

theorem workerJson_written {cpu : Int} (h : Double.IsDouble cpu.natAbs) : DesiredJson (workerDocument cpu) (workerJson cpu) := by
  have hsafe : ∀ n : Int, n.natAbs < 2 ^ 53 → NumberJson n (numberJson n) := fun n hn => ⟨Double.isDouble_of_lt hn, rfl⟩
  refine ⟨_, rfl, ⟨_, rfl, hsafe 3 (by decide)⟩, ⟨_, rfl, rfl⟩, ⟨_, rfl, rfl⟩, _, rfl, _, rfl, .cons ⟨_, rfl, ?_⟩ .nil⟩
  exact {
    project := ⟨_, rfl, rfl⟩
    service := ⟨_, rfl, rfl⟩
    image := ⟨_, rfl, rfl⟩
    cpu := ⟨_, rfl, h, rfl⟩
    memory := ⟨_, rfl, hsafe 512 (by decide)⟩
    replicas := .inr ⟨rfl, rfl⟩
    env := .inr ⟨rfl, rfl⟩
    secretRefs := .inr ⟨rfl, rfl⟩
    restartAt := .inl rfl
    cron := .inl rfl
    ingress := .inr ⟨_, rfl, rfl⟩
    healthCheck := .inl rfl
    rollout := .inr ⟨rfl, rfl⟩
    volumes := .inr ⟨rfl, rfl⟩
    database := .inl rfl
    backup := .inl rfl
    jobRun := .inl rfl }

theorem wire_agrees_worker : WireAgrees (workerDocument 256) (workerJson 256) ↔ ∀ c ∈ (workerDocument 256).services, WireFits c :=
  wire_agrees_iff (by decide +kernel) (workerJson_written (by decide +kernel))

/-- A CPU amount beyond 64 bits: the CLI accepts the document, and the agent refuses all of it. -/
theorem number_refused :
    desiredStateSchema (workerDocument (10 ^ 19)) = true ∧ DesiredJson (workerDocument (10 ^ 19)) (workerJson (10 ^ 19)) ∧
      parseDesiredState (workerJson (10 ^ 19)) = .error .serde ∧
        ¬WireAgrees (workerDocument (10 ^ 19)) (workerJson (10 ^ 19)) := by
  have hrefused : parseDesiredState (workerJson (10 ^ 19)) = .error .serde := by
    have hnone : desiredStateOf (workerJson (10 ^ 19)) = none := by decide +kernel
    unfold parseDesiredState
    rw [hnone]
  refine ⟨by decide +kernel, workerJson_written (by decide +kernel), hrefused, ?_⟩
  rintro ⟨d', hparse, _⟩
  rw [hrefused] at hparse
  cases hparse

end LaunchPad.Agent
