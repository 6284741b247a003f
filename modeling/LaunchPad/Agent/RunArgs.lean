/-
  LaunchPad.Agent.RunArgs — the arguments of `docker run` (`docker.rs` `build_run_args`,
  `secrets.rs` `merge_resolved_env`) and what `parse_inspect` reads back from the labels,
  against the planner's test of whether a container still fits its service.

  The arguments are kept as a list of options, each with its value. SSM is a function from
  a parameter's name to its value. `IssuedFor` says which runs `apply_one` starts for a
  service; the host port, the index and the fire are what it chooses.

  Proved:
  - `launched_parsed`: the labels read back are those of `launched`.
  - `planned_run_issued`: every run of a plan is one issued for its service.
  - `kept_runs_alike_iff`: exactly when a container that the planner keeps has the arguments
    that the service would be started with.
-/
import LaunchPad.Agent.Apply
import LaunchPad.Agent.Stamp
import LaunchPad.Lib.Decimal
import LaunchPad.Lib.Double
import Mathlib.Data.List.Sort
import Mathlib.Data.String.Basic

namespace LaunchPad.Agent

open Lib

/-! ## Secrets -/

/-- One reference of `merge_resolved_env`. -/
def insertRef (fetched : String → Option String) (merged : SortedMap String String) (r : SecretRef) :
    Except String (SortedMap String String) :=
  match fetched r.ssm with
  | some value => .ok (SortedMap.insert r.name value merged)
  | none => .error ("SSM parameter not found: " ++ r.ssm ++ " (" ++ r.name ++ ")")

/-- `merge_resolved_env`: the references in order, then the plain env over them. -/
def mergeResolvedEnv (refs : List SecretRef) (fetched : String → Option String) (plain : List (String × String)) :
    Except String (SortedMap String String) := do
  let merged ← refs.foldlM (insertRef fetched) []
  return plain.foldl (fun m e => SortedMap.insert e.1 e.2 m) merged

/-! ## The arguments -/

/-- `network_name`. -/
def networkName (project : String) : String := "launchpadnet_" ++ project

/-- The fewest decimals, from `decimals` up, that round to `m / 1024`; ten are exact. -/
def shortestDecimals (m : Nat) : Nat → Nat → Nat × Nat
  | 0, decimals => (decimals, m * 10 ^ decimals / 1024)
  | fuel + 1, decimals =>
    let digits := (2 * m * 10 ^ decimals + 1024) / 2048
    let error := if 1024 * digits ≥ m * 10 ^ decimals then 1024 * digits - m * 10 ^ decimals
      else m * 10 ^ decimals - 1024 * digits
    -- nearer than half the distance to the next double, `2 ^ (log2 m - 52) / 1024`
    if 2 ^ 53 * error < 2 ^ m.log2 * 10 ^ decimals then (decimals, digits) else shortestDecimals m fuel (decimals + 1)

/-- `format_cpus`: shares by 1024 as a double prints itself. -/
def formatCpus (cpuShares : Int) : String :=
  let m := Double.round cpuShares.natAbs
  let sign := if cpuShares < 0 then "-" else ""
  if m % 1024 = 0 then sign ++ toString (m / 1024)
  else
    let (decimals, digits) := shortestDecimals m 9 1
    let fraction := toString (digits % 10 ^ decimals)
    sign ++ toString (digits / 10 ^ decimals) ++ "." ++ "".pushn '0' (decimals - fraction.length) ++ fraction

/-- What is chosen for one run of a service (`RunSpec`, next to its config and bind host). -/
structure RunSpec where
  index : Int
  hostPort : Option Int := none
  cronFireMs : Option Int := none
  jobRunId : Option String := none
  deriving DecidableEq, Repr

def labelOption (key value : String) : List String := ["--label", key ++ "=" ++ value]

/-- The labels every managed container has. -/
def commonLabels (c : ServiceConfig) (s : RunSpec) (stamp : String) : List (String × String) :=
  [("launchpad.managed", "true"), ("launchpad.project", c.project), ("launchpad.service", c.service),
    ("launchpad.image", c.image), ("launchpad.replica", toString s.index), ("launchpad.cpu", toString c.cpu),
    ("launchpad.memory", toString c.memory), ("launchpad.configStamp", stamp)]

/-- The label of a run that ends, if it is one. A fire wins over a request. -/
def runLabel (s : RunSpec) : Option (String × String) :=
  match s.cronFireMs, s.jobRunId with
  | some fireMs, _ => some ("launchpad.cronFire", toString fireMs)
  | none, some jobRunId => some ("launchpad.jobRun", jobRunId)
  | none, none => none

def volumeOption (c : ServiceConfig) (v : VolumeDecl) : List String :=
  ["-v", volumeName c.project c.service v.name ++ ":" ++ v.path]

/-- `-p`, when the service has an ingress and a host port was allocated. -/
def portOption (c : ServiceConfig) (s : RunSpec) : Option (List String) :=
  match c.ingress, s.hostPort with
  | some ingress, some hp => some ["-p", bindHost c ++ ":" ++ toString hp ++ ":" ++ toString ingress.port]
  | _, _ => none

/-- The options of `build_run_args`, in order. -/
def runOptions (c : ServiceConfig) (s : RunSpec) (mergedEnv : SortedMap String String) (stamp : String) :
    List (List String) :=
  [["--name", containerName c.project c.service s.index], ["--network", networkName c.project],
    ["--network-alias", c.service]] ++
  (commonLabels c s stamp ++ (runLabel s).toList).map (fun l => labelOption l.1 l.2) ++
  [["--restart", if (runLabel s).isSome then "no" else "unless-stopped"], ["--cpus", formatCpus c.cpu],
    ["--memory", toString c.memory ++ "m"]] ++
  c.volumes.map (volumeOption c) ++ mergedEnv.map (fun e => ["-e", e.1 ++ "=" ++ e.2]) ++ (portOption c s).toList

/-- `build_run_args`. -/
def buildRunArgs (c : ServiceConfig) (s : RunSpec) (mergedEnv : SortedMap String String) (stamp : String) : List String :=
  ["run", "-d"] ++ (runOptions c s mergedEnv stamp).flatten ++ [c.image]

example : formatCpus 1024 = "1" ∧ formatCpus 256 = "0.25" ∧ formatCpus 1537 = "1.5009765625" := by decide +kernel

/-! ## The labels read back -/

/-- What `docker inspect` reports of a container. -/
structure DockerInspect where
  id : String
  name : String
  state : ContainerState
  exitCode : Option Int
  hostPort : Option Int
  image : Option String
  labels : SortedMap String String

/-- The sign of a number's text, and the rest. -/
def splitSign : List Char → Int × List Char
  | '-' :: digits => (-1, digits)
  | '+' :: digits => (1, digits)
  | digits => (1, digits)

/-- `str::parse::<i64>`: a sign or none, then digits. -/
def parseI64 (s : String) : Option Int :=
  let (sign, digits) := splitSign s.toList
  let n := sign * Nat.ofDigitChars 10 digits 0
  if digits ≠ [] ∧ digits.all Char.isDigit ∧ -0x8000000000000000 ≤ n ∧ n ≤ i64Max then some n else none

/-- The body of `parse_inspect`'s loop; none for a container that is skipped. -/
def parseInspect (c : DockerInspect) : Option ManagedReplica := do
  let label := fun key => SortedMap.get key c.labels
  let number := fun key => (label key).bind parseI64
  let project ← (label "launchpad.project").filter (· ≠ "")
  let service ← (label "launchpad.service").filter (· ≠ "")
  return {
    id := c.id, name := c.name, state := c.state, project, service
    index := (number "launchpad.replica").getD 0
    image := ((label "launchpad.image").or c.image).getD ""
    cpu := (number "launchpad.cpu").getD 0
    memory := (number "launchpad.memory").getD 0
    hostPort := c.hostPort
    configStamp := (label "launchpad.configStamp").getD ""
    cronFireMs := (number "launchpad.cronFire").filter (· ≠ 0)
    jobRunId := (label "launchpad.jobRun").filter (· ≠ "")
    exitCode := c.exitCode }

/-- The key and the value of a `--label` option, cut at the first `=`. -/
def labelPair : List String → Option (String × String)
  | ["--label", text] => some
      (String.ofList (text.toList.takeWhile (· ≠ '=')), String.ofList ((text.toList.dropWhile (· ≠ '=')).drop 1))
  | _ => none

/-- The labels docker gives a container run with these options. -/
def labelsOf (options : List (List String)) : SortedMap String String :=
  (options.filterMap labelPair).foldl (fun m e => SortedMap.insert e.1 e.2 m) []

theorem labelPair_labelOption {key : String} (value : String) (h : '=' ∉ key.toList) :
    labelPair (labelOption key value) = some (key, value) := by
  have hkey : ∀ c ∈ key.toList, decide (c ≠ '=') = true := by
    intro c hc
    rw [decide_eq_true_iff]
    rintro rfl
    exact h hc
  have htext : (key ++ "=" ++ value).toList = key.toList ++ '=' :: value.toList := by
    rw [String.toList_append, String.toList_append, List.append_assoc]
    rfl
  simp only [labelOption, labelPair]
  rw [htext, List.takeWhile_append_of_pos hkey, List.dropWhile_append_of_pos hkey]
  simp

theorem runLabel_keys {s : RunSpec} {l : String × String} (h : l ∈ runLabel s) : '=' ∉ l.1.toList := by
  unfold runLabel at h
  split at h
  all_goals
    cases h
  all_goals
    dsimp only
    decide

/-- The label options are read back as the labels. -/
theorem labelPairs (c : ServiceConfig) (s : RunSpec) (stamp : String) :
    ((commonLabels c s stamp ++ (runLabel s).toList).map fun l => labelOption l.1 l.2).filterMap labelPair =
      commonLabels c s stamp ++ (runLabel s).toList := by
  have hkeys : ∀ l ∈ commonLabels c s stamp ++ (runLabel s).toList, '=' ∉ l.1.toList := by
    intro l hl
    rcases List.mem_append.mp hl with hl | hl
    · simp only [commonLabels, List.mem_cons, List.not_mem_nil, or_false] at hl
      rcases hl with rfl | rfl | rfl | rfl | rfl | rfl | rfl | rfl
      all_goals
        dsimp only
        decide
    · exact runLabel_keys (Option.mem_toList.mp hl)
  rw [List.filterMap_map]
  refine (List.filterMap_congr fun l hl => ?_).trans List.filterMap_some
  exact labelPair_labelOption l.2 (hkeys l hl)

theorem labelsOf_runOptions (c : ServiceConfig) (s : RunSpec) (mergedEnv : SortedMap String String) (stamp : String) :
    labelsOf (runOptions c s mergedEnv stamp) =
      (commonLabels c s stamp ++ (runLabel s).toList).foldl (fun m e => SortedMap.insert e.1 e.2 m) [] := by
  have hlabels := labelPairs c s stamp
  have hvolumes : (c.volumes.map (volumeOption c)).filterMap labelPair = [] := by
    simp [List.filterMap_eq_nil_iff, volumeOption, labelPair]
  have henv : (mergedEnv.map fun e => ["-e", e.1 ++ "=" ++ e.2]).filterMap labelPair = [] := by
    simp [List.filterMap_eq_nil_iff, labelPair]
  have hport : (portOption c s).toList.filterMap labelPair = [] := by
    unfold portOption
    split <;> simp [labelPair]
  unfold labelsOf runOptions
  simp only [List.filterMap_append, hlabels, hvolumes, henv, hport]
  simp [labelPair]

/-- Within the agent's 64 bits. -/
def InRange (n : Int) : Prop := -0x8000000000000000 ≤ n ∧ n ≤ i64Max

instance (n : Int) : Decidable (InRange n) := inferInstanceAs (Decidable (_ ∧ _))

theorem splitSign_minus (l : List Char) : splitSign ('-' :: l) = (-1, l) := rfl

theorem splitSign_of_digits {l : List Char} (h : l.all Char.isDigit = true) : splitSign l = (1, l) := by
  unfold splitSign
  split
  · exact absurd (List.all_eq_true.mp h '-' List.mem_cons_self) (by decide)
  · exact absurd (List.all_eq_true.mp h '+' List.mem_cons_self) (by decide)
  · rfl

theorem toDigits_all (m : Nat) : (Nat.toDigits 10 m).all Char.isDigit = true :=
  List.all_eq_true.mpr fun _ hc => Nat.isDigit_of_mem_toDigits (by decide) (by decide) hc

theorem splitSign_repr (n : Int) : (splitSign n.repr.toList).1 * Nat.ofDigitChars 10 (splitSign n.repr.toList).2 0 = n ∧
    (splitSign n.repr.toList).2 ≠ [] ∧ (splitSign n.repr.toList).2.all Char.isDigit = true := by
  cases n with
  | ofNat m =>
    rw [Decimal.toList_ofNat, splitSign_of_digits (toDigits_all m)]
    dsimp only
    rw [Nat.ofDigitChars_ten_toDigits]
    exact ⟨Int.one_mul _, Nat.toDigits_ne_nil, toDigits_all m⟩
  | negSucc m =>
    rw [Decimal.toList_negSucc, splitSign_minus]
    dsimp only
    rw [Nat.ofDigitChars_ten_toDigits]
    exact ⟨by omega, Nat.toDigits_ne_nil, toDigits_all _⟩

/-- A printed number is read back. -/
theorem parseI64_repr {n : Int} (h : InRange n) : parseI64 n.repr = some n := by
  obtain ⟨hn, hne, hdigits⟩ := splitSign_repr n
  unfold parseI64
  dsimp only
  rw [hn, if_pos ⟨hne, hdigits, h⟩]

/-- The numbers that go into labels are within 64 bits, and the names are not empty. -/
structure Labelled (c : ServiceConfig) (s : RunSpec) : Prop where
  project : c.project ≠ ""
  service : c.service ≠ ""
  index : InRange s.index
  cpu : InRange c.cpu
  memory : InRange c.memory
  fire : ∀ fireMs ∈ s.cronFireMs, InRange fireMs

/-- The labels docker keeps are read back as the report of `launched`. -/
theorem launched_parsed {c : ServiceConfig} {s : RunSpec} (h : Labelled c s) (mergedEnv : SortedMap String String)
    (x : DockerInspect) (hx : x.labels = labelsOf (runOptions c s mergedEnv (serviceConfigStamp c))) :
    parseInspect x = some { (launched c s.index s.hostPort s.cronFireMs s.jobRunId x.id x.state).replica with
      name := x.name, hostPort := x.hostPort, exitCode := x.exitCode } := by
  have hlabel : ∀ key, SortedMap.get key x.labels =
      (((commonLabels c s (serviceConfigStamp c) ++ (runLabel s).toList).filter (·.1 = key)).getLast?.map (·.2)) := by
    intro key
    rw [hx, labelsOf_runOptions, SortedMap.get_foldl_pairs]
    simp [SortedMap.get]
  obtain ⟨hproject, hservice, hindex, hcpu, hmemory, hfire⟩ := h
  obtain ⟨index, hostPort, cronFireMs, jobRunId⟩ := s
  have hnumbers := And.intro (parseI64_repr hindex) (And.intro (parseI64_repr hcpu) (parseI64_repr hmemory))
  unfold parseInspect
  cases cronFireMs with
  | none =>
    cases jobRunId
    all_goals simp [hlabel, commonLabels, runLabel, Option.filter_some, hproject, hservice, hnumbers, launched]
  | some fireMs =>
    have hfire := parseI64_repr (hfire fireMs rfl)
    simp [hlabel, commonLabels, runLabel, Option.filter_some, hproject, hservice, hnumbers, hfire, launched]

/-! ## The env of a run -/

/-- Pairs in key order, the last one of a key. -/
def collect (l : List (String × String)) : SortedMap String String := l.foldl (fun m e => SortedMap.insert e.1 e.2 m) []

theorem collect_sorted (l : List (String × String)) : SortedMap.Sorted (collect l) := SortedMap.Sorted.foldl_insert .nil l

/-- The values of the references, when all are there. -/
def resolved (fetched : String → Option String) (refs : List SecretRef) : List (String × String) :=
  refs.map fun r => (r.name, (fetched r.ssm).getD "")

theorem insertRefs_ok {fetched : String → Option String} (refs : List SecretRef) (m merged : SortedMap String String) :
    refs.foldlM (insertRef fetched) m = .ok merged ↔ (∀ r ∈ refs, (fetched r.ssm).isSome) ∧
      merged = (resolved fetched refs).foldl (fun m e => SortedMap.insert e.1 e.2 m) m := by
  induction refs generalizing m with
  | nil =>
    simp only [List.foldlM_nil, pure, Except.pure, Except.ok.injEq, resolved, List.map_nil, List.foldl_nil]
    constructor
    · rintro rfl
      exact ⟨fun _ hr => (by cases hr), rfl⟩
    · rintro ⟨_, rfl⟩
      rfl
  | cons r refs ih =>
    rw [List.foldlM_cons, List.forall_mem_cons]
    unfold insertRef
    cases hr : fetched r.ssm with
    | none => simp [bind, Except.bind]
    | some value =>
      have hvalue : (fetched r.ssm).getD "" = value := by rw [hr, Option.getD_some]
      simp only [resolved, List.map_cons, List.foldl_cons, hvalue, Option.isSome_some, true_and]
      exact ih _

theorem mergeResolvedEnv_ok {refs : List SecretRef} {fetched : String → Option String} {plain env : List (String × String)} :
    mergeResolvedEnv refs fetched plain = .ok env ↔
      (∀ r ∈ refs, (fetched r.ssm).isSome) ∧ env = collect (resolved fetched refs ++ plain) := by
  unfold mergeResolvedEnv collect
  rw [List.foldl_append]
  cases hmerged : refs.foldlM (insertRef fetched) [] with
  | error e =>
    have hnot : ¬∀ r ∈ refs, (fetched r.ssm).isSome := by
      intro hall
      have := (insertRefs_ok refs [] _).mpr ⟨hall, rfl⟩
      rw [hmerged] at this
      cases this
    simp [bind, Except.bind, hnot]
  | ok merged =>
    obtain ⟨hall, rfl⟩ := (insertRefs_ok refs [] merged).mp hmerged
    simp only [bind, Except.bind, pure, Except.pure, Except.ok.injEq]
    exact ⟨fun h => ⟨hall, h.symm⟩, fun h => h.2.symm⟩

/-- References that sort to the same list give the same env. -/
theorem collect_resolved {refs refs' : List SecretRef} (fetched : String → Option String) (plain : List (String × String))
    (h : (refs.mergeSort fun a b => decide (a.name ≤ b.name)) = refs'.mergeSort fun a b => decide (a.name ≤ b.name)) :
    collect (resolved fetched refs ++ plain) = collect (resolved fetched refs' ++ plain) := by
  have hkey : ∀ k, (resolved fetched refs).filter (·.1 = k) = (resolved fetched refs').filter (·.1 = k) := by
    intro k
    unfold resolved
    rw [List.filter_map, List.filter_map]
    congr 1
    exact (SortBy.filter_sort SecretRef.name refs k).symm.trans
      ((congrArg (List.filter _) h).trans (SortBy.filter_sort SecretRef.name refs' k))
  refine (collect_sorted _).ext (collect_sorted _) fun k => ?_
  unfold collect
  rw [SortedMap.get_foldl_pairs, SortedMap.get_foldl_pairs, List.filter_append, List.filter_append, hkey k]

/-! ## Which run a service asks for -/

inductive Kind where
  | service
  | cron
  | job (id : String)
  deriving DecidableEq, Repr

/-- The branch of the planner that a service takes; for a job, with its request. -/
def kindOf (c : ServiceConfig) : Kind :=
  match c.jobRun with
  | some req => .job req.id
  | none => if c.cron.isSome then .cron else .service

/-- The runs that are started for a service. -/
def IssuedFor (c : ServiceConfig) (s : RunSpec) : Prop :=
  match kindOf c with
  | .service => s.cronFireMs = none ∧ s.jobRunId = none ∧ s.hostPort.isSome = c.ingress.isSome
  | .cron => ∃ fireMs, 0 < fireMs ∧ s = { index := 0, cronFireMs := some fireMs }
  | .job id => s = { index := 0, jobRunId := some id }

/-- A container that no action of the plan retires; a rollout retires only what needs it. -/
def Retained (b : ServiceConfig) (have_ : List ManagedReplica) (cron : Option CronPlanContext) (r : ManagedReplica) : Prop :=
  ∀ a ∈ planService b have_ b.key cron, r ∈ a.replicas → ∃ c rs, a = .rollout c rs

/-- Every run of a plan is one issued for its service, with the bind host of the service. -/
theorem planned_run_issued {desired : DesiredState} {actual : Live} {cron : Option CronPlanContext} {a : Action}
    (ha : a ∈ planReconcile desired actual cron) {c : ServiceConfig} {index : Int} {hostPort : Option Int}
    {host : String} {cronFireMs : Option Int} {jobRunId : Option String}
    (hrun : a.Issues (.runContainer c index hostPort host cronFireMs jobRunId)) :
    host = bindHost c ∧ ∃ hostPort, IssuedFor c { index, hostPort, cronFireMs, jobRunId } := by
  have hservice : c.jobRun.isSome = false → c.cron.isSome = false →
      ∃ hostPort, IssuedFor c { index, hostPort, cronFireMs := none, jobRunId := none } := by
    intro hjob hcron
    refine ⟨c.ingress.map fun _ => hostPortMin, ?_⟩
    unfold IssuedFor kindOf
    rw [Option.isSome_eq_false_iff, Option.isNone_iff_eq_none] at hjob
    rw [hjob, hcron]
    exact ⟨rfl, rfl, Option.isSome_map⟩
  rcases mem_planReconcile.mp ha with ⟨d, _, ha⟩ | ⟨key, rs, _, _, rfl⟩
  · unfold planService at ha
    split at ha
    · -- a job
      rcases mem_planJobService ha with rfl | rfl
      · cases hrun
      · rcases hrun with hrun | ⟨_, _, hrun⟩ | ⟨req, hreq, hrun⟩
        · cases hrun
        · cases hrun
        · cases hrun
          refine ⟨rfl, none, ?_⟩
          unfold IssuedFor kindOf
          rw [hreq]
    rename_i hjob
    split at ha
    · -- a cron service
      rename_i hcron
      rcases mem_planCronService ha with rfl | rfl
      · obtain ⟨_, _, hrun⟩ := hrun
        cases hrun
      · rcases planCronRuns_cases d _ d.key cron with h | ⟨fire, hdue, h⟩ | ⟨fire, hdue, _, h⟩
        · rw [h] at hrun
          cases hrun
        · rw [h] at hrun
          cases hrun
        · rw [h] at hrun
          rcases hrun with hrun | ⟨_, _, hrun⟩ | hrun | hrun
          · cases hrun
          · cases hrun
          · cases hrun
          · cases hrun
            have hfire : 0 < fire := by
              cases cron with
              | none =>
                unfold dueRun at hdue
                cases hdue
              | some ctx => exact (dueRun_spec hdue).2.1
            refine ⟨rfl, none, ?_⟩
            unfold IssuedFor kindOf
            rw [Bool.not_eq_true, Option.isSome_eq_false_iff, Option.isNone_iff_eq_none] at hjob
            rw [hjob, hcron]
            exact ⟨fire, hfire, rfl⟩
    · -- a long-running service
      rename_i hcron
      rw [Bool.not_eq_true] at hjob hcron
      rcases mem_planWorker ha with ⟨rfl, _⟩ | ⟨r, _, rfl, _⟩ | ⟨i, rfl, _⟩ | ⟨rfl, _⟩ | ⟨fire, rfl⟩ | rfl
      · cases hrun
        exact ⟨rfl, hservice hjob hcron⟩
      · cases hrun
      · rcases hrun with hrun | hrun | ⟨hp, hrun⟩
        · cases hrun
        · cases hrun
        · cases hrun
          exact ⟨rfl, hservice hjob hcron⟩
      · obtain ⟨_, _, hrun | hrun⟩ := hrun
        · cases hrun
        · cases hrun
      · cases hrun
      · cases hrun
  · obtain ⟨_, _, hrun⟩ := hrun
    cases hrun

/-- What runs a container, and what a service would be run with, are the same up to what is
    chosen for each run: the options as a whole, and the image. -/
def RunsAlike (fetched : String → Option String) (options : List (List String)) (image : String) (b : ServiceConfig) : Prop :=
  ∃ s env, IssuedFor b s ∧ mergeResolvedEnv b.secretRefs fetched b.env = .ok env ∧
    (runOptions b s env (serviceConfigStamp b)).Perm options ∧ b.image = image

/-- What a kept container of `a` has to share with `b` besides what the comparison sees: the
    project and the service, and the kind, where a long-running service has to have the same
    container port and a job the same request. -/
structure SameRun (a b : ServiceConfig) : Prop where
  project : b.project = a.project
  service : b.service = a.service
  worker : kindOf b = .service → kindOf a = .service ∧ b.ingress.map (·.port) = a.ingress.map (·.port)
  job : ∀ id, kindOf b = .job id → kindOf a = .job id

section Options

variable (c : ServiceConfig) (s : RunSpec) (env : SortedMap String String) (stamp flag : String)

/-- The options with a given flag. -/
def flagged (options : List (List String)) : List (List String) := options.filter (·.head? = some flag)

theorem flagged_append (l m : List (List String)) : flagged flag (l ++ m) = flagged flag l ++ flagged flag m := List.filter_append ..

theorem flagged_cons (flag' : String) (rest : List String) (l : List (List String)) :
    flagged flag ((flag' :: rest) :: l) = (if flag' = flag then [flag' :: rest] else []) ++ flagged flag l := by
  by_cases h : flag' = flag <;> simp [flagged, h]

theorem flagged_map {α : Type} {f : α → List String} {flag' : String} (h : ∀ a, (f a).head? = some flag') (l : List α) :
    flagged flag (l.map f) = if flag' = flag then l.map f else [] := by
  unfold flagged
  split
  · rename_i heq
    exact List.filter_eq_self.mpr fun o ho => by
      obtain ⟨a, _, rfl⟩ := List.mem_map.mp ho
      rw [h a, heq, decide_eq_true rfl]
  · rename_i hne
    refine List.filter_eq_nil_iff.mpr fun o ho => ?_
    obtain ⟨a, _, rfl⟩ := List.mem_map.mp ho
    rw [h a]
    simpa using hne

theorem flagged_port : flagged flag (portOption c s).toList = if "-p" = flag then (portOption c s).toList else [] := by
  unfold portOption
  split
  · rw [Option.toList_some, flagged_cons]
    simp [flagged]
  · simp [flagged]

theorem flagged_runOptions : flagged flag (runOptions c s env stamp) =
    (if "--name" = flag then [["--name", containerName c.project c.service s.index]] else []) ++
    ((if "--network" = flag then [["--network", networkName c.project]] else []) ++
    (if "--network-alias" = flag then [["--network-alias", c.service]] else [])) ++
    (if "--label" = flag then (commonLabels c s stamp ++ (runLabel s).toList).map (fun l => labelOption l.1 l.2) else []) ++
    ((if "--restart" = flag then [["--restart", if (runLabel s).isSome then "no" else "unless-stopped"]] else []) ++
    ((if "--cpus" = flag then [["--cpus", formatCpus c.cpu]] else []) ++
    (if "--memory" = flag then [["--memory", toString c.memory ++ "m"]] else []))) ++
    (if "-v" = flag then c.volumes.map (volumeOption c) else []) ++
    (if "-e" = flag then env.map (fun e => ["-e", e.1 ++ "=" ++ e.2]) else []) ++
    (if "-p" = flag then (portOption c s).toList else []) := by
  have hlabels := flagged_map flag (f := fun l : String × String => labelOption l.1 l.2) (fun _ => rfl)
  have hvolumes := flagged_map flag (f := volumeOption c) fun _ => rfl
  have henv := flagged_map flag (f := fun e : String × String => ["-e", e.1 ++ "=" ++ e.2]) fun _ => rfl
  have hnil : flagged flag [] = [] := rfl
  unfold runOptions
  simp only [flagged_append, flagged_cons, hlabels, hvolumes, henv, flagged_port, hnil, List.append_nil, List.append_assoc]

end Options

section Alike

variable {a b : ServiceConfig} {s s' : RunSpec} {env env' : SortedMap String String} {stamp stamp' : String}

/-- Options that are the same as a whole are the same flag by flag. -/
theorem flagged_perm (h : (runOptions b s' env' stamp').Perm (runOptions a s env stamp)) (flag : String) :
    (flagged flag (runOptions b s' env' stamp')).Perm (flagged flag (runOptions a s env stamp)) := h.filter _

theorem alike_project (h : (runOptions b s' env' stamp').Perm (runOptions a s env stamp)) : b.project = a.project := by
  have hnetwork := flagged_perm h "--network"
  rw [flagged_runOptions, flagged_runOptions] at hnetwork
  simpa [networkName, String.append_right_inj] using hnetwork

theorem alike_service (h : (runOptions b s' env' stamp').Perm (runOptions a s env stamp)) : b.service = a.service := by
  have halias := flagged_perm h "--network-alias"
  rw [flagged_runOptions, flagged_runOptions] at halias
  simpa using halias

theorem toList_perm {α : Type} {o o' : Option α} (h : o.toList.Perm o'.toList) : o = o' := by
  cases o' with
  | none => simpa using h
  | some x => simpa using h

/-- The labels are the same, so the run's own label is. -/
theorem alike_runLabel (h : (runOptions b s' env' stamp').Perm (runOptions a s env stamp)) : runLabel s' = runLabel s := by
  have hlabels := (flagged_perm h "--label").filterMap labelPair
  rw [flagged_runOptions, flagged_runOptions] at hlabels
  simp only [String.reduceEq, if_true, if_false, List.nil_append, List.append_nil, labelPairs] at hlabels
  have hcommon : ∀ (c : ServiceConfig) (s : RunSpec) (stamp : String),
      (commonLabels c s stamp).filter (fun l => l.1 = "launchpad.cronFire" ∨ l.1 = "launchpad.jobRun") = [] := by
    intro c s stamp
    simp [commonLabels]
  have hrun : ∀ s : RunSpec,
      (runLabel s).toList.filter (fun l => l.1 = "launchpad.cronFire" ∨ l.1 = "launchpad.jobRun") = (runLabel s).toList := by
    intro s
    unfold runLabel
    split <;> simp
  have hown := hlabels.filter fun l => l.1 = "launchpad.cronFire" ∨ l.1 = "launchpad.jobRun"
  rw [List.filter_append, List.filter_append, hcommon, hcommon, hrun, hrun] at hown
  exact toList_perm hown

theorem alike_port (h : (runOptions b s' env' stamp').Perm (runOptions a s env stamp)) :
    portOption b s' = portOption a s := by
  have hports := flagged_perm h "-p"
  rw [flagged_runOptions, flagged_runOptions] at hports
  simp only [String.reduceEq, if_true, if_false, List.nil_append] at hports
  exact toList_perm hports

/-- One `-p` text has one container port. -/
theorem portText_inj {host : String} {hp hp' port port' : Int}
    (h : host ++ ":" ++ toString hp ++ ":" ++ toString port = host ++ ":" ++ toString hp' ++ ":" ++ toString port') :
    port = port' := by
  have htext := congrArg String.toList h
  simp only [String.toList_append, List.append_assoc] at htext
  have htail : hp.repr.toList ++ ':' :: port.repr.toList = hp'.repr.toList ++ ':' :: port'.repr.toList :=
    List.append_cancel_left (List.append_cancel_left htext)
  obtain ⟨_, _, hport⟩ := (List.append_cons_inj_of_notMem (Decimal.not_mem_repr (by decide) (by decide) hp)
    (Decimal.not_mem_repr (by decide) (by decide) port)).mp htail
  exact Decimal.repr_injective (String.toList_injective hport)

/-- The kind shows in the label of a run. -/
theorem kind_of_runLabel (ha : IssuedFor a s) : (kindOf a = .service ↔ runLabel s = none) ∧
    (kindOf a = .cron ↔ ∃ fireMs, runLabel s = some ("launchpad.cronFire", fireMs)) ∧
      ∀ id, kindOf a = .job id ↔ runLabel s = some ("launchpad.jobRun", id) := by
  unfold IssuedFor at ha
  cases hkind : kindOf a with
  | service =>
    rw [hkind] at ha
    obtain ⟨hcron, hjob, _⟩ := ha
    simp [runLabel, hcron, hjob]
  | cron =>
    rw [hkind] at ha
    obtain ⟨fireMs, _, rfl⟩ := ha
    simp [runLabel]
  | job id =>
    rw [hkind] at ha
    obtain rfl := ha
    simp [runLabel, eq_comm]

theorem alike_kind (ha : IssuedFor a s) (hb : IssuedFor b s') (h : runLabel s' = runLabel s) : kindOf b = kindOf a := by
  obtain ⟨hservice, hcron, hjob⟩ := kind_of_runLabel ha
  obtain ⟨hservice', hcron', hjob'⟩ := kind_of_runLabel hb
  rw [h] at hservice' hcron' hjob'
  cases hkind : kindOf a with
  | service => exact hservice'.mpr (hservice.mp hkind)
  | cron => exact hcron'.mpr (hcron.mp hkind)
  | job id => exact (hjob' id).mpr ((hjob id).mp hkind)

/-- The container port of a long-running service shows in its `-p`. -/
theorem alike_containerPort (ha : IssuedFor a s) (hb : IssuedFor b s') (hka : kindOf a = .service) (hkb : kindOf b = .service)
    (h : portOption b s' = portOption a s) : b.ingress.map (·.port) = a.ingress.map (·.port) := by
  unfold IssuedFor at ha hb
  rw [hka] at ha
  rw [hkb] at hb
  have hpa := ha.2.2
  have hpb := hb.2.2
  unfold portOption bindHost at h
  cases hia : a.ingress with
  | none =>
    cases hib : b.ingress with
    | none => rfl
    | some ib =>
      rw [hib, Option.isSome_some] at hpb
      obtain ⟨hp, hhp⟩ := Option.isSome_iff_exists.mp hpb
      rw [hia, hib, hhp] at h
      cases h
  | some ia =>
    rw [hia, Option.isSome_some] at hpa
    obtain ⟨hp, hhp⟩ := Option.isSome_iff_exists.mp hpa
    cases hib : b.ingress with
    | none =>
      rw [hia, hib, hhp] at h
      cases h
    | some ib =>
      rw [hib, Option.isSome_some] at hpb
      obtain ⟨hp', hhp'⟩ := Option.isSome_iff_exists.mp hpb
      rw [hia, hib, hhp, hhp'] at h
      have htext := (List.cons.inj (List.cons.inj (Option.some.inj h)).2).1
      exact congrArg some (portText_inj htext)

end Alike

/-- A container that fits `b` and was run for `a` has been given all that the comparison sees. -/
structure Compared (a b : ServiceConfig) : Prop where
  image : b.image = a.image
  cpu : b.cpu = a.cpu
  memory : b.memory = a.memory
  stamp : serviceConfigStamp b = serviceConfigStamp a

theorem compared_of_fresh {a b : ServiceConfig} {s : RunSpec} {r : ManagedReplica} {x : DockerInspect}
    {env : SortedMap String String} (hl : Labelled a s)
    (hx : x.labels = labelsOf (runOptions a s env (serviceConfigStamp a))) (hr : parseInspect x = some r)
    (hfresh : replicaNeedsReplace r b = false) : Compared a b := by
  rw [launched_parsed hl env x hx, Option.some.injEq] at hr
  subst hr
  simp only [replicaNeedsReplace, launched, Bool.or_eq_false_iff, bne_eq_false_iff_eq] at hfresh
  obtain ⟨⟨⟨himage, hcpu⟩, hmemory⟩, hstamp⟩ := hfresh
  exact ⟨himage.symm, hcpu.symm, hmemory.symm, hstamp.symm⟩

/-- A run that ends publishes no port; that of a long-running service depends on its port. -/
theorem portOption_eq {a b : ServiceConfig} {s : RunSpec} (hs : IssuedFor a s)
    (hport : kindOf a = .service → b.ingress.map (·.port) = a.ingress.map (·.port)) : portOption b s = portOption a s := by
  have hended : s.hostPort = none → portOption b s = portOption a s := by
    intro hnone
    unfold portOption
    rw [hnone]
    cases a.ingress <;> cases b.ingress <;> rfl
  unfold IssuedFor at hs
  cases hka : kindOf a with
  | service =>
    have hport := hport hka
    unfold portOption bindHost
    cases hia : a.ingress with
    | none =>
      rw [hia, Option.map_none, Option.map_eq_none_iff] at hport
      rw [hport]
    | some ia =>
      rw [hia, Option.map_some, Option.map_eq_some_iff] at hport
      obtain ⟨ib, hib, hsame⟩ := hport
      rw [hib]
      cases s.hostPort with
      | none => rfl
      | some hp =>
        dsimp only
        rw [hsame]
        rfl
  | cron =>
    rw [hka] at hs
    obtain ⟨_, _, rfl⟩ := hs
    exact hended rfl
  | job id =>
    rw [hka] at hs
    obtain rfl := hs
    exact hended rfl

/-- Of services that the comparison does not tell apart, those with the same project, kind
    and port are run alike. -/
theorem runsAlike_of_same {a b : ServiceConfig} {s : RunSpec} {fetched : String → Option String}
    {env : SortedMap String String} (hs : IssuedFor a s) (henv : mergeResolvedEnv a.secretRefs fetched a.env = .ok env)
    (hc : Compared a b) (hproject : b.project = a.project) (hservice : b.service = a.service)
    (hkind : kindOf b = kindOf a) (hport : kindOf a = .service → b.ingress.map (·.port) = a.ingress.map (·.port)) :
    RunsAlike fetched (runOptions a s env (serviceConfigStamp a)) a.image b := by
  obtain ⟨henvs, _, hrefs, hvolumes⟩ := serviceConfigStamp_inj.mp hc.stamp
  have hport' : portOption b s = portOption a s := portOption_eq hs hport
  have hissued : IssuedFor b s := by
    unfold IssuedFor at hs ⊢
    rw [hkind]
    cases hka : kindOf a with
    | service =>
      rw [hka] at hs
      have hsome := congrArg Option.isSome (hport hka)
      rw [Option.isSome_map, Option.isSome_map] at hsome
      exact ⟨hs.1, hs.2.1, hs.2.2.trans hsome.symm⟩
    | cron =>
      rw [hka] at hs
      exact hs
    | job id =>
      rw [hka] at hs
      exact hs
  have henv' : mergeResolvedEnv b.secretRefs fetched b.env = .ok env := by
    obtain ⟨hall, rfl⟩ := mergeResolvedEnv_ok.mp henv
    have hmem : ∀ r, r ∈ b.secretRefs ↔ r ∈ a.secretRefs := by
      intro r
      rw [← (stampedRefs_perm b).mem_iff, ← (stampedRefs_perm a).mem_iff, hrefs]
    refine mergeResolvedEnv_ok.mpr ⟨fun r hr => hall r ((hmem r).mp hr), ?_⟩
    rw [henvs]
    exact (collect_resolved fetched a.env hrefs).symm
  have hmounts : (b.volumes.map (volumeOption b)).Perm (a.volumes.map (volumeOption a)) := by
    have hperm : b.volumes.Perm a.volumes := (stampedVolumes_perm b).symm.trans (hvolumes ▸ stampedVolumes_perm a)
    have hoption : volumeOption b = volumeOption a := by
      funext v
      unfold volumeOption
      rw [hproject, hservice]
    rw [hoption]
    exact hperm.map _
  refine ⟨s, env, hissued, henv', ?_, hc.image⟩
  unfold runOptions commonLabels
  rw [hproject, hservice, hc.image, hc.cpu, hc.memory, hc.stamp, hport']
  exact (((List.Perm.refl _).append hmounts).append_right _).append_right _

/-- A cron service keeps only its own runs. -/
theorem kept_cron {b : ServiceConfig} {have_ : List ManagedReplica} {cron : Option CronPlanContext} {r : ManagedReplica}
    (hkind : kindOf b = .cron) (hmem : r ∈ have_) (hkept : Retained b have_ cron r) : r.cronFireMs.isSome = true := by
  by_contra hnone
  have hcron : b.jobRun.isSome = false ∧ b.cron.isSome = true := by
    unfold kindOf at hkind
    split at hkind
    · cases hkind
    · rename_i hjob
      rw [hjob]
      refine ⟨rfl, ?_⟩
      by_contra hno
      rw [if_neg hno] at hkind
      cases hkind
  have hstale : r ∈ have_.filter (·.cronFireMs.isNone) := by
    refine List.mem_filter.mpr ⟨hmem, ?_⟩
    simpa using hnone
  have hremove : Action.remove b.key (have_.filter (·.cronFireMs.isNone)) ∈ planService b have_ b.key cron := by
    unfold planService planCronService
    rw [hcron.1, hcron.2, if_neg Bool.false_ne_true, if_pos rfl]
    refine List.mem_append_left _ ?_
    have hne : (have_.filter (·.cronFireMs.isNone)).isEmpty = false := by
      rw [List.isEmpty_eq_false_iff]
      exact List.ne_nil_of_mem hstale
    rw [hne, if_neg Bool.false_ne_true]
    exact List.mem_singleton_self _
  obtain ⟨c, rs, h⟩ := hkept _ hremove hstale
  cases h

theorem sameRun_of_runsAlike {a b : ServiceConfig} {s : RunSpec} {fetched : String → Option String}
    {env : SortedMap String String} (hs : IssuedFor a s)
    (h : RunsAlike fetched (runOptions a s env (serviceConfigStamp a)) a.image b) : SameRun a b := by
  obtain ⟨s', env', hs', _, hperm, _⟩ := h
  have hkind := alike_kind hs hs' (alike_runLabel hperm)
  refine ⟨alike_project hperm, alike_service hperm, fun hworker => ?_, fun id hjob => hkind.symm.trans hjob⟩
  have hworker' := hkind.symm.trans hworker
  exact ⟨hworker', alike_containerPort hs hs' hworker' hworker (alike_port hperm)⟩

/-- A container that the planner keeps has what its service would be run with exactly when the
    two services are the same project and service, run the same way, with the same port. -/
theorem kept_runs_alike_iff {a b : ServiceConfig} {s : RunSpec} {fetched : String → Option String}
    {env : SortedMap String String} {x : DockerInspect} {r : ManagedReplica} {have_ : List ManagedReplica}
    {cron : Option CronPlanContext} (hs : IssuedFor a s) (hl : Labelled a s)
    (henv : mergeResolvedEnv a.secretRefs fetched a.env = .ok env)
    (hx : x.labels = labelsOf (runOptions a s env (serviceConfigStamp a))) (hr : parseInspect x = some r)
    (hmem : r ∈ have_) (hkept : Retained b have_ cron r) (hfresh : replicaNeedsReplace r b = false) :
    RunsAlike fetched (runOptions a s env (serviceConfigStamp a)) a.image b ↔ SameRun a b := by
  constructor
  · exact sameRun_of_runsAlike hs
  · intro ⟨hproject, hservice, hworker, hjob⟩
    have hc := compared_of_fresh hl hx hr hfresh
    have hkind : kindOf b = kindOf a := by
      cases hb : kindOf b with
      | service => exact (hworker hb).1.symm
      | job id => exact (hjob id hb).symm
      | cron =>
        have hfire := kept_cron hb hmem hkept
        rw [launched_parsed hl env x hx, Option.some.injEq] at hr
        subst hr
        have hsome : s.cronFireMs.isSome = true := by
          cases hs : s.cronFireMs with
          | none => simp [launched, hs] at hfire
          | some fireMs => rfl
        obtain ⟨fireMs, hfireMs⟩ := Option.isSome_iff_exists.mp hsome
        refine ((kind_of_runLabel hs).2.1.mpr ⟨toString fireMs, ?_⟩).symm
        unfold runLabel
        rw [hfireMs]
    exact runsAlike_of_same hs henv hc hproject hservice hkind fun ha => (hworker (hkind.trans ha)).2

/-- A web service that listens on a port. -/
def listening (port : Int) : ServiceConfig :=
  { project := "shop", service := "web", image := "web:1", cpu := 256, memory := 512,
    ingress := some ⟨"shop.example", port, "edge1"⟩ }

def webRun : RunSpec := { index := 0, hostPort := some 20000 }

/-- Its container, as docker reports it. -/
def listeningContainer : DockerInspect where
  id := "c1"
  name := "launchpad_shop_web_0"
  state := .running
  exitCode := some 0
  hostPort := some 20000
  image := some "web:1"
  labels := labelsOf (runOptions (listening 3000) webRun [] (serviceConfigStamp (listening 3000)))

def listeningReplica : ManagedReplica :=
  { (launched (listening 3000) 0 (some 20000) none none "c1" .running).replica with exitCode := some 0 }

theorem listening_labelled : Labelled (listening 3000) webRun where
  project := by decide
  service := by decide
  index := by decide
  cpu := by decide
  memory := by decide
  fire := fun _ h => by cases h

theorem kept_runs_alike_web :
    RunsAlike (fun _ => none) (runOptions (listening 3000) webRun [] (serviceConfigStamp (listening 3000))) "web:1"
      (listening 3000) ↔ SameRun (listening 3000) (listening 3000) := by
  have hr : parseInspect listeningContainer = some listeningReplica :=
    launched_parsed listening_labelled [] listeningContainer rfl
  have hplan : planService (listening 3000) [listeningReplica] (listening 3000).key none = [.noop (listening 3000)] := by
    decide +kernel
  have hkept : Retained (listening 3000) [listeningReplica] none listeningReplica := by
    intro a ha hmem
    rw [hplan, List.mem_singleton] at ha
    subst ha
    cases hmem
  exact kept_runs_alike_iff ⟨rfl, rfl, rfl⟩ listening_labelled rfl rfl hr (List.mem_singleton_self _) hkept
    (by decide +kernel)

/-- The container port of a web service changes: its container is kept as up to date, and
    publishes the old port. -/
theorem port_change_kept :
    parseInspect listeningContainer = some listeningReplica ∧
      planService (listening 8080) [listeningReplica] "shop/web" none = [.noop (listening 8080)] ∧
      replicaNeedsReplace listeningReplica (listening 8080) = false ∧
        ¬RunsAlike (fun _ => none) (runOptions (listening 3000) webRun [] (serviceConfigStamp (listening 3000))) "web:1"
          (listening 8080) := by
  refine ⟨launched_parsed listening_labelled [] listeningContainer rfl, by decide +kernel, by decide +kernel, fun h => ?_⟩
  have hsame := sameRun_of_runsAlike (a := listening 3000) ⟨rfl, rfl, rfl⟩ h
  exact absurd (hsame.worker rfl).2 (by decide)

end LaunchPad.Agent
