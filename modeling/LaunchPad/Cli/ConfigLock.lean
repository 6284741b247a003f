/-
  LaunchPad.Cli.ConfigLock — the config lock (`shared/src/config-lock.ts`): what a deploy
  records of `launch-pad.toml`, and what a later one may not change of it.

  A baseline keeps a snapshot of every service. Two snapshots are compared by their locked
  views, as texts with sorted keys: the texts are equal exactly when the views are, an
  absent field and an undefined one being both `none`. Names are looked up in a `Map`, so of
  two snapshots of one name the later stands.

  Proved:
  - `parse_snapshot`: the snapshot of an accepted file is read back as it was written.
  - `unlocked_iff`: no violation is found exactly when the identity, the names and the locked
    views agree.
  - `snapshots_unlocked_iff`: for the snapshots of two accepted files that is agreement on
    every locked field of every service.
  - `Unlocked.remove`: taking services out of the baseline and out of the file keeps it so.
-/
import LaunchPad.Cli.Entry
import LaunchPad.Lib.FirstSeen
import Mathlib.Data.List.Sort
import Mathlib.Data.String.Basic

namespace LaunchPad.Cli.ConfigLock

open Lib

/-! ## The file (`config.ts`) -/

/-- A `[[service]]` with what its build and an environment's domain need. -/
structure ServiceBlock extends ServiceDecl where
  dockerfile : String := "./Dockerfile"
  context : String := "."
  domainPattern : Option String := none

/-- A web service has both a domain and a port, a worker neither. -/
def serviceBlockSchema (s : ServiceBlock) : Bool :=
  serviceDeclSchema s.toServiceDecl && s.domain.isSome == s.port.isSome && s.domainPattern.all (· != "")

/-- A `[[job]]`, as its run is published. -/
structure JobDecl where
  name : String
  cpu : Int
  memory : Int
  env : List (String × String) := []
  secrets : List String := []
  deriving DecidableEq, Repr

/-- An accepted `launch-pad.toml`, its databases expanded to services. Services and jobs
    share one set of names. -/
structure LaunchPadConfig where
  project : String
  component : Option String := none
  domainPattern : Option String := none
  service : List ServiceBlock
  job : List JobDecl := []
  project_label : labelMatches project = true
  component_label : component.all labelMatches = true
  pattern_ne : domainPattern.all (· != "") = true
  service_ne : service ≠ []
  accepted : ∀ s ∈ service, serviceBlockSchema s = true
  names : (service.map (·.name) ++ job.map (·.name)).Nodup

/-! ## The baseline -/

inductive ServiceTopology where
  | split
  | coLocated
  | auto
  deriving DecidableEq, Repr

inductive LegacySchedule where
  | even
  | capacity
  deriving DecidableEq, Repr

/-- What a baseline freezes of a managed database. -/
structure DatabaseIdentity where
  engine : String
  version : String
  deriving DecidableEq, Repr

def databaseIdentity (d : ServiceDatabase) : DatabaseIdentity := ⟨d.engine, d.version⟩

/-- `ConfigBaseline["services"][number]`. Only old baselines have a node, an edge, a schedule
    or a topology. -/
structure ServiceSnapshot where
  name : String
  node : Option String := none
  nodes : Option (List String) := none
  edge : Option String := none
  cron : Option String := none
  schedule : Option LegacySchedule := none
  topology : Option ServiceTopology := none
  dockerfile : String
  context : String
  replicas : Int
  cpu : Int
  memory : Int
  env : List (String × String)
  domain : Option String := none
  domainPattern : Option String := none
  port : Option Int := none
  healthCheck : Option HealthCheck := none
  rollout : Rollout
  secrets : List String := []
  volumes : List VolumeDecl := []
  database : Option DatabaseIdentity := none
  deriving DecidableEq, Repr

/-- `CONFIG_BASELINE_VERSION`. -/
def configBaselineVersion : Int := 1

structure ConfigBaseline where
  version : Int := configBaselineVersion
  project : String
  component : Option String := none
  domainPattern : Option String := none
  services : List ServiceSnapshot
  lockedAt : String
  deriving DecidableEq, Repr

def serviceSnapshotSchema (s : ServiceSnapshot) : Bool :=
  s.name != "" && s.node.all (· != "") && s.nodes.all (fun l => !l.isEmpty && l.all (· != "")) && s.edge.all (· != "") &&
    s.cron.all (· != "") && decide (1 ≤ s.replicas) && decide (0 < s.cpu) && decide (0 < s.memory) &&
    s.domain.all (· != "") && s.domainPattern.all (· != "") && s.port.all portOk && s.healthCheck.all healthCheckSchema &&
    rolloutSchema s.rollout && s.volumes.all volumeDeclSchema &&
    s.database.all fun d => d.engine == "postgres" && postgresVersionMatches d.version

def configBaselineSchema (b : ConfigBaseline) : Bool :=
  b.version == configBaselineVersion && b.project != "" && b.component.all (· != "") && b.domainPattern.all (· != "") &&
    !b.services.isEmpty && b.services.all serviceSnapshotSchema

def parseConfigBaseline : Raw ConfigBaseline → Option ConfigBaseline
  | .json b => if configBaselineSchema b then some b else none
  | .other _ => none

/-- A health check's port as a deploy resolves it. -/
def resolvedHealthCheck (d : ServiceDecl) : Option HealthCheck := d.healthCheck.map fun h => { h with port := h.port.or d.port }

def serviceSnapshot (s : ServiceBlock) : ServiceSnapshot where
  name := s.name
  cron := s.cron
  dockerfile := s.dockerfile
  context := s.context
  replicas := s.replicas
  cpu := s.cpu
  memory := s.memory
  env := s.env
  domain := s.domain
  domainPattern := s.domainPattern
  port := s.port
  healthCheck := resolvedHealthCheck s.toServiceDecl
  rollout := s.rollout
  secrets := s.secrets
  volumes := s.volumes
  database := s.database.map databaseIdentity

def snapshotConfigBaseline (config : LaunchPadConfig) (lockedAt : String) : ConfigBaseline where
  project := config.project
  component := config.component
  domainPattern := config.domainPattern
  services := (config.service.map serviceSnapshot).insertionSort fun a b => a.name ≤ b.name
  lockedAt := lockedAt

/-- `null` when no service remains. -/
def removeServicesFromBaseline (baseline : ConfigBaseline) (removedServiceNames : List String) : Option ConfigBaseline :=
  let services := baseline.services.filter fun s => !removedServiceNames.contains s.name
  if services.isEmpty then none else some { baseline with services }

/-! ## The comparison -/

structure ConfigLockCompareOptions where
  /-- The baseline was rebuilt from published documents, which have no build fields. -/
  baselineFromDesired : Bool := false
  allowNewServices : Bool := false
  deriving DecidableEq, Repr

/-- The fields of a service that are locked. -/
structure LockedServiceView where
  name : String
  cron : Option String
  dockerfile : Option String
  context : Option String
  port : Option Int
  healthCheck : Option HealthCheck
  rollout : Rollout
  volumes : List VolumeDecl
  database : Option DatabaseIdentity
  deriving DecidableEq, Repr

structure ConfigLockViolation where
  path : String
  message : String
  deriving DecidableEq, Repr

structure ServiceChangeOutcome where
  service : String
  identityChanged : Bool
  deriving DecidableEq, Repr

def configLockMutableHint : String :=
  "only cpu, memory, replicas, env, secrets, domain, and domainPattern may change after the initial deploy"

def serviceViolation (name text : String) : ConfigLockViolation :=
  ⟨"service." ++ name, text ++ " — " ++ configLockMutableHint⟩

def removedViolation (name : String) : ConfigLockViolation := serviceViolation name ("service \"" ++ name ++ "\" was removed")

def addedViolation (name : String) : ConfigLockViolation := serviceViolation name ("service \"" ++ name ++ "\" was added")

def changedViolation (name : String) : ConfigLockViolation :=
  serviceViolation name ("locked fields changed for service \"" ++ name ++ "\"")

/-- A component as a message shows it. -/
def showComponent : Option String → String
  | none => "(none)"
  | some c => "\"" ++ c ++ "\""

section Compare

variable (opts : ConfigLockCompareOptions)

def lockedServiceView (s : ServiceSnapshot) : LockedServiceView where
  name := s.name
  cron := s.cron
  dockerfile := if opts.baselineFromDesired then none else some s.dockerfile
  context := if opts.baselineFromDesired then none else some s.context
  port := s.port
  healthCheck := s.healthCheck
  rollout := s.rollout
  volumes := s.volumes
  database := s.database

def byName (b : ConfigBaseline) : FirstSeen String ServiceSnapshot := .ofList ServiceSnapshot.name b.services

/-- The service a baseline has under that name. -/
def serviceNamed (b : ConfigBaseline) (name : String) : Option ServiceSnapshot := SortedMap.get name (byName b).byKey

variable (baseline current : ConfigBaseline)

def preServiceViolations : List ConfigLockViolation :=
  (if baseline.project = current.project then []
    else [⟨"project", "project changed from \"" ++ baseline.project ++ "\" to \"" ++ current.project ++ "\""⟩]) ++
  (if baseline.component = current.component then []
    else [⟨"component", "component changed from " ++ showComponent baseline.component ++ " to " ++
      showComponent current.component⟩]) ++
  ((byName baseline).order.filter fun name => (serviceNamed current name).isNone).map removedViolation ++
  ((byName current).order.filter fun name => (serviceNamed baseline name).isNone && !opts.allowNewServices).map addedViolation

def serviceOutcomes : List ServiceChangeOutcome :=
  (byName baseline).entries.filterMap fun base => (serviceNamed current base.1).map fun cur =>
    ⟨base.1, decide (lockedServiceView opts base.2 ≠ lockedServiceView opts cur)⟩

def findConfigLockViolations : List ConfigLockViolation :=
  preServiceViolations opts baseline current ++
    ((serviceOutcomes opts baseline current).filter (·.identityChanged)).map fun o => changedViolation o.service

/-- What a deploy may not change has not changed. -/
structure Unlocked : Prop where
  project : baseline.project = current.project
  component : baseline.component = current.component
  kept : ∀ name, serviceNamed baseline name ≠ none → serviceNamed current name ≠ none
  added : opts.allowNewServices = true ∨ ∀ name, serviceNamed current name ≠ none → serviceNamed baseline name ≠ none
  same : ∀ name s t, serviceNamed baseline name = some s → serviceNamed current name = some t →
    lockedServiceView opts s = lockedServiceView opts t

end Compare

/-! ## When no violation is found -/

section Unlocked

variable {opts : ConfigLockCompareOptions} {baseline current current' : ConfigBaseline}

theorem preServiceViolations_nil : preServiceViolations opts baseline current = [] ↔
    baseline.project = current.project ∧ baseline.component = current.component ∧
      (∀ name, serviceNamed baseline name ≠ none → serviceNamed current name ≠ none) ∧
      (opts.allowNewServices = true ∨ ∀ name, serviceNamed current name ≠ none → serviceNamed baseline name ≠ none) := by
  have hnamed : ∀ b : ConfigBaseline, ∀ name, name ∈ (byName b).order ↔ serviceNamed b name ≠ none := by
    intro b name
    rw [(byName b).mem_order, Option.isSome_iff_ne_none]
    rfl
  unfold preServiceViolations
  simp only [List.append_eq_nil_iff, List.map_eq_nil_iff, List.filter_eq_nil_iff, ite_eq_left_iff, hnamed, and_assoc]
  refine and_congr (by simp) (and_congr (by simp) (and_congr ?_ ?_))
  · refine forall₂_congr fun name _ => ?_
    rw [Option.isNone_iff_eq_none]
  · cases opts.allowNewServices with
    | true => simp
    | false => simp

theorem mem_serviceOutcomes {o : ServiceChangeOutcome} : o ∈ serviceOutcomes opts baseline current ↔
    ∃ s t, serviceNamed baseline o.service = some s ∧ serviceNamed current o.service = some t ∧
      o.identityChanged = decide (lockedServiceView opts s ≠ lockedServiceView opts t) := by
  unfold serviceOutcomes
  rw [List.mem_filterMap]
  constructor
  · intro ⟨⟨name, s⟩, hs, hmap⟩
    obtain ⟨t, ht, rfl⟩ := Option.map_eq_some_iff.mp hmap
    exact ⟨s, t, FirstSeen.mem_entries.mp hs, ht, rfl⟩
  · intro ⟨s, t, hs, ht, hchanged⟩
    refine ⟨(o.service, s), FirstSeen.mem_entries.mpr hs, ?_⟩
    rw [ht, Option.map_some, ← hchanged]

/-- No violation: the identity, the names and the locked views agree. -/
theorem unlocked_iff : findConfigLockViolations opts baseline current = [] ↔ Unlocked opts baseline current := by
  unfold findConfigLockViolations
  rw [List.append_eq_nil_iff, preServiceViolations_nil, List.map_eq_nil_iff, List.filter_eq_nil_iff]
  constructor
  · intro ⟨⟨hproject, hcomponent, hkept, hadded⟩, houtcomes⟩
    refine ⟨hproject, hcomponent, hkept, hadded, fun name s t hs ht => ?_⟩
    by_contra hne
    exact houtcomes ⟨name, true⟩ (mem_serviceOutcomes.mpr ⟨s, t, hs, ht, by simp [hne]⟩) rfl
  · intro h
    refine ⟨⟨h.project, h.component, h.kept, h.added⟩, fun o ho hchanged => ?_⟩
    obtain ⟨s, t, hs, ht, hsame⟩ := mem_serviceOutcomes.mp ho
    rw [hsame, decide_eq_true_eq] at hchanged
    exact hchanged (h.same _ s t hs ht)

/-- The lock sees of a baseline its project, its component and what it has under each name. -/
theorem Unlocked.congr (hproject : current'.project = current.project) (hcomponent : current'.component = current.component)
    (hnamed : ∀ name, serviceNamed current' name = serviceNamed current name) (h : Unlocked opts baseline current) :
    Unlocked opts baseline current' where
  project := h.project.trans hproject.symm
  component := h.component.trans hcomponent.symm
  kept name := by
    rw [hnamed]
    exact h.kept name
  added := by
    simp only [hnamed]
    exact h.added
  same name := by
    rw [hnamed]
    exact h.same name

end Unlocked

/-! ## Taking services out -/

section Removal

variable {opts : ConfigLockCompareOptions} {baseline current : ConfigBaseline} {names : List String}

/-- A baseline without the services of those names. -/
def ConfigBaseline.without (b : ConfigBaseline) (names : List String) : ConfigBaseline :=
  { b with services := b.services.filter fun s => !names.contains s.name }

theorem serviceNamed_without (b : ConfigBaseline) (name : String) :
    serviceNamed (b.without names) name = if name ∈ names then none else serviceNamed b name := by
  have hfilter := @FirstSeen.get_ofList_filter String ServiceSnapshot _ _ _ ServiceSnapshot.name b.services name
    fun n => !names.contains n
  unfold serviceNamed byName ConfigBaseline.without
  rw [hfilter]
  by_cases h : name ∈ names <;> simp [h]

theorem removeServicesFromBaseline_some {next : ConfigBaseline}
    (h : removeServicesFromBaseline baseline names = some next) : next = baseline.without names := by
  unfold removeServicesFromBaseline at h
  dsimp only at h
  split at h
  · cases h
  · exact (Option.some.inj h).symm

theorem removeServicesFromBaseline_none (h : removeServicesFromBaseline baseline names = none) (name : String) :
    serviceNamed (baseline.without names) name = none := by
  unfold removeServicesFromBaseline at h
  dsimp only at h
  split at h
  · rename_i hempty
    unfold serviceNamed byName ConfigBaseline.without
    rw [List.isEmpty_iff.mp hempty]
    rfl
  · cases h

/-- What was unlocked stays so without the services of those names on either side. -/
theorem Unlocked.remove (h : Unlocked opts baseline current) : Unlocked opts (baseline.without names) (current.without names) where
  project := h.project
  component := h.component
  kept := by
    intro name
    rw [serviceNamed_without, serviceNamed_without]
    by_cases hname : name ∈ names
    · simp [hname]
    · simpa [hname] using h.kept name
  added := by
    refine h.added.imp id fun hadded name => ?_
    rw [serviceNamed_without, serviceNamed_without]
    by_cases hname : name ∈ names
    · simp [hname]
    · simpa [hname] using hadded name
  same := by
    intro name s t
    rw [serviceNamed_without, serviceNamed_without]
    by_cases hname : name ∈ names
    · simp [hname]
    · simpa [hname] using h.same name s t

end Removal

/-! ## Snapshots of accepted files -/

section Snapshot

variable {opts : ConfigLockCompareOptions} {a b : LaunchPadConfig} {t : String}

theorem LaunchPadConfig.service_names (c : LaunchPadConfig) : (c.service.map (·.name)).Nodup := (List.nodup_append.mp c.names).1

theorem snapshot_names (c : LaunchPadConfig) : ((snapshotConfigBaseline c t).services.map ServiceSnapshot.name).Nodup := by
  have hperm := ((c.service.map serviceSnapshot).perm_insertionSort fun a b => a.name ≤ b.name).map ServiceSnapshot.name
  refine hperm.nodup_iff.mpr ?_
  rw [List.map_map]
  exact c.service_names

/-- A snapshot has the services of its file. -/
theorem serviceNamed_snapshot {c : LaunchPadConfig} {name : String} {s : ServiceSnapshot} :
    serviceNamed (snapshotConfigBaseline c t) name = some s ↔ ∃ d ∈ c.service, serviceSnapshot d = s ∧ d.name = name := by
  unfold serviceNamed byName
  rw [FirstSeen.get_ofList_nodup (snapshot_names c)]
  have hmem : s ∈ (snapshotConfigBaseline c t).services ↔ s ∈ c.service.map serviceSnapshot :=
    (List.perm_insertionSort ..).mem_iff
  rw [hmem, List.mem_map]
  constructor
  · intro ⟨⟨d, hd, hs⟩, hname⟩
    subst hs
    exact ⟨d, hd, rfl, hname⟩
  · intro ⟨d, hd, hs, hname⟩
    subst hs
    exact ⟨⟨d, hd, rfl⟩, hname⟩

theorem serviceNamed_snapshot_ne {c : LaunchPadConfig} {name : String} :
    serviceNamed (snapshotConfigBaseline c t) name ≠ none ↔ ∃ d ∈ c.service, d.name = name := by
  rw [Option.ne_none_iff_exists']
  constructor
  · intro ⟨s, hs⟩
    obtain ⟨d, hd, _, hname⟩ := serviceNamed_snapshot.mp hs
    exact ⟨d, hd, hname⟩
  · intro ⟨d, hd, hname⟩
    exact ⟨_, serviceNamed_snapshot.mpr ⟨d, hd, rfl, hname⟩⟩

theorem serviceSnapshot_accepted {s : ServiceBlock} (h : serviceBlockSchema s = true) :
    serviceSnapshotSchema (serviceSnapshot s) = true := by
  simp only [serviceBlockSchema, serviceDeclSchema, Bool.and_eq_true] at h
  obtain ⟨⟨⟨⟨⟨⟨⟨⟨⟨⟨⟨hname, hcron⟩, _⟩, hdomain⟩, hport⟩, hhealth⟩, hrollout⟩, hvolumes⟩, hdatabase⟩, _⟩, _⟩, hpattern⟩ := h
  have hcpu := s.cpu_pos
  have hmemory := s.memory_pos
  have hreplicas := s.replicas_pos
  have hdomainNe : s.domain.all (· != "") = true := by
    cases hd : s.domain with
    | none => rfl
    | some d =>
      rw [hd] at hdomain
      have hne : d ≠ "" := fun e => by subst e; revert hdomain; decide +kernel
      simpa using hne
  have hidentity : ((s.database.map databaseIdentity).all fun d => d.engine == "postgres" && postgresVersionMatches d.version) =
      true := by
    cases hd : s.database with
    | none => rfl
    | some d =>
      rw [hd] at hdatabase
      simp only [Option.all_some, serviceDatabaseSchema, Bool.and_eq_true] at hdatabase
      simp [databaseIdentity, hdatabase.1.1, hdatabase.1.2]
  have hcheck : (resolvedHealthCheck s.toServiceDecl).all healthCheckSchema = true := healthCheck_accepted hhealth hport
  simp only [serviceSnapshotSchema, serviceSnapshot, Bool.and_eq_true, Option.all_none, bne_iff_ne, ne_eq, and_true]
  exact ⟨⟨⟨⟨⟨⟨⟨⟨⟨⟨⟨label_ne_empty hname, hcron⟩, decide_eq_true hreplicas⟩, decide_eq_true hcpu⟩, decide_eq_true hmemory⟩, hdomainNe⟩, hpattern⟩, hport⟩, hcheck⟩, hrollout⟩,
    hvolumes⟩, hidentity⟩

/-- The snapshot of an accepted file is read back as it was written. -/
theorem parse_snapshot (c : LaunchPadConfig) (t : String) :
    parseConfigBaseline (.json (snapshotConfigBaseline c t)) = some (snapshotConfigBaseline c t) := by
  have hall : ∀ s ∈ (snapshotConfigBaseline c t).services, serviceSnapshotSchema s = true := by
    intro s hs
    obtain ⟨d, hd, rfl⟩ := List.mem_map.mp ((List.perm_insertionSort ..).mem_iff.mp hs)
    exact serviceSnapshot_accepted (c.accepted d hd)
  have hne : (snapshotConfigBaseline c t).services ≠ [] := by
    intro h
    have hlen := congrArg List.length h
    simp only [snapshotConfigBaseline, List.length_insertionSort, List.length_map, List.length_nil] at hlen
    exact c.service_ne (List.length_eq_zero_iff.mp hlen)
  have hcomponent : c.component.all (· != "") = true := by
    have hc := c.component_label
    cases hcomp : c.component with
    | none => rfl
    | some d =>
      rw [hcomp] at hc
      simpa using label_ne_empty hc
  have hschema : configBaselineSchema (snapshotConfigBaseline c t) = true := by
    simp only [configBaselineSchema, Bool.and_eq_true, bne_iff_ne, ne_eq, Bool.not_eq_true', List.isEmpty_eq_false_iff,
      List.all_eq_true]
    exact ⟨⟨⟨⟨⟨rfl, label_ne_empty c.project_label⟩, hcomponent⟩, c.pattern_ne⟩, hne⟩, hall⟩
  simp only [parseConfigBaseline]
  rw [if_pos hschema]

/-- Two services agree on every field that is locked. -/
structure SameIdentity (s t : ServiceBlock) : Prop where
  cron : s.cron = t.cron
  dockerfile : s.dockerfile = t.dockerfile
  context : s.context = t.context
  port : s.port = t.port
  healthCheck : resolvedHealthCheck s.toServiceDecl = resolvedHealthCheck t.toServiceDecl
  rollout : s.rollout = t.rollout
  volumes : s.volumes = t.volumes
  database : s.database.map databaseIdentity = t.database.map databaseIdentity

/-- Two files agree on whose they are, on the services' names, and on what is locked of each. -/
structure SameLocked (a b : LaunchPadConfig) : Prop where
  project : a.project = b.project
  component : a.component = b.component
  names : ∀ name, name ∈ a.service.map (·.name) ↔ name ∈ b.service.map (·.name)
  services : ∀ s ∈ a.service, ∀ t ∈ b.service, s.name = t.name → SameIdentity s t

theorem lockedServiceView_eq {s t : ServiceBlock} (hname : s.name = t.name) :
    lockedServiceView {} (serviceSnapshot s) = lockedServiceView {} (serviceSnapshot t) ↔ SameIdentity s t := by
  constructor
  · intro h
    simp only [lockedServiceView, serviceSnapshot, LockedServiceView.mk.injEq, Bool.false_eq_true, if_false,
      Option.some.injEq] at h
    obtain ⟨_, hcron, hdockerfile, hcontext, hport, hhealth, hrollout, hvolumes, hdatabase⟩ := h
    exact ⟨hcron, hdockerfile, hcontext, hport, hhealth, hrollout, hvolumes, hdatabase⟩
  · intro h
    simp only [lockedServiceView, serviceSnapshot, hname, h.cron, h.dockerfile, h.context, h.port, h.healthCheck, h.rollout,
      h.volumes, h.database]

/-- The lock between two accepted files. -/
theorem snapshots_unlocked_iff {t u : String} :
    Unlocked {} (snapshotConfigBaseline a t) (snapshotConfigBaseline b u) ↔ SameLocked a b := by
  constructor
  · intro h
    have hadded := h.added.resolve_left (by decide)
    refine ⟨h.project, h.component, fun name => ?_, fun s hs d hd hname => ?_⟩
    · have hkept := h.kept name
      have hnew := hadded name
      rw [serviceNamed_snapshot_ne, serviceNamed_snapshot_ne] at hkept hnew
      rw [List.mem_map, List.mem_map]
      exact ⟨hkept, hnew⟩
    · refine (lockedServiceView_eq hname).mp (h.same s.name _ _ ?_ ?_)
      · exact serviceNamed_snapshot.mpr ⟨s, hs, rfl, rfl⟩
      · exact serviceNamed_snapshot.mpr ⟨d, hd, rfl, hname.symm⟩
  · intro h
    have hnames : ∀ name, (∃ d ∈ a.service, d.name = name) ↔ ∃ d ∈ b.service, d.name = name := by
      intro name
      rw [← List.mem_map, ← List.mem_map]
      exact h.names name
    refine ⟨h.project, h.component, fun name => ?_, .inr fun name => ?_, fun name s v hs hv => ?_⟩
    · rw [serviceNamed_snapshot_ne, serviceNamed_snapshot_ne]
      exact (hnames name).mp
    · rw [serviceNamed_snapshot_ne, serviceNamed_snapshot_ne]
      exact (hnames name).mpr
    · obtain ⟨d, hd, rfl, hdn⟩ := serviceNamed_snapshot.mp hs
      obtain ⟨e, he, rfl, hen⟩ := serviceNamed_snapshot.mp hv
      have hname : d.name = e.name := hdn.trans hen.symm
      exact (lockedServiceView_eq hname).mpr (h.services d hd e he hname)

end Snapshot

end LaunchPad.Cli.ConfigLock
