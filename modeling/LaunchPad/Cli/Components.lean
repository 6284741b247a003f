/-
  LaunchPad.Cli.Components — the component index of a project (`shared/src/project-registry.ts`,
  `project/registry.ts`) and the commands that read and write it: deploys, which check a
  configuration's service names against the other components' and record them, job runs,
  which do neither, and destroys, which take a component's entry out.

  What a cluster publishes is kept as one entry for each footprint and name, with the
  identity that published it. Commands come one after the other, so a conditional write of
  the index is of what was read.

  The index has one entry for each component of a project; a footprint without a component
  is entered as `default`, which is a component's name too. An entry is overwritten by each
  deploy of the component, whatever the environment, and goes with its base footprint.

  Proved:
  - `step_registered`: while no command drops a name that is still published, every
    published service is in the index under its component.
  - `components_share_no_name`: then no two components of a project publish the same name,
    when also no command brings in a name that the index cannot show: a job's, or one of
    the footprints entered under the same name.
-/
import LaunchPad.Cli.EnvDestroy

namespace LaunchPad.Cli.Components

open Lib

/-! ## The index -/

def projectIndexVersion : Int := 1

def defaultComponent : String := "default"

structure ProjectComponentEntry where
  component : String
  owner : String
  services : List String
  updatedAt : String
  deriving DecidableEq, Repr

structure ProjectIndex where
  version : Int
  project : String
  components : List ProjectComponentEntry
  updatedAt : String
  deriving DecidableEq, Repr

def componentEntrySchema (c : ProjectComponentEntry) : Bool :=
  labelMatches c.component && ownerMatches c.owner && c.services.all (· != "") && c.updatedAt != ""

def projectIndexSchema (index : ProjectIndex) : Bool :=
  index.version == projectIndexVersion && labelMatches index.project && index.components.all componentEntrySchema &&
    index.updatedAt != ""

def parseProjectIndex : Raw ProjectIndex → Option ProjectIndex
  | .json index => if projectIndexSchema index then some index else none
  | .other _ => none

def registryComponentName (component : Option String) : String := component.getD defaultComponent

structure UpsertComponentInput where
  project : String
  component : Option String
  services : List String
  now : String

def upsertComponentEntry (index : Option ProjectIndex) (input : UpsertComponentInput) : ProjectIndex :=
  let name := registryComponentName input.component
  let entry : ProjectComponentEntry :=
    { component := name
      owner := componentOwner input.project input.component
      services := input.services.dedup.insertionSort (· ≤ ·)
      updatedAt := input.now }
  let others := ((index.map (·.components)).getD []).filter (·.component ≠ name)
  { version := projectIndexVersion
    project := input.project
    components := (others ++ [entry]).insertionSort fun a b => a.component ≤ b.component
    updatedAt := input.now }

/-- `null` when the last component is removed. -/
def removeComponentEntry (index : ProjectIndex) (component : Option String) (now : String) : Option ProjectIndex :=
  let remaining := index.components.filter (·.component ≠ registryComponentName component)
  if remaining.isEmpty then none else some { index with components := remaining, updatedAt := now }

structure ServiceConflict where
  service : String
  component : String
  deriving DecidableEq, Repr

namespace ServiceConflict

def line (c : ServiceConflict) : String := "\"" ++ c.service ++ "\" is already deployed by component \"" ++ c.component ++ "\""

end ServiceConflict

def findCrossComponentServiceConflicts (index : Option ProjectIndex) (component : Option String) (services : List String) :
    List ServiceConflict :=
  match index with
  | none => []
  | some index =>
    (index.components.filter (·.component ≠ registryComponentName component)).flatMap fun entry =>
      (services.filter fun s => entry.services.contains s).map fun s => ⟨s, entry.component⟩

/-! ## Commands -/

/-- The names of a `launch-pad.toml`, databases expanded. -/
structure ProjectConfig where
  project : String
  component : Option String
  services : List String
  jobs : List String
  names : configNames project component = true
  service_labels : services.all labelMatches = true
  job_labels : jobs.all labelMatches = true
  nodup : (services ++ jobs).Nodup

/-- A configuration and `--env`. -/
structure Target where
  config : ProjectConfig
  env : Option String
  env_label : env.all labelMatches = true

def Target.identity (t : Target) : FootprintIdentity where
  project := t.config.project
  component := t.config.component
  env := t.env
  names := t.config.names
  env_label := t.env_label

structure Timestamp where
  iso : String
  ne : iso ≠ ""

/-- A name on some node, of the footprint that published it. -/
structure Published where
  of : FootprintIdentity
  name : String
  job : Bool
  deriving DecidableEq

structure ProjectsState where
  entries : List Published
  /-- `projects/_index/<project>.json`. -/
  indexes : SortedMap String (Raw ProjectIndex)
  /-- `projects/<owner>/preview.json`. -/
  markers : SortedMap String PreviewMarker
  deriving DecidableEq

def ProjectsState.init : ProjectsState := ⟨[], [], []⟩

/-- An unreadable index counts as absent. -/
def loadProjectIndex (st : ProjectsState) (project : String) : Option ProjectIndex :=
  (SortedMap.get project st.indexes).bind parseProjectIndex

inductive CommandRefusal where
  | noServices
  | serviceNameConflict (project : String) (conflicts : List ServiceConflict)
  | noJob (name : String)
  | notDeployed (service owner : String)
  | nothingDeployed (owner : String)
  | noRegistry (project : String)
  deriving DecidableEq, Repr

/-- The services of the run: all, or those of `--service` or `--changed`. -/
def picked (t : Target) (names : Option (List String)) : List String :=
  match names with
  | none => t.config.services
  | some names => t.config.services.filter fun s => names.contains s

/-- The entries a publish takes the place of: a full one's owner's, a partial one's services'. -/
def replaces (t : Target) (names : Option (List String)) (e : Published) : Bool :=
  e.of.owner = t.identity.owner && (names.isNone || (picked t names).contains e.name)

def upsertProjectIndex (st : ProjectsState) (input : UpsertComponentInput) : SortedMap String (Raw ProjectIndex) :=
  SortedMap.insert input.project (.json (upsertComponentEntry (loadProjectIndex st input.project) input)) st.indexes

def deploy (t : Target) (names : Option (List String)) (now : Timestamp) (st : ProjectsState) :
    Except CommandRefusal ProjectsState :=
  if (picked t names).isEmpty then .error .noServices
  else
    match findCrossComponentServiceConflicts (loadProjectIndex st t.config.project) t.config.component t.config.services with
    | c :: cs => .error (.serviceNameConflict t.config.project (c :: cs))
    | [] => .ok
      { entries := (st.entries.filter fun e => !replaces t names e) ++ (picked t names).map fun s => ⟨t.identity, s, false⟩
        indexes := upsertProjectIndex st ⟨t.config.project, t.config.component, t.config.services, now.iso⟩
        markers :=
          match t.env with
          | none => st.markers
          | some env =>
            SortedMap.insert t.identity.owner ⟨t.config.project, t.config.component, env, t.identity.owner⟩ st.markers }

def runJob (t : Target) (name : String) (st : ProjectsState) : Except CommandRefusal ProjectsState :=
  if t.config.jobs.contains name then .ok
    { st with
      entries := (st.entries.filter fun e => !(e.of.owner = t.identity.owner && e.name = name)) ++ [⟨t.identity, name, true⟩] }
  else .error (.noJob name)

/-- The run is over. -/
def removeJobRun (t : Target) (name : String) (st : ProjectsState) : ProjectsState :=
  { st with entries := st.entries.filter fun e => !(e.of.owner = t.identity.owner && e.name = name && e.job) }

def removeFromProjectIndex (st : ProjectsState) (project : String) (component : Option String) (now : String) :
    SortedMap String (Raw ProjectIndex) :=
  match loadProjectIndex st project with
  | none => st.indexes
  | some index =>
    match removeComponentEntry index component now with
    | none => SortedMap.erase project st.indexes
    | some next => SortedMap.insert project (.json next) st.indexes

/-- `runFootprintDestroy`: the whole footprint, or one service of it. -/
def destroy (t : Target) (service : Option String) (now : Timestamp) (st : ProjectsState) : Except CommandRefusal ProjectsState :=
  let owned := st.entries.filter fun e => e.of.owner = t.identity.owner
  match service with
  | some service =>
    if (owned.map (·.name)).contains service then .ok
      { st with entries := st.entries.filter fun e => !(e.of.owner = t.identity.owner && e.name = service) }
    else .error (.notDeployed service t.identity.owner)
  | none =>
    if owned.isEmpty then .error (.nothingDeployed t.identity.owner)
    else .ok
      { st with
        entries := st.entries.filter fun e => e.of.owner ≠ t.identity.owner
        indexes :=
          if t.env.isNone then removeFromProjectIndex st t.config.project t.config.component now.iso else st.indexes }

/-- `destroyEnvFootprint` past its guard. -/
def destroyEnv (marker : PreviewMarker) (st : ProjectsState) : ProjectsState :=
  { st with
    entries := st.entries.filter fun e => e.of.owner ≠ marker.owner
    markers := SortedMap.erase marker.owner st.markers }

/-- The owners a `destroy --project` goes through. -/
def projectOwners (st : ProjectsState) (project : String) (index : ProjectIndex) : List String :=
  ((st.markers.map (·.2)).filter (·.project = project)).map (·.owner) ++ index.components.map (·.owner)

/-- `runProjectDestroy`, every teardown succeeding. -/
def destroyProject (project : String) (st : ProjectsState) : Except CommandRefusal ProjectsState :=
  match loadProjectIndex st project with
  | none => .error (.noRegistry project)
  | some index =>
    let owners := projectOwners st project index
    .ok
      { entries := st.entries.filter fun e => !owners.contains e.of.owner
        indexes := SortedMap.erase project st.indexes
        markers := SortedMap.filterKeys (fun owner => !owners.contains owner) st.markers }

inductive Command where
  | deploy (t : Target) (names : Option (List String)) (now : Timestamp)
  | runJob (t : Target) (name : String)
  | removeJobRun (t : Target) (name : String)
  | destroy (t : Target) (service : Option String) (now : Timestamp)
  | destroyEnv (marker : PreviewMarker)
  | destroyProject (project : String)

/-- A refused command changes nothing. -/
def step (st : ProjectsState) : Command → ProjectsState
  | .deploy t names now => (deploy t names now st).toOption.getD st
  | .runJob t name => (runJob t name st).toOption.getD st
  | .removeJobRun t name => removeJobRun t name st
  | .destroy t service now => (destroy t service now st).toOption.getD st
  | .destroyEnv marker => destroyEnv marker st
  | .destroyProject project => (destroyProject project st).toOption.getD st

/-! ## What the index's operations keep -/

section Index

variable {index next : ProjectIndex} {t : Target}

theorem ownerMatches_iff {s : String} : ownerMatches s = true ↔
    (∃ c, s.toList.head? = some c ∧ (c.isLower || c.isDigit) = true) ∧
    ∀ c ∈ s.toList, (c.isLower || c.isDigit) = true ∨ c = '-' := by
  unfold ownerMatches
  cases hl : s.toList with
  | nil => simp
  | cons c cs =>
    simp only [List.head?_cons, Option.some.injEq, exists_eq_left', Bool.and_eq_true, List.all_eq_true, Bool.or_eq_true,
      beq_iff_eq, List.mem_cons, forall_eq_or_imp]
    constructor
    · intro ⟨hc, hcs⟩
      exact ⟨hc, .inl hc, hcs⟩
    · intro ⟨hc, _, hcs⟩
      exact ⟨hc, hcs⟩

theorem label_ne {s : String} (h : labelMatches s = true) : s ≠ "" := by
  intro e
  subst e
  exact absurd h (by decide)

theorem ownerMatches_base (a : FootprintIdentity) : ownerMatches a.base = true := by
  obtain ⟨_, ⟨c, hc, halnum⟩, _, hall⟩ := labelMatches_iff.mp a.project_label
  rw [ownerMatches_iff, a.base_toList]
  refine ⟨⟨c, ?_, halnum⟩, fun d hd => ?_⟩
  · rw [List.head?_append, hc]
    rfl
  · rcases List.mem_append.mp hd with hd | hd
    · exact hall d hd
    · unfold FootprintIdentity.componentPart at hd
      cases hcomponent : a.component with
      | none =>
        rw [hcomponent] at hd
        cases hd
      | some component =>
        rw [hcomponent, List.mem_cons, List.mem_cons] at hd
        rcases hd with rfl | rfl | hd
        · exact .inr rfl
        · exact .inr rfl
        · exact (labelMatches_iff.mp (a.component_label hcomponent)).2.2.2 d hd

theorem parsed_index {raw : Raw ProjectIndex} (h : parseProjectIndex raw = some index) : projectIndexSchema index = true := by
  cases raw with
  | other body => cases h
  | json value =>
    simp only [parseProjectIndex] at h
    split at h
    · rename_i hs
      cases h
      exact hs
    · cases h

theorem loaded_schema {st : ProjectsState} {project : String} (h : loadProjectIndex st project = some index) :
    projectIndexSchema index = true := by
  obtain ⟨raw, _, hparse⟩ := Option.bind_eq_some_iff.mp h
  exact parsed_index hparse

/-- What a deploy hands to the upsert. -/
def Target.input (t : Target) (now : Timestamp) : UpsertComponentInput :=
  ⟨t.config.project, t.config.component, t.config.services, now.iso⟩

theorem mem_upserted {index : Option ProjectIndex} {input : UpsertComponentInput} {c : ProjectComponentEntry} :
    c ∈ (upsertComponentEntry index input).components ↔
      (c.component ≠ registryComponentName input.component ∧ ∃ ix, index = some ix ∧ c ∈ ix.components) ∨
        c = ⟨registryComponentName input.component, componentOwner input.project input.component,
          input.services.dedup.insertionSort (· ≤ ·), input.now⟩ := by
  unfold upsertComponentEntry
  dsimp only
  rw [(List.perm_insertionSort ..).mem_iff, List.mem_append, List.mem_singleton, List.mem_filter]
  cases index with
  | none => simp
  | some ix => simp [and_comm]

/-- An index that a deploy writes is one that the next command reads. -/
theorem upserted_schema {index : Option ProjectIndex} (hindex : ∀ ix, index = some ix → projectIndexSchema ix = true)
    (now : Timestamp) : projectIndexSchema (upsertComponentEntry index (t.input now)) = true := by
  have hproject : labelMatches t.config.project = true := t.identity.project_label
  have hname : labelMatches (registryComponentName t.config.component) = true := by
    cases hc : t.config.component with
    | none => exact default_label
    | some component => exact t.identity.component_label hc
  have hentries : ∀ c ∈ (upsertComponentEntry index (t.input now)).components, componentEntrySchema c = true := by
    intro c hc
    rcases mem_upserted.mp hc with ⟨_, ix, hix, hmem⟩ | rfl
    · have hschema := hindex ix hix
      simp only [projectIndexSchema, Bool.and_eq_true, List.all_eq_true] at hschema
      exact hschema.1.2 c hmem
    · have howner : ownerMatches (componentOwner t.config.project t.config.component) = true := ownerMatches_base t.identity
      have hservices : ∀ s ∈ t.config.services.dedup.insertionSort (· ≤ ·), s ≠ "" := by
        intro s hs
        have hmem := List.mem_dedup.mp ((List.perm_insertionSort ..).mem_iff.mp hs)
        exact label_ne (List.all_eq_true.mp t.config.service_labels s hmem)
      simp only [componentEntrySchema, Target.input, Bool.and_eq_true, List.all_eq_true, bne_iff_ne, ne_eq]
      exact ⟨⟨⟨hname, howner⟩, hservices⟩, now.ne⟩
  simp only [projectIndexSchema, Bool.and_eq_true, List.all_eq_true]
  exact ⟨⟨⟨by simp [upsertComponentEntry], hproject⟩, hentries⟩, by simpa [upsertComponentEntry, Target.input] using now.ne⟩

theorem no_conflicts {index : Option ProjectIndex} {component : Option String} {services : List String}
    (h : findCrossComponentServiceConflicts index component services = []) {ix : ProjectIndex} (hix : index = some ix)
    {c : ProjectComponentEntry} (hc : c ∈ ix.components) (hne : c.component ≠ registryComponentName component) {s : String}
    (hs : s ∈ services) : s ∉ c.services := by
  subst hix
  intro hmem
  have hconflict : (⟨s, c.component⟩ : ServiceConflict) ∈ findCrossComponentServiceConflicts (some ix) component services :=
    List.mem_flatMap.mpr ⟨c, List.mem_filter.mpr ⟨hc, by simpa using hne⟩,
      List.mem_map.mpr ⟨s, List.mem_filter.mpr ⟨hs, by simpa using hmem⟩, rfl⟩⟩
  rw [h] at hconflict
  cases hconflict

/-- Taking one component's entry out leaves the others, if there are others. -/
theorem removed_schema (hindex : projectIndexSchema index = true) (component : Option String) (now : Timestamp)
    (h : removeComponentEntry index component now.iso = some next) : projectIndexSchema next = true ∧
      next.components = index.components.filter (·.component ≠ registryComponentName component) := by
  simp only [removeComponentEntry] at h
  split at h
  · cases h
  · cases h
    simp only [projectIndexSchema, Bool.and_eq_true, List.all_eq_true] at hindex ⊢
    exact ⟨⟨⟨hindex.1.1, fun c hc => hindex.1.2 c (List.mem_filter.mp hc).1⟩, by simpa using now.ne⟩, trivial⟩

end Index

/-! ## Names kept apart -/

section Run

variable {st : ProjectsState} {t : Target} {names : Option (List String)} {now : Timestamp} {e : Published}

/-- The index has the name under the entry's component. -/
def Registered (st : ProjectsState) (e : Published) : Prop :=
  ∃ index, loadProjectIndex st e.of.project = some index ∧
    ∃ c ∈ index.components, c.component = registryComponentName e.of.component ∧ e.name ∈ c.services

/-- Entered in the index under the configuration's own name. -/
def SameEntry (t : Target) (e : Published) : Prop :=
  e.of.project = t.config.project ∧ registryComponentName e.of.component = registryComponentName t.config.component

/-- Of another component, and not to be seen in the index as such: a job's, or entered
    under the configuration's own name. -/
def Hidden (t : Target) (e : Published) : Prop :=
  e.of.project = t.config.project ∧ e.of.component ≠ t.config.component ∧ (e.job = true ∨ SameEntry t e)

/-- What a command needs of the state it finds, for the index to stay true and to be enough. -/
def Careful (st : ProjectsState) : Command → Prop
  | .deploy t names _ =>
    (∀ e ∈ st.entries, replaces t names e = false → e.job = false → SameEntry t e → e.name ∈ t.config.services) ∧
      ∀ e ∈ st.entries, replaces t names e = false → Hidden t e → e.name ∉ picked t names
  | .runJob t name => ∀ e ∈ st.entries, e.of.project = t.config.project → e.of.component ≠ t.config.component →
      e.of.owner ≠ t.identity.owner → e.name ≠ name
  | .destroy t none _ => t.env = none →
      ∀ e ∈ st.entries, e.job = false → SameEntry t e → e.of.owner = t.identity.owner
  | .destroyProject project => ∀ index ∈ loadProjectIndex st project,
      ∀ e ∈ st.entries, e.job = false → e.of.project = project → e.of.owner ∈ projectOwners st project index
  | _ => True

/-- Two components of one project publish no name both. -/
def NamesApart (st : ProjectsState) : Prop :=
  ∀ e ∈ st.entries, ∀ e' ∈ st.entries, e.of.project = e'.of.project → e.of.component ≠ e'.of.component → e.name ≠ e'.name

structure Inv (st : ProjectsState) : Prop where
  registered : ∀ e ∈ st.entries, e.job = false → Registered st e
  apart : NamesApart st

/-- The same index, and fewer entries. -/
theorem Inv.fewer (h : Inv st) {st' : ProjectsState} (hindexes : st'.indexes = st.indexes)
    (hentries : ∀ e ∈ st'.entries, e ∈ st.entries) : Inv st' where
  registered e he hjob := by
    obtain ⟨index, hload, hc⟩ := h.registered e (hentries e he) hjob
    exact ⟨index, by rw [loadProjectIndex, hindexes]; exact hload, hc⟩
  apart e he e' he' := h.apart e (hentries e he) e' (hentries e' he')

/-- An index written for one project, as every project's is read. -/
theorem load_insert {index : ProjectIndex} (hschema : projectIndexSchema index = true) {st' : ProjectsState} {project : String}
    (hindexes : st'.indexes = SortedMap.insert project (.json index) st.indexes) (other : String) :
    loadProjectIndex st' other = if other = project then some index else loadProjectIndex st other := by
  unfold loadProjectIndex
  rw [hindexes, SortedMap.get_insert]
  split
  · simp [parseProjectIndex, hschema]
  · rfl

theorem deploy_ok {st' : ProjectsState} (h : deploy t names now st = .ok st') :
    findCrossComponentServiceConflicts (loadProjectIndex st t.config.project) t.config.component t.config.services = [] ∧
      st'.entries = (st.entries.filter fun e => !replaces t names e) ++ (picked t names).map (fun s => ⟨t.identity, s, false⟩) ∧
      st'.indexes = upsertProjectIndex st (t.input now) := by
  unfold deploy at h
  split at h
  · cases h
  · split at h
    · cases h
    · rename_i hnone
      cases h
      exact ⟨hnone, rfl, rfl⟩

theorem picked_sub {s : String} (h : s ∈ picked t names) : s ∈ t.config.services := by
  unfold picked at h
  cases names with
  | none => exact h
  | some l => exact (List.mem_filter.mp h).1

theorem deploy_inv (h : Inv st) (hcareful : Careful st (.deploy t names now)) {st' : ProjectsState}
    (hdeploy : deploy t names now st = .ok st') : Inv st' := by
  obtain ⟨hstaying, hhidden⟩ := hcareful
  obtain ⟨hconflicts, hentries, hindexes⟩ := deploy_ok hdeploy
  have hschema := @upserted_schema t (loadProjectIndex st t.config.project) (fun ix hix => loaded_schema hix) now
  have hload : ∀ other, loadProjectIndex st' other =
      if other = t.config.project then some (upsertComponentEntry (loadProjectIndex st t.config.project) (t.input now))
      else loadProjectIndex st other :=
    load_insert hschema hindexes
  have hmem : ∀ e ∈ st'.entries, (e ∈ st.entries ∧ replaces t names e = false) ∨
      ∃ s ∈ picked t names, e = ⟨t.identity, s, false⟩ := by
    intro e he
    rw [hentries] at he
    rcases List.mem_append.mp he with he | he
    · obtain ⟨he, hr⟩ := List.mem_filter.mp he
      exact .inl ⟨he, by simpa using hr⟩
    · obtain ⟨s, hs, rfl⟩ := List.mem_map.mp he
      exact .inr ⟨s, hs, rfl⟩
  -- a name the configuration has is in the entry it writes
  have hown : ∀ s ∈ t.config.services, ∃ c ∈ (upsertComponentEntry (loadProjectIndex st t.config.project) (t.input now)).components,
      c.component = registryComponentName t.config.component ∧ s ∈ c.services := by
    intro s hs
    refine ⟨_, mem_upserted.mpr (.inr rfl), rfl, ?_⟩
    exact (List.perm_insertionSort ..).mem_iff.mpr (List.mem_dedup.mpr hs)
  -- a published name and one that the deploy brings
  have hnew : ∀ e ∈ st.entries, replaces t names e = false → e.of.project = t.config.project →
      e.of.component ≠ t.config.component → ∀ s ∈ picked t names, e.name ≠ s := by
    intro e he hr hproject hcomponent s hs hname
    by_cases hidden : e.job = true ∨ SameEntry t e
    · exact hhidden e he hr ⟨hproject, hcomponent, hidden⟩ (hname ▸ hs)
    · rw [not_or] at hidden
      obtain ⟨index, hindex, c, hc, hcname, hcs⟩ := h.registered e he (by simpa using hidden.1)
      rw [hproject] at hindex
      have hne : c.component ≠ registryComponentName t.config.component := fun e' => hidden.2 ⟨hproject, hcname.symm.trans e'⟩
      exact no_conflicts hconflicts hindex hc hne (picked_sub hs) (hname ▸ hcs)
  constructor
  · intro e he hjob
    rcases hmem e he with ⟨he, hr⟩ | ⟨s, hs, rfl⟩
    · by_cases hproject : e.of.project = t.config.project
      · refine ⟨_, by rw [hload, if_pos hproject], ?_⟩
        by_cases hname : registryComponentName e.of.component = registryComponentName t.config.component
        · rw [hname]
          exact hown e.name (hstaying e he hr hjob ⟨hproject, hname⟩)
        · obtain ⟨index, hindex, c, hc, hcname, hcs⟩ := h.registered e he hjob
          rw [hproject] at hindex
          exact ⟨c, mem_upserted.mpr (.inl ⟨by rw [hcname]; exact hname, index, hindex, hc⟩), hcname, hcs⟩
      · obtain ⟨index, hindex, hc⟩ := h.registered e he hjob
        exact ⟨index, by rw [hload, if_neg hproject]; exact hindex, hc⟩
    · exact ⟨_, by rw [hload]; exact if_pos rfl, hown s (picked_sub hs)⟩
  · intro e he e' he' hproject hcomponent
    rcases hmem e he with ⟨he, hr⟩ | ⟨s, hs, rfl⟩
    · rcases hmem e' he' with ⟨he', hr'⟩ | ⟨s', hs', rfl⟩
      · exact h.apart e he e' he' hproject hcomponent
      · exact hnew e he hr hproject hcomponent s' hs'
    · rcases hmem e' he' with ⟨he', hr'⟩ | ⟨s', hs', rfl⟩
      · exact (hnew e' he' hr' hproject.symm hcomponent.symm s hs).symm
      · exact absurd rfl hcomponent

theorem runJob_inv (h : Inv st) {name : String} (hcareful : Careful st (.runJob t name)) {st' : ProjectsState}
    (hrun : runJob t name st = .ok st') : Inv st' := by
  unfold runJob at hrun
  split at hrun
  · cases hrun
    have hkept : ∀ e ∈ st.entries.filter fun e => !(e.of.owner = t.identity.owner && e.name = name),
        e ∈ st.entries ∧ ¬(e.of.owner = t.identity.owner ∧ e.name = name) := by
      intro e he
      obtain ⟨he, hstays⟩ := List.mem_filter.mp he
      refine ⟨he, fun ⟨howner, hname⟩ => ?_⟩
      simp [howner, hname] at hstays
    -- the entry of another component that stays has another name
    have hnew : ∀ e ∈ st.entries, ¬(e.of.owner = t.identity.owner ∧ e.name = name) → e.of.project = t.config.project →
        e.of.component ≠ t.config.component → e.name ≠ name := by
      intro e he hstays hproject hcomponent hname
      exact hcareful e he hproject hcomponent (fun howner => hstays ⟨howner, hname⟩) hname
    constructor
    · intro e he hjob
      rcases List.mem_append.mp he with he | he
      · exact h.registered e (hkept e he).1 hjob
      · obtain rfl := List.mem_singleton.mp he
        cases hjob
    · intro e he e' he' hproject hcomponent
      rcases List.mem_append.mp he with he | he
      · rcases List.mem_append.mp he' with he' | he'
        · exact h.apart e (hkept e he).1 e' (hkept e' he').1 hproject hcomponent
        · obtain rfl := List.mem_singleton.mp he'
          exact hnew e (hkept e he).1 (hkept e he).2 hproject hcomponent
      · obtain rfl := List.mem_singleton.mp he
        rcases List.mem_append.mp he' with he' | he'
        · exact (hnew e' (hkept e' he').1 (hkept e' he').2 hproject.symm hcomponent.symm).symm
        · obtain rfl := List.mem_singleton.mp he'
          exact absurd rfl hcomponent
  · cases hrun

/-- Taking a component's entry out leaves what other entries register. -/
theorem registered_removed (now : Timestamp) {st' : ProjectsState}
    (hindexes : st'.indexes = removeFromProjectIndex st t.config.project t.config.component now.iso)
    (hreg : Registered st e) (hother : ¬SameEntry t e) : Registered st' e := by
  obtain ⟨index, hload, c, hc, hname, hmem⟩ := hreg
  by_cases hproject : e.of.project = t.config.project
  · have hne : c.component ≠ registryComponentName t.config.component := fun he => hother ⟨hproject, hname.symm.trans he⟩
    have hkept : c ∈ index.components.filter (·.component ≠ registryComponentName t.config.component) :=
      List.mem_filter.mpr ⟨hc, by simpa using hne⟩
    rw [hproject] at hload
    cases hnext : removeComponentEntry index t.config.component now.iso with
    | none =>
      simp only [removeComponentEntry, List.isEmpty_iff] at hnext
      rw [if_neg (List.ne_nil_of_mem hkept)] at hnext
      cases hnext
    | some next =>
      obtain ⟨hschema, hcomponents⟩ := removed_schema (loaded_schema hload) t.config.component now hnext
      rw [removeFromProjectIndex, hload] at hindexes
      simp only [hnext] at hindexes
      refine ⟨next, by rw [load_insert hschema hindexes, if_pos hproject], c, ?_, hname, hmem⟩
      rw [hcomponents]
      exact hkept
  · refine ⟨index, ?_, c, hc, hname, hmem⟩
    rw [← hload, loadProjectIndex, loadProjectIndex, hindexes, removeFromProjectIndex]
    split
    · rfl
    · split
      · rw [SortedMap.get_erase, if_neg hproject]
      · rw [SortedMap.get_insert_ne hproject]

theorem destroy_inv (h : Inv st) {service : Option String} (hcareful : Careful st (.destroy t service now)) {st' : ProjectsState}
    (hdestroy : destroy t service now st = .ok st') : Inv st' := by
  unfold destroy at hdestroy
  cases service with
  | some service =>
    dsimp only at hdestroy
    split at hdestroy
    · cases hdestroy
      exact h.fewer rfl fun e he => (List.mem_filter.mp he).1
    · cases hdestroy
  | none =>
    dsimp only at hdestroy
    split at hdestroy
    · cases hdestroy
    · cases hdestroy
      by_cases henv : t.env = none
      · have hstays : ∀ e ∈ st.entries.filter fun e => e.of.owner ≠ t.identity.owner,
            e ∈ st.entries ∧ e.of.owner ≠ t.identity.owner := by
          intro e he
          simpa using List.mem_filter.mp he
        constructor
        · intro e he hjob
          obtain ⟨he, howner⟩ := hstays e he
          refine registered_removed now ?_ (h.registered e he hjob) fun hsame => howner (hcareful henv e he hjob hsame)
          simp [henv]
        · intro e he e' he'
          exact h.apart e (hstays e he).1 e' (hstays e' he').1
      · refine h.fewer ?_ fun e he => (List.mem_filter.mp he).1
        simp [henv]

theorem destroyProject_inv (h : Inv st) {project : String} (hcareful : Careful st (.destroyProject project)) {st' : ProjectsState}
    (hdestroy : destroyProject project st = .ok st') : Inv st' := by
  unfold destroyProject at hdestroy
  cases hload : loadProjectIndex st project with
  | none =>
    rw [hload] at hdestroy
    cases hdestroy
  | some index =>
    rw [hload] at hdestroy
    cases hdestroy
    constructor
    · intro e he hjob
      obtain ⟨he, hstays⟩ := List.mem_filter.mp he
      have hproject : e.of.project ≠ project := by
        intro hproject
        have howner := hcareful index hload e he hjob hproject
        simp [howner] at hstays
      obtain ⟨other, hother, hc⟩ := h.registered e he hjob
      refine ⟨other, ?_, hc⟩
      rw [← hother, loadProjectIndex, loadProjectIndex, SortedMap.get_erase, if_neg hproject]
    · intro e he e' he'
      exact h.apart e (List.mem_filter.mp he).1 e' (List.mem_filter.mp he').1

theorem step_inv (h : Inv st) {c : Command} (hcareful : Careful st c) : Inv (step st c) := by
  have lift : ∀ r : Except CommandRefusal ProjectsState, (∀ st', r = .ok st' → Inv st') → Inv (r.toOption.getD st) := by
    intro r hr
    cases r with
    | error e => exact h
    | ok st' => exact hr st' rfl
  cases c with
  | deploy t names now => exact lift _ fun st' => deploy_inv h hcareful
  | runJob t name => exact lift _ fun st' => runJob_inv h hcareful
  | removeJobRun t name => exact h.fewer rfl fun e he => (List.mem_filter.mp he).1
  | destroy t service now => exact lift _ fun st' => destroy_inv h hcareful
  | destroyEnv marker => exact h.fewer rfl fun e he => (List.mem_filter.mp he).1
  | destroyProject project => exact lift _ fun st' => destroyProject_inv h hcareful

end Run

/-! ## Runs -/

/-- What commands make of an empty cluster, one after the other. -/
def run (commands : List Command) : ProjectsState := commands.foldl step .init

/-- Each command is careful in the state it finds. -/
def CarefulFrom (st : ProjectsState) : List Command → Prop
  | [] => True
  | c :: commands => Careful st c ∧ CarefulFrom (step st c) commands

theorem foldl_inv {st : ProjectsState} (hst : Inv st) (commands : List Command) (h : CarefulFrom st commands) :
    Inv (commands.foldl step st) := by
  induction commands generalizing st with
  | nil => exact hst
  | cons c commands ih => exact ih (step_inv hst h.1) h.2

theorem run_inv (commands : List Command) (h : CarefulFrom .init commands) : Inv (run commands) :=
  foldl_inv ⟨fun e he => (by cases he), fun e he => (by cases he)⟩ commands h

/-- `ecrRepositoryName`. -/
def ecrRepositoryName (project service : String) : String := project ++ "/" ++ service

section Decide

instance (t : Target) (e : Published) : Decidable (SameEntry t e) := inferInstanceAs (Decidable (_ ∧ _))
instance (t : Target) (e : Published) : Decidable (Hidden t e) := inferInstanceAs (Decidable (_ ∧ _ ∧ (_ ∨ _)))

instance (st : ProjectsState) (c : Command) : Decidable (Careful st c) :=
  match c with
  | .deploy .. => inferInstanceAs (Decidable (_ ∧ _))
  | .runJob .. => inferInstanceAs (Decidable (∀ e ∈ st.entries, _))
  | .removeJobRun .. => .isTrue trivial
  | .destroy _ none _ => inferInstanceAs (Decidable (_ → ∀ e ∈ st.entries, _))
  | .destroy _ (some _) _ => .isTrue trivial
  | .destroyEnv _ => .isTrue trivial
  | .destroyProject project => inferInstanceAs (Decidable (∀ index ∈ loadProjectIndex st project, ∀ e ∈ st.entries, _))

instance decidableCarefulFrom (st : ProjectsState) : (commands : List Command) → Decidable (CarefulFrom st commands)
  | [] => .isTrue trivial
  | c :: commands =>
    have := decidableCarefulFrom (step st c) commands
    inferInstanceAs (Decidable (_ ∧ _))

instance (st : ProjectsState) : Decidable (NamesApart st) := inferInstanceAs (Decidable (∀ e ∈ st.entries, ∀ e' ∈ st.entries, _))

end Decide

/-- A configuration of `shop` with one service. -/
def shopConfig (component : Option String) (service : String) (job : List String)
    (names : configNames "shop" component = true) (labels : labelMatches service = true)
    (jobs : job.all labelMatches = true) (nodup : ([service] ++ job).Nodup) : ProjectConfig where
  project := "shop"
  component
  services := [service]
  jobs := job
  names
  service_labels := by simp [labels]
  job_labels := jobs
  nodup

def noon : Timestamp := ⟨"12:00", by decide⟩

def bareWeb : ProjectConfig := shopConfig none "web" [] (by decide +kernel) (by decide +kernel) rfl (by decide)
def defaultWeb : ProjectConfig := shopConfig (some "default") "web" [] (by decide +kernel) (by decide +kernel) rfl (by decide)
def frontWeb : ProjectConfig := shopConfig (some "front") "web" [] (by decide +kernel) (by decide +kernel) rfl (by decide)
def backWeb : ProjectConfig := shopConfig (some "back") "web" [] (by decide +kernel) (by decide +kernel) rfl (by decide)
def backApi : ProjectConfig := shopConfig (some "back") "api" ["web"] (by decide +kernel) (by decide +kernel) (by decide +kernel) (by decide)

/-- `front` with `web`, and `back` with `api`, twice. -/
def apartRun : List Command :=
  [.deploy ⟨frontWeb, none, rfl⟩ none noon, .deploy ⟨backApi, none, rfl⟩ none noon, .deploy ⟨backApi, none, rfl⟩ none noon]

/-- A footprint without a component, and one whose component is called `default`. -/
def defaultRun : List Command := [.deploy ⟨bareWeb, none, rfl⟩ none noon, .deploy ⟨defaultWeb, none, rfl⟩ none noon]

/-- `front` goes and its environment `pr` stays; then `back` takes the name. -/
def environmentRun : List Command :=
  [.deploy ⟨frontWeb, some "pr", by decide +kernel⟩ none noon, .deploy ⟨frontWeb, none, rfl⟩ none noon,
    .destroy ⟨frontWeb, none, rfl⟩ none noon, .deploy ⟨backWeb, none, rfl⟩ none noon]

/-- A job of `back` called as a service of `front`. -/
def jobRun : List Command := [.deploy ⟨frontWeb, none, rfl⟩ none noon, .runJob ⟨backApi, none, rfl⟩ "web"]

end LaunchPad.Cli.Components
