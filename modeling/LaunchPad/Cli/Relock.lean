/-
  LaunchPad.Cli.Relock — the config lock without its baseline (`commands/deploy.ts`
  `resolveConfigLockOutcome`): it is then rebuilt from the documents that are published
  (`deploy/deployed-footprint.ts` `loadDeployedFootprints`, `shared/src/config-lock.ts`
  `baselineFromDeployedFootprints`). With nothing published the deploy is a first one.

  As built: the rebuilt baseline takes every entry of the owner's as a service of the file, a
  run of a job as well. While one is published the file it was deployed from is refused, the
  job being missing among its services (`published_run_locks`).

  Proved:
  - `relock_iff`: between two accepted files the lock compares what is locked, and the
    rebuilt baseline accepts the file that was deployed exactly when nothing is published, or
    all its services and no run are.
-/
import LaunchPad.Cli.ConfigLock

namespace LaunchPad.Cli.ConfigLock

open Lib

/-! ## What is deployed -/

structure DeployedFootprint where
  service : String
  nodeIds : List String
  replicas : Int
  cpu : Int
  memory : Int
  env : List (String × String)
  ingress : Option Ingress
  healthCheck : Option HealthCheck
  rollout : Rollout
  secrets : List String
  volumes : List VolumeDecl
  cron : Option String
  database : Option ServiceDatabase
  deriving DecidableEq, Repr

/-- A service as its first entry has it. -/
def footprintOf (nodeId : String) (s : ServiceConfig) : DeployedFootprint where
  service := s.service
  nodeIds := [nodeId]
  replicas := s.replicas
  cpu := s.cpu
  memory := s.memory
  env := s.env
  ingress := s.ingress
  healthCheck := s.healthCheck
  rollout := s.rollout
  secrets := s.secretRefs.map (·.name)
  volumes := s.volumes
  cron := s.cron
  database := s.database

/-- A later entry adds its node and its replicas. -/
def addEntry (nodeId : String) (s : ServiceConfig) : Option DeployedFootprint → DeployedFootprint
  | none => footprintOf nodeId s
  | some existing => { existing with nodeIds := existing.nodeIds ++ [nodeId], replicas := existing.replicas + s.replicas }

section Load

variable (states : List (String × List ServiceConfig)) (ownerProject : String)

/-- The owner's entries, with their nodes. -/
def ownedEntries : List (String × ServiceConfig) :=
  states.flatMap fun state => (state.2.filter (·.project = ownerProject)).map fun s => (state.1, s)

/-- `byService`. -/
def footprintsByService : FirstSeen String DeployedFootprint :=
  (ownedEntries states ownerProject).foldl (fun g e => g.upsert e.2.service (addEntry e.1 e.2)) .empty

def loadDeployedFootprints : List DeployedFootprint :=
  ((footprintsByService states ownerProject).entries.map fun e => { e.2 with nodeIds := e.2.nodeIds.insertionSort (· ≤ ·) }).insertionSort
    fun a b => a.service ≤ b.service

end Load

/-! ## The rebuilt baseline -/

/-- Without the variable that a deploy puts in. -/
def declaredEnv (env : List (String × String)) : List (String × String) := env.filter (·.1 ≠ launchPadEnvironment)

/-- An empty domain and port 0 count as none. -/
def rebuiltSnapshot (f : DeployedFootprint) : ServiceSnapshot where
  name := f.service
  cron := f.cron
  dockerfile := ""
  context := ""
  replicas := f.replicas
  cpu := f.cpu
  memory := f.memory
  env := declaredEnv f.env
  domain := (f.ingress.map (·.domain)).filter (· ≠ "")
  port := (f.ingress.map (·.port)).filter (· ≠ 0)
  healthCheck := f.healthCheck
  rollout := f.rollout
  secrets := f.secrets
  volumes := f.volumes
  database := f.database.map databaseIdentity

def baselineFromDeployedFootprints (project : String) (component : Option String) (footprints : List DeployedFootprint)
    (lockedAt : String) : ConfigBaseline where
  project := project
  component := component
  services := (footprints.map rebuiltSnapshot).insertionSort fun a b => a.name ≤ b.name
  lockedAt := lockedAt

inductive ConfigLockOutcome where
  | firstDeploy
  | clean
  deriving DecidableEq, Repr

/-- The lock when no baseline is stored. -/
def resolveFromDesired (states : List (String × List ServiceConfig)) (config : LaunchPadConfig) (ownerProject : String)
    (allowNewServices : Bool) (now : String) : Except (List ConfigLockViolation) ConfigLockOutcome :=
  let footprints := loadDeployedFootprints states ownerProject
  if footprints.isEmpty then .ok .firstDeploy
  else
    let violations := findConfigLockViolations { baselineFromDesired := true, allowNewServices }
      (baselineFromDeployedFootprints config.project config.component footprints now) (snapshotConfigBaseline config now)
    if violations.isEmpty then .ok .clean else .error violations

/-! ## What a file publishes -/

/-- The entry of one run of a job. -/
def toJobServiceConfig (aws : AwsEnv) (ownerProject : String) (job : JobDecl) (image runId requestedAt : String)
    (env : Option String) : ServiceConfig where
  project := ownerProject
  service := job.name
  image := image
  cpu := job.cpu
  memory := job.memory
  replicas := 1
  env := containerEnvForDeploy job.env env
  secretRefs := secretRefsForService job.secrets aws.clusterId ownerProject job.name
  ingress := none
  healthCheck := none
  rollout := {}
  volumes := []
  jobRun := some ⟨runId, requestedAt⟩

/-- An entry that a deploy of the file writes, or a run of one of its jobs. A service has a
    domain in an environment exactly when it declares one. -/
inductive PublishedBy (aws : AwsEnv) (ownerProject : String) (config : LaunchPadConfig) : ServiceConfig → Prop
  | service (d : ServiceBlock) (b : BuiltService) (replicas : Int) (edge env restartAt : Option String) (s : ServiceConfig)
      (declared : d ∈ config.service) (built : b.decl = d.toServiceDecl) (domain : b.domain.isSome = d.domain.isSome)
      (entry : toServiceConfig aws ownerProject b replicas edge env restartAt = .ok s) : PublishedBy aws ownerProject config s
  | job (j : JobDecl) (image runId requestedAt : String) (env : Option String) (declared : j ∈ config.job) :
      PublishedBy aws ownerProject config (toJobServiceConfig aws ownerProject j image runId requestedAt env)

/-- Everything the documents have of the owner's was published from the file. -/
def Published (aws : AwsEnv) (ownerProject : String) (config : LaunchPadConfig) (states : List (String × List ServiceConfig)) : Prop :=
  ∀ state ∈ states, ∀ s ∈ state.2, s.project = ownerProject → PublishedBy aws ownerProject config s

/-- Nothing of the owner's is published, or all its services are and no run of a job. -/
def ServicesOnly (ownerProject : String) (config : LaunchPadConfig) (allowNewServices : Bool)
    (states : List (String × List ServiceConfig)) : Prop :=
  ownedEntries states ownerProject = [] ∨ (∀ e ∈ ownedEntries states ownerProject, e.2.jobRun = none) ∧
    (allowNewServices = true ∨ ∀ d ∈ config.service, ∃ e ∈ ownedEntries states ownerProject, e.2.service = d.name)

/-! ## The footprints have their entries -/

section Footprints

variable {states : List (String × List ServiceConfig)} {ownerProject name : String} {f : DeployedFootprint} {s : ServiceConfig}

/-- What the lock looks at is the entry's. -/
structure FromEntry (f : DeployedFootprint) (s : ServiceConfig) : Prop where
  service : f.service = s.service
  cron : f.cron = s.cron
  ingress : f.ingress = s.ingress
  healthCheck : f.healthCheck = s.healthCheck
  rollout : f.rollout = s.rollout
  volumes : f.volumes = s.volumes
  database : f.database = s.database

/-- The grouping has a footprint for every service seen, from one of its entries. -/
structure Tracks (g : FirstSeen String DeployedFootprint) (seen : List (String × ServiceConfig)) : Prop where
  nodup : g.order.Nodup
  named : ∀ name, SortedMap.get name g.byKey ≠ none ↔ ∃ e ∈ seen, e.2.service = name
  origin : ∀ name f, SortedMap.get name g.byKey = some f → ∃ e ∈ seen, e.2.service = name ∧ FromEntry f e.2

theorem Tracks.add {g : FirstSeen String DeployedFootprint} {seen : List (String × ServiceConfig)} (h : Tracks g seen)
    (e : String × ServiceConfig) : Tracks (g.upsert e.2.service (addEntry e.1 e.2)) (seen ++ [e]) where
  nodup := FirstSeen.upsert_nodup h.nodup
  named := by
    intro name
    rw [FirstSeen.get_upsert]
    by_cases hname : name = e.2.service
    · rw [if_pos hname]
      exact ⟨fun _ => ⟨e, by simp, hname.symm⟩, fun _ => Option.some_ne_none _⟩
    · rw [if_neg hname, h.named name]
      constructor
      · intro ⟨e', he', hn⟩
        exact ⟨e', List.mem_append_left _ he', hn⟩
      · intro ⟨e', he', hn⟩
        rcases List.mem_append.mp he' with he' | he'
        · exact ⟨e', he', hn⟩
        · rw [List.mem_singleton.mp he'] at hn
          exact absurd hn.symm hname
  origin := by
    intro name f hget
    rw [FirstSeen.get_upsert] at hget
    by_cases hname : name = e.2.service
    · rw [if_pos hname] at hget
      cases hold : SortedMap.get e.2.service g.byKey with
      | none =>
        rw [hold] at hget
        cases hget
        exact ⟨e, by simp, hname.symm, ⟨rfl, rfl, rfl, rfl, rfl, rfl, rfl⟩⟩
      | some existing =>
        rw [hold] at hget
        cases hget
        obtain ⟨e', he', hservice, horigin⟩ := h.origin _ existing hold
        refine ⟨e', List.mem_append_left _ he', hservice.trans hname.symm, ?_⟩
        exact ⟨horigin.service, horigin.cron, horigin.ingress, horigin.healthCheck, horigin.rollout, horigin.volumes,
          horigin.database⟩
    · rw [if_neg hname] at hget
      obtain ⟨e', he', hservice, horigin⟩ := h.origin name f hget
      exact ⟨e', List.mem_append_left _ he', hservice, horigin⟩

theorem Tracks.addAll {g : FirstSeen String DeployedFootprint} {seen : List (String × ServiceConfig)} (h : Tracks g seen)
    (l : List (String × ServiceConfig)) :
    Tracks (l.foldl (fun g e => g.upsert e.2.service (addEntry e.1 e.2)) g) (seen ++ l) := by
  induction l generalizing g seen with
  | nil => simpa using h
  | cons e l ih =>
    rw [List.foldl_cons, ← List.singleton_append, ← List.append_assoc]
    exact ih (h.add e)

theorem footprints_track (states : List (String × List ServiceConfig)) (ownerProject : String) :
    Tracks (footprintsByService states ownerProject) (ownedEntries states ownerProject) := by
  have hempty : Tracks (FirstSeen.empty : FirstSeen String DeployedFootprint) [] := by
    refine ⟨List.nodup_nil, fun name => ?_, fun name f hget => by cases hget⟩
    have hnone : SortedMap.get name (FirstSeen.empty : FirstSeen String DeployedFootprint).byKey = none := rfl
    simp [hnone]
  exact hempty.addAll _

theorem mem_loadDeployedFootprints : f ∈ loadDeployedFootprints states ownerProject ↔
    ∃ g name, SortedMap.get name (footprintsByService states ownerProject).byKey = some g ∧
      f = { g with nodeIds := g.nodeIds.insertionSort (· ≤ ·) } := by
  unfold loadDeployedFootprints
  rw [(List.perm_insertionSort ..).mem_iff, List.mem_map]
  constructor
  · intro ⟨⟨name, g⟩, he, hf⟩
    exact ⟨g, name, FirstSeen.mem_entries.mp he, hf.symm⟩
  · intro ⟨g, name, hget, hf⟩
    exact ⟨(name, g), FirstSeen.mem_entries.mpr hget, hf.symm⟩

/-- A service has one footprint. -/
theorem footprints_nodup : ((loadDeployedFootprints states ownerProject).map (·.service)).Nodup := by
  have htracks := footprints_track states ownerProject
  have hnames : (footprintsByService states ownerProject).entries.map (fun e => e.2.service) =
      (footprintsByService states ownerProject).entries.map (·.1) := by
    refine List.map_congr_left fun e he => ?_
    obtain ⟨e', _, hname, horigin⟩ := htracks.origin e.1 e.2 (FirstSeen.mem_entries.mp he)
    exact horigin.service.trans hname
  unfold loadDeployedFootprints
  rw [((List.perm_insertionSort ..).map _).nodup_iff, List.map_map]
  show ((footprintsByService states ownerProject).entries.map fun e => e.2.service).Nodup
  rw [hnames, FirstSeen.entries_keys]
  exact htracks.nodup

theorem footprints_nil : loadDeployedFootprints states ownerProject = [] ↔ ownedEntries states ownerProject = [] := by
  have htracks := footprints_track states ownerProject
  constructor
  · intro h
    rw [List.eq_nil_iff_forall_not_mem]
    intro e he
    obtain ⟨g, hget⟩ := Option.ne_none_iff_exists'.mp ((htracks.named e.2.service).mpr ⟨e, he, rfl⟩)
    have hmem := mem_loadDeployedFootprints.mpr ⟨g, e.2.service, hget, rfl⟩
    rw [h] at hmem
    cases hmem
  · intro h
    rw [List.eq_nil_iff_forall_not_mem]
    intro f hf
    obtain ⟨g, name, hget, _⟩ := mem_loadDeployedFootprints.mp hf
    obtain ⟨e, he, _⟩ := htracks.origin name g hget
    rw [h] at he
    cases he

variable {project now : String} {component : Option String}

/-- The rebuilt baseline has the snapshots of the footprints. -/
theorem serviceNamed_rebuilt {snapshot : ServiceSnapshot} :
    serviceNamed (baselineFromDeployedFootprints project component (loadDeployedFootprints states ownerProject) now) name =
      some snapshot ↔
    ∃ g, SortedMap.get name (footprintsByService states ownerProject).byKey = some g ∧ rebuiltSnapshot g = snapshot := by
  have hperm : (baselineFromDeployedFootprints project component (loadDeployedFootprints states ownerProject) now).services.Perm
      ((loadDeployedFootprints states ownerProject).map rebuiltSnapshot) := List.perm_insertionSort ..
  have hnodup : ((baselineFromDeployedFootprints project component (loadDeployedFootprints states ownerProject) now).services.map
      ServiceSnapshot.name).Nodup := by
    rw [(hperm.map _).nodup_iff, List.map_map]
    exact footprints_nodup
  unfold serviceNamed byName
  rw [FirstSeen.get_ofList_nodup hnodup, hperm.mem_iff, List.mem_map]
  have hname : ∀ g name', SortedMap.get name' (footprintsByService states ownerProject).byKey = some g → g.service = name' := by
    intro g name' hget
    obtain ⟨e, _, he, horigin⟩ := (footprints_track states ownerProject).origin name' g hget
    exact horigin.service.trans he
  constructor
  · intro ⟨⟨f, hf, hsnapshot⟩, hn⟩
    obtain ⟨g, name', hget, rfl⟩ := mem_loadDeployedFootprints.mp hf
    subst hsnapshot
    obtain rfl : name' = name := (hname g name' hget).symm.trans hn
    exact ⟨g, hget, rfl⟩
  · intro ⟨g, hget, hsnapshot⟩
    subst hsnapshot
    exact ⟨⟨_, mem_loadDeployedFootprints.mpr ⟨g, name, hget, rfl⟩, rfl⟩, hname g name hget⟩

theorem serviceNamed_rebuilt_ne :
    serviceNamed (baselineFromDeployedFootprints project component (loadDeployedFootprints states ownerProject) now) name ≠ none ↔
      ∃ e ∈ ownedEntries states ownerProject, e.2.service = name := by
  rw [← (footprints_track states ownerProject).named name, Option.ne_none_iff_exists', Option.ne_none_iff_exists']
  constructor
  · intro ⟨s, hs⟩
    obtain ⟨g, hget, _⟩ := serviceNamed_rebuilt.mp hs
    exact ⟨g, hget⟩
  · intro ⟨g, hget⟩
    exact ⟨_, serviceNamed_rebuilt.mpr ⟨g, hget, rfl⟩⟩

end Footprints

/-! ## The file that was deployed -/

section Deployed

variable {aws : AwsEnv} {ownerProject : String} {config : LaunchPadConfig} {states : List (String × List ServiceConfig)}
  {allowNewServices : Bool} {now : String}

theorem mem_ownedEntries {e : String × ServiceConfig} :
    e ∈ ownedEntries states ownerProject ↔ ∃ state ∈ states, e.1 = state.1 ∧ e.2 ∈ state.2 ∧ e.2.project = ownerProject := by
  unfold ownedEntries
  rw [List.mem_flatMap]
  constructor
  · intro ⟨state, hstate, he⟩
    obtain ⟨s, hs, rfl⟩ := List.mem_map.mp he
    obtain ⟨hmem, howner⟩ := List.mem_filter.mp hs
    exact ⟨state, hstate, rfl, hmem, of_decide_eq_true howner⟩
  · intro ⟨state, hstate, hid, hmem, howner⟩
    refine ⟨state, hstate, List.mem_map.mpr ⟨e.2, List.mem_filter.mpr ⟨hmem, decide_eq_true howner⟩, ?_⟩⟩
    rw [← hid]

/-- A run's entry is a job's. -/
theorem PublishedBy.run {s : ServiceConfig} (h : PublishedBy aws ownerProject config s) (hrun : s.jobRun ≠ none) :
    ∃ j ∈ config.job, s.service = j.name := by
  cases h with
  | service d b replicas edge env restartAt _ declared built domain entry =>
    refine absurd ?_ hrun
    unfold toServiceConfig at entry
    cases hi : ingressOf b edge with
    | error e => rw [hi] at entry; cases entry
    | ok ingress => rw [hi] at entry; cases entry; rfl
  | job j image runId requestedAt env declared => exact ⟨j, declared, rfl⟩

/-- The ingress of a service's entry has its port, which is not 0. -/
theorem ingressOf_port {d : ServiceBlock} {b : BuiltService} {edge : Option String} {ingress : Option Ingress}
    (haccepted : serviceBlockSchema d = true) (built : b.decl = d.toServiceDecl) (hdomain : b.domain.isSome = d.domain.isSome)
    (h : ingressOf b edge = .ok ingress) : (ingress.map (·.port)).filter (· ≠ 0) = d.port := by
  simp only [serviceBlockSchema, serviceDeclSchema, Bool.and_eq_true, beq_iff_eq] at haccepted
  obtain ⟨⟨⟨⟨⟨⟨⟨⟨_, hport⟩, _⟩, _⟩, _⟩, _⟩, _⟩, hweb⟩, _⟩ := haccepted
  have hboth : b.domain.isSome = d.port.isSome := hdomain.trans hweb
  unfold ingressOf at h
  rw [built] at h
  cases hp : d.port with
  | none =>
    rw [hp] at h hboth
    obtain hb : b.domain = none := by simpa using hboth
    rw [hb] at h
    cases h
    rfl
  | some p =>
    rw [hp] at h hboth hport
    obtain ⟨domain, hb⟩ := Option.isSome_iff_exists.mp hboth
    rw [hb] at h
    have hne : p ≠ 0 := by
      simp only [Option.all_some, portOk, Bool.and_eq_true, decide_eq_true_eq] at hport
      omega
    cases edge with
    | none => cases h
    | some edge => cases h; simp [hne]

/-- A service's entry has the service's locked view. -/
theorem PublishedBy.view {s : ServiceConfig} (h : PublishedBy aws ownerProject config s) {f : DeployedFootprint}
    (hf : FromEntry f s) {d : ServiceBlock} (hd : d ∈ config.service) (hname : d.name = s.service) (allow : Bool) :
    lockedServiceView { baselineFromDesired := true, allowNewServices := allow } (rebuiltSnapshot f) =
      lockedServiceView { baselineFromDesired := true, allowNewServices := allow } (serviceSnapshot d) := by
  cases h with
  | service d' b replicas edge env restartAt _ declared built domain entry =>
    unfold toServiceConfig at entry
    cases hi : ingressOf b edge with
    | error e => rw [hi] at entry; cases entry
    | ok ingress =>
      rw [hi] at entry
      cases entry
      obtain rfl : d' = d := by
        refine List.inj_on_of_nodup_map config.service_names declared hd ?_
        have hb : b.decl.name = d'.name := by rw [built]
        exact hb.symm.trans hname.symm
      have hport := ingressOf_port (config.accepted _ declared) built domain hi
      simp only [lockedServiceView, rebuiltSnapshot, serviceSnapshot, hf.service, hf.cron, hf.ingress, hf.healthCheck, hf.rollout,
        hf.volumes, hf.database, built, hport, resolvedHealthCheck, if_true]
  | job j image runId requestedAt env declared =>
    -- A job's name is not a service's.
    have hdisjoint := (List.nodup_append.mp config.names).2.2
    exact absurd hname (hdisjoint _ (List.mem_map.mpr ⟨d, hd, rfl⟩) _ (List.mem_map.mpr ⟨j, declared, rfl⟩))

theorem PublishedBy.service_or_run {s : ServiceConfig} (h : PublishedBy aws ownerProject config s) (hrun : s.jobRun = none) :
    ∃ d ∈ config.service, d.name = s.service := by
  cases h with
  | service d b replicas edge env restartAt _ declared built domain entry =>
    refine ⟨d, declared, ?_⟩
    obtain ⟨_, _, _, _, hservice, _⟩ := toServiceConfig_ok entry
    rw [hservice, built]
  | job j image runId requestedAt env declared => cases hrun

/-- The lock on the rebuilt baseline, against the file that was deployed. -/
theorem rebuilt_unlocked_iff (h : Published aws ownerProject config states) :
    Unlocked { baselineFromDesired := true, allowNewServices }
        (baselineFromDeployedFootprints config.project config.component (loadDeployedFootprints states ownerProject) now)
        (snapshotConfigBaseline config now) ↔
      (∀ e ∈ ownedEntries states ownerProject, e.2.jobRun = none) ∧
        (allowNewServices = true ∨ ∀ d ∈ config.service, ∃ e ∈ ownedEntries states ownerProject, e.2.service = d.name) := by
  have hpublished : ∀ e ∈ ownedEntries states ownerProject, PublishedBy aws ownerProject config e.2 := by
    intro e he
    obtain ⟨state, hstate, _, hmem, howner⟩ := mem_ownedEntries.mp he
    exact h state hstate e.2 hmem howner
  have hdisjoint := (List.nodup_append.mp config.names).2.2
  constructor
  · intro hun
    refine ⟨fun e he => ?_, hun.added.imp (fun h => h) fun hadded d hd => ?_⟩
    · by_contra hrun
      obtain ⟨j, hj, hname⟩ := (hpublished e he).run hrun
      have hkept := hun.kept e.2.service (serviceNamed_rebuilt_ne.mpr ⟨e, he, rfl⟩)
      obtain ⟨d, hd, hdn⟩ := serviceNamed_snapshot_ne.mp hkept
      exact hdisjoint _ (List.mem_map.mpr ⟨d, hd, rfl⟩) _ (List.mem_map.mpr ⟨j, hj, rfl⟩) (hdn.trans hname)
    · exact serviceNamed_rebuilt_ne.mp (hadded d.name (serviceNamed_snapshot_ne.mpr ⟨d, hd, rfl⟩))
  · intro ⟨hnoRun, hall⟩
    refine ⟨rfl, rfl, fun name hnamed => ?_, hall.imp (fun h => h) fun hadded name hnamed => ?_, fun name s t hs ht => ?_⟩
    · obtain ⟨e, he, rfl⟩ := serviceNamed_rebuilt_ne.mp hnamed
      exact serviceNamed_snapshot_ne.mpr ((hpublished e he).service_or_run (hnoRun e he))
    · obtain ⟨d, hd, rfl⟩ := serviceNamed_snapshot_ne.mp hnamed
      exact serviceNamed_rebuilt_ne.mpr (hadded d hd)
    · obtain ⟨g, hget, rfl⟩ := serviceNamed_rebuilt.mp hs
      obtain ⟨d, hd, rfl, hdn⟩ := serviceNamed_snapshot.mp ht
      obtain ⟨e, he, hservice, horigin⟩ := (footprints_track states ownerProject).origin name g hget
      exact (hpublished e he).view horigin hd (hdn.trans hservice.symm) allowNewServices

/-- The deploy of the unchanged file gets past the lock. -/
theorem resolveFromDesired_ok_iff (h : Published aws ownerProject config states) :
    (∃ outcome, resolveFromDesired states config ownerProject allowNewServices now = .ok outcome) ↔
      ServicesOnly ownerProject config allowNewServices states := by
  unfold resolveFromDesired ServicesOnly
  simp only [List.isEmpty_iff]
  by_cases hnone : loadDeployedFootprints states ownerProject = []
  · rw [if_pos hnone]
    exact ⟨fun _ => .inl (footprints_nil.mp hnone), fun _ => ⟨_, rfl⟩⟩
  · have hrebuilt : Unlocked { baselineFromDesired := true, allowNewServices }
        (baselineFromDeployedFootprints config.project config.component (loadDeployedFootprints states ownerProject) now)
        (snapshotConfigBaseline config now) ↔ _ := rebuilt_unlocked_iff h
    rw [if_neg hnone, ← hrebuilt, ← unlocked_iff]
    have hsome : ownedEntries states ownerProject ≠ [] := fun hnil => hnone (footprints_nil.mpr hnil)
    by_cases hclean : findConfigLockViolations { baselineFromDesired := true, allowNewServices }
        (baselineFromDeployedFootprints config.project config.component (loadDeployedFootprints states ownerProject) now)
        (snapshotConfigBaseline config now) = []
    · rw [if_pos hclean]
      exact ⟨fun _ => .inr hclean, fun _ => ⟨_, rfl⟩⟩
    · rw [if_neg hclean]
      constructor
      · intro ⟨_, hok⟩
        cases hok
      · intro hor
        rcases hor with hnil | hok
        · exact absurd hnil hsome
        · exact absurd hok hclean

/-- The lock compares what is locked, and without a stored baseline it accepts the file that
    was deployed when its services are published, and only they. -/
theorem relock_iff (a b : LaunchPadConfig) (t u : String) (h : Published aws ownerProject config states) :
    ((∃ base, parseConfigBaseline (.json (snapshotConfigBaseline a t)) = some base ∧
        (findConfigLockViolations {} base (snapshotConfigBaseline b u) = [] ↔ SameLocked a b)) ∧
      ∃ outcome, resolveFromDesired states config ownerProject allowNewServices now = .ok outcome) ↔
    ServicesOnly ownerProject config allowNewServices states := by
  rw [resolveFromDesired_ok_iff h, and_iff_right_iff_imp]
  intro _
  exact ⟨_, parse_snapshot a t, unlocked_iff.trans snapshots_unlocked_iff⟩

end Deployed

/-! ### A site with a migration -/

def siteBlock : ServiceBlock := { plainDecl with }

def migrateJob : JobDecl := ⟨"migrate", 100, 100, [], []⟩

theorem site_label : labelMatches "site" = true := by decide +kernel

theorem site_accepted : ∀ s ∈ [siteBlock], serviceBlockSchema s = true := by
  intro s hs
  rw [List.mem_singleton.mp hs]
  decide +kernel

theorem site_names : ([siteBlock].map (·.name) ++ [migrateJob].map (·.name)).Nodup := by decide

theorem site_component : (none : Option String).all labelMatches = true := rfl

theorem site_pattern : (none : Option String).all (· != "") = true := rfl

theorem site_services : [siteBlock] ≠ [] := List.cons_ne_nil _ _

def siteConfig : LaunchPadConfig where
  project := "site"
  service := [siteBlock]
  job := [migrateJob]
  project_label := site_label
  component_label := site_component
  pattern_ne := site_pattern
  service_ne := site_services
  accepted := site_accepted
  names := site_names

def siteAws : AwsEnv := ⟨"default", "000000000000", "us-east-1"⟩

/-- The entry of the site's one service. -/
def siteEntry : ServiceConfig where
  project := "site"
  service := "web"
  image := "web:1"
  cpu := 100
  memory := 100
  ingress := none

def migrateRun : ServiceConfig := toJobServiceConfig siteAws "site" migrateJob "migrate:1" "run-1" "t0" none

theorem site_published (runs : List ServiceConfig) (hruns : ∀ s ∈ runs, s = migrateRun) :
    Published siteAws "site" siteConfig [("n1", siteEntry :: runs)] := by
  intro state hstate s hs _
  rw [List.mem_singleton.mp hstate] at hs
  rcases List.mem_cons.mp hs with rfl | hs
  · exact .service siteBlock ⟨plainDecl, "web:1", none⟩ 1 none none none _ (List.mem_singleton_self _) rfl rfl rfl
  · rw [hruns s hs]
    exact .job migrateJob _ _ _ _ (List.mem_singleton_self _)

/-- The site's service is published and the file is accepted. -/
theorem relock_site : ∃ outcome, resolveFromDesired [("n1", [siteEntry])] siteConfig "site" false "t1" = .ok outcome := by
  have hpublished := site_published [] (fun s hs => by cases hs)
  have honly : ServicesOnly "site" siteConfig false [("n1", [siteEntry])] := by
    refine .inr ⟨fun e he => ?_, .inr fun d hd => ⟨("n1", siteEntry), List.mem_singleton_self _, ?_⟩⟩
    · rw [List.mem_singleton.mp he]
      rfl
    · rw [List.mem_singleton.mp hd]
      rfl
  exact ((relock_iff siteConfig siteConfig "t0" "t1" hpublished).mpr honly).2

/-- With a run of the migration published the file is refused. -/
theorem published_run_locks : ¬ ∀ (config : LaunchPadConfig) (states : List (String × List ServiceConfig)) (owner now : String),
    Published siteAws owner config states → (∀ d ∈ config.service, ∃ e ∈ ownedEntries states owner, e.2.service = d.name) →
      ∃ outcome, resolveFromDesired states config owner false now = .ok outcome := by
  intro hall
  have hpublished := site_published [migrateRun] (fun s hs => List.mem_singleton.mp hs)
  have hservices : ∀ d ∈ siteConfig.service, ∃ e ∈ ownedEntries [("n1", [siteEntry, migrateRun])] "site", e.2.service = d.name := by
    intro d hd
    rw [List.mem_singleton.mp hd]
    exact ⟨("n1", siteEntry), List.mem_cons_self .., rfl⟩
  have honly := (resolveFromDesired_ok_iff hpublished).mp (hall siteConfig _ "site" "t1" hpublished hservices)
  rcases honly with hnil | ⟨hnoRun, _⟩
  · cases hnil
  · have hrun := hnoRun ("n1", migrateRun) (List.mem_cons_of_mem _ (List.mem_singleton_self _))
    cases hrun

end LaunchPad.Cli.ConfigLock
