/-
  LaunchPad.Cli.Entry — the `desired.json` entry of a declared service
  (`commands/deploy.ts` `toServiceConfig`).

  Proved:
  - `toServiceConfig_accepted`: a declaration that its own schema accepts makes an entry
    that the document's schema accepts, so a deploy never writes what it cannot read back.
-/
import LaunchPad.Cli.Preflight

namespace LaunchPad.Cli

open Lib

/-- Where a run deploys to. -/
structure AwsEnv where
  clusterId : String
  accountId : String
  region : String

/-- What ends a run that is not about one node's document. -/
inductive DeployFailure where
  | deploy (e : DeployError)
  | noAppNodes (clusterId : String)
  | edgeAmbiguous (clusterId : String) (edges : List String)
  /-- A web service with no edge. -/
  | noEdge (service : String)
  deriving DecidableEq, Repr

/-! ## The entry -/

/-- `LAUNCH_PAD_ENVIRONMENT`. -/
def launchPadEnvironment : String := "LAUNCH_PAD_ENVIRONMENT"

/-- The environment's name, unless the service sets that variable itself. -/
def containerEnvForDeploy (declared : List (String × String)) : Option String → List (String × String)
  | none => declared
  | some env => SortedMap.insertNew launchPadEnvironment env declared

def secretParameterPrefix (clusterId ownerProject service : String) : String :=
  "/launch-pad/" ++ clusterId ++ "/" ++ ownerProject ++ "/" ++ service

def secretParameterPath (clusterId ownerProject service key : String) : String :=
  secretParameterPrefix clusterId ownerProject service ++ "/" ++ key

def secretRefsForService (secrets : List String) (clusterId ownerProject service : String) : List SecretRef :=
  secrets.map fun name => ⟨name, secretParameterPath clusterId ownerProject service name⟩

def backupsBucketName (accountId region : String) : String := "launch-pad-backups-" ++ accountId ++ "-" ++ region

def backupServicePrefix (clusterId ownerProject service : String) : String :=
  clusterId ++ "/" ++ ownerProject ++ "/" ++ service ++ "/"

/-- The ingress of a web service; a worker has none. -/
def ingressOf (b : BuiltService) (resolvedEdge : Option String) : Except DeployFailure (Option Ingress) :=
  match b.domain, b.decl.port, resolvedEdge with
  | some domain, some port, some edge => .ok (some ⟨domain, port, edge⟩)
  | some _, some _, none => .error (.noEdge b.decl.name)
  | _, _, _ => .ok none

/-- A backup's target, for a managed database that has one. -/
def backupOf (aws : AwsEnv) (project : String) (decl : ServiceDecl) : Option ServiceBackupConfig :=
  decl.database.bind fun _ => decl.backup.map fun backup =>
    { schedule := backup.schedule
      retentionDays := backup.retentionDays
      bucket := backupsBucketName aws.accountId aws.region
      keyPrefix := backupServicePrefix aws.clusterId project decl.name }

/-- `restartAt` is the time under `--restart`. -/
def toServiceConfig (aws : AwsEnv) (project : String) (b : BuiltService) (replicas : Int)
    (resolvedEdge env restartAt : Option String) : Except DeployFailure ServiceConfig := do
  let ingress ← ingressOf b resolvedEdge
  return {
    project
    service := b.decl.name
    image := b.image
    cpu := b.decl.cpu
    memory := b.decl.memory
    replicas
    env := containerEnvForDeploy b.decl.env env
    secretRefs := secretRefsForService b.decl.secrets aws.clusterId project b.decl.name
    restartAt
    cron := b.decl.cron
    ingress
    healthCheck := b.decl.healthCheck.map fun h => { h with port := h.port.or b.decl.port }
    rollout := b.decl.rollout
    volumes := b.decl.volumes
    database := b.decl.database
    backup := backupOf aws project b.decl }

/-! ## What the configuration's schema promises of a declaration -/

def backupDeclSchema (b : BackupDecl) : Bool := b.schedule != "" && decide (1 ≤ b.retentionDays)

/-- `ServiceDeclSchema`, but for the numbers that the record itself bounds. -/
def serviceDeclSchema (d : ServiceDecl) : Bool :=
  labelMatches d.name && d.cron.all (· != "") && d.secrets.all secretKeyMatches && d.domain.all hostnameMatches &&
    d.port.all portOk && d.healthCheck.all healthCheckSchema && rolloutSchema d.rollout &&
    d.volumes.all volumeDeclSchema && d.database.all serviceDatabaseSchema && d.backup.all backupDeclSchema

/-- A built service: its image has a name, and its domain for the environment is a host name. -/
structure BuiltService.Valid (b : BuiltService) : Prop where
  image : b.image ≠ ""
  domain : b.domain.all hostnameMatches = true
  decl : serviceDeclSchema b.decl = true

/-! ## What the entry keeps -/

section Entry

variable {aws : AwsEnv} {project : String} {b : BuiltService} {replicas : Int} {resolvedEdge env restartAt : Option String}
  {c : ServiceConfig}

theorem toServiceConfig_ok (h : toServiceConfig aws project b replicas resolvedEdge env restartAt = .ok c) :
    ∃ ingress, ingressOf b resolvedEdge = .ok ingress ∧ c.ingress = ingress ∧ c.project = project ∧
      c.service = b.decl.name ∧ c.replicas = replicas := by
  unfold toServiceConfig at h
  cases hi : ingressOf b resolvedEdge with
  | error e => rw [hi] at h; cases h
  | ok ingress =>
    rw [hi] at h
    cases h
    exact ⟨ingress, rfl, rfl, rfl, rfl, rfl⟩

theorem label_ne_empty {name : String} (h : labelMatches name = true) : name ≠ "" := by
  intro he
  subst he
  revert h
  decide

theorem append_ne_empty {s t : String} (h : s ≠ "") : s ++ t ≠ "" := by
  intro he
  apply h
  have hlist := congrArg String.toList he
  rw [String.toList_append] at hlist
  exact String.toList_inj.mp (List.append_eq_nil_iff.mp hlist).1

theorem ingressOf_accepted (hdomain : b.domain.all hostnameMatches = true) (hport : b.decl.port.all portOk = true)
    (hedge : resolvedEdge ≠ some "") {ingress : Option Ingress} (h : ingressOf b resolvedEdge = .ok ingress) :
    ingress.all ingressSchema = true := by
  unfold ingressOf at h
  split at h
  · rename_i domain port edge hd hp
    cases h
    rw [hd] at hdomain
    rw [hp] at hport
    have hne : edge ≠ "" := fun e => hedge (by rw [e])
    simp only [Option.all_some] at hdomain hport ⊢
    simp [ingressSchema, hdomain, hport, hne]
  · cases h
  · cases h
    rfl

theorem backupOf_accepted (hbackup : b.decl.backup.all backupDeclSchema = true) :
    (backupOf aws project b.decl).all serviceBackupConfigSchema = true := by
  unfold backupOf
  cases b.decl.database with
  | none => rfl
  | some d =>
    cases hb : b.decl.backup with
    | none => rfl
    | some backup =>
      rw [hb] at hbackup
      simp only [Option.all_some, backupDeclSchema, Bool.and_eq_true] at hbackup
      have hbucket : backupsBucketName aws.accountId aws.region ≠ "" := by
        apply append_ne_empty
        apply append_ne_empty
        exact append_ne_empty (by decide)
      have hkey : backupServicePrefix aws.clusterId project b.decl.name ≠ "" := by
        intro he
        have hlen := congrArg String.length he
        simp [backupServicePrefix] at hlen
      simp [serviceBackupConfigSchema, hbackup.1, hbackup.2, hbucket, hkey]

theorem secretRefs_accepted {secrets : List String} (h : secrets.all secretKeyMatches = true)
    (clusterId ownerProject service : String) :
    (secretRefsForService secrets clusterId ownerProject service).all secretRefSchema = true := by
  rw [List.all_eq_true] at h ⊢
  intro r hr
  obtain ⟨name, hname, rfl⟩ := List.mem_map.mp hr
  have hpath : secretParameterPath clusterId ownerProject service name ≠ "" := by
    unfold secretParameterPath secretParameterPrefix
    iterate 7 apply append_ne_empty
    decide
  simp [secretRefSchema, h name hname, hpath]

theorem healthCheck_accepted {health : Option HealthCheck} {port : Option Int} (h : health.all healthCheckSchema = true)
    (hport : port.all portOk = true) :
    (health.map fun h => { h with port := h.port.or port : HealthCheck }).all healthCheckSchema = true := by
  cases health with
  | none => rfl
  | some h' =>
    simp only [Option.map_some, Option.all_some, healthCheckSchema, Bool.and_eq_true] at h ⊢
    obtain ⟨⟨⟨⟨hpath, hp⟩, hi⟩, ht⟩, hn⟩ := h
    refine ⟨⟨⟨⟨hpath, ?_⟩, hi⟩, ht⟩, hn⟩
    cases hp' : h'.port with
    | none => exact hport
    | some p => rw [hp'] at hp; exact hp

/-- A declaration that is accepted makes an entry that is accepted. -/
theorem toServiceConfig_accepted (hb : b.Valid) (hproject : project ≠ "") (hreplicas : 1 ≤ replicas)
    (hedge : resolvedEdge ≠ some "")
    (h : toServiceConfig aws project b replicas resolvedEdge env restartAt = .ok c) : serviceConfigSchema c = true := by
  have hdecl := hb.decl
  simp only [serviceDeclSchema, Bool.and_eq_true] at hdecl
  obtain ⟨⟨⟨⟨⟨⟨⟨⟨⟨hname, hcron⟩, hsecrets⟩, _⟩, hport⟩, hhealth⟩, hrollout⟩, hvolumes⟩, hdatabase⟩, hbackup⟩ := hdecl
  unfold toServiceConfig at h
  cases hi : ingressOf b resolvedEdge with
  | error e => rw [hi] at h; cases h
  | ok ingress =>
    rw [hi] at h
    cases h
    have hcpu := b.decl.cpu_pos
    have hmemory := b.decl.memory_pos
    simp only [serviceConfigSchema, Bool.and_eq_true, decide_eq_true_eq, bne_iff_ne, ne_eq]
    refine ⟨⟨⟨⟨⟨⟨⟨⟨⟨⟨⟨⟨⟨⟨hproject, label_ne_empty hname⟩, hb.image⟩, ?_⟩, ?_⟩, hreplicas⟩, ?_⟩, hcron⟩, ?_⟩, ?_⟩, hrollout⟩,
      hvolumes⟩, hdatabase⟩, ?_⟩, rfl⟩
    · omega
    · omega
    · exact secretRefs_accepted hsecrets ..
    · exact ingressOf_accepted hb.domain hport hedge hi
    · exact healthCheck_accepted hhealth hport
    · exact backupOf_accepted hbackup

end Entry

end LaunchPad.Cli
