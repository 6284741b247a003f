/-
  LaunchPad.Agent.BackupStatus — what the backup rollup of a service tells (`agent-app.rs`
  `perform_backup`, `run_backup`; `status.rs`): the outcome of the last run, against the
  history of all runs of the agent's lifetime.

  A run builds its rollup anew: a database that was not dumped has no success, and a run
  that ends early has no databases. As the time of a success it gives the clock at its own
  start.

  As built:
  - `failure_forgets_success`: a run that fails reports that there never was a success.

  Proved:
  - `performBackup_status`: the rollup of a run, from the sizes of its dumps.
  - `rollup_true_iff`: exactly when the published rollup tells of the last successes.
-/
import LaunchPad.Agent.BackupRun
import LaunchPad.Agent.Status

namespace LaunchPad.Agent

open Lib

/-! ## The rollup of a run -/

/-- The size of the dump that was uploaded, if it was. -/
def dumpSize (a : BackupAnswers) (i : Nat) (db : String) : Option Int :=
  if !isValidIdentifier db then none
  else
    match a.dump i with
    | .error _ => none
    | .ok size => if size = 0 then none else if a.put i = .ok then some size else none

/-- The entry of a database, as the code builds it. -/
def entryOf (a : BackupAnswers) (i : Nat) (db : String) : DatabaseBackupEntry :=
  ⟨db, (dumpSize a i db).bind fun _ => isoFromMs a.nowMs, (dumpSize a i db).map (min · maxSafeInteger)⟩

section Rollup

variable {parseFromStr : String → Option NaiveDateTime}

theorem dumpAndUpload_fst (b : ServiceBackupConfig) (timestamp : String) (a : BackupAnswers) (i : Nat) {db : String}
    (hid : isValidIdentifier db = true) :
    (∃ e, (dumpAndUpload b timestamp a i db).1 = .error e ∧ dumpSize a i db = none) ∨
      ∃ size, (dumpAndUpload b timestamp a i db).1 = .ok (min size maxSafeInteger) ∧ dumpSize a i db = some size := by
  unfold dumpAndUpload dumpSize
  simp only [hid, Bool.not_true, Bool.false_eq_true, if_false]
  cases a.dump i with
  | error e => exact .inl ⟨e, rfl, rfl⟩
  | ok size =>
    simp only
    by_cases hsize : size = 0
    · rw [if_pos hsize, if_pos hsize]
      exact .inl ⟨_, rfl, rfl⟩
    · rw [if_neg hsize, if_neg hsize]
      cases a.put i with
      | ok => exact .inr ⟨size, rfl, rfl⟩
      | refused e done => exact .inl ⟨e, rfl, rfl⟩

theorem dumpTarget_entries (b : ServiceBackupConfig) (timestamp : String) (a : BackupAnswers) (i : Nat) (db : String)
    (s : DumpLoop) :
    (dumpTarget parseFromStr b timestamp a i db s).entries = s.entries ++ [entryOf a i db] ∧
      (dumpTarget parseFromStr b timestamp a i db s).allOk = (s.allOk && (dumpSize a i db).isSome) := by
  unfold dumpTarget
  by_cases hid : isValidIdentifier db = true
  · simp only [hid, Bool.not_true, Bool.false_eq_true, if_false]
    rcases dumpAndUpload_fst b timestamp a i hid with ⟨e, he, hsize⟩ | ⟨size, he, hsize⟩
    · have hentry : entryOf a i db = ⟨db, none, none⟩ := by simp [entryOf, hsize]
      rw [hentry, hsize, he]
      simp only
      split
      · exact ⟨rfl, by simp [DumpLoop.sent, DumpLoop.failed]⟩
      · exact ⟨rfl, by simp [DumpLoop.sent, DumpLoop.failed, DumpLoop.note]⟩
    · have hentry : entryOf a i db = ⟨db, isoFromMs a.nowMs, some (min size maxSafeInteger)⟩ := by simp [entryOf, hsize]
      rw [hentry, hsize, he]
      simp only
      split
      · exact ⟨rfl, by simp [DumpLoop.sent, DumpLoop.push]⟩
      · exact ⟨rfl, by simp [DumpLoop.sent, DumpLoop.push, DumpLoop.note]⟩
  · have hnone : dumpSize a i db = none := by simp [dumpSize, hid]
    have hentry : entryOf a i db = ⟨db, none, none⟩ := by simp [entryOf, hnone]
    simp only [hid, Bool.not_false, if_true]
    rw [hentry, hnone]
    exact ⟨rfl, by simp [DumpLoop.failed]⟩

theorem dumpTargets_entries (b : ServiceBackupConfig) (timestamp : String) (a : BackupAnswers) (i : Nat)
    (dbs : List String) (s : DumpLoop) :
    (dumpTargets parseFromStr b timestamp a i dbs s).entries = s.entries ++ dbs.mapIdx (fun k db => entryOf a (i + k) db) ∧
      (dumpTargets parseFromStr b timestamp a i dbs s).allOk =
        (s.allOk && (dbs.mapIdx fun k db => dumpSize a (i + k) db).all Option.isSome) := by
  induction dbs generalizing i s with
  | nil => simp [dumpTargets]
  | cons db dbs ih =>
    obtain ⟨hentries, hok⟩ := @dumpTarget_entries parseFromStr b timestamp a i db s
    obtain ⟨ihentries, ihok⟩ := ih (i + 1) (dumpTarget parseFromStr b timestamp a i db s)
    have hshift : ∀ k, i + 1 + k = i + (k + 1) := fun k => by omega
    unfold dumpTargets
    rw [ihentries, ihok, hentries, hok, List.mapIdx_cons, List.mapIdx_cons]
    simp [hshift, Bool.and_assoc]

end Rollup

/-- A dump that was uploaded, and when it was done. -/
structure Dump where
  database : String
  doneMs : Int
  size : Int
  deriving DecidableEq, Repr

/-- A run of the service that came to its end, with the clock as each dump was done and at
    the end, which has a date in the calendar. -/
structure BackupRun (key : String) where
  config : ServiceConfig
  fireMs : Int
  answers : BackupAnswers
  saved : Bool
  bucket : BackupBucket
  dumpedMs : Nat → Int
  doneMs : Int
  ofService : config.key = key
  backs : config.backup.isSome = true
  dated : isoFromMs doneMs ≠ none

namespace BackupRun

variable {key : String}

def targets (r : BackupRun key) : List String :=
  match backupTargets r.config r.answers with
  | .ok targets => targets
  | .error _ => []

/-- Every target database was dumped. -/
def allDumped (r : BackupRun key) : Bool :=
  !r.targets.isEmpty && (r.targets.mapIdx (dumpSize r.answers)).all Option.isSome

def dumps (r : BackupRun key) : List Dump :=
  (r.targets.mapIdx fun i db => (dumpSize r.answers i db).map fun size => ⟨db, r.dumpedMs i, size⟩).filterMap id

/-- The database's last dump of the run. -/
def lastDump (r : BackupRun key) (db : String) : Option Dump := (r.dumps.filter (·.database = db)).getLast?

end BackupRun

section Runs

variable {key : String}

/-- The agent's memory after the runs of its lifetime. -/
def memoryAfter (parseFromStr : String → Option NaiveDateTime) (runs : List (BackupRun key)) : BackupMemory :=
  runs.foldl (fun m r => (runBackup parseFromStr r.config r.fireMs r.answers r.saved r.bucket m).2)
    ⟨⟨{}, none⟩, [], []⟩

/-- The most recent run in which all databases were dumped. -/
def lastSuccess (runs : List (BackupRun key)) : Option (BackupRun key) := (runs.filter (·.allDumped)).getLast?

/-- A database's most recent successful dump. -/
def lastDumpOf (runs : List (BackupRun key)) (db : String) : Option Dump :=
  ((runs.flatMap (·.dumps)).filter (·.database = db)).getLast?

/-- The rollup tells of the last successes. -/
structure TellsLast (runs : List (BackupRun key)) (rollup : DatabaseBackupStatus) : Prop where
  service : rollup.lastSuccessAt = (lastSuccess runs).bind fun r => isoFromMs r.doneMs
  database : ∀ e ∈ rollup.databases, e.lastSuccessAt = ((lastDumpOf runs e.name).bind fun d => isoFromMs d.doneMs) ∧
    e.sizeBytes = (lastDumpOf runs e.name).map (·.size)

/-- What the last run is when it hides nothing: it dumped every database within the instant
    in which it began, or nothing was dumped before. -/
structure HidesNothing (earlier : List (BackupRun key)) (last : BackupRun key) : Prop where
  service : if last.allDumped then isoFromMs last.answers.nowMs = isoFromMs last.doneMs
    else ∀ r ∈ earlier, r.allDumped = false
  failed : ∀ i db, last.targets[i]? = some db → dumpSize last.answers i db = none →
    ∀ r ∈ earlier ++ [last], ∀ d ∈ r.dumps, d.database ≠ db
  dumped : ∀ i db size, last.targets[i]? = some db → dumpSize last.answers i db = some size →
    ∀ d, last.lastDump db = some d → isoFromMs last.answers.nowMs = isoFromMs d.doneMs ∧ min size maxSafeInteger = d.size

/-- The rollup that a run publishes. -/
theorem performBackup_status (parseFromStr : String → Option NaiveDateTime) (r : BackupRun key) :
    (performBackup parseFromStr r.config r.fireMs r.answers r.bucket).1.status.databases =
        r.targets.mapIdx (entryOf r.answers) ∧
      (performBackup parseFromStr r.config r.fireMs r.answers r.bucket).1.status.lastSuccessAt =
        if r.allDumped then isoFromMs r.answers.nowMs else none := by
  obtain ⟨b, hb⟩ := Option.isSome_iff_exists.mp r.backs
  unfold performBackup BackupRun.allDumped BackupRun.targets
  rw [hb]
  simp only
  cases backupTargets r.config r.answers with
  | error e => exact ⟨rfl, rfl⟩
  | ok targets =>
    obtain ⟨hentries, hok⟩ := @dumpTargets_entries parseFromStr b (backupTimestamp r.fireMs) r.answers 0
      targets { bucket := r.bucket }
    simp only [Nat.zero_add] at hentries hok
    refine ⟨hentries, ?_⟩
    simp only
    rw [hok, Bool.true_and, Bool.and_comm]

theorem get_memoryAfter (parseFromStr : String → Option NaiveDateTime) (earlier : List (BackupRun key)) (last : BackupRun key) :
    SortedMap.get key (memoryAfter parseFromStr (earlier ++ [last])).backups =
      some (performBackup parseFromStr last.config last.fireMs last.answers last.bucket).1.status := by
  have hstep : memoryAfter parseFromStr (earlier ++ [last]) =
      (runBackup parseFromStr last.config last.fireMs last.answers last.saved last.bucket (memoryAfter parseFromStr earlier)).2 := by
    unfold memoryAfter
    rw [List.foldl_append]
    rfl
  rw [hstep]
  unfold runBackup
  simp only
  rw [last.ofService, SortedMap.get_insert_self]

theorem getLast?_append_some {α : Type} {a b : List α} {x : α} (h : b.getLast? = some x) : (a ++ b).getLast? = some x := by
  rw [List.getLast?_append, h]
  rfl

theorem mem_dumps {r : BackupRun key} {d : Dump} :
    d ∈ r.dumps ↔ ∃ i, ∃ h : i < r.targets.length, ∃ size, dumpSize r.answers i r.targets[i] = some size ∧
      d = ⟨r.targets[i], r.dumpedMs i, size⟩ := by
  unfold BackupRun.dumps
  rw [List.mem_filterMap]
  simp only [List.mem_mapIdx, id]
  constructor
  · rintro ⟨o, ⟨i, hi, rfl⟩, ho⟩
    obtain ⟨size, hsize, rfl⟩ := Option.map_eq_some_iff.mp ho
    exact ⟨i, hi, size, hsize, rfl⟩
  · rintro ⟨i, hi, size, hsize, rfl⟩
    exact ⟨_, ⟨i, hi, rfl⟩, by rw [hsize]; rfl⟩

/-- Whose dump was uploaded in the last run has its last dump there. -/
theorem lastDumpOf_last {earlier : List (BackupRun key)} {last : BackupRun key} {i : Nat} {db : String} {size : Int}
    (hi : last.targets[i]? = some db) (hsize : dumpSize last.answers i db = some size) :
    ∃ d, last.lastDump db = some d ∧ lastDumpOf (earlier ++ [last]) db = some d := by
  obtain ⟨hlt, rfl⟩ := List.getElem?_eq_some_iff.mp hi
  have hmem : (⟨last.targets[i], last.dumpedMs i, size⟩ : Dump) ∈ last.dumps.filter (·.database = last.targets[i]) :=
    List.mem_filter.mpr ⟨mem_dumps.mpr ⟨i, hlt, size, hsize, rfl⟩, by simp⟩
  cases hlast : last.lastDump last.targets[i] with
  | none =>
    unfold BackupRun.lastDump at hlast
    rw [List.getLast?_eq_none_iff.mp hlast] at hmem
    cases hmem
  | some d =>
    refine ⟨d, rfl, ?_⟩
    unfold lastDumpOf
    rw [List.flatMap_append, List.filter_append]
    refine getLast?_append_some ?_
    rw [List.flatMap_singleton]
    exact hlast

theorem lastDumpOf_none {runs : List (BackupRun key)} {db : String} :
    lastDumpOf runs db = none ↔ ∀ r ∈ runs, ∀ d ∈ r.dumps, d.database ≠ db := by
  unfold lastDumpOf
  rw [List.getLast?_eq_none_iff, List.filter_eq_nil_iff]
  simp only [List.mem_flatMap, decide_eq_true_eq, forall_exists_index, and_imp]
  exact ⟨fun h r hr d hd => h d r hr hd, fun h d r hr hd => h r hr d hd⟩

/-- What the rollup of the last run says of the service. -/
theorem service_iff {earlier : List (BackupRun key)} {last : BackupRun key} :
    ((if last.allDumped then isoFromMs last.answers.nowMs else none) =
        (lastSuccess (earlier ++ [last])).bind fun r => isoFromMs r.doneMs) ↔
      if last.allDumped then isoFromMs last.answers.nowMs = isoFromMs last.doneMs
      else ∀ r ∈ earlier, r.allDumped = false := by
  unfold lastSuccess
  rw [List.filter_append]
  cases hall : last.allDumped with
  | true =>
    have hone : [last].filter (·.allDumped) = [last] := by simp [hall]
    rw [hone, getLast?_append_some rfl]
    rfl
  | false =>
    have hone : [last].filter (·.allDumped) = [] := by simp [hall]
    rw [hone, List.append_nil]
    simp only [Bool.false_eq_true, if_false]
    constructor
    · intro h r hr
      cases hlast : (earlier.filter (·.allDumped)).getLast? with
      | none =>
        have := List.filter_eq_nil_iff.mp (List.getLast?_eq_none_iff.mp hlast) r hr
        simpa using this
      | some r' =>
        rw [hlast] at h
        exact absurd h.symm r'.dated
    · intro h
      have hnil : earlier.filter (·.allDumped) = [] := List.filter_eq_nil_iff.mpr fun r hr => by simp [h r hr]
      rw [hnil]
      rfl

/-- What the entry in one place says of its database. -/
theorem entry_iff {earlier : List (BackupRun key)} {last : BackupRun key} {i : Nat} {db : String}
    (hi : last.targets[i]? = some db) :
    ((entryOf last.answers i db).lastSuccessAt =
          ((lastDumpOf (earlier ++ [last]) db).bind fun d => isoFromMs d.doneMs) ∧
        (entryOf last.answers i db).sizeBytes = (lastDumpOf (earlier ++ [last]) db).map (·.size)) ↔
      (dumpSize last.answers i db = none → ∀ r ∈ earlier ++ [last], ∀ d ∈ r.dumps, d.database ≠ db) ∧
        ∀ size, dumpSize last.answers i db = some size → ∀ d, last.lastDump db = some d →
          isoFromMs last.answers.nowMs = isoFromMs d.doneMs ∧ min size maxSafeInteger = d.size := by
  unfold entryOf
  simp only
  cases hsize : dumpSize last.answers i db with
  | none =>
    rw [← lastDumpOf_none]
    cases lastDumpOf (earlier ++ [last]) db with
    | none => simp
    | some d => simp
  | some size =>
    obtain ⟨d, hd, hof⟩ := @lastDumpOf_last key earlier last i db size hi hsize
    rw [hof, hd]
    simp

/-- A long-running service publishes the rollup it is given. -/
theorem backup_serviceStatus {d : ServiceConfig} (hjob : d.jobRun = none) (hcron : d.cron = none)
    (reps : List ManagedReplica) (error : Option String) (backup : Option DatabaseBackupStatus) (now : String) (nowMs : Int) :
    (serviceStatus d reps error backup now nowMs).backup = backup := by
  unfold serviceStatus
  simp [hjob, hcron]

/-- After every sequence of runs of a service, its status carries the last run's rollup, and
    that tells of the last successes if and only if the last run hides nothing. -/
theorem rollup_true_iff (parseFromStr : String → Option NaiveDateTime) (earlier : List (BackupRun key))
    (last : BackupRun key) :
    ∃ rollup, (∀ d reps error now nowMs, d.jobRun = none → d.cron = none →
        (serviceStatus d reps error (SortedMap.get key (memoryAfter parseFromStr (earlier ++ [last])).backups) now
          nowMs).backup = some rollup) ∧
      (TellsLast (earlier ++ [last]) rollup ↔ HidesNothing earlier last) := by
  refine ⟨(performBackup parseFromStr last.config last.fireMs last.answers last.bucket).1.status,
    fun d reps error now nowMs hjob hcron => ?_, ?_⟩
  · exact (backup_serviceStatus hjob hcron reps error _ now nowMs).trans (get_memoryAfter parseFromStr earlier last)
  · obtain ⟨hdatabases, hsuccess⟩ := performBackup_status parseFromStr last
    have hplace : ∀ {i}, (h : i < last.targets.length) → last.targets[i]? = some last.targets[i] :=
      fun h => List.getElem?_eq_getElem h
    constructor
    · intro ht
      have hentry : ∀ i db, last.targets[i]? = some db → _ := fun i db hi =>
        (entry_iff hi).mp (ht.database (entryOf last.answers i db) (by
          obtain ⟨hlt, rfl⟩ := List.getElem?_eq_some_iff.mp hi
          rw [hdatabases, List.mem_mapIdx]
          exact ⟨i, hlt, rfl⟩))
      refine ⟨service_iff.mp (by rw [← hsuccess]; exact ht.service), fun i db hi => (hentry i db hi).1, fun i db size hi hsize => ?_⟩
      exact (hentry i db hi).2 size hsize
    · intro hh
      refine ⟨by rw [hsuccess]; exact service_iff.mpr hh.service, fun e he => ?_⟩
      rw [hdatabases, List.mem_mapIdx] at he
      obtain ⟨i, hlt, rfl⟩ := he
      exact (entry_iff (hplace hlt)).mpr
        ⟨hh.failed i _ (hplace hlt), fun size hsize => hh.dumped i _ size (hplace hlt) hsize⟩

end Runs

/-! ### A failure after a success -/

def weeklyRun (a : Attempt) (hkey : a.config.key = "blog/db") (hbackup : a.config.backup.isSome = true)
    (hdated : isoFromMs a.answers.nowMs ≠ none) : BackupRun "blog/db" where
  config := a.config
  fireMs := a.fireMs
  answers := a.answers
  saved := true
  bucket := []
  dumpedMs := fun _ => a.answers.nowMs
  doneMs := a.answers.nowMs
  ofService := hkey
  backs := hbackup
  dated := hdated

def goodRun : BackupRun "blog/db" := weeklyRun dumpedOnce (by decide) (by decide) (by decide +kernel)

def failedRun : BackupRun "blog/db" := weeklyRun failsNextDay (by decide) (by decide) (by decide +kernel)

/-- The day after its only success, the rollup says that there was none. -/
theorem failure_forgets_success :
    ∃ rollup, SortedMap.get "blog/db" (memoryAfter strictReader [goodRun, failedRun]).backups = some rollup ∧
      goodRun.allDumped = true ∧ rollup.lastSuccessAt = none ∧ rollup.databases = [⟨"app", none, none⟩] ∧
      ¬ TellsLast [goodRun, failedRun] rollup := by
  refine ⟨_, get_memoryAfter strictReader [goodRun] failedRun, by decide +kernel, by decide +kernel, by decide +kernel, ?_⟩
  intro h
  exact absurd h.service (by decide +kernel)

end LaunchPad.Agent
