/-
  LaunchPad.Agent.BackupRun — one run of a database's backup (`agent-app.rs`
  `perform_backup`, `dump_and_upload`, `prune_database`, `run_backup`): the databases are
  found, and each in turn is dumped, uploaded and pruned.

  What docker, SSM, `psql` and the bucket answer is given (`BackupAnswers`), the answers about
  a database by its place in the list. A request that the bucket refuses may still have been
  carried out. The bucket is the set of its keys; a run returns what it asked of it, so that
  a crash leaves a first part of that list. The heartbeats, the temporary files and the
  arguments of `docker exec` change nothing here.

  As built:
  - `last_dump_pruned`: once every dump has failed for longer than the retention, the last
    good one is deleted.

  Proved:
  - `asks_performBackup`: what a run puts and deletes.
  - `dump_kept_within_retention`: a dump is in the bucket as long as no attempt has found it
    older than its retention.
-/
import LaunchPad.Agent.Backup
import LaunchPad.Agent.Node
import LaunchPad.Agent.RunArgs
import LaunchPad.Lib.Utf8Lines

namespace LaunchPad.Agent

open Lib

/-! ## The bucket -/

/-- What a request is answered; a refused one may have been carried out all the same. -/
inductive Reply where
  | ok
  | refused (e : String) (done : Bool)
  deriving DecidableEq, Repr

def Reply.result : Reply → Except String Unit
  | .ok => .ok ()
  | .refused e _ => .error e

def Reply.done : Reply → Bool
  | .ok => true
  | .refused _ done => done

inductive BackupRequest where
  | put (key : String) (reply : Reply)
  | delete (key : String) (reply : Reply)
  deriving DecidableEq, Repr

abbrev BackupBucket := SortedMap String Unit

def BackupRequest.apply : BackupRequest → BackupBucket → BackupBucket
  | .put key reply, bucket => if reply.done then SortedMap.insert key () bucket else bucket
  | .delete key reply, bucket => if reply.done then SortedMap.erase key bucket else bucket

def applyAll (requests : List BackupRequest) (bucket : BackupBucket) : BackupBucket := requests.foldl (fun b r => r.apply b) bucket

/-- `list_backup_keys`. -/
def listKeys (keysUnder : String) (bucket : BackupBucket) : List String :=
  (SortedMap.keys bucket).filter fun k => keysUnder.toList.isPrefixOf k.toList

/-! ## One run -/

/-- What everything outside answers in one run. -/
structure BackupAnswers where
  /-- The clock at the start of the run, the only time it is read. -/
  nowMs : Int
  ssm : Except String (String → Option String)
  live : Option Live
  psql : Except String (List UInt8)
  /-- The size of the dump's file. -/
  dump : Nat → Except String Int
  put : Nat → Reply
  list : Nat → Except String Unit
  delete : Nat → String → Reply

/-- `resolve_service_env`: SSM is asked only when there are references. -/
def resolveServiceEnv (ssm : Except String (String → Option String)) (c : ServiceConfig) :
    Except String (SortedMap String String) :=
  if c.secretRefs.isEmpty then mergeResolvedEnv c.secretRefs (fun _ => none) c.env
  else
    match ssm with
    | .ok fetched => mergeResolvedEnv c.secretRefs fetched c.env
    | .error e => .error ("ssm get-parameters: " ++ e)

def runningDbContainer (live : Option Live) (key : String) : Option String :=
  ((live.bind (SortedMap.get key)).bind fun reps => reps.find? (·.running)).map (·.name)

def trim (text : List Char) : List Char :=
  ((text.dropWhile isWhiteSpace).reverse.dropWhile isWhiteSpace).reverse

/-- Of the names that `psql` prints, those that are safe in a key. -/
def enumerateDatabases (out : List UInt8) : List String :=
  (((fromUtf8Lossy out).splitOn '\n').map fun l => String.ofList (trim l)).filter isValidIdentifier

/-- Everything before the first dump: the databases, or why there is none. -/
def backupTargets (c : ServiceConfig) (a : BackupAnswers) : Except String (List String) :=
  match resolveServiceEnv a.ssm c with
  | .error e => .error ("backup: resolve env: " ++ e)
  | .ok env =>
    if !isValidIdentifier ((SortedMap.get "POSTGRES_USER" env).getD "postgres") then
      .error "backup: invalid POSTGRES_USER"
    else if (SortedMap.get "POSTGRES_PASSWORD" env).getD "" = "" then .error "backup: POSTGRES_PASSWORD unset"
    else if runningDbContainer a.live c.key = none then .error "backup: no running database container"
    else
      let explicit := (c.database.map (·.databases)).getD []
      if explicit.isEmpty then
        match a.psql with
        | .ok out => .ok (databaseTargets explicit (enumerateDatabases out))
        | .error e => .error ("backup: enumerate databases: " ++ e)
      else .ok (databaseTargets explicit [])

/-- `Number.MAX_SAFE_INTEGER`. -/
def maxSafeInteger : Int := 9007199254740991

/-- The size that is reported, and what was sent to the bucket. -/
def dumpAndUpload (b : ServiceBackupConfig) (timestamp : String) (a : BackupAnswers) (i : Nat) (db : String) :
    Except String Int × List BackupRequest :=
  match a.dump i with
  | .error e => (.error e, [])
  | .ok size =>
    -- `pg_dump` always writes a header.
    if size = 0 then (.error "dump produced an empty file", [])
    else
      let sent := [.put (backupObjectKey b.keyPrefix db timestamp) (a.put i)]
      match a.put i with
      | .ok => (.ok (min size maxSafeInteger), sent)
      | .refused e _ => (.error e, sent)

/-- The first deletion that is refused ends the loop. -/
def deleteKeys (delete : String → Reply) : List String → Except String Unit × List BackupRequest
  | [] => (.ok (), [])
  | key :: keys =>
    match delete key with
    | .ok => ((deleteKeys delete keys).1, .delete key .ok :: (deleteKeys delete keys).2)
    | .refused e done => (.error e, [.delete key (.refused e done)])

section Run

variable (parseFromStr : String → Option NaiveDateTime)

def pruneDatabase (b : ServiceBackupConfig) (a : BackupAnswers) (i : Nat) (db : String) (bucket : BackupBucket) :
    Except String Unit × List BackupRequest :=
  match a.list i with
  | .error e => (.error e, [])
  | .ok _ =>
    deleteKeys (a.delete i)
      (selectExpiredKeys parseFromStr (listKeys (b.keyPrefix ++ db ++ "/") bucket) a.nowMs b.retentionDays)

/-- The loop over the databases, with the bucket as it stands. -/
structure DumpLoop where
  bucket : BackupBucket
  entries : List DatabaseBackupEntry := []
  firstError : Option String := none
  allOk : Bool := true
  requests : List BackupRequest := []

/-- `if first_error.is_none()`. -/
def DumpLoop.note (s : DumpLoop) (e : String) : DumpLoop := { s with firstError := some (s.firstError.getD e) }

def DumpLoop.push (s : DumpLoop) (entry : DatabaseBackupEntry) : DumpLoop := { s with entries := s.entries ++ [entry] }

def DumpLoop.failed (s : DumpLoop) (db e : String) : DumpLoop :=
  { (s.note e).push ⟨db, none, none⟩ with allOk := false }

def DumpLoop.sent (s : DumpLoop) (requests : List BackupRequest) : DumpLoop :=
  { s with bucket := applyAll requests s.bucket, requests := s.requests ++ requests }

def dumpTarget (b : ServiceBackupConfig) (timestamp : String) (a : BackupAnswers) (i : Nat) (db : String)
    (s : DumpLoop) : DumpLoop :=
  if !isValidIdentifier db then s.failed db ("backup " ++ db ++ ": invalid database name")
  else
    let uploaded := dumpAndUpload b timestamp a i db
    let s := s.sent uploaded.2
    let s := match uploaded.1 with
      | .ok size => s.push ⟨db, isoFromMs a.nowMs, some size⟩
      | .error e => s.failed db ("backup " ++ db ++ ": " ++ e)
    -- Whatever became of the dump, the old ones are pruned.
    let pruned := pruneDatabase parseFromStr b a i db s.bucket
    let s := s.sent pruned.2
    match pruned.1 with
    | .ok _ => s
    | .error e => s.note ("backup prune " ++ db ++ ": " ++ e)

def dumpTargets (b : ServiceBackupConfig) (timestamp : String) (a : BackupAnswers) :
    Nat → List String → DumpLoop → DumpLoop
  | _, [], s => s
  | i, db :: dbs, s => dumpTargets b timestamp a (i + 1) dbs (dumpTarget parseFromStr b timestamp a i db s)

structure BackupOutcome where
  status : DatabaseBackupStatus
  firstError : Option String

/-- The outcome, and the requests sent to the bucket. -/
def performBackup (c : ServiceConfig) (fireMs : Int) (a : BackupAnswers) (bucket : BackupBucket) :
    BackupOutcome × List BackupRequest :=
  match c.backup with
  | none => (⟨⟨isoFromMs fireMs, none, none, none, []⟩, none⟩, [])
  | some b =>
    let nextRunAt := match parseCronExpression b.schedule with
      | .ok s => (nextCronFire s a.nowMs).bind isoFromMs
      | .error _ => none
    match backupTargets c a with
    | .error e => (⟨⟨isoFromMs fireMs, none, some e, nextRunAt, []⟩, some e⟩, [])
    | .ok targets =>
      -- The timestamp is that of the fire, so that a repeated run writes the same keys.
      let s := dumpTargets parseFromStr b (backupTimestamp fireMs) a 0 targets { bucket }
      let lastSuccessAt := if s.allOk && !targets.isEmpty then isoFromMs a.nowMs else none
      (⟨⟨isoFromMs fireMs, lastSuccessAt, s.firstError, nextRunAt, s.entries⟩, s.firstError⟩, s.requests)

/-- What `run_backup` changes in the agent. -/
structure BackupMemory where
  records : Records
  backups : SortedMap String DatabaseBackupStatus
  errors : SortedMap String String

/-- The fire is recorded after the attempt, whatever became of it. -/
def runBackup (c : ServiceConfig) (fireMs : Int) (a : BackupAnswers) (saved : Bool) (bucket : BackupBucket) (m : BackupMemory) :
    Except String Unit × BackupMemory :=
  let outcome := (performBackup parseFromStr c fireMs a bucket).1
  let record := m.records.recordCronFire (backupStateKey c.key) fireMs saved
  (record.1,
    { records := record.2
      backups := SortedMap.insert c.key outcome.status m.backups
      errors := match outcome.firstError with
        | some e => SortedMap.insert c.key e m.errors
        | none => m.errors })

/-- What the machine of a node says of the command. -/
theorem runBackup_sem (nodeId : String) (c : ServiceConfig) (fireMs : Int) (a : BackupAnswers) (saved : Bool)
    (bucket : BackupBucket) (backups : SortedMap String DatabaseBackupStatus) (w : Node) :
    sem nodeId (.runBackup c fireMs) w (runBackup parseFromStr c fireMs a saved bucket ⟨w.records, backups, w.errors⟩).1
      { w with
        records := (runBackup parseFromStr c fireMs a saved bucket ⟨w.records, backups, w.errors⟩).2.records
        errors := (runBackup parseFromStr c fireMs a saved bucket ⟨w.records, backups, w.errors⟩).2.errors } := by
  refine ⟨saved, _, _, rfl, ?_, rfl⟩
  unfold runBackup
  simp only
  cases (performBackup parseFromStr c fireMs a bucket).1.firstError with
  | none => exact .inl rfl
  | some e => exact .inr ⟨e, rfl⟩

end Run

/-! ## What is asked of the bucket -/

theorem contains_put {k key : String} {reply : Reply} {bucket : BackupBucket} :
    SortedMap.contains key ((BackupRequest.put k reply).apply bucket) = true ↔
      SortedMap.contains key bucket = true ∨ (reply.done = true ∧ key = k) := by
  show SortedMap.contains key (if reply.done then SortedMap.insert k () bucket else bucket) = true ↔ _
  unfold SortedMap.contains
  cases reply.done with
  | false => simp
  | true =>
    rw [if_pos rfl, SortedMap.get_insert]
    by_cases hk : key = k
    · simp [hk]
    · simp [hk]

theorem contains_delete {k key : String} {reply : Reply} {bucket : BackupBucket} :
    SortedMap.contains key ((BackupRequest.delete k reply).apply bucket) = true ↔
      SortedMap.contains key bucket = true ∧ ¬ (reply.done = true ∧ key = k) := by
  show SortedMap.contains key (if reply.done then SortedMap.erase k bucket else bucket) = true ↔ _
  unfold SortedMap.contains
  cases reply.done with
  | false => simp
  | true =>
    rw [if_pos rfl, SortedMap.get_erase]
    by_cases hk : key = k
    · simp [hk]
    · simp [hk]

/-- A key that is there, or is put, and is not deleted. -/
theorem contains_applyAll {key : String} {requests : List BackupRequest} {bucket : BackupBucket}
    (h : SortedMap.contains key bucket = true ∨ BackupRequest.put key .ok ∈ requests)
    (hno : ∀ reply, BackupRequest.delete key reply ∉ requests) : SortedMap.contains key (applyAll requests bucket) = true := by
  induction requests generalizing bucket with
  | nil =>
    rcases h with h | h
    · exact h
    · cases h
  | cons r requests ih =>
    refine ih ?_ fun reply hm => hno reply (List.mem_cons_of_mem _ hm)
    rcases h with h | h
    · left
      cases r with
      | put k reply => exact contains_put.mpr (.inl h)
      | delete k reply =>
        refine contains_delete.mpr ⟨h, ?_⟩
        rintro ⟨_, rfl⟩
        exact hno reply (List.mem_cons_self ..)
    · rcases List.mem_cons.mp h with rfl | h
      · exact .inl (contains_put.mpr (.inr ⟨rfl, rfl⟩))
      · exact .inr h

/-- The keys that a list of requests deletes satisfy `p`, and those it puts satisfy `q`. -/
structure Asks (p q : String → Prop) (requests : List BackupRequest) : Prop where
  deletes : ∀ key reply, BackupRequest.delete key reply ∈ requests → p key
  puts : ∀ key reply, BackupRequest.put key reply ∈ requests → q key

theorem Asks.nil (p q : String → Prop) : Asks p q [] := ⟨fun _ _ h => (by cases h), fun _ _ h => (by cases h)⟩

theorem Asks.append {p q : String → Prop} {a b : List BackupRequest} (ha : Asks p q a) (hb : Asks p q b) : Asks p q (a ++ b) where
  deletes key reply h := (List.mem_append.mp h).elim (ha.deletes key reply) (hb.deletes key reply)
  puts key reply h := (List.mem_append.mp h).elim (ha.puts key reply) (hb.puts key reply)

theorem asks_deleteKeys {p q : String → Prop} {delete : String → Reply} {keys : List String} (h : ∀ k ∈ keys, p k) :
    Asks p q (deleteKeys delete keys).2 := by
  induction keys with
  | nil => exact .nil p q
  | cons k keys ih =>
    have hk : ∀ reply, Asks p q [.delete k reply] := fun reply =>
      ⟨fun key r hm => (by cases List.mem_singleton.mp hm; exact h k (List.mem_cons_self ..)),
        fun key r hm => (by cases List.mem_singleton.mp hm)⟩
    unfold deleteKeys
    split
    · exact (hk .ok).append (ih fun k' hk' => h k' (List.mem_cons_of_mem _ hk'))
    · exact hk _

theorem asks_dumpAndUpload {p : String → Prop} (b : ServiceBackupConfig) (timestamp : String) (a : BackupAnswers) (i : Nat)
    (db : String) : Asks p (· = backupObjectKey b.keyPrefix db timestamp) (dumpAndUpload b timestamp a i db).2 := by
  have hone : Asks p (· = backupObjectKey b.keyPrefix db timestamp)
      [.put (backupObjectKey b.keyPrefix db timestamp) (a.put i)] :=
    ⟨fun key r hm => (by cases List.mem_singleton.mp hm), fun key r hm => (by cases List.mem_singleton.mp hm; rfl)⟩
  unfold dumpAndUpload
  split
  · exact .nil _ _
  · split
    · exact .nil _ _
    · simp only
      split
      · exact hone
      · exact hone

section Requests

variable {parseFromStr : String → Option NaiveDateTime}

/-- The key's timestamp is before what the code computes as the cutoff. -/
def FoundExpired (parseFromStr : String → Option NaiveDateTime) (nowMs retentionDays : Int) (key : String) : Prop :=
  ∃ ts, parseBackupTimestamp parseFromStr key = some ts ∧ ts < i64 (nowMs - i64 (retentionDays * msPerDay))

/-- A key of a dump of that fire. -/
def DumpOf (b : ServiceBackupConfig) (fireMs : Int) (key : String) : Prop :=
  ∃ db, isValidIdentifier db = true ∧ key = backupObjectKey b.keyPrefix db (backupTimestamp fireMs)

theorem foundExpired_of_mem {keys : List String} {nowMs retentionDays : Int} {key : String}
    (h : key ∈ selectExpiredKeys parseFromStr keys nowMs retentionDays) : FoundExpired parseFromStr nowMs retentionDays key := by
  have hp := (List.mem_filter.mp h).2
  unfold FoundExpired
  cases hts : parseBackupTimestamp parseFromStr key with
  | none =>
    rw [hts] at hp
    cases hp
  | some ts =>
    rw [hts] at hp
    exact ⟨ts, rfl, of_decide_eq_true hp⟩

theorem asks_dumpTarget {p q : String → Prop} {b : ServiceBackupConfig} {timestamp : String} {a : BackupAnswers} {i : Nat}
    {db : String} {s : DumpLoop} (hp : ∀ key, FoundExpired parseFromStr a.nowMs b.retentionDays key → p key)
    (hq : isValidIdentifier db = true → q (backupObjectKey b.keyPrefix db timestamp)) (hs : Asks p q s.requests) :
    Asks p q (dumpTarget parseFromStr b timestamp a i db s).requests := by
  unfold dumpTarget
  by_cases hid : isValidIdentifier db = true
  · have hput : Asks p q (dumpAndUpload b timestamp a i db).2 := by
      have h := asks_dumpAndUpload (p := p) b timestamp a i db
      exact ⟨h.deletes, fun key r hm => h.puts key r hm ▸ hq hid⟩
    have hprune : ∀ bucket, Asks p q (pruneDatabase parseFromStr b a i db bucket).2 := by
      intro bucket
      unfold pruneDatabase
      split
      · exact .nil _ _
      · exact asks_deleteKeys fun k hk => hp k (foundExpired_of_mem hk)
    simp only [hid, Bool.not_true, Bool.false_eq_true, if_false]
    cases (dumpAndUpload b timestamp a i db).1 with
    | ok size =>
      split
      · exact (hs.append hput).append (hprune _)
      · exact (hs.append hput).append (hprune _)
    | error e =>
      split
      · exact (hs.append hput).append (hprune _)
      · exact (hs.append hput).append (hprune _)
  · simp only [hid, Bool.not_false, if_true]
    exact hs

theorem asks_dumpTargets {p q : String → Prop} {b : ServiceBackupConfig} {timestamp : String} {a : BackupAnswers} {i : Nat}
    {dbs : List String} {s : DumpLoop} (hp : ∀ key, FoundExpired parseFromStr a.nowMs b.retentionDays key → p key)
    (hq : ∀ db, isValidIdentifier db = true → q (backupObjectKey b.keyPrefix db timestamp)) (hs : Asks p q s.requests) :
    Asks p q (dumpTargets parseFromStr b timestamp a i dbs s).requests := by
  induction dbs generalizing i s with
  | nil => exact hs
  | cons db dbs ih => exact ih (asks_dumpTarget hp (hq db) hs)

/-- A run deletes only keys that it finds expired, and puts only dumps of its fire. -/
theorem asks_performBackup {c : ServiceConfig} {b : ServiceBackupConfig} (hb : c.backup = some b) (fireMs : Int)
    (a : BackupAnswers) (bucket : BackupBucket) :
    Asks (FoundExpired parseFromStr a.nowMs b.retentionDays) (DumpOf b fireMs)
      (performBackup parseFromStr c fireMs a bucket).2 := by
  unfold performBackup
  rw [hb]
  simp only
  cases backupTargets c a with
  | error e => exact .nil _ _
  | ok targets => exact asks_dumpTargets (fun _ h => h) (fun db hdb => ⟨db, hdb, rfl⟩) (.nil _ _)

/-! ## Runs of attempts -/

/-- One attempt: what it was given, and how many of its requests were sent before the agent
    stopped, if it did. The difference of clock and retention fits 64 bits. -/
structure Attempt where
  config : ServiceConfig
  backup : ServiceBackupConfig
  fireMs : Int
  answers : BackupAnswers
  sent : Nat
  backs : config.backup = some backup
  fires : InFourDigitYears fireMs
  retained : 1 ≤ backup.retentionDays
  clocked : answers.nowMs ≤ i64Max ∧ -i64Max - 1 ≤ cutoff answers.nowMs backup.retentionDays

def Attempt.cutoff (a : Attempt) : Int := Agent.cutoff a.answers.nowMs a.backup.retentionDays

def Attempt.key (a : Attempt) (database : String) : String :=
  backupObjectKey a.backup.keyPrefix database (backupTimestamp a.fireMs)

def Attempt.requests (parseFromStr : String → Option NaiveDateTime) (a : Attempt) (bucket : BackupBucket) : List BackupRequest :=
  (performBackup parseFromStr a.config a.fireMs a.answers bucket).2.take a.sent

def bucketAfter (parseFromStr : String → Option NaiveDateTime) (attempts : List Attempt) : BackupBucket :=
  attempts.foldl (fun bucket a => applyAll (a.requests parseFromStr bucket) bucket) []

/-- The database was dumped and uploaded. -/
def Attempt.Uploaded (parseFromStr : String → Option NaiveDateTime) (a : Attempt) (database : String) (bucket : BackupBucket) :
    Prop := BackupRequest.put (a.key database) .ok ∈ a.requests parseFromStr bucket

theorem Attempt.asks (a : Attempt) (bucket : BackupBucket) :
    Asks (FoundExpired parseFromStr a.answers.nowMs a.backup.retentionDays) (DumpOf a.backup a.fireMs)
      (a.requests parseFromStr bucket) := by
  have h : Asks _ (DumpOf a.backup a.fireMs) (performBackup parseFromStr a.config a.fireMs a.answers bucket).2 :=
    asks_performBackup a.backs a.fireMs a.answers bucket
  exact ⟨fun key r hm => h.deletes key r (List.mem_of_mem_take hm), fun key r hm => h.puts key r (List.mem_of_mem_take hm)⟩

/-- What an attempt finds expired is a timestamp older than its retention. -/
theorem Attempt.expired (hp : ReadsFormat parseFromStr) (a : Attempt) {key : String}
    (h : FoundExpired parseFromStr a.answers.nowMs a.backup.retentionDays key) :
    ∃ ts, Dated parseFromStr key ts ∧ ts < a.cutoff := by
  obtain ⟨ts, hts, hlt⟩ := h
  have hhigh : Agent.cutoff a.answers.nowMs a.backup.retentionDays ≤ i64Max := by
    have h1 := a.retained
    have h2 := a.clocked.1
    unfold Agent.cutoff msPerDay
    omega
  rw [i64_cutoff a.clocked.2 hhigh] at hlt
  exact ⟨ts, (parseBackupTimestamp_iff hp).mp hts, hlt⟩

theorem LastSegment.objectKey {keysUnder database : String} {ms : Int} (h : InFourDigitYears ms) :
    LastSegment (backupObjectKey keysUnder database (backupTimestamp ms)).toList
      ((backupTimestamp ms).toList ++ dumpSuffix) := by
  refine ⟨?_, .inr ⟨keysUnder.toList ++ database.toList, ?_⟩⟩
  · rw [List.mem_append, not_or]
    exact ⟨no_slash_stamp h, by decide⟩
  · have hslash : "/".toList = ['/'] := rfl
    unfold backupObjectKey dumpSuffix
    simp only [String.toList_append, List.append_assoc, hslash, List.cons_append, List.nil_append]

/-- A dump's timestamp is that of its fire, to the second. -/
theorem Attempt.dated (hp : ReadsFormat parseFromStr) (a : Attempt) {database : String} {ts : Int}
    (h : Dated parseFromStr (a.key database) ts) : ts = a.fireMs / 1000 * 1000 := by
  have hread : parseBackupTimestamp parseFromStr (a.key database) = some (a.fireMs / 1000 * 1000) :=
    parseBackupTimestamp_stamp hp a.fires (.inr (.objectKey a.fires))
  rw [← parseBackupTimestamp_iff hp, hread] at h
  exact (Option.some.inj h).symm

theorem bucketAfter_append (attempts : List Attempt) (a : Attempt) :
    bucketAfter parseFromStr (attempts ++ [a]) =
      applyAll (a.requests parseFromStr (bucketAfter parseFromStr attempts)) (bucketAfter parseFromStr attempts) := by
  unfold bucketAfter
  rw [List.foldl_append]
  rfl

/-- As long as no attempt finds it expired, a key that is there stays. -/
theorem bucketAfter_kept {key : String} {earlier later : List Attempt}
    (h : SortedMap.contains key (bucketAfter parseFromStr earlier) = true)
    (hno : ∀ x ∈ later, ¬ FoundExpired parseFromStr x.answers.nowMs x.backup.retentionDays key) :
    SortedMap.contains key (bucketAfter parseFromStr (earlier ++ later)) = true := by
  induction later generalizing earlier with
  | nil => simpa using h
  | cons x later ih =>
    rw [← List.singleton_append, ← List.append_assoc]
    refine ih ?_ fun y hy => hno y (List.mem_cons_of_mem _ hy)
    rw [bucketAfter_append]
    exact contains_applyAll (.inl h) fun reply hm =>
      hno x (List.mem_cons_self ..) ((x.asks _).deletes key reply hm)

end Requests

/-- An attempt deletes only keys whose timestamp is older than its retention; and at the end
    of every run of attempts, cut short anywhere, a dump that was uploaded is in the bucket if
    its fire lay within the retention of every attempt from its own on. -/
theorem dump_kept_within_retention (parseFromStr : String → Option NaiveDateTime) (hp : ReadsFormat parseFromStr) :
    (∀ (a : Attempt) (bucket : BackupBucket) (key : String) (reply : Reply),
      BackupRequest.delete key reply ∈ a.requests parseFromStr bucket → ∃ ts, Dated parseFromStr key ts ∧ ts < a.cutoff) ∧
    ∀ (earlier : List Attempt) (a : Attempt) (later : List Attempt) (database : String),
      a.Uploaded parseFromStr database (bucketAfter parseFromStr earlier) →
      (∀ x ∈ a :: later, x.cutoff ≤ a.fireMs / 1000 * 1000) →
      SortedMap.contains (a.key database) (bucketAfter parseFromStr (earlier ++ a :: later)) = true := by
  refine ⟨fun a bucket key reply hm => a.expired hp ((a.asks bucket).deletes key reply hm),
    fun earlier a later database hput hage => ?_⟩
  have hfresh : ∀ x ∈ a :: later, ¬ FoundExpired parseFromStr x.answers.nowMs x.backup.retentionDays (a.key database) := by
    intro x hx hexpired
    obtain ⟨ts, hdated, hlt⟩ := x.expired hp hexpired
    have := hage x hx
    rw [a.dated hp hdated] at hlt
    omega
  rw [← List.singleton_append, ← List.append_assoc]
  refine bucketAfter_kept ?_ fun x hx => hfresh x (List.mem_cons_of_mem _ hx)
  rw [bucketAfter_append]
  exact contains_applyAll (.inr hput) fun reply hm =>
    hfresh a (List.mem_cons_self ..) ((a.asks _).deletes _ reply hm)

/-! ### A week of failures -/

/-- A Postgres service that keeps a week of dumps of one database. -/
def weeklyBackup : ServiceBackupConfig := ⟨"0 3 * * *", 7, "backups", "default/blog/db/"⟩

def weeklyDatabase : ServiceConfig where
  project := "blog"
  service := "db"
  image := "postgres:16"
  cpu := 256
  memory := 512
  env := [("POSTGRES_PASSWORD", "secret")]
  ingress := none
  database := some ⟨"postgres", "16", ["app"]⟩
  backup := some weeklyBackup

/-- Its container runs, the bucket answers; the dump does what it is told to. -/
def weeklyAnswers (nowMs : Int) (dump : Except String Int) : BackupAnswers where
  nowMs
  ssm := .error ""
  live := some [("blog/db", [⟨"c0", "blog_db_0", 0, .running, "blog", "db", "postgres:16", 256, 512, none, "", none, none, none⟩])]
  psql := .error ""
  dump := fun _ => dump
  put := fun _ => .ok
  list := fun _ => .ok ()
  delete := fun _ _ => .ok

/-- An attempt at the instant of its fire. -/
def weeklyAttempt (fireMs : Int) (h : InFourDigitYears fireMs ∧ 0 ≤ fireMs ∧ fireMs ≤ i64Max)
    (dump : Except String Int) : Attempt where
  config := weeklyDatabase
  backup := weeklyBackup
  fireMs
  answers := weeklyAnswers fireMs dump
  sent := 10
  backs := rfl
  fires := h.1
  retained := by decide
  clocked := by
    obtain ⟨-, h0, hmax⟩ := h
    unfold weeklyAnswers cutoff msPerDay weeklyBackup
    unfold i64Max at *
    simp only
    omega

/-- 2026-06-25T03:00:00Z: the database is dumped. -/
def dumpedOnce : Attempt := weeklyAttempt 1782356400000 ⟨by unfold InFourDigitYears; decide, by decide, by decide⟩ (.ok 1000)

/-- The next day, and eight days later: it is not. -/
def failsNextDay : Attempt :=
  weeklyAttempt 1782442800000 ⟨by unfold InFourDigitYears; decide, by decide, by decide⟩ (.error "docker exec: exit 1")

def failsAfterAWeek : Attempt :=
  weeklyAttempt 1783047600000 ⟨by unfold InFourDigitYears; decide, by decide, by decide⟩ (.error "docker exec: exit 1")

theorem dumpedOnce_uploaded : dumpedOnce.Uploaded strictReader "app" [] := by
  unfold Attempt.Uploaded
  decide +kernel

theorem dump_kept_next_day :
    SortedMap.contains (dumpedOnce.key "app") (bucketAfter strictReader ([] ++ dumpedOnce :: [failsNextDay])) = true :=
  (dump_kept_within_retention strictReader strictReader_reads).2 [] dumpedOnce [failsNextDay] "app" dumpedOnce_uploaded
    (by decide)

/-- The attempt that fails more than a week after the only success deletes its dump. -/
theorem last_dump_pruned :
    dumpedOnce.Uploaded strictReader "app" (bucketAfter strictReader []) ∧
      SortedMap.contains (dumpedOnce.key "app") (bucketAfter strictReader [dumpedOnce]) = true ∧
      bucketAfter strictReader [dumpedOnce, failsAfterAWeek] = [] := by
  refine ⟨dumpedOnce_uploaded, by decide +kernel, by decide +kernel⟩

end LaunchPad.Agent
