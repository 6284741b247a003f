/-
  LaunchPad.Agent.BackupLog — the runs of `Agent.Observed` with a log of one database's
  backups, newest first: what each tick found when it planned, the anchors that were seeded,
  the attempts, and the fires that were recorded.

  A record is logged whenever the fire that stands in memory moves, whatever command moved
  it; an attempt with what it asked of the bucket. The agent may stop in the middle of an
  attempt (`BackupReach.cut`): then only a first part of its requests was sent.

  Every document that a tick plans from has the service with its backup. The state file may
  be lost and every save may fail.

  Proved:
  - `putKeys_performBackup`: the keys that an attempt writes come from its databases and its
    fire alone.
  - `le_newest`: where every mark follows from the older ones, the newest record is the highest.
  - `LogInv.frame`, `LogInv.began`: what a step that does not touch the key's record keeps, and
    what the bookkeeping of a tick keeps.
-/
import LaunchPad.Agent.BackupRun
import LaunchPad.Agent.CronFire
import LaunchPad.Agent.CronOnce
import LaunchPad.Agent.Observed

namespace LaunchPad.Agent.BackupLog

open Lib

/-! ## The keys that an attempt writes -/

/-- The keys that a list of requests puts. -/
def putKeys (requests : List BackupRequest) : List String :=
  requests.filterMap fun r => match r with
    | .put key _ => some key
    | .delete _ _ => none

/-- The database's dump gets as far as the upload. -/
def dumps (a : BackupAnswers) (i : Nat) (db : String) : Bool :=
  isValidIdentifier db && match a.dump i with
    | .ok size => size != 0
    | .error _ => false

def dumpedFrom (a : BackupAnswers) : Nat → List String → List String
  | _, [] => []
  | i, db :: dbs => if dumps a i db then db :: dumpedFrom a (i + 1) dbs else dumpedFrom a (i + 1) dbs

/-- The databases that an attempt dumps. -/
def dumped (c : ServiceConfig) (a : BackupAnswers) : List String :=
  match backupTargets c a with
  | .ok targets => dumpedFrom a 0 targets
  | .error _ => []

theorem putKeys_append (l m : List BackupRequest) : putKeys (l ++ m) = putKeys l ++ putKeys m := List.filterMap_append ..

theorem putKeys_deleteKeys (delete : String → Reply) (keys : List String) : putKeys (deleteKeys delete keys).2 = [] := by
  induction keys with
  | nil => rfl
  | cons key keys ih =>
    unfold deleteKeys
    split
    · exact ih
    · rfl

section Keys

variable (parseFromStr : String → Option NaiveDateTime)

theorem putKeys_pruneDatabase (b : ServiceBackupConfig) (a : BackupAnswers) (i : Nat) (db : String) (bucket : BackupBucket) :
    putKeys (pruneDatabase parseFromStr b a i db bucket).2 = [] := by
  unfold pruneDatabase
  split
  · rfl
  · exact putKeys_deleteKeys _ _

theorem putKeys_dumpAndUpload {b : ServiceBackupConfig} {timestamp : String} {a : BackupAnswers} {i : Nat} {db : String}
    (hid : isValidIdentifier db = true) :
    putKeys (dumpAndUpload b timestamp a i db).2 = if dumps a i db then [backupObjectKey b.keyPrefix db timestamp] else [] := by
  unfold dumpAndUpload dumps
  rw [hid, Bool.true_and]
  cases a.dump i with
  | error e => rfl
  | ok size =>
    by_cases hsize : size = 0
    · simp [hsize, putKeys]
    · simp only [hsize, if_false, bne_iff_ne, ne_eq, not_false_eq_true, if_true]
      cases a.put i with
      | ok => rfl
      | refused e done => rfl

theorem putKeys_dumpTarget (b : ServiceBackupConfig) (timestamp : String) (a : BackupAnswers) (i : Nat) (db : String)
    (s : DumpLoop) :
    putKeys (dumpTarget parseFromStr b timestamp a i db s).requests =
      putKeys s.requests ++ if dumps a i db then [backupObjectKey b.keyPrefix db timestamp] else [] := by
  unfold dumpTarget
  cases hid : isValidIdentifier db with
  | false =>
    have hno : dumps a i db = false := by rw [dumps, hid, Bool.false_and]
    rw [hno]
    exact (List.append_nil _).symm
  | true =>
    have hsent : ∀ s' : DumpLoop, s'.requests = s.requests ++ (dumpAndUpload b timestamp a i db).2 → ∀ bucket,
        putKeys (s'.sent (pruneDatabase parseFromStr b a i db bucket).2).requests =
          putKeys s.requests ++ if dumps a i db then [backupObjectKey b.keyPrefix db timestamp] else [] := by
      intro s' hs' bucket
      show putKeys (s'.requests ++ _) = _
      rw [hs', putKeys_append, putKeys_append, putKeys_pruneDatabase, List.append_nil, putKeys_dumpAndUpload hid]
    simp only [Bool.not_true, Bool.false_eq_true, if_false]
    cases (dumpAndUpload b timestamp a i db).1 with
    | ok size =>
      split
      · exact hsent _ rfl _
      · exact hsent _ rfl _
    | error e =>
      split
      · exact hsent _ rfl _
      · exact hsent _ rfl _

theorem putKeys_dumpTargets (b : ServiceBackupConfig) (timestamp : String) (a : BackupAnswers) (i : Nat) (dbs : List String)
    (s : DumpLoop) :
    putKeys (dumpTargets parseFromStr b timestamp a i dbs s).requests =
      putKeys s.requests ++ (dumpedFrom a i dbs).map fun db => backupObjectKey b.keyPrefix db timestamp := by
  induction dbs generalizing i s with
  | nil => exact (List.append_nil _).symm
  | cons db dbs ih =>
    rw [dumpTargets, ih, putKeys_dumpTarget, dumpedFrom, List.append_assoc]
    cases dumps a i db with
    | false => rfl
    | true => rfl

/-- Neither the clock nor the bucket nor its answers are in the keys. -/
theorem putKeys_performBackup {c : ServiceConfig} {b : ServiceBackupConfig} (hb : c.backup = some b) (fireMs : Int)
    (a : BackupAnswers) (bucket : BackupBucket) :
    putKeys (performBackup parseFromStr c fireMs a bucket).2 =
      (dumped c a).map fun db => backupObjectKey b.keyPrefix db (backupTimestamp fireMs) := by
  unfold performBackup dumped
  rw [hb]
  simp only
  cases backupTargets c a with
  | error e => rfl
  | ok targets => exact putKeys_dumpTargets parseFromStr b _ a 0 targets _

end Keys

/-! ## The log -/

/-- What a tick finds of the database when it plans. -/
structure Finding where
  config : ServiceConfig
  /-- The recorded fire, or the anchor. -/
  last : Option Int
  now : Int
  /-- A container of the service runs. -/
  up : Bool
  /-- The plan replaces the service's containers. -/
  rolling : Bool

/-- The fires since the recorded one. -/
def Finding.missed (f : Finding) : Set Int :=
  {t | ∃ b s last, f.config.backup = some b ∧ parseCronExpression b.schedule = .ok s ∧ f.last = some last ∧
    Fires s t ∧ last < t ∧ t ≤ f.now}

def rollsOut (key : String) : Action → Bool
  | .rollout c _ => c.key == key
  | _ => false

/-- `c` is the service's entry in the document of the tick. -/
def found (key : String) (w : Node) (i : TickInput) (c : ServiceConfig) : Finding where
  config := c
  last := (w.began i).records.mem.fire (backupStateKey key)
  now := i.planNow
  up := (replicasOf w.liveNow key).any (·.running)
  rolling := (w.plan i).any (rollsOut key)

section Log

variable (parseFromStr : String → Option NaiveDateTime)

/-- An attempt, with what it asked of the bucket: all that `perform_backup` asks, or a first
    part of it where the agent stopped. -/
structure Tried where
  config : ServiceConfig
  fireMs : Int
  answers : BackupAnswers
  requests : List BackupRequest
  whole : Bool
  asked : ∃ bucket, requests <+: (performBackup parseFromStr config fireMs answers bucket).2 ∧
    (whole = true → requests = (performBackup parseFromStr config fireMs answers bucket).2)

inductive Mark where
  | planned (found : Finding)
  | seeded (anchor : Int)
  | attempted (x : Tried parseFromStr)
  | recorded (fireMs : Int)

end Log

variable {parseFromStr : String → Option NaiveDateTime} {nodeId key : String}

/-- The anchor or the fire that stands in the records from the mark on. -/
def Mark.value : Mark parseFromStr → Option Int
  | .seeded anchor => some anchor
  | .recorded fireMs => some fireMs
  | _ => none

def Mark.finding : Mark parseFromStr → Option Finding
  | .planned f => some f
  | _ => none

def values (log : List (Mark parseFromStr)) : List Int := log.filterMap Mark.value

def newest (log : List (Mark parseFromStr)) : Option Int := (values log).head?

/-- What the latest tick that planned has found. -/
def tickOf (log : List (Mark parseFromStr)) : Option Finding := log.findSome? Mark.finding

/-- What has happened since it planned. -/
def thisTick (log : List (Mark parseFromStr)) : List (Mark parseFromStr) := log.takeWhile fun m => m.finding.isNone

/-- What a mark says of the older ones. -/
def Mark.Follows (older : List (Mark parseFromStr)) : Mark parseFromStr → Prop
  | .planned f => f.last = newest older
  | .seeded anchor => ∀ v ∈ values older, v ≤ anchor
  | .attempted x => (∀ y, Mark.attempted y ∉ thisTick older) ∧
      ∃ f, tickOf older = some f ∧ f.up = true ∧ f.rolling = false ∧ x.config = f.config ∧ IsGreatest f.missed x.fireMs
  | .recorded fireMs => (∀ v ∈ values older, v < fireMs) ∧
      ∃ x rest, older = .attempted x :: rest ∧ x.fireMs = fireMs

def Told (log : List (Mark parseFromStr)) : Prop := ∀ newer m older, log = newer ++ m :: older → m.Follows older

theorem Told.nil : Told ([] : List (Mark parseFromStr)) := fun newer m older h => by simp at h

theorem Told.cons {m : Mark parseFromStr} {log : List (Mark parseFromStr)} (h : Told log) (hm : m.Follows log) :
    Told (m :: log) := by
  intro newer m' older he
  cases newer with
  | nil =>
    cases he
    exact hm
  | cons n newer =>
    rw [List.cons_append] at he
    exact h newer m' older (List.tail_eq_of_cons_eq he)

theorem Told.tail {m : Mark parseFromStr} {log : List (Mark parseFromStr)} (h : Told (m :: log)) : Told log :=
  fun newer m' older he => h (m :: newer) m' older (by rw [he]; rfl)

theorem Told.head {m : Mark parseFromStr} {log : List (Mark parseFromStr)} (h : Told (m :: log)) : m.Follows log :=
  h [] m log rfl

/-- Where every mark follows from the older ones, the newest record is the highest. -/
theorem le_newest {log : List (Mark parseFromStr)} (h : Told log) {n : Int} (hn : newest log = some n) :
    ∀ v ∈ values log, v ≤ n := by
  induction log with
  | nil => cases hn
  | cons m log ih =>
    intro v hv
    have hhead := h.head
    unfold newest values at hn
    unfold values at hv
    rw [List.filterMap_cons] at hn hv
    cases m with
    | planned f => exact ih h.tail hn v hv
    | attempted x => exact ih h.tail hn v hv
    | seeded anchor =>
      cases hn
      rcases List.mem_cons.mp hv with rfl | hv
      · exact Int.le_refl _
      · exact hhead v hv
    | recorded fireMs =>
      cases hn
      rcases List.mem_cons.mp hv with rfl | hv
      · exact Int.le_refl _
      · exact Int.le_of_lt (hhead.1 v hv)

/-! ## The runs -/

/-- The documents of the claim: distinct service keys, and the service always desired as a
    long-running one with a backup. No service is named as its backup record. -/
structure Desires (key : String) (d : DesiredState) (c : ServiceConfig) : Prop where
  keys : (d.services.map (·.key)).Nodup
  named : ∀ e ∈ d.services, e.key ≠ backupStateKey key
  listed : c ∈ d.services
  key_eq : c.key = key
  backup : c.backup.isSome = true
  cron : c.cron = none
  jobRun : c.jobRun = none

/-- The value a record has moved to. -/
def moved (before after : Option Int) : List Int := if after = before then [] else after.toList

def fireOf (key : String) (w : Node) : Option Int := w.records.mem.fire (backupStateKey key)

/-- What a command adds of an attempt. -/
def Tries (parseFromStr : String → Option NaiveDateTime) (key : String) (marks : List (Mark parseFromStr)) : Op → Prop
  | .runBackup c fireMs =>
    if c.key = key then
      ∃ x : Tried parseFromStr, x.config = c ∧ x.fireMs = fireMs ∧ x.whole = true ∧ marks = [.attempted x]
    else marks = []
  | _ => marks = []

def backupLog (parseFromStr : String → Option NaiveDateTime) (key : String) : Observer (List (Mark parseFromStr)) where
  start := []
  env log _ _ log' := log' = log
  failed log _ log' := log' = log
  begin log w i log' := ∃ c, Desires key i.desired c ∧
    log' = .planned (found key w i c) :: (moved (fireOf key w) (fireOf key (w.began i))).map .seeded ++ log
  command log o w _ w' log' := ∃ marks, Tries parseFromStr key marks o ∧
    log' = (moved (fireOf key w) (fireOf key w')).map .recorded ++ marks ++ log
  finish log _ _ log' := log' = log

/-- The states of the runs. -/
inductive BackupReach (parseFromStr : String → Option NaiveDateTime) (nodeId key : String) :
    Phase × Node × List (Mark parseFromStr) → Prop
  | fresh (clock : Int) : BackupReach parseFromStr nodeId key (.down, .fresh clock, [])
  | step {c c' : Phase × Node × List (Mark parseFromStr)} : BackupReach parseFromStr nodeId key c →
      Watch nodeId (backupLog parseFromStr key) c c' → BackupReach parseFromStr nodeId key c'
  | cut {c : ServiceConfig} {fireMs : Int} {k : Resp (.runBackup c fireMs) → Prog Resp (Except String Unit)} {w : Node}
      {log : List (Mark parseFromStr)} (x : Tried parseFromStr) :
      BackupReach parseFromStr nodeId key (.applying (.act (.runBackup c fireMs) k), w, log) → c.key = key →
      x.config = c → x.fireMs = fireMs → x.whole = false →
      BackupReach parseFromStr nodeId key (.down, w, .attempted x :: log)

/-! ## What the log says of the node -/

structure LogInv (key : String) (c : Node × List (Mark parseFromStr)) : Prop where
  told : Told c.2
  clock : ∀ v ∈ values c.2, v ≤ c.1.clock
  mem : ∀ a, fireOf key c.1 = some a → newest c.2 = some a
  file : ∀ s a, c.1.records.file = some s → s.fire (backupStateKey key) = some a → newest c.2 = some a
  unseen : fireOf key c.1 = none → ∀ s, c.1.records.file = some s → s.fire (backupStateKey key) = none

/-- A step that leaves the key's record alone. -/
structure Untouched (key : String) (w w' : Node) : Prop where
  clock : w.clock ≤ w'.clock
  mem : fireOf key w' = fireOf key w
  file : ∀ s, w'.records.file = some s → w.records.file = some s ∨ s.fire (backupStateKey key) = fireOf key w

theorem LogInv.frame {w w' : Node} {log : List (Mark parseFromStr)} (h : LogInv key (w, log)) (hu : Untouched key w w') :
    LogInv key (w', log) where
  told := h.told
  clock v hv := Int.le_trans (h.clock v hv) hu.clock
  mem a ha := h.mem a (hu.mem ▸ ha)
  file s a hs ha := by
    rcases hu.file s hs with hs | hs
    · exact h.file s a hs ha
    · exact h.mem a (hs ▸ ha)
  unseen hnone s hs := by
    rw [hu.mem] at hnone
    rcases hu.file s hs with hs | hs
    · exact h.unseen hnone s hs
    · rw [hs]
      exact hnone

/-- Another mark that is no record. -/
theorem LogInv.mark {w : Node} {log : List (Mark parseFromStr)} (h : LogInv key (w, log)) {m : Mark parseFromStr}
    (hm : m.Follows log) (hv : m.value = none) : LogInv key (w, m :: log) := by
  have hvalues : values (m :: log) = values log := by rw [values, List.filterMap_cons, hv]; rfl
  refine ⟨h.told.cons hm, ?_, ?_, ?_, h.unseen⟩
  · rw [hvalues]
    exact h.clock
  · unfold newest
    rw [hvalues]
    exact h.mem
  · unfold newest
    rw [hvalues]
    exact h.file

theorem rely_untouched {w w' : Node} (hr : Rely w w') : Untouched key w w' := by
  cases hr with
  | tick t ht => exact ⟨ht, rfl, fun s hs => .inl hs⟩
  | exit | restart | remove => exact ⟨Int.le_refl _, rfl, fun s hs => .inl hs⟩
  | loseFile => exact ⟨Int.le_refl _, rfl, fun s hs => by cases hs⟩

/-- A command that is not about the key's record. -/
def Off (key : String) : Op → Prop
  | .recordCronFire k _ => k ≠ backupStateKey key
  | .runBackup c _ => c.key ≠ key
  | _ => True

theorem backupStateKey_inj {a b : String} (h : backupStateKey a = backupStateKey b) : a = b := by
  have := congrArg String.toList h
  simp only [backupStateKey, String.toList_append, List.append_cancel_left_eq] at this
  exact String.toList_inj.mp this

theorem sem_untouched {o : Op} {w w' : Node} {r : Resp o} (ho : Off key o) (hs : sem nodeId o w r w') : Untouched key w w' := by
  have hcron : ∀ fire, o ≠ .recordCronFire (backupStateKey key) fire := by
    rintro fire rfl
    exact ho rfl
  have hbackup : ∀ c fire, o = .runBackup c fire → backupStateKey c.key ≠ backupStateKey key := by
    rintro c fire rfl hk
    exact ho (backupStateKey_inj hk)
  obtain ⟨hmem, hfile⟩ := sem_fire_kept hcron hbackup hs
  exact ⟨sem_clock hs, hmem, hfile⟩

/-- Such a command adds nothing to the log. -/
theorem command_untouched {o : Op} {c c' : Node × List (Mark parseFromStr)} {r : Resp o} (ho : Off key o)
    (hs : (watcher nodeId (backupLog parseFromStr key)).sem o c r c') : Untouched key c.1 c'.1 ∧ c'.2 = c.2 := by
  obtain ⟨hs, marks, htries, hlog⟩ := hs
  have hu := sem_untouched ho hs
  refine ⟨hu, ?_⟩
  have hmarks : marks = [] := by
    cases o with
    | runBackup e fireMs =>
      have hne : e.key ≠ key := ho
      simpa only [Tries, if_neg hne] using htries
    | _ => exact htries
  rw [hlog, moved, if_pos hu.mem, hmarks]
  rfl

/-! ## The bookkeeping of a tick -/

section Began

variable {w : Node} {i : TickInput} {c : ServiceConfig} {log : List (Mark parseFromStr)}

/-- The record is kept, or seeded with the clock. -/
theorem fireOf_began (hd : Desires key i.desired c) :
    fireOf key (w.began i) = some ((fireOf key w).getD (i.now (backupStateKey key))) ∧
      ((w.began i).records.file = w.records.file ∨ (w.began i).records.file = some (w.began i).records.mem) := by
  obtain ⟨hmem, hfile⟩ := seed_records w.records i.desired w.liveNow i.now i.saved (backupStateKey key)
  refine ⟨?_, hfile⟩
  have hcron : backupStateKey key ∉ cronKeys i.desired := by
    intro hm
    obtain ⟨e, he, hk⟩ := List.mem_map.mp hm
    exact hd.named e (List.mem_filter.mp he).1 hk
  have hback : backupStateKey key ∈ backupKeys i.desired :=
    List.mem_map.mpr ⟨c, List.mem_filter.mpr ⟨hd.listed, hd.backup⟩, by rw [hd.key_eq]⟩
  rw [get_seedFires, if_neg hcron, if_pos hback] at hmem
  exact hmem

theorem LogInv.began (h : LogInv key (w, log)) (ht : i.Timed w) (hd : Desires key i.desired c) :
    LogInv key (w.began i, (moved (fireOf key w) (fireOf key (w.began i))).map .seeded ++ log) ∧
      fireOf key (w.began i) =
        newest ((moved (fireOf key w) (fireOf key (w.began i))).map Mark.seeded ++ log) := by
  obtain ⟨hmem, hfile⟩ := fireOf_began hd (w := w)
  obtain ⟨h1, h2⟩ := ht.2 (backupStateKey key)
  cases hf : fireOf key w with
  | some a =>
    rw [hf, Option.getD_some] at hmem
    rw [hmem, moved, if_pos rfl]
    have hu : Untouched key w (w.began i) := by
      refine ⟨ht.1, hmem.trans hf.symm, fun s hs => ?_⟩
      rcases hfile with hfile | hfile
      · exact .inl (hfile ▸ hs)
      · rw [hfile] at hs
        cases hs
        exact .inr (hmem.trans hf.symm)
    exact ⟨h.frame hu, (h.mem a hf).symm⟩
  | none =>
    rw [hf, Option.getD_none] at hmem
    rw [hmem, moved, if_neg (by simp)]
    have hseed : (Mark.seeded (i.now (backupStateKey key)) : Mark parseFromStr).Follows log :=
      fun v hv => Int.le_trans (h.clock v hv) h1
    refine ⟨⟨h.told.cons hseed, fun v hv => ?_, fun a ha => ?_, fun s a hs ha => ?_, fun hnone => ?_⟩, rfl⟩
    · rcases List.mem_cons.mp hv with rfl | hv
      · exact h2
      · exact Int.le_trans (h.clock v hv) ht.1
    · exact hmem.symm.trans ha
    · rcases hfile with hfile | hfile
      · rw [hfile] at hs
        rw [h.unseen hf s hs] at ha
        cases ha
      · rw [hfile] at hs
        cases hs
        exact hmem.symm.trans ha
    · rw [hmem] at hnone
      cases hnone

end Began

end LaunchPad.Agent.BackupLog
