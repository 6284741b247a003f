/-
  LaunchPad.Agent.Backup — the names of database dumps and their retention
  (`agent-rust/src/backup.rs`).

  A dump is stored under `<prefix><database>/<timestamp>.sql.gz`; its age is read back from
  the timestamp of its key. The calendar of `chrono` is `Lib.Calendar`; its formatter is
  written out here. Its parser is a parameter, of which two things are used (`ReadsFormat`):
  it reads the digits the format names, and nothing may follow the format's final Z. What
  else it accepts decides only which keys are dated.

  The cutoff is computed in 64 bits, and a retention so long that it lies before their first
  instant wraps round to a late one. The CLI accepts at most 3650 days.

  As built:
  - `long_retention_expires_all`: with 2^54 days of retention every old dump is expired.

  Proved:
  - `retention_exact`: timestamps are read back to the second; expired are exactly the keys
    whose last segment is older than the cutoff; keys sort in the order of their fires.
-/
import LaunchPad.Agent.Plan
import LaunchPad.Agent.Status
import LaunchPad.Lib.Calendar
import LaunchPad.Lib.Decimal

namespace LaunchPad.Agent

open Lib

/-! ## Date and time -/

instance (c : Calendar.Date) : Decidable c.Valid :=
  inferInstanceAs (Decidable (1 ≤ c.month ∧ c.month ≤ 12 ∧ 1 ≤ c.day ∧ c.day ≤ Calendar.monthLength c.year c.month))

/-- chrono's `NaiveDateTime`: a leap second has more than 10^9 nanoseconds. -/
structure NaiveDateTime where
  date : Calendar.Date
  secs : Nat
  nanos : Nat
  valid : date.Valid
  inCalendar : chronoFirstDay ≤ Calendar.toDay date ∧ Calendar.toDay date ≤ chronoLastDay
  secs_lt : secs < 86400
  nanos_lt : nanos < 2000000000
  deriving DecidableEq

/-- `and_utc().timestamp_millis()`. -/
def NaiveDateTime.timestampMillis (t : NaiveDateTime) : Int :=
  (Calendar.toDay t.date * 86400 + t.secs) * 1000 + t.nanos / 1000000

/-- `DateTime::from_timestamp_millis`. -/
def fromTimestampMillis (ms : Int) : Option NaiveDateTime :=
  if h : chronoFirstDay ≤ ms / dayMs ∧ ms / dayMs ≤ chronoLastDay then
    some {
      date := Calendar.ofDay (ms / dayMs)
      secs := (ms % dayMs / 1000).toNat
      nanos := (ms % 1000).toNat * 1000000
      valid := Calendar.ofDay_valid _
      inCalendar := by rw [Calendar.toDay_ofDay]; exact h
      secs_lt := by unfold dayMs; omega
      nanos_lt := by omega }
  else none

/-- The date and time written as `%Y-%m-%dT%H-%M-%SZ`. -/
def NaiveDateTime.format (t : NaiveDateTime) : String :=
  yearText t.date.year ++ "-" ++ padded 2 t.date.month.toNat ++ "-" ++ padded 2 t.date.day.toNat ++ "T"
    ++ padded 2 (t.secs / 3600) ++ "-" ++ padded 2 (t.secs / 60 % 60) ++ "-"
    ++ padded 2 (t.secs % 60 + t.nanos / 1000000000) ++ "Z"

def epochStart : NaiveDateTime where
  date := ⟨1970, 1, 1⟩
  secs := 0
  nanos := 0
  valid := by decide
  inCalendar := by decide
  secs_lt := by decide
  nanos_lt := by decide

theorem epochStart_eq : fromTimestampMillis 0 = some epochStart := by decide +kernel

/-! ## Keys -/

/-- An instant outside chrono's calendar is written as the epoch. -/
def backupTimestamp (nowMs : Int) : String := ((fromTimestampMillis nowMs).getD epochStart).format

/-- `rsplit('/').next()`: what follows the last slash. -/
def lastSegment (key : List Char) : List Char := (key.reverse.takeWhile (· != '/')).reverse

/-- `strip_suffix(..).unwrap_or(name)`. -/
def stripSuffix (suffix name : List Char) : List Char :=
  if suffix.isSuffixOf name then name.take (name.length - suffix.length) else name

def dumpSuffix : List Char := ".sql.gz".toList

section Parser

-- `NaiveDateTime::parse_from_str(_, TS_FORMAT).ok()`.
variable (parseFromStr : String → Option NaiveDateTime)

def parseBackupTimestamp (objectNameOrKey : String) : Option Int :=
  let name := lastSegment objectNameOrKey.toList
  let stamp := stripSuffix dumpSuffix name
  (parseFromStr (String.ofList stamp)).map (·.timestampMillis)

def msPerDay : Int := 86400000

def selectExpiredKeys (keys : List String) (nowMs retentionDays : Int) : List String :=
  let cutoff := i64 (nowMs - i64 (retentionDays * msPerDay))
  keys.filter fun k => match parseBackupTimestamp parseFromStr k with
    | some ts => ts < cutoff
    | none => false

end Parser

def backupObjectKey (keysUnder database timestamp : String) : String :=
  keysUnder ++ database ++ "/" ++ timestamp ++ ".sql.gz"

def databaseTargets (explicit enumerated : List String) : List String :=
  if explicit.isEmpty then enumerated else explicit

/-- `^[A-Za-z_][A-Za-z0-9_$]{0,62}$`. -/
def isValidIdentifier (s : String) : Bool :=
  match s.toList with
  | [] => false
  | first :: rest =>
    decide (s.utf8ByteSize ≤ 63) && (first.isAlpha || first == '_') &&
      rest.all fun c => c.isAlphanum || c == '_' || c == '$'

/-! ## The digits of a timestamp -/

/-- `width` digits and the rest of the text. -/
def readNumber (width : Nat) (text : List Char) : Option (Nat × List Char) :=
  let digits := text.take width
  if digits.length = width ∧ digits.all Char.isDigit = true then
    some (Nat.ofDigitChars 10 digits 0, text.drop width)
  else none

def readLiteral (c : Char) : List Char → Option (List Char)
  | x :: rest => if x = c then some rest else none
  | [] => none

def ofFields (year month day hour minute second : Nat) : Option NaiveDateTime :=
  let date : Calendar.Date := ⟨year, month, day⟩
  if h : (date.Valid ∧ chronoFirstDay ≤ Calendar.toDay date ∧ Calendar.toDay date ≤ chronoLastDay) ∧
      hour < 24 ∧ minute < 60 ∧ second < 60 then
    some {
      date
      secs := hour * 3600 + minute * 60 + second
      nanos := 0
      valid := h.1.1
      inCalendar := h.1.2
      secs_lt := by omega
      nanos_lt := by decide }
  else none

/-- Four digits for the year, two for every other field, and nothing else. -/
def readStamp (text : List Char) : Option NaiveDateTime := do
  let year ← readNumber 4 text
  let month ← readNumber 2 (← readLiteral '-' year.2)
  let day ← readNumber 2 (← readLiteral '-' month.2)
  let hour ← readNumber 2 (← readLiteral 'T' day.2)
  let minute ← readNumber 2 (← readLiteral '-' hour.2)
  let second ← readNumber 2 (← readLiteral '-' minute.2)
  let rest ← readLiteral 'Z' second.2
  if rest.isEmpty then ofFields year.1 month.1 day.1 hour.1 minute.1 second.1 else none

/-- What is used of chrono's parser: it reads the digits of the format, and what it accepts
    ends with the format's last character. -/
structure ReadsFormat (parseFromStr : String → Option NaiveDateTime) : Prop where
  reads : ∀ {text : String} {t : NaiveDateTime}, readStamp text.toList = some t → parseFromStr text = some t
  ends : ∀ {text : String} {t : NaiveDateTime}, parseFromStr text = some t → ∃ rest, text.toList = rest ++ ['Z']

theorem readNumber_pad {w n : Nat} (hw : 1 ≤ w) (h : n < 10 ^ w) (rest : List Char) :
    readNumber w (Decimal.pad w n ++ rest) = some (n, rest) := by
  have hlen := Decimal.length_pad hw h
  have hdigits : (Decimal.pad w n).all Char.isDigit = true :=
    List.all_eq_true.mpr fun _ hc => Decimal.isDigit_of_mem_pad hc
  have htake : (Decimal.pad w n ++ rest).take w = Decimal.pad w n := List.take_left' hlen
  have hdrop : (Decimal.pad w n ++ rest).drop w = rest := List.drop_left' hlen
  unfold readNumber
  simp only
  rw [htake, hdrop, if_pos ⟨hlen, hdigits⟩, Decimal.value_pad]

theorem readLiteral_cons (c : Char) (rest : List Char) : readLiteral c (c :: rest) = some rest := if_pos rfl

/-- The digits of the fields, with what stands between them. -/
def stampText (year month day hour minute second : Nat) : List Char :=
  Decimal.pad 4 year ++ '-' :: (Decimal.pad 2 month ++ '-' :: (Decimal.pad 2 day ++ 'T' ::
    (Decimal.pad 2 hour ++ '-' :: (Decimal.pad 2 minute ++ '-' :: (Decimal.pad 2 second ++ ['Z'])))))

theorem readStamp_text {year month day hour minute second : Nat} (hy : year < 10 ^ 4) (hm : month < 10 ^ 2)
    (hd : day < 10 ^ 2) (hh : hour < 10 ^ 2) (hi : minute < 10 ^ 2) (hs : second < 10 ^ 2) :
    readStamp (stampText year month day hour minute second) = ofFields year month day hour minute second := by
  have h2 : 1 ≤ 2 := by decide
  unfold readStamp stampText
  simp only [readNumber_pad (show 1 ≤ 4 by decide) hy, readNumber_pad h2 hm, readNumber_pad h2 hd, readNumber_pad h2 hh,
    readNumber_pad h2 hi, readNumber_pad h2 hs, readLiteral_cons, Option.bind_eq_bind, Option.bind_some]
  rfl

theorem toList_padded (w n : Nat) : (padded w n).toList = Decimal.pad w n := by
  have hdigits : (toString n).toList = Nat.toDigits 10 n := Nat.toList_repr
  unfold padded Decimal.pad
  simp only
  rw [String.toList_append, String.toList_ofList, hdigits, ← String.length_toList, hdigits]

/-- A year of four digits. -/
def NaiveDateTime.FourDigits (t : NaiveDateTime) : Prop := 0 ≤ t.date.year ∧ t.date.year ≤ 9999

theorem NaiveDateTime.FourDigits.toList_format {t : NaiveDateTime} (h : t.FourDigits) :
    t.format.toList = stampText t.date.year.toNat t.date.month.toNat t.date.day.toNat (t.secs / 3600) (t.secs / 60 % 60)
      (t.secs % 60 + t.nanos / 1000000000) := by
  have hyear : yearText t.date.year = padded 4 t.date.year.toNat := if_pos h
  unfold NaiveDateTime.format stampText
  rw [hyear]
  simp only [String.toList_append, toList_padded, List.append_assoc]
  rfl

/-- The fields are in their ranges. -/
theorem NaiveDateTime.fields (t : NaiveDateTime) :
    1 ≤ t.date.month ∧ t.date.month ≤ 12 ∧ 1 ≤ t.date.day ∧ t.date.day ≤ 31 ∧ t.secs / 3600 < 24 ∧
      t.secs % 60 + t.nanos / 1000000000 < 61 := by
  obtain ⟨h1, h2, h3, h4⟩ := t.valid
  have hlen := Calendar.monthLength_le t.date.year t.date.month
  have hsecs := t.secs_lt
  have hnanos := t.nanos_lt
  unfold Calendar.commonMonthLength at hlen
  refine ⟨h1, h2, h3, ?_, by omega, by omega⟩
  split at hlen
  · omega
  · split at hlen <;> omega

/-- What is written is read back, without the part of the second. -/
theorem readStamp_format {t : NaiveDateTime} (h : t.FourDigits) (hnanos : t.nanos < 1000000000) :
    readStamp t.format.toList = some { t with nanos := 0, nanos_lt := by decide } := by
  obtain ⟨hm1, hm12, hd1, hd31, hhour, -⟩ := t.fields
  obtain ⟨hy0, hy⟩ := h
  have hsecs := t.secs_lt
  have hdate : (⟨(t.date.year.toNat : Int), (t.date.month.toNat : Int), (t.date.day.toNat : Int)⟩ : Calendar.Date) = t.date := by
    rw [Int.toNat_of_nonneg hy0, Int.toNat_of_nonneg (by omega), Int.toNat_of_nonneg (by omega)]
  have hsum : t.secs / 3600 * 3600 + t.secs / 60 % 60 * 60 + (t.secs % 60 + t.nanos / 1000000000) = t.secs := by omega
  rw [NaiveDateTime.FourDigits.toList_format ⟨hy0, hy⟩, readStamp_text (by omega) (by omega) (by omega) (by omega)
    (by omega) (by omega)]
  unfold ofFields
  simp only [hdate, hsum]
  rw [dif_pos ⟨⟨t.valid, t.inCalendar⟩, hhour, by omega, by omega⟩]

/-! ## Instants -/

theorem fromTimestampMillis_eq {ms : Int} (h : chronoFirstDay ≤ ms / dayMs ∧ ms / dayMs ≤ chronoLastDay) :
    ∃ t, fromTimestampMillis ms = some t ∧ t.date = Calendar.ofDay (ms / dayMs) ∧
      (t.secs : Int) = ms % dayMs / 1000 ∧ (t.nanos : Int) = ms % 1000 * 1000000 := by
  have hday : dayMs = 86400000 := rfl
  refine ⟨_, dif_pos h, rfl, ?_, ?_⟩
  · simp only [hday]
    omega
  · simp only
    omega

/-- An instant of the years 0000 to 9999. -/
def InFourDigitYears (ms : Int) : Prop :=
  0 ≤ (Calendar.ofDay (ms / dayMs)).year ∧ (Calendar.ofDay (ms / dayMs)).year ≤ 9999

theorem InFourDigitYears.inCalendar {ms : Int} (h : InFourDigitYears ms) :
    chronoFirstDay ≤ ms / dayMs ∧ ms / dayMs ≤ chronoLastDay := by
  obtain ⟨hlow, hhigh⟩ := Calendar.newYear_bounds (Calendar.ofDay_valid (ms / dayMs))
  rw [Calendar.toDay_ofDay] at hlow hhigh
  have hfirst := Calendar.newYear_mono h.1
  have hlast := Calendar.newYear_mono (show (Calendar.ofDay (ms / dayMs)).year + 1 ≤ 10000 by have := h.2; omega)
  have h0 : Calendar.newYear 0 = -719528 := by decide
  have h1 : Calendar.newYear 10000 = 2932897 := by decide
  unfold chronoFirstDay chronoLastDay
  omega

/-- The timestamp of an instant, and what is read back from it. -/
theorem InFourDigitYears.timestamp {ms : Int} (h : InFourDigitYears ms) :
    ∃ t : NaiveDateTime, backupTimestamp ms = t.format ∧ t.FourDigits ∧ t.nanos < 1000000000 ∧
      t.date = Calendar.ofDay (ms / dayMs) ∧ (t.secs : Int) = ms % dayMs / 1000 := by
  obtain ⟨t, ht, hdate, hsecs, hnanos⟩ := fromTimestampMillis_eq h.inCalendar
  refine ⟨t, ?_, ?_, by omega, hdate, hsecs⟩
  · unfold backupTimestamp
    rw [ht]
    rfl
  · unfold NaiveDateTime.FourDigits
    rw [hdate]
    exact h

/-! ## The last segment -/

theorem takeWhile_slash (a b : List Char) : (a ++ '/' :: b).takeWhile (· != '/') = a.takeWhile (· != '/') := by
  induction a with
  | nil => rfl
  | cons c a ih => simp only [List.cons_append, List.takeWhile_cons, ih]

theorem takeWhile_no_slash {a : List Char} (h : '/' ∉ a) : a.takeWhile (· != '/') = a := by
  induction a with
  | nil => rfl
  | cons c a ih =>
    obtain ⟨hc, ha⟩ : '/' ≠ c ∧ '/' ∉ a := by simpa using h
    rw [List.takeWhile_cons, if_pos (by simpa using fun he => hc he.symm), ih ha]

theorem lastSegment_append (dir name : List Char) : lastSegment (dir ++ '/' :: name) = lastSegment name := by
  unfold lastSegment
  rw [List.reverse_append, List.reverse_cons, List.append_assoc]
  exact congrArg List.reverse (takeWhile_slash name.reverse dir.reverse)

theorem lastSegment_eq {name : List Char} (h : '/' ∉ name) : lastSegment name = name := by
  unfold lastSegment
  rw [takeWhile_no_slash (by simpa using h), List.reverse_reverse]

/-- `name` is what follows the last slash of the key. -/
def LastSegment (key name : List Char) : Prop := '/' ∉ name ∧ (key = name ∨ ∃ dir, key = dir ++ '/' :: name)

theorem exists_lastSegment (key : List Char) : ∃ name, LastSegment key name := by
  induction key with
  | nil => exact ⟨[], by simp, .inl rfl⟩
  | cons c key ih =>
    obtain ⟨name, hno, rfl | ⟨dir, rfl⟩⟩ := ih
    · by_cases hc : c = '/'
      · exact ⟨key, hno, .inr ⟨[], by rw [hc]; rfl⟩⟩
      · exact ⟨c :: key, List.not_mem_cons_of_ne_of_not_mem (Ne.symm hc) hno, .inl rfl⟩
    · exact ⟨name, hno, .inr ⟨c :: dir, rfl⟩⟩

theorem LastSegment.eq {key name : List Char} (h : LastSegment key name) : lastSegment key = name := by
  obtain ⟨hno, rfl | ⟨dir, rfl⟩⟩ := h
  · exact lastSegment_eq hno
  · rw [lastSegment_append, lastSegment_eq hno]

theorem lastSegment_iff {key name : List Char} : lastSegment key = name ↔ LastSegment key name := by
  obtain ⟨other, hother⟩ := exists_lastSegment key
  constructor
  · rintro rfl
    rw [hother.eq]
    exact hother
  · exact LastSegment.eq

theorem stripSuffix_append (suffix name : List Char) : stripSuffix suffix (name ++ suffix) = name := by
  unfold stripSuffix
  rw [if_pos (by simp)]
  simp

theorem stripSuffix_cases (suffix name : List Char) :
    name = stripSuffix suffix name ++ suffix ∨ (stripSuffix suffix name = name ∧ ¬ suffix <:+ name) := by
  by_cases h : suffix <:+ name
  · left
    obtain ⟨rest, rfl⟩ := h
    rw [stripSuffix_append]
  · right
    refine ⟨?_, h⟩
    unfold stripSuffix
    rw [if_neg (by simpa using h)]

/-! ## Retention -/

/-- What the code's cutoff stands for. -/
def cutoff (nowMs retentionDays : Int) : Int := nowMs - retentionDays * msPerDay

section Retention

variable {parseFromStr : String → Option NaiveDateTime}

/-- The key's last segment is a timestamp, with the suffix or without it. -/
def Dated (parseFromStr : String → Option NaiveDateTime) (key : String) (ts : Int) : Prop :=
  ∃ name stamp, LastSegment key.toList name ∧ (name = stamp ∨ name = stamp ++ dumpSuffix) ∧
    ∃ t, parseFromStr (String.ofList stamp) = some t ∧ t.timestampMillis = ts

theorem parseBackupTimestamp_iff (hp : ReadsFormat parseFromStr) {key : String} {ts : Int} :
    parseBackupTimestamp parseFromStr key = some ts ↔ Dated parseFromStr key ts := by
  unfold parseBackupTimestamp
  simp only [Option.map_eq_some_iff]
  constructor
  · rintro ⟨t, ht, rfl⟩
    refine ⟨_, _, lastSegment_iff.mp rfl, ?_, t, ht, rfl⟩
    rcases stripSuffix_cases dumpSuffix (lastSegment key.toList) with h | ⟨h, -⟩
    · exact .inr h
    · exact .inl h.symm
  · rintro ⟨name, stamp, hseg, hname, t, ht, rfl⟩
    refine ⟨t, ?_, rfl⟩
    rw [hseg.eq]
    rcases hname with rfl | rfl
    · -- What the parser accepts does not end like the suffix.
      obtain ⟨rest, hrest⟩ := hp.ends ht
      rw [String.toList_ofList] at hrest
      rcases stripSuffix_cases dumpSuffix name with h | ⟨h, -⟩
      · rw [hrest] at h
        have hlast := congrArg List.getLast? h
        rw [List.getLast?_append, List.getLast?_append] at hlast
        exact absurd (show some 'Z' = some 'z' from hlast) (by decide)
      · rw [h]
        exact ht
    · rw [stripSuffix_append]
      exact ht

/-- Read back to the second. -/
theorem parseBackupTimestamp_stamp (hp : ReadsFormat parseFromStr) {ms : Int} (h : InFourDigitYears ms) {key : String}
    (hkey : LastSegment key.toList (backupTimestamp ms).toList ∨
      LastSegment key.toList ((backupTimestamp ms).toList ++ dumpSuffix)) :
    parseBackupTimestamp parseFromStr key = some (ms / 1000 * 1000) := by
  obtain ⟨t, ht, hfour, hnanos, hdate, hsecs⟩ := h.timestamp
  have hread := hp.reads (readStamp_format hfour hnanos)
  have hmillis : NaiveDateTime.timestampMillis { t with nanos := 0, nanos_lt := by decide } = ms / 1000 * 1000 := by
    unfold NaiveDateTime.timestampMillis
    simp only
    rw [hdate, Calendar.toDay_ofDay, hsecs]
    unfold dayMs
    omega
  rw [parseBackupTimestamp_iff hp]
  rw [ht] at hkey
  have hstamp : parseFromStr (String.ofList t.format.toList) = some { t with nanos := 0, nanos_lt := by decide } := by
    rw [String.ofList_toList]
    exact hread
  rcases hkey with hkey | hkey
  · exact ⟨_, _, hkey, .inl rfl, _, hstamp, hmillis⟩
  · exact ⟨_, _, hkey, .inr rfl, _, hstamp, hmillis⟩

/-- No wrap: the difference fits 64 bits, so its own overflow and that of the product cancel. -/
theorem i64_cutoff {nowMs retentionDays : Int} (hlow : -i64Max - 1 ≤ cutoff nowMs retentionDays)
    (hhigh : cutoff nowMs retentionDays ≤ i64Max) :
    i64 (nowMs - i64 (retentionDays * msPerDay)) = cutoff nowMs retentionDays := by
  have hcancel : i64 (nowMs - i64 (retentionDays * msPerDay)) = i64 (cutoff nowMs retentionDays) := Int.sub_bmod_bmod
  rw [hcancel]
  exact i64_exact hlow hhigh

/-! ### The order of the keys -/

theorem numeral_lt {w m n : Nat} (hw : 1 ≤ w) (hm : m < 10 ^ w) (hn : n < 10 ^ w) (c : Char) {a b : List Char} :
    Decimal.pad w m ++ c :: a < Decimal.pad w n ++ c :: b ↔ m < n ∨ m = n ∧ a < b := by
  have heq : Decimal.pad w m = Decimal.pad w n ↔ m = n := ⟨Decimal.pad_inj, fun h => by rw [h]⟩
  rw [Decimal.append_lt_append (by rw [Decimal.length_pad hw hm, Decimal.length_pad hw hn]), Decimal.pad_lt_iff hw hm hn,
    heq, List.cons_lt_cons_iff]
  simp

/-- Timestamps are compared field by field. -/
theorem stampText_lt {y y' m m' d d' h h' i i' s s' : Nat} (hy : y < 10 ^ 4) (hy' : y' < 10 ^ 4) (hm : m < 10 ^ 2)
    (hm' : m' < 10 ^ 2) (hd : d < 10 ^ 2) (hd' : d' < 10 ^ 2) (hh : h < 10 ^ 2) (hh' : h' < 10 ^ 2) (hi : i < 10 ^ 2)
    (hi' : i' < 10 ^ 2) (hs : s < 10 ^ 2) (hs' : s' < 10 ^ 2) :
    stampText y m d h i s < stampText y' m' d' h' i' s' ↔
      y < y' ∨ y = y' ∧ (m < m' ∨ m = m' ∧ (d < d' ∨ d = d' ∧ (h < h' ∨ h = h' ∧ (i < i' ∨ i = i' ∧ s < s')))) := by
  have h2 : 1 ≤ 2 := by decide
  unfold stampText
  rw [numeral_lt (by decide) hy hy', numeral_lt h2 hm hm', numeral_lt h2 hd hd', numeral_lt h2 hh hh',
    numeral_lt h2 hi hi', numeral_lt h2 hs hs']
  simp

/-- A later second has the later timestamp. -/
theorem format_lt {t u : NaiveDateTime} (ht : t.FourDigits) (hu : u.FourDigits) (htn : t.nanos < 1000000000)
    (hun : u.nanos < 1000000000) (h : t.date.Before u.date ∨ t.date = u.date ∧ t.secs < u.secs) :
    t.format.toList < u.format.toList := by
  obtain ⟨htm1, htm12, htd1, htd31, hth, -⟩ := t.fields
  obtain ⟨hum1, hum12, hud1, hud31, huh, -⟩ := u.fields
  rw [ht.toList_format, hu.toList_format]
  obtain ⟨hty0, hty⟩ := ht
  obtain ⟨huy0, huy⟩ := hu
  rw [stampText_lt (by omega) (by omega) (by omega) (by omega) (by omega) (by omega) (by omega) (by omega) (by omega)
    (by omega) (by omega) (by omega)]
  rcases h with h | ⟨hdate, hsecs⟩
  · unfold Calendar.Date.Before at h
    omega
  · rw [hdate]
    omega

theorem backupTimestamp_lt {a b : Int} (ha : InFourDigitYears a) (hb : InFourDigitYears b) (h : a + 1000 ≤ b) :
    (backupTimestamp a).toList < (backupTimestamp b).toList := by
  obtain ⟨t, ht, htf, htn, htd, hts⟩ := ha.timestamp
  obtain ⟨u, hu, huf, hun, hud, hus⟩ := hb.timestamp
  have hday : dayMs = 86400000 := rfl
  rw [ht, hu]
  refine format_lt htf huf htn hun ?_
  rw [htd, hud, ← Calendar.toDay_lt_iff (Calendar.ofDay_valid _) (Calendar.ofDay_valid _), Calendar.toDay_ofDay,
    Calendar.toDay_ofDay]
  simp only [hday] at hts hus ⊢
  by_cases hlt : a / 86400000 < b / 86400000
  · exact .inl hlt
  · have heq : a / 86400000 = b / 86400000 := by omega
    exact .inr ⟨by rw [heq], by omega⟩

theorem stampText_chars {y m d h i s : Nat} {c : Char} (hc : c ∈ stampText y m d h i s) :
    c.isDigit = true ∨ c = '-' ∨ c = 'T' ∨ c = 'Z' := by
  unfold stampText at hc
  simp only [List.mem_append, List.mem_cons, List.not_mem_nil, or_false] at hc
  have hpad : ∀ w n, c ∈ Decimal.pad w n → c.isDigit = true := fun w n => Decimal.isDigit_of_mem_pad
  grind

theorem no_slash_stamp {ms : Int} (h : InFourDigitYears ms) : '/' ∉ (backupTimestamp ms).toList := by
  obtain ⟨t, ht, htf, -⟩ := h.timestamp
  rw [ht, htf.toList_format]
  intro hc
  rcases stampText_chars hc with hc | hc | hc | hc <;> exact absurd hc (by decide)

/-- The keys of one database are in the order of their fires. -/
theorem backupObjectKey_lt {keysUnder database : String} {a b : Int} (ha : InFourDigitYears a) (hb : InFourDigitYears b)
    (h : a + 1000 ≤ b) :
    backupObjectKey keysUnder database (backupTimestamp a) < backupObjectKey keysUnder database (backupTimestamp b) := by
  have hlen : ∀ {ms : Int}, InFourDigitYears ms → (backupTimestamp ms).toList.length = 20 := by
    intro ms hms
    obtain ⟨t, ht, htf, -⟩ := hms.timestamp
    obtain ⟨hm1, hm12, hd1, hd31, hh, hs⟩ := t.fields
    rw [ht, htf.toList_format]
    obtain ⟨hy0, hy⟩ := htf
    unfold stampText
    simp only [List.length_append, List.length_cons, List.length_nil]
    rw [Decimal.length_pad (by decide) (by omega), Decimal.length_pad (by decide) (by omega),
      Decimal.length_pad (by decide) (by omega), Decimal.length_pad (by decide) (by omega),
      Decimal.length_pad (by decide) (by omega), Decimal.length_pad (by decide) (by omega)]
  unfold backupObjectKey
  rw [String.lt_iff_toList_lt]
  simp only [String.toList_append, List.append_assoc]
  rw [Decimal.append_left_lt, Decimal.append_left_lt, Decimal.append_left_lt,
    Decimal.append_lt_append (by rw [hlen ha, hlen hb])]
  exact .inl (backupTimestamp_lt ha hb h)

end Retention

/-! ### A reader of nothing but the digits -/

def strictReader (text : String) : Option NaiveDateTime := readStamp text.toList

theorem readNumber_suffix {w : Nat} {text : List Char} {p : Nat × List Char} (h : readNumber w text = some p) :
    p.2 <:+ text := by
  unfold readNumber at h
  simp only at h
  split at h
  · cases h
    exact List.drop_suffix w text
  · cases h

theorem readLiteral_eq {c : Char} {text rest : List Char} (h : readLiteral c text = some rest) : text = c :: rest := by
  cases text with
  | nil => cases h
  | cons x text =>
    have hif : (if x = c then some text else none) = some rest := h
    by_cases hx : x = c
    · rw [if_pos hx] at hif
      cases hif
      rw [hx]
    · rw [if_neg hx] at hif
      cases hif

theorem readStamp_ends {text : List Char} {t : NaiveDateTime} (h : readStamp text = some t) : ['Z'] <:+ text := by
  unfold readStamp at h
  simp only [Option.bind_eq_bind, Option.bind_eq_some_iff] at h
  obtain ⟨year, hyear, s₁, h₁, month, hmonth, s₂, h₂, day, hday, s₃, h₃, hour, hhour, s₄, h₄, minute, hminute, s₅, h₅,
    second, hsecond, rest, hrest, hfields⟩ := h
  have step : ∀ {w c p s r}, readLiteral c s = some r → readNumber w r = some p → p.2 <:+ s := fun hc hn =>
    (readNumber_suffix hn).trans (readLiteral_eq hc ▸ List.suffix_cons ..)
  have hnil : rest = [] := by
    split at hfields
    · rename_i hempty
      exact List.isEmpty_iff.mp hempty
    · cases hfields
  have hz : ['Z'] = second.2 := by rw [readLiteral_eq hrest, hnil]
  rw [hz]
  exact (step h₅ hsecond).trans ((step h₄ hminute).trans ((step h₃ hhour).trans ((step h₂ hday).trans
    ((step h₁ hmonth).trans (readNumber_suffix hyear)))))

theorem strictReader_reads : ReadsFormat strictReader where
  reads h := h
  ends h := by
    obtain ⟨rest, hrest⟩ := readStamp_ends h
    exact ⟨rest, hrest.symm⟩

/-- Timestamps of the years 0000 to 9999 are read back to the second, from the last segment
    of a key. Where the cutoff fits 64 bits, the expired keys are, in their order, those whose
    last segment is a timestamp older than it. The keys of fires a second apart or more are
    distinct and in the order of the fires. -/
theorem retention_exact (parseFromStr : String → Option NaiveDateTime) (hp : ReadsFormat parseFromStr) :
    (∀ ms, InFourDigitYears ms → parseBackupTimestamp parseFromStr (backupTimestamp ms) = some (ms / 1000 * 1000)) ∧
    (∀ dir name, parseBackupTimestamp parseFromStr (dir ++ "/" ++ name) = parseBackupTimestamp parseFromStr name) ∧
    (∀ keys nowMs retentionDays, 1 ≤ retentionDays → nowMs ≤ i64Max → -i64Max - 1 ≤ cutoff nowMs retentionDays →
      ∃ expired : String → Bool,
        (∀ key, expired key = true ↔ ∃ ts, Dated parseFromStr key ts ∧ ts < cutoff nowMs retentionDays) ∧
          selectExpiredKeys parseFromStr keys nowMs retentionDays = keys.filter expired) ∧
    (∀ keysUnder database a b, InFourDigitYears a → InFourDigitYears b → a + 1000 ≤ b →
      backupObjectKey keysUnder database (backupTimestamp a) < backupObjectKey keysUnder database (backupTimestamp b)) := by
  refine ⟨fun ms h => ?_, fun dir name => ?_, fun keys nowMs retentionDays hret hnow hlow => ?_,
    fun keysUnder database a b ha hb h => backupObjectKey_lt ha hb h⟩
  · exact parseBackupTimestamp_stamp hp h (.inl ⟨no_slash_stamp h, .inl rfl⟩)
  · have hsplit : (dir ++ "/" ++ name).toList = dir.toList ++ '/' :: name.toList := by
      simp only [String.toList_append, List.append_assoc]
      rfl
    unfold parseBackupTimestamp
    rw [hsplit, lastSegment_append]
  · refine ⟨_, fun key => ?_, rfl⟩
    have hhigh : cutoff nowMs retentionDays ≤ i64Max := by
      unfold cutoff msPerDay
      omega
    rw [i64_cutoff hlow hhigh]
    simp only [← parseBackupTimestamp_iff hp]
    cases parseBackupTimestamp parseFromStr key with
    | none => simp
    | some ts => simp

theorem retention_exact_strict :
    parseBackupTimestamp strictReader (backupTimestamp 1782356400750) = some 1782356400000 ∧
      ∃ expired : String → Bool,
        (∀ key, expired key = true ↔ ∃ ts, Dated strictReader key ts ∧ ts < cutoff 1782356400000 7) ∧
          selectExpiredKeys strictReader ["p/app/2026-06-17T03-00-00Z.sql.gz", "p/app/notes.txt"] 1782356400000 7 =
            ["p/app/2026-06-17T03-00-00Z.sql.gz", "p/app/notes.txt"].filter expired :=
  ⟨(retention_exact strictReader strictReader_reads).1 1782356400750 (by unfold InFourDigitYears; decide),
    (retention_exact strictReader strictReader_reads).2.2.1 _ 1782356400000 7 (by decide) (by decide) (by decide)⟩

/-- A retention of 2^54 days wraps round to a cutoff of now, and the key of a fire in the year
    10000 comes before that of the second before. -/
theorem long_retention_expires_all :
    selectExpiredKeys strictReader ["p/app/2026-06-25T02-00-00Z.sql.gz"] 1782356400000 18014398509481984 =
        ["p/app/2026-06-25T02-00-00Z.sql.gz"] ∧
      (∀ ts, Dated strictReader "p/app/2026-06-25T02-00-00Z.sql.gz" ts →
        ¬ ts < cutoff 1782356400000 18014398509481984) ∧
      backupObjectKey "p/" "app" (backupTimestamp 253402300800000) <
        backupObjectKey "p/" "app" (backupTimestamp 253402300799000) := by
  have hread : parseBackupTimestamp strictReader "p/app/2026-06-25T02-00-00Z.sql.gz" = some 1782352800000 := by
    decide +kernel
  refine ⟨by decide +kernel, fun ts hts => ?_, by decide +kernel⟩
  rw [← parseBackupTimestamp_iff strictReader_reads, hread] at hts
  cases hts
  decide

end LaunchPad.Agent
