/-
  LaunchPad.Agent.LogBatches — the order of a batch's events, and whether tailing goes on
  (`agent-rust/src/cloudwatch_logs.rs`), over any bytes and any state of the tailer.

  A round is a `collect` whose batches are all accepted and committed; the clock of each is
  arbitrary. A line is stamped with the time its JSON carries or with the clock of the
  collect, and the events are sent in the order of the lines.

  As built nothing sorts the events, and a read that makes no event is skipped without a
  commit: over 128 KiB of blank lines, or fewer at the end of a file, the same bytes are read
  again in every round.

  Proved:
  - `chunk_blank_iff`: a read makes no event exactly when it has no byte but CR and LF.
  - `position_round`: where a file is read from after a round.
  - `batches_advance_iff`: every batch is in order and every file with an unread line moves on
    exactly when every read has its lines' times in order and, where a line is unread, a byte
    that is neither CR nor LF.
-/
import LaunchPad.Agent.CloudwatchLogs

namespace LaunchPad.Agent

open Lib

namespace LogFileTailer

/-- Where a file of that length is read from: its offset, or the start when it shrank. -/
def position (t : LogFileTailer) (len : Nat) (path : String) : Nat := ((t.offsets.get path).filter (· ≤ len)).getD 0

/-- What a `collect` reads of a file. -/
def chunk (t : LogFileTailer) (path : String) (file : List UInt8) : List UInt8 :=
  (file.drop (t.position file.length path)).take directMaxBytesPerFile

/-- The batch of a file's read. -/
def batchOf (t : LogFileTailer) (jsonTime : String → Option Int) (nowMs : Int) (entry : CwLogFileEntry)
    (file : List UInt8) : DirectLogBatch where
  filePath := entry.filePath
  nextOffset := t.position file.length entry.filePath + (t.chunk entry.filePath file).length
  logGroupName := entry.logGroupName
  logStreamName := entry.logStreamName
  events := (eventsFromLogChunk jsonTime (fromUtf8Lossy (t.chunk entry.filePath file)) nowMs).take directMaxEventsPerStream

section Rounds

variable (jsonTime : String → Option Int) (read : String → Option (List UInt8)) (entries : List CwLogFileEntry)

/-- A collect whose batches are all accepted. -/
def round (t : LogFileTailer) (nowMs : Int) : LogFileTailer :=
  (t.collect jsonTime read entries nowMs).foldl LogFileTailer.commit t

def rounds (t : LogFileTailer) (now : Nat → Int) : Nat → LogFileTailer
  | 0 => t
  | n + 1 => round jsonTime read entries (rounds t now n) (now n)

end Rounds

end LogFileTailer

/-! ## What a read must be like -/

/-- The messages of a read, at most as many as a batch holds. -/
def batchMessages (chunk : List UInt8) : List String :=
  (((splitInclusive '\n' (fromUtf8Lossy chunk)).map fun line => line.rdropWhile isLineEnd).filter (!·.isEmpty)).map String.ofList
    |>.take directMaxEventsPerStream

/-- Of two lines, the first is not stamped later: one without a time is stamped now. -/
def TimesInOrder (nowMs : Int) : Option Int → Option Int → Prop
  | some a, some b => a ≤ b
  | some a, none => a ≤ nowMs
  | none, some b => nowMs ≤ b
  | none, none => True

/-- The times that a read's lines carry are in order. -/
def OrderlyRead (jsonTime : String → Option Int) (nowMs : Int) (chunk : List UInt8) : Prop :=
  ((batchMessages chunk).map jsonTime).Pairwise (TimesInOrder nowMs)

/-- Some byte is neither CR nor LF. -/
def HasText (chunk : List UInt8) : Prop := ∃ b ∈ chunk, b ≠ 13 ∧ b ≠ 10

instance (chunk : List UInt8) : Decidable (HasText chunk) := inferInstanceAs (Decidable (∃ b ∈ chunk, b ≠ 13 ∧ b ≠ 10))

/-- Unread bytes of the file contain a complete line. -/
def LineUnread (t : LogFileTailer) (path : String) (file : List UInt8) : Prop := 10 ∈ file.drop (t.position file.length path)

/-- As PutLogEvents requires. -/
def Nondecreasing (events : List DirectLogEvent) : Prop := events.Pairwise fun a b => a.timestampMs ≤ b.timestampMs

/-! ## Events of a read -/

section Events

variable {jsonTime : String → Option Int} {nowMs : Int} {chunk : List UInt8}

theorem events_eq (jsonTime : String → Option Int) (text : List Char) (nowMs : Int) :
    eventsFromLogChunk jsonTime text nowMs =
      ((((splitInclusive '\n' text).map fun line => line.rdropWhile isLineEnd).filter (!·.isEmpty)).map String.ofList).map
        fun m => ⟨(jsonTime m).getD nowMs, m⟩ := by
  unfold eventsFromLogChunk
  induction splitInclusive '\n' text with
  | nil => rfl
  | cons line lines ih =>
    rw [List.filterMap_cons, List.map_cons, List.filter_cons, ih]
    unfold eventOfLine timestampFromDockerJsonLine
    cases hblank : (line.rdropWhile isLineEnd).isEmpty with
    | true => simp [hblank]
    | false => simp [hblank]

/-- The events of a batch are the messages, each with its time or the clock's. -/
theorem batch_events (jsonTime : String → Option Int) (chunk : List UInt8) (nowMs : Int) :
    (eventsFromLogChunk jsonTime (fromUtf8Lossy chunk) nowMs).take directMaxEventsPerStream =
      (batchMessages chunk).map fun m => ⟨(jsonTime m).getD nowMs, m⟩ := by
  rw [events_eq, ← List.map_take]
  rfl

theorem timesInOrder_iff {a b : Option Int} : TimesInOrder nowMs a b ↔ a.getD nowMs ≤ b.getD nowMs := by
  cases a with
  | none =>
    cases b with
    | none => simp [TimesInOrder]
    | some b => simp [TimesInOrder]
  | some a =>
    cases b with
    | none => simp [TimesInOrder]
    | some b => simp [TimesInOrder]

theorem nondecreasing_iff : Nondecreasing ((eventsFromLogChunk jsonTime (fromUtf8Lossy chunk) nowMs).take directMaxEventsPerStream) ↔
    OrderlyRead jsonTime nowMs chunk := by
  unfold Nondecreasing OrderlyRead
  rw [batch_events, List.pairwise_map, List.pairwise_map]
  refine List.Pairwise.iff ?_
  intro a b
  exact timesInOrder_iff.symm

theorem lineEnds_encode {text : List Char} (h : ∀ c ∈ text, isLineEnd c = true) : ∀ b ∈ utf8Encode text, b = 13 ∨ b = 10 := by
  intro b hb
  obtain ⟨c, hc, hbc⟩ := List.mem_flatMap.mp hb
  have hend := h c hc
  simp only [isLineEnd, Bool.or_eq_true, beq_iff_eq] at hend
  rcases hend with rfl | rfl
  · exact .inl (List.mem_singleton.mp hbc)
  · exact .inr (List.mem_singleton.mp hbc)

/-- CR and LF decode to themselves. -/
theorem lineEnds_decode {bytes : List UInt8} (h : ∀ b ∈ bytes, b = 13 ∨ b = 10) : ∀ c ∈ fromUtf8Lossy bytes, isLineEnd c = true := by
  have htext : bytes = utf8Encode (bytes.map fun b => if b = 13 then '\r' else '\n') := by
    induction bytes with
    | nil => rfl
    | cons b bytes ih =>
      rw [List.map_cons, utf8Encode_cons, ← ih fun x hx => h x (List.mem_cons_of_mem _ hx)]
      rcases h b (List.mem_cons_self ..) with rfl | rfl
      · rfl
      · rfl
  intro c hc
  rw [htext, fromUtf8Lossy_encode] at hc
  obtain ⟨b, _, rfl⟩ := List.mem_map.mp hc
  by_cases hb : b = 13
  · rw [if_pos hb]
    rfl
  · rw [if_neg hb]
    rfl

/-- A read makes no event when it has no byte but CR and LF. -/
theorem chunk_blank_iff : eventsFromLogChunk jsonTime (fromUtf8Lossy chunk) nowMs = [] ↔ ¬ HasText chunk := by
  rw [events_eq, List.map_eq_nil_iff, List.map_eq_nil_iff, List.filter_eq_nil_iff, List.forall_mem_map]
  have hpieces : (∀ line ∈ splitInclusive '\n' (fromUtf8Lossy chunk), ¬ (!(line.rdropWhile isLineEnd).isEmpty) = true) ↔
      ∀ c ∈ fromUtf8Lossy chunk, isLineEnd c = true := by
    constructor
    · intro h c hc
      rw [← flatten_splitInclusive '\n' (fromUtf8Lossy chunk)] at hc
      obtain ⟨line, hline, hcl⟩ := List.mem_flatten.mp hc
      have hnil : line.rdropWhile isLineEnd = [] := by simpa using h line hline
      exact List.rdropWhile_eq_nil_iff.mp hnil c hcl
    · intro h line hline
      have hnil : line.rdropWhile isLineEnd = [] := List.rdropWhile_eq_nil_iff.mpr fun c hc =>
        h c (by rw [← flatten_splitInclusive '\n' (fromUtf8Lossy chunk)]; exact List.mem_flatten.mpr ⟨line, hline, hc⟩)
      simp [hnil]
  rw [hpieces]
  unfold HasText
  constructor
  · intro h ⟨b, hb, hcr, hlf⟩
    have hplain : '\uFFFD' ∉ fromUtf8Lossy chunk := fun hmem => absurd (h _ hmem) (by decide)
    rw [← encode_fromUtf8Lossy hplain] at hb
    rcases lineEnds_encode h b hb with rfl | rfl
    · exact hcr rfl
    · exact hlf rfl
  · intro h
    refine lineEnds_decode fun b hb => ?_
    by_contra hnot
    push Not at hnot
    exact h ⟨b, hb, hnot⟩

end Events

/-! ## One round -/

section Round

variable {jsonTime : String → Option Int} {read : String → Option (List UInt8)} {entries : List CwLogFileEntry}
  {t : LogFileTailer} {nowMs : Int} {path : String} {file : List UInt8}

theorem position_le (t : LogFileTailer) (len : Nat) (path : String) : t.position len path ≤ len := by
  unfold LogFileTailer.position
  cases h : (t.offsets.get path).filter (· ≤ len) with
  | none => exact Nat.zero_le _
  | some o =>
    have hle := (Option.filter_eq_some_iff.mp h).2
    simpa using hle

/-- What `collect` makes of one readable file. -/
theorem collectEntry_read {entry : CwLogFileEntry} (hread : read entry.filePath = some file) :
    t.collectEntry jsonTime read nowMs entry =
      if HasText (t.chunk entry.filePath file) then some (t.batchOf jsonTime nowMs entry file) else none := by
  have hempty : t.chunk entry.filePath file = [] → ¬ HasText (t.chunk entry.filePath file) := by
    intro h ⟨b, hb, _⟩
    rw [h] at hb
    cases hb
  unfold LogFileTailer.collectEntry
  rw [hread]
  show (if t.position file.length entry.filePath = file.length then none
    else if (t.chunk entry.filePath file).isEmpty then none
    else if (eventsFromLogChunk jsonTime (fromUtf8Lossy (t.chunk entry.filePath file)) nowMs).isEmpty then none
    else some (t.batchOf jsonTime nowMs entry file)) = _
  by_cases hend : t.position file.length entry.filePath = file.length
  · have hchunk : t.chunk entry.filePath file = [] := by
      rw [LogFileTailer.chunk, hend, List.drop_length, List.take_nil]
    rw [if_pos hend, if_neg (hempty hchunk)]
  · rw [if_neg hend]
    by_cases hnil : t.chunk entry.filePath file = []
    · rw [if_pos (by rw [hnil]; rfl), if_neg (hempty hnil)]
    · rw [if_neg (by rwa [List.isEmpty_iff])]
      by_cases htext : HasText (t.chunk entry.filePath file)
      · have hevents : eventsFromLogChunk jsonTime (fromUtf8Lossy (t.chunk entry.filePath file)) nowMs ≠ [] :=
          fun h => chunk_blank_iff.mp h htext
        rw [if_pos htext, if_neg (by rwa [List.isEmpty_iff])]
      · have hevents : eventsFromLogChunk jsonTime (fromUtf8Lossy (t.chunk entry.filePath file)) nowMs = [] :=
          chunk_blank_iff.mpr htext
        rw [if_neg htext, if_pos (by rwa [List.isEmpty_iff])]

/-- The offset of a path after committing batches that all end it in one place. -/
theorem commitAll_get {batches : List DirectLogBatch} {o : Nat} (h : ∀ b ∈ batches, b.filePath = path → b.nextOffset = o)
    (t : LogFileTailer) : (batches.foldl LogFileTailer.commit t).offsets.get path =
      if ∃ b ∈ batches, b.filePath = path then some o else t.offsets.get path := by
  induction batches generalizing t with
  | nil => simp
  | cons b batches ih =>
    rw [List.foldl_cons, ih (fun x hx => h x (List.mem_cons_of_mem _ hx))]
    have hget : (t.commit b).offsets.get path = if path = b.filePath then some b.nextOffset else t.offsets.get path :=
      SortedMap.get_insert ..
    by_cases hlater : ∃ x ∈ batches, x.filePath = path
    · obtain ⟨x, hx, hxp⟩ := hlater
      rw [if_pos ⟨x, hx, hxp⟩, if_pos ⟨x, List.mem_cons_of_mem _ hx, hxp⟩]
    · rw [if_neg hlater, hget]
      by_cases hb : b.filePath = path
      · rw [if_pos hb.symm, if_pos ⟨b, List.mem_cons_self .., hb⟩, h b (List.mem_cons_self ..) hb]
      · rw [if_neg fun e => hb e.symm, if_neg]
        intro ⟨x, hx, hxp⟩
        rcases List.mem_cons.mp hx with rfl | hx
        · exact hb hxp
        · exact hlater ⟨x, hx, hxp⟩

/-- Where a listed file is read from after a round. -/
theorem position_round (hread : read path = some file) (hlisted : ∃ entry ∈ entries, entry.filePath = path) :
    (t.round jsonTime read entries nowMs).position file.length path =
      if HasText (t.chunk path file) then t.position file.length path + (t.chunk path file).length
      else t.position file.length path := by
  have hbatches : ∀ b ∈ t.collect jsonTime read entries nowMs, b.filePath = path →
      HasText (t.chunk path file) ∧ b.nextOffset = t.position file.length path + (t.chunk path file).length := by
    intro b hb hpath
    obtain ⟨entry, _, hentry⟩ := List.mem_filterMap.mp hb
    have hsame := collectEntry_path hentry
    rw [hpath] at hsame
    subst hsame
    rw [collectEntry_read hread] at hentry
    split at hentry
    · rename_i htext
      cases hentry
      exact ⟨htext, rfl⟩
    · cases hentry
  have hget := commitAll_get (fun b hb hp => (hbatches b hb hp).2) t
  have hle : t.position file.length path + (t.chunk path file).length ≤ file.length := by
    have hpos := position_le t file.length path
    unfold LogFileTailer.chunk
    rw [List.length_take, List.length_drop]
    omega
  show (((t.collect jsonTime read entries nowMs).foldl LogFileTailer.commit t).offsets.get path |>.filter (· ≤ file.length)).getD 0 = _
  rw [hget]
  by_cases htext : HasText (t.chunk path file)
  · obtain ⟨entry, hentry, rfl⟩ := hlisted
    have hcollected : t.collectEntry jsonTime read nowMs entry = some (t.batchOf jsonTime nowMs entry file) := by
      rw [collectEntry_read hread, if_pos htext]
    have hsome : ∃ b ∈ t.collect jsonTime read entries nowMs, b.filePath = entry.filePath :=
      ⟨_, List.mem_filterMap.mpr ⟨entry, hentry, hcollected⟩, rfl⟩
    rw [if_pos hsome, if_pos htext, Option.filter_some, if_pos (by simpa using hle), Option.getD_some]
  · rw [if_neg fun ⟨b, hb, hp⟩ => htext (hbatches b hb hp).1, if_neg htext]
    rfl

end Round

/-! ## Rounds -/

section Rounds

variable {jsonTime : String → Option Int} {read : String → Option (List UInt8)} {entries : List CwLogFileEntry}
  {t : LogFileTailer} {now : Nat → Int} {path : String} {file : List UInt8}

/-- A read without text is made again in every round. -/
theorem position_stuck (hread : read path = some file) (hlisted : ∃ entry ∈ entries, entry.filePath = path)
    (hblank : ¬ HasText (t.chunk path file)) (n : Nat) :
    (t.rounds jsonTime read entries now n).position file.length path = t.position file.length path := by
  induction n with
  | zero => rfl
  | succ n ih =>
    have hchunk : (t.rounds jsonTime read entries now n).chunk path file = t.chunk path file := by
      rw [LogFileTailer.chunk, ih]
      rfl
    show ((t.rounds jsonTime read entries now n).round jsonTime read entries (now n)).position file.length path = _
    rw [position_round hread hlisted, hchunk, if_neg hblank, ih]

/-- A listed file moves on exactly when its read has text. -/
theorem advances_iff (hread : read path = some file) (hlisted : ∃ entry ∈ entries, entry.filePath = path) :
    (∃ n, t.position file.length path < (t.rounds jsonTime read entries now n).position file.length path) ↔
      HasText (t.chunk path file) := by
  constructor
  · intro ⟨n, hn⟩
    by_contra hblank
    rw [position_stuck hread hlisted hblank] at hn
    exact Nat.lt_irrefl _ hn
  · intro htext
    refine ⟨1, ?_⟩
    have hpos : 0 < (t.chunk path file).length := by
      obtain ⟨b, hb, _⟩ := htext
      exact List.length_pos_of_mem hb
    show _ < (t.round jsonTime read entries (now 0)).position file.length path
    rw [position_round hread hlisted, if_pos htext]
    omega

/-- Every batch of a collect is in order, and every listed file with an unread line moves on,
    exactly when each read has its lines' times in order and, where a line is unread, text. -/
theorem batches_advance_iff (jsonTime : String → Option Int) (read : String → Option (List UInt8)) (entries : List CwLogFileEntry)
    (t : LogFileTailer) (now : Nat → Int) :
    ((∀ batch ∈ t.collect jsonTime read entries (now 0), Nondecreasing batch.events) ∧
      ∀ entry ∈ entries, ∀ file, read entry.filePath = some file → LineUnread t entry.filePath file →
        ∃ n, t.position file.length entry.filePath < (t.rounds jsonTime read entries now n).position file.length entry.filePath) ↔
    ∀ entry ∈ entries, ∀ file, read entry.filePath = some file →
      (HasText (t.chunk entry.filePath file) → OrderlyRead jsonTime (now 0) (t.chunk entry.filePath file)) ∧
        (LineUnread t entry.filePath file → HasText (t.chunk entry.filePath file)) := by
  constructor
  · intro ⟨horder, hadvance⟩ entry hentry file hread
    refine ⟨fun htext => ?_, fun hline => (advances_iff hread ⟨entry, hentry, rfl⟩).mp (hadvance entry hentry file hread hline)⟩
    have hcollected : t.collectEntry jsonTime read (now 0) entry = some (t.batchOf jsonTime (now 0) entry file) := by
      rw [collectEntry_read hread, if_pos htext]
    exact nondecreasing_iff.mp (horder _ (List.mem_filterMap.mpr ⟨entry, hentry, hcollected⟩))
  · intro h
    refine ⟨fun batch hbatch => ?_, fun entry hentry file hread hline => ?_⟩
    · obtain ⟨entry, hentry, hcollect⟩ := List.mem_filterMap.mp hbatch
      cases hread : read entry.filePath with
      | none =>
        unfold LogFileTailer.collectEntry at hcollect
        rw [hread] at hcollect
        cases hcollect
      | some file =>
        rw [collectEntry_read hread] at hcollect
        split at hcollect
        · rename_i htext
          cases hcollect
          exact nondecreasing_iff.mpr ((h entry hentry file hread).1 htext)
        · cases hcollect
    · exact (advances_iff hread ⟨entry, hentry, rfl⟩).mpr ((h entry hentry file hread).2 hline)

/-- The agent's log, one blank line long. -/
def blankLog (path : String) : Option (List UInt8) := if path = systemLogFilePath .agent then some [10] else none

/-- As built a blank line at the end of a file is read in every round and never passed. -/
theorem blank_line_stays : LineUnread ⟨[]⟩ (systemLogFilePath .agent) [10] ∧
    ¬ ∃ n, 0 < ((⟨[]⟩ : LogFileTailer).rounds (fun _ => none) blankLog (buildSystemLogCollectList "c" "n" .app) (fun _ => 0) n).position
      1 (systemLogFilePath .agent) := by
  constructor
  · show 10 ∈ ([10] : List UInt8)
    decide
  · intro ⟨n, hn⟩
    have hread : blankLog (systemLogFilePath .agent) = some [10] := if_pos rfl
    have hlisted : ∃ entry ∈ buildSystemLogCollectList "c" "n" .app, entry.filePath = systemLogFilePath .agent :=
      ⟨_, List.mem_cons_self .., rfl⟩
    have hblank : ¬ HasText ((⟨[]⟩ : LogFileTailer).chunk (systemLogFilePath .agent) [10]) := by decide
    have hstuck : ((⟨[]⟩ : LogFileTailer).rounds (fun _ => none) blankLog (buildSystemLogCollectList "c" "n" .app) (fun _ => 0)
        n).position 1 (systemLogFilePath .agent) = 0 := position_stuck hread hlisted hblank n
    rw [hstuck] at hn
    exact Nat.lt_irrefl 0 hn

end Rounds

end LaunchPad.Agent
