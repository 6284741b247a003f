/-
  LaunchPad.Agent.CloudwatchLogs — shipping log files (`agent-rust/src/cloudwatch_logs.rs`
  `LogFileTailer`, `DirectCloudWatchLogsSync::sync`; the entries of `logs.rs`). A file is
  read from its stored offset, at most 128 KiB at a time; the read is decoded, cut into
  lines, and its first 1000 lines that are not blank make a batch; an accepted batch moves
  the offset over the whole read.

  A file is the list of the lines appended to it, its bytes their encoding. A run is a list
  of appends, collects and answers to puts. The time that a line's JSON carries
  (`serde_json`, `chrono`) is a parameter.

  As built the offset may pass what was not sent: past the thousandth line of a read the
  rest is dropped, and a read that ends inside a line (or inside a character) sends its two
  halves as two messages.

  Proved:
  - `syncEntries`: the list that `sync` collects from names each file once.
  - `lines_shipped_iff`: the messages accepted are those of the lines before the offset, and
    it splits none, throughout a run, exactly when each accepted batch's read ends with a
    line and holds at most 1000 lines.
  - `Shipping.past_thousand_dropped`, `Shipping.long_line_split`: the two ways it fails.
-/
import LaunchPad.Agent.Docker
import LaunchPad.Lib.SortedMap
import LaunchPad.Lib.Utf8Lines
import LaunchPad.Shared.Registry
import Mathlib.Data.List.DropRight
import Mathlib.Data.List.Nodup
import Mathlib.Logic.Function.Basic

namespace LaunchPad.Agent

open Lib

def directMaxBytesPerFile : Nat := 128 * 1024
def directMaxEventsPerStream : Nat := 1000

/-! ## The list of files -/

structure CwLogFileEntry where
  filePath : String
  logGroupName : String
  logStreamName : String
  timezone : String := "UTC"
  retentionInDays : Int := 7
  deriving DecidableEq, Repr

def containerLogFilePath (containerId : String) : String :=
  "/var/lib/docker/containers/" ++ containerId ++ "/" ++ containerId ++ "-json.log"

def logGroupName (clusterId project service : String) : String :=
  "/launch-pad/" ++ clusterId ++ "/" ++ project ++ "/" ++ service

def logStreamName (nodeId : String) (replicaIndex : Int) : String := nodeId ++ "/" ++ toString replicaIndex

def buildContainerLogCollectList (clusterId nodeId : String) (replicas : List ManagedReplica) : List CwLogFileEntry :=
  (replicas.filter fun r => r.id ≠ "" && r.project ≠ "" && r.service ≠ "").map fun r =>
    { filePath := containerLogFilePath r.id, logGroupName := logGroupName clusterId r.project r.service
      logStreamName := logStreamName nodeId r.index }

inductive SystemComponent where
  | agent
  | caddy
  deriving DecidableEq, Repr

def SystemComponent.asStr : SystemComponent → String
  | .agent => "agent"
  | .caddy => "caddy"

def systemComponentsForRole : NodeRole → List SystemComponent
  | .app => [.agent]
  | _ => [.agent, .caddy]

def systemLogFilePath (component : SystemComponent) : String := "/var/log/launch-pad/" ++ component.asStr ++ ".log"

def buildSystemLogCollectList (clusterId nodeId : String) (role : NodeRole) : List CwLogFileEntry :=
  (systemComponentsForRole role).map fun component =>
    { filePath := systemLogFilePath component, logGroupName := "/launch-pad/" ++ clusterId ++ "/system/" ++ nodeId
      logStreamName := component.asStr }

/-- A list that names each file once. -/
structure CollectList where
  entries : List CwLogFileEntry
  distinct : (entries.map (·.filePath)).Nodup

theorem between_inj {x y z a b : String} (h : x ++ a ++ y ++ a ++ z = x ++ b ++ y ++ b ++ z) : a = b := by
  have hlist := congrArg String.toList h
  simp only [String.toList_append, List.append_assoc, List.append_cancel_left_eq] at hlist
  have hlength := congrArg List.length hlist
  simp only [List.length_append] at hlength
  exact String.toList_inj.mp (List.append_inj hlist (by omega)).1

theorem log_roots_differ (x y : List Char) : "/var/lib/docker/containers/".toList ++ x ≠ "/var/log/launch-pad/".toList ++ y := by
  intro h
  simp at h

theorem containerLogFilePath_not_system (id : String) (component : SystemComponent) :
    containerLogFilePath id ≠ systemLogFilePath component := by
  intro h
  have hlist := congrArg String.toList h
  unfold containerLogFilePath systemLogFilePath at hlist
  repeat rw [String.toList_append] at hlist
  repeat rw [List.append_assoc] at hlist
  exact log_roots_differ _ _ hlist

theorem containerLogFilePath_injective : Function.Injective containerLogFilePath := fun _ _ h => between_inj h

theorem systemLogFilePath_injective : Function.Injective systemLogFilePath := by
  intro a b h
  unfold systemLogFilePath at h
  have hname : a.asStr = b.asStr := by
    have hlist := congrArg String.toList h
    simp only [String.toList_append, List.append_assoc, List.append_cancel_left_eq, List.append_cancel_right_eq] at hlist
    exact String.toList_inj.mp hlist
  cases a <;> cases b <;> first | rfl | exact absurd hname (by decide)

/-- What `sync` collects from: docker gives each container an id of its own. -/
def syncEntries (clusterId nodeId : String) (role : NodeRole) (replicas : List ManagedReplica)
    (h : (replicas.map (·.id)).Nodup) : CollectList where
  entries := buildSystemLogCollectList clusterId nodeId role ++ buildContainerLogCollectList clusterId nodeId replicas
  distinct := by
    have hsystem : (buildSystemLogCollectList clusterId nodeId role).map (·.filePath) =
        (systemComponentsForRole role).map systemLogFilePath := by
      rw [buildSystemLogCollectList, List.map_map]
      rfl
    have hcontainers : ((buildContainerLogCollectList clusterId nodeId replicas).map (·.filePath)).Sublist
        ((replicas.map (·.id)).map containerLogFilePath) := by
      rw [buildContainerLogCollectList, List.map_map, List.map_map]
      exact (List.filter_sublist).map _
    rw [List.map_append, hsystem, List.nodup_append]
    refine ⟨?_, ?_, ?_⟩
    · refine List.Nodup.map systemLogFilePath_injective ?_
      cases role <;> decide
    · exact (h.map containerLogFilePath_injective).sublist hcontainers
    · intro x hx y hy he
      obtain ⟨component, -, rfl⟩ := List.mem_map.mp hx
      obtain ⟨id, -, rfl⟩ := List.mem_map.mp (hcontainers.subset hy)
      exact containerLogFilePath_not_system id component he.symm

/-! ## Tailing -/

structure DirectLogEvent where
  timestampMs : Int
  message : String
  deriving DecidableEq, Repr

structure DirectLogBatch where
  filePath : String
  nextOffset : Nat
  logGroupName : String
  logStreamName : String
  events : List DirectLogEvent
  deriving DecidableEq, Repr

structure LogFileTailer where
  offsets : SortedMap String Nat := []

def isLineEnd (c : Char) : Bool := c == '\r' || c == '\n'

section Tailing

-- the time of a line that is a JSON object, in milliseconds
variable (jsonTime : String → Option Int)

def timestampFromDockerJsonLine (line : String) (fallbackMs : Int) : Int := (jsonTime line).getD fallbackMs

def eventOfLine (nowMs : Int) (line : List Char) : Option DirectLogEvent :=
  let message := line.rdropWhile isLineEnd
  if message.isEmpty then none
  else some ⟨timestampFromDockerJsonLine jsonTime (String.ofList message) nowMs, String.ofList message⟩

def eventsFromLogChunk (chunk : List Char) (nowMs : Int) : List DirectLogEvent :=
  (splitInclusive '\n' chunk).filterMap (eventOfLine jsonTime nowMs)

namespace LogFileTailer

/-- The offset a file is read from. -/
def offset (t : LogFileTailer) (path : String) : Nat := (t.offsets.get path).getD 0

/-- One entry of `collect`; `read` gives a file's bytes, or none where it cannot be read. -/
def collectEntry (t : LogFileTailer) (read : String → Option (List UInt8)) (nowMs : Int) (entry : CwLogFileEntry) :
    Option DirectLogBatch :=
  match read entry.filePath with
  | none => none
  | some file =>
    let currentLen := file.length
    let offset := ((t.offsets.get entry.filePath).filter (· ≤ currentLen)).getD 0
    if offset = currentLen then none
    else
      let bytes := (file.drop offset).take directMaxBytesPerFile
      if bytes.isEmpty then none
      else
        let nextOffset := offset + bytes.length
        let events := eventsFromLogChunk jsonTime (fromUtf8Lossy bytes) nowMs
        if events.isEmpty then none
        else some ⟨entry.filePath, nextOffset, entry.logGroupName, entry.logStreamName, events.take directMaxEventsPerStream⟩

def collect (t : LogFileTailer) (read : String → Option (List UInt8)) (entries : List CwLogFileEntry) (nowMs : Int) :
    List DirectLogBatch :=
  entries.filterMap (t.collectEntry jsonTime read nowMs)

def commit (t : LogFileTailer) (batch : DirectLogBatch) : LogFileTailer :=
  ⟨SortedMap.insert batch.filePath batch.nextOffset t.offsets⟩

end LogFileTailer

end Tailing

/-! ## Files of lines -/

/-- A line, without its terminator. -/
structure LogLine where
  text : List Char
  single : '\n' ∉ text

def LogLine.full (l : LogLine) : List Char := l.text ++ ['\n']

/-- The line as a message: its end is trimmed. -/
def LogLine.message (l : LogLine) : String := String.ofList (l.full.rdropWhile isLineEnd)

/-- The bytes of a file. -/
def contents (lines : List LogLine) : List UInt8 := utf8Encode (lines.flatMap LogLine.full)

def size (lines : List LogLine) : Nat := (contents lines).length

/-- The messages of the lines that are not blank. -/
def messages (lines : List LogLine) : List String := (lines.map LogLine.message).filter (· ≠ "")

/-- The lines that lie before an offset. -/
def linesBefore : List LogLine → Nat → List LogLine
  | [], _ => []
  | l :: lines, offset => if size [l] ≤ offset then l :: linesBefore lines (offset - size [l]) else []

/-- The lines after those. -/
def unread (lines : List LogLine) (offset : Nat) : List LogLine := lines.drop (linesBefore lines offset).length

/-- The read at the offset ends with a line, and fits a batch. -/
structure Shippable (lines : List LogLine) (offset : Nat) : Prop where
  whole : size (linesBefore (unread lines offset) directMaxBytesPerFile) =
    min directMaxBytesPerFile (size (unread lines offset))
  few : (messages (linesBefore (unread lines offset) directMaxBytesPerFile)).length ≤ directMaxEventsPerStream

@[simp] theorem contents_nil : contents [] = [] := rfl

@[simp] theorem messages_nil : messages [] = [] := rfl

@[simp] theorem size_nil : size [] = 0 := rfl

theorem contents_append (a b : List LogLine) : contents (a ++ b) = contents a ++ contents b := by
  unfold contents
  rw [List.flatMap_append, utf8Encode_append]

theorem size_append (a b : List LogLine) : size (a ++ b) = size a + size b := by
  unfold size
  rw [contents_append, List.length_append]

theorem size_cons (l : LogLine) (lines : List LogLine) : size (l :: lines) = size [l] + size lines := size_append [l] lines

theorem messages_append (a b : List LogLine) : messages (a ++ b) = messages a ++ messages b := by
  unfold messages
  rw [List.map_append, List.filter_append]

/-- A line has its terminator at least. -/
theorem size_line_pos (l : LogLine) : 0 < size [l] := by
  have hfull : contents [l] = utf8Encode l.text ++ utf8Encode ['\n'] := by
    rw [contents, List.flatMap_singleton, LogLine.full, utf8Encode_append]
  have hterminator : (utf8Encode ['\n']).length = 1 := by decide
  rw [size, hfull, List.length_append, hterminator]
  omega

theorem linesBefore_zero (lines : List LogLine) : linesBefore lines 0 = [] := by
  cases lines with
  | nil => rfl
  | cons l lines =>
    have := size_line_pos l
    rw [linesBefore, if_neg (by omega)]

theorem linesBefore_append {a : List LogLine} (b : List LogLine) {n : Nat} (h : size a ≤ n) :
    linesBefore (a ++ b) n = a ++ linesBefore b (n - size a) := by
  induction a generalizing n with
  | nil => rfl
  | cons l a ih =>
    rw [size_cons] at h
    rw [List.cons_append, linesBefore, if_pos (by omega), ih (by omega), List.cons_append, size_cons l a, Nat.sub_sub]

theorem linesBefore_within {a : List LogLine} (b : List LogLine) {n : Nat} (h : n < size a) :
    linesBefore (a ++ b) n = linesBefore a n := by
  induction a generalizing n with
  | nil => simp at h
  | cons l a ih =>
    rw [size_cons] at h
    rw [List.cons_append, linesBefore, linesBefore]
    by_cases hl : size [l] ≤ n
    · rw [if_pos hl, if_pos hl, ih (by omega)]
    · rw [if_neg hl, if_neg hl]

/-- A list's own size is after its last line. -/
theorem linesBefore_size (a b : List LogLine) : linesBefore (a ++ b) (size a) = a := by
  rw [linesBefore_append b (Nat.le_refl _), Nat.sub_self, linesBefore_zero, List.append_nil]

theorem linesBefore_all {lines : List LogLine} {n : Nat} (h : size lines ≤ n) : linesBefore lines n = lines := by
  have := linesBefore_append [] h
  rw [List.append_nil] at this
  rw [this]
  cases hn : n - size lines <;> simp [linesBefore]

/-- The lines before an offset are the file's first ones. -/
theorem linesBefore_split (lines : List LogLine) (n : Nat) : ∃ rest, lines = linesBefore lines n ++ rest := by
  induction lines generalizing n with
  | nil => exact ⟨[], rfl⟩
  | cons l lines ih =>
    by_cases h : size [l] ≤ n
    · obtain ⟨rest, hrest⟩ := ih (n - size [l])
      refine ⟨rest, ?_⟩
      rw [linesBefore, if_pos h, List.cons_append, ← hrest]
    · refine ⟨l :: lines, ?_⟩
      rw [linesBefore, if_neg h, List.nil_append]

theorem unread_size (a b : List LogLine) : unread (a ++ b) (size a) = b := by
  rw [unread, linesBefore_size, List.drop_left]

/-! ## One read -/

theorem eventOfLine_message (jsonTime : String → Option Int) (nowMs : Int) (l : LogLine) :
    (eventOfLine jsonTime nowMs l.full).map (·.message) = if l.message = "" then none else some l.message := by
  unfold eventOfLine LogLine.message
  cases l.full.rdropWhile isLineEnd with
  | nil => rfl
  | cons c text =>
    have hne : String.ofList (c :: text) ≠ "" := by
      intro h
      have := congrArg String.toList h
      rw [String.toList_ofList] at this
      cases this
    rw [if_neg hne]
    rfl

/-- The events of whole lines are their messages. -/
theorem events_messages (jsonTime : String → Option Int) (lines : List LogLine) (nowMs : Int) :
    (eventsFromLogChunk jsonTime (fromUtf8Lossy (contents lines)) nowMs).map (·.message) = messages lines := by
  have hpieces : splitInclusive '\n' (lines.flatMap LogLine.full) = lines.map LogLine.full := by
    have hplain : ∀ t ∈ lines.map (·.text), '\n' ∉ t := by
      intro t ht
      obtain ⟨l, -, rfl⟩ := List.mem_map.mp ht
      exact l.single
    have hcut := splitInclusive_flatMap hplain
    rw [List.flatMap_map, List.map_map] at hcut
    exact hcut
  rw [contents, fromUtf8Lossy_encode, eventsFromLogChunk, hpieces, List.filterMap_map, List.map_filterMap]
  clear hpieces
  induction lines with
  | nil => rfl
  | cons l lines ih =>
    rw [messages] at ih ⊢
    rw [List.filterMap_cons, Function.comp_apply, eventOfLine_message, ih, List.map_cons, List.filter_cons]
    by_cases hblank : l.message = ""
    · simp [hblank]
    · simp [hblank]

/-- A read that ends with a line is the bytes of the lines in it. -/
theorem read_whole {rest : List LogLine} {n : Nat} (h : size (linesBefore rest n) = min n (size rest)) :
    (contents rest).take n = contents (linesBefore rest n) := by
  obtain ⟨after, hafter⟩ := linesBefore_split rest n
  have hlength : (contents (linesBefore rest n)).length = min n (contents rest).length := h
  have htake : (contents rest).take n = (contents rest).take (min n (contents rest).length) := by
    rw [← List.take_take, List.take_length]
  have hcontents : contents rest = contents (linesBefore rest n) ++ contents after := by
    rw [← contents_append, ← hafter]
  rw [htake, ← hlength, hcontents, List.take_left]

section Read

variable {jsonTime : String → Option Int} {t : LogFileTailer} {read : String → Option (List UInt8)} {nowMs : Int}
  {entry : CwLogFileEntry} {batch : DirectLogBatch} {a rest : List LogLine}

theorem collectEntry_path (h : t.collectEntry jsonTime read nowMs entry = some batch) : batch.filePath = entry.filePath := by
  unfold LogFileTailer.collectEntry at h
  split at h
  · cases h
  · dsimp only at h
    repeat' split at h
    all_goals cases h
    rfl

/-- What a read from the end of a line brings. -/
theorem collectEntry_spec (hread : read entry.filePath = some (contents (a ++ rest)))
    (hoffset : t.offset entry.filePath = size a) (h : t.collectEntry jsonTime read nowMs entry = some batch) :
    batch.nextOffset = size a + min directMaxBytesPerFile (size rest) ∧
      batch.events = (eventsFromLogChunk jsonTime
        (fromUtf8Lossy ((contents rest).take directMaxBytesPerFile)) nowMs).take directMaxEventsPerStream := by
  have hstored : ((t.offsets.get entry.filePath).filter (· ≤ (contents (a ++ rest)).length)).getD 0 = size a := by
    have hle : size a ≤ (contents (a ++ rest)).length := by
      rw [← size, size_append]
      omega
    unfold LogFileTailer.offset at hoffset
    cases hget : t.offsets.get entry.filePath with
    | none =>
      rw [hget] at hoffset
      exact hoffset
    | some o =>
      rw [hget, Option.getD_some] at hoffset
      rw [hoffset, Option.filter_some, if_pos (by simpa using hle), Option.getD_some]
  have hdrop : (contents (a ++ rest)).drop (size a) = contents rest := by
    rw [contents_append, size, List.drop_left]
  unfold LogFileTailer.collectEntry at h
  rw [hread] at h
  simp only [hstored, hdrop] at h
  repeat' split at h
  all_goals cases h
  refine ⟨?_, rfl⟩
  rw [List.length_take]
  rfl

/-- The first read of a file that holds something to send. -/
theorem collectEntry_first (hread : read entry.filePath = some (contents rest))
    (hsome : eventsFromLogChunk jsonTime (fromUtf8Lossy ((contents rest).take directMaxBytesPerFile)) nowMs ≠ []) :
    LogFileTailer.collectEntry jsonTime {} read nowMs entry =
      some ⟨entry.filePath, min directMaxBytesPerFile (size rest), entry.logGroupName, entry.logStreamName,
        (eventsFromLogChunk jsonTime (fromUtf8Lossy ((contents rest).take directMaxBytesPerFile)) nowMs).take
          directMaxEventsPerStream⟩ := by
  have hne : contents rest ≠ [] := by
    intro h
    rw [h] at hsome
    exact hsome rfl
  have hlength : 0 ≠ (contents rest).length := fun h => hne (List.eq_nil_of_length_eq_zero h.symm)
  have hbytes : ((contents rest).take directMaxBytesPerFile).isEmpty = false := by
    cases hc : contents rest with
    | nil => exact absurd hc hne
    | cons b bytes => rfl
  have hevents := List.isEmpty_eq_false_iff.mpr hsome
  unfold LogFileTailer.collectEntry
  rw [hread]
  simp only [SortedMap.get, Option.filter_none, Option.getD_none, if_neg hlength, List.drop_zero, hbytes, hevents,
    Bool.false_eq_true, if_false, Nat.zero_add, List.length_take]
  rfl

end Read

/-! ## Runs -/

/-- What happens on a node: lines are appended, `sync` collects, a put is answered. -/
inductive Act where
  | append (path : String) (lines : List LogLine)
  | collect (list : CollectList) (readable : String → Bool) (nowMs : Int)
  | accepted
  | refused

structure Shipping where
  files : String → List LogLine := fun _ => []
  tailer : LogFileTailer := {}
  /-- Collected, and not yet put. -/
  queue : List DirectLogBatch := []
  /-- The files as the last `collect` read them. -/
  view : String → List LogLine := fun _ => []
  /-- The batches whose puts were accepted, in order. -/
  committed : List DirectLogBatch := []

namespace Shipping

variable (jsonTime : String → Option Int)

def next (s : Shipping) : Act → Shipping
  | .append path lines => { s with files := Function.update s.files path (s.files path ++ lines) }
  | .collect list readable nowMs =>
    let read := fun path => if readable path then some (contents (s.files path)) else none
    { s with queue := s.tailer.collect jsonTime read list.entries nowMs, view := s.files }
  | .accepted =>
    match s.queue with
    | [] => s
    | batch :: rest =>
      { s with queue := rest, tailer := s.tailer.commit batch, committed := s.committed ++ [batch] }
  | .refused => { s with queue := s.queue.tail }

def run (acts : List Act) : Shipping := acts.foldl (next jsonTime) {}

/-- The messages accepted of a file. -/
def shipped (s : Shipping) (path : String) : List String :=
  (s.committed.filter (·.filePath = path)).flatMap fun batch => batch.events.map (·.message)

/-- What was accepted is what lies before the offset. -/
def Complete (s : Shipping) (path : String) : Prop :=
  s.shipped path = messages (linesBefore (s.files path) (s.tailer.offset path))

/-- The offset splits no line. -/
def AtLine (s : Shipping) (path : String) : Prop :=
  size (linesBefore (s.files path) (s.tailer.offset path)) = s.tailer.offset path

/-- If the next batch is accepted, its read ended with a line and fits. -/
def Fits (s : Shipping) : Act → Prop
  | .accepted => ∀ batch ∈ s.queue.head?, Shippable (s.view batch.filePath) (s.tailer.offset batch.filePath)
  | _ => True

/-- The offset of each file is after a line, up to which all was accepted; what is queued
    was read from there. -/
structure Sound (s : Shipping) : Prop where
  sent : ∀ path, ∃ before rest, s.files path = before ++ rest ∧ s.tailer.offset path = size before ∧
    s.shipped path = messages before
  view : ∀ path, ∃ more, s.files path = s.view path ++ more
  queued : ∀ batch ∈ s.queue, ∃ t entry nowMs read before rest, entry.filePath = batch.filePath ∧
    t.offset entry.filePath = s.tailer.offset entry.filePath ∧ s.view entry.filePath = before ++ rest ∧
    s.tailer.offset entry.filePath = size before ∧ read entry.filePath = some (contents (before ++ rest)) ∧
    LogFileTailer.collectEntry jsonTime t read nowMs entry = some batch
  distinct : (s.queue.map (·.filePath)).Nodup

variable {jsonTime} {s : Shipping} {path : String}

theorem Sound.complete (h : s.Sound jsonTime) (path : String) : s.Complete path ∧ s.AtLine path := by
  obtain ⟨before, rest, hfiles, hoffset, hshipped⟩ := h.sent path
  rw [Complete, AtLine, hfiles, hoffset, linesBefore_size, hshipped]
  exact ⟨rfl, rfl⟩

theorem offset_commit (t : LogFileTailer) (batch : DirectLogBatch) (path : String) :
    (t.commit batch).offset path = if path = batch.filePath then batch.nextOffset else t.offset path := by
  unfold LogFileTailer.commit LogFileTailer.offset
  rw [SortedMap.get_insert]
  by_cases h : path = batch.filePath
  · rw [if_pos h, if_pos h, Option.getD_some]
  · rw [if_neg h, if_neg h]

theorem shipped_snoc {s' : Shipping} {batch : DirectLogBatch} (h : s'.committed = s.committed ++ [batch]) (path : String) :
    s'.shipped path = s.shipped path ++ if batch.filePath = path then batch.events.map (·.message) else [] := by
  unfold shipped
  rw [h, List.filter_append, List.flatMap_append]
  by_cases hp : batch.filePath = path <;> simp [hp]

theorem collect_paths (t : LogFileTailer) (read : String → Option (List UInt8)) (entries : List CwLogFileEntry) (nowMs : Int) :
    ((t.collect jsonTime read entries nowMs).map (·.filePath)).Sublist (entries.map (·.filePath)) := by
  unfold LogFileTailer.collect
  induction entries with
  | nil => exact List.Sublist.slnil
  | cons entry entries ih =>
    rw [List.filterMap_cons, List.map_cons]
    cases h : t.collectEntry jsonTime read nowMs entry with
    | none => exact ih.cons _
    | some batch =>
      rw [List.map_cons, collectEntry_path h]
      exact ih.cons_cons _

theorem sound_start : ({} : Shipping).Sound jsonTime where
  sent _ := ⟨[], [], rfl, rfl, rfl⟩
  view _ := ⟨[], rfl⟩
  queued _ h := absurd h List.not_mem_nil
  distinct := List.nodup_nil

theorem Sound.append (h : s.Sound jsonTime) (path : String) (lines : List LogLine) :
    (s.next jsonTime (.append path lines)).Sound jsonTime := by
  -- every file has its old lines in front
  have hfiles : ∀ p, ∃ more, (s.next jsonTime (.append path lines)).files p = s.files p ++ more := by
    intro p
    by_cases hp : p = path
    · subst hp
      exact ⟨lines, Function.update_self ..⟩
    · exact ⟨[], by rw [next, List.append_nil]; exact Function.update_of_ne hp ..⟩
  constructor
  case sent =>
    intro p
    obtain ⟨before, rest, hp, hoffset, hshipped⟩ := h.sent p
    obtain ⟨more, hmore⟩ := hfiles p
    exact ⟨before, rest ++ more, by rw [hmore, hp, List.append_assoc], hoffset, hshipped⟩
  case view =>
    intro p
    obtain ⟨old, hold⟩ := h.view p
    obtain ⟨more, hmore⟩ := hfiles p
    exact ⟨old ++ more, by rw [hmore, hold, List.append_assoc]; rfl⟩
  case queued => exact h.queued
  case distinct => exact h.distinct

theorem Sound.collect (h : s.Sound jsonTime) (list : CollectList) (readable : String → Bool) (nowMs : Int) :
    (s.next jsonTime (.collect list readable nowMs)).Sound jsonTime := by
  constructor
  case sent => exact h.sent
  case view => exact fun _ => ⟨[], (List.append_nil _).symm⟩
  case queued =>
    intro batch hbatch
    obtain ⟨entry, -, hentry⟩ := List.mem_filterMap.mp hbatch
    have hpath := collectEntry_path hentry
    obtain ⟨before, rest, hp, hoffset, -⟩ := h.sent entry.filePath
    refine ⟨s.tailer, entry, nowMs, _, before, rest, hpath.symm, rfl, hp, hoffset, ?_, hentry⟩
    by_cases hread : readable entry.filePath = true
    · rw [if_pos hread, hp]
    · simp [LogFileTailer.collectEntry, hread] at hentry
  case distinct => exact list.distinct.sublist (collect_paths ..)

theorem Sound.refused (h : s.Sound jsonTime) : (s.next jsonTime .refused).Sound jsonTime where
  sent := h.sent
  view := h.view
  queued batch hb := h.queued batch (List.mem_of_mem_tail hb)
  distinct := by
    show (s.queue.tail.map (·.filePath)).Nodup
    rw [List.map_tail]
    exact h.distinct.sublist (List.tail_sublist _)

/-- What the next batch was read from, in the file as it is now. -/
theorem Sound.head (h : s.Sound jsonTime) {batch : DirectLogBatch} {queue : List DirectLogBatch}
    (hqueue : s.queue = batch :: queue) :
    ∃ before rest more nowMs, s.files batch.filePath = before ++ (rest ++ more) ∧
      s.view batch.filePath = before ++ rest ∧ s.tailer.offset batch.filePath = size before ∧
      s.shipped batch.filePath = messages before ∧
      batch.nextOffset = size before + min directMaxBytesPerFile (size rest) ∧
      batch.events = (eventsFromLogChunk jsonTime
        (fromUtf8Lossy ((contents rest).take directMaxBytesPerFile)) nowMs).take directMaxEventsPerStream := by
  obtain ⟨t, entry, nowMs, read, before, rest, hpath, hsame, hview, hoffset, hread, hentry⟩ :=
    h.queued batch (by rw [hqueue]; exact List.mem_cons_self ..)
  obtain ⟨hnext, hevents⟩ := collectEntry_spec hread (hsame.trans hoffset) hentry
  rw [hpath] at hview hoffset
  obtain ⟨more, hmore⟩ := h.view batch.filePath
  rw [hview, List.append_assoc] at hmore
  obtain ⟨before', rest', hfiles, hoffset', hshipped⟩ := h.sent batch.filePath
  -- both name the lines before the same offset
  have hsplit : before' = before := by
    have hone := linesBefore_size before' rest'
    rw [← hoffset', hoffset, ← hfiles, hmore, linesBefore_size] at hone
    exact hone.symm
  rw [hsplit] at hshipped
  exact ⟨before, rest, more, nowMs, hmore, hview, hoffset, hshipped, hnext, hevents⟩

theorem Sound.accepted (h : s.Sound jsonTime) (hfits : s.Fits .accepted) : (s.next jsonTime .accepted).Sound jsonTime := by
  unfold next
  cases hqueue : s.queue with
  | nil => exact h
  | cons batch queue =>
    obtain ⟨before, rest, more, nowMs, hfiles, hview, hoffset, hshipped, hnext, hevents⟩ := h.head hqueue
    have hship : Shippable (before ++ rest) (size before) := by
      have := hfits batch (by rw [hqueue]; rfl)
      rwa [hview, hoffset] at this
    obtain ⟨hwhole, hfew⟩ := hship
    rw [unread_size] at hwhole hfew
    have hmessages : batch.events.map (·.message) = messages (linesBefore rest directMaxBytesPerFile) := by
      rw [hevents, read_whole hwhole, List.map_take, events_messages, List.take_of_length_le hfew]
    have hdistinct := h.distinct
    rw [hqueue, List.map_cons, List.nodup_cons] at hdistinct
    have hmine := offset_commit s.tailer batch
    constructor
    case sent =>
      intro p
      by_cases hp : p = batch.filePath
      · subst hp
        obtain ⟨after, hafter⟩ := linesBefore_split rest directMaxBytesPerFile
        refine ⟨before ++ linesBefore rest directMaxBytesPerFile, after ++ more, ?_, ?_, ?_⟩
        · calc s.files batch.filePath = before ++ ((linesBefore rest directMaxBytesPerFile ++ after) ++ more) := by
                rw [← hafter]
                exact hfiles
            _ = before ++ linesBefore rest directMaxBytesPerFile ++ (after ++ more) := by
                simp only [List.append_assoc]
        · rw [hmine, if_pos rfl, hnext, size_append, hwhole]
        · rw [shipped_snoc rfl, if_pos rfl, hshipped, hmessages, messages_append]
      · obtain ⟨before', rest', hfiles', hoffset', hshipped'⟩ := h.sent p
        refine ⟨before', rest', hfiles', ?_, ?_⟩
        · rw [hmine, if_neg hp, hoffset']
        · rw [shipped_snoc rfl, if_neg (Ne.symm hp), List.append_nil, hshipped']
    case view => exact h.view
    case queued =>
      intro other hother
      obtain ⟨t', entry', nowMs', read', before', rest', hpath', hsame', hview', hoffset', hread', hentry'⟩ :=
        h.queued other (by rw [hqueue]; exact List.mem_cons_of_mem _ hother)
      have hother : entry'.filePath ≠ batch.filePath := by
        intro he
        exact hdistinct.1 (List.mem_map.mpr ⟨other, hother, hpath'.symm.trans he⟩)
      refine ⟨t', entry', nowMs', read', before', rest', hpath', ?_, hview', ?_, hread', hentry'⟩
      · rw [hmine, if_neg hother, hsame']
      · rw [hmine, if_neg hother, hoffset']
    case distinct => exact hdistinct.2

/-- An accepted batch that leaves the offset after a line, with all before it accepted,
    was read up to a line's end and fits. -/
theorem Sound.fits (h : s.Sound jsonTime) {act : Act}
    (hdone : ∀ path, (s.next jsonTime act).Complete path ∧ (s.next jsonTime act).AtLine path) : s.Fits act := by
  cases act with
  | append path lines => trivial
  | collect list readable nowMs => trivial
  | refused => trivial
  | accepted =>
    intro batch hbatch
    obtain ⟨queue, hqueue⟩ : ∃ queue, s.queue = batch :: queue := List.head?_eq_some_iff.mp hbatch
    obtain ⟨before, rest, more, nowMs, hfiles, hview, hoffset, hshipped, hnext, hevents⟩ := h.head hqueue
    rw [hview, hoffset]
    obtain ⟨hcomplete, hline⟩ := hdone batch.filePath
    simp only [next, hqueue, Complete, AtLine, offset_commit, if_pos, hfiles, hnext] at hcomplete hline
    rw [linesBefore_append _ (by omega), Nat.add_sub_cancel_left] at hcomplete hline
    rw [size_append] at hline
    -- in the file as it was read, the same lines lie within the read
    have hsame : linesBefore (rest ++ more) (min directMaxBytesPerFile (size rest)) =
        linesBefore rest directMaxBytesPerFile := by
      by_cases hshort : size rest ≤ directMaxBytesPerFile
      · rw [Nat.min_eq_right hshort, linesBefore_size, linesBefore_all hshort]
      · rw [Nat.min_eq_left (by omega), linesBefore_within more (by omega)]
    rw [hsame] at hcomplete hline
    have hwhole : size (linesBefore rest directMaxBytesPerFile) = min directMaxBytesPerFile (size rest) := by omega
    have hmessages : batch.events.map (·.message) =
        (messages (linesBefore rest directMaxBytesPerFile)).take directMaxEventsPerStream := by
      rw [hevents, read_whole hwhole, List.map_take, events_messages]
    have hall : messages (linesBefore rest directMaxBytesPerFile) =
        (messages (linesBefore rest directMaxBytesPerFile)).take directMaxEventsPerStream := by
      rw [shipped_snoc rfl, if_pos rfl, hmessages, hshipped, messages_append] at hcomplete
      exact (List.append_cancel_left hcomplete).symm
    constructor
    · rw [unread_size]
      exact hwhole
    · rw [unread_size, hall, List.length_take]
      omega

theorem Sound.next (h : s.Sound jsonTime) {act : Act} (hfits : s.Fits act) : (s.next jsonTime act).Sound jsonTime := by
  cases act with
  | append path lines => exact h.append path lines
  | collect list readable nowMs => exact h.collect list readable nowMs
  | accepted => exact h.accepted hfits
  | refused => exact h.refused

theorem run_snoc (acts : List Act) (act : Act) : run jsonTime (acts ++ [act]) = (run jsonTime acts).next jsonTime act := by
  unfold run
  rw [List.foldl_append]
  rfl

theorem run_sound {acts : List Act}
    (h : ∀ done act rest, acts = done ++ act :: rest → (run jsonTime done).Fits act) : (run jsonTime acts).Sound jsonTime := by
  induction acts using List.reverseRecOn with
  | nil => exact sound_start
  | append_singleton acts act ih =>
    rw [run_snoc]
    refine (ih fun done a rest hsplit => ?_).next (h acts act [] rfl)
    exact h done a (rest ++ [act]) (by rw [hsplit, List.append_assoc, List.cons_append])

/-! ## What is lost -/

/-- A run that appends to a file, collects from it, and sends. -/
def shipOnce (jsonTime : String → Option Int) (entry : CwLogFileEntry) (lines : List LogLine) : Shipping :=
  run jsonTime [.append entry.filePath lines, .collect ⟨[entry], List.pairwise_singleton _ _⟩ (fun _ => true) 0, .accepted]

/-- The first read of a file. -/
theorem shipOnce_read (entry : CwLogFileEntry) {lines : List LogLine}
    (hsome : eventsFromLogChunk jsonTime (fromUtf8Lossy ((contents lines).take directMaxBytesPerFile)) 0 ≠ []) :
    let s := shipOnce jsonTime entry lines
    s.files entry.filePath = lines ∧ s.tailer.offset entry.filePath = min directMaxBytesPerFile (size lines) ∧
      s.shipped entry.filePath = ((eventsFromLogChunk jsonTime
        (fromUtf8Lossy ((contents lines).take directMaxBytesPerFile)) 0).take directMaxEventsPerStream).map (·.message) := by
  have hread : ∀ files : String → List LogLine, files entry.filePath = lines →
      LogFileTailer.collect jsonTime {} (fun path => some (contents (files path))) [entry] 0 =
        [⟨entry.filePath, min directMaxBytesPerFile (size lines), entry.logGroupName, entry.logStreamName,
          (eventsFromLogChunk jsonTime (fromUtf8Lossy ((contents lines).take directMaxBytesPerFile)) 0).take
            directMaxEventsPerStream⟩] := by
    intro files hfiles
    have hfirst : LogFileTailer.collectEntry jsonTime {} (fun path => some (contents (files path))) 0 entry = some _ :=
      collectEntry_first (by rw [hfiles]) hsome
    rw [LogFileTailer.collect, List.filterMap_cons, hfirst]
    rfl
  have hfile : Function.update (fun _ => []) entry.filePath ([] ++ lines) entry.filePath = lines := Function.update_self ..
  simp only [shipOnce, run, List.foldl_cons, List.foldl_nil, next, if_true, hread _ hfile]
  refine ⟨hfile, ?_, ?_⟩
  · rw [offset_commit, if_pos rfl]
  · simp [shipped]

/-- A read of more lines than a batch holds. -/
theorem past_thousand_dropped (entry : CwLogFileEntry) {lines : List LogLine} (hsize : size lines ≤ directMaxBytesPerFile)
    (hmany : directMaxEventsPerStream < (messages lines).length) :
    ¬ (shipOnce jsonTime entry lines).Complete entry.filePath := by
  have htake : (contents lines).take directMaxBytesPerFile = contents lines := List.take_of_length_le hsize
  have hevents := events_messages jsonTime lines 0
  have hsome : eventsFromLogChunk jsonTime (fromUtf8Lossy ((contents lines).take directMaxBytesPerFile)) 0 ≠ [] := by
    intro h
    rw [htake] at h
    rw [h] at hevents
    rw [← hevents] at hmany
    simp at hmany
  obtain ⟨hfile, hoffset, hshipped⟩ := shipOnce_read entry hsome
  rw [Complete, hfile, hoffset, hshipped, htake, List.map_take, hevents, Nat.min_eq_right hsize, linesBefore_all (Nat.le_refl _)]
  intro h
  have hlength := congrArg List.length h
  rw [List.length_take] at hlength
  omega

/-- A line of one-byte characters that is longer than a read: its front is sent as a
    message, and the offset is inside it. -/
theorem long_line_split (entry : CwLogFileEntry) {l : LogLine} (hone : ∀ c ∈ l.text, c.utf8Size = 1) (hplain : '\r' ∉ l.text)
    (hlong : directMaxBytesPerFile ≤ l.text.length) :
    (shipOnce jsonTime entry [l]).shipped entry.filePath = [String.ofList (l.text.take directMaxBytesPerFile)] ∧
      ¬ (shipOnce jsonTime entry [l]).AtLine entry.filePath := by
  have hcontents : contents [l] = utf8Encode (l.text ++ ['\n']) := by
    rw [contents, List.flatMap_singleton, LogLine.full]
  have hfront : (contents [l]).take directMaxBytesPerFile = utf8Encode (l.text.take directMaxBytesPerFile) := by
    rw [hcontents, utf8Encode_take hone hlong]
  have hsize : directMaxBytesPerFile < size [l] := by
    have := length_le_utf8Encode (l.text ++ ['\n'])
    rw [List.length_append, List.length_singleton] at this
    rw [size, hcontents]
    omega
  have hne : l.text.take directMaxBytesPerFile ≠ [] := by
    intro h
    have hlength := congrArg List.length h
    rw [List.length_take, Nat.min_eq_left hlong] at hlength
    cases hlength
  have htrim : (l.text.take directMaxBytesPerFile).rdropWhile isLineEnd = l.text.take directMaxBytesPerFile := by
    rw [List.rdropWhile_eq_self_iff]
    intro hl hend
    have hmem := List.mem_of_mem_take (List.getLast_mem hl)
    simp only [isLineEnd, Bool.or_eq_true, beq_iff_eq] at hend
    rcases hend with hr | hn
    · exact hplain (hr ▸ hmem)
    · exact l.single (hn ▸ hmem)
  have hevents : eventsFromLogChunk jsonTime (fromUtf8Lossy ((contents [l]).take directMaxBytesPerFile)) 0 =
      [⟨timestampFromDockerJsonLine jsonTime (String.ofList (l.text.take directMaxBytesPerFile)) 0,
        String.ofList (l.text.take directMaxBytesPerFile)⟩] := by
    rw [hfront, fromUtf8Lossy_encode, eventsFromLogChunk,
      splitInclusive_open (fun h => l.single (List.mem_of_mem_take h)) hne, List.filterMap_cons, eventOfLine, htrim]
    simp only [List.isEmpty_eq_false_iff.mpr hne, Bool.false_eq_true, if_false, List.filterMap_nil]
  have hsome : eventsFromLogChunk jsonTime (fromUtf8Lossy ((contents [l]).take directMaxBytesPerFile)) 0 ≠ [] := by
    rw [hevents]
    exact List.cons_ne_nil _ _
  obtain ⟨hfile, hoffset, hshipped⟩ := shipOnce_read entry hsome
  constructor
  · rw [hshipped, hevents]
    rfl
  · rw [AtLine, hfile, hoffset, Nat.min_eq_left (by omega), linesBefore, if_neg (by omega)]
    exact Nat.ne_of_lt (by decide)

end Shipping

/-- Whatever is appended, collected and refused, to and from any number of files: in every
    state of a run the messages accepted of each file are those of its lines before its
    offset, and the offset splits no line, exactly when each accepted batch came from a read
    that ends with a line and holds no more lines than a batch does. -/
theorem lines_shipped_iff (jsonTime : String → Option Int) (acts : List Act) :
    (∀ done rest, acts = done ++ rest → ∀ path,
      (Shipping.run jsonTime done).Complete path ∧ (Shipping.run jsonTime done).AtLine path) ↔
      ∀ done act rest, acts = done ++ act :: rest → (Shipping.run jsonTime done).Fits act := by
  constructor
  · intro h
    induction acts using List.reverseRecOn with
    | nil =>
      intro done act rest hsplit
      simp at hsplit
    | append_singleton acts last ih =>
      have hbefore := ih fun done rest hsplit => h done (rest ++ [last]) (by rw [hsplit, List.append_assoc])
      intro done act rest hsplit
      rcases List.eq_nil_or_concat rest with rfl | ⟨rest, x, rfl⟩
      · obtain ⟨rfl, hlast⟩ := List.append_inj' hsplit rfl
        obtain rfl := List.singleton_inj.mp hlast
        refine (Shipping.run_sound hbefore).fits ?_
        rw [← Shipping.run_snoc]
        exact h _ [] (List.append_nil _).symm
      · rw [List.concat_eq_append, ← List.cons_append, ← List.append_assoc] at hsplit
        exact hbefore done act rest (List.append_inj' hsplit rfl).1
  · intro h done rest hsplit path
    refine (Shipping.run_sound fun d a r hd => ?_).complete path
    exact h d a (r ++ rest) (by rw [hsplit, hd, List.append_assoc, List.cons_append])

theorem size_replicate (n : Nat) (l : LogLine) : size (List.replicate n l) = n * size [l] := by
  induction n with
  | zero => rw [Nat.zero_mul]; rfl
  | succ n ih => rw [List.replicate_succ, size_cons, ih, Nat.succ_mul, Nat.add_comm]

theorem messages_replicate (n : Nat) {l : LogLine} (h : l.message ≠ "") :
    messages (List.replicate n l) = List.replicate n l.message := by
  rw [messages, List.map_replicate, List.filter_replicate, if_pos (by simpa using h)]

def shortLine : LogLine := ⟨['a'], by decide⟩

def appLog : CwLogFileEntry where
  filePath := containerLogFilePath "c1"
  logGroupName := logGroupName "default" "shop" "web"
  logStreamName := logStreamName "n1" 0

/-- 1001 lines of one character, in one read: one of them is never sent. -/
theorem thousand_and_first_dropped :
    ¬ (Shipping.shipOnce (fun _ => none) appLog (List.replicate 1001 shortLine)).Complete appLog.filePath := by
  have hsize : size [shortLine] = 2 := by decide +kernel
  have hmessage : shortLine.message ≠ "" := by decide +kernel
  apply Shipping.past_thousand_dropped
  · rw [size_replicate, hsize]
    decide
  · rw [messages_replicate _ hmessage, List.length_replicate]
    decide

end LaunchPad.Agent
