/-
  LaunchPad.Cli.ProjectIndex — the component index of a project as its clients write it
  (`project/registry.ts`): a deploy that enters its component, a destroy that takes it out.
  Each reads the index, works out a new one, and writes it, or deletes it with its last
  entry, on the condition that nothing was written since; five times at most.

  `Cli.Components` runs the same commands one after the other.

  Proved:
  - `index_sat`: a client writes at most once, what it works out from the very index it
    replaces, and nothing unless it says so.
  - `index_conflict_free`: any number of clients, in any interleaving, from indexes that can
    be read: each write changes the entries of its own component only. An upsert twice is an
    upsert once, an upsert and a removal give back the entries there were, and a service
    that one component claims of another is claimed the other way too.
-/
import LaunchPad.Cli.Components
import LaunchPad.Cli.S3State
import LaunchPad.Lib.SortBy

namespace LaunchPad.Cli.ProjectIndexes

open Lib Components

/-- `MAX_INDEX_RETRIES`. -/
def maxIndexRetries : Nat := 5

abbrev IndexRaw := Raw ProjectIndex
abbrev IndexOp := S3Op String IndexRaw
abbrev IndexBucket (ι : Type) := Bucketed ι String IndexRaw
abbrev IndexResp : IndexOp → Type := S3Resp

/-- How a call returns; all but the first with nothing written. -/
inductive IndexOutcome where
  | written
  | absent
  /-- Left for the next deploy to rewrite. -/
  | unreadable
  /-- Out of attempts: a warning. -/
  | gaveUp
  deriving DecidableEq, Repr

abbrev IndexClient := Prog IndexResp (Except S3Error IndexOutcome)

abbrev IndexClients (ι : Type) := Crew ι IndexResp (Except S3Error IndexOutcome) (IndexBucket ι)

/-! ## The two loops -/

/-- After a conditional request: again when it lost, else as it went. -/
def settled (retry : IndexClient) : Except S3Error Unit → IndexClient
  | .ok () => .ret (.ok .written)
  | .error .preconditionFailed => retry
  | .error e => .ret (.error e)

/-- The body replaced on the condition that it is still what was read, or removed. -/
def replaceJson (project : String) (existing : Option (S3Json IndexRaw)) (next : Option ProjectIndex) (retry : IndexClient) :
    IndexClient :=
  match next with
  | some index => do
    let r ← Prog.cmd (S3Op.putJson project (.json index) (putOptions existing))
    settled retry (r.map fun _ => ())
  | none => do
    let r ← Prog.cmd (S3Op.deleteObject project (existing.map (·.etag)))
    settled retry r

/-- `upsertProjectIndex`; an index that cannot be read is rebuilt. -/
def upsertProjectIndex (input : UpsertComponentInput) : Nat → IndexClient
  | 0 => .ret (.ok .gaveUp)
  | n + 1 => do
    match ← Prog.cmd (S3Op.getJson input.project) with
    | .error e => .ret (.error e)
    | .ok existing =>
      replaceJson input.project existing (some (upsertComponentEntry (existing.bind fun o => parseProjectIndex o.raw) input))
        (upsertProjectIndex input n)

/-- `removeFromProjectIndex`, at the times its clock shows. -/
def removeFromProjectIndex (project : String) (component : Option String) (clock : Nat → Components.Timestamp) : Nat → IndexClient
  | 0 => .ret (.ok .gaveUp)
  | n + 1 => do
    match ← Prog.cmd (S3Op.getJson project) with
    | .error e => .ret (.error e)
    | .ok none => .ret (.ok .absent)
    | .ok (some o) =>
      match parseProjectIndex o.raw with
      | none => .ret (.ok .unreadable)
      | some index =>
        replaceJson project (some o) (removeComponentEntry index component (clock n).iso)
          (removeFromProjectIndex project component clock n)

/-- What a client is asked to do: a deploy's upsert or a destroy's removal. -/
inductive Operation where
  | upsert (t : Target) (now : Components.Timestamp)
  | remove (t : Target) (clock : Nat → Components.Timestamp)

namespace Operation

def target : Operation → Target
  | upsert t _ => t
  | remove t _ => t

def project (op : Operation) : String := op.target.config.project

/-- The name its component is entered under. -/
def name (op : Operation) : String := registryComponentName op.target.config.component

def client : Operation → IndexClient
  | upsert t now => upsertProjectIndex (t.input now) maxIndexRetries
  | remove t clock => removeFromProjectIndex t.config.project t.config.component clock maxIndexRetries

/-- The entries its component has afterwards. -/
def ownEntries : Operation → List ProjectComponentEntry
  | upsert t now =>
    [⟨registryComponentName t.config.component, componentOwner t.config.project t.config.component,
      t.config.services.dedup.insertionSort (· ≤ ·), now.iso⟩]
  | remove _ _ => []

/-- The body it makes of one that it read. -/
def Rewrites : Operation → Option IndexRaw → Option IndexRaw → Prop
  | upsert t now, existing, next => next = some (.json (upsertComponentEntry (existing.bind parseProjectIndex) (t.input now)))
  | remove t _, existing, next => ∃ raw index now, existing = some raw ∧ parseProjectIndex raw = some index ∧
      next = (removeComponentEntry index t.config.component (Components.Timestamp.iso now)).map .json

end Operation

/-! ## One client amid any others -/

section Client

variable {ι : Type} [DecidableEq ι] {E : Etags} {G : ι → IndexOp → IndexBucket ι → Prop} {i : ι} {op : Operation}

/-- The body is what the operation makes of the one it replaces. -/
def Replaces (op : Operation) (j : IndexBucket ι) (next : Option IndexRaw) : Prop :=
  ∃ existing, (Journal.current op.project j).map (·.2) = existing.map Body.parsed ∧ op.Rewrites existing next

/-- Its only write is its first, on its index, and goes through only on what it was made of. -/
def IndexAllowed (E : Etags) (i : ι) (op : Operation) : IndexOp → IndexBucket ι → Prop
  | .putJson key value options, j => key = op.project ∧ Silent i j ∧
      (admits E options.ifMatch options.ifNoneMatch key j = .ok () → Replaces op j (some value))
  | .deleteObject key ifMatch, j => key = op.project ∧ Silent i j ∧
      (admits E ifMatch none key j = .ok () → Replaces op j none)
  | _, _ => True

/-- It wrote if it says so, and else nothing. -/
def IndexEnds (i : ι) (r : Except S3Error IndexOutcome) (j : IndexBucket ι) : Prop :=
  if r = .ok .written then ∃ w ∈ j, w.writer = some i else Silent i j

theorem silent_stable : (amidst (s3Sem E) G i).Stable fun j : IndexBucket ι => Silent i j :=
  amidst_stable fun _ _ hw h => h.cons hw

theorem wrote_stable : (amidst (s3Sem E) G i).Stable fun j : IndexBucket ι => ∃ w ∈ j, w.writer = some i :=
  amidst_stable fun _ _ _ h => h.imp fun _ hw => ⟨List.mem_cons_of_mem _ hw.1, hw.2⟩

theorem quiet_sat {r : Except S3Error IndexOutcome} (hr : r ≠ .ok .written) {j : IndexBucket ι} (h : Silent i j) :
    Sat (amidst (s3Sem E) G i) (IndexAllowed E i op) (IndexEnds i) (.ret r) j :=
  Sat.ret silent_stable h fun j h => by rwa [IndexEnds, if_neg hr]

/-- The conditional request, from what was read of it. -/
theorem replaceJson_sat {existing : Option (S3Json IndexRaw)} {next : Option ProjectIndex} {retry : IndexClient}
    (hexisting : next = none → existing ≠ none)
    (hrewrites : op.Rewrites (existing.map (·.raw)) (next.map .json))
    (hretry : ∀ j, Silent i j → Sat (amidst (s3Sem E) G i) (IndexAllowed E i op) (IndexEnds i) retry j)
    {j : IndexBucket ι} (h : Silent i j ∧ Held E op.project existing j) :
    Sat (amidst (s3Sem E) G i) (IndexAllowed E i op) (IndexEnds i) (replaceJson op.project existing next retry) j := by
  have hstable : (amidst (s3Sem E) G i).Stable fun j => Silent i j ∧ Held E op.project existing j :=
    amidst_stable fun _ w hw h => ⟨h.1.cons hw, h.2.grows [w]⟩
  have hreplaces : ∀ {j : IndexBucket ι}, Held E op.project existing j →
      admits E (putOptions existing).ifMatch (putOptions existing).ifNoneMatch op.project j = .ok () →
      Replaces op j (next.map .json) := by
    intro j hheld hadm
    refine ⟨existing.map (·.raw), ?_, hrewrites⟩
    rw [admits_current hheld hadm, Option.map_map]
    rfl
  have hfails : ∀ {e : S3Error} {j : IndexBucket ι}, Silent i j →
      Sat (amidst (s3Sem E) G i) (IndexAllowed E i op) (IndexEnds i) (settled retry (.error e)) j := by
    intro e j hsilent
    cases e with
    | preconditionFailed => exact hretry j hsilent
    | noSuchKey => exact quiet_sat (by simp) hsilent
    | syntaxError => exact quiet_sat (by simp) hsilent
  have hwritten : ∀ {j : IndexBucket ι}, (∃ w ∈ j, w.writer = some i) →
      Sat (amidst (s3Sem E) G i) (IndexAllowed E i op) (IndexEnds i) (settled retry (.ok ())) j :=
    fun h => Sat.ret wrote_stable h fun j h => by rwa [IndexEnds, if_pos rfl]
  cases next with
  | some index =>
    simp only [replaceJson, Prog.cmd_bind]
    refine Sat.act hstable h (fun j h => ⟨rfl, h.1, hreplaces h.2⟩) fun j₁ r j₂ h₁ hsem => ?_
    rcases s3Sem_put hsem with ⟨_, rfl, rfl⟩ | ⟨e, rfl, rfl⟩
    · exact hwritten ⟨_, List.mem_cons_self .., rfl⟩
    · exact hfails h₁.1
  | none =>
    obtain ⟨o, rfl⟩ := Option.ne_none_iff_exists'.mp (hexisting rfl)
    simp only [replaceJson, Prog.cmd_bind]
    refine Sat.act hstable h (fun j h => ⟨rfl, h.1, hreplaces h.2⟩) fun j₁ r j₂ h₁ hsem => ?_
    rcases s3Sem_delete hsem with ⟨_, rfl, rfl⟩ | ⟨e, rfl, rfl⟩
    · exact hwritten ⟨_, List.mem_cons_self .., rfl⟩
    · exact hfails h₁.1

theorem upsert_sat (t : Target) (now : Components.Timestamp) (n : Nat) {j : IndexBucket ι} (h : Silent i j) :
    Sat (amidst (s3Sem E) G i) (IndexAllowed E i (.upsert t now)) (IndexEnds i) (upsertProjectIndex (t.input now) n) j := by
  induction n generalizing j with
  | zero => exact quiet_sat (by simp) h
  | succ n ih =>
    simp only [upsertProjectIndex, Prog.cmd_bind]
    refine Sat.act silent_stable h (fun _ _ => trivial) fun j₁ r j₂ h₁ hread => ?_
    obtain ⟨hread, rfl⟩ := hread
    cases r with
    | error e => exact quiet_sat (by simp) h₁
    | ok existing =>
      have hrewrites : (Operation.upsert t now).Rewrites (existing.map (·.raw))
          ((some (upsertComponentEntry (existing.bind fun o => parseProjectIndex o.raw) (t.input now))).map .json) := by
        unfold Operation.Rewrites
        cases existing <;> rfl
      exact replaceJson_sat (fun h => by cases h) hrewrites (fun _ => ih) ⟨h₁, Held.ofRead hread.symm⟩

theorem remove_sat (t : Target) (clock : Nat → Components.Timestamp) (n : Nat) {j : IndexBucket ι} (h : Silent i j) :
    Sat (amidst (s3Sem E) G i) (IndexAllowed E i (.remove t clock)) (IndexEnds i)
      (removeFromProjectIndex t.config.project t.config.component clock n) j := by
  induction n generalizing j with
  | zero => exact quiet_sat (by simp) h
  | succ n ih =>
    simp only [removeFromProjectIndex, Prog.cmd_bind]
    refine Sat.act silent_stable h (fun _ _ => trivial) fun j₁ r j₂ h₁ hread => ?_
    obtain ⟨hread, rfl⟩ := hread
    cases r with
    | error e => exact quiet_sat (by simp) h₁
    | ok existing =>
      cases existing with
      | none => exact quiet_sat (by simp) h₁
      | some o =>
        cases hparse : parseProjectIndex o.raw with
        | none =>
          simp only [hparse]
          exact quiet_sat (by simp) h₁
        | some index =>
          simp only [hparse]
          have hrewrites : (Operation.remove t clock).Rewrites ((some o).map (·.raw))
              ((removeComponentEntry index t.config.component (clock n).iso).map .json) := ⟨o.raw, index, clock n, rfl, hparse, rfl⟩
          exact replaceJson_sat (fun _ => Option.some_ne_none o) hrewrites (fun _ => ih) ⟨h₁, Held.ofRead hread.symm⟩

theorem index_sat (op : Operation) {j : IndexBucket ι} (h : Silent i j) :
    Sat (amidst (s3Sem E) G i) (IndexAllowed E i op) (IndexEnds i) op.client j := by
  cases op with
  | upsert t now => exact upsert_sat t now maxIndexRetries h
  | remove t clock => exact remove_sat t clock maxIndexRetries h

end Client

/-! ## What a write changes -/

/-- The entries of an index; none where there is none. -/
def entriesOf (index : Option ProjectIndex) : List ProjectComponentEntry := (index.map (·.components)).getD []

/-- The component's own entries are the operation's, and the others are the same. -/
structure ChangesOnlyOwn (op : Operation) (before after : List ProjectComponentEntry) : Prop where
  own : after.filter (·.component = op.name) = op.ownEntries
  siblings : (after.filter (·.component ≠ op.name)).Perm (before.filter (·.component ≠ op.name))

section Laws

variable {op : Operation} {existing next : Option IndexRaw} {index : Option ProjectIndex} {input : UpsertComponentInput}

theorem parse_json {value : ProjectIndex} (h : projectIndexSchema value = true) : parseProjectIndex (.json value) = some value :=
  if_pos h

/-- The entry of an upsert. -/
def entryOf (input : UpsertComponentInput) : ProjectComponentEntry :=
  ⟨registryComponentName input.component, componentOwner input.project input.component,
    input.services.dedup.insertionSort (· ≤ ·), input.now⟩

theorem upserted_components (index : Option ProjectIndex) (input : UpsertComponentInput) :
    (upsertComponentEntry index input).components =
      ((entriesOf index).filter (·.component ≠ registryComponentName input.component) ++ [entryOf input]).insertionSort
        fun a b => a.component ≤ b.component := rfl

theorem upserted_own (index : Option ProjectIndex) (input : UpsertComponentInput) :
    (upsertComponentEntry index input).components.filter (·.component = registryComponentName input.component) = [entryOf input] := by
  rw [upserted_components, SortBy.filter_insertionSort, List.filter_append, List.filter_filter]
  have hnone : (entriesOf index).filter (fun c => decide (c.component = registryComponentName input.component) &&
      decide (c.component ≠ registryComponentName input.component)) = [] := by
    rw [List.filter_eq_nil_iff]
    intro c _
    simp
  rw [hnone]
  simp [entryOf]

/-- Of any other component the entries are those before, in their order. -/
theorem upserted_other (index : Option ProjectIndex) {component : String} (h : component ≠ registryComponentName input.component) :
    (upsertComponentEntry index input).components.filter (·.component = component) =
      (entriesOf index).filter (·.component = component) := by
  rw [upserted_components, SortBy.filter_insertionSort, List.filter_append, List.filter_filter]
  have hown : [entryOf input].filter (·.component = component) = [] := by simp [entryOf, Ne.symm h]
  rw [hown, List.append_nil]
  refine List.filter_congr fun c _ => ?_
  by_cases hc : c.component = component <;> simp [hc, h]

theorem upserted_siblings (index : Option ProjectIndex) (input : UpsertComponentInput) :
    ((upsertComponentEntry index input).components.filter (·.component ≠ registryComponentName input.component)).Perm
      ((entriesOf index).filter (·.component ≠ registryComponentName input.component)) := by
  rw [upserted_components]
  refine ((List.perm_insertionSort ..).filter _).trans ?_
  rw [List.filter_append, List.filter_filter]
  simp [entryOf]

/-- An upsert twice is an upsert once. -/
theorem upsert_twice (index : Option ProjectIndex) (input : UpsertComponentInput) :
    upsertComponentEntry (some (upsertComponentEntry index input)) input = upsertComponentEntry index input := by
  have hcomponents : (upsertComponentEntry (some (upsertComponentEntry index input)) input).components =
      (upsertComponentEntry index input).components := by
    refine SortBy.eq_of_filters ProjectComponentEntry.component (SortBy.pairwise_insertionSort _ _)
      (SortBy.pairwise_insertionSort _ _) fun component => ?_
    by_cases h : component = registryComponentName input.component
    · subst h
      rw [upserted_own, upserted_own]
    · exact upserted_other _ h
  unfold upsertComponentEntry at hcomponents ⊢
  dsimp only at hcomponents ⊢
  rw [hcomponents]

theorem removed_entries (index : ProjectIndex) (component : Option String) (now : String) :
    entriesOf (removeComponentEntry index component now) =
      index.components.filter (·.component ≠ registryComponentName component) := by
  unfold removeComponentEntry
  dsimp only
  by_cases h : (index.components.filter (·.component ≠ registryComponentName component)).isEmpty = true
  · rw [if_pos h, List.isEmpty_iff.mp h]
    rfl
  · rw [if_neg h]
    rfl

/-- Upserted and removed, a component that was not there leaves the entries there were. -/
theorem upsert_remove (h : ∀ c ∈ entriesOf index, c.component ≠ registryComponentName input.component) (now : String) :
    (entriesOf (removeComponentEntry (upsertComponentEntry index input) input.component now)).Perm (entriesOf index) := by
  rw [removed_entries]
  refine (upserted_siblings index input).trans ?_
  rw [List.filter_eq_self.mpr fun c hc => by simpa using h c hc]

/-- A service that component `a` declares and that is found to be `b`'s. -/
def Claims (index : ProjectIndex) (a b service : String) : Prop :=
  ∃ c ∈ index.components, c.component = a ∧
    (⟨service, b⟩ : ServiceConflict) ∈ findCrossComponentServiceConflicts (some index) (some a) c.services

theorem claims_iff {index : ProjectIndex} {a b service : String} :
    Claims index a b service ↔ a ≠ b ∧ (∃ c ∈ index.components, c.component = a ∧ service ∈ c.services) ∧
      ∃ d ∈ index.components, d.component = b ∧ service ∈ d.services := by
  have hfound : ∀ services : List String,
      (⟨service, b⟩ : ServiceConflict) ∈ findCrossComponentServiceConflicts (some index) (some a) services ↔
        ∃ d ∈ index.components, d.component ≠ a ∧ service ∈ services ∧ service ∈ d.services ∧ d.component = b := by
    intro services
    constructor
    · intro h
      obtain ⟨d, hd, hmap⟩ := List.mem_flatMap.mp h
      obtain ⟨s, hs, he⟩ := List.mem_map.mp hmap
      obtain ⟨hd, hne⟩ := List.mem_filter.mp hd
      obtain ⟨hs, hclaimed⟩ := List.mem_filter.mp hs
      cases he
      exact ⟨d, hd, of_decide_eq_true hne, hs, by simpa using hclaimed, rfl⟩
    · intro ⟨d, hd, hne, hs, hclaimed, hcomponent⟩
      subst hcomponent
      exact List.mem_flatMap.mpr ⟨d, List.mem_filter.mpr ⟨hd, decide_eq_true hne⟩,
        List.mem_map.mpr ⟨service, List.mem_filter.mpr ⟨hs, by simpa using hclaimed⟩, rfl⟩⟩
  unfold Claims
  constructor
  · intro ⟨c, hc, ha, hclaim⟩
    obtain ⟨d, hd, hne, hs, hclaimed, hb⟩ := (hfound c.services).mp hclaim
    exact ⟨fun e => hne (hb.trans e.symm), ⟨c, hc, ha, hs⟩, d, hd, hb, hclaimed⟩
  · intro ⟨hab, ⟨c, hc, ha, hs⟩, d, hd, hb, hclaimed⟩
    exact ⟨c, hc, ha, (hfound c.services).mpr ⟨d, hd, fun e => hab (e.symm.trans hb), hs, hclaimed, hb⟩⟩

theorem claims_symm {index : ProjectIndex} {a b service : String} : Claims index a b service ↔ Claims index b a service := by
  rw [claims_iff, claims_iff]
  constructor <;>
    · intro ⟨hne, ha, hb⟩
      exact ⟨Ne.symm hne, hb, ha⟩

/-- A body that is parsed, or none. -/
def Readable (existing : Option IndexRaw) : Prop := ∀ raw, existing = some raw → ∃ index, parseProjectIndex raw = some index

/-- What an operation makes of an index that can be read can be read. -/
theorem rewrites_readable (h : op.Rewrites existing next) : Readable next := by
  intro raw hraw
  cases op with
  | upsert t now =>
    obtain rfl : next = _ := h
    cases hraw
    refine ⟨_, parse_json (upserted_schema (fun ix hix => ?_) now)⟩
    obtain ⟨raw, _, hparse⟩ := Option.bind_eq_some_iff.mp hix
    exact parsed_index hparse
  | remove t clock =>
    obtain ⟨old, index, now, _, hparse, rfl⟩ := h
    obtain ⟨value, hvalue, rfl⟩ := Option.map_eq_some_iff.mp hraw
    exact ⟨value, parse_json (removed_schema (parsed_index hparse) t.config.component now hvalue).1⟩

theorem rewrites_changes (h : op.Rewrites existing next) :
    ChangesOnlyOwn op (entriesOf (existing.bind parseProjectIndex)) (entriesOf (next.bind parseProjectIndex)) := by
  have hreadable := rewrites_readable h
  cases op with
  | upsert t now =>
    obtain rfl : next = _ := h
    obtain ⟨value, hvalue⟩ := hreadable _ rfl
    have hself : parseProjectIndex (.json (upsertComponentEntry (existing.bind parseProjectIndex) (t.input now))) =
        some (upsertComponentEntry (existing.bind parseProjectIndex) (t.input now)) := by
      refine parse_json (upserted_schema (fun ix hix => ?_) now)
      obtain ⟨raw, _, hparse⟩ := Option.bind_eq_some_iff.mp hix
      exact parsed_index hparse
    rw [Option.bind_some, hself]
    exact ⟨upserted_own _ (t.input now), upserted_siblings _ (t.input now)⟩
  | remove t clock =>
    obtain ⟨old, index, now, rfl, hparse, rfl⟩ := h
    have hself : ((removeComponentEntry index t.config.component now.iso).map Raw.json).bind parseProjectIndex =
        removeComponentEntry index t.config.component now.iso := by
      cases hremoved : removeComponentEntry index t.config.component now.iso with
      | none => rfl
      | some value => exact parse_json (removed_schema (parsed_index hparse) t.config.component now hremoved).1
    rw [hself, removed_entries, Option.bind_some, hparse]
    have hname : (Operation.remove t clock).name = registryComponentName t.config.component := rfl
    refine ⟨?_, ?_⟩
    · rw [hname, List.filter_filter]
      refine List.filter_eq_nil_iff.mpr fun c _ => ?_
      by_cases h : c.component = registryComponentName t.config.component <;> simp [h]
    · rw [hname, List.filter_filter]
      refine .of_eq (List.filter_congr fun c _ => ?_)
      by_cases h : c.component = registryComponentName t.config.component <;> simp [h]

end Laws

/-! ## Any number of clients -/

section Run

variable {ι : Type} [DecidableEq ι] {E : Etags} {ops : ι → Operation} {s t : IndexClients ι}

/-- A project's index in the bucket, when it can be read. -/
def indexAt (project : String) (j : IndexBucket ι) : Option ProjectIndex :=
  match Journal.current project j with
  | some (_, .parsed raw) => parseProjectIndex raw
  | _ => none

/-- Every index that is there can be read. -/
def ReadableIndexes (j : IndexBucket ι) : Prop :=
  ∀ project v body, Journal.current project j = some (v, body) → ∃ raw, body = .parsed raw ∧ Readable (some raw)

/-- The clients before their first requests, on a bucket that none of them has written to. -/
structure Starts (ops : ι → Operation) (s : IndexClients ι) : Prop where
  progs : ∀ i, s.progs i = (ops i).client
  before : ∀ w ∈ s.world, w.writer = none
  readable : ReadableIndexes s.world

/-- One write of a run, with the bucket before it. -/
structure Change (ops : ι → Operation) (older : IndexBucket ι) (w : Write (Option ι) String (Body IndexRaw)) (i : ι) : Prop where
  writer : w.writer = some i
  first : Silent i older
  own : ChangesOnlyOwn (ops i) (entriesOf (indexAt (ops i).project older)) (entriesOf (indexAt (ops i).project (w :: older)))
  others : ∀ project, project ≠ (ops i).project → indexAt project (w :: older) = indexAt project older

omit [DecidableEq ι] in
theorem indexAt_of {project : String} {j : IndexBucket ι} {existing : Option IndexRaw}
    (h : (Journal.current project j).map (·.2) = existing.map Body.parsed) :
    indexAt project j = existing.bind parseProjectIndex := by
  unfold indexAt
  cases hcur : Journal.current project j with
  | none =>
    rw [hcur] at h
    cases existing with
    | none => rfl
    | some raw => cases h
  | some c =>
    obtain ⟨v, body⟩ := c
    rw [hcur] at h
    cases existing with
    | none => cases h
    | some raw =>
      obtain rfl : body = .parsed raw := Option.some.inj h
      rfl

omit [DecidableEq ι] in
theorem current_head (project : String) (writer : Option ι) (next : Option IndexRaw) (j : IndexBucket ι) :
    (Journal.current project (⟨writer, project, next.map Body.parsed⟩ :: j)).map (·.2) = next.map Body.parsed := by
  rw [Journal.current, if_pos rfl]
  cases next <;> rfl

omit [DecidableEq ι] in
/-- A write of what its operation makes of the index is a change of its own entries. -/
theorem change_of {i : ι} {older : IndexBucket ι} {next : Option IndexRaw} (hsilent : Silent i older)
    (h : Replaces (ops i) older next) : Change ops older ⟨some i, (ops i).project, next.map Body.parsed⟩ i := by
  obtain ⟨existing, hcur, hrewrites⟩ := h
  refine ⟨rfl, hsilent, ?_, fun project hne => ?_⟩
  · rw [indexAt_of hcur, indexAt_of (current_head (ops i).project (some i) next older)]
    exact rewrites_changes hrewrites
  · unfold indexAt
    rw [Journal.current_cons_ne (Ne.symm hne)]

omit [DecidableEq ι] in
theorem readable_cons {i : ι} {older : IndexBucket ι} {next : Option IndexRaw} (hreadable : ReadableIndexes older)
    (h : Replaces (ops i) older next) : ReadableIndexes (⟨some i, (ops i).project, next.map Body.parsed⟩ :: older) := by
  intro project v body hcur
  obtain ⟨existing, _, hrewrites⟩ := h
  by_cases hp : (ops i).project = project
  · rw [Journal.current, if_pos hp] at hcur
    obtain ⟨b, hb, he⟩ := Option.map_eq_some_iff.mp hcur
    cases he
    obtain ⟨raw, hraw, hbody⟩ := Option.map_eq_some_iff.mp hb
    exact ⟨raw, hbody.symm, fun raw' h' => rewrites_readable hrewrites raw' (hraw.trans h')⟩
  · rw [Journal.current_cons_ne hp] at hcur
    exact hreadable project v body hcur

/-- What is written in a run: each write is a change, and the indexes stay readable. -/
def Course (ops : ι → Operation) (j₀ j : IndexBucket ι) : Prop :=
  ReadableIndexes j ∧ ∃ done, j = done ++ j₀ ∧
    ∀ newer w older, done = newer ++ w :: older → ∃ i, Change ops (older ++ j₀) w i

omit [DecidableEq ι] in
theorem Course.cons {j₀ j : IndexBucket ι} {i : ι} {next : Option IndexRaw} (h : Course ops j₀ j) (hsilent : Silent i j)
    (hreplaces : Replaces (ops i) j next) : Course ops j₀ (⟨some i, (ops i).project, next.map Body.parsed⟩ :: j) := by
  obtain ⟨hreadable, done, rfl, hchanges⟩ := h
  refine ⟨readable_cons hreadable hreplaces, ⟨some i, (ops i).project, next.map Body.parsed⟩ :: done, rfl, ?_⟩
  intro newer w older hsplit
  cases newer with
  | nil =>
    obtain ⟨rfl, rfl⟩ := List.cons.inj hsplit
    exact ⟨i, change_of hsilent hreplaces⟩
  | cons x newer => exact hchanges newer w older (List.cons.inj hsplit).2

theorem starts_sat (hs : Starts ops s) (i : ι) :
    Sat (amidst (s3Sem E) (fun i o j => IndexAllowed E i (ops i) o j) i) (IndexAllowed E i (ops i)) (IndexEnds i) (s.progs i) s.world := by
  rw [hs.progs]
  refine index_sat (ops i) fun w hw => ?_
  rw [hs.before w hw]
  exact (Option.some_ne_none i).symm

theorem run_course (hs : Starts ops s) (hr : CrewRun (s3Sem E) s t) : Course ops s.world t.world := by
  refine crew_keeps (I := Course ops s.world) (Q := IndexEnds) (starts_sat hs) ?_ ?_ hr
  · intro i o j r j' hG hsem hI
    cases o with
    | getJson key => exact hsem.2 ▸ hI
    | nowIso => exact hsem ▸ hI
    | putJson key value options =>
      obtain ⟨rfl, hsilent, hreplaces⟩ := hG
      rcases s3Sem_put hsem with ⟨hadm, _, rfl⟩ | ⟨_, _, rfl⟩
      · exact hI.cons hsilent (hreplaces hadm)
      · exact hI
    | deleteObject key ifMatch =>
      obtain ⟨rfl, hsilent, hreplaces⟩ := hG
      rcases s3Sem_delete hsem with ⟨hadm, _, rfl⟩ | ⟨_, _, rfl⟩
      · exact hI.cons hsilent (hreplaces hadm)
      · exact hI
  · refine ⟨hs.readable, [], rfl, fun newer w older h => ?_⟩
    cases newer <;> cases h

/-- The index under any number of deploys and destroys, in any interleaving: each write is
    of one client, its first, and changes the entries of its own component only; a client
    wrote exactly if it says so. And the laws of one update after another. -/
theorem index_conflict_free (hs : Starts ops s) (hr : CrewRun (s3Sem E) s t) :
    (∃ done, t.world = done ++ s.world ∧
      ∀ newer w older, done = newer ++ w :: older → ∃ i, Change ops (older ++ s.world) w i) ∧
    (∀ i r, t.progs i = .ret r → (r = .ok .written ↔ ∃ w ∈ t.world, w.writer = some i)) ∧
    (∀ index input, upsertComponentEntry (some (upsertComponentEntry index input)) input = upsertComponentEntry index input) ∧
    (∀ index input now, (∀ c ∈ entriesOf index, c.component ≠ registryComponentName input.component) →
      (entriesOf (removeComponentEntry (upsertComponentEntry index input) input.component now)).Perm (entriesOf index)) ∧
    ∀ index a b service, Claims index a b service ↔ Claims index b a service := by
  refine ⟨(run_course hs hr).2, fun i r hret => ?_, upsert_twice, fun index input now h => upsert_remove h now,
    fun index a b service => claims_symm⟩
  have hend := crew_done (Q := IndexEnds) (starts_sat hs) hr hret
  unfold IndexEnds at hend
  by_cases hwritten : r = .ok .written
  · rw [if_pos hwritten] at hend
    exact ⟨fun _ => hend, fun _ => hwritten⟩
  · rw [if_neg hwritten] at hend
    exact ⟨fun h => absurd h hwritten, fun ⟨w, hw, hi⟩ => absurd hi (hend w hw)⟩

end Run

/-! ## A deploy and a destroy at once -/

theorem unlabelled : (none : Option String).all labelMatches = true := rfl

def frontTarget : Target := ⟨frontWeb, none, unlabelled⟩

def backTarget : Target := ⟨backApi, none, unlabelled⟩

/-- The index that has `back` only. -/
def backIndex : ProjectIndex := upsertComponentEntry none (backTarget.input noon)

theorem backIndex_schema : projectIndexSchema backIndex = true := upserted_schema (fun ix h => by cases h) noon

/-- `front` is deployed and `back` destroyed. -/
def deployAndDestroy (isDeploy : Bool) : Operation := if isDeploy then .upsert frontTarget noon else .remove backTarget fun _ => noon

def beforeRace : IndexClients Bool where
  progs i := (deployAndDestroy i).client
  world := [⟨none, "shop", some (.parsed (.json backIndex))⟩]

theorem beforeRace_starts : Starts deployAndDestroy beforeRace where
  progs _ := rfl
  before := by
    intro w hw
    obtain rfl := List.mem_singleton.mp hw
    rfl
  readable := by
    intro project v body h
    simp only [beforeRace, Journal.current] at h
    split at h
    · cases h
      refine ⟨.json backIndex, rfl, fun raw hraw => ?_⟩
      cases hraw
      exact ⟨backIndex, parse_json backIndex_schema⟩
    · cases h

/-- Both read, the deploy writes first, and the destroy reads again. -/
def race : IndexClients Bool := Crew.play (s3Serve strokes "t") [true, false, true, false, false, false] beforeRace

theorem race_run : CrewRun (s3Sem strokes) beforeRace race := play_run (s3Serve_sem strokes "t") _ _

theorem index_conflict_free_race :
    race.progs true = .ret (.ok .written) ∧ race.progs false = .ret (.ok .written) ∧
      (∃ w ∈ race.world, w.writer = some true) ∧ ∃ w ∈ race.world, w.writer = some false := by
  have hdeploy : race.progs true = .ret (.ok .written) := Prog.eq_ret (by decide +kernel)
  have hdestroy : race.progs false = .ret (.ok .written) := Prog.eq_ret (by decide +kernel)
  obtain ⟨_, hwrote, _⟩ := index_conflict_free beforeRace_starts race_run
  exact ⟨hdeploy, hdestroy, (hwrote true _ hdeploy).mp rfl, (hwrote false _ hdestroy).mp rfl⟩

end LaunchPad.Cli.ProjectIndexes
