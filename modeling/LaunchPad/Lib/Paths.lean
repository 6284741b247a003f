/-
  LaunchPad.Lib.Paths — slash-separated paths as texts: their segments, what is under a
  directory, a path with its parent directories, lexical cleaning, and absolute and relative
  paths.

  A path is under a directory exactly when the directory's segments are the first of its own
  (`within_iff`), so that two directories above one path are one under the other
  (`within_total`).

  Proved:
  - `mem_ups`: the parents of a path and itself are the directories it is within.
  - `clean_eq`: a path that only adds empty segments and `.` to one with nothing to clean is
    cleaned to that one.
  - `lexical_isPlain`: a rooted path has, cleaned, plain segments only.
  - `relativeSegments_append`: the way from a directory to what is in it is the rest of its
    segments.
-/
import Mathlib.Data.List.Infix
import LaunchPad.Lib.Split

namespace LaunchPad.Lib.Paths

def segments (path : List Char) : List (List Char) := path.splitOn '/'

def joined (segs : List (List Char)) : List Char := ['/'].intercalate segs

/-- The path of a directory, or of what is in it. -/
def within (path dir : List Char) : Bool := path == dir || (dir ++ ['/']).isPrefixOf path

/-- The parent directories of a path, outermost first, and the path. -/
def ups (path : List Char) : List (List Char) := ((segments path).inits.filter (· ≠ [])).map joined

/-! ## Segments -/

variable {path dir dir' : List Char} {segs : List (List Char)}

@[simp] theorem segments_ne_nil (path : List Char) : segments path ≠ [] := List.splitOn_ne_nil '/' path

@[simp] theorem joined_segments (path : List Char) : joined (segments path) = path := List.intercalate_splitOn '/'

theorem segments_joined (hslash : ∀ s ∈ segs, '/' ∉ s) (hne : segs ≠ []) : segments (joined segs) = segs :=
  List.splitOn_intercalate '/' hslash hne

theorem segments_append (dir rest : List Char) : segments (dir ++ '/' :: rest) = segments dir ++ segments rest :=
  List.splitOn_append_cons_self dir rest

theorem segments_plain (h : '/' ∉ path) : segments path = [path] := List.splitOn_eq_singleton h

theorem not_mem_segment {s : List Char} (h : s ∈ segments path) : '/' ∉ s := not_mem_of_mem_splitOn h

theorem mem_of_mem_segment {s : List Char} {c : Char} (h : s ∈ segments path) (hc : c ∈ s) : c ∈ path := mem_of_mem_splitOn h hc

theorem segments_injective (h : segments path = segments dir) : path = dir := by
  rw [← joined_segments path, h, joined_segments]

theorem joined_append {front back : List (List Char)} (hf : front ≠ []) (hb : back ≠ []) :
    joined (front ++ back) = joined front ++ '/' :: joined back := by
  unfold joined
  induction front with
  | nil => exact absurd rfl hf
  | cons s front ih =>
    cases front with
    | nil =>
      obtain ⟨t, back, rfl⟩ := List.exists_cons_of_ne_nil hb
      simp [List.intercalate_cons_cons]
    | cons t front =>
      rw [List.cons_append, List.cons_append, List.intercalate_cons_cons, List.intercalate_cons_cons, ← List.cons_append,
        ih (by simp)]
      simp

/-! ## Being within -/

theorem within_iff : within path dir = true ↔ segments dir <+: segments path := by
  unfold within
  rw [Bool.or_eq_true, beq_iff_eq, List.isPrefixOf_iff_prefix]
  constructor
  · intro h
    cases h with
    | inl h =>
      rw [h]
    | inr h =>
      obtain ⟨rest, hrest⟩ := h
      rw [← hrest, List.append_assoc, List.singleton_append, segments_append]
      exact List.prefix_append ..
  · intro ⟨rest, hrest⟩
    cases rest with
    | nil =>
      rw [List.append_nil] at hrest
      exact .inl (segments_injective hrest.symm)
    | cons s rest =>
      refine .inr ⟨joined (s :: rest), ?_⟩
      rw [List.append_assoc, List.singleton_append, ← joined_segments path, ← hrest,
        joined_append (segments_ne_nil dir) (by simp), joined_segments]

@[simp] theorem within_self (path : List Char) : within path path = true := within_iff.mpr (List.prefix_refl _)

theorem within_trans (h : within path dir = true) (h' : within dir dir' = true) : within path dir' = true :=
  within_iff.mpr ((within_iff.mp h').trans (within_iff.mp h))

theorem within_total (h : within path dir = true) (h' : within path dir' = true) :
    within dir dir' = true ∨ within dir' dir = true := by
  rw [within_iff, within_iff]
  exact (List.prefix_or_prefix_of_prefix (within_iff.mp h) (within_iff.mp h')).symm

theorem mem_ups : dir ∈ ups path ↔ within path dir = true := by
  unfold ups
  rw [List.mem_map, within_iff]
  constructor
  · intro ⟨init, hinit, hdir⟩
    rw [List.mem_filter, List.mem_inits, decide_eq_true_iff] at hinit
    rw [← hdir, segments_joined (fun s hs => not_mem_segment (hinit.1.subset hs)) hinit.2]
    exact hinit.1
  · intro h
    refine ⟨segments dir, ?_, joined_segments dir⟩
    rw [List.mem_filter, List.mem_inits, decide_eq_true_iff]
    exact ⟨h, segments_ne_nil dir⟩

/-! ## Cleaning -/

/-- A segment that names an entry of its directory. -/
def PlainSegment (s : List Char) : Prop := s ≠ [] ∧ s ≠ ['.'] ∧ s ≠ ['.', '.']

instance (s : List Char) : Decidable (PlainSegment s) := inferInstanceAs (Decidable (_ ∧ _ ∧ _))

/-- One more segment of a path, at the end of its cleaned ones. -/
def pushSegment (rooted : Bool) (out : List (List Char)) (seg : List Char) : List (List Char) :=
  if seg = [] ∨ seg = ['.'] then out
  else if seg = ['.', '.'] then
    match out.getLast? with
    -- the parent of the root is the root
    | none => if rooted then [] else [seg]
    | some last => if last = ['.', '.'] then out ++ [seg] else out.dropLast
  else out ++ [seg]

/-- The segments of a path without `.`, empty ones, and `..` after what it leaves. -/
def lexical (rooted : Bool) (segs : List (List Char)) : List (List Char) := segs.foldl (pushSegment rooted) []

/-- The shortest path of the same meaning; a path of nothing is `.`. -/
def clean (path : List Char) : List Char :=
  if path.head? = some '/' then '/' :: joined (lexical true (segments path))
  else
    match lexical false (segments path) with
    | [] => ['.']
    | segs => joined segs

variable {rooted : Bool} {out : List (List Char)}

theorem pushSegment_plain {s : List Char} (h : PlainSegment s) : pushSegment rooted out s = out ++ [s] := by
  unfold pushSegment
  rw [if_neg (not_or.mpr ⟨h.1, h.2.1⟩), if_neg h.2.2]

theorem foldl_pushSegment_plain (h : ∀ s ∈ segs, PlainSegment s) : segs.foldl (pushSegment rooted) out = out ++ segs := by
  induction segs generalizing out with
  | nil => simp
  | cons s segs ih =>
    rw [List.foldl_cons, pushSegment_plain (h s (List.mem_cons_self ..)), ih fun t ht => h t (List.mem_cons_of_mem _ ht),
      List.append_assoc, List.singleton_append]

theorem foldl_pushSegment_skipped (h : ∀ s ∈ segs, s = [] ∨ s = ['.']) : segs.foldl (pushSegment rooted) out = out := by
  induction segs with
  | nil => rfl
  | cons s segs ih =>
    rw [List.foldl_cons, pushSegment, if_pos (h s (List.mem_cons_self ..))]
    exact ih fun t ht => h t (List.mem_cons_of_mem _ ht)

theorem pushSegment_isPlain {s : List Char} (hout : ∀ t ∈ out, PlainSegment t) : ∀ t ∈ pushSegment true out s, PlainSegment t := by
  unfold pushSegment
  by_cases hskip : s = [] ∨ s = ['.']
  · rw [if_pos hskip]
    exact hout
  rw [if_neg hskip]
  by_cases hup : s = ['.', '.']
  · rw [if_pos hup]
    cases hlast : out.getLast? with
    | none => simp
    | some last =>
      have hplain := hout last (List.mem_of_getLast? hlast)
      simp only [if_neg hplain.2.2]
      exact fun t ht => hout t (List.dropLast_subset out ht)
  · rw [if_neg hup]
    intro t ht
    rcases List.mem_append.mp ht with ht | ht
    · exact hout t ht
    · rw [List.mem_singleton.mp ht]
      exact ⟨fun h => hskip (.inl h), fun h => hskip (.inr h), hup⟩

theorem lexical_isPlain (segs : List (List Char)) : ∀ s ∈ lexical true segs, PlainSegment s := by
  unfold lexical
  have hrun : ∀ out : List (List Char), (∀ s ∈ out, PlainSegment s) → ∀ s ∈ segs.foldl (pushSegment true) out, PlainSegment s := by
    induction segs with
    | nil => exact fun _ hout => hout
    | cons s segs ih => exact fun out hout => ih _ (pushSegment_isPlain hout)
  exact hrun [] (by simp)

/-- Where the rest of the segments has nothing to clean, a path is cleaned to it. -/
theorem clean_eq {front back : List (List Char)} (hsegs : segments path = front ++ segments dir ++ back)
    (hfront : ∀ s ∈ front, s = [] ∨ s = ['.']) (hback : ∀ s ∈ back, s = [] ∨ s = ['.'])
    (hdir : ∀ s ∈ segments dir, PlainSegment s) : clean path = if path.head? = some '/' then '/' :: dir else dir := by
  have hlexical : ∀ rooted, lexical rooted (segments path) = segments dir := by
    intro rooted
    rw [lexical, hsegs, List.foldl_append, List.foldl_append, foldl_pushSegment_skipped hfront, foldl_pushSegment_plain hdir,
      foldl_pushSegment_skipped hback, List.nil_append]
  unfold clean
  rw [hlexical, hlexical, joined_segments]
  have hjoined := joined_segments dir
  cases h : segments dir with
  | nil => exact absurd h (segments_ne_nil dir)
  | cons s segs =>
    rw [h] at hjoined
    simp only [hjoined]

/-! ## Absolute and relative paths -/

/-- The segments of an absolute path. -/
def absolute (path : List Char) : List (List Char) := lexical true (segments path)

/-- A path from a directory, as an absolute one. -/
def resolve (dir path : List Char) : List Char :=
  '/' :: joined (absolute (if path.head? = some '/' then path else dir ++ '/' :: path))

def relativeSegments : List (List Char) → List (List Char) → List (List Char)
  | s :: source, t :: target =>
    if s = t then relativeSegments source target else (s :: source).map (fun _ => ['.', '.']) ++ t :: target
  | source, target => source.map (fun _ => ['.', '.']) ++ target

/-- The way from one absolute path to another; empty when they are one. -/
def relative (source target : List Char) : List Char := joined (relativeSegments (absolute source) (absolute target))

theorem absolute_isPlain (path : List Char) : ∀ s ∈ absolute path, PlainSegment s := lexical_isPlain _

theorem pushSegment_slash {s : List Char} (hout : ∀ t ∈ out, '/' ∉ t) (hs : '/' ∉ s) : ∀ t ∈ pushSegment rooted out s, '/' ∉ t := by
  have happend : ∀ t ∈ out ++ [s], '/' ∉ t := by
    intro t ht
    rcases List.mem_append.mp ht with ht | ht
    · exact hout t ht
    · exact List.mem_singleton.mp ht ▸ hs
  unfold pushSegment
  split
  · exact hout
  · split
    · split
      · split
        · simp
        · intro t ht
          exact List.mem_singleton.mp ht ▸ hs
      · split
        · exact happend
        · exact fun t ht => hout t (List.dropLast_subset out ht)
    · exact happend

theorem absolute_slash (path : List Char) : ∀ s ∈ absolute path, '/' ∉ s := by
  have hrun : ∀ (segs out : List (List Char)), (∀ s ∈ segs, '/' ∉ s) → (∀ s ∈ out, '/' ∉ s) →
      ∀ s ∈ segs.foldl (pushSegment true) out, '/' ∉ s := by
    intro segs
    induction segs with
    | nil => exact fun _ _ hout => hout
    | cons s segs ih =>
      intro out hsegs hout
      obtain ⟨hs, hsegs⟩ := List.forall_mem_cons.mp hsegs
      exact ih _ hsegs (pushSegment_slash hout hs)
  exact hrun _ [] (fun s hs => not_mem_segment hs) (by simp)

/-- From a directory to what is in it: the rest of the way. -/
theorem relativeSegments_append (source rest : List (List Char)) : relativeSegments source (source ++ rest) = rest := by
  induction source with
  | nil => cases rest <;> rfl
  | cons s source ih => rw [List.cons_append, relativeSegments, if_pos rfl, ih]

end LaunchPad.Lib.Paths
