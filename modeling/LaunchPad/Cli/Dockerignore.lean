/-
  LaunchPad.Cli.Dockerignore — what a remote build leaves out of the uploaded context
  (`deploy/remote-build.ts` `parseDockerignore` and `shouldExcludeFromContext`,
  `deploy/context-pack.ts`), beside what docker leaves out of the build.

  Docker reads every line: its last match with the path, or with a parent directory of it,
  decides. The upload keeps the shapes it knows; a line of another shape is skipped, and a
  `!` line only makes the upload larger. Docker applies the whole file again on the remote
  side, so a path may be uploaded in vain, and none may be missing.

  Proved:
  - `matches_glob`, `glob_matches`: a pattern of a known shape matches a path of its own when
    docker's glob does, and a path's pattern is one of docker's for it or for a parent.
  - `cleaned_normalizePattern`: where the pattern names entries, docker reads the same one.
  - `context_excluded`: no path is left out that docker keeps, and none is uploaded that it
    leaves out where every pattern it reads is kept.
  - `packs_of_kept`: the packed context has every file docker keeps.

  Docker's glob is a parameter (`DockerGlob`).
-/
import Mathlib.Data.List.DropRight
import LaunchPad.Lib.Paths
import LaunchPad.Cli.Dotenv

namespace LaunchPad.Dockerignore

open Lib Lib.Paths Dotenv

/-! ## The patterns of the upload -/

/-- `[*?[\]]`. -/
def isGlobChar (c : Char) : Bool := c = '*' || c = '?' || c = '[' || c = ']'

def hasGlob (p : List Char) : Bool := p.any isGlobChar

/-- `[A-Za-z0-9._-]`. -/
def isSafe (c : Char) : Bool := c.isAlphanum || c = '.' || c = '_' || c = '-'

/-- `replace(/^\.\//, "")`. -/
def stripDot : List Char → List Char
  | '.' :: '/' :: p => p
  | p => p

/-- `replace(/^\//, "")`. -/
def stripSlash : List Char → List Char
  | '/' :: p => p
  | p => p

def normalizePattern (line : List Char) : List Char := (stripSlash (stripDot line)).rdropWhile (· = '/')

/-- `/^\*[A-Za-z0-9._-]+$/`. -/
def isSuffixGlob : List Char → Bool
  | '*' :: s => s ≠ [] && s.all isSafe
  | _ => false

/-- `/^[A-Za-z0-9._-]+\*$/`. -/
def isStemGlob (p : List Char) : Bool := p.getLast? = some '*' && p.dropLast ≠ [] && p.dropLast.all isSafe

def isSupportedPattern (p : List Char) : Bool :=
  !hasGlob p || isSuffixGlob p || isStemGlob p ||
    match p with
    | '*' :: '*' :: '/' :: base => isSupportedPattern base && !base.contains '/'
    | _ => false

def matchesSimpleGlob (name pattern : List Char) : Bool :=
  if pattern.head? = some '*' then pattern.tail.isSuffixOf name
  else if pattern.getLast? = some '*' then pattern.dropLast.isPrefixOf name
  else name = pattern

/-- One round of the loop over the patterns. -/
def matchesPattern (relPath pattern : List Char) : Bool :=
  match pattern with
  | '*' :: '*' :: '/' :: base =>
    if hasGlob base then matchesSimpleGlob ((segments relPath).getLastD []) base else (segments relPath).contains base
  | _ =>
    if hasGlob pattern then matchesSimpleGlob ((segments relPath).headD []) pattern && (segments relPath).length = 1
    else within relPath pattern

def git : List Char := ['.', 'g', 'i', 't']

def shouldExcludeFromContext (relPath : List Char) (patterns : List (List Char)) : Bool :=
  (git :: patterns).any (matchesPattern relPath)

structure IgnoreLines where
  patterns : List (List Char)
  negations : List (List Char)
  wildcardNegation : Bool
  deriving DecidableEq, Repr

def IgnoreLines.read (parsed : IgnoreLines) (rawLine : List Char) : IgnoreLines :=
  match trim rawLine with
  | [] => parsed
  | '#' :: _ => parsed
  | '!' :: target =>
    let target := normalizePattern target
    if hasGlob target then { parsed with wildcardNegation := true }
    else if target ≠ [] then { parsed with negations := parsed.negations ++ [target] }
    else parsed
  | line =>
    let normalized := normalizePattern line
    if normalized = [] ∨ isSupportedPattern normalized = false then parsed
    else { parsed with patterns := parsed.patterns ++ [normalized] }

def readLines (content : List Char) : IgnoreLines := (content.splitOn '\n').foldl IgnoreLines.read ⟨[], [], false⟩

def parseDockerignore (content : List Char) : List (List Char) :=
  let parsed := readLines content
  if parsed.wildcardNegation then []
  else parsed.patterns.filter fun p =>
    -- with negations, only literal patterns that no negation includes again under
    !(!parsed.negations.isEmpty && hasGlob p) && !parsed.negations.any fun n => shouldExcludeFromContext n [p]

/-! ## The packed context -/

/-- The filter of the tarball, which is not asked below a directory that it drops. -/
def packFilter (keep patterns : List (List Char)) (rel : List Char) : Bool :=
  keep.any (within · rel) || !shouldExcludeFromContext rel patterns

def packs (keep patterns : List (List Char)) (path : List Char) : Bool := (ups path).all (packFilter keep patterns)

/-! ## Docker's rules -/

structure Rule where
  negated : Bool
  pattern : List Char
  deriving DecidableEq, Repr

/-- `filepath.Clean`, without the slash of a path from the context's root. -/
def cleaned (p : List Char) : List Char :=
  if p = [] then []
  else
    match clean p with
    | ['/'] => ['/']
    | '/' :: q => q
    | q => q

def dockerRule (rawLine : List Char) : Option Rule :=
  if rawLine.head? = some '#' then none
  else
    match trim rawLine with
    | [] => none
    | '!' :: target => some ⟨true, cleaned (trim target)⟩
    | line => some ⟨false, cleaned line⟩

def rules (content : List Char) : List Rule := (content.splitOn '\n').filterMap dockerRule

/-- A rule matches a path by its glob, or a parent directory. -/
def Rule.hits (glob : List Char → List Char → Bool) (path : List Char) (r : Rule) : Bool := (ups path).any (glob r.pattern)

/-- The last rule that matches decides. -/
def dockerExcludes (glob : List Char → List Char → Bool) (rules : List Rule) (path : List Char) : Bool :=
  rules.foldl (fun out r => if r.hits glob path then !r.negated else out) false

/-- What docker documents of its globs, as far as the known shapes go. -/
structure DockerGlob (glob : List Char → List Char → Bool) : Prop where
  nil (s : List Char) : glob [] s = true ↔ s = []
  plain (c : Char) (p s : List Char) : isGlobChar c = false → c ≠ '\\' → (glob (c :: p) s = true ↔ ∃ t, s = c :: t ∧ glob p t = true)
  star (p s : List Char) : p.head? ≠ some '*' →
    (glob ('*' :: p) s = true ↔ ∃ u v, s = u ++ v ∧ '/' ∉ u ∧ glob p v = true)
  deep (p s : List Char) : p ≠ [] →
    (glob ('*' :: '*' :: '/' :: p) s = true ↔ glob p s = true ∨ ∃ u v, s = u ++ '/' :: v ∧ glob p v = true)

/-- A path in the context: each segment names an entry. -/
def ContextPath (path : List Char) : Prop := ∀ s ∈ segments path, PlainSegment s

def negationTarget (rawLine : List Char) : Option (List Char) :=
  match trim rawLine with
  | '!' :: target => some target
  | _ => none

/-- Each `!` line without wildcards is spelled as docker cleans it, and includes no directory
above a pattern again. -/
def NegationsPlain (content : List Char) : Prop :=
  ∀ rawLine ∈ content.splitOn '\n', ∀ target ∈ negationTarget rawLine, hasGlob (normalizePattern target) = false →
    cleaned (trim target) = normalizePattern target ∧
      ∀ p ∈ (readLines content).patterns, within p (normalizePattern target) = true → p = normalizePattern target

/-- A line of a shape that the upload does not know. -/
def isUnsupported (rawLine : List Char) : Bool :=
  match trim rawLine with
  | [] => false
  | '#' :: _ => false
  | '!' :: _ => false
  | line => !isSupportedPattern (normalizePattern line)

/-- Every pattern that docker reads is one that the upload keeps. -/
def Honoured (content : List Char) : Prop := ∀ r ∈ rules content, r.negated = false → r.pattern ∈ parseDockerignore content

/-! ## Texts -/

section Texts

variable {c : Char} {p s line : List Char}

theorem trim_cons (h : Cron.isSpace c = false) (s : List Char) : ∃ t, trim (c :: s) = c :: t := by
  unfold trim
  rw [trimStart_plain h, trimEnd, List.reverse_cons, trimStart, List.dropWhile_append]
  split
  · simp [h]
  · rw [List.reverse_append]
    exact ⟨_, rfl⟩

theorem stripDot_eq (line : List Char) : ∃ front, line = front ++ stripDot line ∧ (front = [] ∨ front = ['.', '/']) := by
  unfold stripDot
  split
  · exact ⟨['.', '/'], rfl, .inr rfl⟩
  · exact ⟨[], rfl, .inl rfl⟩

theorem stripSlash_eq (line : List Char) : ∃ front, line = front ++ stripSlash line ∧ (front = [] ∨ front = ['/']) := by
  unfold stripSlash
  split
  · exact ⟨['/'], rfl, .inr rfl⟩
  · exact ⟨[], rfl, .inl rfl⟩

/-- A line is its pattern, after what stands for the context's root and before slashes. -/
theorem normalizePattern_eq (line : List Char) : ∃ dot slash back, line = dot ++ (slash ++ (normalizePattern line ++ back)) ∧
    (dot = [] ∨ dot = ['.', '/']) ∧ (slash = [] ∨ slash = ['/']) ∧ ∀ c ∈ back, c = '/' := by
  obtain ⟨dot, hline, hdot⟩ := stripDot_eq line
  obtain ⟨slash, hrest, hslash⟩ := stripSlash_eq (stripDot line)
  obtain ⟨back, hback⟩ := List.rdropWhile_prefix (· = '/') (stripSlash (stripDot line))
  refine ⟨dot, slash, back, ?_, hdot, hslash, fun c hc => ?_⟩
  · unfold normalizePattern
    rw [hback, ← hrest, ← hline]
  · have htail : back = (stripSlash (stripDot line)).rtakeWhile (· = '/') := by
      have h := List.rdropWhile_append_rtakeWhile (p := (· = '/')) (l := stripSlash (stripDot line))
      exact List.append_cancel_left (hback.trans h.symm)
    rw [htail] at hc
    simpa using List.mem_rtakeWhile_imp hc

theorem mem_of_mem_normalizePattern (h : c ∈ normalizePattern line) : c ∈ line := by
  obtain ⟨dot, slash, back, hline, _⟩ := normalizePattern_eq line
  rw [hline]
  simp [h]

theorem getLast_normalizePattern (line : List Char) : (normalizePattern line).getLast? ≠ some '/' := by
  intro h
  have hne : normalizePattern line ≠ [] := by
    intro hnil
    rw [hnil] at h
    cases h
  have hlast := List.rdropWhile_last_not (· = '/') (stripSlash (stripDot line)) hne
  rw [List.getLast?_eq_getLast_of_ne_nil hne] at h
  exact hlast (decide_eq_true (Option.some_inj.mp h))

end Texts

theorem segments_root (rest : List Char) : segments ('/' :: rest) = [] :: segments rest := by
  simpa [segments] using segments_append [] rest

/-- The segments that normalizing strips are empty or `.`. -/
theorem segments_line (line : List Char) : ∃ front back, segments line = front ++ segments (normalizePattern line) ++ back ∧
    (∀ s ∈ front, s = [] ∨ s = ['.']) ∧ ∀ s ∈ back, s = [] ∨ s = ['.'] := by
  obtain ⟨dot, slash, back, hline, hdot, hslash, hback⟩ := normalizePattern_eq line
  generalize normalizePattern line = q at hline ⊢
  have hfront : ∃ front, segments line = front ++ segments (q ++ back) ∧ ∀ s ∈ front, s = [] ∨ s = ['.'] := by
    have hhere : ∀ rest, segments ('.' :: '/' :: rest) = ['.'] :: segments rest := fun rest => by
      have hdot : segments ['.'] = [['.']] := segments_plain (by decide)
      have h := segments_append ['.'] rest
      rwa [hdot] at h
    rcases hdot with rfl | rfl <;> rcases hslash with rfl | rfl <;>
      simp only [List.nil_append, List.cons_append] at hline <;> rw [hline]
    · exact ⟨[], rfl, by simp⟩
    · exact ⟨[[]], segments_root _, by simp⟩
    · exact ⟨[['.']], hhere _, by simp⟩
    · exact ⟨[['.'], []], by rw [hhere, segments_root]; rfl, by simp⟩
  have hrest : ∃ rest, segments (q ++ back) = segments q ++ rest ∧ ∀ s ∈ rest, s = [] ∨ s = ['.'] := by
    cases back with
    | nil => exact ⟨[], by simp, by simp⟩
    | cons c back =>
      rw [hback c (List.mem_cons_self ..), segments_append]
      refine ⟨_, rfl, fun s hs => .inl ?_⟩
      refine List.eq_nil_iff_forall_not_mem.mpr fun c hc => ?_
      have hslash := hback c (List.mem_cons_of_mem _ (mem_of_mem_segment hs hc))
      subst hslash
      exact not_mem_segment hs hc
  obtain ⟨front, hfront, hskip⟩ := hfront
  obtain ⟨rest, hrest, hskip'⟩ := hrest
  exact ⟨front, rest, by rw [hfront, hrest, List.append_assoc], hskip, hskip'⟩

/-- Where the pattern names entries, docker reads the same one. -/
theorem cleaned_normalizePattern {line : List Char} (h : ∀ s ∈ segments (normalizePattern line), PlainSegment s) :
    cleaned line = normalizePattern line := by
  obtain ⟨front, back, hsegs, hfront, hback⟩ := segments_line line
  have hclean := clean_eq hsegs hfront hback h
  obtain ⟨_, _, _, hline, _⟩ := normalizePattern_eq line
  have hhead : (normalizePattern line).head? ≠ some '/' := by
    intro hslash
    obtain ⟨t, ht⟩ := List.head?_eq_some_iff.mp hslash
    rw [ht, segments_root] at h
    exact (h [] (List.mem_cons_self ..)).1 rfl
  have hne : normalizePattern line ≠ [] := by
    intro hnil
    rw [hnil] at h
    exact (h [] (by simp [segments])).1 rfl
  have hlineNe : line ≠ [] := by
    rw [hline]
    simp [hne]
  obtain ⟨c, t, hq⟩ := List.exists_cons_of_ne_nil hne
  rw [hq] at hclean hhead ⊢
  unfold cleaned
  rw [if_neg hlineNe, hclean]
  by_cases hroot : line.head? = some '/'
  · rw [if_pos hroot]
    rfl
  · rw [if_neg hroot]
    have hc : c ≠ '/' := fun hc => hhead (by rw [hc]; rfl)
    split
    · rename_i heq
      exact absurd (List.cons.inj heq).1 hc
    · rename_i heq
      exact absurd (List.cons.inj heq).1 hc
    · rfl

/-! ## Shapes -/

section Shapes

variable {p q base d s : List Char} {c : Char}

/-- A glob in the name of one entry. -/
def NameGlob (p : List Char) : Prop := isSuffixGlob p = true ∨ isStemGlob p = true

/-- A pattern without a double star. -/
def Flat (p : List Char) : Prop := hasGlob p = false ∨ NameGlob p

theorem isSafe_plain (h : isSafe c = true) : isGlobChar c = false ∧ c ≠ '/' ∧ c ≠ '\\' := by
  have hne : ∀ {c' : Char}, isSafe c' = false → c ≠ c' := by
    intro c' h' heq
    rw [heq, h'] at h
    cases h
  have hstar : c ≠ '*' := hne (by decide)
  have hmark : c ≠ '?' := hne (by decide)
  have hopen : c ≠ '[' := hne (by decide)
  have hclose : c ≠ ']' := hne (by decide)
  exact ⟨by simp [isGlobChar, hstar, hmark, hopen, hclose], hne (by decide), hne (by decide)⟩

theorem plain_of_safe {t : List Char} (h : ∀ c ∈ t, isSafe c = true) : ∀ c ∈ t, isGlobChar c = false ∧ c ≠ '\\' :=
  fun c hc => ⟨(isSafe_plain (h c hc)).1, (isSafe_plain (h c hc)).2.2⟩

/-- A star before or after safe characters. -/
theorem nameGlob_cases (h : NameGlob p) : ∃ t, t ≠ [] ∧ (∀ c ∈ t, isSafe c = true) ∧ (p = '*' :: t ∨ p = t ++ ['*']) := by
  cases h with
  | inl h =>
    unfold isSuffixGlob at h
    split at h
    · rename_i t
      rw [Bool.and_eq_true, List.all_eq_true] at h
      exact ⟨t, by simpa using h.1, h.2, .inl rfl⟩
    · cases h
  | inr h =>
    unfold isStemGlob at h
    rw [Bool.and_eq_true, Bool.and_eq_true, List.all_eq_true, decide_eq_true_iff] at h
    obtain ⟨⟨hlast, hne⟩, hsafe⟩ := h
    obtain ⟨t, rfl⟩ := List.getLast?_eq_some_iff.mp hlast
    rw [List.dropLast_concat] at hne hsafe
    exact ⟨t, by simpa using hne, hsafe, .inr rfl⟩

theorem nameGlob_hasGlob (h : NameGlob p) : hasGlob p = true := by
  obtain ⟨t, _, _, rfl | rfl⟩ := nameGlob_cases h <;> simp [hasGlob, isGlobChar]

theorem nameGlob_plain (h : NameGlob p) : PlainSegment p := by
  have hstar := nameGlob_hasGlob h
  refine ⟨?_, ?_, ?_⟩ <;> intro heq <;> rw [heq] at hstar <;> simp [hasGlob, isGlobChar] at hstar

theorem nameGlob_slash (h : NameGlob p) : '/' ∉ p := by
  intro hslash
  obtain ⟨t, _, hsafe, rfl | rfl⟩ := nameGlob_cases h
  · rcases List.mem_cons.mp hslash with h' | h'
    · cases h'
    · exact (isSafe_plain (hsafe _ h')).2.1 rfl
  · rcases List.mem_append.mp hslash with h' | h'
    · exact (isSafe_plain (hsafe _ h')).2.1 rfl
    · simp at h'

/-- The shapes, and what a double star stands before. -/
theorem supported_cases (h : isSupportedPattern p = true) :
    Flat p ∨ ∃ base, p = '*' :: '*' :: '/' :: base ∧ '/' ∉ base ∧ Flat base := by
  have hflat : ∀ {p : List Char}, (!hasGlob p || isSuffixGlob p || isStemGlob p) = true → Flat p := by
    intro p h
    rw [Bool.or_eq_true, Bool.or_eq_true, Bool.not_eq_true'] at h
    rcases h with (h | h) | h
    · exact .inl h
    · exact .inr (.inl h)
    · exact .inr (.inr h)
  unfold isSupportedPattern at h
  rw [Bool.or_eq_true] at h
  cases h with
  | inl h => exact .inl (hflat h)
  | inr h =>
    split at h
    · rename_i base
      rw [Bool.and_eq_true, Bool.not_eq_true'] at h
      have hslash : '/' ∉ base := by simpa using h.2
      refine .inr ⟨base, rfl, hslash, ?_⟩
      have hbase := h.1
      unfold isSupportedPattern at hbase
      rw [Bool.or_eq_true] at hbase
      cases hbase with
      | inl hbase => exact hflat hbase
      | inr hbase =>
        -- a second double star would have a slash
        split at hbase
        · simp at hslash
        · cases hbase
    · cases h

theorem matches_nameGlob (h : NameGlob p) : matchesPattern d p = (matchesSimpleGlob ((segments d).headD []) p && (segments d).length = 1) := by
  unfold matchesPattern
  split
  · exact absurd (nameGlob_slash h) (by simp)
  · rw [if_pos (nameGlob_hasGlob h)]

theorem matches_literal (h : hasGlob p = false) : matchesPattern d p = within d p := by
  unfold matchesPattern
  split
  · simp [hasGlob, isGlobChar] at h
  · rw [if_neg (by rw [h]; exact Bool.false_ne_true)]

/-- The last segment, alone or below a directory. -/
theorem last_segment (d : List Char) :
    ∃ name, (segments d).getLastD [] = name ∧ name ∈ segments d ∧ (d = name ∨ ∃ dir, d = dir ++ '/' :: name) := by
  obtain ⟨front, name, hsegs⟩ : ∃ front name, segments d = front ++ [name] :=
    ⟨_, _, (List.dropLast_append_getLast (segments_ne_nil d)).symm⟩
  refine ⟨name, by simp [hsegs], by simp [hsegs], ?_⟩
  have hd := joined_segments d
  rw [hsegs] at hd
  cases front with
  | nil => exact .inl (by simpa [joined] using hd.symm)
  | cons t front =>
    rw [joined_append (by simp) (by simp)] at hd
    exact .inr ⟨joined (t :: front), by simpa [joined] using hd.symm⟩

/-! ## The glob of the known shapes -/

variable {glob : List Char → List Char → Bool} (hglob : DockerGlob glob)
include hglob

theorem glob_append (hp : ∀ c ∈ p, isGlobChar c = false ∧ c ≠ '\\') : glob (p ++ q) s = true ↔ ∃ t, s = p ++ t ∧ glob q t = true := by
  induction p generalizing s with
  | nil => simp
  | cons c p ih =>
    obtain ⟨hc, hp⟩ := List.forall_mem_cons.mp hp
    rw [List.cons_append, hglob.plain c _ _ hc.1 hc.2]
    constructor
    · intro ⟨t, hs, ht⟩
      obtain ⟨u, hu, hq⟩ := (ih hp).mp ht
      exact ⟨u, by rw [hs, hu, List.cons_append], hq⟩
    · intro ⟨u, hs, hq⟩
      exact ⟨p ++ u, by rw [hs, List.cons_append], (ih hp).mpr ⟨u, rfl, hq⟩⟩

theorem glob_literal (hp : hasGlob p = false) (hback : '\\' ∉ p) : glob p s = true ↔ s = p := by
  have hplain : ∀ c ∈ p, isGlobChar c = false ∧ c ≠ '\\' := by
    intro c hc
    have hall := List.any_eq_false.mp hp c hc
    exact ⟨by simpa using hall, fun h => hback (h ▸ hc)⟩
  have happend := glob_append hglob (q := []) (s := s) hplain
  rw [List.append_nil] at happend
  rw [happend]
  constructor
  · intro ⟨t, hs, ht⟩
    rw [hs, (hglob.nil t).mp ht, List.append_nil]
  · intro hs
    exact ⟨[], by rw [hs, List.append_nil], (hglob.nil []).mpr rfl⟩

theorem glob_suffix {t : List Char} (hsafe : ∀ c ∈ t, isSafe c = true) :
    glob ('*' :: t) s = true ↔ '/' ∉ s ∧ matchesSimpleGlob s ('*' :: t) = true := by
  have hplain := plain_of_safe hsafe
  have hhead : t.head? ≠ some '*' := by
    intro h
    have := (hplain _ (List.mem_of_head? h)).1
    simp [isGlobChar] at this
  have hslash : '/' ∉ t := fun h => (isSafe_plain (hsafe _ h)).2.1 rfl
  have hliteral : ∀ v, glob t v = true ↔ v = t := fun v =>
    glob_literal hglob (List.any_eq_false.mpr fun c hc => by simp [(hplain c hc).1]) fun h => (hplain _ h).2 rfl
  rw [hglob.star t s hhead, matchesSimpleGlob, List.head?_cons, if_pos rfl, List.tail_cons, List.isSuffixOf_iff_suffix]
  constructor
  · intro ⟨u, v, hs, hu, hv⟩
    rw [(hliteral v).mp hv] at hs
    refine ⟨?_, u, hs.symm⟩
    rw [hs, List.mem_append]
    exact not_or.mpr ⟨hu, hslash⟩
  · intro ⟨hs, u, hu⟩
    exact ⟨u, t, hu.symm, fun h => hs (hu ▸ List.mem_append_left _ h), (hliteral t).mpr rfl⟩

theorem glob_stem {t : List Char} (hne : t ≠ []) (hsafe : ∀ c ∈ t, isSafe c = true) :
    glob (t ++ ['*']) s = true ↔ '/' ∉ s ∧ matchesSimpleGlob s (t ++ ['*']) = true := by
  have hplain := plain_of_safe hsafe
  have hhead : (t ++ ['*']).head? ≠ some '*' := by
    obtain ⟨c, t', rfl⟩ := List.exists_cons_of_ne_nil hne
    intro h
    rw [List.cons_append, List.head?_cons, Option.some_inj] at h
    have := (hplain c (List.mem_cons_self ..)).1
    simp [h, isGlobChar] at this
  have hslash : '/' ∉ t := fun h => (isSafe_plain (hsafe _ h)).2.1 rfl
  have hstar : ∀ v, glob ['*'] v = true ↔ '/' ∉ v := by
    intro v
    rw [hglob.star [] v (by simp)]
    constructor
    · intro ⟨u, w, hv, hu, hw⟩
      rwa [hv, (hglob.nil w).mp hw, List.append_nil]
    · intro hv
      exact ⟨v, [], (List.append_nil v).symm, hv, (hglob.nil []).mpr rfl⟩
  rw [glob_append hglob hplain, matchesSimpleGlob, if_neg hhead, if_pos (by simp), List.dropLast_concat, List.isPrefixOf_iff_prefix]
  constructor
  · intro ⟨v, hs, hv⟩
    refine ⟨?_, v, hs.symm⟩
    rw [hs, List.mem_append]
    exact not_or.mpr ⟨hslash, (hstar v).mp hv⟩
  · intro ⟨hs, v, hv⟩
    exact ⟨v, hv.symm, (hstar v).mpr fun h => hs (hv ▸ List.mem_append_right _ h)⟩

theorem glob_nameGlob (hp : NameGlob p) : glob p s = true ↔ '/' ∉ s ∧ matchesSimpleGlob s p = true := by
  obtain ⟨t, hne, hsafe, rfl | rfl⟩ := nameGlob_cases hp
  · exact glob_suffix hglob hsafe
  · exact glob_stem hglob hne hsafe

/-- What a pattern of one name matches, a double star before it matches below any directory. -/
theorem glob_deep (hslash : '/' ∉ base) (hflat : Flat base) (hne : base ≠ []) (hback : '\\' ∉ base) :
    glob ('*' :: '*' :: '/' :: base) s = true ↔ glob base ((segments s).getLastD []) = true := by
  have hname : ∀ {v}, glob base v = true → '/' ∉ v := by
    intro v hv
    cases hflat with
    | inl h =>
      rw [(glob_literal hglob h hback).mp hv]
      exact hslash
    | inr h => exact ((glob_nameGlob hglob h).mp hv).1
  rw [hglob.deep base s hne]
  constructor
  · intro h
    rcases h with h | ⟨dir, v, hs, h⟩
    · rw [segments_plain (hname h)]
      exact h
    · rw [hs, segments_append, segments_plain (hname h)]
      simpa using h
  · intro h
    obtain ⟨name, hname, _, hd⟩ := last_segment s
    rw [hname] at h
    rcases hd with hd | ⟨dir, hd⟩
    · exact .inl (hd ▸ h)
    · exact .inr ⟨dir, name, hd, h⟩

/-- A name below any directory, or a glob of one, matches from the context's root to there. -/
theorem matches_deep (hd : ContextPath d) (hslash : '/' ∉ base) (hflat : Flat base) (hback : '\\' ∉ base)
    (h : matchesPattern d ('*' :: '*' :: '/' :: base) = true) :
    PlainSegment base ∧ ∃ e, within d e = true ∧ glob ('*' :: '*' :: '/' :: base) e = true := by
  cases hflat with
  | inl hlit =>
    have hmem : base ∈ segments d := by
      unfold matchesPattern at h
      simpa [hlit] using h
    have hbase := hd base hmem
    obtain ⟨front, back, hsegs⟩ := List.append_of_mem hmem
    have hslashes : ∀ s ∈ front ++ [base], '/' ∉ s := by
      intro s hs
      have hmem : s ∈ segments d := by
        rw [hsegs]
        rcases List.mem_append.mp hs with hs | hs
        · exact List.mem_append_left _ hs
        · exact List.mem_append_right _ (by simp [List.mem_singleton.mp hs])
      exact not_mem_segment hmem
    have hjoined := segments_joined hslashes (by simp)
    refine ⟨hbase, joined (front ++ [base]), ?_, ?_⟩
    · rw [within_iff, hjoined, hsegs]
      exact ⟨back, by simp⟩
    · rw [glob_deep hglob hslash (.inl hlit) hbase.1 hback, hjoined]
      simpa using (glob_literal hglob hlit hback).mpr rfl
  | inr hname =>
    have hlast : matchesSimpleGlob ((segments d).getLastD []) base = true := by
      unfold matchesPattern at h
      simpa [nameGlob_hasGlob hname] using h
    obtain ⟨name, hlastName, hmem, _⟩ := last_segment d
    refine ⟨nameGlob_plain hname, d, within_self d, ?_⟩
    rw [glob_deep hglob hslash (.inr hname) (nameGlob_plain hname).1 hback, glob_nameGlob hglob hname]
    exact ⟨hlastName ▸ not_mem_segment hmem, hlast⟩

/-- A pattern that leaves a path out is docker's for the path, or a directory above. -/
theorem matches_glob (hd : ContextPath d) (hp : isSupportedPattern p = true) (hback : '\\' ∉ p) (h : matchesPattern d p = true) :
    (∀ s ∈ segments p, PlainSegment s) ∧ ∃ e, within d e = true ∧ glob p e = true := by
  rcases supported_cases hp with (hlit | hname) | ⟨base, rfl, hslash, hflat⟩
  · rw [matches_literal hlit] at h
    exact ⟨fun s hs => hd s ((within_iff.mp h).subset hs), p, h, (glob_literal hglob hlit hback).mpr rfl⟩
  · rw [matches_nameGlob hname, Bool.and_eq_true, decide_eq_true_iff] at h
    obtain ⟨name, hsegs⟩ := List.length_eq_one_iff.mp h.2
    have hmem : name ∈ segments d := by simp [hsegs]
    have heq : d = name := by
      have hdname := joined_segments d
      rw [hsegs] at hdname
      simpa [joined] using hdname.symm
    rw [segments_plain (nameGlob_slash hname)]
    refine ⟨fun s hs => List.mem_singleton.mp hs ▸ nameGlob_plain hname, d, within_self d, (glob_nameGlob hglob hname).mpr ?_⟩
    rw [heq]
    rw [hsegs] at h
    exact ⟨not_mem_segment hmem, h.1⟩
  · have hback' : '\\' ∉ base := fun h => hback (by simp [h])
    obtain ⟨hbase, hglobbed⟩ := matches_deep hglob hd hslash hflat hback' h
    refine ⟨fun s hs => ?_, hglobbed⟩
    rw [show '*' :: '*' :: '/' :: base = ['*', '*'] ++ '/' :: base from rfl, segments_append, segments_plain hslash,
      segments_plain (by decide)] at hs
    rcases List.mem_append.mp hs with hs | hs
    · rw [List.mem_singleton.mp hs]
      decide
    · exact List.mem_singleton.mp hs ▸ hbase

/-- Docker's pattern for a path leaves the path out. -/
theorem glob_matches (hp : isSupportedPattern p = true) (hback : '\\' ∉ p) (hlast : p.getLast? ≠ some '/') (h : glob p s = true) :
    matchesPattern s p = true := by
  rcases supported_cases hp with (hlit | hname) | ⟨base, rfl, hslash, hflat⟩
  · rw [matches_literal hlit, (glob_literal hglob hlit hback).mp h]
    exact within_self p
  · have hs := (glob_nameGlob hglob hname).mp h
    rw [matches_nameGlob hname, segments_plain hs.1]
    simpa using hs.2
  · have hne : base ≠ [] := by
      intro hnil
      rw [hnil] at hlast
      exact hlast rfl
    have hback' : '\\' ∉ base := fun h => hback (by simp [h])
    have hbase := (glob_deep hglob hslash hflat hne hback').mp h
    obtain ⟨name, hname, hmem, _⟩ := last_segment s
    unfold matchesPattern
    cases hflat with
    | inl hlit =>
      simp only [hlit, Bool.false_eq_true, if_false]
      rw [(glob_literal hglob hlit hback').mp hbase] at hname
      rw [List.contains_iff_mem, hname]
      exact hmem
    | inr hglobName =>
      simp only [nameGlob_hasGlob hglobName, if_true]
      exact ((glob_nameGlob hglob hglobName).mp hbase).2

end Shapes

/-! ## Reading the lines -/

section Reading

variable {q raw target : List Char} {lines : List (List Char)} {st : IgnoreLines} {content path : List Char}

/-- The line that a pattern is read from. -/
structure PatternLine (raw q : List Char) : Prop where
  nonempty : trim raw ≠ []
  comment : ∀ rest, trim raw ≠ '#' :: rest
  negation : ∀ rest, trim raw ≠ '!' :: rest
  normalized : q = normalizePattern (trim raw)
  supported : isSupportedPattern q = true

theorem read_patterns (h : q ∈ (st.read raw).patterns) : q ∈ st.patterns ∨ PatternLine raw q := by
  unfold IgnoreLines.read at h
  split at h
  · exact .inl h
  · exact .inl h
  · simp only at h
    split at h
    · exact .inl h
    · split at h <;> exact .inl h
  · rename_i line hnil hcomment hnegation
    simp only at h
    split at h
    · exact .inl h
    · rename_i hkept
      rcases List.mem_append.mp h with h | h
      · exact .inl h
      · rw [List.mem_singleton] at h
        subst h
        refine .inr ⟨hnil, hcomment, hnegation, rfl, ?_⟩
        simpa using (not_or.mp hkept).2

theorem foldl_patterns (h : q ∈ (lines.foldl IgnoreLines.read st).patterns) : q ∈ st.patterns ∨ ∃ raw ∈ lines, PatternLine raw q := by
  induction lines generalizing st with
  | nil => exact .inl h
  | cons raw lines ih =>
    rcases ih h with h | ⟨raw', hraw, hline⟩
    · rcases read_patterns h with h | hline
      · exact .inl h
      · exact .inr ⟨raw, List.mem_cons_self .., hline⟩
    · exact .inr ⟨raw', List.mem_cons_of_mem _ hraw, hline⟩

theorem readLines_pattern (h : q ∈ (readLines content).patterns) : ∃ raw ∈ content.splitOn '\n', PatternLine raw q := by
  rcases foldl_patterns h with h | h
  · cases h
  · exact h

/-- What no line undoes, and one line brings about. -/
theorem foldl_holds {P : IgnoreLines → Prop} (hkeep : ∀ st raw, P st → P (st.read raw)) (hraw : raw ∈ lines)
    (hhere : ∀ st : IgnoreLines, P (st.read raw)) : P (lines.foldl IgnoreLines.read st) := by
  have hrest : ∀ (lines : List (List Char)) (st : IgnoreLines), P st → P (lines.foldl IgnoreLines.read st) := by
    intro lines
    induction lines with
    | nil => exact fun _ h => h
    | cons raw lines ih => exact fun st h => ih _ (hkeep st raw h)
  obtain ⟨before, after, rfl⟩ := List.append_of_mem hraw
  rw [List.foldl_append, List.foldl_cons]
  exact hrest _ _ (hhere _)

theorem readLines_wildcard (hraw : raw ∈ content.splitOn '\n') (htarget : trim raw = '!' :: target)
    (hwild : hasGlob (normalizePattern target) = true) : (readLines content).wildcardNegation = true := by
  refine foldl_holds (P := fun st => st.wildcardNegation = true) (fun st raw h => ?_) hraw fun st => ?_
  · unfold IgnoreLines.read
    split
    · exact h
    · exact h
    · simp only
      split
      · rfl
      · split <;> exact h
    · simp only
      split <;> exact h
  · unfold IgnoreLines.read
    rw [htarget]
    simp [hwild]

theorem readLines_negation (hraw : raw ∈ content.splitOn '\n') (htarget : trim raw = '!' :: target)
    (hplain : hasGlob (normalizePattern target) = false) (hne : normalizePattern target ≠ []) :
    normalizePattern target ∈ (readLines content).negations := by
  refine foldl_holds (P := fun st => normalizePattern target ∈ st.negations) (fun st raw h => ?_) hraw fun st => ?_
  · unfold IgnoreLines.read
    split
    · exact h
    · exact h
    · simp only
      split
      · exact h
      · split
        · exact List.mem_append_left _ h
        · exact h
    · simp only
      split <;> exact h
  · unfold IgnoreLines.read
    rw [htarget]
    simp [hplain, hne]

/-- What the upload keeps of the lines it reads. -/
theorem mem_parseDockerignore : q ∈ parseDockerignore content ↔ (readLines content).wildcardNegation = false ∧
    q ∈ (readLines content).patterns ∧ ((readLines content).negations ≠ [] → hasGlob q = false) ∧
      ∀ n ∈ (readLines content).negations, shouldExcludeFromContext n [q] = false := by
  unfold parseDockerignore
  cases hwild : (readLines content).wildcardNegation with
  | true => simp [hwild]
  | false =>
    simp only [hwild, Bool.false_eq_true, if_false, List.mem_filter, true_and, Bool.and_eq_true, Bool.not_eq_true',
      Bool.and_eq_false_iff, List.any_eq_false, Bool.not_eq_true]
    refine and_congr_right fun _ => and_congr_left fun _ => ?_
    by_cases hn : (readLines content).negations = [] <;> simp [hn]

/-- Lines of unknown shapes make no difference. -/
theorem parse_skips (content : List Char) :
    parseDockerignore (['\n'].intercalate ((content.splitOn '\n').filter (!isUnsupported ·))) = parseDockerignore content := by
  have hread : ∀ (lines : List (List Char)) (st : IgnoreLines),
      (lines.filter (!isUnsupported ·)).foldl IgnoreLines.read st = lines.foldl IgnoreLines.read st := by
    intro lines
    induction lines with
    | nil => exact fun _ => rfl
    | cons raw lines ih =>
      intro st
      by_cases hraw : isUnsupported raw = true
      · rw [List.filter_cons_of_neg (by simp [hraw]), ih, List.foldl_cons]
        congr 1
        unfold isUnsupported at hraw
        unfold IgnoreLines.read
        split at hraw
        · cases hraw
        · cases hraw
        · cases hraw
        · rename_i hnil hcomment hnegation
          rw [Bool.not_eq_true'] at hraw
          simp [hraw]
      · rw [List.filter_cons_of_pos (by simpa using hraw), List.foldl_cons, List.foldl_cons, ih]
  have hlines : readLines (['\n'].intercalate ((content.splitOn '\n').filter (!isUnsupported ·))) = readLines content := by
    unfold readLines
    cases hkept : (content.splitOn '\n').filter (!isUnsupported ·) with
    | nil =>
      rw [← hread (content.splitOn '\n'), hkept]
      rfl
    | cons raw lines =>
      rw [List.splitOn_intercalate '\n' (fun l hl => ?_) (by simp), ← hkept, hread]
      rw [← hkept] at hl
      exact not_mem_of_mem_splitOn (List.mem_filter.mp hl).1
  unfold parseDockerignore
  rw [hlines]

end Reading

/-! ## The last rule that matches -/

section Rules

variable {glob : List Char → List Char → Bool} {path : List Char} {rs : List Rule}

theorem foldl_excludes (hneg : ∀ r ∈ rs, r.negated = true → r.hits glob path = false) (out : Bool) :
    rs.foldl (fun out r => if r.hits glob path then !r.negated else out) out = true ↔ out = true ∨ ∃ r ∈ rs, r.hits glob path = true := by
  induction rs generalizing out with
  | nil => simp
  | cons r rs ih =>
    rw [List.foldl_cons, ih fun r hr => hneg r (List.mem_cons_of_mem _ hr)]
    by_cases hr : r.hits glob path = true
    · have hnegated : r.negated = false := by
        by_contra h
        rw [hneg r (List.mem_cons_self ..) (by simpa using h)] at hr
        cases hr
      simp [hr, hnegated]
    · simp [hr]

/-- Where no negated rule matches, one that matches is enough. -/
theorem excludes_iff (hneg : ∀ r ∈ rs, r.negated = true → r.hits glob path = false) :
    dockerExcludes glob rs path = true ↔ ∃ r ∈ rs, r.hits glob path = true := by
  unfold dockerExcludes
  rw [foldl_excludes hneg]
  simp

theorem excluded_hit (h : dockerExcludes glob rs path = true) : ∃ r ∈ rs, r.negated = false ∧ r.hits glob path = true := by
  unfold dockerExcludes at h
  have hrun : ∀ (rs : List Rule) (out : Bool),
      rs.foldl (fun out r => if r.hits glob path then !r.negated else out) out = true →
        out = true ∨ ∃ r ∈ rs, r.negated = false ∧ r.hits glob path = true := by
    intro rs
    induction rs with
    | nil => exact fun out h => .inl h
    | cons r rs ih =>
      intro out h
      rcases ih _ h with h | ⟨r', hr', hhit⟩
      · by_cases hr : r.hits glob path = true
        · simp only [if_pos hr, Bool.not_eq_true'] at h
          exact .inr ⟨r, List.mem_cons_self .., h, hr⟩
        · simp only [if_neg hr] at h
          exact .inl h
      · exact .inr ⟨r', List.mem_cons_of_mem _ hr', hhit⟩
  rcases hrun rs false h with h | h
  · cases h
  · exact h

end Rules

/-! ## The upload and the build -/

section Context

variable {glob : List Char → List Char → Bool} {content path d q raw : List Char}

/-- A pattern line of the upload is docker's line too. -/
theorem PatternLine.rule (h : PatternLine raw q) (hplain : ∀ s ∈ segments q, PlainSegment s) : dockerRule raw = some ⟨false, q⟩ := by
  have hcomment : raw.head? ≠ some '#' := by
    intro hhash
    obtain ⟨t, rfl⟩ := List.head?_eq_some_iff.mp hhash
    obtain ⟨t', ht'⟩ := trim_cons (c := '#') (by decide) t
    exact h.comment t' ht'
  have hclean : cleaned (trim raw) = q := by
    rw [h.normalized] at hplain ⊢
    exact cleaned_normalizePattern hplain
  unfold dockerRule
  rw [if_neg hcomment]
  split
  · exact absurd ‹_› h.nonempty
  · exact absurd ‹_› (h.negation _)
  · rw [hclean]

theorem PatternLine.mem_content {c : Char} (h : PatternLine raw q) (hraw : raw ∈ content.splitOn '\n') (hc : c ∈ q) : c ∈ content := by
  rw [h.normalized] at hc
  exact mem_of_mem_splitOn hraw (mem_of_mem_trim (mem_of_mem_normalizePattern hc))

theorem ContextPath.within (hpath : ContextPath path) (h : Paths.within path d = true) : ContextPath d :=
  fun s hs => hpath s ((within_iff.mp h).subset hs)

/-- No `!` line includes again what the upload leaves out. -/
theorem negated_misses (hglob : DockerGlob glob) (hback : '\\' ∉ content) (hneg : NegationsPlain content) (hpath : ContextPath path)
    (hq : q ∈ parseDockerignore content) (hd : within path d = true) (hmatch : matchesPattern d q = true)
    {r : Rule} (hr : r ∈ rules content) (hnegated : r.negated = true) : r.hits glob path = false := by
  obtain ⟨hwild, hpattern, hliteral, hkept⟩ := mem_parseDockerignore.mp hq
  obtain ⟨raw, hraw, hrule⟩ := List.mem_filterMap.mp hr
  obtain ⟨target, htarget, rfl⟩ : ∃ target, trim raw = '!' :: target ∧ r = ⟨true, cleaned (trim target)⟩ := by
    unfold dockerRule at hrule
    split at hrule
    · cases hrule
    · split at hrule
      · cases hrule
      · exact ⟨_, ‹_›, (Option.some_inj.mp hrule).symm⟩
      · rw [← Option.some_inj.mp hrule] at hnegated
        cases hnegated
  have hplain : hasGlob (normalizePattern target) = false := by
    by_contra h
    rw [readLines_wildcard hraw htarget (by simpa using h)] at hwild
    cases hwild
  obtain ⟨hclean, habove⟩ := hneg raw hraw target (by simp [negationTarget, htarget]) hplain
  have hback' : '\\' ∉ normalizePattern target := by
    intro hc
    refine hback (mem_of_mem_splitOn hraw (mem_of_mem_trim ?_))
    rw [htarget]
    exact List.mem_cons_of_mem _ (mem_of_mem_normalizePattern hc)
  by_contra hhit
  obtain ⟨e, he, hmatchE⟩ := List.any_eq_true.mp (Bool.eq_true_of_not_eq_false hhit)
  rw [hclean] at hmatchE
  -- the target is the path or a directory above
  have htop : within path (normalizePattern target) = true := by
    rw [← (glob_literal hglob hplain hback').mp hmatchE]
    exact mem_ups.mp he
  have hne : normalizePattern target ≠ [] := by
    intro hnil
    rw [hnil] at htop
    exact (hpath.within htop [] (by simp [segments])).1 rfl
  have hmem := readLines_negation hraw htarget hplain hne
  have hq : hasGlob q = false := hliteral (List.ne_nil_of_mem hmem)
  rw [matches_literal hq] at hmatch
  have hkept := hkept _ hmem
  have hnot : within (normalizePattern target) q = false := by
    have := (List.any_eq_false.mp hkept) q (by simp)
    rwa [matches_literal hq, Bool.not_eq_true] at this
  rcases within_total htop (within_trans hd hmatch) with h | h
  · rw [h] at hnot
    cases hnot
  · rw [habove q hpattern h, within_self] at hnot
    cases hnot

theorem excluded_pattern (hgit : within path git = false) (hd : d ∈ ups path)
    (h : shouldExcludeFromContext d (parseDockerignore content) = true) : ∃ q ∈ parseDockerignore content, matchesPattern d q = true := by
  obtain ⟨q, hq, hmatch⟩ := List.any_eq_true.mp h
  rcases List.mem_cons.mp hq with rfl | hq
  · rw [matches_literal (by decide)] at hmatch
    rw [within_trans (mem_ups.mp hd) hmatch] at hgit
    cases hgit
  · exact ⟨q, hq, hmatch⟩

/-- What the upload leaves out docker leaves out too. -/
theorem excluded_sound (hglob : DockerGlob glob) (hback : '\\' ∉ content) (hneg : NegationsPlain content) (hpath : ContextPath path)
    (hgit : within path git = false) (hd : d ∈ ups path) (h : shouldExcludeFromContext d (parseDockerignore content) = true) :
    dockerExcludes glob (rules content) path = true := by
  obtain ⟨q, hq, hmatch⟩ := excluded_pattern hgit hd h
  have hup := mem_ups.mp hd
  rw [excludes_iff fun r hr => negated_misses hglob hback hneg hpath hq hup hmatch hr]
  obtain ⟨raw, hraw, hline⟩ := readLines_pattern (mem_parseDockerignore.mp hq).2.1
  have hbackQ : '\\' ∉ q := fun hc => hback (hline.mem_content hraw hc)
  obtain ⟨hplain, e, he, hglobE⟩ := matches_glob hglob (hpath.within hup) hline.supported hbackQ hmatch
  exact ⟨⟨false, q⟩, List.mem_filterMap.mpr ⟨raw, hraw, hline.rule hplain⟩,
    List.any_eq_true.mpr ⟨e, mem_ups.mpr (within_trans hup he), hglobE⟩⟩

/-- What docker leaves out by a pattern of the upload the upload leaves out. -/
theorem excluded_complete (hglob : DockerGlob glob) (hback : '\\' ∉ content) (hhonoured : Honoured content)
    (h : dockerExcludes glob (rules content) path = true) :
    ∃ d ∈ ups path, shouldExcludeFromContext d (parseDockerignore content) = true := by
  obtain ⟨r, hr, hnegated, hhit⟩ := excluded_hit h
  obtain ⟨e, he, hmatch⟩ := List.any_eq_true.mp hhit
  have hq := hhonoured r hr hnegated
  obtain ⟨raw, hraw, hline⟩ := readLines_pattern (mem_parseDockerignore.mp hq).2.1
  have hbackQ : '\\' ∉ r.pattern := fun hc => hback (hline.mem_content hraw hc)
  have hlast : r.pattern.getLast? ≠ some '/' := by
    rw [hline.normalized]
    exact getLast_normalizePattern _
  exact ⟨e, he, List.any_eq_true.mpr ⟨r.pattern, List.mem_cons_of_mem _ hq, glob_matches hglob hline.supported hbackQ hlast hmatch⟩⟩

/-- A path with nothing of the kept ones under its directories is packed as the patterns say. -/
theorem packs_iff {keep patterns : List (List Char)} (hkeep : ∀ d ∈ ups path, ∀ k ∈ keep, within k d = false) :
    packs keep patterns path = true ↔ ¬∃ d ∈ ups path, shouldExcludeFromContext d patterns = true := by
  unfold packs
  rw [List.all_eq_true]
  push Not
  refine forall₂_congr fun d hd => ?_
  have hnone : keep.any (within · d) = false := List.any_eq_false.mpr fun k hk => by simp [hkeep d hd k hk]
  simp [packFilter, hnone]

/-- Docker finds every file it keeps in the packed context. -/
theorem packs_of_kept (hglob : DockerGlob glob) (hback : '\\' ∉ content) (hneg : NegationsPlain content) (hpath : ContextPath path)
    (hgit : within path git = false) (keep : List (List Char)) (h : dockerExcludes glob (rules content) path = false) :
    packs keep (parseDockerignore content) path = true := by
  refine List.all_eq_true.mpr fun d hd => ?_
  unfold packFilter
  cases hexcluded : shouldExcludeFromContext d (parseDockerignore content) with
  | false => simp
  | true =>
    rw [excluded_sound hglob hback hneg hpath hgit hd hexcluded] at h
    cases h

/-- The upload leaves out no path that docker keeps; of a file whose every pattern it keeps, it
leaves out, with a directory or alone, just what docker does; and it reads a file with lines of
unknown shapes as one without them. -/
theorem context_excluded (hglob : DockerGlob glob) (hback : '\\' ∉ content) (hneg : NegationsPlain content) (hpath : ContextPath path)
    (hgit : within path git = false) :
    (shouldExcludeFromContext path (parseDockerignore content) = true → dockerExcludes glob (rules content) path = true) ∧
      (Honoured content → ((∃ d ∈ ups path, shouldExcludeFromContext d (parseDockerignore content) = true) ↔
        dockerExcludes glob (rules content) path = true)) ∧
      parseDockerignore (['\n'].intercalate ((content.splitOn '\n').filter (!isUnsupported ·))) = parseDockerignore content := by
  refine ⟨?_, fun hhonoured => ⟨?_, ?_⟩, parse_skips content⟩
  · exact excluded_sound hglob hback hneg hpath hgit (mem_ups.mpr (within_self path))
  · intro ⟨d, hd, h⟩
    exact excluded_sound hglob hback hneg hpath hgit hd h
  · exact excluded_complete hglob hback hhonoured

end Context

/-! ### Globs of stars, question marks and plain characters -/

/-- With a star's part of the text, up to a slash. -/
def starMatch (rest : List Char → Bool) : List Char → Bool
  | [] => rest []
  | c :: s => rest (c :: s) || (c ≠ '/' && starMatch rest s)

/-- Below some directory. -/
def belowMatch (rest : List Char → Bool) : List Char → Bool
  | [] => false
  | c :: s => (c = '/' && rest s) || belowMatch rest s

def globMatch : List Char → List Char → Bool
  | [], s => s.isEmpty
  | '*' :: '*' :: '/' :: p, s => globMatch p s || belowMatch (globMatch p) s
  | '*' :: p, s => starMatch (globMatch p) s
  | _ :: _, [] => false
  | '?' :: p, d :: s => d ≠ '/' && globMatch p s
  | c :: p, d :: s => c = d && globMatch p s

theorem starMatch_iff {rest : List Char → Bool} {s : List Char} :
    starMatch rest s = true ↔ ∃ u v, s = u ++ v ∧ '/' ∉ u ∧ rest v = true := by
  induction s with
  | nil =>
    constructor
    · intro h
      exact ⟨[], [], rfl, by simp, h⟩
    · intro ⟨u, v, hs, _, h⟩
      rw [(List.append_eq_nil_iff.mp hs.symm).2] at h
      exact h
  | cons c s ih =>
    rw [starMatch, Bool.or_eq_true, Bool.and_eq_true, ih, decide_eq_true_iff]
    constructor
    · intro h
      rcases h with h | ⟨hc, u, v, hs, hu, h⟩
      · exact ⟨[], c :: s, rfl, by simp, h⟩
      · exact ⟨c :: u, v, by rw [hs, List.cons_append], by simp [hu, Ne.symm hc], h⟩
    · intro ⟨u, v, hs, hu, h⟩
      cases u with
      | nil => exact .inl (by rwa [hs])
      | cons d u =>
        obtain ⟨hc, htail⟩ := List.cons.inj hs
        rw [List.mem_cons, not_or] at hu
        exact .inr ⟨hc ▸ Ne.symm hu.1, u, v, htail, hu.2, h⟩

theorem belowMatch_iff {rest : List Char → Bool} {s : List Char} :
    belowMatch rest s = true ↔ ∃ u v, s = u ++ '/' :: v ∧ rest v = true := by
  induction s with
  | nil => simp [belowMatch]
  | cons c s ih =>
    rw [belowMatch, Bool.or_eq_true, Bool.and_eq_true, ih, decide_eq_true_iff]
    constructor
    · intro h
      rcases h with ⟨hc, h⟩ | ⟨u, v, hs, h⟩
      · exact ⟨[], s, by rw [hc, List.nil_append], h⟩
      · exact ⟨c :: u, v, by rw [hs, List.cons_append], h⟩
    · intro ⟨u, v, hs, h⟩
      cases u with
      | nil =>
        obtain ⟨hc, hs⟩ := List.cons.inj hs
        exact .inl ⟨hc, hs ▸ h⟩
      | cons d u => exact .inr ⟨u, v, (List.cons.inj hs).2, h⟩

theorem globMatch_dockerGlob : DockerGlob globMatch where
  nil s := by simp [globMatch]
  plain c p s hc _ := by
    have hstar : c ≠ '*' := by
      intro h
      rw [h] at hc
      cases hc
    have hmark : c ≠ '?' := by
      intro h
      rw [h] at hc
      cases hc
    cases s with
    | nil => simp [globMatch, hstar]
    | cons d s =>
      have hstep : globMatch (c :: p) (d :: s) = (decide (c = d) && globMatch p s) := by
        conv_lhs => unfold globMatch
        split <;> simp_all
      rw [hstep, Bool.and_eq_true, decide_eq_true_iff]
      constructor
      · intro h
        exact ⟨s, by rw [h.1], h.2⟩
      · intro ⟨t, ht, h⟩
        obtain ⟨rfl, rfl⟩ := List.cons.inj ht
        exact ⟨rfl, h⟩
  star p s hp := by
    rw [← starMatch_iff]
    cases p with
    | nil => rw [globMatch]; simp
    | cons c p =>
      have hc : c ≠ '*' := fun h => hp (by rw [h]; rfl)
      rw [globMatch]
      intro q hq
      exact hc (List.cons.inj hq).1
  deep p s _ := by
    rw [globMatch, Bool.or_eq_true, belowMatch_iff]

/-- A comment, two directories, and one included that no pattern leaves out. -/
def buildFile : List Char := "# build\nnode_modules\n/dist/\n!src\n".toList

theorem context_excluded_build :
    shouldExcludeFromContext "dist/a".toList (parseDockerignore buildFile) = true ∧ Honoured buildFile ∧
      dockerExcludes globMatch (rules buildFile) "dist/a".toList = true ∧
      (shouldExcludeFromContext "dist/a".toList (parseDockerignore buildFile) = true →
        dockerExcludes globMatch (rules buildFile) "dist/a".toList = true) := by
  have hhonoured : Honoured buildFile := by
    unfold Honoured
    decide +kernel
  have hneg : NegationsPlain buildFile := by
    unfold NegationsPlain
    decide +kernel
  have hpath : ContextPath "dist/a".toList := by
    unfold ContextPath
    decide +kernel
  have hsound := (context_excluded globMatch_dockerGlob (by decide +kernel) hneg hpath (by decide +kernel)).1
  exact ⟨by decide +kernel, hhonoured, by decide +kernel, hsound⟩

/-- A file below a directory that a star matches is not left out by itself, and a pattern of an
unknown shape is as good as no line. -/
theorem star_directory :
    (¬∀ content path : List Char, Honoured content → NegationsPlain content → ContextPath path → within path git = false →
      (shouldExcludeFromContext path (parseDockerignore content) = true ↔ dockerExcludes globMatch (rules content) path = true)) ∧
      parseDockerignore "a/*.txt".toList = parseDockerignore [] ∧
      dockerExcludes globMatch (rules "a/*.txt".toList) "a/x.txt".toList = true ∧
      dockerExcludes globMatch (rules []) "a/x.txt".toList = false := by
  refine ⟨fun h => ?_, by decide +kernel⟩
  have hhonoured : Honoured "*.pem".toList := by
    unfold Honoured
    decide +kernel
  have hneg : NegationsPlain "*.pem".toList := by
    unfold NegationsPlain
    decide +kernel
  have hpath : ContextPath "certs.pem/key".toList := by
    unfold ContextPath
    decide +kernel
  have hdocker : dockerExcludes globMatch (rules "*.pem".toList) "certs.pem/key".toList = true := by decide +kernel
  have hupload : shouldExcludeFromContext "certs.pem/key".toList (parseDockerignore "*.pem".toList) = false := by decide +kernel
  rw [(h _ _ hhonoured hneg hpath (by decide +kernel)).mpr hdocker] at hupload
  cases hupload

end LaunchPad.Dockerignore
