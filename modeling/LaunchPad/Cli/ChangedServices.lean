/-
  LaunchPad.Cli.ChangedServices — `deploy --changed <ref>`: the services whose build inputs
  differ from a commit (`deploy/changed-services.ts`), from what git prints of the changed and
  the untracked files.

  Git prints names, one on a line: of a rename it detects the new name only, and a name with
  anything but printable ASCII, or with a quote or a backslash, in quotes with escapes. The
  lines are compared as they are, so a file that was moved out of a build context, and one
  under an unusual name, may be in no context, and the service goes on with its old image.

  Proved:
  - `splitLines_printed`: the lines that are read are the names that git prints, trimmed.
  - `shows_iff`: a plain name is in the inputs of a service as the file is.
  - `hidden_quoted`: a quoted name is in no inputs but of the whole repository.
  - `plain_selected`: a service is selected for a file in its inputs that differs, has a plain
    name, and is not the old name of a rename.
  - `changed_selects_iff`: every affected service is selected exactly when, for each, some
    name that git prints shows one of that name.

  Names are texts in UTF-8; git's rename detection is a parameter.
-/
import LaunchPad.Lib.Paths
import LaunchPad.Lib.Utf8Lines
import LaunchPad.Cli.Dotenv

namespace LaunchPad.ChangedServices

open Lib.Paths
open Lib (utf8Encode)
open Dotenv (trim trimStart trimEnd trimStart_plain trim_eq mem_of_mem_trim)

/-! ## The selection -/

/-- What a service's entry of the config says of its build. -/
structure Service where
  name : String
  context : List Char
  dockerfile : List Char
  deriving DecidableEq, Repr

/-- A service's build inputs, from the root of the repository. -/
structure ServiceBuildPaths where
  name : String
  /-- Empty for the root. -/
  contextDir : List Char
  dockerfile : List Char
  deriving DecidableEq, Repr

def toSlash (p : List Char) : List Char := p.map fun c => if c = '\\' then '/' else c

def toRepoRel (repoRoot abs : List Char) : List Char :=
  let rel := relative repoRoot abs
  if rel = ['.'] then [] else toSlash rel

def isWithin (path dir : List Char) : Bool := dir = [] || within path dir

def Service.buildPaths (configDir repoRoot : List Char) (s : Service) : ServiceBuildPaths where
  name := s.name
  contextDir := toRepoRel repoRoot (resolve configDir s.context)
  dockerfile := toRepoRel repoRoot (resolve configDir s.dockerfile)

def buildServiceBuildPaths (services : List Service) (configDir repoRoot : List Char) : List ServiceBuildPaths :=
  services.map (·.buildPaths configDir repoRoot)

/-- A changed path is one of the service's inputs. -/
def ServiceBuildPaths.builds (s : ServiceBuildPaths) (p : List Char) : Bool := p = s.dockerfile || isWithin p s.contextDir

def selectChangedServices (services : List ServiceBuildPaths) (changedPaths : List (List Char)) : List String :=
  let paths := (changedPaths.map toSlash).filter (· ≠ [])
  (services.filter fun s => paths.any s.builds).map (·.name)

def splitLines (out : List Char) : List (List Char) := ((out.splitOn '\n').map trim).filter (· ≠ [])

/-- `/^[0-9a-f]{40}(?:[0-9a-f]{24})?$/`. -/
def isSha (sha : List Char) : Bool :=
  (sha.length = 40 || sha.length = 64) && sha.all fun c => c.isDigit || ('a' ≤ c && c ≤ 'f')

/-- The commands that are given to git. -/
inductive GitArgs where
  /-- `rev-parse --verify --quiet <rev>` -/
  | revParse (rev : List Char)
  /-- `diff --name-only <sha> --` -/
  | diff (sha : List Char)
  /-- `ls-files --others --exclude-standard --` -/
  | lsFiles
  deriving DecidableEq, Repr

/-- What git prints; `none` for a failure. -/
abbrev GitRunner := GitArgs → Option (List Char)

inductive ChangedError where
  | option (ref : List Char)
  | unresolved (ref : List Char)
  | git (args : GitArgs)
  deriving DecidableEq, Repr

/-- The text of the error; a failure of git itself has its own. -/
def ChangedError.message : ChangedError → Option String
  | option ref => some ("git ref \"" ++ String.ofList ref ++ "\" must not start with \"-\" (refusing a possible git option)")
  | unresolved ref =>
    some ("git ref \"" ++ String.ofList ref ++ "\" did not resolve — pass a branch, tag, or commit to compare against " ++
      "(e.g. --changed origin/main or --changed HEAD~1)")
  | git _ => none

/-- `${ref}^{commit}`. -/
def asCommit (ref : List Char) : List Char := ref ++ "^\x7bcommit\x7d".toList

/-- The set of changed paths, in the order that they are added. -/
def collectChangedPaths (git : GitRunner) (ref : List Char) : Except ChangedError (List (List Char)) :=
  if ref.head? = some '-' then .error (.option ref)
  else
    match git (.revParse (asCommit ref)) with
    | none => .error (.unresolved ref)
    | some out =>
      let sha := trim out
      if isSha sha = false then .error (.unresolved ref)
      else
        match git (.diff sha) with
        | none => .error (.git (.diff sha))
        | some diff =>
          match git .lsFiles with
          | none => .error (.git .lsFiles)
          | some untracked => .ok ((splitLines diff ++ splitLines untracked).map toSlash).eraseDups

/-! ## Git -/

/-- A file's path in the repository. -/
structure RepoPath where
  segs : List (List Char)
  nonempty : segs ≠ []
  entries : ∀ s ∈ segs, PlainSegment s ∧ '/' ∉ s
  deriving DecidableEq

def RepoPath.name (p : RepoPath) : List Char := joined p.segs

abbrev Tree (β : Type) := List (RepoPath × β)

def Tree.blob {β : Type} (t : Tree β) (p : RepoPath) : Option β := List.lookup p t

/-- A file that git takes for another one's new place. -/
structure Rename where
  old : RepoPath
  new : RepoPath
  deriving DecidableEq

structure GitRepo (β : Type) where
  revParse : List Char → Option (List Char)
  /-- The files of a commit, by its object id. -/
  commit : List Char → Option (Tree β)
  /-- The tracked files, as they are in the working tree. -/
  tracked : Tree β
  /-- The untracked files, but for ignored ones. -/
  others : Tree β
  renames : Tree β → List Rename
  /-- From a file that is gone to a new one. -/
  moved : ∀ base, ∀ r ∈ renames base, (base.blob r.old).isSome = true ∧ tracked.blob r.old = none ∧
    base.blob r.new = none ∧ (tracked.blob r.new).isSome = true

/-- A character that is printed in quotes, by `core.quotePath`. -/
def isUnusual (c : Char) : Bool := c.toNat < 32 || 127 ≤ c.toNat || c = '"' || c = '\\'

def octal (b : Nat) : List Char := [b / 64 % 8, b / 8 % 8, b % 8].map fun d => Char.ofNat (48 + d)

def escapeByte (b : Nat) : List Char :=
  if b = 7 then ['\\', 'a']
  else if b = 8 then ['\\', 'b']
  else if b = 9 then ['\\', 't']
  else if b = 10 then ['\\', 'n']
  else if b = 11 then ['\\', 'v']
  else if b = 12 then ['\\', 'f']
  else if b = 13 then ['\\', 'r']
  else if b = 34 then ['\\', '"']
  else if b = 92 then ['\\', '\\']
  else if b < 32 ∨ 127 ≤ b then '\\' :: octal b
  else [Char.ofNat b]

def quotePath (name : List Char) : List Char :=
  if name.any isUnusual then '"' :: (utf8Encode name).flatMap (fun b => escapeByte b.toNat) ++ ['"'] else name

def printed (paths : List RepoPath) : List Char := ['\n'].intercalate (paths.map fun p => quotePath p.name)

section Repo

variable {β : Type} [DecidableEq β] (repo : GitRepo β)

/-- The tracked files that differ from the commit's. -/
def GitRepo.changed (base : Tree β) : List RepoPath :=
  ((base ++ repo.tracked).map (·.1)).eraseDups.filter fun p => base.blob p ≠ repo.tracked.blob p

/-- Of a rename the new name only. -/
def GitRepo.diffNames (base : Tree β) : List RepoPath := (repo.changed base).filter fun p => !(repo.renames base).any (·.old = p)

def GitRepo.run : GitRunner
  | .revParse rev => repo.revParse rev
  | .diff sha => (repo.commit sha).map fun base => printed (repo.diffNames base)
  | .lsFiles => some (printed (repo.others.map (·.1)))

/-- The files that a build sees. -/
def GitRepo.workTree : Tree β := repo.tracked ++ repo.others

/-- A file is in the build context or is the Dockerfile. -/
def Service.Inside (configDir repoRoot : List Char) (s : Service) (p : RepoPath) : Prop :=
  absolute (resolve configDir s.dockerfile) = absolute repoRoot ++ p.segs ∨
    absolute (resolve configDir s.context) <+: absolute repoRoot ++ p.segs

/-- Some file inside its build inputs was added, removed or modified; moved is both. -/
def Service.Affected (base : Tree β) (configDir repoRoot : List Char) (s : Service) : Prop :=
  ∃ p, base.blob p ≠ repo.workTree.blob p ∧ s.Inside configDir repoRoot p

/-- Git prints the file's name: one that changed and has no new place, or an untracked one. -/
def GitRepo.Reports (base : Tree β) (p : RepoPath) : Prop :=
  (base.blob p ≠ repo.tracked.blob p ∧ ∀ r ∈ repo.renames base, r.old ≠ p) ∨ (repo.others.blob p).isSome = true

end Repo

/-- The name as it is compared: quoted, or without the blanks at its ends. -/
def spelling (name : List Char) : List Char := if name.any isUnusual then toSlash (quotePath name) else trim name

/-- The file's spelling is one of the service's inputs. -/
def Service.Shows (configDir repoRoot : List Char) (s : Service) (p : RepoPath) : Prop :=
  spelling p.name ≠ [] ∧ (s.buildPaths configDir repoRoot).builds (spelling p.name) = true

/-! ## Printed lines -/

section Lines

variable {c : Char} {name s : List Char} {paths : List RepoPath}

theorem toNat_ofNat {n : Nat} (h : n < 0xd800) : (Char.ofNat n).toNat = n := by
  unfold Char.ofNat
  rw [dif_pos (.inl h)]
  rfl

theorem newline_not_mem_escapeByte (b : Nat) : '\n' ∉ escapeByte b := by
  have hoctal : '\n' ∉ octal b := by
    unfold octal
    rw [List.mem_map]
    intro ⟨d, hd, heq⟩
    have hlt : d < 8 := by
      simp only [List.mem_cons, List.not_mem_nil, or_false] at hd
      omega
    have hn := congrArg Char.toNat heq
    have hval : (Char.ofNat (48 + d)).toNat = 48 + d := toNat_ofNat (by omega)
    have : '\n'.toNat = 10 := rfl
    omega
  have hplain : ¬(b < 32 ∨ 127 ≤ b) → '\n' ∉ [Char.ofNat b] := by
    intro hb hmem
    have hn := congrArg Char.toNat (List.mem_singleton.mp hmem)
    have hval : (Char.ofNat b).toNat = b := toNat_ofNat (by omega)
    have : '\n'.toNat = 10 := rfl
    omega
  unfold escapeByte
  repeat' split
  all_goals first
    | exact hplain ‹_›
    | simp [hoctal]

theorem newline_not_mem_quotePath (name : List Char) : '\n' ∉ quotePath name := by
  unfold quotePath
  split
  · intro h
    rw [List.cons_append, List.mem_cons, List.mem_append, List.mem_flatMap] at h
    rcases h with h | ⟨b, _, h⟩ | h
    · cases h
    · exact newline_not_mem_escapeByte _ h
    · simp at h
  · rename_i h
    exact fun hmem => h (List.any_eq_true.mpr ⟨'\n', hmem, by decide⟩)

theorem newline_not_mem_printed : ∀ line ∈ paths.map fun p => quotePath p.name, '\n' ∉ line := by
  intro line hline
  obtain ⟨p, _, rfl⟩ := List.mem_map.mp hline
  exact newline_not_mem_quotePath _

/-- The lines that are read are the names that git prints, trimmed. -/
theorem splitLines_printed (paths : List RepoPath) :
    splitLines (printed paths) = (paths.map fun p => trim (quotePath p.name)).filter (· ≠ []) := by
  unfold splitLines printed
  cases paths with
  | nil => rfl
  | cons p paths =>
    rw [List.splitOn_intercalate '\n' newline_not_mem_printed (by simp), List.map_map]
    rfl

theorem trim_quoted (s : List Char) : trim ('"' :: s ++ ['"']) = '"' :: s ++ ['"'] := by
  have hquote : Cron.isSpace '"' = false := by decide
  rw [trim, List.cons_append, trimStart_plain hquote, trimEnd, ← List.cons_append, List.reverse_append, List.reverse_singleton,
    List.singleton_append, trimStart_plain hquote, List.reverse_cons, List.reverse_reverse]

theorem toSlash_eq (h : '\\' ∉ s) : toSlash s = s := by
  unfold toSlash
  refine (List.map_congr_left fun c hc => ?_).trans (List.map_id s)
  have hback : c ≠ '\\' := fun heq => h (heq ▸ hc)
  exact if_neg hback

@[simp] theorem toSlash_toSlash (s : List Char) : toSlash (toSlash s) = toSlash s := by
  refine toSlash_eq fun h => ?_
  obtain ⟨c, _, hc⟩ := List.mem_map.mp h
  by_cases hback : c = '\\'
  · rw [if_pos hback] at hc
    cases hc
  · rw [if_neg hback] at hc
    exact hback hc

@[simp] theorem toSlash_eq_nil : toSlash s = [] ↔ s = [] := List.map_eq_nil_iff

theorem toSlash_line (name : List Char) : toSlash (trim (quotePath name)) = spelling name := by
  unfold spelling
  by_cases h : name.any isUnusual = true
  · rw [if_pos h, quotePath, if_pos h, trim_quoted]
  · rw [if_neg h, quotePath, if_neg h]
    refine toSlash_eq fun hback => h (List.any_eq_true.mpr ⟨'\\', mem_of_mem_trim hback, by decide⟩)

theorem mem_lines {line : List Char} :
    line ∈ (splitLines (printed paths)).map toSlash ↔ ∃ p ∈ paths, spelling p.name ≠ [] ∧ line = spelling p.name := by
  rw [splitLines_printed, List.mem_map]
  constructor
  · intro ⟨t, ht, hline⟩
    obtain ⟨hmem, hne⟩ := List.mem_filter.mp ht
    obtain ⟨p, hp, rfl⟩ := List.mem_map.mp hmem
    rw [toSlash_line] at hline
    refine ⟨p, hp, ?_, hline.symm⟩
    rw [← toSlash_line]
    simpa using hne
  · intro ⟨p, hp, hne, hline⟩
    refine ⟨trim (quotePath p.name), List.mem_filter.mpr ⟨List.mem_map.mpr ⟨p, hp, rfl⟩, ?_⟩, ?_⟩
    · rw [← toSlash_line] at hne
      simpa using hne
    · rw [toSlash_line, hline]

end Lines

/-! ## Files and inputs -/

section Inputs

variable {p : RepoPath} {configDir repoRoot abs : List Char} {rest : List (List Char)} {s : Service}

@[simp] theorem RepoPath.segments_name (p : RepoPath) : segments p.name = p.segs :=
  segments_joined (fun s hs => (p.entries s hs).2) p.nonempty

theorem RepoPath.name_ne_nil (p : RepoPath) : p.name ≠ [] := by
  intro h
  have hsegs := p.segments_name
  rw [h] at hsegs
  exact (p.entries [] (by rw [← hsegs]; simp [segments])).1.1 rfl

theorem joined_eq_nil (hplain : ∀ s ∈ rest, PlainSegment s) (hslash : ∀ s ∈ rest, '/' ∉ s) : joined rest = [] ↔ rest = [] := by
  constructor
  · intro h
    by_contra hne
    have hsegs := segments_joined hslash hne
    rw [h] at hsegs
    exact (hplain [] (by rw [← hsegs]; simp [segments])).1 rfl
  · intro h
    rw [h]
    rfl

/-- What is in the repository, from its root. -/
theorem toRepoRel_inside (habs : absolute abs = absolute repoRoot ++ rest) (hback : ∀ s ∈ absolute abs, '\\' ∉ s) :
    toRepoRel repoRoot abs = joined rest := by
  have hmem : ∀ s ∈ rest, s ∈ absolute abs := fun s hs => by
    rw [habs]
    exact List.mem_append_right _ hs
  have hplain : ∀ s ∈ rest, PlainSegment s := fun s hs => absolute_isPlain abs s (hmem s hs)
  have hslash : ∀ s ∈ rest, '/' ∉ s := fun s hs => absolute_slash abs s (hmem s hs)
  have hdot : joined rest ≠ ['.'] := by
    intro h
    by_cases hne : rest = []
    · rw [hne] at h
      cases h
    · have hsegs := segments_joined hslash hne
      rw [h] at hsegs
      exact (hplain ['.'] (by rw [← hsegs]; decide)).2.1 rfl
  unfold toRepoRel relative
  rw [habs, relativeSegments_append]
  dsimp only
  rw [if_neg hdot]
  refine toSlash_eq fun h => ?_
  rcases Lib.mem_intercalate h with h | ⟨t, ht, h⟩
  · cases h
  · exact hback t (hmem t ht) h

/-- A plain name is in the inputs of a service as the file is. -/
theorem shows_iff (husual : p.name.any isUnusual = false) (htrim : trim p.name = p.name)
    (hcontext : absolute repoRoot <+: absolute (resolve configDir s.context))
    (hdockerfile : absolute repoRoot <+: absolute (resolve configDir s.dockerfile))
    (hback : ∀ t ∈ absolute (resolve configDir s.context) ++ absolute (resolve configDir s.dockerfile), '\\' ∉ t) :
    s.Shows configDir repoRoot p ↔ s.Inside configDir repoRoot p := by
  obtain ⟨context, hcontext⟩ := hcontext
  obtain ⟨dockerfile, hdockerfile⟩ := hdockerfile
  have hspelling : spelling p.name = p.name := by rw [spelling, if_neg (by simp [husual]), htrim]
  have hcontextDir : (s.buildPaths configDir repoRoot).contextDir = joined context :=
    toRepoRel_inside hcontext.symm fun t ht => hback t (List.mem_append_left _ ht)
  have hdockerfilePath : (s.buildPaths configDir repoRoot).dockerfile = joined dockerfile :=
    toRepoRel_inside hdockerfile.symm fun t ht => hback t (List.mem_append_right _ ht)
  have hsegment : ∀ {rest : List (List Char)} {abs : List Char}, absolute repoRoot ++ rest = absolute abs →
      (joined rest = [] ↔ rest = []) ∧ (rest ≠ [] → segments (joined rest) = rest) := by
    intro rest abs habs
    have hmem : ∀ t ∈ rest, t ∈ absolute abs := fun t ht => habs ▸ List.mem_append_right _ ht
    have hslash : ∀ t ∈ rest, '/' ∉ t := fun t ht => absolute_slash abs t (hmem t ht)
    exact ⟨joined_eq_nil (fun t ht => absolute_isPlain abs t (hmem t ht)) hslash, segments_joined hslash⟩
  obtain ⟨hcontextNil, hcontextSegs⟩ := hsegment hcontext
  obtain ⟨hdockerfileNil, hdockerfileSegs⟩ := hsegment hdockerfile
  unfold Service.Shows Service.Inside ServiceBuildPaths.builds isWithin
  rw [hspelling, hcontextDir, hdockerfilePath, ← hcontext, ← hdockerfile, List.append_cancel_left_eq, List.prefix_append_right_inj]
  simp only [Bool.or_eq_true, decide_eq_true_eq]
  have hfile : p.name = joined dockerfile ↔ dockerfile = p.segs := by
    constructor
    · intro h
      have hne : dockerfile ≠ [] := fun hnil => p.name_ne_nil (h.trans (hdockerfileNil.mpr hnil))
      rw [← hdockerfileSegs hne, ← h, RepoPath.segments_name]
    · intro h
      rw [h, RepoPath.name]
  have hdir : joined context = [] ∨ within p.name (joined context) = true ↔ context <+: p.segs := by
    by_cases hnil : context = []
    · rw [hnil]
      simp [joined]
    · rw [within_iff, hcontextSegs hnil, RepoPath.segments_name, hcontextNil]
      simp [hnil]
  rw [hfile, hdir]
  exact and_iff_right p.name_ne_nil

/-- A quoted name is in no inputs but of the whole repository. -/
theorem hidden_quoted (hunusual : p.name.any isUnusual = true) (hroot : (s.buildPaths configDir repoRoot).contextDir ≠ [])
    (hcontext : (s.buildPaths configDir repoRoot).contextDir.head? ≠ some '"')
    (hdockerfile : (s.buildPaths configDir repoRoot).dockerfile.head? ≠ some '"') : ¬s.Shows configDir repoRoot p := by
  intro ⟨_, h⟩
  have hhead : (spelling p.name).head? = some '"' := by
    rw [spelling, if_pos hunusual, quotePath, if_pos hunusual]
    rfl
  unfold ServiceBuildPaths.builds isWithin within at h
  simp only [Bool.or_eq_true, decide_eq_true_eq, beq_iff_eq, List.isPrefixOf_iff_prefix] at h
  rcases h with h | h | h | ⟨rest, h⟩
  · exact hdockerfile (h ▸ hhead)
  · exact hroot h
  · exact hcontext (h ▸ hhead)
  · obtain ⟨c, dir, hdir⟩ := List.exists_cons_of_ne_nil hroot
    rw [← h, hdir] at hhead
    rw [hdir] at hcontext
    exact hcontext hhead

end Inputs

/-! ## Every affected service -/

section Selection

variable {β : Type} {repo : GitRepo β} {base : Tree β} {p : RepoPath} {ref sha : List Char}
  {configDir repoRoot : List Char} {services : List Service}

theorem Tree.blob_isSome {t : Tree β} : (t.blob p).isSome = true ↔ p ∈ t.map (·.1) := by
  unfold Tree.blob
  induction t with
  | nil => simp
  | cons e t ih =>
    rw [List.lookup_cons, List.map_cons, List.mem_cons]
    by_cases h : p = e.1
    · simp [h]
    · have hbeq : (p == e.1) = false := by simpa using h
      rw [hbeq]
      simp [h, ih]

/-- A file that differs is reported, unless git has a new place for it. -/
theorem differs_reports (hdiffers : base.blob p ≠ repo.workTree.blob p) (hplace : ∀ r ∈ repo.renames base, r.old ≠ p) :
    repo.Reports base p := by
  have hwork : repo.workTree.blob p = (repo.tracked.blob p).or (repo.others.blob p) := List.lookup_append
  rw [hwork] at hdiffers
  cases htracked : repo.tracked.blob p with
  | some b =>
    rw [htracked, Option.some_or] at hdiffers
    exact .inl ⟨htracked ▸ hdiffers, hplace⟩
  | none =>
    rw [htracked, Option.none_or] at hdiffers
    cases hothers : repo.others.blob p with
    | some b => exact .inr (by rw [hothers]; rfl)
    | none => exact .inl ⟨by rwa [htracked, ← hothers], hplace⟩

/-- A service is selected when some reported name shows one of its name. -/
theorem selected_iff {changed : List (List Char)} {name : String}
    (hchanged : ∀ line, line ∈ changed ↔ ∃ p, repo.Reports base p ∧ spelling p.name ≠ [] ∧ line = spelling p.name) :
    name ∈ selectChangedServices (buildServiceBuildPaths services configDir repoRoot) changed ↔
      ∃ s ∈ services, s.name = name ∧ ∃ p, repo.Reports base p ∧ s.Shows configDir repoRoot p := by
  have hslash : ∀ name, toSlash (spelling name) = spelling name := fun name => by rw [← toSlash_line, toSlash_toSlash]
  have hline : ∀ line, line ∈ (changed.map toSlash).filter (· ≠ []) ↔
      ∃ p, repo.Reports base p ∧ spelling p.name ≠ [] ∧ line = spelling p.name := by
    intro line
    rw [List.mem_filter, decide_eq_true_iff, List.mem_map]
    constructor
    · intro ⟨⟨l, hl, heq⟩, _⟩
      obtain ⟨p, hp, hne, rfl⟩ := (hchanged l).mp hl
      exact ⟨p, hp, hne, by rw [← heq, hslash]⟩
    · intro ⟨p, hp, hne, heq⟩
      rw [heq]
      exact ⟨⟨_, (hchanged _).mpr ⟨p, hp, hne, rfl⟩, hslash _⟩, hne⟩
  unfold selectChangedServices buildServiceBuildPaths
  simp only [List.mem_map, List.mem_filter, List.any_eq_true, hline]
  constructor
  · intro ⟨b, ⟨⟨s, hs, hb⟩, line, ⟨p, hp, hne, hspelling⟩, hbuilds⟩, hname⟩
    rw [← hb] at hname hbuilds
    rw [hspelling] at hbuilds
    exact ⟨s, hs, hname, p, hp, hne, hbuilds⟩
  · intro ⟨s, hs, hname, p, hp, hne, hbuilds⟩
    exact ⟨_, ⟨⟨s, hs, rfl⟩, _, ⟨p, hp, hne, rfl⟩, hbuilds⟩, hname⟩

/-- A service is selected for a changed file under a plain name, where git has no new place for
it and the inputs are in the repository. -/
theorem plain_selected {changed : List (List Char)} {s : Service}
    (hchanged : ∀ line, line ∈ changed ↔ ∃ p, repo.Reports base p ∧ spelling p.name ≠ [] ∧ line = spelling p.name)
    (hs : s ∈ services) (hdiffers : base.blob p ≠ repo.workTree.blob p) (hplace : ∀ r ∈ repo.renames base, r.old ≠ p)
    (husual : p.name.any isUnusual = false) (htrim : trim p.name = p.name)
    (hcontext : absolute repoRoot <+: absolute (resolve configDir s.context))
    (hdockerfile : absolute repoRoot <+: absolute (resolve configDir s.dockerfile))
    (hback : ∀ t ∈ absolute (resolve configDir s.context) ++ absolute (resolve configDir s.dockerfile), '\\' ∉ t)
    (hinside : s.Inside configDir repoRoot p) :
    s.name ∈ selectChangedServices (buildServiceBuildPaths services configDir repoRoot) changed :=
  (selected_iff hchanged).mpr ⟨s, hs, rfl, p, differs_reports hdiffers hplace,
    (shows_iff husual htrim hcontext hdockerfile hback).mpr hinside⟩

variable [DecidableEq β]

theorem mem_changed : p ∈ repo.changed base ↔ base.blob p ≠ repo.tracked.blob p := by
  unfold GitRepo.changed
  rw [List.mem_filter, List.mem_eraseDups, decide_eq_true_iff, List.map_append, List.mem_append, and_iff_right_iff_imp]
  intro h
  rw [← Tree.blob_isSome, ← Tree.blob_isSome]
  by_contra hnone
  obtain ⟨hbase, htracked⟩ := not_or.mp hnone
  rw [Option.not_isSome_iff_eq_none] at hbase htracked
  exact h (hbase.trans htracked.symm)

theorem reports_iff : repo.Reports base p ↔ p ∈ repo.diffNames base ∨ p ∈ repo.others.map (·.1) := by
  unfold GitRepo.Reports GitRepo.diffNames
  rw [Tree.blob_isSome, List.mem_filter, mem_changed]
  simp [List.any_eq_false]

theorem isSha_plain (h : isSha sha = true) : trim sha = sha := by
  unfold isSha at h
  rw [Bool.and_eq_true, List.all_eq_true] at h
  refine trim_eq fun c hc => ?_
  have hrange : 48 ≤ c.toNat ∧ c.toNat ≤ 102 := by
    have hclass := h.2 c hc
    rw [Bool.or_eq_true, Bool.and_eq_true] at hclass
    rcases hclass with hdigit | ⟨hlow, hhigh⟩
    · simp only [Char.isDigit, Bool.and_eq_true, decide_eq_true_eq] at hdigit
      have h1 : 48 ≤ c.toNat := hdigit.1
      have h2 : c.toNat ≤ 57 := hdigit.2
      omega
    · have h1 : 97 ≤ c.toNat := of_decide_eq_true hlow
      have h2 : c.toNat ≤ 102 := of_decide_eq_true hhigh
      omega
  simp only [Cron.isSpace, Bool.or_eq_false_iff, Bool.and_eq_false_iff, decide_eq_false_iff_not, beq_eq_false_iff_ne]
  omega

/-- The changed paths are the spellings of what git reports. -/
theorem collected (hoption : ref.head? ≠ some '-') (hrev : repo.revParse (asCommit ref) = some sha) (hsha : isSha sha = true)
    (hbase : repo.commit sha = some base) : ∃ changed, collectChangedPaths repo.run ref = .ok changed ∧
      ∀ line, line ∈ changed ↔ ∃ p, repo.Reports base p ∧ spelling p.name ≠ [] ∧ line = spelling p.name := by
  refine ⟨((splitLines (printed (repo.diffNames base)) ++ splitLines (printed (repo.others.map (·.1)))).map toSlash).eraseDups, ?_, ?_⟩
  · unfold collectChangedPaths
    rw [if_neg hoption]
    simp only [GitRepo.run, hrev, isSha_plain hsha, hsha, hbase, Option.map_some, Bool.true_eq_false, if_false]
  · intro line
    rw [List.mem_eraseDups, List.map_append, List.mem_append, mem_lines, mem_lines, ← exists_or]
    simp only [reports_iff, or_and_right]

/-- Every affected service is selected exactly when for each some name that git reports shows a
service of its name. -/
theorem changed_selects_iff (hoption : ref.head? ≠ some '-') (hrev : repo.revParse (asCommit ref) = some sha) (hsha : isSha sha = true)
    (hbase : repo.commit sha = some base) : ∃ changed, collectChangedPaths repo.run ref = .ok changed ∧
      ((∀ s ∈ services, s.Affected repo base configDir repoRoot →
          s.name ∈ selectChangedServices (buildServiceBuildPaths services configDir repoRoot) changed) ↔
        ∀ s ∈ services, s.Affected repo base configDir repoRoot →
          ∃ t ∈ services, t.name = s.name ∧ ∃ p, repo.Reports base p ∧ t.Shows configDir repoRoot p) := by
  obtain ⟨changed, hcollect, hchanged⟩ := collected hoption hrev hsha hbase
  refine ⟨changed, hcollect, ?_⟩
  simp only [selected_iff hchanged]

end Selection

/-! ### A file moved out of a context, and one under an unusual name -/

def RepoPath.of (name : List Char) (h : ∀ s ∈ segments name, PlainSegment s) : RepoPath where
  segs := segments name
  nonempty := segments_ne_nil name
  entries s hs := ⟨h s hs, not_mem_segment hs⟩

def apiFile : RepoPath := .of "apps/api/a.ts".toList (by decide +kernel)

def libFile : RepoPath := .of "libs/a.ts".toList (by decide +kernel)

def webFile : RepoPath := .of "apps/web/café.ts".toList (by decide +kernel)

def oldTree : Tree Nat := [(apiFile, 1), (webFile, 2)]

def newTree : Tree Nat := [(libFile, 1), (webFile, 3)]

def shopSha : List Char := List.replicate 40 'a'

/-- One file was moved, and one was changed. -/
def shop : GitRepo Nat where
  revParse _ := some shopSha
  commit _ := some oldTree
  tracked := newTree
  others := []
  renames base := if base = oldTree then [⟨apiFile, libFile⟩] else []
  moved base r hr := by
    split at hr
    · rename_i hbase
      rw [hbase, List.mem_singleton.mp hr]
      decide +kernel
    · cases hr

def apiService : Service := ⟨"api", "apps/api".toList, "apps/api/Dockerfile".toList⟩

def webService : Service := ⟨"web", "apps/web".toList, "apps/web/Dockerfile".toList⟩

def shopRoot : List Char := "/shop".toList

theorem changed_selects_iff_shop : ∃ changed, collectChangedPaths shop.run "main".toList = .ok changed ∧
    ((∀ s ∈ [apiService, webService], s.Affected shop oldTree shopRoot shopRoot →
        s.name ∈ selectChangedServices (buildServiceBuildPaths [apiService, webService] shopRoot shopRoot) changed) ↔
      ∀ s ∈ [apiService, webService], s.Affected shop oldTree shopRoot shopRoot →
        ∃ t ∈ [apiService, webService], t.name = s.name ∧ ∃ p, shop.Reports oldTree p ∧ t.Shows shopRoot shopRoot p) :=
  changed_selects_iff (by decide +kernel) (rfl : shop.revParse _ = some shopSha) (by decide +kernel) rfl

/-- Both are affected, and neither is selected. -/
theorem moved_out_missed :
    apiService.Affected shop oldTree shopRoot shopRoot ∧ webService.Affected shop oldTree shopRoot shopRoot ∧
      ∃ changed, collectChangedPaths shop.run "main".toList = .ok changed ∧
        selectChangedServices (buildServiceBuildPaths [apiService, webService] shopRoot shopRoot) changed = [] := by
  refine ⟨⟨apiFile, by decide +kernel, .inr (by decide +kernel)⟩, ⟨webFile, by decide +kernel, .inr (by decide +kernel)⟩, ?_⟩
  exact ⟨["\"apps/web/caf/303/251.ts\"".toList, "libs/a.ts".toList], by rfl, by decide +kernel⟩

end LaunchPad.ChangedServices
