/-
  LaunchPad.Cli.Images — the image a deploy or a job run builds or reuses
  (`cli/src/deploy/build.ts` `computeImageTag`, `commands/deploy.ts`, `commands/job.ts`), over
  any sequence of runs against the registry.

  A run is of one service or job: a deploy is one for each service it builds. The commits of
  git, with their abbreviations and files, are a parameter, and so is what a builder sees of a
  directory: docker's reading of `.dockerignore`, and for a remote build the tarball. A tree
  that git reports clean holds its commit's files; ignored files, and those outside the
  repository, are others'. A tag is not overwritten, and no modelled command deletes an image.

  As built: the tag of a clean tree is its commit, and nothing else of the run is in it.
  Neither the git-ignored files nor the Dockerfile's path nor the architecture of the nodes
  changes the tag, so a commit deployed to nodes of another architecture reuses the image of
  the first (`other_architecture_reused`).

  Proved:
  - `computeImageTag_eq_iff`: when two trees have one tag.
  - `not_agree_of_architecture`, `agree_of_same`: one commit on two architectures, and on one.
  - `reuse_sound_iff`: every image that a sequence of runs reuses was built from the inputs of
    the run exactly when each two of one repository agree in what the tag leaves out.
-/
import LaunchPad.Cli.Components
import Mathlib.Data.Nat.Digits.Defs

namespace LaunchPad.Cli.Images

open Components

/-! ## Tags -/

/-- Path and content. -/
abbrev Files := List (String × String)

def isHexDigit (c : Char) : Bool := c.isDigit || ('a' ≤ c && c ≤ 'f')

/-- Commits, their abbreviations (`rev-parse --short=12`) and their files. -/
structure Git where
  Commit : Type
  short : Commit → String
  files : Commit → Files
  hex : ∀ c, ∀ d ∈ (short c).toList, isHexDigit d = true

/-- A working tree. `git` is the commit and the trimmed output of `git status --porcelain`,
    or none where either command fails. -/
structure Worktree (g : Git) where
  git : Option (g.Commit × String)
  tracked : Files
  untracked : Files := []
  others : Files := []
  clean : ∀ c, git = some (c, "") → tracked = g.files c ∧ untracked = []

def Worktree.files {g : Git} (w : Worktree g) : Files := w.tracked ++ w.untracked ++ w.others

def digit36 (d : Nat) : Char := if d < 10 then Char.ofNat (48 + d) else Char.ofNat (87 + d)

/-- `toString(36)`. -/
def toString36 (n : Nat) : String := if n = 0 then "0" else String.ofList ((Nat.digits 36 n).reverse.map digit36)

def computeImageTag {g : Git} (w : Worktree g) (nowMs : Nat) : String :=
  match w.git with
  | some (commit, status) =>
    if status.length = 0 then g.short commit else g.short commit ++ "-dev-" ++ toString36 nowMs
  | none => "dev-" ++ toString36 nowMs

def dockerPlatformForArchitecture : NodeArchitecture → String
  | .arm64 => "linux/arm64"
  | .x86_64 => "linux/amd64"

/-! ## Runs -/

structure BuildInputs where
  context : Files
  dockerfile : Option String
  platform : String
  deriving DecidableEq, Repr

structure Image where
  repo : String
  tag : String
  inputs : BuildInputs
  deriving DecidableEq, Repr

/-- `built` is whether docker's build and push succeed, should they be tried. -/
structure ImageRun (g : Git) where
  project : String
  name : String
  worktree : Worktree g
  contextDir : String := ""
  dockerfile : String := "Dockerfile"
  architecture : NodeArchitecture
  remoteBuild : Bool := false
  nowMs : Nat
  built : Bool := true

namespace ImageRun

variable {g : Git}

def repoName (r : ImageRun g) : String := ecrRepositoryName r.project r.name
def tag (r : ImageRun g) : String := computeImageTag r.worktree r.nowMs

end ImageRun

def imageExists (images : List Image) (repo tag : String) : Bool := images.any fun i => i.repo = repo && i.tag = tag

section Runs

variable {g : Git} (sees : Bool → String → String → Files → Files)

/-- What the builder makes of those files. -/
def inputsOf (r : ImageRun g) (files : Files) : BuildInputs where
  context := sees r.remoteBuild r.contextDir r.dockerfile files
  dockerfile := files.lookup r.dockerfile
  platform := dockerPlatformForArchitecture r.architecture

def buildInputs (r : ImageRun g) : BuildInputs := inputsOf sees r r.worktree.files

def buildImage (r : ImageRun g) : Image := ⟨r.repoName, r.tag, buildInputs sees r⟩

/-- One run: an image of the tag is reused, else one is built and pushed. -/
def publishImage (images : List Image) (r : ImageRun g) : List Image :=
  if imageExists images r.repoName r.tag then images else if r.built then images ++ [buildImage sees r] else images

def imagesAfter (runs : List (ImageRun g)) : List Image := runs.foldl (publishImage sees) []

/-- Whatever image a run finds under its tag was built from the inputs of that run. -/
def SoundReuse (runs : List (ImageRun g)) : Prop :=
  ∀ before r later, runs = before ++ r :: later → ∀ i ∈ imagesAfter sees before, i.repo = r.repoName → i.tag = r.tag →
    i.inputs = buildInputs sees r

/-! ## What the tag leaves out -/

/-- Two trees git fails on, or two unclean ones at one abbreviation. -/
def UncleanAlike (a b : Worktree g) : Prop :=
  match a.git, b.git with
  | none, none => True
  | some (ca, sa), some (cb, sb) => sa ≠ "" ∧ sb ≠ "" ∧ g.short ca = g.short cb
  | _, _ => False

/-- Runs for one repository agree in what their tags leave out: clean at one abbreviation, in
    the files the builder sees of the commits with the others, the Dockerfile and the
    architecture; unclean and in one millisecond, in everything. -/
def Agree (a b : ImageRun g) : Prop :=
  a.repoName = b.repoName →
    (∀ ca cb, a.worktree.git = some (ca, "") → b.worktree.git = some (cb, "") → g.short ca = g.short cb →
      sees a.remoteBuild a.contextDir a.dockerfile (g.files ca ++ a.worktree.others) =
          sees b.remoteBuild b.contextDir b.dockerfile (g.files cb ++ b.worktree.others) ∧
        (g.files ca ++ a.worktree.others).lookup a.dockerfile = (g.files cb ++ b.worktree.others).lookup b.dockerfile ∧
        a.architecture = b.architecture) ∧
    (a.nowMs = b.nowMs → UncleanAlike a.worktree b.worktree → buildInputs sees a = buildInputs sees b)

end Runs

/-! ## When two trees have one tag -/

section Tags

theorem digit36_inj : ∀ m < 36, ∀ n < 36, digit36 m = digit36 n → m = n := by decide

theorem digit36_digits_inj {l m : List Nat} (hl : ∀ d ∈ l, d < 36) (hm : ∀ d ∈ m, d < 36) (h : l.map digit36 = m.map digit36) :
    l = m := by
  induction l generalizing m with
  | nil => exact (List.map_eq_nil_iff.mp h.symm).symm
  | cons d l ih =>
    cases m with
    | nil => cases h
    | cons e m =>
      obtain ⟨hhead, htail⟩ := List.cons.inj h
      rw [digit36_inj d (hl d (List.mem_cons_self ..)) e (hm e (List.mem_cons_self ..)) hhead,
        ih (fun x hx => hl x (List.mem_cons_of_mem _ hx)) (fun x hx => hm x (List.mem_cons_of_mem _ hx)) htail]

/-- The last digit written is the first of a number that is not 0, so no number is written `0`. -/
theorem zero_digits {n : Nat} (hn : n ≠ 0) : String.ofList ((Nat.digits 36 n).reverse.map digit36) ≠ "0" := by
  intro h
  have hlist : (Nat.digits 36 n).reverse.map digit36 = [0].map digit36 := by
    rw [← String.toList_ofList (l := (Nat.digits 36 n).reverse.map digit36), h]
    rfl
  have hdigits := digit36_digits_inj (fun d hd => Nat.digits_lt_base (by omega) (List.mem_reverse.mp hd))
    (fun d hd => by rw [List.mem_singleton.mp hd]; omega) hlist
  have hzero : Nat.digits 36 n = [0] := by rw [← List.reverse_reverse (Nat.digits 36 n), hdigits]; rfl
  have hvalue := Nat.ofDigits_digits 36 n
  rw [hzero] at hvalue
  exact hn hvalue.symm

theorem toString36_inj {m n : Nat} (h : toString36 m = toString36 n) : m = n := by
  unfold toString36 at h
  by_cases hm : m = 0
  · by_cases hn : n = 0
    · omega
    · rw [if_pos hm, if_neg hn] at h
      exact absurd h.symm (zero_digits hn)
  · by_cases hn : n = 0
    · rw [if_neg hm, if_pos hn] at h
      exact absurd h (zero_digits hm)
    · rw [if_neg hm, if_neg hn] at h
      have hlt : ∀ k, ∀ d ∈ (Nat.digits 36 k).reverse, d < 36 := fun k d hd =>
        Nat.digits_lt_base (by omega) (List.mem_reverse.mp hd)
      exact Nat.digits.injective 36 (List.reverse_injective (digit36_digits_inj (hlt m) (hlt n) (String.ofList_injective h)))

/-- A text is read up to its first dash. -/
theorem before_dash {s t x y : List Char} (hs : '-' ∉ s) (ht : '-' ∉ t) (h : s ++ '-' :: x = t ++ '-' :: y) : s = t ∧ x = y := by
  have hread : ∀ (u z : List Char), '-' ∉ u → (u ++ '-' :: z).takeWhile (· ≠ '-') = u := by
    intro u z hu
    rw [List.takeWhile_append_of_pos fun c hc => by simpa using fun e : c = '-' => hu (e ▸ hc)]
    simp
  have heq : s = t := by rw [← hread s x hs, h, hread t y ht]
  subst heq
  exact ⟨rfl, (List.cons.inj (List.append_cancel_left h)).2⟩

/-- What a tag is made of. -/
inductive Stamp where
  | clean (short : String)
  | unclean (short : String) (nowMs : Nat)
  | bare (nowMs : Nat)

def Stamp.text : Stamp → String
  | .clean short => short
  | .unclean short nowMs => short ++ "-dev-" ++ toString36 nowMs
  | .bare nowMs => "dev-" ++ toString36 nowMs

def Stamp.Hex : Stamp → Prop
  | .clean short => ∀ d ∈ short.toList, isHexDigit d = true
  | .unclean short _ => ∀ d ∈ short.toList, isHexDigit d = true
  | .bare _ => True

theorem dash_notMem_hex {short : String} (h : ∀ d ∈ short.toList, isHexDigit d = true) : '-' ∉ short.toList :=
  fun hmem => absurd (h _ hmem) (by decide)

theorem unclean_toList (short : String) (nowMs : Nat) :
    (Stamp.unclean short nowMs).text.toList = short.toList ++ '-' :: ("dev-".toList ++ (toString36 nowMs).toList) := by
  unfold Stamp.text
  rw [String.toList_append, String.toList_append, List.append_assoc]
  rfl

theorem bare_toList (nowMs : Nat) : (Stamp.bare nowMs).text.toList = "dev".toList ++ '-' :: (toString36 nowMs).toList := by
  unfold Stamp.text
  rw [String.toList_append]
  rfl

theorem bare_ne_unclean {short : String} {m n : Nat} (h : ∀ d ∈ short.toList, isHexDigit d = true) :
    (Stamp.bare m).text ≠ (Stamp.unclean short n).text := by
  intro heq
  have hlist := congrArg String.toList heq
  rw [bare_toList, unclean_toList] at hlist
  have hdev := (before_dash (by decide) (dash_notMem_hex h) hlist).1
  exact absurd (h 'v' (hdev ▸ by decide)) (by decide)

theorem Stamp.text_inj {s t : Stamp} (hs : s.Hex) (ht : t.Hex) (h : s.text = t.text) : s = t := by
  have hlist := congrArg String.toList h
  cases s with
  | clean short =>
    have hdash := dash_notMem_hex hs
    cases t with
    | clean short' => exact congrArg Stamp.clean h
    | unclean short' n => exact absurd (hlist.symm ▸ unclean_toList short' n ▸ by simp) hdash
    | bare n => exact absurd (hlist.symm ▸ bare_toList n ▸ by simp) hdash
  | unclean short m =>
    cases t with
    | clean short' => exact absurd (hlist ▸ unclean_toList short m ▸ by simp) (dash_notMem_hex ht)
    | unclean short' n =>
      rw [unclean_toList, unclean_toList] at hlist
      obtain ⟨hshort, htail⟩ := before_dash (dash_notMem_hex hs) (dash_notMem_hex ht) hlist
      rw [String.toList_inj.mp hshort, toString36_inj (String.toList_inj.mp (List.append_cancel_left htail))]
    | bare n => exact absurd h.symm (bare_ne_unclean hs)
  | bare m =>
    cases t with
    | clean short' => exact absurd (hlist ▸ bare_toList m ▸ by simp) (dash_notMem_hex ht)
    | unclean short' n => exact absurd h (bare_ne_unclean ht)
    | bare n =>
      rw [bare_toList, bare_toList] at hlist
      rw [toString36_inj (String.toList_inj.mp (List.cons.inj (List.append_cancel_left hlist)).2)]

variable {g : Git} {a b : Worktree g} {m n : Nat}

def Worktree.stamp (w : Worktree g) (nowMs : Nat) : Stamp :=
  match w.git with
  | some (commit, status) => if status = "" then .clean (g.short commit) else .unclean (g.short commit) nowMs
  | none => .bare nowMs

theorem computeImageTag_eq (w : Worktree g) (nowMs : Nat) : computeImageTag w nowMs = (w.stamp nowMs).text := by
  unfold computeImageTag Worktree.stamp
  cases w.git with
  | none => rfl
  | some head =>
    by_cases hclean : head.2 = ""
    · simp [hclean, Stamp.text]
    · have hlength : head.2.length ≠ 0 := fun h => hclean (String.length_eq_zero_iff.mp h)
      simp [hclean, Stamp.text]

theorem stamp_hex (w : Worktree g) (nowMs : Nat) : (w.stamp nowMs).Hex := by
  unfold Worktree.stamp
  cases w.git with
  | none => trivial
  | some head =>
    by_cases hclean : head.2 = ""
    · simpa [hclean, Stamp.Hex] using g.hex head.1
    · simpa [hclean, Stamp.Hex] using g.hex head.1

/-- Trees at one abbreviation, both clean or both not and in one millisecond; or both without
    git and in one millisecond. -/
theorem computeImageTag_eq_iff : computeImageTag a m = computeImageTag b n ↔
    (∃ ca cb, a.git = some (ca, "") ∧ b.git = some (cb, "") ∧ g.short ca = g.short cb) ∨ (m = n ∧ UncleanAlike a b) := by
  have hstamp : computeImageTag a m = computeImageTag b n ↔ a.stamp m = b.stamp n := by
    rw [computeImageTag_eq, computeImageTag_eq]
    exact ⟨Stamp.text_inj (stamp_hex a m) (stamp_hex b n), congrArg Stamp.text⟩
  rw [hstamp]
  unfold Worktree.stamp UncleanAlike
  cases ha : a.git with
  | none =>
    cases hb : b.git with
    | none => simp
    | some head => by_cases hclean : head.2 = "" <;> simp [hclean]
  | some head =>
    obtain ⟨ca, sa⟩ := head
    cases hb : b.git with
    | none => by_cases hclean : sa = "" <;> simp [hclean]
    | some head' =>
      obtain ⟨cb, sb⟩ := head'
      by_cases hsa : sa = ""
      · by_cases hsb : sb = "" <;> simp [hsa, hsb]
      · by_cases hsb : sb = ""
        · simp [hsa, hsb]
        · simp [hsa, hsb, and_comm]

end Tags

/-! ## Reuse -/

section Reuse

variable {g : Git} {sees : Bool → String → String → Files → Files} {a b r : ImageRun g} {runs before : List (ImageRun g)}

theorem platform_inj {x y : NodeArchitecture} : dockerPlatformForArchitecture x = dockerPlatformForArchitecture y ↔ x = y := by
  cases x <;> cases y <;> decide

theorem clean_files {c : g.Commit} (h : r.worktree.git = some (c, "")) : r.worktree.files = g.files c ++ r.worktree.others := by
  obtain ⟨htracked, huntracked⟩ := r.worktree.clean c h
  rw [Worktree.files, htracked, huntracked, List.append_nil]

/-- Two runs agree when those of one repository and one tag have the same inputs. -/
theorem agree_iff : Agree sees a b ↔ (a.repoName = b.repoName → a.tag = b.tag → buildInputs sees a = buildInputs sees b) := by
  have hclean : ∀ ca cb, a.worktree.git = some (ca, "") → b.worktree.git = some (cb, "") →
      (buildInputs sees a = buildInputs sees b ↔
        sees a.remoteBuild a.contextDir a.dockerfile (g.files ca ++ a.worktree.others) =
            sees b.remoteBuild b.contextDir b.dockerfile (g.files cb ++ b.worktree.others) ∧
          (g.files ca ++ a.worktree.others).lookup a.dockerfile = (g.files cb ++ b.worktree.others).lookup b.dockerfile ∧
          a.architecture = b.architecture) := by
    intro ca cb ha hb
    unfold buildInputs inputsOf
    rw [clean_files ha, clean_files hb, BuildInputs.mk.injEq, platform_inj]
  constructor
  · intro h hrepo htag
    obtain ⟨hclear, hunclean⟩ := h hrepo
    rcases computeImageTag_eq_iff.mp htag with ⟨ca, cb, ha, hb, hshort⟩ | ⟨hms, halike⟩
    · exact (hclean ca cb ha hb).mpr (hclear ca cb ha hb hshort)
    · exact hunclean hms halike
  · intro h hrepo
    refine ⟨fun ca cb ha hb hshort => ?_, fun hms halike => ?_⟩
    · exact (hclean ca cb ha hb).mp (h hrepo (computeImageTag_eq_iff.mpr (.inl ⟨ca, cb, ha, hb, hshort⟩)))
    · exact h hrepo (computeImageTag_eq_iff.mpr (.inr ⟨hms, halike⟩))

theorem imageExists_iff {images : List Image} {repo tag : String} :
    imageExists images repo tag = true ↔ ∃ i ∈ images, i.repo = repo ∧ i.tag = tag := by
  simp [imageExists]

theorem mem_publishImage {images : List Image} {i : Image} (h : i ∈ publishImage sees images r) :
    i ∈ images ∨ (r.built = true ∧ i = buildImage sees r) := by
  unfold publishImage at h
  split at h
  · exact .inl h
  · split at h
    · rename_i hbuilt
      rcases List.mem_append.mp h with h | h
      · exact .inl h
      · exact .inr ⟨hbuilt, List.mem_singleton.mp h⟩
    · exact .inl h

theorem subset_publishImage {images : List Image} {i : Image} (h : i ∈ images) : i ∈ publishImage sees images r := by
  unfold publishImage
  split
  · exact h
  · split
    · exact List.mem_append_left _ h
    · exact h

/-- After a run that would build, its tag is there. -/
theorem exists_publishImage (images : List Image) (hbuilt : r.built = true) :
    ∃ i ∈ publishImage sees images r, i.repo = r.repoName ∧ i.tag = r.tag := by
  unfold publishImage
  by_cases hexists : imageExists images r.repoName r.tag = true
  · rw [if_pos hexists]
    exact imageExists_iff.mp hexists
  · rw [if_neg hexists, if_pos hbuilt]
    exact ⟨buildImage sees r, List.mem_append_right _ (List.mem_singleton_self _), rfl, rfl⟩

theorem imagesAfter_concat (before : List (ImageRun g)) (r : ImageRun g) :
    imagesAfter sees (before ++ [r]) = publishImage sees (imagesAfter sees before) r := by
  unfold imagesAfter
  rw [List.foldl_append]
  rfl

/-- Every image is one that a run built. -/
theorem mem_imagesAfter {i : Image} (h : i ∈ imagesAfter sees before) :
    ∃ r ∈ before, r.built = true ∧ i = buildImage sees r := by
  induction before using List.reverseRecOn with
  | nil => cases h
  | append_singleton before r ih =>
    rw [imagesAfter_concat] at h
    rcases mem_publishImage h with h | ⟨hbuilt, hi⟩
    · obtain ⟨x, hx, hbuilt, hi⟩ := ih h
      exact ⟨x, List.mem_append_left _ hx, hbuilt, hi⟩
    · exact ⟨r, List.mem_append_right _ (List.mem_singleton_self _), hbuilt, hi⟩

/-- An image stays. -/
theorem subset_imagesAfter {i : Image} (later : List (ImageRun g)) (h : i ∈ imagesAfter sees before) :
    i ∈ imagesAfter sees (before ++ later) := by
  induction later using List.reverseRecOn with
  | nil => rwa [List.append_nil]
  | append_singleton later r ih =>
    rw [← List.append_assoc, imagesAfter_concat]
    exact subset_publishImage ih

/-- A relation holds of each two of a list when it holds of each element and those before it. -/
theorem pairwise_of_before {α : Type} {R : α → α → Prop} {l : List α}
    (h : ∀ before x later, l = before ++ x :: later → ∀ y ∈ before, R y x) : l.Pairwise R := by
  induction l using List.reverseRecOn with
  | nil => exact .nil
  | append_singleton l x ih =>
    refine List.pairwise_append.mpr ⟨ih fun before y later e => h before y (later ++ [x]) (by simp [e]), List.pairwise_singleton .., ?_⟩
    intro y hy z hz
    rw [List.mem_singleton.mp hz]
    exact h l x [] rfl y hy

/-- Every image reused was built from the run's inputs exactly when each run agrees with those
    before it that were built. -/
theorem reuse_sound_iff (sees : Bool → String → String → Files → Files) (runs : List (ImageRun g)) :
    SoundReuse sees runs ↔ runs.Pairwise fun a b => a.built = true → Agree sees a b := by
  constructor
  · intro h
    refine pairwise_of_before fun before b later hruns a ha hbuilt => agree_iff.mpr fun hrepo htag => ?_
    obtain ⟨earlier, between, rfl⟩ := List.append_of_mem ha
    have hsplit : earlier ++ a :: between = (earlier ++ [a]) ++ between := (List.append_cons ..)
    -- the image of that tag is there after `a`, from `a` or from before it, and stays until `b`
    obtain ⟨i, hi, hirepo, hitag⟩ := @exists_publishImage g sees a (imagesAfter sees earlier) hbuilt
    have hreused : i.inputs = buildInputs sees b := by
      refine h _ b later hruns i ?_ (hirepo.trans hrepo) (hitag.trans htag)
      rw [hsplit]
      exact subset_imagesAfter between (imagesAfter_concat earlier a ▸ hi)
    rw [← hreused]
    rcases mem_publishImage hi with hearlier | ⟨_, rfl⟩
    · refine (h earlier a (between ++ b :: later) ?_ i hearlier hirepo hitag).symm
      rw [hruns, List.append_assoc, List.cons_append]
    · rfl
  · intro h before r later hruns i hi hrepo htag
    obtain ⟨a, ha, hbuilt, rfl⟩ := mem_imagesAfter hi
    rw [hruns] at h
    have hagree := (List.pairwise_append.mp h).2.2 a ha r (List.mem_cons_self ..) hbuilt
    exact agree_iff.mp hagree hrepo htag

/-- Clean at one commit, with nodes of two architectures, two runs do not agree. -/
theorem not_agree_of_architecture (hrepo : a.repoName = b.repoName) {c : g.Commit} (ha : a.worktree.git = some (c, ""))
    (hb : b.worktree.git = some (c, "")) (h : a.architecture ≠ b.architecture) : ¬ Agree sees a b :=
  fun hagree => h ((hagree hrepo).1 c c ha hb rfl).2.2

/-- At one commit, with the same ignored files, settings and architecture, they agree. -/
theorem agree_of_same {c : g.Commit} (ha : a.worktree.git = some (c, "")) (hb : b.worktree.git = some (c, ""))
    (hothers : a.worktree.others = b.worktree.others) (hcontext : a.contextDir = b.contextDir) (hfile : a.dockerfile = b.dockerfile)
    (hbuilder : a.remoteBuild = b.remoteBuild) (harch : a.architecture = b.architecture) : Agree sees a b := by
  refine agree_iff.mpr fun _ _ => ?_
  unfold buildInputs inputsOf
  rw [clean_files ha, clean_files hb, hothers, hcontext, hfile, hbuilder, harch]

/-! ## One commit on two architectures -/

theorem short_hex : "5f2a9c01d3e7".toList.all isHexDigit = true := rfl

def oneCommit : Git where
  Commit := Unit
  short _ := "5f2a9c01d3e7"
  files _ := [("Dockerfile", "FROM scratch")]
  hex _ := List.all_eq_true.mp short_hex

def cleanTree : Worktree oneCommit where
  git := some ((), "")
  tracked := [("Dockerfile", "FROM scratch")]
  clean _ _ := ⟨rfl, rfl⟩

def deployOn (architecture : NodeArchitecture) (nowMs : Nat) : ImageRun oneCommit where
  project := "shop"
  name := "web"
  worktree := cleanTree
  architecture := architecture
  nowMs := nowMs

/-- As built the image that was built for `linux/arm64` is published to the amd64 nodes. -/
theorem other_architecture_reused :
    ¬ SoundReuse (fun _ _ _ files => files) [deployOn .arm64 1700000000000, deployOn .x86_64 1700000060000] := by
  intro h
  have hreused := h [deployOn .arm64 1700000000000] (deployOn .x86_64 1700000060000) [] rfl
    (buildImage (fun _ _ _ files => files) (deployOn .arm64 1700000000000)) (List.mem_singleton_self _) rfl rfl
  exact absurd (congrArg BuildInputs.platform hreused) (by decide)

end Reuse

end LaunchPad.Cli.Images
