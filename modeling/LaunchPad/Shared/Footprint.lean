/-
  LaunchPad.Shared.Footprint — whose a published entry is (`shared/src/config.ts`,
  `s3-keys.ts`): the project, the component and the environment, joined into the owner.

  `--` cannot stand in a project or a component, so without environments the owner is
  unambiguous (`componentOwner_inj`). An environment is joined with one hyphen, which may
  stand in every part: project `my` in the environment `app` and project `my-app` have one
  owner. Two identities have the same owner exactly when one's environment starts with the
  label that the other's base owner ends with (`footprintOwner_eq_iff`); they then differ
  in the project or the component too, the names a config baseline records.
-/
import LaunchPad.Shared.Keys
import LaunchPad.Shared.Merge
import Mathlib.Data.List.Infix

namespace LaunchPad

/-! ## Owners -/

def componentSeparator : String := "--"

/-- `s.includes(sub)`. -/
def includes (s sub : String) : Bool := decide (sub.toList <:+: s.toList)

def envProject (project : String) (env : Option String) : String :=
  match env with
  | none => project
  | some env => project ++ "-" ++ env

def componentOwner (project : String) (component : Option String) : String :=
  match component with
  | none => project
  | some component => project ++ componentSeparator ++ component

def footprintOwner (project : String) (component env : Option String) : String :=
  envProject (componentOwner project component) env

/-- What `LaunchPadConfigSchema` asks of the project and the component. -/
def configNames (project : String) (component : Option String) : Bool :=
  labelMatches project && component.all labelMatches && !includes project componentSeparator &&
    component.all fun c => !includes c componentSeparator

/-- A footprint's names, as a configuration and `--env` give them. -/
structure FootprintIdentity where
  project : String
  component : Option String
  env : Option String
  names : configNames project component = true
  env_label : env.all labelMatches = true
  deriving DecidableEq

namespace FootprintIdentity

/-- The owner without the environment. -/
def base (a : FootprintIdentity) : String := componentOwner a.project a.component

def owner (a : FootprintIdentity) : String := footprintOwner a.project a.component a.env

end FootprintIdentity

/-! ## State of a footprint (`s3-keys.ts`) -/

def projectsPrefix (clusterId : String) : String :=
  (if clusterId = defaultCluster then "" else clustersPrefix ++ clusterId ++ "/") ++ "projects/"

def projectStatePrefix (clusterId ownerProject : String) : String := projectsPrefix clusterId ++ ownerProject ++ "/"

def configBaselineKey (clusterId ownerProject : String) : String :=
  projectStatePrefix clusterId ownerProject ++ "config-baseline.json"

def previewMarkerKey (clusterId ownerProject : String) : String :=
  projectStatePrefix clusterId ownerProject ++ "preview.json"

def projectIndexKey (clusterId project : String) : String := projectsPrefix clusterId ++ "_index/" ++ project ++ ".json"

def deployEventsPrefix (clusterId ownerProject : String) : String := projectStatePrefix clusterId ownerProject ++ "events/"

/-- The name leads with the time. -/
def deployEventKey (clusterId ownerProject time id : String) : String :=
  deployEventsPrefix clusterId ownerProject ++ time ++ "-" ++ id ++ ".json"

def remoteBuildContextPrefix (clusterId ownerProject : String) : String := projectStatePrefix clusterId ownerProject ++ "builds/"

def remoteBuildContextKey (clusterId ownerProject service tag : String) : String :=
  remoteBuildContextPrefix clusterId ownerProject ++ service ++ "/" ++ tag ++ ".tar.gz"

/-! ## Labels -/

section Labels

variable {s : String}

theorem labelMatches_iff : labelMatches s = true ↔ s.toList.length ≤ 40 ∧
    (∃ c, s.toList.head? = some c ∧ (c.isLower || c.isDigit) = true) ∧
    (∃ c, s.toList.getLast? = some c ∧ (c.isLower || c.isDigit) = true) ∧
    ∀ c ∈ s.toList, (c.isLower || c.isDigit) = true ∨ c = '-' := by
  simp only [labelMatches, labelLike, Bool.and_eq_true, decide_eq_true_eq, Option.any_eq_true, List.all_eq_true,
    Bool.or_eq_true, beq_iff_eq, and_assoc]

theorem hyphen_not_alnum {c : Char} (h : (c.isLower || c.isDigit) = true) : c ≠ '-' := by
  intro e
  subst e
  exact absurd h (by decide)

theorem label_last (h : labelMatches s = true) {l : List Char} (e : s.toList = l ++ ['-']) : False := by
  obtain ⟨_, _, ⟨c, hc, halnum⟩, _⟩ := labelMatches_iff.mp h
  rw [e, List.getLast?_append, List.getLast?_singleton] at hc
  exact hyphen_not_alnum halnum (Option.some.inj hc).symm

end Labels

/-! ## Without environments the owner is unambiguous -/

section Base

/-- A text in which the separator stands nowhere, nor could start at its end. -/
structure Plain (l : List Char) : Prop where
  apart : ¬['-', '-'] <:+: l
  last : ∀ x, l ≠ x ++ ['-']

variable {a b : FootprintIdentity}

namespace FootprintIdentity

theorem project_label (a : FootprintIdentity) : labelMatches a.project = true := by
  have h := a.names
  simp only [configNames, Bool.and_eq_true] at h
  exact h.1.1.1

theorem component_label (a : FootprintIdentity) {c : String} (hc : a.component = some c) : labelMatches c = true := by
  have h := a.names
  simp only [configNames, hc, Option.all_some, Bool.and_eq_true] at h
  exact h.1.1.2

theorem project_plain (a : FootprintIdentity) : Plain a.project.toList := by
  have h := a.names
  simp only [configNames, includes, Bool.and_eq_true, Bool.not_eq_true', decide_eq_false_iff_not] at h
  exact ⟨h.1.2, fun _ hx => label_last a.project_label hx⟩

theorem env_matches (a : FootprintIdentity) {e : String} (he : a.env = some e) : labelMatches e = true := by
  have h := a.env_label
  rwa [he, Option.all_some] at h

/-- What stands after the project in the base owner. -/
def componentPart (a : FootprintIdentity) : List Char :=
  match a.component with
  | none => []
  | some c => '-' :: '-' :: c.toList

theorem base_toList (a : FootprintIdentity) : a.base.toList = a.project.toList ++ a.componentPart := by
  cases hc : a.component with
  | none => simp [base, componentOwner, componentPart, hc]
  | some c => simp [base, componentOwner, componentPart, componentSeparator, hc]

end FootprintIdentity

/-- The separator at the front of a text that has it further on as well. -/
theorem separator_front {x y z : List Char} (h : '-' :: '-' :: x = z ++ '-' :: '-' :: y) :
    (z = [] ∧ x = y) ∨ z = ['-'] ∨ ∃ w, z = '-' :: '-' :: w := by
  cases z with
  | nil => exact .inl ⟨rfl, (List.cons.inj (List.cons.inj h).2).2⟩
  | cons c z =>
    rw [List.cons_append] at h
    obtain ⟨rfl, hrest⟩ := List.cons.inj h
    cases z with
    | nil => exact .inr (.inl rfl)
    | cons c z =>
      rw [List.cons_append] at hrest
      obtain ⟨rfl, _⟩ := List.cons.inj hrest
      exact .inr (.inr ⟨z, rfl⟩)

theorem Plain.split {l k x y : List Char} (hl : Plain l) (hk : Plain k)
    (h : l ++ '-' :: '-' :: x = k ++ '-' :: '-' :: y) : l = k ∧ x = y := by
  have only : ∀ {m n z : List Char}, Plain n → n = m ++ z → z ≠ ['-'] ∧ ¬∃ w, z = '-' :: '-' :: w := by
    intro m n z hn e
    constructor
    · intro hz
      exact hn.last m (by rw [e, hz])
    · intro ⟨w, hw⟩
      exact hn.apart ⟨m, w, by rw [e, hw]; simp⟩
  rcases List.append_eq_append_iff.mp h with ⟨z, hz, hx⟩ | ⟨z, hz, hy⟩
  · rcases separator_front hx with ⟨rfl, rfl⟩ | hone | htwo
    · exact ⟨by rw [hz, List.append_nil], rfl⟩
    · exact absurd hone (only hk hz).1
    · exact absurd htwo (only hk hz).2
  · rcases separator_front hy with ⟨rfl, rfl⟩ | hone | htwo
    · exact ⟨by rw [hz, List.append_nil], rfl⟩
    · exact absurd hone (only hl hz).1
    · exact absurd htwo (only hl hz).2

theorem componentOwner_inj (h : a.base = b.base) : a.project = b.project ∧ a.component = b.component := by
  have h := congrArg String.toList h
  rw [a.base_toList, b.base_toList] at h
  cases ha : a.component with
  | none =>
    cases hb : b.component with
    | none =>
      simp only [FootprintIdentity.componentPart, ha, hb, List.append_nil] at h
      exact ⟨String.toList_injective h, rfl⟩
    | some c =>
      simp only [FootprintIdentity.componentPart, ha, hb, List.append_nil] at h
      exact absurd ⟨b.project.toList, c.toList, by rw [h]; simp⟩ a.project_plain.apart
  | some c =>
    cases hb : b.component with
    | none =>
      simp only [FootprintIdentity.componentPart, ha, hb, List.append_nil] at h
      exact absurd ⟨a.project.toList, c.toList, by rw [← h]; simp⟩ b.project_plain.apart
    | some d =>
      simp only [FootprintIdentity.componentPart, ha, hb] at h
      obtain ⟨hp, hc⟩ := a.project_plain.split b.project_plain h
      exact ⟨String.toList_injective hp, congrArg some (String.toList_injective hc)⟩

end Base

/-! ## Environments -/

section Environments

variable {a b : FootprintIdentity}

/-- `b`'s base owner ends with the label `x` that `a`'s environment starts with. -/
def Shifted (a b : FootprintIdentity) : Prop :=
  ∃ x, labelMatches x = true ∧ b.base = envProject a.base (some x) ∧ a.env = some (envProject x b.env)

/-- What stands after the base owner. -/
def envPart (env : Option String) : List Char :=
  match env with
  | none => []
  | some e => '-' :: e.toList

theorem envProject_toList (project : String) (env : Option String) :
    (envProject project env).toList = project.toList ++ envPart env := by
  cases env <;> simp [envProject, envPart]

theorem envPart_inj {e f : Option String} (h : envPart e = envPart f) : e = f := by
  cases e <;> cases f <;> simp [envPart] at h ⊢
  exact String.toList_injective h

theorem base_last (a : FootprintIdentity) :
    ∃ c, a.base.toList.getLast? = some c ∧ (c.isLower || c.isDigit) = true := by
  rw [a.base_toList]
  cases hc : a.component with
  | none =>
    simp only [FootprintIdentity.componentPart, hc, List.append_nil]
    exact (labelMatches_iff.mp a.project_label).2.2.1
  | some d =>
    obtain ⟨c, hlast, halnum⟩ := (labelMatches_iff.mp (a.component_label hc)).2.2.1
    refine ⟨c, ?_, halnum⟩
    simp only [FootprintIdentity.componentPart, hc]
    rw [show '-' :: '-' :: d.toList = ['-', '-'] ++ d.toList from rfl, List.getLast?_append, List.getLast?_append, hlast]
    rfl

/-- The longer base owner is the shorter one and a label. -/
theorem shifted_of {z : List Char} (hz : z ≠ []) (hbase : b.base.toList = a.base.toList ++ z)
    (henv : envPart a.env = z ++ envPart b.env) : Shifted a b := by
  cases he : a.env with
  | none =>
    rw [he] at henv
    exact absurd (List.append_eq_nil_iff.mp henv.symm).1 hz
  | some e =>
    cases z with
    | nil => exact absurd rfl hz
    | cons c x =>
      rw [he, envPart, List.cons_append] at henv
      obtain ⟨rfl, hx⟩ := List.cons.inj henv
      obtain ⟨hlen, hhead, _, hall⟩ := labelMatches_iff.mp (a.env_matches he)
      rw [hx] at hlen hhead hall
      obtain ⟨d, hd, halnum⟩ := base_last b
      rw [hbase] at hd
      -- the base owner ends in a letter or a digit, so a label stands after the hyphen
      cases x with
      | nil =>
        rw [List.getLast?_append, List.getLast?_singleton] at hd
        exact absurd (Option.some.inj hd).symm (hyphen_not_alnum halnum)
      | cons f x =>
        refine ⟨String.ofList (f :: x), labelMatches_iff.mpr ?_, ?_, ?_⟩
        · rw [String.toList_ofList]
          refine ⟨?_, ?_, ⟨d, ?_, halnum⟩, fun c hc => hall c (List.mem_append_left _ hc)⟩
          · rw [List.length_append] at hlen
            omega
          · simpa using hhead
          · rw [List.getLast?_append, List.getLast?_cons_cons] at hd
            cases hl : (f :: x).getLast? with
            | none => simp at hl
            | some g => rw [hl] at hd; simpa using hd
        · apply String.toList_injective
          rw [envProject_toList, hbase, envPart, String.toList_ofList]
        · rw [he, Option.some.injEq]
          apply String.toList_injective
          rw [envProject_toList, String.toList_ofList, hx]

theorem Shifted.owner_eq (h : Shifted a b) : a.owner = b.owner := by
  obtain ⟨x, _, hbase, henv⟩ := h
  apply String.toList_injective
  show (envProject a.base a.env).toList = (envProject b.base b.env).toList
  rw [envProject_toList, envProject_toList, hbase, henv, envProject_toList, envPart, envPart, envProject_toList]
  simp

theorem footprintOwner_eq_iff : a.owner = b.owner ↔ a = b ∨ Shifted a b ∨ Shifted b a := by
  constructor
  · intro h
    have h := congrArg String.toList h
    change (envProject a.base a.env).toList = (envProject b.base b.env).toList at h
    rw [envProject_toList, envProject_toList] at h
    have same : a.base = b.base → envPart a.env = envPart b.env → a = b := by
      intro hbase henv
      obtain ⟨hp, hc⟩ := componentOwner_inj hbase
      have he := envPart_inj henv
      cases a
      cases b
      simp only at hp hc he
      subst hp hc he
      rfl
    rcases List.append_eq_append_iff.mp h with ⟨z, hz, henv⟩ | ⟨z, hz, henv⟩
    · by_cases hnil : z = []
      · subst hnil
        rw [List.append_nil] at hz
        exact .inl (same (String.toList_injective hz.symm) henv)
      · exact .inr (.inl (shifted_of hnil hz henv))
    · by_cases hnil : z = []
      · subst hnil
        rw [List.append_nil] at hz
        exact .inl (same (String.toList_injective hz) henv.symm)
      · exact .inr (.inr (shifted_of hnil hz henv))
  · intro h
    rcases h with rfl | h | h
    · rfl
    · exact h.owner_eq
    · exact h.owner_eq.symm

theorem Shifted.base_longer (h : Shifted a b) : a.base.toList.length < b.base.toList.length := by
  obtain ⟨x, _, hbase, _⟩ := h
  rw [hbase, envProject_toList, envPart, List.length_append, List.length_cons]
  omega

/-- The names a baseline records tell the two apart. -/
theorem Shifted.names_ne (h : Shifted a b) : a.project ≠ b.project ∨ a.component ≠ b.component := by
  by_cases hp : a.project = b.project
  · refine .inr fun hc => ?_
    have hlt := h.base_longer
    rw [FootprintIdentity.base, FootprintIdentity.base, hp, hc] at hlt
    exact Nat.lt_irrefl _ hlt
  · exact .inl hp

theorem Shifted.env_ne (h : Shifted a b) : a.env ≠ b.env := by
  intro he
  have hlt := h.base_longer
  have howner := congrArg (fun s => s.toList.length) h.owner_eq
  simp only [FootprintIdentity.owner, footprintOwner, envProject_toList, List.length_append, he] at howner
  change a.base.toList.length + _ = b.base.toList.length + _ at howner
  omega

end Environments

/-! ## Footprints of different owners -/

section Apart

variable {a b : FootprintIdentity}

theorem slash_not_mem_envPart (a : FootprintIdentity) : '/' ∉ envPart a.env := by
  cases he : a.env with
  | none => simp [envPart]
  | some e =>
    rw [envPart, List.mem_cons, not_or]
    exact ⟨by decide, slash_not_mem_label (a.env_matches he)⟩

theorem slash_not_mem_owner (a : FootprintIdentity) : '/' ∉ a.owner.toList := by
  have hcomponent : '/' ∉ a.componentPart := by
    cases hc : a.component with
    | none => simp [FootprintIdentity.componentPart, hc]
    | some c =>
      have hlabel := slash_not_mem_label (a.component_label hc)
      simpa [FootprintIdentity.componentPart, hc] using hlabel
  show '/' ∉ (envProject a.base a.env).toList
  rw [envProject_toList, a.base_toList, List.mem_append, List.mem_append, not_or, not_or]
  exact ⟨⟨slash_not_mem_label a.project_label, hcomponent⟩, slash_not_mem_envPart a⟩

/-- No object is in the state of two owners. -/
theorem projectStatePrefix_disjoint (hab : a.owner ≠ b.owner) {clusterId key : String}
    (h : hasPrefix (projectStatePrefix clusterId a.owner) key = true) :
    hasPrefix (projectStatePrefix clusterId b.owner) key = false :=
  directory_disjoint (slash_not_mem_owner a) (slash_not_mem_owner b) hab h

/-- What leaves the entries of others leaves those of each other owner. -/
theorem others_apart {owner other : String} (hne : owner ≠ other) {existing after : List ServiceConfig}
    (h : after.filter (·.project ≠ owner) = existing.filter (·.project ≠ owner)) :
    after.filter (·.project = other) = existing.filter (·.project = other) := by
  have hsub : ∀ l : List ServiceConfig,
      (l.filter (·.project ≠ owner)).filter (·.project = other) = l.filter (·.project = other) := by
    intro l
    rw [List.filter_filter]
    apply List.filter_congr
    intro s _
    by_cases hs : s.project = other
    · simp [hs, Ne.symm hne]
    · simp [hs]
  rw [← hsub after, ← hsub existing, h]

/-- Whose footprint an owner is. -/
theorem footprints_apart (a b : FootprintIdentity) :
    (a.owner = b.owner ↔ a = b ∨ Shifted a b ∨ Shifted b a) ∧
    (Shifted a b → a.env ≠ b.env ∧ (a.project ≠ b.project ∨ a.component ≠ b.component)) ∧
    (a.owner ≠ b.owner →
      (∀ clusterId key, hasPrefix (projectStatePrefix clusterId a.owner) key = true →
        hasPrefix (projectStatePrefix clusterId b.owner) key = false) ∧
      (∀ existing incoming merged, mergeProjectServices existing a.owner incoming = .ok merged ∨
          mergeProjectServicesPartial existing a.owner incoming = .ok merged →
        merged.filter (·.project = b.owner) = existing.filter (·.project = b.owner)) ∧
      ∀ existing removeSet, (servicesAfterRemoval existing a.owner removeSet).filter (·.project = b.owner) =
        existing.filter (·.project = b.owner)) := by
  refine ⟨footprintOwner_eq_iff, fun h => ⟨h.env_ne, h.names_ne⟩, fun hne => ⟨?_, ?_, ?_⟩⟩
  · intro clusterId key h
    exact projectStatePrefix_disjoint hne h
  · intro existing incoming merged h
    rcases h with h | h
    · exact others_apart hne (full_others h)
    · exact others_apart hne (partial_others h)
  · intro existing removeSet
    exact others_apart hne (removal_others removeSet)

/-- Project `my` in the environment `app`. -/
def myInApp : FootprintIdentity := ⟨"my", none, some "app", by decide +kernel, by decide +kernel⟩

/-- Project `my-app`. -/
def myApp : FootprintIdentity := ⟨"my-app", none, none, by decide +kernel, by decide +kernel⟩

theorem owner_shared : myInApp ≠ myApp ∧ myInApp.owner = myApp.owner := by decide +kernel

end Apart

end LaunchPad
