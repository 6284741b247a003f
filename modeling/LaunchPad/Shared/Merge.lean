/-
  LaunchPad.Shared.Merge — a project's services merged into a node's (`shared/src/merge.ts`),
  and taken out of them again (`shared/src/undeploy.ts` `servicesAfterRemoval`).

  Proved:
  - `mergeProjectServices_ok`, `mergeProjectServicesPartial_ok`: what a merge that succeeds
    returns; its keys are distinct.
  - `full_others`, `partial_others`, `partial_siblings`: the entries a merge leaves alone,
    in their order.
  - `full_entries`, `partial_entries`: the entries it brings.
-/
import LaunchPad.Shared.Types
import Mathlib.Data.List.Nodup
import Mathlib.Data.List.Basic
import Mathlib.Algebra.Order.BigOperators.Group.List
import Mathlib.Algebra.Order.Ring.Int

namespace LaunchPad

inductive MergeError where
  | notOwned (fn key project : String)
  | duplicate (fn key : String)
  deriving DecidableEq, Repr

def assertOwned (project : String) (incoming : List ServiceConfig) (fn : String) : Except MergeError Unit :=
  match incoming.find? (·.project ≠ project) with
  | some s => .error (.notOwned fn s.key project)
  | none => .ok ()

/-- The loop of `assertNoDuplicates`, over the keys seen so far. -/
def firstDuplicate (seen : List String) : List ServiceConfig → Option String
  | [] => none
  | s :: rest => if s.key ∈ seen then some s.key else firstDuplicate (s.key :: seen) rest

def assertNoDuplicates (merged : List ServiceConfig) (fn : String) : Except MergeError Unit :=
  match firstDuplicate [] merged with
  | some key => .error (.duplicate fn key)
  | none => .ok ()

/-- Full: every entry of `project` is replaced. -/
def mergeProjectServices (existing : List ServiceConfig) (project : String) (incoming : List ServiceConfig) :
    Except MergeError (List ServiceConfig) := do
  assertOwned project incoming "mergeProjectServices"
  let others := existing.filter (·.project ≠ project)
  let merged := others ++ incoming
  assertNoDuplicates merged "mergeProjectServices"
  return merged

/-- `byService.get`: of two incoming entries of one name, the later. -/
def replacementFor (project : String) (incoming : List ServiceConfig) (s : ServiceConfig) : Option ServiceConfig :=
  if s.project = project then incoming.reverse.find? (·.service = s.service) else none

/-- A subset: entries are replaced in place, new ones appended, the rest kept. -/
def mergeProjectServicesPartial (existing : List ServiceConfig) (project : String) (incoming : List ServiceConfig) :
    Except MergeError (List ServiceConfig) := do
  assertOwned project incoming "mergeProjectServicesPartial"
  let applied := (existing.filterMap (replacementFor project incoming)).map (·.service)
  let merged := existing.map (fun s => (replacementFor project incoming s).getD s) ++
    incoming.filter fun s => !applied.contains s.service
  assertNoDuplicates merged "mergeProjectServicesPartial"
  return merged

/-- `none` takes the whole footprint out. -/
def servicesAfterRemoval (existing : List ServiceConfig) (ownerProject : String) (removeSet : Option (List String)) :
    List ServiceConfig :=
  existing.filter fun s => !(s.project = ownerProject && removeSet.all fun names => names.contains s.service)

/-! ## What the assertions say -/

theorem assertOwned_ok {project : String} {incoming : List ServiceConfig} {fn : String} :
    assertOwned project incoming fn = .ok () ↔ ∀ s ∈ incoming, s.project = project := by
  unfold assertOwned
  split
  · rename_i s hs
    have hmem := List.mem_of_find?_eq_some hs
    have hne := List.find?_some hs
    constructor
    · intro h; cases h
    · intro h
      simp [h s hmem] at hne
  · rename_i hnone
    constructor
    · intro _ s hs
      have := List.find?_eq_none.mp hnone s hs
      simpa using this
    · intro _; rfl

theorem firstDuplicate_none {seen : List String} {l : List ServiceConfig} :
    firstDuplicate seen l = none ↔ (l.map (·.key)).Nodup ∧ ∀ s ∈ l, s.key ∉ seen := by
  induction l generalizing seen with
  | nil => simp [firstDuplicate]
  | cons s l ih =>
    rw [firstDuplicate]
    split
    · rename_i hs
      simp [hs]
    · rename_i hs
      rw [ih, List.map_cons, List.nodup_cons]
      constructor
      · intro ⟨hnd, hnot⟩
        refine ⟨⟨?_, hnd⟩, ?_⟩
        · intro hmem
          obtain ⟨x, hx, he⟩ := List.mem_map.mp hmem
          exact hnot x hx (he ▸ List.mem_cons_self ..)
        · intro x hx
          rcases List.mem_cons.mp hx with rfl | hx
          · exact hs
          · exact fun h => hnot x hx (List.mem_cons_of_mem _ h)
      · intro ⟨⟨hnew, hnd⟩, hnot⟩
        refine ⟨hnd, fun x hx hmem => ?_⟩
        rcases List.mem_cons.mp hmem with he | hmem
        · exact hnew (List.mem_map.mpr ⟨x, hx, he⟩)
        · exact hnot x (List.mem_cons_of_mem _ hx) hmem

theorem assertNoDuplicates_ok {merged : List ServiceConfig} {fn : String} :
    assertNoDuplicates merged fn = .ok () ↔ (merged.map (·.key)).Nodup := by
  unfold assertNoDuplicates
  split
  · rename_i key h
    constructor
    · intro e; cases e
    · intro hnd
      have hnone : firstDuplicate [] merged = none := firstDuplicate_none.mpr ⟨hnd, fun _ _ => List.not_mem_nil⟩
      rw [hnone] at h
      cases h
  · rename_i h
    exact ⟨fun _ => (firstDuplicate_none.mp h).1, fun _ => rfl⟩

/-! ## What a merge returns -/

section Merge

variable {existing incoming merged : List ServiceConfig} {project : String}

theorem mergeProjectServices_ok :
    mergeProjectServices existing project incoming = .ok merged ↔
      (∀ s ∈ incoming, s.project = project) ∧ merged = existing.filter (·.project ≠ project) ++ incoming ∧
        (merged.map (·.key)).Nodup := by
  unfold mergeProjectServices
  cases ho : assertOwned project incoming "mergeProjectServices" with
  | error e =>
    have hno := mt (@assertOwned_ok project incoming "mergeProjectServices").mpr (by rw [ho]; intro h; cases h)
    constructor
    · intro h; cases h
    · intro h; exact absurd h.1 hno
  | ok u =>
    have howned := assertOwned_ok.mp ho
    cases hd : assertNoDuplicates (existing.filter (·.project ≠ project) ++ incoming) "mergeProjectServices" with
    | error e =>
      simp only [hd, bind, Except.bind]
      constructor
      · intro h; cases h
      · intro ⟨_, hm, hnd⟩
        rw [hm] at hnd
        rw [assertNoDuplicates_ok.mpr hnd] at hd
        cases hd
    | ok u =>
      simp only [hd, bind, Except.bind, pure, Except.pure]
      constructor
      · intro h
        cases h
        exact ⟨howned, rfl, assertNoDuplicates_ok.mp hd⟩
      · intro h
        rw [h.2.1]

/-- The merged list of a partial merge. -/
def upserted (existing : List ServiceConfig) (project : String) (incoming : List ServiceConfig) : List ServiceConfig :=
  existing.map (fun s => (replacementFor project incoming s).getD s) ++
    incoming.filter fun s => !((existing.filterMap (replacementFor project incoming)).map (·.service)).contains s.service

theorem mergeProjectServicesPartial_ok :
    mergeProjectServicesPartial existing project incoming = .ok merged ↔
      (∀ s ∈ incoming, s.project = project) ∧ merged = upserted existing project incoming ∧
        (merged.map (·.key)).Nodup := by
  unfold mergeProjectServicesPartial
  cases ho : assertOwned project incoming "mergeProjectServicesPartial" with
  | error e =>
    have hno := mt (@assertOwned_ok project incoming "mergeProjectServicesPartial").mpr (by rw [ho]; intro h; cases h)
    constructor
    · intro h; cases h
    · intro h; exact absurd h.1 hno
  | ok u =>
    have howned := assertOwned_ok.mp ho
    cases hd : assertNoDuplicates (upserted existing project incoming) "mergeProjectServicesPartial" with
    | error e =>
      unfold upserted at hd
      simp only [hd, bind, Except.bind]
      constructor
      · intro h; cases h
      · intro ⟨_, hm, hnd⟩
        rw [hm, upserted] at hnd
        rw [assertNoDuplicates_ok.mpr hnd] at hd
        cases hd
    | ok u =>
      have hnd := assertNoDuplicates_ok.mp hd
      unfold upserted at hd
      simp only [hd, bind, Except.bind, pure, Except.pure]
      constructor
      · intro h
        cases h
        exact ⟨howned, rfl, hnd⟩
      · intro h
        rw [h.2.1, upserted]

theorem replacementFor_some {s r : ServiceConfig} (h : replacementFor project incoming s = some r) :
    s.project = project ∧ r ∈ incoming ∧ r.service = s.service := by
  unfold replacementFor at h
  split at h
  · rename_i hp
    refine ⟨hp, List.mem_reverse.mp (List.mem_of_find?_eq_some h), ?_⟩
    simpa using List.find?_some h
  · cases h

/-! ## What a merge leaves alone -/

/-- An entry that nothing incoming replaces, as a test on entries. -/
def Beside (keep : ServiceConfig → Bool) (project : String) (incoming : List ServiceConfig) : Prop :=
  (∀ s ∈ incoming, keep s = false) ∧ ∀ s r, replacementFor project incoming s = some r → keep s = false

theorem upserted_filter {keep : ServiceConfig → Bool} (h : Beside keep project incoming) :
    (upserted existing project incoming).filter keep = existing.filter keep := by
  unfold upserted
  rw [List.filter_append]
  have hnew : (incoming.filter fun s => !((existing.filterMap (replacementFor project incoming)).map
      (·.service)).contains s.service).filter keep = [] := by
    rw [List.filter_eq_nil_iff]
    intro s hs hk
    rw [h.1 s (List.mem_filter.mp hs).1] at hk
    cases hk
  rw [hnew, List.append_nil]
  induction existing with
  | nil => rfl
  | cons s l ih =>
    have ih := ih (by
      rw [List.filter_eq_nil_iff]
      intro x hx hk
      rw [h.1 x (List.mem_filter.mp hx).1] at hk
      cases hk)
    rw [List.map_cons]
    cases hr : replacementFor project incoming s with
    | none =>
      rw [Option.getD_none]
      simp only [List.filter_cons, ih]
    | some r =>
      rw [Option.getD_some]
      have hk := h.2 s r hr
      have hk' := h.1 r (replacementFor_some hr).2.1
      simp only [List.filter_cons, hk, hk', Bool.false_eq_true, if_false, ih]

theorem beside_others (howned : ∀ s ∈ incoming, s.project = project) :
    Beside (fun s => decide (s.project ≠ project)) project incoming := by
  constructor
  · intro s hs
    simp [howned s hs]
  · intro s r hr
    simp [(replacementFor_some hr).1]

/-- A full merge keeps the other projects' entries. -/
theorem full_others (h : mergeProjectServices existing project incoming = .ok merged) :
    merged.filter (·.project ≠ project) = existing.filter (·.project ≠ project) := by
  obtain ⟨howned, rfl, _⟩ := (mergeProjectServices_ok).mp h
  rw [List.filter_append, List.filter_filter]
  have hnone : incoming.filter (·.project ≠ project) = [] := by
    rw [List.filter_eq_nil_iff]
    intro s hs
    simp [howned s hs]
  rw [hnone, List.append_nil]
  simp

/-- So does a partial one. -/
theorem partial_others (h : mergeProjectServicesPartial existing project incoming = .ok merged) :
    merged.filter (·.project ≠ project) = existing.filter (·.project ≠ project) := by
  obtain ⟨howned, rfl, _⟩ := (mergeProjectServicesPartial_ok).mp h
  exact upserted_filter (beside_others howned)

/-- A partial merge keeps every entry but those of the services it brings. -/
theorem partial_siblings (h : mergeProjectServicesPartial existing project incoming = .ok merged) {keep : ServiceConfig → Bool}
    (hkeep : ∀ s, s.project = project → s.service ∈ incoming.map (·.service) → keep s = false) :
    merged.filter keep = existing.filter keep := by
  obtain ⟨howned, rfl, _⟩ := (mergeProjectServicesPartial_ok).mp h
  apply upserted_filter
  constructor
  · intro s hs
    exact hkeep s (howned s hs) (List.mem_map.mpr ⟨s, hs, rfl⟩)
  · intro s r hr
    obtain ⟨hp, hr, he⟩ := replacementFor_some hr
    exact hkeep s hp (List.mem_map.mpr ⟨r, hr, he⟩)

theorem removal_others (removeSet : Option (List String)) :
    (servicesAfterRemoval existing project removeSet).filter (·.project ≠ project) =
      existing.filter (·.project ≠ project) := by
  unfold servicesAfterRemoval
  rw [List.filter_filter]
  apply List.filter_congr
  intro s _
  by_cases hs : s.project = project <;> simp [hs]

/-! ## A service's entries -/

def entriesOf (project service : String) (services : List ServiceConfig) : List ServiceConfig :=
  services.filter fun s => s.project = project ∧ s.service = service

def replicasOf (project service : String) (services : List ServiceConfig) : Int :=
  ((entriesOf project service services).map (·.replicas)).sum

theorem mem_entriesOf {service : String} {services : List ServiceConfig} {s : ServiceConfig} :
    s ∈ entriesOf project service services ↔ s ∈ services ∧ s.project = project ∧ s.service = service := by
  simp [entriesOf]

theorem replicasOf_nil {service : String} {services : List ServiceConfig}
    (h : entriesOf project service services = []) : replicasOf project service services = 0 := by
  rw [replicasOf, h]
  rfl

/-- No replicas is no entries, of services that each have some. -/
theorem replicasOf_eq_zero {service : String} {services : List ServiceConfig} (h : ∀ s ∈ services, 1 ≤ s.replicas) :
    0 ≤ replicasOf project service services ∧
      (replicasOf project service services = 0 ↔ entriesOf project service services = []) := by
  have hpos : ∀ s ∈ entriesOf project service services, 1 ≤ s.replicas := fun s hs => h s (mem_entriesOf.mp hs).1
  unfold replicasOf
  generalize entriesOf project service services = l at hpos
  have hnonneg : ∀ l : List ServiceConfig, (∀ s ∈ l, 1 ≤ s.replicas) → 0 ≤ (l.map (·.replicas)).sum := by
    intro l hl
    apply List.sum_nonneg
    intro n hn
    obtain ⟨s, hs, rfl⟩ := List.mem_map.mp hn
    have := hl s hs
    omega
  refine ⟨hnonneg l hpos, ?_⟩
  cases l with
  | nil => simp
  | cons s l =>
    have hs := hpos s (List.mem_cons_self ..)
    have hl := hnonneg l fun x hx => hpos x (List.mem_cons_of_mem _ hx)
    rw [List.map_cons, List.sum_cons]
    constructor
    · intro hz; omega
    · intro he; cases he

/-- After a full merge a service has the entries it was given. -/
theorem full_entries (h : mergeProjectServices existing project incoming = .ok merged) (service : String) :
    entriesOf project service merged = entriesOf project service incoming := by
  obtain ⟨_, rfl, _⟩ := (mergeProjectServices_ok).mp h
  unfold entriesOf
  rw [List.filter_append]
  have hnone : (existing.filter (·.project ≠ project)).filter (fun s => s.project = project ∧ s.service = service) = [] := by
    rw [List.filter_eq_nil_iff]
    intro s hs
    have hs := (List.mem_filter.mp hs).2
    simp only [ne_eq, decide_eq_true_eq] at hs
    simp [hs]
  rw [hnone, List.nil_append]

/-- Of entries with distinct keys, at most one is a service's. -/
theorem entriesOf_single {services : List ServiceConfig} (hnd : (services.map (·.key)).Nodup) {r : ServiceConfig}
    (hr : r ∈ services) : entriesOf r.project r.service services = [r] := by
  induction services with
  | nil => cases hr
  | cons s services ih =>
    rw [List.map_cons, List.nodup_cons] at hnd
    rcases List.mem_cons.mp hr with rfl | hr
    · have hrest : entriesOf r.project r.service services = [] := by
        unfold entriesOf
        rw [List.filter_eq_nil_iff]
        intro x hx hmatch
        have hmatch : x.project = r.project ∧ x.service = r.service := by simpa using hmatch
        apply hnd.1
        refine List.mem_map.mpr ⟨x, hx, ?_⟩
        rw [ServiceConfig.key, hmatch.1, hmatch.2]
        rfl
      unfold entriesOf at hrest ⊢
      rw [List.filter_cons_of_pos (by simp), hrest]
    · have hne : ¬(s.project = r.project ∧ s.service = r.service) := by
        intro hmatch
        apply hnd.1
        refine List.mem_map.mpr ⟨r, hr, ?_⟩
        rw [ServiceConfig.key, ServiceConfig.key, hmatch.1, hmatch.2]
      have hskip : entriesOf r.project r.service (s :: services) = entriesOf r.project r.service services := by
        unfold entriesOf
        rw [List.filter_cons_of_neg (by simpa using hne)]
      rw [hskip]
      exact ih hnd.2 hr

/-- After a partial merge, a service it brings has the entry it was given. -/
theorem partial_entries (h : mergeProjectServicesPartial existing project incoming = .ok merged)
    (hnd : (incoming.map (·.service)).Nodup) {r : ServiceConfig} (hr : r ∈ incoming) :
    entriesOf project r.service merged = [r] := by
  obtain ⟨howned, rfl, hkeys⟩ := (mergeProjectServicesPartial_ok).mp h
  have hmem : r ∈ upserted existing project incoming := by
    unfold upserted
    by_cases happ : r.service ∈ (existing.filterMap (replacementFor project incoming)).map (·.service)
    · -- some entry is replaced by the incoming one of its name
      obtain ⟨r', hr', hname⟩ := List.mem_map.mp happ
      obtain ⟨s, hs, hrep⟩ := List.mem_filterMap.mp hr'
      obtain rfl : r' = r := List.inj_on_of_nodup_map hnd (replacementFor_some hrep).2.1 hr hname
      exact List.mem_append_left _ (List.mem_map.mpr ⟨s, hs, by rw [hrep]; rfl⟩)
    · exact List.mem_append_right _ (List.mem_filter.mpr ⟨hr, by simpa using happ⟩)
  have hsingle := entriesOf_single hkeys hmem
  rwa [howned r hr] at hsingle

/-- A service that a partial merge does not bring keeps its entries. -/
theorem partial_entries_kept (h : mergeProjectServicesPartial existing project incoming = .ok merged) {service : String}
    (hnot : service ∉ incoming.map (·.service)) : entriesOf project service merged = entriesOf project service existing := by
  apply partial_siblings h
  intro s _ hs
  simp only [decide_eq_false_iff_not, not_and]
  intro _ he
  exact hnot (he ▸ hs)

end Merge

end LaunchPad
