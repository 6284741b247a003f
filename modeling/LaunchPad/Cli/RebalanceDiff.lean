/-
  LaunchPad.Cli.RebalanceDiff — what a rebalance reports (`deploy/rebalance-plan.ts`):
  two placements, each a list of services with their nodes' replica counts, and the cells
  where they differ. `Cli.Rebalance` publishes by the same diff, over plain maps.

  A count of zero is as good as no entry: both placements lose their zero cells before they
  are compared. The changes are sorted with `localeCompare`, a parameter here.

  Proved:
  - `mem_changes`: a cell is a change exactly where the counts differ, with both counts.
  - `diff_exact`: the changes, applied to the present placement, give the planned one; a
    service has a change exactly when its counts differ; the vacated nodes are those with a
    replica before and none after.
  - `changed_node_published`: a node with a change hosts something of the new placement, or
    is vacated.
  - `rebalance_changes`: the diff that `Cli.Rebalance` publishes by has the same changes.
-/
import LaunchPad.Cli.Rebalance

namespace LaunchPad.Cli.RebalancePlan

open Lib

/-! ## Placements -/

/-- `ServicePlacement`, its `byNode` a `Map`. -/
structure ServicePlacement where
  service : String
  byNode : FirstSeen String Int

/-- A service's replicas on a node; a service or node that is not there has none. -/
def countOf (placement : List ServicePlacement) (service node : String) : Int :=
  match placement.find? (·.service = service) with
  | none => 0
  | some p => (SortedMap.get node p.byNode.byKey).getD 0

def currentPlacement (snapshot : DeployedPlacementSnapshot) : List ServicePlacement :=
  let byService := snapshot.byNode.foldl (fun byService e =>
    e.2.foldl (fun byService occ =>
      byService.upsert occ.service fun m => (m.getD FirstSeen.empty).upsert e.1 fun _ => occ.replicas) byService) FirstSeen.empty
  byService.entries.map fun e => ⟨e.1, e.2⟩

/-! ## The diff -/

/-- The positive replicas of each node, all services together. -/
def occupancyByNode (placement : List ServicePlacement) : FirstSeen String Int :=
  placement.foldl (fun total p => p.byNode.entries.foldl (fun total e =>
    if e.2 ≤ 0 then total else total.upsert e.1 fun t => t.getD 0 + e.2) total) FirstSeen.empty

/-- A service's map without its zero counts. -/
def clean (byNode : FirstSeen String Int) : FirstSeen String Int :=
  FirstSeen.ofPairs (byNode.entries.filter fun e => 0 < e.2)

def bySvc (placement : List ServicePlacement) : FirstSeen String (FirstSeen String Int) :=
  FirstSeen.ofPairs (placement.map fun p => (p.service, clean p.byNode))

/-- `map.get(service) ?? new Map()`. -/
def nodesOf (map : FirstSeen String (FirstSeen String Int)) (service : String) : FirstSeen String Int :=
  (SortedMap.get service map.byKey).getD FirstSeen.empty

/-- `a.get(node) ?? 0`. -/
def replicasAt (a : FirstSeen String Int) (node : String) : Int := (SortedMap.get node a.byKey).getD 0

/-- The changed cells of one service. -/
def changesOfService (a b : FirstSeen String Int) (service : String) : List RebalanceChange :=
  (a.order ++ b.order).eraseDups.filterMap fun node =>
    if replicasAt a node ≠ replicasAt b node then some ⟨service, node, replicasAt a node, replicasAt b node⟩ else none

structure RebalanceDiff where
  changed : Bool
  changes : List RebalanceChange
  vacatedNodes : List String
  deriving DecidableEq, Repr

/-- By service, then by node. -/
def inOrder (localeCompare : String → String → Int) (x y : RebalanceChange) : Bool :=
  let byService := localeCompare x.service y.service
  decide ((if byService ≠ 0 then byService else localeCompare x.node y.node) ≤ 0)

def diffPlacement (localeCompare : String → String → Int) (current planned : List ServicePlacement) : RebalanceDiff :=
  let cur := bySvc current
  let next := bySvc planned
  let changes := ((cur.order ++ next.order).eraseDups.flatMap fun service =>
    changesOfService (nodesOf cur service) (nodesOf next service) service).insertionSort fun x y => inOrder localeCompare x y
  let before := occupancyByNode current
  let after := occupancyByNode planned
  { changed := !changes.isEmpty
    changes
    vacatedNodes := (before.order.filter fun node => !(SortedMap.get node after.byKey).isSome).insertionSort (· ≤ ·) }

/-! ## Applying changes -/

/-- Give the cell its new count. -/
def applyChange : List ServicePlacement → RebalanceChange → List ServicePlacement
  | [], c => [⟨c.service, FirstSeen.empty.upsert c.node fun _ => c.toCount⟩]
  | p :: placement, c =>
    if p.service = c.service then { p with byNode := p.byNode.upsert c.node fun _ => c.toCount } :: placement
    else p :: applyChange placement c

def applyChanges (placement : List ServicePlacement) (changes : List RebalanceChange) : List ServicePlacement :=
  changes.foldl applyChange placement

/-- Two placements with the same counts. -/
def SamePlacement (P Q : List ServicePlacement) : Prop := ∀ service node, countOf P service node = countOf Q service node

/-- What a placement is: each service once, no count below zero. -/
structure WellFormed (placement : List ServicePlacement) : Prop where
  nodup : (placement.map (·.service)).Nodup
  nonneg : ∀ p ∈ placement, ∀ e ∈ p.byNode.entries, 0 ≤ e.2

section Counts

variable {P : List ServicePlacement} {service node : String}

theorem countOf_cons (p : ServicePlacement) :
    countOf (p :: P) service node =
      if p.service = service then (SortedMap.get node p.byNode.byKey).getD 0 else countOf P service node := by
  unfold countOf
  rw [List.find?_cons]
  by_cases h : p.service = service <;> simp [h]

/-- A count that is there is some service's. -/
theorem mem_of_countOf (h : countOf P service node ≠ 0) :
    ∃ p ∈ P, p.service = service ∧ SortedMap.get node p.byNode.byKey = some (countOf P service node) := by
  induction P with
  | nil => exact absurd rfl h
  | cons p P ih =>
    rw [countOf_cons] at h ⊢
    by_cases hs : p.service = service
    · rw [if_pos hs] at h ⊢
      refine ⟨p, List.mem_cons_self .., hs, ?_⟩
      cases hget : SortedMap.get node p.byNode.byKey with
      | none => rw [hget] at h; exact absurd rfl h
      | some n => rfl
    · rw [if_neg hs] at h ⊢
      obtain ⟨q, hq, hqs⟩ := ih h
      exact ⟨q, List.mem_cons_of_mem _ hq, hqs⟩

theorem countOf_of_mem (hP : (P.map (·.service)).Nodup) {p : ServicePlacement} (hp : p ∈ P) :
    countOf P p.service node = (SortedMap.get node p.byNode.byKey).getD 0 := by
  induction P with
  | nil => cases hp
  | cons q P ih =>
    rw [List.map_cons, List.nodup_cons] at hP
    rw [countOf_cons]
    rcases List.mem_cons.mp hp with rfl | hp
    · rw [if_pos rfl]
    · rw [if_neg fun h => hP.1 (List.mem_map.mpr ⟨p, hp, h.symm⟩), ih hP.2 hp]

theorem countOf_absent (h : ∀ p ∈ P, p.service ≠ service) : countOf P service node = 0 := by
  by_contra hne
  obtain ⟨p, hp, hs, _⟩ := mem_of_countOf hne
  exact h p hp hs

theorem countOf_nonneg (hP : WellFormed P) : 0 ≤ countOf P service node := by
  by_cases h : countOf P service node = 0
  · rw [h]
  · obtain ⟨p, hp, _, hget⟩ := mem_of_countOf h
    exact hP.nonneg p hp _ (FirstSeen.mem_entries.mpr hget)

theorem countOf_applyChange (c : RebalanceChange) :
    countOf (applyChange P c) service node =
      if service = c.service ∧ node = c.node then c.toCount else countOf P service node := by
  induction P with
  | nil =>
    rw [applyChange, countOf_cons, FirstSeen.get_upsert]
    by_cases hs : c.service = service
    · by_cases hn : node = c.node
      · simp [hs, hn]
      · simp [hs, hn, countOf, FirstSeen.empty, SortedMap.get]
    · simp [hs, Ne.symm hs, countOf]
  | cons p P ih =>
    rw [applyChange]
    by_cases hp : p.service = c.service
    · rw [if_pos hp, countOf_cons, countOf_cons, FirstSeen.get_upsert]
      by_cases hs : p.service = service
      · by_cases hn : node = c.node
        · simp [hs, hn, ← hp]
        · simp [hs, hn]
      · have hne : service ≠ c.service := fun e => hs (hp.trans e.symm)
        simp [hs, hne]
    · rw [if_neg hp, countOf_cons, countOf_cons, ih]
      by_cases hs : p.service = service
      · have hne : service ≠ c.service := fun e => hp (hs.trans e)
        simp [hs, hne]
      · simp [hs]

/-- Changes that carry the target's counts, and miss no cell, give the target. -/
theorem applyChanges_exact {Q : List ServicePlacement} {changes : List RebalanceChange}
    (htarget : ∀ c ∈ changes, c.toCount = countOf Q c.service c.node)
    (hcover : ∀ service node, countOf P service node = countOf Q service node ∨
      ∃ c ∈ changes, c.service = service ∧ c.node = node) :
    SamePlacement (applyChanges P changes) Q := by
  induction changes generalizing P with
  | nil =>
    intro s n
    rcases hcover s n with h | ⟨c, hc, _⟩
    · exact h
    · cases hc
  | cons c changes ih =>
    refine ih (fun x hx => htarget x (List.mem_cons_of_mem _ hx)) fun s n => ?_
    rw [countOf_applyChange]
    by_cases hc : s = c.service ∧ n = c.node
    · left
      rw [if_pos hc, hc.1, hc.2]
      exact htarget c (List.mem_cons_self ..)
    · rw [if_neg hc]
      rcases hcover s n with h | ⟨x, hx, hs, hn⟩
      · exact .inl h
      · rcases List.mem_cons.mp hx with rfl | hx
        · exact absurd ⟨hs.symm, hn.symm⟩ hc
        · exact .inr ⟨x, hx, hs, hn⟩

end Counts

/-! ## The two maps of maps -/

section Maps

variable {P Q : List ServicePlacement} {service node : String}

theorem get_clean (byNode : FirstSeen String Int) {n : Int} :
    SortedMap.get node (clean byNode).byKey = some n ↔ SortedMap.get node byNode.byKey = some n ∧ 0 < n := by
  have hmem : ∀ a, (node, a) ∈ byNode.entries.filter (fun e => 0 < e.2) ↔
      SortedMap.get node byNode.byKey = some a ∧ 0 < a := by
    intro a
    rw [List.mem_filter, FirstSeen.mem_entries]
    simp
  unfold clean
  rw [FirstSeen.get_ofPairs, hmem]
  intro a b ha hb
  have hab := ((hmem a).mp ha).1.symm.trans ((hmem b).mp hb).1
  exact Option.some.inj hab

/-- Only a zero count is lost. -/
theorem replicasAt_clean {byNode : FirstSeen String Int} (h : ∀ e ∈ byNode.entries, 0 ≤ e.2) :
    replicasAt (clean byNode) node = (SortedMap.get node byNode.byKey).getD 0 := by
  unfold replicasAt
  cases hget : SortedMap.get node byNode.byKey with
  | none =>
    cases hclean : SortedMap.get node (clean byNode).byKey with
    | none => rfl
    | some n => rw [get_clean, hget] at hclean; cases hclean.1
  | some n =>
    have hn : 0 ≤ n := h _ (FirstSeen.mem_entries.mpr hget)
    by_cases hpos : 0 < n
    · rw [(get_clean byNode).mpr ⟨hget, hpos⟩]
    · have hnone : SortedMap.get node (clean byNode).byKey = none := by
        cases hclean : SortedMap.get node (clean byNode).byKey with
        | none => rfl
        | some m =>
          obtain ⟨hm, hmpos⟩ := (get_clean byNode).mp hclean
          rw [hget] at hm
          cases hm
          exact absurd hmpos hpos
      rw [hnone]
      simp only [Option.getD_none, Option.getD_some]
      omega

/-- A service's map, cleaned, counts what the placement counts. -/
theorem replicasAt_nodesOf (hP : WellFormed P) : replicasAt (nodesOf (bySvc P) service) node = countOf P service node := by
  have hget : ∀ m, SortedMap.get service (bySvc P).byKey = some m ↔ ∃ p ∈ P, p.service = service ∧ clean p.byNode = m := by
    intro m
    unfold bySvc
    rw [FirstSeen.get_ofPairs]
    · simp
    · intro a b ha hb
      obtain ⟨p, hp, ep⟩ := List.mem_map.mp ha
      obtain ⟨q, hq, eq⟩ := List.mem_map.mp hb
      cases ep
      obtain ⟨hs, rfl⟩ := Prod.mk.inj eq
      rw [List.inj_on_of_nodup_map hP.nodup hp hq hs.symm]
  unfold nodesOf
  cases hm : SortedMap.get service (bySvc P).byKey with
  | none =>
    have habsent : ∀ p ∈ P, p.service ≠ service := fun p hp hs => by simpa [hm] using (hget _).mpr ⟨p, hp, hs, rfl⟩
    rw [countOf_absent habsent]
    rfl
  | some m =>
    obtain ⟨p, hp, rfl, rfl⟩ := (hget m).mp hm
    rw [Option.getD_some, countOf_of_mem hP.nodup hp]
    exact replicasAt_clean (hP.nonneg p hp)

/-- A node with a count is a key of the map. -/
theorem mem_order_of_replicasAt {a : FirstSeen String Int} (h : replicasAt a node ≠ 0) : node ∈ a.order := by
  rw [a.mem_order]
  unfold replicasAt at h
  cases hget : SortedMap.get node a.byKey with
  | none => rw [hget] at h; exact absurd rfl h
  | some n => rfl

theorem mem_order_of_nodesOf {m : FirstSeen String (FirstSeen String Int)} (h : replicasAt (nodesOf m service) node ≠ 0) :
    service ∈ m.order := by
  rw [m.mem_order]
  unfold nodesOf at h
  cases hget : SortedMap.get service m.byKey with
  | none => rw [hget] at h; exact absurd rfl h
  | some b => rfl

theorem mem_changesOfService {a b : FirstSeen String Int} {c : RebalanceChange} :
    c ∈ changesOfService a b service ↔
      c.service = service ∧ c.fromCount = replicasAt a c.node ∧ c.toCount = replicasAt b c.node ∧
        replicasAt a c.node ≠ replicasAt b c.node := by
  unfold changesOfService
  rw [List.mem_filterMap]
  constructor
  · intro ⟨n, _, h⟩
    split at h
    · rename_i hne
      cases h
      exact ⟨rfl, rfl, rfl, hne⟩
    · cases h
  · intro ⟨hs, hfrom, hto, hne⟩
    refine ⟨c.node, ?_, ?_⟩
    · rw [List.mem_eraseDups, List.mem_append]
      by_cases ha : replicasAt a c.node = 0
      · exact .inr (mem_order_of_replicasAt fun hb => hne (ha.trans hb.symm))
      · exact .inl (mem_order_of_replicasAt ha)
    · rw [if_pos hne, ← hfrom, ← hto, ← hs]

theorem mem_order_occupancyByNode : node ∈ (occupancyByNode P).order ↔ ∃ p ∈ P, ∃ e ∈ p.byNode.entries, e.1 = node ∧ 0 < e.2 := by
  have hone : ∀ (entries : List (String × Int)) (total : FirstSeen String Int),
      node ∈ (entries.foldl (fun total e => if e.2 ≤ 0 then total else total.upsert e.1 fun t => t.getD 0 + e.2) total).order ↔
        node ∈ total.order ∨ ∃ e ∈ entries, e.1 = node ∧ 0 < e.2 := by
    intro entries
    induction entries with
    | nil => simp
    | cons e entries ih =>
      intro total
      rw [List.foldl_cons, ih]
      by_cases he : e.2 ≤ 0
      · have hnot : ¬ 0 < e.2 := by omega
        simp [he, hnot]
      · have hpos : 0 < e.2 := by omega
        rw [if_neg he, FirstSeen.mem_order_upsert]
        simp only [List.exists_mem_cons_iff, hpos, and_true, eq_comm]
        tauto
  have hall : ∀ (Q : List ServicePlacement) (total : FirstSeen String Int),
      node ∈ (Q.foldl (fun total p => p.byNode.entries.foldl (fun total e =>
          if e.2 ≤ 0 then total else total.upsert e.1 fun t => t.getD 0 + e.2) total) total).order ↔
        node ∈ total.order ∨ ∃ p ∈ Q, ∃ e ∈ p.byNode.entries, e.1 = node ∧ 0 < e.2 := by
    intro Q
    induction Q with
    | nil => simp
    | cons p Q ih =>
      intro total
      rw [List.foldl_cons, ih, hone, List.exists_mem_cons_iff]
      exact or_assoc
  have hempty : node ∉ (FirstSeen.empty : FirstSeen String Int).order := by simp [FirstSeen.empty]
  unfold occupancyByNode
  rw [hall]
  simp [hempty]

/-- A node has a positive total exactly when some service has a replica there. -/
theorem mem_occupancyByNode (hP : WellFormed P) : node ∈ (occupancyByNode P).order ↔ ∃ service, 0 < countOf P service node := by
  rw [mem_order_occupancyByNode]
  constructor
  · intro ⟨p, hp, e, he, hnode, hpos⟩
    subst hnode
    have hget : SortedMap.get e.1 p.byNode.byKey = some e.2 := FirstSeen.mem_entries.mp he
    refine ⟨p.service, ?_⟩
    rw [countOf_of_mem hP.nodup hp, hget]
    exact hpos
  · intro ⟨service, hpos⟩
    obtain ⟨p, hp, _, hget⟩ := mem_of_countOf (Int.ne_of_gt hpos)
    exact ⟨p, hp, (node, countOf P service node), FirstSeen.mem_entries.mpr hget, rfl, hpos⟩

end Maps

/-! ## The diff is exact -/

section Diff

variable {localeCompare : String → String → Int} {P Q : List ServicePlacement} {service node : String}

theorem mem_changes (hP : WellFormed P) (hQ : WellFormed Q) {c : RebalanceChange} :
    c ∈ (diffPlacement localeCompare P Q).changes ↔
      c.fromCount = countOf P c.service c.node ∧ c.toCount = countOf Q c.service c.node ∧
        countOf P c.service c.node ≠ countOf Q c.service c.node := by
  unfold diffPlacement
  rw [List.mem_insertionSort, List.mem_flatMap]
  constructor
  · intro ⟨s, _, hc⟩
    obtain ⟨hs, hfrom, hto, hne⟩ := mem_changesOfService.mp hc
    subst hs
    simp only [replicasAt_nodesOf hP, replicasAt_nodesOf hQ] at hfrom hto hne
    exact ⟨hfrom, hto, hne⟩
  · intro ⟨hfrom, hto, hne⟩
    refine ⟨c.service, ?_, mem_changesOfService.mpr ?_⟩
    · rw [List.mem_eraseDups, List.mem_append]
      by_cases hP0 : countOf P c.service c.node = 0
      · have hQ0 : replicasAt (nodesOf (bySvc Q) c.service) c.node ≠ 0 := by
          rw [replicasAt_nodesOf hQ]
          exact fun h => hne (hP0.trans h.symm)
        exact .inr (mem_order_of_nodesOf hQ0)
      · have hP0' : replicasAt (nodesOf (bySvc P) c.service) c.node ≠ 0 := by
          rw [replicasAt_nodesOf hP]
          exact hP0
        exact .inl (mem_order_of_nodesOf hP0')
    · rw [replicasAt_nodesOf hP, replicasAt_nodesOf hQ]
      exact ⟨rfl, hfrom, hto, hne⟩

theorem mem_vacatedNodes (hP : WellFormed P) (hQ : WellFormed Q) :
    node ∈ (diffPlacement localeCompare P Q).vacatedNodes ↔
      (∃ service, 0 < countOf P service node) ∧ ∀ service, countOf Q service node = 0 := by
  have hafter : (!(SortedMap.get node (occupancyByNode Q).byKey).isSome) = true ↔ ∀ service, countOf Q service node = 0 := by
    rw [Bool.not_eq_true', ← Bool.not_eq_true, ← (occupancyByNode Q).mem_order, mem_occupancyByNode hQ]
    push Not
    refine forall_congr' fun s => ?_
    have : 0 ≤ countOf Q s node := countOf_nonneg hQ
    omega
  unfold diffPlacement
  rw [List.mem_insertionSort, List.mem_filter, mem_occupancyByNode hP, hafter]

/-- The diff of two placements: what applying it gives, which services it names, which nodes
    it vacates. -/
theorem diff_exact (hP : WellFormed P) (hQ : WellFormed Q) :
    SamePlacement (applyChanges P (diffPlacement localeCompare P Q).changes) Q ∧
      (∀ c ∈ (diffPlacement localeCompare P Q).changes,
        c.fromCount = countOf P c.service c.node ∧ c.toCount = countOf Q c.service c.node ∧ c.fromCount ≠ c.toCount) ∧
      (∀ service, (∃ c ∈ (diffPlacement localeCompare P Q).changes, c.service = service) ↔
        ∃ node, countOf P service node ≠ countOf Q service node) ∧
      ((diffPlacement localeCompare P Q).changed = true ↔ ¬ SamePlacement P Q) ∧
      ∀ node, node ∈ (diffPlacement localeCompare P Q).vacatedNodes ↔
        (∃ service, 0 < countOf P service node) ∧ ∀ service, countOf Q service node = 0 := by
  have hcell : ∀ s n, countOf P s n ≠ countOf Q s n →
      (⟨s, n, countOf P s n, countOf Q s n⟩ : RebalanceChange) ∈ (diffPlacement localeCompare P Q).changes :=
    fun s n h => (mem_changes hP hQ).mpr ⟨rfl, rfl, h⟩
  refine ⟨applyChanges_exact (fun c hc => ((mem_changes hP hQ).mp hc).2.1) fun s n => ?_, fun c hc => ?_, fun s => ?_, ?_,
    fun n => mem_vacatedNodes hP hQ⟩
  · by_cases h : countOf P s n = countOf Q s n
    · exact .inl h
    · exact .inr ⟨_, hcell s n h, rfl, rfl⟩
  · obtain ⟨hfrom, hto, hne⟩ := (mem_changes hP hQ).mp hc
    exact ⟨hfrom, hto, by rw [hfrom, hto]; exact hne⟩
  · constructor
    · intro ⟨c, hc, hs⟩
      obtain ⟨_, _, hne⟩ := (mem_changes hP hQ).mp hc
      exact ⟨c.node, hs ▸ hne⟩
    · intro ⟨n, hne⟩
      exact ⟨_, hcell s n hne, rfl⟩
  · have hchanged : (diffPlacement localeCompare P Q).changed = !(diffPlacement localeCompare P Q).changes.isEmpty := rfl
    rw [hchanged, Bool.not_eq_true', ← Bool.not_eq_true, not_iff_not, List.isEmpty_iff, List.eq_nil_iff_forall_not_mem]
    constructor
    · intro hnone s n
      by_contra hne
      exact hnone _ (hcell s n hne)
    · intro hsame c hc
      exact ((mem_changes hP hQ).mp hc).2.2 (hsame c.service c.node)

/-- `web` on two nodes, and none on a third. -/
def before : List ServicePlacement := [⟨"web", FirstSeen.ofPairs [("n1", 1), ("n2", 1), ("n3", 0)]⟩]

/-- `web` with both on `n1`, and a new service on `n3`. -/
def after : List ServicePlacement := [⟨"web", FirstSeen.ofPairs [("n1", 2)]⟩, ⟨"api", FirstSeen.ofPairs [("n3", 1)]⟩]

def codePoints (a b : String) : Int := if a < b then -1 else if a = b then 0 else 1

theorem before_wellFormed : WellFormed before := ⟨by decide, by decide⟩

theorem after_wellFormed : WellFormed after := ⟨by decide, by decide⟩

theorem diff_exact_moved :
    (diffPlacement codePoints before after).vacatedNodes = ["n2"] ∧
      SamePlacement (applyChanges before (diffPlacement codePoints before after).changes) after ∧
      "n2" ∈ (diffPlacement codePoints before after).vacatedNodes := by
  obtain ⟨happly, _, _, _, hvacated⟩ := @diff_exact codePoints _ _ before_wellFormed after_wellFormed
  refine ⟨by decide +kernel, happly, (hvacated "n2").mpr ⟨⟨"web", by decide⟩, fun s => ?_⟩⟩
  by_cases h : countOf after s "n2" = 0
  · exact h
  · obtain ⟨p, hp, _, hget⟩ := mem_of_countOf h
    rcases List.mem_cons.mp hp with rfl | hp
    · cases hget
    · obtain rfl := List.mem_singleton.mp hp
      cases hget

/-- No node of a change is missed by the publishes: it hosts something of the new placement,
    or it is vacated. -/
theorem changed_node_published (hP : WellFormed P) (hQ : WellFormed Q) {c : RebalanceChange}
    (hc : c ∈ (diffPlacement localeCompare P Q).changes) :
    (∃ service, 0 < countOf Q service c.node) ∨ c.node ∈ (diffPlacement localeCompare P Q).vacatedNodes := by
  by_cases h : ∃ service, 0 < countOf Q service c.node
  · exact .inl h
  · push Not at h
    have hzero : ∀ s, countOf Q s c.node = 0 := fun s => le_antisymm (h s) (countOf_nonneg hQ)
    obtain ⟨_, _, hne⟩ := (mem_changes hP hQ).mp hc
    rw [hzero] at hne
    have hpos : 0 < countOf P c.service c.node := lt_of_le_of_ne (countOf_nonneg hP) (Ne.symm hne)
    exact .inr ((mem_vacatedNodes hP hQ).mpr ⟨⟨c.service, hpos⟩, hzero⟩)

end Diff

/-! ## The diff that is published by -/

def plannedPlacement (resolved : List ResolvedService) : List ServicePlacement :=
  resolved.map fun r => ⟨r.name, FirstSeen.ofPairs (r.placements.map fun p => (p.nodeId, p.replicas))⟩

section Published

variable {localeCompare : String → String → Int} {m : ServicePlacements} {g : FirstSeen String (FirstSeen String Int)}

/-- The plain map and the services' maps on the way. -/
structure Built (m : ServicePlacements) (g : FirstSeen String (FirstSeen String Int)) : Prop where
  nodup : g.order.Nodup
  counts : ∀ s n, m.count s n = ((SortedMap.get s g.byKey).bind fun b => SortedMap.get n b.byKey).getD 0
  nonneg : ∀ s b, SortedMap.get s g.byKey = some b → ∀ e ∈ b.entries, 0 ≤ e.2

theorem Built.upsert (h : Built m g) {s n : String} {v : Int} (hv : 0 ≤ v) :
    Built (m.set s n v) (g.upsert s fun b => (b.getD FirstSeen.empty).upsert n fun _ => v) where
  nodup := FirstSeen.upsert_nodup h.nodup
  counts := by
    intro s' n'
    have hbefore := h.counts s' n'
    unfold ServicePlacements.count at hbefore
    unfold ServicePlacements.count ServicePlacements.set
    rw [SortedMap.get_insert, FirstSeen.get_upsert]
    by_cases hs : s' = s
    · subst hs
      rw [if_pos rfl, if_pos rfl, Option.bind_some, Option.bind_some, SortedMap.get_insert, FirstSeen.get_upsert]
      by_cases hn : n' = n
      · rw [if_pos hn, if_pos hn]
      · rw [if_neg hn, if_neg hn]
        have hm : ∀ o : Option (SortedMap String Int), SortedMap.get n' (o.getD []) = o.bind (SortedMap.get n') := by
          intro o
          cases o <;> rfl
        have hg : ∀ o : Option (FirstSeen String Int),
            SortedMap.get n' (o.getD FirstSeen.empty).byKey = o.bind fun b => SortedMap.get n' b.byKey := by
          intro o
          cases o <;> rfl
        rw [hm, hg, hbefore]
    · rw [if_neg hs, if_neg hs, hbefore]
  nonneg := by
    intro s' b hb e he
    rw [FirstSeen.get_upsert] at hb
    by_cases hs : s' = s
    · rw [if_pos hs] at hb
      cases hb
      have hget : SortedMap.get e.1 _ = some e.2 := FirstSeen.mem_entries.mp he
      rw [FirstSeen.get_upsert] at hget
      by_cases hn : e.1 = n
      · rw [if_pos hn] at hget
        cases hget
        exact hv
      · rw [if_neg hn] at hget
        cases hg : SortedMap.get s g.byKey with
        | none => rw [hg] at hget; cases hget
        | some b => rw [hg] at hget; exact h.nonneg s b hg e (FirstSeen.mem_entries.mpr hget)
    · rw [if_neg hs] at hb
      exact h.nonneg s' b hb e he

theorem built_currentPlacement (snapshot : DeployedPlacementSnapshot) (h : ∀ e ∈ snapshot.byNode, ∀ occ ∈ e.2, 0 ≤ occ.replicas) :
    ∃ g, Built (Cli.currentPlacement snapshot) g ∧ currentPlacement snapshot = g.entries.map fun e => ⟨e.1, e.2⟩ := by
  have hnode : ∀ (node : String) (occs : List NodeOccupancy) (m : ServicePlacements) (g : FirstSeen String (FirstSeen String Int)),
      (∀ occ ∈ occs, 0 ≤ occ.replicas) → Built m g →
        Built (occs.foldl (fun m occ => ServicePlacements.set occ.service node occ.replicas m) m)
          (occs.foldl (fun g occ => g.upsert occ.service fun b => (b.getD FirstSeen.empty).upsert node fun _ => occ.replicas) g) := by
    intro node occs
    induction occs with
    | nil => intro m g _ hb; exact hb
    | cons occ occs ih =>
      intro m g hocc hb
      exact ih _ _ (fun o ho => hocc o (List.mem_cons_of_mem _ ho)) (hb.upsert (hocc occ (List.mem_cons_self ..)))
  have hall : ∀ (l : List (String × List NodeOccupancy)) (m : ServicePlacements) (g : FirstSeen String (FirstSeen String Int)),
      (∀ e ∈ l, ∀ occ ∈ e.2, 0 ≤ occ.replicas) → Built m g →
        Built (l.foldl (fun m e => e.2.foldl (fun m occ => ServicePlacements.set occ.service e.1 occ.replicas m) m) m)
          (l.foldl (fun g e => e.2.foldl (fun g occ =>
            g.upsert occ.service fun b => (b.getD FirstSeen.empty).upsert e.1 fun _ => occ.replicas) g) g) := by
    intro l
    induction l with
    | nil => intro m g _ hb; exact hb
    | cons e l ih =>
      intro m g hl hb
      exact ih _ _ (fun o ho => hl o (List.mem_cons_of_mem _ ho)) (hnode e.1 e.2 m g (hl e (List.mem_cons_self ..)) hb)
  refine ⟨_, hall snapshot.byNode [] FirstSeen.empty h ⟨List.nodup_nil, fun _ _ => rfl, ?_⟩, rfl⟩
  intro s b hb
  cases hb

theorem Built.wellFormed (h : Built m g) : WellFormed (g.entries.map fun e => ⟨e.1, e.2⟩) where
  nodup := by
    have hkeys := g.entries_keys
    rw [List.map_map]
    exact hkeys ▸ h.nodup
  nonneg := by
    intro p hp
    obtain ⟨⟨s, b⟩, he, rfl⟩ := List.mem_map.mp hp
    exact h.nonneg s b (FirstSeen.mem_entries.mp he)

theorem Built.countOf (h : Built m g) (s n : String) : countOf (g.entries.map fun e => ⟨e.1, e.2⟩) s n = m.count s n := by
  rw [h.counts]
  cases hget : SortedMap.get s g.byKey with
  | none =>
    refine countOf_absent fun p hp => ?_
    obtain ⟨⟨s', b⟩, he, rfl⟩ := List.mem_map.mp hp
    rintro rfl
    rw [FirstSeen.mem_entries.mp he] at hget
    cases hget
  | some b =>
    have hmem : (⟨s, b⟩ : ServicePlacement) ∈ g.entries.map fun e => ⟨e.1, e.2⟩ :=
      List.mem_map.mpr ⟨(s, b), FirstSeen.mem_entries.mpr hget, rfl⟩
    exact countOf_of_mem h.wellFormed.nodup hmem

theorem mem_plain_changes {m m' : ServicePlacements} {c : RebalanceChange} :
    c ∈ (Cli.diffPlacement m m').changes ↔
      c.fromCount = max 0 (m.count c.service c.node) ∧ c.toCount = max 0 (m'.count c.service c.node) ∧ c.fromCount ≠ c.toCount := by
  have hcell : ∀ {m : ServicePlacements} {s n : String}, m.count s n ≠ 0 → ∃ e ∈ m, ∃ x ∈ e.2, (e.1, x.1) = (s, n) := by
    intro m s n h
    unfold ServicePlacements.count at h
    cases hs : SortedMap.get s m with
    | none => rw [hs] at h; exact absurd rfl h
    | some b =>
      rw [hs, Option.bind_some] at h
      cases hn : SortedMap.get n b with
      | none => rw [hn] at h; exact absurd rfl h
      | some v => exact ⟨(s, b), SortedMap.get_mem hs, (n, v), SortedMap.get_mem hn, rfl⟩
  unfold Cli.diffPlacement cells
  rw [List.mem_filter, List.mem_map]
  constructor
  · intro ⟨⟨x, _, hx⟩, hne⟩
    subst hx
    exact ⟨rfl, rfl, by simpa using hne⟩
  · intro ⟨hfrom, hto, hne⟩
    refine ⟨⟨(c.service, c.node), ?_, by rw [← hfrom, ← hto]⟩, by simpa using hne⟩
    rw [List.mem_dedup, List.mem_flatMap]
    have hsome : m.count c.service c.node ≠ 0 ∨ m'.count c.service c.node ≠ 0 := by
      by_contra hnot
      push Not at hnot
      rw [hfrom, hto, hnot.1, hnot.2] at hne
      exact hne rfl
    rcases hsome with h | h
    · obtain ⟨e, he, x, hx, hcell⟩ := hcell h
      exact ⟨e, List.mem_append_left _ he, List.mem_map.mpr ⟨x, hx, hcell⟩⟩
    · obtain ⟨e, he, x, hx, hcell⟩ := hcell h
      exact ⟨e, List.mem_append_right _ he, List.mem_map.mpr ⟨x, hx, hcell⟩⟩

variable {r : Rebalance} {st : ClusterState}

theorem placements_nodup (s : ResolvedService) : ((s.placements.map fun p => (p.nodeId, p.replicas)).map (·.1)).Nodup := by
  rw [List.map_map]
  exact s.nodup

theorem plannedPlacement_wellFormed (r : Rebalance) : WellFormed (plannedPlacement r.resolved) where
  nodup := by
    unfold plannedPlacement
    rw [List.map_map]
    exact r.nodup
  nonneg := by
    intro p hp e he
    obtain ⟨s, hs, rfl⟩ := List.mem_map.mp hp
    have hget : SortedMap.get e.1 _ = some e.2 := FirstSeen.mem_entries.mp he
    rw [FirstSeen.get_ofPairs_nodup (placements_nodup s)] at hget
    obtain ⟨q, hq, hqe⟩ := List.mem_map.mp (SortedMap.get_mem hget)
    have hpos := s.pos q hq
    have hcount : q.replicas = e.2 := congrArg (·.2) hqe
    omega

theorem countOf_plannedPlacement (r : Rebalance) (s n : String) :
    countOf (plannedPlacement r.resolved) s n = (Cli.plannedPlacement r.resolved).count s n := by
  have hnd : ((Cli.plannedPlacement r.resolved).map (·.1)).Nodup := by
    unfold Cli.plannedPlacement
    rw [List.map_map]
    exact r.nodup
  unfold ServicePlacements.count
  by_cases hs : ∃ x ∈ r.resolved, x.name = s
  · obtain ⟨x, hx, rfl⟩ := hs
    have hmem : (⟨x.name, FirstSeen.ofPairs (x.placements.map fun p => (p.nodeId, p.replicas))⟩ : ServicePlacement) ∈
        plannedPlacement r.resolved := List.mem_map.mpr ⟨x, hx, rfl⟩
    have hcount : countOf (plannedPlacement r.resolved) x.name n =
        (SortedMap.get n (FirstSeen.ofPairs (x.placements.map fun p => (p.nodeId, p.replicas))).byKey).getD 0 :=
      countOf_of_mem (plannedPlacement_wellFormed r).nodup hmem
    have hget : SortedMap.get x.name (Cli.plannedPlacement r.resolved) = some (x.placements.map fun p => (p.nodeId, p.replicas)) :=
      SortedMap.get_of_mem hnd (List.mem_map.mpr ⟨x, hx, rfl⟩)
    rw [FirstSeen.get_ofPairs_nodup (placements_nodup x)] at hcount
    rw [hget]
    exact hcount
  · push Not at hs
    have hnone : SortedMap.get s (Cli.plannedPlacement r.resolved) = none := by
      cases hget : SortedMap.get s (Cli.plannedPlacement r.resolved) with
      | none => rfl
      | some b =>
        obtain ⟨x, hx, he⟩ := List.mem_map.mp (SortedMap.get_mem hget)
        exact absurd (congrArg (·.1) he) (hs x hx)
    rw [hnone]
    refine countOf_absent fun p hp => ?_
    obtain ⟨x, hx, rfl⟩ := List.mem_map.mp hp
    exact hs x hx

/-- What is published counts no replicas below zero. -/
theorem deployed_nonneg (st : ClusterState) (ownerProject : String) :
    ∀ e ∈ (loadDeployedPlacement st ownerProject).byNode, ∀ occ ∈ e.2, 0 ≤ occ.replicas := by
  intro e he occ hocc
  obtain ⟨he, _⟩ := List.mem_filter.mp he
  obtain ⟨id, _, rfl⟩ := List.mem_map.mp he
  obtain ⟨c, hc, rfl⟩ := List.mem_map.mp hocc
  have hpublished := (List.mem_filter.mp hc).1
  unfold publishedServices at hpublished
  cases hd : (st.desired id).bind parseDesiredState with
  | none => rw [hd] at hpublished; cases hpublished
  | some d =>
    rw [hd] at hpublished
    obtain ⟨raw, _, hparse⟩ := Option.bind_eq_some_iff.mp hd
    have hone := (parsed_sized hparse hpublished).replicas
    show 0 ≤ c.replicas
    omega

/-- The changes a rebalance publishes by are those that are reported. -/
theorem rebalance_changes (r : Rebalance) (st : ClusterState) (c : RebalanceChange) :
    c ∈ (rebalanceDiff r st).changes ↔
      c ∈ (diffPlacement localeCompare (currentPlacement (loadDeployedPlacement st r.ownerProject))
        (plannedPlacement r.resolved)).changes := by
  obtain ⟨g, hg, hcur⟩ := built_currentPlacement _ (deployed_nonneg st r.ownerProject)
  have hplanned := plannedPlacement_wellFormed r
  have hP : 0 ≤ countOf (g.entries.map fun e => ⟨e.1, e.2⟩) c.service c.node := countOf_nonneg hg.wellFormed
  have hQ : 0 ≤ countOf (plannedPlacement r.resolved) c.service c.node := countOf_nonneg hplanned
  rw [hcur, mem_changes hg.wellFormed hplanned, rebalanceDiff, mem_plain_changes, ← hg.countOf, ← countOf_plannedPlacement,
    max_eq_right hP, max_eq_right hQ]
  constructor
  · intro ⟨hfrom, hto, hne⟩
    rw [hfrom, hto] at hne
    exact ⟨hfrom, hto, hne⟩
  · intro ⟨hfrom, hto, hne⟩
    exact ⟨hfrom, hto, by rw [hfrom, hto]; exact hne⟩

end Published

end LaunchPad.Cli.RebalancePlan
