/-
  LaunchPad.Cli.ExactPlacement — the cluster planner with its scores compared exactly, as
  fractions (`deploy/placement.ts`), over any services and any candidates with distinct names.

  A node that fits a share has something to hand out (`fits_allocatable`), so no score is a
  quotient by 0. The four levels of the comparison are one lexicographic order (`headroom`)
  that ends in the name, so no two nodes are equal in it. The names of added nodes are a
  parameter, each one not used yet.

  Proved:
  - `exactBetter_iff`: the comparison is that order.
  - `plan_perm`: two listings of the same candidates are planned alike: the same error, or for
    every service the same counts.
  - `placement_exact`: a plan that succeeds is sound, does not depend on the listing, and the
    nodes that `planClusterPlacementAutoAdd` adds are at most as many as allowed, each after
    a capacity failure.
-/
import LaunchPad.Cli.Deploy
import LaunchPad.Lib.Best
import Mathlib.Algebra.Order.Field.Rat
import Mathlib.Data.Prod.Lex
import Mathlib.Data.String.Basic
import Mathlib.Order.OrderDual

namespace LaunchPad.Cli

open Lib

/-! ## The exact comparison -/

/-- `scoreAfter` in exact arithmetic. -/
def exactScore (t : NodeTally) (s : ClusterServiceInput) (replicasHere : Int) : ℚ :=
  min ((freeCpuAfter t s replicasHere : ℚ) / (t.node.allocatableCpu : ℚ))
    ((freeMemoryAfter t s replicasHere : ℚ) / (t.node.allocatableMemory : ℚ))

/-- The comparison of `bestNode`, by exact scores. -/
def exactBetter : Beats := fun s t replicasHere best bestHere =>
  let d := exactScore t s replicasHere - exactScore best s bestHere
  if d > 0 then true
  else if d = 0 then
    let dCpu := freeCpuAfter t s replicasHere - freeCpuAfter best s bestHere
    let dMem := freeMemoryAfter t s replicasHere - freeMemoryAfter best s bestHere
    decide (dCpu > 0 ∨ (dCpu = 0 ∧ dMem > 0)) || decide (dCpu = 0 ∧ dMem = 0 ∧ t.id < best.id)
  else false

/-- What a node is ranked by: score, free CPU, free memory, and the name, the smaller first. -/
abbrev Headroom := ℚ ×ₗ ℤ ×ₗ ℤ ×ₗ Stringᵒᵈ

def headroom (s : ClusterServiceInput) (t : NodeTally) (replicasHere : Int) : Headroom :=
  toLex (exactScore t s replicasHere, toLex (freeCpuAfter t s replicasHere,
    toLex (freeMemoryAfter t s replicasHere, OrderDual.toDual t.id)))

theorem exactBetter_iff {s : ClusterServiceInput} {t best : NodeTally} {n m : Int} :
    exactBetter s t n best m = true ↔ headroom s best m < headroom s t n := by
  unfold exactBetter headroom
  simp only [Prod.Lex.toLex_lt_toLex, OrderDual.toDual_lt_toDual]
  generalize exactScore t s n = x
  generalize exactScore best s m = y
  generalize freeCpuAfter t s n = c
  generalize freeCpuAfter best s m = e
  generalize freeMemoryAfter t s n = p
  generalize freeMemoryAfter best s m = q
  by_cases hlt : y < x
  · rw [if_pos (sub_pos.mpr hlt)]
    simp [hlt]
  · rw [if_neg (mt sub_pos.mp hlt)]
    by_cases heq : x = y
    · subst heq
      rw [if_pos (sub_self x)]
      simp only [lt_irrefl, false_or, true_and, Bool.or_eq_true, decide_eq_true_eq]
      have hc : c - e > 0 ↔ e < c := by omega
      have hc0 : c - e = 0 ↔ e = c := by omega
      have hp : p - q > 0 ↔ q < p := by omega
      have hp0 : p - q = 0 ↔ q = p := by omega
      rw [hc, hc0, hp, hp0]
      tauto
    · rw [if_neg (sub_ne_zero.mpr heq)]
      simp [hlt, Ne.symm heq]

/-- A node that fits a share of a real service has something to hand out. -/
theorem fits_allocatable {t : NodeTally} {s : ClusterServiceInput} {n : Int} (hcpu : 1 ≤ s.cpu) (hmemory : 1 ≤ s.memory) (hn : 1 ≤ n)
    (hsteady : 0 ≤ t.steadyCpu ∧ 0 ≤ t.steadyMemory) (hsurge : 0 ≤ t.maxSurgeCpu ∧ 0 ≤ t.maxSurgeMemory) (h : fits t s n = true) :
    0 < t.node.allocatableCpu ∧ 0 < t.node.allocatableMemory := by
  simp only [fits, Bool.and_eq_true, decide_eq_true_eq] at h
  have hc : 0 < s.cpu * n := Int.mul_pos (by omega) (by omega)
  have hm : 0 < s.memory * n := Int.mul_pos (by omega) (by omega)
  have hsc := le_max_left t.maxSurgeCpu (s.cpu * min s.maxSurge n)
  have hsm := le_max_left t.maxSurgeMemory (s.memory * min s.maxSurge n)
  omega

/-! ## The listing does not matter -/

/-- The same outcome, but for the order in which nodes are listed. -/
def SameError : PlanError → PlanError → Prop
  | .noFit s i r l, .noFit s' i' r' l' => s = s' ∧ i = i' ∧ r = r' ∧ l.Perm l'
  | .stickyFull s id l, .stickyFull s' id' l' => s = s' ∧ id = id' ∧ l = l'
  | _, _ => False

def Agree {α β : Type} (r : α → β → Prop) : Except PlanError α → Except PlanError β → Prop
  | .ok a, .ok b => r a b
  | .error e, .error e' => SameError e e'
  | _, _ => False

theorem Agree.bind {α β α' β' : Type} {r : α → β → Prop} {r' : α' → β' → Prop} {x : Except PlanError α} {y : Except PlanError β}
    {f : α → Except PlanError α'} {g : β → Except PlanError β'} (h : Agree r x y)
    (hnext : ∀ a b, x = .ok a → r a b → Agree r' (f a) (g b)) : Agree r' (x >>= f) (y >>= g) := by
  cases x with
  | error e =>
    cases y with
    | error e' => exact h
    | ok b => exact h.elim
  | ok a =>
    cases y with
    | error e' => exact h.elim
    | ok b => exact hnext a b rfl h

/-- The same counts for the same service, on the same pool. -/
structure SamePlan (p q : ClusterServicePlan) : Prop where
  service : p.service = q.service
  placements : p.placements.Perm q.placements
  pool : p.pool.Perm q.pool

section Listing

variable {pool pool' : List NodeTally} {s : ClusterServiceInput} {counts : Counts} {k : Int}

theorem bestNodeBy_eq (beats : Beats) (pool : List NodeTally) (s : ClusterServiceInput) (counts : Counts) (k : Int) :
    bestNodeBy beats pool s counts k = bestOf (fun t => fits t s (counts t.id + k))
      (fun t b => beats s t (counts t.id + k) b (counts b.id + k)) pool := by
  unfold bestNodeBy bestOf
  congr 1
  funext best t
  unfold pickNodeBy keepBest
  cases best with
  | none => rfl
  | some b => rfl

/-- The choice does not depend on the listing. -/
theorem bestNodeBy_perm (hnd : (pool.map (·.id)).Nodup) (h : pool.Perm pool') :
    bestNodeBy exactBetter pool s counts k = bestNodeBy exactBetter pool' s counts k := by
  rw [bestNodeBy_eq, bestNodeBy_eq]
  have hbeats : ∀ a ∈ pool, ∀ b ∈ pool, exactBetter s a (counts a.id + k) b (counts b.id + k) = true ↔
      headroom s b (counts b.id + k) < headroom s a (counts a.id + k) := fun a _ b _ => exactBetter_iff
  refine best_perm h hbeats fun a ha b hb hab => ?_
  refine eq_of_id hnd ha hb ?_
  unfold headroom at hab
  have hname := congrArg (fun x : Headroom => (ofLex (ofLex (ofLex x).2).2).2) hab
  exact OrderDual.toDual_inj.mp hname

theorem capacityBreakdown_perm (h : pool.Perm pool') : (capacityBreakdown pool s counts).Perm (capacityBreakdown pool' s counts) :=
  h.map _

theorem packReplicasBy_perm (hnd : (pool.map (·.id)).Nodup) (h : pool.Perm pool') (n : Nat) :
    Agree (· = ·) (packReplicasBy exactBetter pool s n counts) (packReplicasBy exactBetter pool' s n counts) := by
  induction n generalizing counts with
  | zero => exact rfl
  | succ n ih =>
    rw [packReplicasBy, packReplicasBy, ← bestNodeBy_perm hnd h]
    cases bestNodeBy exactBetter pool s counts 1 with
    | none => exact ⟨rfl, rfl, rfl, capacityBreakdown_perm h⟩
    | some best => exact ih

theorem packByCapacityBy_perm (hnd : (pool.map (·.id)).Nodup) (h : pool.Perm pool') :
    Agree List.Perm (packByCapacityBy exactBetter pool s) (packByCapacityBy exactBetter pool' s) := by
  unfold packByCapacityBy
  refine (packReplicasBy_perm hnd h _).bind fun c c' _ hc => ?_
  subst hc
  exact (h.map _).filter _

theorem placeFreshBy_perm (hnd : (pool.map (·.id)).Nodup) (h : pool.Perm pool') :
    Agree List.Perm (placeFreshBy exactBetter pool s) (placeFreshBy exactBetter pool' s) := by
  unfold placeFreshBy
  rw [← bestNodeBy_perm hnd h]
  cases bestNodeBy exactBetter pool s (fun _ => 0) s.replicas with
  | none => exact ⟨rfl, rfl, rfl, capacityBreakdown_perm h⟩
  | some best => exact .refl _

theorem find_perm (hnd : (pool.map (·.id)).Nodup) (h : pool.Perm pool') (id : String) :
    pool.find? (·.id = id) = pool'.find? (·.id = id) := by
  cases hf : pool.find? (·.id = id) with
  | none =>
    symm
    rw [List.find?_eq_none] at hf ⊢
    exact fun t ht => hf t (h.mem_iff.mpr ht)
  | some t =>
    have ht := List.mem_of_find?_eq_some hf
    have hid : t.id = id := by simpa using List.find?_some hf
    cases hf' : pool'.find? (·.id = id) with
    | none => exact absurd hid (by simpa using List.find?_eq_none.mp hf' t (h.mem_iff.mp ht))
    | some t' =>
      have ht' := List.mem_of_find?_eq_some hf'
      have hid' : t'.id = id := by simpa using List.find?_some hf'
      rw [eq_of_id hnd ht (h.mem_iff.mpr ht') (hid.trans hid'.symm)]

theorem placeBy_perm (hnd : (pool.map (·.id)).Nodup) (h : pool.Perm pool') :
    Agree List.Perm (placeBy exactBetter pool s) (placeBy exactBetter pool' s) := by
  unfold placeBy
  by_cases hvol : s.hasVolumes = true
  · rw [if_pos hvol, if_pos hvol]
    unfold placeVolumeServiceBy
    cases s.stickyNodeId with
    | none => exact placeFreshBy_perm hnd h
    | some id =>
      dsimp only
      rw [← find_perm hnd h]
      cases pool.find? (·.id = id) with
      | none => exact placeFreshBy_perm hnd h
      | some sticky =>
        dsimp only
        by_cases hfit : fits sticky s s.replicas = true
        · rw [if_pos hfit]
          exact List.Perm.refl _
        · rw [if_neg hfit]
          exact ⟨rfl, rfl, rfl⟩
  · rw [if_neg hvol, if_neg hvol]
    exact packByCapacityBy_perm hnd h

theorem sharesOn_perm {ps ps' : List Placement} (hps : PlacedOn pool s ps) (h : ps.Perm ps') (id : String) :
    sharesOn id ps = sharesOn id ps' := by
  have hperm : (sharesOn id ps).Perm (sharesOn id ps') := (h.filter _).map _
  rcases hps.shares id with hnone | ⟨p, _, _, hone⟩
  · rw [hnone] at hperm ⊢
    exact (List.nil_perm.mp hperm).symm
  · rw [hone] at hperm ⊢
    exact List.singleton_perm.mp hperm

theorem commit_perm (hnd : (pool.map (·.id)).Nodup) (h : pool.Perm pool') {ps ps' : List Placement} (hps : PlacedOn pool s ps)
    (hperm : ps.Perm ps') : (commit pool s ps).Perm (commit pool' s ps') := by
  have hnd' : (pool'.map (·.id)).Nodup := (h.map _).nodup_iff.mp hnd
  rw [commit_eq hnd, commit_eq hnd']
  have hsame : (fun t : NodeTally => t.addAll s (sharesOn t.id ps)) = fun t => t.addAll s (sharesOn t.id ps') := by
    funext t
    rw [sharesOn_perm hps hperm]
  rw [hsame]
  exact h.map _

/-- Two listings of a pool are planned alike. -/
theorem planServicesBy_perm {services : List ClusterServiceInput} (hpos : ∀ s ∈ services, 0 < s.replicas)
    (hnd : (pool.map (·.id)).Nodup) (h : pool.Perm pool') :
    Agree (List.Forall₂ SamePlan) (planServicesBy exactBetter pool services) (planServicesBy exactBetter pool' services) := by
  induction services generalizing pool pool' with
  | nil => exact .nil
  | cons s services ih =>
    rw [planServicesBy, planServicesBy]
    refine (placeBy_perm hnd h).bind fun ps ps' hp hplaced => ?_
    have hps := place_spec hnd (hpos s (List.mem_cons_self ..)) hp
    have hrest := ih (fun x hx => hpos x (List.mem_cons_of_mem _ hx)) (by rwa [commit_ids hnd])
      (commit_perm hnd h hps hplaced)
    exact hrest.bind fun rest rest' _ hsame => .cons ⟨rfl, hplaced, h.map _⟩ hsame

end Listing

/-! ## What a plan promises -/

/-- A service's placements: all its replicas on nodes of the pool, no node twice and none with
    nothing; a service with volumes is on one node. -/
structure PlacedService (ids : List String) (s : ClusterServiceInput) (plan : ClusterServicePlan) : Prop where
  service : plan.service = s.name
  sum : (plan.placements.map (·.replicas)).sum = s.replicas
  nodup : (plan.placements.map (·.nodeId)).Nodup
  pos : ∀ p ∈ plan.placements, 0 < p.replicas
  known : ∀ p ∈ plan.placements, p.nodeId ∈ ids
  volumes : s.hasVolumes = true → plan.placements.length = 1

/-- A node has room for its committed demand and what it is given, under any one surge: the
    prior one or that of a service it is given. -/
structure Room (n : CandidateNode) (given : List (ClusterServiceInput × Int)) : Prop where
  cpu : ∀ surge ∈ n.maxSurgeCpu :: given.map (fun x => x.1.cpu * min x.1.maxSurge x.2),
    n.steadyCpu + (given.map fun x => x.1.cpu * x.2).sum + surge ≤ n.allocatableCpu
  memory : ∀ surge ∈ n.maxSurgeMemory :: given.map (fun x => x.1.memory * min x.1.maxSurge x.2),
    n.steadyMemory + (given.map fun x => x.1.memory * x.2).sum + surge ≤ n.allocatableMemory

/-- The tallies once every plan is committed. -/
def committed (tallies : List NodeTally) (given : List (ClusterServiceInput × ClusterServicePlan)) : List NodeTally :=
  given.foldl (fun ts e => commit ts e.1 e.2.placements) tallies

structure SoundPlan (nodes : List CandidateNode) (services : List ClusterServiceInput) (plans : List ClusterServicePlan) : Prop where
  placed : List.Forall₂ (PlacedService (nodes.map (·.nodeId))) services plans
  room : ∀ n ∈ nodes, givenShares n.nodeId (services.zip plans) ≠ [] → Room n (givenShares n.nodeId (services.zip plans))
  /-- The tallies move; the candidates they are of stay. -/
  unchanged : (committed (nodes.map tallyOf) (services.zip plans)).map (·.node) = nodes

section Sound

variable {beats : Beats} {nodes : List CandidateNode} {services : List ClusterServiceInput} {plans : List ClusterServicePlan}

theorem tallies_ids (nodes : List CandidateNode) : (nodes.map tallyOf).map (·.id) = nodes.map (·.nodeId) := by
  rw [List.map_map]
  rfl

theorem peak_room {a : Load Int} {l : List (Load Int)} {b : Int} (h : (Load.total a l).peak ≤ b) :
    ∀ surge ∈ a.surge :: l.map (·.surge), a.steady + (l.map (·.steady)).sum + surge ≤ b := by
  intro surge hsurge
  have hle : surge ≤ (Load.total a l).surge := by
    obtain ⟨hown, hall⟩ := Load.total_surge_le.mp (le_refl (Load.total a l).surge)
    rcases List.mem_cons.mp hsurge with rfl | hmem
    · exact hown
    · obtain ⟨x, hx, rfl⟩ := List.mem_map.mp hmem
      exact hall x hx
  have hsteady := Load.total_steady_sum a l
  unfold Load.peak at h
  omega

theorem holds_room {n : CandidateNode} {given : List (ClusterServiceInput × Int)}
    (h : (tallyOf n).Holds (given.map fun x => x.1.cpuLoad x.2) (given.map fun x => x.1.memoryLoad x.2)) : Room n given where
  cpu := by
    have hroom := peak_room h.1
    rw [List.map_map, List.map_map] at hroom
    exact hroom
  memory := by
    have hroom := peak_room h.2
    rw [List.map_map, List.map_map] at hroom
    exact hroom

theorem placeBy_volumes {tallies : List NodeTally} {s : ClusterServiceInput} (hvol : s.hasVolumes = true) {ps : List Placement}
    (h : placeBy beats tallies s = .ok ps) : ps.length = 1 := by
  have hfresh : ∀ ps, placeFreshBy beats tallies s = .ok ps → ps.length = 1 := by
    intro ps h
    unfold placeFreshBy at h
    split at h
    · cases h
    · cases h
      rfl
  unfold placeBy placeVolumeServiceBy at h
  rw [if_pos hvol] at h
  cases hs : s.stickyNodeId with
  | none =>
    rw [hs] at h
    exact hfresh ps h
  | some id =>
    rw [hs] at h
    dsimp only at h
    cases hf : tallies.find? (·.id = id) with
    | none =>
      rw [hf] at h
      exact hfresh ps h
    | some sticky =>
      rw [hf] at h
      dsimp only at h
      split at h
      · cases h
        rfl
      · cases h

theorem commit_node (tallies : List NodeTally) (s : ClusterServiceInput) (ps : List Placement) :
    (commit tallies s ps).map (·.node) = tallies.map (·.node) := by
  have hone : ∀ (p : Placement) (ts : List NodeTally), (commitOne s p ts).map (·.node) = ts.map (·.node) := by
    intro p ts
    induction ts with
    | nil => rfl
    | cons t ts ih =>
      rw [commitOne]
      by_cases ht : t.id = p.nodeId
      · rw [if_pos ht]
        rfl
      · rw [if_neg ht, List.map_cons, List.map_cons, ih]
  unfold commit
  induction ps generalizing tallies with
  | nil => rfl
  | cons p ps ih => exact (ih _).trans (hone p tallies)

theorem committed_node (tallies : List NodeTally) (given : List (ClusterServiceInput × ClusterServicePlan)) :
    (committed tallies given).map (·.node) = tallies.map (·.node) := by
  unfold committed
  induction given generalizing tallies with
  | nil => rfl
  | cons e given ih => exact (ih _).trans (commit_node ..)

/-- A plan that succeeds is sound, however two nodes that fit are told apart. -/
theorem plan_sound (hnd : (nodes.map (·.nodeId)).Nodup) (hpos : ∀ s ∈ services, 0 < s.replicas)
    (h : planClusterPlacementBy beats nodes services = .ok plans) : SoundPlan nodes services plans where
  placed := by
    have hids := tallies_ids nodes
    have heach := planServices_each hpos (by rwa [hids]) h
    refine heach.imp fun s plan hplan => ?_
    obtain ⟨hname, pool, hpool, hplace, hplaced⟩ := hplan
    refine ⟨hname, hplaced.sum, hplaced.nodup, hplaced.pos, fun p hp => ?_, fun hvol => placeBy_volumes hvol hplace⟩
    obtain ⟨t, ht, hid, _⟩ := hplaced.fits p hp
    rw [← hids, ← hpool, ← hid]
    exact List.mem_map.mpr ⟨t, ht, rfl⟩
  room := by
    intro n hn hgiven
    exact holds_room (planServices_holds (t := tallyOf n) hpos (by rwa [tallies_ids]) h (List.mem_map.mpr ⟨n, hn, rfl⟩) hgiven)
  unchanged := by
    rw [committed_node, List.map_map]
    exact List.map_id _

theorem plan_perm {nodes' : List CandidateNode} (hnd : (nodes.map (·.nodeId)).Nodup) (hpos : ∀ s ∈ services, 0 < s.replicas)
    (h : nodes.Perm nodes') :
    Agree (List.Forall₂ SamePlan) (planClusterPlacementBy exactBetter nodes services)
      (planClusterPlacementBy exactBetter nodes' services) :=
  planServicesBy_perm hpos (by rwa [tallies_ids]) (h.map _)

end Sound

/-! ## Added nodes -/

/-- A service that no node has room for (`CapacityPlacementError`). -/
def PlanError.capacity : PlanError → Bool
  | .noFit .. => true
  | .stickyFull .. => false

section Added

variable {beats : Beats} {names : NodeNames} {nodes : List CandidateNode} {services : List ClusterServiceInput}

/-- What was added: as many nodes as allowed at most, each when the plan without it failed for
    capacity, each of a name that was free and of the cluster's size. -/
structure Additions (beats : Beats) (nodes : List CandidateNode) (services : List ClusterServiceInput) (maxAdd : Nat)
    (existingNodeIds : List String) (added : List CandidateNode) : Prop where
  count : added.length ≤ maxAdd
  needed : ∀ k < added.length, ∃ e, e.capacity = true ∧ planClusterPlacementBy beats (nodes ++ added.take k) services = .error e
  sized : ∀ n ∈ added, n = templateCandidateNode n.nodeId nodes
  fresh : (added.map (·.nodeId)).Nodup ∧ ∀ n ∈ added, n.nodeId ∉ existingNodeIds

/-- What the loop ends in: the plan of the extended candidates, or its error, which is no
    capacity failure unless all additions are spent. -/
structure Ended (beats : Beats) (nodes : List CandidateNode) (services : List ClusterServiceInput) (maxAdd : Nat)
    (existingNodeIds : List String) (r : Except PlanError (List ClusterServicePlan × List CandidateNode)) : Prop where
  planned : ∀ plans added, r = .ok (plans, added) → Additions beats nodes services maxAdd existingNodeIds added ∧
    planClusterPlacementBy beats (nodes ++ added) services = .ok plans
  failed : ∀ e, r = .error e → ∃ added, Additions beats nodes services maxAdd existingNodeIds added ∧
    planClusterPlacementBy beats (nodes ++ added) services = .error e ∧ (e.capacity = true → added.length = maxAdd)

theorem Additions.add {maxAdd : Nat} {existing : List String} {added : List CandidateNode}
    (h : Additions beats nodes services maxAdd existing added) (hroom : added.length < maxAdd) {e : PlanError}
    (he : e.capacity = true) (hplan : planClusterPlacementBy beats (nodes ++ added) services = .error e) {id : String}
    (hid : id ∉ existing) (hnew : id ∉ added.map (·.nodeId)) :
    Additions beats nodes services maxAdd existing (added ++ [templateCandidateNode id nodes]) where
  count := by
    rw [List.length_append]
    exact hroom
  needed := by
    intro k hk
    rw [List.length_append, List.length_singleton] at hk
    by_cases hlast : k < added.length
    · rw [List.take_append_of_le_length (le_of_lt hlast)]
      exact h.needed k hlast
    · obtain rfl : k = added.length := by omega
      rw [List.take_left]
      exact ⟨e, he, hplan⟩
  sized := by
    intro n hn
    rcases List.mem_append.mp hn with hn | hn
    · exact h.sized n hn
    · rw [List.mem_singleton.mp hn, templateCandidateNode_id]
  fresh := by
    obtain ⟨hnodup, hfree⟩ := h.fresh
    refine ⟨?_, fun n hn => ?_⟩
    · rw [List.map_append, List.nodup_append]
      refine ⟨hnodup, List.nodup_singleton _, fun a ha b hb hab => ?_⟩
      rw [List.map_singleton, List.mem_singleton, templateCandidateNode_id] at hb
      exact hnew (hb ▸ hab ▸ ha)
    · rcases List.mem_append.mp hn with hn | hn
      · exact hfree n hn
      · rw [List.mem_singleton.mp hn, templateCandidateNode_id]
        exact hid

/-- The loop, from so many additions on: it ends, the additions bounding it. -/
theorem planWithAdded_ended {maxAdd left : Nat} {existing used : List String} {added : List CandidateNode}
    (hadded : Additions beats nodes services maxAdd existing added) (hleft : added.length + left = maxAdd)
    (hused : ∀ id, id ∈ existing ∨ id ∈ added.map (·.nodeId) → id ∈ used) :
    Ended beats nodes services maxAdd existing (planWithAddedBy beats names nodes services left used added) := by
  induction left generalizing used added with
  | zero =>
    unfold planWithAddedBy
    cases hp : planClusterPlacementBy beats (nodes ++ added) services with
    | ok plans' =>
      refine ⟨fun plans added' h => ?_, fun e h => ?_⟩
      · cases h
        exact ⟨hadded, hp⟩
      · cases h
    | error e =>
      refine ⟨fun plans added' h => ?_, fun e' h => ⟨added, hadded, ?_, fun _ => hleft⟩⟩
      · cases e <;> cases h
      · cases e <;> cases h <;> exact hp
  | succ left ih =>
    unfold planWithAddedBy
    cases hp : planClusterPlacementBy beats (nodes ++ added) services with
    | ok plans' =>
      refine ⟨fun plans added' h => ?_, fun e h => ?_⟩
      · cases h
        exact ⟨hadded, hp⟩
      · cases h
    | error e =>
      cases e with
      | stickyFull name id breakdown =>
        refine ⟨fun plans added' h => ?_, fun e' h => ?_⟩
        · cases h
        · cases h
          refine ⟨added, hadded, hp, fun hcap => ?_⟩
          cases hcap
      | noFit name i n breakdown =>
        obtain ⟨hfresh, _⟩ := (names used).2
        have hnext := hadded.add (by omega) rfl hp (fun h => hfresh (hused _ (.inl h))) (fun h => hfresh (hused _ (.inr h)))
        refine ih hnext ?_ fun id hid => ?_
        · rw [List.length_append, List.length_singleton]
          omega
        · rw [List.map_append, List.map_singleton, List.mem_append, List.mem_singleton, templateCandidateNode_id] at hid
          rcases hid with hid | hid | hid
          · exact List.mem_cons_of_mem _ (hused id (.inl hid))
          · exact List.mem_cons_of_mem _ (hused id (.inr hid))
          · exact hid ▸ List.mem_cons_self ..

theorem autoAdd_ended (names : NodeNames) (nodes : List CandidateNode) (services : List ClusterServiceInput) (maxAdd : Nat)
    (existingNodeIds : List String) : Ended beats nodes services maxAdd existingNodeIds
      (planClusterPlacementAutoAddBy beats names nodes services maxAdd existingNodeIds) := by
  have hnone : Additions beats nodes services maxAdd existingNodeIds [] := by
    refine ⟨Nat.zero_le _, fun k hk => ?_, fun n hn => ?_, List.nodup_nil, fun n hn => ?_⟩
    · cases hk
    · cases hn
    · cases hn
  refine planWithAdded_ended hnone (Nat.zero_add _) fun id hid => ?_
  rcases hid with hid | hid
  · exact hid
  · cases hid

/-- The extended candidates have names of their own. -/
theorem Additions.nodup {maxAdd : Nat} {existing : List String} {added : List CandidateNode}
    (h : Additions beats nodes services maxAdd existing added) (hnd : (nodes.map (·.nodeId)).Nodup)
    (hexisting : ∀ n ∈ nodes, n.nodeId ∈ existing) : ((nodes ++ added).map (·.nodeId)).Nodup := by
  rw [List.map_append, List.nodup_append]
  refine ⟨hnd, h.fresh.1, fun a ha b hb hab => ?_⟩
  obtain ⟨n, hn, rfl⟩ := List.mem_map.mp ha
  obtain ⟨m, hm, rfl⟩ := List.mem_map.mp hb
  exact h.fresh.2 m hm (hab ▸ hexisting n hn)

end Added

/-! ## Placement, exactly -/

/-- Placement is sound and does not depend on the listing, and growing the pool ends. -/
theorem placement_exact {nodes : List CandidateNode} {services : List ClusterServiceInput} (hnd : (nodes.map (·.nodeId)).Nodup)
    (hreplicas : ∀ s ∈ services, 1 ≤ s.replicas) :
    (∀ plans, planClusterPlacementBy exactBetter nodes services = .ok plans → SoundPlan nodes services plans) ∧
      (∀ nodes', nodes.Perm nodes' → Agree (List.Forall₂ SamePlan) (planClusterPlacementBy exactBetter nodes services)
        (planClusterPlacementBy exactBetter nodes' services)) ∧
      ∀ (names : NodeNames) (maxAdd : Nat) (existingNodeIds : List String), (∀ n ∈ nodes, n.nodeId ∈ existingNodeIds) →
        Ended exactBetter nodes services maxAdd existingNodeIds
            (planClusterPlacementAutoAddBy exactBetter names nodes services maxAdd existingNodeIds) ∧
          ∀ plans added, planClusterPlacementAutoAddBy exactBetter names nodes services maxAdd existingNodeIds = .ok (plans, added) →
            SoundPlan (nodes ++ added) services plans := by
  have hpos : ∀ s ∈ services, 0 < s.replicas := hreplicas
  refine ⟨fun plans h => plan_sound hnd hpos h, fun nodes' h => plan_perm hnd hpos h, fun names maxAdd existing hexisting => ?_⟩
  have hended : Ended exactBetter nodes services maxAdd existing
      (planClusterPlacementAutoAddBy exactBetter names nodes services maxAdd existing) := autoAdd_ended ..
  refine ⟨hended, fun plans added h => ?_⟩
  obtain ⟨hadded, hplan⟩ := hended.planned plans added h
  exact plan_sound (hadded.nodup hnd hexisting) hpos hplan

/-! ### Two nodes, two replicas -/

/-- A node of one vCPU and 1 GB with nothing on it. -/
def freshNode (nodeId : String) : CandidateNode := ⟨nodeId, .arm64, 1024, 1024, 0, 0, 0, 0⟩

def twoReplicas : ClusterServiceInput := ⟨"web", 2, 200, 256, 1, false, false, none⟩

theorem fresh_nodup : (([freshNode "n1", freshNode "n2"]).map (·.nodeId)).Nodup := by decide

/-- Each node gets one. -/
theorem placement_exact_pair : ∃ plans, planClusterPlacementBy exactBetter [freshNode "n1", freshNode "n2"] [twoReplicas] = .ok plans ∧
    SoundPlan [freshNode "n1", freshNode "n2"] [twoReplicas] plans := by
  have hreplicas : ∀ s ∈ [twoReplicas], 1 ≤ s.replicas := by
    intro s hs
    rw [List.mem_singleton.mp hs]
    decide
  have hplan : planClusterPlacementBy exactBetter [freshNode "n1", freshNode "n2"] [twoReplicas] =
      .ok [⟨"web", [⟨"n1", 1⟩, ⟨"n2", 1⟩], ["n1", "n2"]⟩] := by decide +kernel
  exact ⟨_, hplan, (placement_exact fresh_nodup hreplicas).1 _ hplan⟩

end LaunchPad.Cli
