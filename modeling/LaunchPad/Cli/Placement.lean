/-
  LaunchPad.Cli.Placement — the cluster planner (`deploy/placement.ts`): each service in
  declaration order, one replica at a time on the node with the most headroom; a service
  with volumes on one node, the one it is already on when that node still exists.

  The planner is a function of how two nodes that fit are told apart (`Beats`): the source
  compares floating-point fractions (`better`, on `Float`), and `Cli.ExactPlacement` compares
  them exactly. Nothing proved here depends on it: a node is only ever chosen among those
  that fit.
  An error keeps the data of its message; the rendered text is left out.

  Proved:
  - `place_spec`: a placement covers the declared replicas, on distinct nodes of the pool,
    each of which fits its share.
  - `planServices_holds`: after a plan that succeeds, every node given a replica holds its
    committed demand and all it was given, the largest surge included (`planServices_fits`:
    by the services' names).
-/
import LaunchPad.Shared.Capacity
import Mathlib.Data.List.Nodup

namespace LaunchPad.Cli

open Lib

structure Placement where
  nodeId : String
  replicas : Int
  deriving DecidableEq, Repr

/-- A node as the scheduler sees it: what it can hand out, and what is committed. -/
structure CandidateNode where
  nodeId : String
  architecture : NodeArchitecture
  allocatableCpu : Int
  allocatableMemory : Int
  steadyCpu : Int
  steadyMemory : Int
  maxSurgeCpu : Int
  maxSurgeMemory : Int
  deriving DecidableEq, Repr

structure ClusterServiceInput where
  name : String
  replicas : Int
  cpu : Int
  memory : Int
  maxSurge : Int
  isWeb : Bool
  hasVolumes : Bool
  /-- Where a service with volumes is published. -/
  stickyNodeId : Option String
  deriving DecidableEq, Repr

structure ClusterServicePlan where
  service : String
  placements : List Placement
  pool : List String
  deriving DecidableEq, Repr

structure NodeTally where
  node : CandidateNode
  steadyCpu : Int
  steadyMemory : Int
  maxSurgeCpu : Int
  maxSurgeMemory : Int
  deriving DecidableEq, Repr

abbrev NodeTally.id (t : NodeTally) : String := t.node.nodeId

/-- What a placement error says of one node. -/
structure BreakdownLine where
  nodeId : String
  freeCpu : Int
  freeMemory : Int
  cpu : Int
  memory : Int
  deriving DecidableEq, Repr

inductive PlanError where
  /-- `CapacityPlacementError`: no eligible node for that replica. -/
  | noFit (service : String) (replicaIndex replicas : Int) (breakdown : List BreakdownLine)
  /-- The node that holds the service's volumes has no room. -/
  | stickyFull (service stickyNodeId : String) (breakdown : List BreakdownLine)
  deriving DecidableEq, Repr

/-- `Map<string, number>` with `?? 0`. -/
abbrev Counts := String → Int

/-! ## Choosing a node -/

def fits (t : NodeTally) (s : ClusterServiceInput) (replicasHere : Int) : Bool :=
  let surgeCpu := max t.maxSurgeCpu (s.cpu * min s.maxSurge replicasHere)
  let surgeMemory := max t.maxSurgeMemory (s.memory * min s.maxSurge replicasHere)
  decide (t.steadyCpu + s.cpu * replicasHere + surgeCpu ≤ t.node.allocatableCpu) &&
    decide (t.steadyMemory + s.memory * replicasHere + surgeMemory ≤ t.node.allocatableMemory)

def freeCpuAfter (t : NodeTally) (s : ClusterServiceInput) (replicasHere : Int) : Int :=
  t.node.allocatableCpu - (t.steadyCpu + s.cpu * replicasHere)

def freeMemoryAfter (t : NodeTally) (s : ClusterServiceInput) (replicasHere : Int) : Int :=
  t.node.allocatableMemory - (t.steadyMemory + s.memory * replicasHere)

/-- `Math.min`: not a number when either is not. -/
def mathMin (a b : Float) : Float := if a.isNaN then a else if b.isNaN then b else if a ≤ b then a else b

/-- Free fraction of the binding resource. -/
def scoreAfter (t : NodeTally) (s : ClusterServiceInput) (replicasHere : Int) : Float :=
  mathMin (Float.ofInt (freeCpuAfter t s replicasHere) / Float.ofInt t.node.allocatableCpu)
    (Float.ofInt (freeMemoryAfter t s replicasHere) / Float.ofInt t.node.allocatableMemory)

/-- `t` beats the best so far: by score, by free CPU, by free memory, by name. -/
def better (s : ClusterServiceInput) (t : NodeTally) (replicasHere : Int) (best : NodeTally) (bestHere : Int) : Bool :=
  let d := scoreAfter t s replicasHere - scoreAfter best s bestHere
  if d > 0 then true
  else if d == 0 then
    let dCpu := freeCpuAfter t s replicasHere - freeCpuAfter best s bestHere
    let dMem := freeMemoryAfter t s replicasHere - freeMemoryAfter best s bestHere
    decide (dCpu > 0 ∨ (dCpu = 0 ∧ dMem > 0)) || decide (dCpu = 0 ∧ dMem = 0 ∧ t.id < best.id)
  else false

/-- How two nodes that fit are told apart: the first with its replicas, the second with its own. -/
abbrev Beats := ClusterServiceInput → NodeTally → Int → NodeTally → Int → Bool

section Planner

variable (beats : Beats)

/-- One round of `bestNode`'s loop. -/
def pickNodeBy (s : ClusterServiceInput) (counts : Counts) (addReplicas : Int) (best : Option NodeTally)
    (t : NodeTally) : Option NodeTally :=
  let replicasHere := counts t.id + addReplicas
  if fits t s replicasHere then
    match best with
    | none => some t
    | some b => if beats s t replicasHere b (counts b.id + addReplicas) then some t else some b
  else best

def bestNodeBy (tallies : List NodeTally) (s : ClusterServiceInput) (counts : Counts) (addReplicas : Int) :
    Option NodeTally :=
  tallies.foldl (pickNodeBy beats s counts addReplicas) none

def capacityBreakdown (tallies : List NodeTally) (s : ClusterServiceInput) (counts : Counts) : List BreakdownLine :=
  tallies.map fun t =>
    let placed := counts t.id
    { nodeId := t.id
      freeCpu := max 0 (t.node.allocatableCpu - t.steadyCpu - s.cpu * placed)
      freeMemory := max 0 (t.node.allocatableMemory - t.steadyMemory - s.memory * placed)
      cpu := s.cpu
      memory := s.memory }

/-! ## Placing a service -/

/-- `packByCapacity`'s loop: `n` replicas left of `s.replicas`. -/
def packReplicasBy (pool : List NodeTally) (s : ClusterServiceInput) : Nat → Counts → Except PlanError Counts
  | 0, counts => .ok counts
  | n + 1, counts =>
    match bestNodeBy beats pool s counts 1 with
    | none => .error (.noFit s.name (s.replicas - n) s.replicas (capacityBreakdown pool s counts))
    | some best =>
      packReplicasBy pool s n (Function.update counts best.id (counts best.id + 1))

def packByCapacityBy (pool : List NodeTally) (s : ClusterServiceInput) : Except PlanError (List Placement) := do
  let counts ← packReplicasBy beats pool s s.replicas.toNat fun _ => 0
  return (pool.map fun t => { nodeId := t.id, replicas := counts t.id : Placement }).filter
    fun p => decide (p.replicas > 0)

/-- The first placement of a service with volumes. -/
def placeFreshBy (tallies : List NodeTally) (s : ClusterServiceInput) : Except PlanError (List Placement) :=
  match bestNodeBy beats tallies s (fun _ => 0) s.replicas with
  | none => .error (.noFit s.name 1 s.replicas (capacityBreakdown tallies s fun _ => 0))
  | some best => .ok [⟨best.id, s.replicas⟩]

def placeVolumeServiceBy (tallies : List NodeTally) (s : ClusterServiceInput) : Except PlanError (List Placement) :=
  match s.stickyNodeId with
  | none => placeFreshBy beats tallies s
  | some stickyNodeId =>
    match tallies.find? (·.id = stickyNodeId) with
    -- The sticky node is gone and the data with it.
    | none => placeFreshBy beats tallies s
    | some sticky =>
      if fits sticky s s.replicas then .ok [⟨sticky.id, s.replicas⟩]
      else .error (.stickyFull s.name stickyNodeId (capacityBreakdown [sticky] s fun _ => 0))

def placeBy (tallies : List NodeTally) (s : ClusterServiceInput) : Except PlanError (List Placement) :=
  if s.hasVolumes then placeVolumeServiceBy beats tallies s else packByCapacityBy beats tallies s

end Planner

/-! ## The plan -/

def NodeTally.add (t : NodeTally) (s : ClusterServiceInput) (replicas : Int) : NodeTally :=
  { t with
    steadyCpu := t.steadyCpu + s.cpu * replicas
    steadyMemory := t.steadyMemory + s.memory * replicas
    maxSurgeCpu := max t.maxSurgeCpu (s.cpu * min s.maxSurge replicas)
    maxSurgeMemory := max t.maxSurgeMemory (s.memory * min s.maxSurge replicas) }

/-- Add to the first tally of that name, if any. -/
def commitOne (s : ClusterServiceInput) (p : Placement) : List NodeTally → List NodeTally
  | [] => []
  | t :: ts => if t.id = p.nodeId then t.add s p.replicas :: ts else t :: commitOne s p ts

def commit (tallies : List NodeTally) (s : ClusterServiceInput) (placements : List Placement) : List NodeTally :=
  placements.foldl (fun ts p => commitOne s p ts) tallies

section Plan

variable (beats : Beats)

def planServicesBy (tallies : List NodeTally) : List ClusterServiceInput → Except PlanError (List ClusterServicePlan)
  | [] => .ok []
  | s :: services => do
    let placements ← placeBy beats tallies s
    let plans ← planServicesBy (commit tallies s placements) services
    return ⟨s.name, placements, tallies.map (·.id)⟩ :: plans

def tallyOf (node : CandidateNode) : NodeTally :=
  ⟨node, node.steadyCpu, node.steadyMemory, node.maxSurgeCpu, node.maxSurgeMemory⟩

def planClusterPlacementBy (nodes : List CandidateNode) (services : List ClusterServiceInput) :
    Except PlanError (List ClusterServicePlan) :=
  planServicesBy beats (nodes.map tallyOf) services

end Plan

/-! ### By the source's scores -/

abbrev bestNode := bestNodeBy better
abbrev packReplicas := packReplicasBy better
abbrev packByCapacity := packByCapacityBy better
abbrev placeVolumeService := placeVolumeServiceBy better
abbrev place := placeBy better
abbrev planServices := planServicesBy better
abbrev planClusterPlacement := planClusterPlacementBy better

/-- Where the plan puts a service. -/
def placementsOf (plans : List ClusterServicePlan) (name : String) : List Placement :=
  match plans.find? (·.service = name) with
  | some plan => plan.placements
  | none => []

/-! ## Loads -/

namespace NodeTally

def cpuLoad (t : NodeTally) : Load Int := ⟨t.steadyCpu, t.maxSurgeCpu⟩
def memoryLoad (t : NodeTally) : Load Int := ⟨t.steadyMemory, t.maxSurgeMemory⟩

/-- The committed load and `cpu`, `memory` on top stay within what the node can hand out. -/
def Holds (t : NodeTally) (cpu memory : List (Load Int)) : Prop :=
  (Load.total t.cpuLoad cpu).peak ≤ t.node.allocatableCpu ∧
    (Load.total t.memoryLoad memory).peak ≤ t.node.allocatableMemory

end NodeTally

namespace ClusterServiceInput

/-- The load of that many replicas on one node. -/
def cpuLoad (s : ClusterServiceInput) (replicas : Int) : Load Int :=
  ⟨s.cpu * replicas, s.cpu * min s.maxSurge replicas⟩

def memoryLoad (s : ClusterServiceInput) (replicas : Int) : Load Int :=
  ⟨s.memory * replicas, s.memory * min s.maxSurge replicas⟩

end ClusterServiceInput

theorem fits_iff {t : NodeTally} {s : ClusterServiceInput} {n : Int} :
    fits t s n = true ↔ t.Holds [s.cpuLoad n] [s.memoryLoad n] := by
  simp only [fits, Bool.and_eq_true, decide_eq_true_eq]
  rfl

@[simp] theorem add_node (t : NodeTally) (s : ClusterServiceInput) (n : Int) : (t.add s n).node = t.node := rfl
@[simp] theorem add_id (t : NodeTally) (s : ClusterServiceInput) (n : Int) : (t.add s n).id = t.id := rfl
@[simp] theorem add_cpuLoad (t : NodeTally) (s : ClusterServiceInput) (n : Int) :
    (t.add s n).cpuLoad = t.cpuLoad + s.cpuLoad n := rfl
@[simp] theorem add_memoryLoad (t : NodeTally) (s : ClusterServiceInput) (n : Int) :
    (t.add s n).memoryLoad = t.memoryLoad + s.memoryLoad n := rfl

theorem add_holds {t : NodeTally} {s : ClusterServiceInput} {n : Int} {cpu memory : List (Load Int)} :
    (t.add s n).Holds cpu memory ↔ t.Holds (s.cpuLoad n :: cpu) (s.memoryLoad n :: memory) := Iff.rfl

/-! ## What a choice promises -/

section Choice

variable {beats : Beats} {s : ClusterServiceInput} {counts : Counts} {k : Int}

theorem pickNode_some {best : Option NodeTally} {t x : NodeTally} (h : pickNodeBy beats s counts k best t = some x) :
    best = some x ∨ (x = t ∧ fits t s (counts t.id + k) = true) := by
  unfold pickNodeBy at h
  dsimp only at h
  split at h
  · rename_i hf
    split at h
    · cases h; exact .inr ⟨rfl, hf⟩
    · split at h
      · cases h; exact .inr ⟨rfl, hf⟩
      · exact .inl h
  · exact .inl h

theorem pickNode_isSome {best : Option NodeTally} {t : NodeTally}
    (h : best.isSome = true ∨ fits t s (counts t.id + k) = true) : (pickNodeBy beats s counts k best t).isSome = true := by
  unfold pickNodeBy
  dsimp only
  split
  · split
    · rfl
    · split <;> rfl
  · rename_i hf
    exact h.resolve_right hf

theorem foldl_pickNode {tallies : List NodeTally} {best : Option NodeTally} {x : NodeTally}
    (h : tallies.foldl (pickNodeBy beats s counts k) best = some x) :
    best = some x ∨ (x ∈ tallies ∧ fits x s (counts x.id + k) = true) := by
  induction tallies generalizing best with
  | nil => exact .inl h
  | cons t ts ih =>
    rcases ih h with h | ⟨hx, hf⟩
    · rcases pickNode_some h with h | ⟨rfl, hf⟩
      · exact .inl h
      · exact .inr ⟨List.mem_cons_self .., hf⟩
    · exact .inr ⟨List.mem_cons_of_mem _ hx, hf⟩

/-- The chosen node fits. -/
theorem bestNode_fits {tallies : List NodeTally} {x : NodeTally} (h : bestNodeBy beats tallies s counts k = some x) :
    x ∈ tallies ∧ fits x s (counts x.id + k) = true :=
  (foldl_pickNode h).resolve_left (by intro e; cases e)

theorem foldl_pickNode_isSome {tallies : List NodeTally} {best : Option NodeTally}
    (h : best.isSome = true ∨ ∃ t ∈ tallies, fits t s (counts t.id + k) = true) :
    (tallies.foldl (pickNodeBy beats s counts k) best).isSome = true := by
  induction tallies generalizing best with
  | nil =>
    rcases h with h | ⟨t, ht, _⟩
    · exact h
    · cases ht
  | cons t ts ih =>
    apply ih
    rcases h with h | ⟨x, hx, hf⟩
    · exact .inl (pickNode_isSome (.inl h))
    · rcases List.mem_cons.mp hx with rfl | hx
      · exact .inl (pickNode_isSome (.inr hf))
      · exact .inr ⟨x, hx, hf⟩

/-- Some node is chosen when some node fits. -/
theorem bestNode_isSome {tallies : List NodeTally} (h : ∃ t ∈ tallies, fits t s (counts t.id + k) = true) :
    (bestNodeBy beats tallies s counts k).isSome = true :=
  foldl_pickNode_isSome (.inr h)

end Choice

/-! ## What a placement promises -/

section Promises

variable {beats : Beats}

theorem eq_of_id {tallies : List NodeTally} (hnd : (tallies.map (·.id)).Nodup) {t x : NodeTally} (ht : t ∈ tallies)
    (hx : x ∈ tallies) (h : t.id = x.id) : t = x :=
  List.inj_on_of_nodup_map hnd ht hx h

/-- Of one run of the loop: how the counts grew. -/
structure Packed (pool : List NodeTally) (s : ClusterServiceInput) (n : Nat) (counts counts' : Counts) : Prop where
  le : ∀ id, counts id ≤ counts' id
  sum : (pool.map fun t => counts' t.id).sum = (pool.map fun t => counts t.id).sum + n
  fits : ∀ t ∈ pool, counts' t.id ≠ counts t.id → fits t s (counts' t.id) = true

theorem sum_update {pool : List NodeTally} (hnd : (pool.map (·.id)).Nodup) {b : NodeTally} (hb : b ∈ pool)
    (counts : Counts) :
    (pool.map fun t => Function.update counts b.id (counts b.id + 1) t.id).sum =
      (pool.map fun t => counts t.id).sum + 1 := by
  induction pool with
  | nil => cases hb
  | cons t pool ih =>
    rw [List.map_cons, List.nodup_cons] at hnd
    rcases List.mem_cons.mp hb with rfl | hb
    · have hrest : (pool.map fun t => Function.update counts b.id (counts b.id + 1) t.id) =
          pool.map fun t => counts t.id := by
        apply List.map_congr_left
        intro t ht
        apply Function.update_of_ne
        intro e
        exact hnd.1 (e ▸ List.mem_map.mpr ⟨t, ht, rfl⟩)
      rw [List.map_cons, List.sum_cons, hrest, Function.update_self, List.map_cons, List.sum_cons]
      omega
    · have hne : t.id ≠ b.id := by
        intro e
        exact hnd.1 (e ▸ List.mem_map.mpr ⟨b, hb, rfl⟩)
      rw [List.map_cons, List.sum_cons, ih hnd.2 hb, Function.update_of_ne hne, List.map_cons, List.sum_cons]
      omega

theorem packReplicas_spec {pool : List NodeTally} (hnd : (pool.map (·.id)).Nodup) {s : ClusterServiceInput} {n : Nat}
    {counts counts' : Counts} (h : packReplicasBy beats pool s n counts = .ok counts') : Packed pool s n counts counts' := by
  induction n generalizing counts with
  | zero =>
    cases h
    exact ⟨fun _ => Int.le_refl _, by simp, fun t _ hne => absurd rfl hne⟩
  | succ n ih =>
    rw [packReplicasBy] at h
    split at h
    · cases h
    · rename_i best hbest
      obtain ⟨hmem, hfit⟩ := bestNode_fits hbest
      have rest := ih h
      refine ⟨fun id => ?_, ?_, fun t ht hne => ?_⟩
      · have hle := rest.le id
        by_cases hid : id = best.id
        · subst hid; rw [Function.update_self] at hle; omega
        · rwa [Function.update_of_ne hid] at hle
      · rw [rest.sum, sum_update hnd hmem]
        push_cast
        omega
      · -- either the rest of the loop placed on the node, or this round did and no later one
        by_cases hlater : counts' t.id = Function.update counts best.id (counts best.id + 1) t.id
        · by_cases hid : t.id = best.id
          · obtain rfl := eq_of_id hnd ht hmem hid
            rw [hlater, Function.update_self]
            exact hfit
          · rw [Function.update_of_ne hid] at hlater
            exact absurd hlater hne
        · exact rest.fits t ht hlater

/-- A service's placement on the pool: all replicas, each node once, each node fitting its share. -/
structure PlacedOn (tallies : List NodeTally) (s : ClusterServiceInput) (ps : List Placement) : Prop where
  nodup : (ps.map (·.nodeId)).Nodup
  fits : ∀ p ∈ ps, ∃ t ∈ tallies, t.id = p.nodeId ∧ fits t s p.replicas = true
  pos : ∀ p ∈ ps, 0 < p.replicas
  sum : (ps.map (·.replicas)).sum = s.replicas

theorem PlacedOn.single {tallies : List NodeTally} {s : ClusterServiceInput} (hs : 0 < s.replicas) {t : NodeTally}
    (ht : t ∈ tallies) (hf : Cli.fits t s s.replicas = true) : PlacedOn tallies s [⟨t.id, s.replicas⟩] where
  nodup := List.nodup_singleton _
  fits := by
    intro p hp
    obtain rfl := List.mem_singleton.mp hp
    exact ⟨t, ht, rfl, hf⟩
  pos := by
    intro p hp
    obtain rfl := List.mem_singleton.mp hp
    exact hs
  sum := by simp

/-- Leaving out the nodes that got nothing leaves out nothing. -/
theorem sum_filter_pos (ps : List Placement) (h : ∀ p ∈ ps, 0 ≤ p.replicas) :
    ((ps.filter fun p => decide (p.replicas > 0)).map (·.replicas)).sum = (ps.map (·.replicas)).sum := by
  induction ps with
  | nil => rfl
  | cons p ps ih =>
    have hrest := ih fun q hq => h q (List.mem_cons_of_mem _ hq)
    have hp := h p (List.mem_cons_self ..)
    by_cases hpos : p.replicas > 0
    · rw [List.filter_cons_of_pos (by simpa using hpos), List.map_cons, List.sum_cons, hrest, List.map_cons,
        List.sum_cons]
    · rw [List.filter_cons_of_neg (by simpa using hpos), hrest, List.map_cons, List.sum_cons]
      omega

theorem packByCapacity_spec {pool : List NodeTally} (hnd : (pool.map (·.id)).Nodup) {s : ClusterServiceInput}
    (hs : 0 < s.replicas) {ps : List Placement} (h : packByCapacityBy beats pool s = .ok ps) : PlacedOn pool s ps := by
  unfold packByCapacityBy at h
  cases hc : packReplicasBy beats pool s s.replicas.toNat fun _ => 0 with
  | error e => rw [hc] at h; cases h
  | ok counts =>
    rw [hc] at h
    obtain rfl := (Except.ok.inj h).symm
    have packed := packReplicas_spec hnd hc
    refine ⟨?_, fun p hp => ?_, fun p hp => ?_, ?_⟩
    · apply List.Nodup.sublist (List.Sublist.map _ List.filter_sublist)
      simpa [List.map_map, Function.comp_def] using hnd
    · obtain ⟨hp, hpos⟩ := List.mem_filter.mp hp
      obtain ⟨t, ht, rfl⟩ := List.mem_map.mp hp
      have hpos : 0 < counts t.id := by simpa using hpos
      exact ⟨t, ht, rfl, packed.fits t ht (by omega)⟩
    · simpa using (List.mem_filter.mp hp).2
    · rw [sum_filter_pos]
      · have hsum := packed.sum
        simp only [List.map_map, Function.comp_def]
        rw [hsum]
        simp
        omega
      · intro p hp
        obtain ⟨t, _, rfl⟩ := List.mem_map.mp hp
        exact packed.le t.id

theorem placeFresh_spec {tallies : List NodeTally} {s : ClusterServiceInput} (hs : 0 < s.replicas)
    {ps : List Placement} (h : placeFreshBy beats tallies s = .ok ps) : PlacedOn tallies s ps := by
  unfold placeFreshBy at h
  split at h
  · cases h
  · rename_i best hbest
    cases h
    obtain ⟨hmem, hfit⟩ := bestNode_fits hbest
    rw [Int.zero_add] at hfit
    exact .single hs hmem hfit

theorem place_spec {tallies : List NodeTally} (hnd : (tallies.map (·.id)).Nodup) {s : ClusterServiceInput}
    (hs : 0 < s.replicas) {ps : List Placement} (h : placeBy beats tallies s = .ok ps) : PlacedOn tallies s ps := by
  unfold placeBy at h
  split at h
  · unfold placeVolumeServiceBy at h
    split at h
    · exact placeFresh_spec hs h
    · split at h
      · exact placeFresh_spec hs h
      · rename_i sticky hfind
        split at h
        · rename_i hfit
          cases h
          exact .single hs (List.mem_of_find?_eq_some hfind) hfit
        · cases h
  · exact packByCapacity_spec hnd hs h

end Promises

/-! ## What a commit does -/

/-- The shares of one node, in order. -/
def sharesOn (id : String) (ps : List Placement) : List Int := (ps.filter (·.nodeId = id)).map (·.replicas)

def NodeTally.addAll (t : NodeTally) (s : ClusterServiceInput) (shares : List Int) : NodeTally :=
  shares.foldl (fun t n => t.add s n) t

@[simp] theorem addAll_node (t : NodeTally) (s : ClusterServiceInput) (shares : List Int) :
    (t.addAll s shares).node = t.node := by
  induction shares generalizing t with
  | nil => rfl
  | cons n shares ih => exact ih (t.add s n)

@[simp] theorem addAll_id (t : NodeTally) (s : ClusterServiceInput) (shares : List Int) :
    (t.addAll s shares).id = t.id := by
  rw [NodeTally.id, addAll_node]

theorem commitOne_eq {tallies : List NodeTally} (hnd : (tallies.map (·.id)).Nodup) (s : ClusterServiceInput)
    (p : Placement) : commitOne s p tallies = tallies.map fun t => if t.id = p.nodeId then t.add s p.replicas else t := by
  induction tallies with
  | nil => rfl
  | cons t ts ih =>
    rw [List.map_cons, List.nodup_cons] at hnd
    rw [commitOne, List.map_cons]
    split
    · rename_i ht
      congr 1
      have hothers : ∀ x ∈ ts, (if x.id = p.nodeId then x.add s p.replicas else x) = x := by
        intro x hx
        rw [if_neg]
        intro hx'
        exact hnd.1 (ht.trans hx'.symm ▸ List.mem_map.mpr ⟨x, hx, rfl⟩)
      exact (List.map_congr_left hothers).trans (List.map_id _) |>.symm
    · rw [ih hnd.2]

theorem commit_eq {tallies : List NodeTally} (hnd : (tallies.map (·.id)).Nodup) (s : ClusterServiceInput)
    (ps : List Placement) : commit tallies s ps = tallies.map fun t => t.addAll s (sharesOn t.id ps) := by
  induction ps generalizing tallies with
  | nil =>
    symm
    apply List.map_id''
    intro t
    rfl
  | cons p ps ih =>
    have hids : ((commitOne s p tallies).map (·.id)).Nodup := by
      rw [commitOne_eq hnd, List.map_map]
      convert hnd using 2
      funext t
      simp only [Function.comp]
      split <;> rfl
    show commit (commitOne s p tallies) s ps = _
    rw [ih hids, commitOne_eq hnd, List.map_map]
    apply List.map_congr_left
    intro t _
    by_cases ht : t.id = p.nodeId
    · simp [sharesOn, NodeTally.addAll, ht]
    · simp [sharesOn, NodeTally.addAll, ht, Ne.symm ht]

theorem commit_ids {tallies : List NodeTally} (hnd : (tallies.map (·.id)).Nodup) (s : ClusterServiceInput)
    (ps : List Placement) : (commit tallies s ps).map (·.id) = tallies.map (·.id) := by
  rw [commit_eq hnd, List.map_map]
  apply List.map_congr_left
  intro t _
  simp

/-- A node gets a service's replicas in one share at most. -/
theorem PlacedOn.shares {tallies : List NodeTally} {s : ClusterServiceInput} {ps : List Placement}
    (h : PlacedOn tallies s ps) (id : String) :
    sharesOn id ps = [] ∨ ∃ p ∈ ps, p.nodeId = id ∧ sharesOn id ps = [p.replicas] := by
  have hnd := h.nodup
  clear h
  induction ps with
  | nil => exact .inl rfl
  | cons p ps ih =>
    rw [List.map_cons, List.nodup_cons] at hnd
    by_cases hp : p.nodeId = id
    · have hnone : sharesOn id ps = [] := by
        unfold sharesOn
        rw [List.map_eq_nil_iff, List.filter_eq_nil_iff]
        intro q hq hqid
        have hqid : q.nodeId = id := by simpa using hqid
        exact hnd.1 (hp.trans hqid.symm ▸ List.mem_map.mpr ⟨q, hq, rfl⟩)
      refine .inr ⟨p, List.mem_cons_self .., hp, ?_⟩
      unfold sharesOn at hnone ⊢
      rw [List.filter_cons_of_pos (by simpa using hp), List.map_cons, hnone]
    · have hskip : sharesOn id (p :: ps) = sharesOn id ps := by
        unfold sharesOn
        rw [List.filter_cons_of_neg (by simpa using hp)]
      rw [hskip]
      rcases ih hnd.2 with h | ⟨q, hq, hqid, h⟩
      · exact .inl h
      · exact .inr ⟨q, List.mem_cons_of_mem _ hq, hqid, h⟩

/-! ## What a whole plan promises -/

section Whole

variable {beats : Beats}

theorem planServices_cons {tallies : List NodeTally} {s : ClusterServiceInput} {services : List ClusterServiceInput}
    {plans : List ClusterServicePlan} (h : planServicesBy beats tallies (s :: services) = .ok plans) :
    ∃ ps rest, placeBy beats tallies s = .ok ps ∧ planServicesBy beats (commit tallies s ps) services = .ok rest ∧
      plans = ⟨s.name, ps, tallies.map (·.id)⟩ :: rest := by
  rw [planServicesBy] at h
  cases hp : placeBy beats tallies s with
  | error e => rw [hp] at h; cases h
  | ok ps =>
    rw [hp] at h
    cases hr : planServicesBy beats (commit tallies s ps) services with
    | error e => simp only [bind, Except.bind, hr] at h; cases h
    | ok rest =>
      simp only [bind, Except.bind, hr] at h
      exact ⟨ps, rest, rfl, hr, (Except.ok.inj h).symm⟩

@[simp] theorem placementsOf_head (plan : ClusterServicePlan) (plans : List ClusterServicePlan) :
    placementsOf (plan :: plans) plan.service = plan.placements := by
  simp [placementsOf]

theorem placementsOf_tail {plan : ClusterServicePlan} {plans : List ClusterServicePlan} {name : String}
    (h : name ≠ plan.service) : placementsOf (plan :: plans) name = placementsOf plans name := by
  simp [placementsOf, Ne.symm h]

/-- Each service is placed on the pool as the planner stood when its turn came. -/
theorem planServices_place {services : List ClusterServiceInput} (hnames : (services.map (·.name)).Nodup)
    {tallies : List NodeTally} (hnd : (tallies.map (·.id)).Nodup) {plans : List ClusterServicePlan}
    (h : planServicesBy beats tallies services = .ok plans) {s : ClusterServiceInput} (hs : s ∈ services) :
    ∃ pool, pool.map (·.id) = tallies.map (·.id) ∧ placeBy beats pool s = .ok (placementsOf plans s.name) := by
  induction services generalizing tallies plans with
  | nil => cases hs
  | cons s' services ih =>
    obtain ⟨ps, rest, hplace, hrest, rfl⟩ := planServices_cons h
    rw [List.map_cons, List.nodup_cons] at hnames
    rcases List.mem_cons.mp hs with rfl | hs
    · exact ⟨tallies, rfl, by rw [placementsOf_head ⟨s.name, ps, _⟩]; exact hplace⟩
    · have hids := commit_ids hnd s' ps
      obtain ⟨pool, hpool, placed⟩ := ih hnames.2 (by rwa [hids]) hrest hs
      refine ⟨pool, hpool.trans hids, ?_⟩
      rwa [placementsOf_tail]
      intro e
      exact hnames.1 (List.mem_map.mpr ⟨s, hs, e⟩)

theorem planServices_placed {services : List ClusterServiceInput} (hnames : (services.map (·.name)).Nodup)
    (hpos : ∀ s ∈ services, 0 < s.replicas) {tallies : List NodeTally} (hnd : (tallies.map (·.id)).Nodup)
    {plans : List ClusterServicePlan} (h : planServicesBy beats tallies services = .ok plans) {s : ClusterServiceInput}
    (hs : s ∈ services) :
    ∃ pool, pool.map (·.id) = tallies.map (·.id) ∧ PlacedOn pool s (placementsOf plans s.name) := by
  obtain ⟨pool, hpool, hplace⟩ := planServices_place hnames hnd h hs
  exact ⟨pool, hpool, place_spec (by rwa [hpool]) (hpos s hs) hplace⟩

/-- What the plan puts on one node, service by service. -/
def nodeShares (id : String) (services : List ClusterServiceInput) (plans : List ClusterServicePlan) :
    List (ClusterServiceInput × Int) :=
  services.flatMap fun s => (sharesOn id (placementsOf plans s.name)).map fun n => (s, n)

theorem nodeShares_cons {id : String} {s : ClusterServiceInput} {services : List ClusterServiceInput}
    (hnames : ((s :: services).map (·.name)).Nodup) {ps : List Placement} {pool : List String}
    {rest : List ClusterServicePlan} :
    nodeShares id (s :: services) (⟨s.name, ps, pool⟩ :: rest) =
      (sharesOn id ps).map (fun n => (s, n)) ++ nodeShares id services rest := by
  rw [List.map_cons, List.nodup_cons] at hnames
  unfold nodeShares
  rw [List.flatMap_cons, placementsOf_head ⟨s.name, ps, pool⟩]
  congr 1
  apply List.flatMap_congr
  intro x hx
  rw [placementsOf_tail]
  intro e
  exact hnames.1 (List.mem_map.mpr ⟨x, hx, e⟩)

/-- The replicas that one node is given, service by service. -/
def givenShares (id : String) (given : List (ClusterServiceInput × ClusterServicePlan)) : List (ClusterServiceInput × Int) :=
  given.flatMap fun e => (sharesOn id e.2.placements).map fun n => (e.1, n)

/-- Each plan is of its service, placed on the pool's nodes. -/
theorem planServices_each {services : List ClusterServiceInput} (hpos : ∀ s ∈ services, 0 < s.replicas)
    {tallies : List NodeTally} (hnd : (tallies.map (·.id)).Nodup) {plans : List ClusterServicePlan}
    (h : planServicesBy beats tallies services = .ok plans) :
    List.Forall₂ (fun s plan => plan.service = s.name ∧ ∃ pool : List NodeTally, pool.map (·.id) = tallies.map (·.id) ∧
      placeBy beats pool s = .ok plan.placements ∧ PlacedOn pool s plan.placements) services plans := by
  induction services generalizing tallies plans with
  | nil =>
    cases h
    exact .nil
  | cons s services ih =>
    obtain ⟨ps, rest, hplace, hrest, rfl⟩ := planServices_cons h
    have hids := commit_ids hnd s ps
    have placed := place_spec hnd (hpos s (List.mem_cons_self ..)) hplace
    refine .cons ⟨rfl, tallies, rfl, hplace, placed⟩ ?_
    have hlater := ih (fun x hx => hpos x (List.mem_cons_of_mem _ hx)) (by rwa [hids]) hrest
    rwa [hids] at hlater

/-- A node given any replica holds what was committed and all it was given. -/
theorem planServices_holds {services : List ClusterServiceInput} (hpos : ∀ s ∈ services, 0 < s.replicas)
    {tallies : List NodeTally} (hnd : (tallies.map (·.id)).Nodup) {plans : List ClusterServicePlan}
    (h : planServicesBy beats tallies services = .ok plans) {t : NodeTally} (ht : t ∈ tallies)
    (hne : givenShares t.id (services.zip plans) ≠ []) :
    t.Holds ((givenShares t.id (services.zip plans)).map fun x => x.1.cpuLoad x.2)
      ((givenShares t.id (services.zip plans)).map fun x => x.1.memoryLoad x.2) := by
  induction services generalizing tallies plans t with
  | nil => exact absurd rfl hne
  | cons s services ih =>
    obtain ⟨ps, rest, hplace, hrest, rfl⟩ := planServices_cons h
    have placed := place_spec hnd (hpos s (List.mem_cons_self ..)) hplace
    have hcons : givenShares t.id ((s :: services).zip (⟨s.name, ps, tallies.map (·.id)⟩ :: rest)) =
        (sharesOn t.id ps).map (fun n => (s, n)) ++ givenShares t.id (services.zip rest) := rfl
    rw [hcons] at hne ⊢
    have hids := commit_ids hnd s ps
    have later := fun (t' : NodeTally) ht' hne' => ih (fun x hx => hpos x (List.mem_cons_of_mem _ hx)) (by rwa [hids]) hrest
      (t := t') ht' hne'
    have hmem : t.addAll s (sharesOn t.id ps) ∈ commit tallies s ps := by
      rw [commit_eq hnd]
      exact List.mem_map.mpr ⟨t, ht, rfl⟩
    rcases placed.shares t.id with hshare | ⟨p, hp, hpid, hshare⟩
    · rw [hshare] at hne hmem ⊢
      exact later t hmem hne
    · rw [hshare] at hne hmem ⊢
      by_cases hlast : givenShares t.id (services.zip rest) = []
      · obtain ⟨x, hx, hxid, hfit⟩ := placed.fits p hp
        obtain rfl := eq_of_id hnd hx ht (hxid.trans hpid)
        rw [hlast]
        exact fits_iff.mp hfit
      · exact add_holds.mp (later _ hmem hlast)

/-- Where no name comes twice, what a node is given can be looked up by name. -/
theorem nodeShares_eq {id : String} {services : List ClusterServiceInput} (hnames : (services.map (·.name)).Nodup)
    {tallies : List NodeTally} {plans : List ClusterServicePlan} (h : planServicesBy beats tallies services = .ok plans) :
    nodeShares id services plans = givenShares id (services.zip plans) := by
  induction services generalizing tallies plans with
  | nil => rfl
  | cons s services ih =>
    obtain ⟨ps, rest, _, hrest, rfl⟩ := planServices_cons h
    rw [nodeShares_cons hnames, ih (List.nodup_cons.mp hnames).2 hrest]
    rfl

/-- The same, by the services' names. -/
theorem planServices_fits {services : List ClusterServiceInput} (hnames : (services.map (·.name)).Nodup)
    (hpos : ∀ s ∈ services, 0 < s.replicas) {tallies : List NodeTally} (hnd : (tallies.map (·.id)).Nodup)
    {plans : List ClusterServicePlan} (h : planServicesBy beats tallies services = .ok plans) {t : NodeTally}
    (ht : t ∈ tallies) (hne : nodeShares t.id services plans ≠ []) :
    t.Holds ((nodeShares t.id services plans).map fun x => x.1.cpuLoad x.2)
      ((nodeShares t.id services plans).map fun x => x.1.memoryLoad x.2) := by
  rw [nodeShares_eq hnames h] at hne ⊢
  exact planServices_holds hpos hnd h ht hne

end Whole

end LaunchPad.Cli
