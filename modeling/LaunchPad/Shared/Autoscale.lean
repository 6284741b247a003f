/-
  LaunchPad.Shared.Autoscale — the node-pool autoscaler's planner (`shared/src/autoscale.ts`):
  a policy, what one pass has observed of the pool, and the one action it decides on.

  A parsed policy carries what its schema checks. A percentage is a rational number; a
  `null` one reads as zero in arithmetic, as JavaScript has it. A reason keeps the numbers
  its text shows.

  Proved:
  - `planAutoscale_scaleOut`: a pass grows only a pool below its ceiling.
  - `planAutoscale_scaleIn`: a pass shrinks only a pool above its floor, by a node of the
    pool that is neither protected nor external, when every node reports it is cold and
    the survivors can absorb the victim.
  - `planAutoscale_cooldown`: in the cooldown a pass only restores the floor.
  - `planAutoscale_least_loaded`: no lighter node that may go could have been absorbed.
-/
import LaunchPad.Shared.Registry
import Mathlib.Algebra.Order.Ring.Rat
import Mathlib.Data.List.Sort
import Mathlib.Data.String.Basic

namespace LaunchPad

/-! ## The policy -/

/-- An ISO time as `Date.parse` reads it. -/
inductive Timestamp where
  | ms (t : Int)
  | unreadable (text : String)
  deriving DecidableEq, Repr

/-- `Date.parse`; `none` for `NaN`. -/
def Timestamp.parse : Timestamp → Option Int
  | .ms t => some t
  | .unreadable _ => none

/-- `AutoscalePolicySchema`. -/
structure AutoscalePolicy where
  minNodes : Nat
  maxNodes : Nat
  scaleOutPercent : ℚ := 80
  scaleInPercent : ℚ := 30
  cooldownSeconds : Nat := 300
  /-- State, not policy: the time of the last action a pass claimed. -/
  lastScaleAt : Option Timestamp := none
  min_pos : 1 ≤ minNodes
  max_le : maxNodes ≤ 100
  out_range : 1 ≤ scaleOutPercent ∧ scaleOutPercent ≤ 100
  in_range : 0 ≤ scaleInPercent ∧ scaleInPercent ≤ 99
  /-- `maxNodes must be >= minNodes`. -/
  ordered : minNodes ≤ maxNodes
  /-- The thrash guard. -/
  apart : scaleInPercent < scaleOutPercent
  deriving DecidableEq, Repr

/-- The default percentages pass their own checks. -/
theorem default_out_range : 1 ≤ (80 : ℚ) ∧ (80 : ℚ) ≤ 100 := by decide +kernel
theorem default_in_range : 0 ≤ (30 : ℚ) ∧ (30 : ℚ) ≤ 99 := by decide +kernel
theorem default_apart : (30 : ℚ) < 80 := by decide +kernel

/-- The policy with its cooldown anchor moved. -/
def AutoscalePolicy.stamp (p : AutoscalePolicy) (nowMs : Int) : AutoscalePolicy :=
  { p with lastScaleAt := some (.ms nowMs) }

/-! ## What a pass observes -/

/-- A node's committed footprint and capacity. -/
structure AutoscaleNodeReservation where
  steadyCpu : Int
  steadyMemory : Int
  surgeCpu : Int
  surgeMemory : Int
  allocatableCpu : Int
  allocatableMemory : Int
  deriving DecidableEq, Repr

structure AutoscaleNodeObservation where
  nodeId : String
  role : NodeRole
  state : NodeState
  /-- `protected`: never a victim. -/
  isProtected : Bool := false
  provisioning : Provisioning := .ec2
  cpuPercent : Option ℚ
  memoryPercent : Option ℚ
  reserved : Option AutoscaleNodeReservation := none
  deriving DecidableEq, Repr

/-- `DOWN_STATES`. -/
def downState : NodeState → Bool
  | .stopped | .terminating | .terminated => true
  | .provisioning | .ready => false

/-- A container-hosting node that is not explicitly down. -/
def inPool (role : NodeRole) (state : NodeState) : Bool := nodeHostsContainers role && !downState state

def AutoscaleNodeObservation.fresh (n : AutoscaleNodeObservation) : Bool :=
  n.cpuPercent.isSome && n.memoryPercent.isSome

def AutoscaleNodeObservation.cpu (n : AutoscaleNodeObservation) : ℚ := n.cpuPercent.getD 0
def AutoscaleNodeObservation.memory (n : AutoscaleNodeObservation) : ℚ := n.memoryPercent.getD 0

def AutoscaleNodeObservation.load (n : AutoscaleNodeObservation) : ℚ := max n.cpu n.memory

/-! ## The decision -/

inductive Reason where
  | belowMin (nodes minNodes : Nat)
  | cooldown (leftSeconds : Int)
  | noMetrics
  | hotAtMax (cpu memory : ℚ) (maxNodes : Nat)
  | hot (cpu memory scaleOutPercent : ℚ)
  | allProtected
  | cannotAbsorb
  | cold (scaleInPercent : ℚ) (victim : String)
  | inRange (cpu memory : ℚ)
  deriving DecidableEq, Repr

inductive AutoscaleDecision where
  | none (reason : Reason)
  | scaleOut (reason : Reason)
  | scaleIn (victim : String) (reason : Reason)
  deriving DecidableEq, Repr

/-- The sum of one figure over the nodes that give it. -/
def sumOf (f : AutoscaleNodeReservation → Int) (nodes : List AutoscaleNodeObservation) : Int :=
  (nodes.filterMap (·.reserved)).foldl (fun acc r => acc + f r) 0

def maxOf (f : AutoscaleNodeReservation → Int) (first : AutoscaleNodeReservation)
    (nodes : List AutoscaleNodeObservation) : Int :=
  (nodes.filterMap (·.reserved)).foldl (fun acc r => max acc (f r)) (f first)

/-- The survivors hold their own demand, the victim's, and the pool's largest surge.
    Without every figure the check is skipped. -/
def survivorsCanAbsorb (victim : AutoscaleNodeObservation) (pool : List AutoscaleNodeObservation) : Bool :=
  match victim.reserved with
  | none => true
  | some reserved =>
    let survivors := pool.filter (·.nodeId != victim.nodeId)
    if survivors.any (·.reserved.isNone) then true
    else
      decide (sumOf (·.steadyCpu) survivors + reserved.steadyCpu + maxOf (·.surgeCpu) reserved survivors ≤
          sumOf (·.allocatableCpu) survivors) &&
        decide (sumOf (·.steadyMemory) survivors + reserved.steadyMemory + maxOf (·.surgeMemory) reserved survivors ≤
          sumOf (·.allocatableMemory) survivors)

/-- The least loaded first; among equals the last name. -/
def victimOrder (a b : AutoscaleNodeObservation) : Prop := a.load < b.load ∨ (a.load = b.load ∧ b.nodeId ≤ a.nodeId)

instance : DecidableRel victimOrder := fun _ _ => inferInstanceAs (Decidable (_ ∨ _))

def mayGo (n : AutoscaleNodeObservation) : Bool := !n.isProtected && n.provisioning != .external

def poolOf (nodes : List AutoscaleNodeObservation) : List AutoscaleNodeObservation :=
  nodes.filter fun n => inPool n.role n.state

def average (f : AutoscaleNodeObservation → ℚ) (nodes : List AutoscaleNodeObservation) : ℚ :=
  (nodes.map f).sum / nodes.length

/-- What is left of the cooldown, in milliseconds, while it runs. -/
def cooldownLeft (policy : AutoscalePolicy) (nowMs : Int) : Option Int :=
  match policy.lastScaleAt.bind Timestamp.parse with
  | some last =>
    if nowMs - last < policy.cooldownSeconds * 1000 then some (policy.cooldownSeconds * 1000 - (nowMs - last)) else none
  | none => none

/-- Every node of the pool reports that it is below the threshold. -/
def everyNodeCold (policy : AutoscalePolicy) (pool : List AutoscaleNodeObservation) : Bool :=
  decide ((pool.filter (·.fresh)).length = pool.length) &&
    pool.all fun n => decide (n.cpu < policy.scaleInPercent) && decide (n.memory < policy.scaleInPercent)

/-- The victim of a cold pool, when there is one. -/
def planScaleIn (policy : AutoscalePolicy) (pool : List AutoscaleNodeObservation) : AutoscaleDecision :=
  match pool.filter mayGo with
  | [] => .none .allProtected
  | candidates =>
    match (candidates.insertionSort victimOrder).find? (survivorsCanAbsorb · pool) with
    | none => .none .cannotAbsorb
    | some victim => .scaleIn victim.nodeId (.cold policy.scaleInPercent victim.nodeId)

/-- What utilization asks for, from the fresh nodes' averages. -/
def planByLoad (policy : AutoscalePolicy) (pool : List AutoscaleNodeObservation) (avgCpu avgMemory : ℚ) :
    AutoscaleDecision :=
  if policy.scaleOutPercent ≤ avgCpu ∨ policy.scaleOutPercent ≤ avgMemory then
    if policy.maxNodes ≤ pool.length then .none (.hotAtMax avgCpu avgMemory policy.maxNodes)
    else .scaleOut (.hot avgCpu avgMemory policy.scaleOutPercent)
  else if policy.minNodes < pool.length ∧ everyNodeCold policy pool = true then planScaleIn policy pool
  else .none (.inRange avgCpu avgMemory)

def planAutoscale (policy : AutoscalePolicy) (nodes : List AutoscaleNodeObservation) (nowMs : Int) :
    AutoscaleDecision :=
  let pool := poolOf nodes
  if pool.length < policy.minNodes then .scaleOut (.belowMin pool.length policy.minNodes)
  else
    match cooldownLeft policy nowMs with
    | some left => .none (.cooldown ((left + 999) / 1000))
    | none =>
      match pool.filter (·.fresh) with
      | [] => .none .noMetrics
      | fresh => planByLoad policy pool (average (·.cpu) fresh) (average (·.memory) fresh)

/-! ## What a decision says of the pool -/

variable {policy : AutoscalePolicy} {nodes pool : List AutoscaleNodeObservation} {nowMs : Int} {victim : String}
  {reason : Reason} {avgCpu avgMemory : ℚ}

theorem planScaleIn_ne_scaleOut : planScaleIn policy pool ≠ .scaleOut reason := by
  unfold planScaleIn
  intro h
  split at h
  · cases h
  · split at h <;> cases h

/-- The node a cold pool loses. -/
structure Drainable (pool : List AutoscaleNodeObservation) (v : AutoscaleNodeObservation) : Prop where
  mem : v ∈ pool
  may : mayGo v = true
  absorbed : survivorsCanAbsorb v pool = true

theorem planScaleIn_victim (h : planScaleIn policy pool = .scaleIn victim reason) :
    ∃ v, v.nodeId = victim ∧
      ((pool.filter mayGo).insertionSort victimOrder).find? (survivorsCanAbsorb · pool) = some v := by
  unfold planScaleIn at h
  split at h
  · cases h
  · split at h
    · cases h
    · rename_i v hv
      cases h
      exact ⟨v, rfl, hv⟩

theorem find_drainable {v : AutoscaleNodeObservation}
    (h : ((pool.filter mayGo).insertionSort victimOrder).find? (survivorsCanAbsorb · pool) = some v) :
    Drainable pool v := by
  have hmem := (List.mem_insertionSort victimOrder).mp (List.mem_of_find?_eq_some h)
  obtain ⟨hv, hmay⟩ := List.mem_filter.mp hmem
  have habsorbed := List.find?_some h
  exact ⟨hv, hmay, habsorbed⟩

/-- How utilization comes to grow the pool. -/
theorem planByLoad_scaleOut (h : planByLoad policy pool avgCpu avgMemory = .scaleOut reason) :
    pool.length < policy.maxNodes ∧ (policy.scaleOutPercent ≤ avgCpu ∨ policy.scaleOutPercent ≤ avgMemory) := by
  unfold planByLoad at h
  split at h
  · rename_i hhot
    split at h
    · cases h
    · exact ⟨by omega, hhot⟩
  · split at h
    · exact absurd h planScaleIn_ne_scaleOut
    · cases h

theorem planByLoad_scaleIn (h : planByLoad policy pool avgCpu avgMemory = .scaleIn victim reason) :
    policy.minNodes < pool.length ∧ everyNodeCold policy pool = true ∧
      planScaleIn policy pool = .scaleIn victim reason := by
  unfold planByLoad at h
  split at h
  · split at h <;> cases h
  · split at h
    · rename_i hcold
      exact ⟨hcold.1, hcold.2, h⟩
    · cases h

/-- The nodes whose metrics a pass averages. -/
def freshOf (nodes : List AutoscaleNodeObservation) : List AutoscaleNodeObservation := (poolOf nodes).filter (·.fresh)

/-- The cases of a decision. -/
theorem planAutoscale_cases (policy : AutoscalePolicy) (nodes : List AutoscaleNodeObservation) (nowMs : Int) :
    ((poolOf nodes).length < policy.minNodes ∧
        planAutoscale policy nodes nowMs = .scaleOut (.belowMin (poolOf nodes).length policy.minNodes)) ∨
      (policy.minNodes ≤ (poolOf nodes).length ∧ ∃ left, cooldownLeft policy nowMs = some left ∧
        planAutoscale policy nodes nowMs = .none (.cooldown ((left + 999) / 1000))) ∨
      (policy.minNodes ≤ (poolOf nodes).length ∧ cooldownLeft policy nowMs = none ∧ freshOf nodes = [] ∧
        planAutoscale policy nodes nowMs = .none .noMetrics) ∨
      (policy.minNodes ≤ (poolOf nodes).length ∧ cooldownLeft policy nowMs = none ∧ freshOf nodes ≠ [] ∧
        planAutoscale policy nodes nowMs =
          planByLoad policy (poolOf nodes) (average (·.cpu) (freshOf nodes)) (average (·.memory) (freshOf nodes))) := by
  unfold planAutoscale freshOf
  dsimp only
  split
  · rename_i hmin
    exact .inl ⟨hmin, rfl⟩
  · rename_i hmin
    have hfloor : policy.minNodes ≤ (poolOf nodes).length := by omega
    split
    · rename_i left hleft
      exact .inr (.inl ⟨hfloor, left, hleft, rfl⟩)
    · rename_i hleft
      split
      · rename_i hfresh
        exact .inr (.inr (.inl ⟨hfloor, hleft, hfresh, rfl⟩))
      · rename_i hfresh
        exact .inr (.inr (.inr ⟨hfloor, hleft, hfresh, rfl⟩))

/-- A pass grows only a pool below its ceiling. -/
theorem planAutoscale_scaleOut (h : planAutoscale policy nodes nowMs = .scaleOut reason) :
    (poolOf nodes).length < policy.maxNodes := by
  rcases planAutoscale_cases policy nodes nowMs with ⟨hmin, _⟩ | ⟨_, _, _, he⟩ | ⟨_, _, _, he⟩ | ⟨_, _, _, he⟩
  · have := policy.ordered
    omega
  · rw [he] at h; cases h
  · rw [he] at h; cases h
  · exact (planByLoad_scaleOut (he.symm.trans h)).1

/-- A pass shrinks only a cold pool above its floor. -/
theorem planAutoscale_cold (h : planAutoscale policy nodes nowMs = .scaleIn victim reason) :
    policy.minNodes < (poolOf nodes).length ∧ everyNodeCold policy (poolOf nodes) = true ∧
      planScaleIn policy (poolOf nodes) = .scaleIn victim reason := by
  rcases planAutoscale_cases policy nodes nowMs with ⟨_, he⟩ | ⟨_, _, _, he⟩ | ⟨_, _, _, he⟩ | ⟨_, _, _, he⟩
  · rw [he] at h; cases h
  · rw [he] at h; cases h
  · rw [he] at h; cases h
  · exact planByLoad_scaleIn (he.symm.trans h)

/-- A pass shrinks the pool by a node of it that may go and that the others can absorb. -/
theorem planAutoscale_scaleIn (h : planAutoscale policy nodes nowMs = .scaleIn victim reason) :
    policy.minNodes < (poolOf nodes).length ∧ ∃ v, v.nodeId = victim ∧ Drainable (poolOf nodes) v := by
  obtain ⟨hmin, _, hplan⟩ := planAutoscale_cold h
  obtain ⟨v, hv, hfind⟩ := planScaleIn_victim hplan
  exact ⟨hmin, v, hv, find_drainable hfind⟩

/-- While the cooldown runs, all a pass does is restore the floor. -/
theorem planAutoscale_cooldown {left : Int} (hleft : cooldownLeft policy nowMs = some left) :
    planAutoscale policy nodes nowMs = .none (.cooldown ((left + 999) / 1000)) ∨
      ((poolOf nodes).length < policy.minNodes ∧
        planAutoscale policy nodes nowMs = .scaleOut (.belowMin (poolOf nodes).length policy.minNodes)) := by
  rcases planAutoscale_cases policy nodes nowMs with h | ⟨_, l, hl, he⟩ | ⟨_, hnone, _⟩ | ⟨_, hnone, _⟩
  · exact .inr h
  · rw [hleft] at hl
    cases hl
    exact .inl he
  · rw [hleft] at hnone; cases hnone
  · rw [hleft] at hnone; cases hnone

/-- A claim that has just been stamped holds the next pass off. -/
theorem stamp_cools (policy : AutoscalePolicy) {claimed now : Int} (h : now - claimed < policy.cooldownSeconds * 1000) :
    cooldownLeft (policy.stamp claimed) now = some (policy.cooldownSeconds * 1000 - (now - claimed)) := by
  simp [cooldownLeft, AutoscalePolicy.stamp, Timestamp.parse, h]

/-! ### The least loaded -/

theorem victimOrder_total (a b : AutoscaleNodeObservation) : victimOrder a b ∨ victimOrder b a := by
  unfold victimOrder
  rcases lt_trichotomy a.load b.load with h | h | h
  · exact .inl (.inl h)
  · rcases le_total a.nodeId b.nodeId with hn | hn
    · exact .inr (.inr ⟨h.symm, hn⟩)
    · exact .inl (.inr ⟨h, hn⟩)
  · exact .inr (.inl h)

theorem victimOrder_trans {a b c : AutoscaleNodeObservation} (h : victimOrder a b) (h' : victimOrder b c) :
    victimOrder a c := by
  unfold victimOrder at *
  rcases h with h | ⟨h, hn⟩ <;> rcases h' with h' | ⟨h', hn'⟩
  · exact .inl (h.trans h')
  · exact .inl (h'.symm ▸ h)
  · exact .inl (h ▸ h')
  · exact .inr ⟨h.trans h', hn'.trans hn⟩

instance : Std.Total victimOrder := ⟨victimOrder_total⟩
instance : IsTrans AutoscaleNodeObservation victimOrder := ⟨fun _ _ _ => victimOrder_trans⟩

/-- What a sorted list's first hit comes before. -/
theorem find_before {α : Type} {r : α → α → Prop} {p : α → Bool} {l : List α} (hs : l.Pairwise r)
    (hrefl : ∀ a, r a a) {a b : α} (h : l.find? p = some a) (hb : b ∈ l) (hp : p b = true) : r a b := by
  induction l with
  | nil => cases hb
  | cons x xs ih =>
    obtain ⟨hx, hxs⟩ := List.pairwise_cons.mp hs
    rw [List.find?_cons] at h
    split at h
    · cases h
      rcases List.mem_cons.mp hb with rfl | hb
      · exact hrefl _
      · exact hx b hb
    · rename_i hno
      rcases List.mem_cons.mp hb with rfl | hb
      · rw [hp] at hno; cases hno
      · exact ih hxs h hb

/-- A node that may go and can be absorbed is no less loaded than the victim. -/
theorem planAutoscale_least_loaded (h : planAutoscale policy nodes nowMs = .scaleIn victim reason) :
    ∃ v, v.nodeId = victim ∧ Drainable (poolOf nodes) v ∧ ∀ n, Drainable (poolOf nodes) n → v.load ≤ n.load := by
  obtain ⟨_, _, hplan⟩ := planAutoscale_cold h
  obtain ⟨v, hv, hfind⟩ := planScaleIn_victim hplan
  refine ⟨v, hv, find_drainable hfind, fun n hn => ?_⟩
  have hmem := (List.mem_insertionSort victimOrder).mpr (List.mem_filter.mpr ⟨hn.mem, hn.may⟩)
  have hbefore := find_before (List.pairwise_insertionSort victimOrder _) (fun a => .inr ⟨rfl, le_rfl⟩) hfind hmem hn.absorbed
  rcases hbefore with hlt | ⟨heq, _⟩
  · exact hlt.le
  · exact heq.le

end LaunchPad
