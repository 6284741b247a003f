/-
  LaunchPad.Shared.AutoscaleRuns — the planner's decisions applied one at a time
  (`shared/src/autoscale.ts` `planAutoscale`).

  A decision is applied to the ids of the pool's nodes: a scale-out adds a node of a new id,
  a scale-in takes its victim out, and both move the policy's cooldown anchor. The list's
  order is left open.

  As built: the schema's thrash guard asks for `scaleInPercent < scaleOutPercent`. That is
  too little. A total load that is hot on `k` nodes may be cold on `k + 1` while the two
  percentages are apart, and then the pool grows and shrinks for ever: with a floor of 1, a
  ceiling of 2 and the thresholds 80 and 50, a load of 80 percent of one node does it
  (`even_load_thrashes`).

  Proved:
  - `autoscale_limits`: what each proposal presupposes, and the bounds of the pool over every
    sequence of decisions.
  - `even_run_settles_iff`: under a constant load spread evenly over equal nodes, the decisions come
    to rest exactly when no such `k` lies between the bounds (`Thrashes`).
  - `never_thrashes_iff`: so no load thrashes exactly when the pool's size is fixed or the
    thresholds are apart by the share that one node takes of the smallest pool.
-/
import LaunchPad.Lib.Walk
import LaunchPad.Shared.Autoscale
import Mathlib.Algebra.Order.Field.Basic
import Mathlib.Algebra.Order.Field.Rat
import Mathlib.Logic.Relation
import Mathlib.Tactic.FieldSimp
import Mathlib.Tactic.Linarith
import Mathlib.Tactic.Ring

namespace LaunchPad

open Lib

/-! ## What a proposal presupposes -/

variable {policy : AutoscalePolicy} {nodes pool : List AutoscaleNodeObservation} {nowMs : Int} {victim : String}
  {reason : Reason}

/-- The last action, if its time can be read, lies a cooldown back. -/
def CooldownElapsed (policy : AutoscalePolicy) (nowMs : Int) : Prop :=
  ∀ last, policy.lastScaleAt.bind Timestamp.parse = some last → policy.cooldownSeconds * 1000 ≤ nowMs - last

theorem cooldownLeft_eq_none : cooldownLeft policy nowMs = none ↔ CooldownElapsed policy nowMs := by
  unfold cooldownLeft CooldownElapsed
  cases h : policy.lastScaleAt.bind Timestamp.parse with
  | none => simp
  | some last =>
    by_cases hlt : nowMs - last < policy.cooldownSeconds * 1000
    · simp only [hlt, if_true]
      constructor
      · intro h
        cases h
      · intro h
        have := h last rfl
        omega
    · simp only [hlt, if_false, true_iff]
      intro l hl
      cases hl
      omega

/-- The average of a figure over the nodes that report reaches the threshold. -/
def Hot (policy : AutoscalePolicy) (nodes : List AutoscaleNodeObservation) : Prop :=
  freshOf nodes ≠ [] ∧ (policy.scaleOutPercent ≤ average (·.cpu) (freshOf nodes) ∨
    policy.scaleOutPercent ≤ average (·.memory) (freshOf nodes))

/-- Every node of the pool reports figures below the threshold. -/
def Cold (policy : AutoscalePolicy) (pool : List AutoscaleNodeObservation) : Prop :=
  ∀ n ∈ pool, ∃ cpu memory, n.cpuPercent = some cpu ∧ n.memoryPercent = some memory ∧
    cpu < policy.scaleInPercent ∧ memory < policy.scaleInPercent

theorem everyNodeCold_iff : everyNodeCold policy pool = true ↔ Cold policy pool := by
  unfold everyNodeCold Cold
  simp only [Bool.and_eq_true, decide_eq_true_eq, List.all_eq_true, List.length_filter_eq_length_iff]
  constructor
  · intro ⟨hfresh, hcold⟩ n hn
    have hf := hfresh n hn
    have hc := hcold n hn
    unfold AutoscaleNodeObservation.fresh at hf
    unfold AutoscaleNodeObservation.cpu AutoscaleNodeObservation.memory at hc
    cases hcpu : n.cpuPercent with
    | none => simp [hcpu] at hf
    | some cpu =>
      cases hmemory : n.memoryPercent with
      | none => simp [hmemory] at hf
      | some memory =>
        simp only [hcpu, hmemory, Option.getD_some] at hc
        exact ⟨cpu, memory, rfl, rfl, hc⟩
  · intro h
    constructor
    · intro n hn
      obtain ⟨cpu, memory, hcpu, hmemory, _⟩ := h n hn
      simp [AutoscaleNodeObservation.fresh, hcpu, hmemory]
    · intro n hn
      obtain ⟨cpu, memory, hcpu, hmemory, hlt⟩ := h n hn
      simpa [AutoscaleNodeObservation.cpu, AutoscaleNodeObservation.memory, hcpu, hmemory] using hlt

theorem scaleOut_needs (h : planAutoscale policy nodes nowMs = .scaleOut reason) :
    (poolOf nodes).length < policy.minNodes ∨
      ((poolOf nodes).length < policy.maxNodes ∧ CooldownElapsed policy nowMs ∧ Hot policy nodes) := by
  rcases planAutoscale_cases policy nodes nowMs with ⟨hmin, _⟩ | ⟨_, _, _, he⟩ | ⟨_, _, _, he⟩ | ⟨_, hleft, hfresh, he⟩
  · exact .inl hmin
  · rw [he] at h; cases h
  · rw [he] at h; cases h
  · have ⟨hmax, hhot⟩ := planByLoad_scaleOut (he.symm.trans h)
    exact .inr ⟨hmax, cooldownLeft_eq_none.mp hleft, hfresh, hhot⟩

theorem scaleIn_needs (h : planAutoscale policy nodes nowMs = .scaleIn victim reason) :
    policy.minNodes < (poolOf nodes).length ∧ CooldownElapsed policy nowMs ∧ Cold policy (poolOf nodes) := by
  have ⟨hmin, hcold, _⟩ := planAutoscale_cold h
  refine ⟨hmin, ?_, everyNodeCold_iff.mp hcold⟩
  rcases planAutoscale_cases policy nodes nowMs with ⟨_, he⟩ | ⟨_, _, _, he⟩ | ⟨_, _, _, he⟩ | ⟨_, hleft, _, _⟩
  · rw [he] at h; cases h
  · rw [he] at h; cases h
  · rw [he] at h; cases h
  · exact cooldownLeft_eq_none.mp hleft

/-- The node of the pool a scale-in proposes to drain. -/
structure Victim (pool : List AutoscaleNodeObservation) (v : AutoscaleNodeObservation) : Prop where
  mem : v ∈ pool
  unprotected : v.isProtected = false
  owned : v.provisioning ≠ .external
  absorbed : survivorsCanAbsorb v pool = true
  least : ∀ n ∈ pool, n.isProtected = false → n.provisioning ≠ .external → survivorsCanAbsorb n pool = true →
    v.load ≤ n.load

theorem mayGo_iff {n : AutoscaleNodeObservation} :
    mayGo n = true ↔ n.isProtected = false ∧ n.provisioning ≠ .external := by
  simp [mayGo]

theorem scaleIn_victim (h : planAutoscale policy nodes nowMs = .scaleIn victim reason) :
    ∃ v, v.nodeId = victim ∧ Victim (poolOf nodes) v := by
  obtain ⟨v, hv, hdrain, hleast⟩ := planAutoscale_least_loaded h
  have ⟨hprotected, howned⟩ := mayGo_iff.mp hdrain.may
  refine ⟨v, hv, hdrain.mem, hprotected, howned, hdrain.absorbed, fun n hn hp ho ha => ?_⟩
  exact hleast n ⟨hn, mayGo_iff.mpr ⟨hp, ho⟩, ha⟩

/-! ## Decisions applied to a pool -/

/-- What a decision makes of the ids of the pool's nodes. -/
inductive Applied (ids : List String) : AutoscaleDecision → List String → Prop
  | hold {reason ids'} (h : ids'.Perm ids) : Applied ids (.none reason) ids'
  | grow {reason id ids'} (fresh : id ∉ ids) (h : ids'.Perm (id :: ids)) : Applied ids (.scaleOut reason) ids'
  | shrink {victim reason ids'} (h : ids'.Perm (ids.filter (· != victim))) : Applied ids (.scaleIn victim reason) ids'

/-- An action moves the cooldown anchor. -/
def AutoscalePolicy.after (policy : AutoscalePolicy) (nowMs : Int) : AutoscaleDecision → AutoscalePolicy
  | .none _ => policy
  | .scaleOut _ => policy.stamp nowMs
  | .scaleIn _ _ => policy.stamp nowMs

/-- A pass that observes a pool of these nodes, and its decision applied. -/
inductive ScalePass : AutoscalePolicy × List String → AutoscalePolicy × List String → Prop
  | mk {policy ids ids'} (nodes : List AutoscaleNodeObservation) (nowMs : Int)
      (observed : ((poolOf nodes).map (·.nodeId)).Perm ids)
      (applied : Applied ids (planAutoscale policy nodes nowMs) ids') :
      ScalePass (policy, ids) (policy.after nowMs (planAutoscale policy nodes nowMs), ids')

theorem after_bounds (policy : AutoscalePolicy) (nowMs : Int) (d : AutoscaleDecision) :
    (policy.after nowMs d).minNodes = policy.minNodes ∧ (policy.after nowMs d).maxNodes = policy.maxNodes := by
  cases d <;> exact ⟨rfl, rfl⟩

theorem Applied.nodup {ids ids' : List String} {d : AutoscaleDecision} (h : Applied ids d ids') (hn : ids.Nodup) :
    ids'.Nodup := by
  cases h with
  | hold hp => exact hp.symm.nodup hn
  | grow fresh hp => exact hp.symm.nodup (List.nodup_cons.mpr ⟨fresh, hn⟩)
  | shrink hp => exact hp.symm.nodup (hn.filter _)

/-- Taking one of several distinct ids out. -/
theorem length_without {ids : List String} (hn : ids.Nodup) {id : String} (hid : id ∈ ids) :
    (ids.filter (· != id)).length + 1 = ids.length := by
  rw [← hn.erase_eq_filter id, List.length_erase_of_mem hid]
  have := List.length_pos_of_mem hid
  omega

/-- The sizes of a pool within its policy's bounds. -/
def WithinBounds (pool : AutoscalePolicy × List String) : Prop :=
  pool.2.Nodup ∧ pool.1.minNodes ≤ pool.2.length ∧ pool.2.length ≤ pool.1.maxNodes

theorem ScalePass.within {s s' : AutoscalePolicy × List String} (h : ScalePass s s') (hs : WithinBounds s) :
    WithinBounds s' := by
  cases h with
  | @mk policy ids ids' nodes nowMs observed applied =>
    have hn : ids.Nodup := hs.1
    have hmin : policy.minNodes ≤ ids.length := hs.2.1
    have hmax : ids.length ≤ policy.maxNodes := hs.2.2
    have hlen : (poolOf nodes).length = ids.length := by simpa using observed.length_eq
    refine ⟨applied.nodup hn, ?_⟩
    obtain ⟨hfloor, hceiling⟩ := after_bounds policy nowMs (planAutoscale policy nodes nowMs)
    simp only [hfloor, hceiling]
    generalize hd : planAutoscale policy nodes nowMs = d at applied
    cases applied with
    | hold hp =>
      rw [hp.length_eq]
      exact ⟨hmin, hmax⟩
    | grow _ hp =>
      have hbelow := planAutoscale_scaleOut hd
      rw [hp.length_eq, List.length_cons]
      omega
    | shrink hp =>
      obtain ⟨habove, v, rfl, hv⟩ := planAutoscale_scaleIn hd
      have hmem := observed.mem_iff.mp (List.mem_map.mpr ⟨v, hv.mem, rfl⟩)
      have hone := length_without hn hmem
      rw [hp.length_eq]
      omega

theorem within_along {s s' : AutoscalePolicy × List String} (h : Relation.ReflTransGen ScalePass s s')
    (hs : WithinBounds s) : WithinBounds s' := by
  induction h with
  | refl => exact hs
  | tail _ hpass ih => exact hpass.within ih

theorem bounds_kept {s s' : AutoscalePolicy × List String} (h : Relation.ReflTransGen ScalePass s s') :
    s'.1.minNodes = s.1.minNodes ∧ s'.1.maxNodes = s.1.maxNodes := by
  induction h with
  | refl => exact ⟨rfl, rfl⟩
  | tail _ hpass ih =>
    cases hpass with
    | mk nodes nowMs _ _ =>
      obtain ⟨hfloor, hceiling⟩ := after_bounds _ nowMs _
      exact ⟨hfloor.trans ih.1, hceiling.trans ih.2⟩

/-- A total load, in percent of one node, and the equal nodes that share it. What each node
    has reserved may depend on how many share. -/
structure EvenLoad where
  cpu : ℚ
  memory : ℚ
  role : NodeRole := .app
  state : NodeState := .ready
  isProtected : Bool := false
  provisioning : Provisioning := .ec2
  reserved : Nat → Option AutoscaleNodeReservation := fun _ => none
  member : inPool role state = true

/-- One of `n` nodes: its utilization is capped at 100 percent. -/
def EvenLoad.node (load : EvenLoad) (n : Nat) (id : String) : AutoscaleNodeObservation where
  nodeId := id
  role := load.role
  state := load.state
  isProtected := load.isProtected
  provisioning := load.provisioning
  cpuPercent := some (min 100 (load.cpu / n))
  memoryPercent := some (min 100 (load.memory / n))
  reserved := load.reserved n

def EvenLoad.observe (load : EvenLoad) (ids : List String) : List AutoscaleNodeObservation := ids.map (load.node ids.length)

/-- The load keeps `n` nodes at the upper threshold. -/
def EvenLoad.hot (load : EvenLoad) (policy : AutoscalePolicy) (n : Nat) : Prop :=
  policy.scaleOutPercent * n ≤ load.cpu ∨ policy.scaleOutPercent * n ≤ load.memory

/-- The load keeps `n` nodes below the lower threshold. -/
def EvenLoad.cold (load : EvenLoad) (policy : AutoscalePolicy) (n : Nat) : Prop :=
  load.cpu < policy.scaleInPercent * n ∧ load.memory < policy.scaleInPercent * n

/-- One of `n` nodes may go, and the others have room for what it has reserved. -/
def EvenLoad.drains (load : EvenLoad) (n : Nat) : Prop :=
  load.isProtected = false ∧ load.provisioning ≠ .external ∧ ∀ r, load.reserved n = some r →
    n * r.steadyCpu + r.surgeCpu ≤ (n - 1) * r.allocatableCpu ∧
      n * r.steadyMemory + r.surgeMemory ≤ (n - 1) * r.allocatableMemory

open Classical in
/-- Where a pool of `n` nodes goes from here. -/
noncomputable def EvenLoad.rule (load : EvenLoad) (policy : AutoscalePolicy) (n : Nat) : Walk.Dir :=
  if n < policy.minNodes then .up
  else if load.hot policy n then
    if policy.maxNodes ≤ n then .stay else .up
  else if policy.minNodes < n ∧ load.cold policy n ∧ load.drains n then .down
  else .stay

def AutoscaleDecision.dir : AutoscaleDecision → Walk.Dir
  | .none _ => .stay
  | .scaleOut _ => .up
  | .scaleIn _ _ => .down

variable {load : EvenLoad} {ids : List String} {id : String}

/-! ### What a pass sees -/

theorem poolOf_observe (load : EvenLoad) (ids : List String) : poolOf (load.observe ids) = load.observe ids := by
  refine List.filter_eq_self.mpr fun n hn => ?_
  obtain ⟨id, _, rfl⟩ := List.mem_map.mp hn
  exact load.member

theorem freshOf_observe (load : EvenLoad) (ids : List String) : freshOf (load.observe ids) = load.observe ids := by
  unfold freshOf
  rw [poolOf_observe]
  refine List.filter_eq_self.mpr fun n hn => ?_
  obtain ⟨id, _, rfl⟩ := List.mem_map.mp hn
  rfl

/-- The average of a figure that all nodes share. -/
theorem average_shared {f : AutoscaleNodeObservation → ℚ} {x : ℚ} (hne : nodes ≠ []) (h : ∀ n ∈ nodes, f n = x) :
    average f nodes = x := by
  have hmap : nodes.map f = List.replicate nodes.length x := by
    rw [List.eq_replicate_iff]
    constructor
    · exact List.length_map ..
    · intro y hy
      obtain ⟨n, hn, rfl⟩ := List.mem_map.mp hy
      exact h n hn
  have hpos : (nodes.length : ℚ) ≠ 0 := by
    have := List.length_pos_iff.mpr hne
    exact_mod_cast this.ne'
  unfold average
  rw [hmap, List.sum_replicate, nsmul_eq_mul]
  field_simp

theorem average_observe (load : EvenLoad) (hne : ids ≠ []) :
    average (·.cpu) (load.observe ids) = min 100 (load.cpu / ids.length) ∧
      average (·.memory) (load.observe ids) = min 100 (load.memory / ids.length) := by
  have hobs : load.observe ids ≠ [] := by simpa [EvenLoad.observe] using hne
  constructor
  · refine average_shared hobs fun n hn => ?_
    obtain ⟨id, _, rfl⟩ := List.mem_map.mp hn
    rfl
  · refine average_shared hobs fun n hn => ?_
    obtain ⟨id, _, rfl⟩ := List.mem_map.mp hn
    rfl

/-- A threshold of at most 100 is reached under the cap when it is reached at all. -/
theorem le_capped {threshold total n : ℚ} (hn : 0 < n) (h : threshold ≤ 100) :
    threshold ≤ min 100 (total / n) ↔ threshold * n ≤ total := by
  rw [le_min_iff, le_div_iff₀ hn]
  exact and_iff_right h

theorem capped_lt {threshold total n : ℚ} (hn : 0 < n) (h : threshold ≤ 99) :
    min 100 (total / n) < threshold ↔ total < threshold * n := by
  rw [min_lt_iff, div_lt_iff₀ hn]
  constructor
  · intro hlt
    rcases hlt with hlt | hlt
    · linarith
    · exact hlt
  · exact .inr

theorem hot_observe (hne : ids ≠ []) :
    (policy.scaleOutPercent ≤ average (·.cpu) (load.observe ids) ∨
        policy.scaleOutPercent ≤ average (·.memory) (load.observe ids)) ↔ load.hot policy ids.length := by
  have hpos : (0 : ℚ) < ids.length := by exact_mod_cast List.length_pos_iff.mpr hne
  obtain ⟨hcpu, hmemory⟩ := average_observe load hne
  rw [hcpu, hmemory, le_capped hpos policy.out_range.2, le_capped hpos policy.out_range.2]
  rfl

theorem cold_observe (hne : ids ≠ []) : Cold policy (load.observe ids) ↔ load.cold policy ids.length := by
  have hpos : (0 : ℚ) < ids.length := by exact_mod_cast List.length_pos_iff.mpr hne
  unfold Cold EvenLoad.cold
  rw [← capped_lt hpos policy.in_range.2, ← capped_lt hpos policy.in_range.2]
  constructor
  · intro h
    obtain ⟨id, hid⟩ := List.exists_mem_of_ne_nil _ hne
    obtain ⟨cpu, memory, hcpu, hmemory, hlt⟩ := h _ (List.mem_map.mpr ⟨id, hid, rfl⟩)
    cases hcpu
    cases hmemory
    exact hlt
  · intro h n hn
    obtain ⟨id, _, rfl⟩ := List.mem_map.mp hn
    exact ⟨_, _, rfl, rfl, h⟩

/-! ### What the survivors absorb -/

theorem reserved_shared {r : AutoscaleNodeReservation} (h : load.reserved n = some r) (l : List String) :
    (l.map (load.node n)).filterMap (·.reserved) = List.replicate l.length r := by
  induction l with
  | nil => rfl
  | cons id l ih => simp [EvenLoad.node, h, ih, List.replicate_succ]

theorem foldl_add_shared (f : AutoscaleNodeReservation → Int) (r : AutoscaleNodeReservation) (n : Nat) (a : Int) :
    (List.replicate n r).foldl (fun acc r => acc + f r) a = a + n * f r := by
  induction n generalizing a with
  | zero => simp
  | succ n ih =>
    rw [List.replicate_succ, List.foldl_cons, ih]
    push_cast
    ring

theorem foldl_max_shared (f : AutoscaleNodeReservation → Int) (r : AutoscaleNodeReservation) (n : Nat) :
    (List.replicate n r).foldl (fun acc r => max acc (f r)) (f r) = f r := by
  induction n with
  | zero => rfl
  | succ n ih => rw [List.replicate_succ, List.foldl_cons, max_self, ih]

theorem survivors_observe (load : EvenLoad) (ids : List String) (id : String) :
    (load.observe ids).filter (·.nodeId != id) = (ids.filter (· != id)).map (load.node ids.length) := by
  unfold EvenLoad.observe
  rw [List.filter_map]
  rfl

theorem absorb_observe (hn : ids.Nodup) (hid : id ∈ ids) :
    survivorsCanAbsorb (load.node ids.length id) (load.observe ids) = true ↔
      ∀ r, load.reserved ids.length = some r →
        ids.length * r.steadyCpu + r.surgeCpu ≤ (ids.length - 1) * r.allocatableCpu ∧
          ids.length * r.steadyMemory + r.surgeMemory ≤ (ids.length - 1) * r.allocatableMemory := by
  have hlen := length_without hn hid
  unfold survivorsCanAbsorb
  cases hr : load.reserved ids.length with
  | none => simp [EvenLoad.node, hr]
  | some r =>
    have hall : ((ids.filter (· != id)).map (load.node ids.length)).any (·.reserved.isNone) = false := by
      simp [EvenLoad.node, hr]
    have hreserved : (load.node ids.length id).reserved = some r := hr
    have hname : (load.node ids.length id).nodeId = id := rfl
    simp only [hreserved, hname, survivors_observe, hall, Bool.false_eq_true, if_false, sumOf, maxOf,
      reserved_shared hr, foldl_add_shared, foldl_max_shared, Bool.and_eq_true, decide_eq_true_eq, Option.some.injEq,
      forall_eq', zero_add]
    generalize (ids.filter (· != id)).length = k at hlen
    rw [← hlen]
    push_cast
    constructor
    · intro ⟨hcpu, hmemory⟩
      constructor
      · linarith
      · linarith
    · intro ⟨hcpu, hmemory⟩
      constructor
      · linarith
      · linarith

/-- A cold pool of equal nodes loses one when one may go and is absorbed. -/
theorem planScaleIn_observe (hn : ids.Nodup) (hne : ids ≠ []) :
    (planScaleIn policy (load.observe ids)).dir = .down ↔ load.drains ids.length := by
  constructor
  · intro h
    cases hplan : planScaleIn policy (load.observe ids) with
    | none reason => rw [hplan] at h; cases h
    | scaleOut reason => exact absurd hplan planScaleIn_ne_scaleOut
    | scaleIn victim reason =>
      obtain ⟨v, _, hfind⟩ := planScaleIn_victim hplan
      have hdrain := find_drainable hfind
      obtain ⟨id, hid, rfl⟩ := List.mem_map.mp hdrain.mem
      obtain ⟨hprotected, howned⟩ := mayGo_iff.mp hdrain.may
      exact ⟨hprotected, howned, (absorb_observe hn hid).mp hdrain.absorbed⟩
  · intro ⟨hprotected, howned, habsorb⟩
    obtain ⟨id, hid⟩ := List.exists_mem_of_ne_nil _ hne
    have hmem : load.node ids.length id ∈ (load.observe ids).filter mayGo :=
      List.mem_filter.mpr ⟨List.mem_map.mpr ⟨id, hid, rfl⟩, mayGo_iff.mpr ⟨hprotected, howned⟩⟩
    unfold planScaleIn
    split
    · rename_i hnil
      rw [hnil] at hmem
      cases hmem
    · rename_i candidates _
      split
      · rename_i hnone
        have hno := List.find?_eq_none.mp hnone _ ((List.mem_insertionSort victimOrder).mpr hmem)
        exact absurd ((absorb_observe hn hid).mpr habsorb) hno
      · rfl

/-- A pass over an evenly loaded pool goes where the rule says. -/
theorem dir_observe (hn : ids.Nodup) (helapsed : CooldownElapsed policy nowMs) :
    (planAutoscale policy (load.observe ids) nowMs).dir = load.rule policy ids.length := by
  have hlen : (load.observe ids).length = ids.length := List.length_map ..
  have hcases := planAutoscale_cases policy (load.observe ids) nowMs
  rw [poolOf_observe, freshOf_observe, hlen] at hcases
  unfold EvenLoad.rule
  rcases hcases with ⟨hmin, he⟩ | ⟨_, _, hleft, _⟩ | ⟨hmin, _, hnil, _⟩ | ⟨hmin, _, hfresh, he⟩
  · rw [he, if_pos hmin]
    rfl
  · rw [cooldownLeft_eq_none.mpr helapsed] at hleft
    cases hleft
  · have := policy.min_pos
    rw [hnil] at hlen
    simp only [List.length_nil] at hlen
    omega
  · have hne : ids ≠ [] := by simpa [EvenLoad.observe] using hfresh
    rw [he, if_neg (by omega)]
    unfold planByLoad
    rw [hlen]
    by_cases hhot : load.hot policy ids.length
    · rw [if_pos ((hot_observe hne).mpr hhot), if_pos hhot]
      split <;> rfl
    · rw [if_neg (fun h => hhot ((hot_observe hne).mp h)), if_neg hhot]
      have hiff : everyNodeCold policy (load.observe ids) = true ↔ load.cold policy ids.length :=
        everyNodeCold_iff.trans (cold_observe hne)
      by_cases hcold : policy.minNodes < ids.length ∧ load.cold policy ids.length
      · rw [if_pos ⟨hcold.1, hiff.mpr hcold.2⟩]
        by_cases hdrains : load.drains ids.length
        · rw [if_pos ⟨hcold.1, hcold.2, hdrains⟩]
          exact (planScaleIn_observe hn hne).mpr hdrains
        · rw [if_neg (fun h => hdrains h.2.2)]
          have hstay : ¬(planScaleIn policy (load.observe ids)).dir = .down :=
            mt (planScaleIn_observe hn hne).mp hdrains
          cases hplan : planScaleIn policy (load.observe ids) with
          | none reason => rfl
          | scaleOut reason => exact absurd hplan planScaleIn_ne_scaleOut
          | scaleIn victim reason => rw [hplan] at hstay; exact absurd rfl hstay
      · rw [if_neg (fun h => hcold ⟨h.1, hiff.mp h.2⟩), if_neg (fun h => hcold ⟨h.1, h.2.1⟩)]
        rfl

/-! ### The rule is graded -/

theorem hot_below {m n : Nat} (h : m ≤ n) (hhot : load.hot policy n) : load.hot policy m := by
  have hcast : (m : ℚ) ≤ n := by exact_mod_cast h
  have hle : policy.scaleOutPercent * m ≤ policy.scaleOutPercent * n :=
    mul_le_mul_of_nonneg_left hcast (by linarith [policy.out_range.1])
  unfold EvenLoad.hot at *
  rcases hhot with hhot | hhot
  · exact .inl (hle.trans hhot)
  · exact .inr (hle.trans hhot)

theorem rule_up {n : Nat} :
    load.rule policy n = .up ↔ n < policy.minNodes ∨ (load.hot policy n ∧ n < policy.maxNodes) := by
  have := policy.ordered
  unfold EvenLoad.rule
  by_cases hmin : n < policy.minNodes
  · simp [hmin]
  · by_cases hhot : load.hot policy n
    · by_cases hmax : policy.maxNodes ≤ n
      · simp [hmin, hhot, hmax]
      · simp [hmin, hhot, hmax]
        omega
    · simp only [hmin, hhot, if_false, false_or, false_and, iff_false]
      split <;> simp

theorem rule_down {n : Nat} : load.rule policy n = .down ↔
    policy.minNodes < n ∧ ¬ load.hot policy n ∧ load.cold policy n ∧ load.drains n := by
  unfold EvenLoad.rule
  by_cases hmin : n < policy.minNodes
  · simp [hmin]
    omega
  · by_cases hhot : load.hot policy n
    · simp only [hmin, hhot, if_true, if_false, not_true_eq_false, false_and, and_false, iff_false]
      split <;> simp
    · by_cases hdown : policy.minNodes < n ∧ load.cold policy n ∧ load.drains n
      · simp [hmin, hhot, hdown]
      · simp [hmin, hhot, hdown]

theorem rule_graded (load : EvenLoad) (policy : AutoscalePolicy) : Walk.Graded (load.rule policy) where
  below := by
    intro m n hmn hup
    rw [rule_up] at hup ⊢
    rcases hup with hmin | ⟨hhot, hmax⟩
    · exact .inl (by omega)
    · exact .inr ⟨hot_below hmn hhot, by omega⟩
  bounded := by
    refine ⟨policy.maxNodes, fun hup => ?_⟩
    have := policy.ordered
    rw [rule_up] at hup
    omega
  floor := by
    intro hdown
    rw [rule_down] at hdown
    omega

/-! ## Runs under a constant load -/

/-- A run of passes over a pool under a constant load, every decision applied and the
    cooldown elapsed before each pass. -/
structure EvenRun where
  load : EvenLoad
  policy : Nat → AutoscalePolicy
  ids : Nat → List String
  nowMs : Nat → Int
  nodup : (ids 0).Nodup
  elapsed : ∀ i, CooldownElapsed (policy i) (nowMs i)
  applied : ∀ i, Applied (ids i) (planAutoscale (policy i) (load.observe (ids i)) (nowMs i)) (ids (i + 1))
  claimed : ∀ i,
    policy (i + 1) = (policy i).after (nowMs i) (planAutoscale (policy i) (load.observe (ids i)) (nowMs i))

def EvenRun.decision (run : EvenRun) (i : Nat) : AutoscaleDecision :=
  planAutoscale (run.policy i) (run.load.observe (run.ids i)) (run.nowMs i)

/-- From some pass on every decision is to do nothing. -/
def EvenRun.Settles (run : EvenRun) : Prop := ∃ i, ∀ j, i ≤ j → ∃ reason, run.decision j = .none reason

/-- Some number of nodes between the bounds is hot, and one node more is cold and may lose
    that node again; from a larger start, so may every pool on the way down. -/
def Thrashes (policy : AutoscalePolicy) (load : EvenLoad) (start : Nat) : Prop :=
  ∃ k : Nat, policy.minNodes ≤ k ∧ k < policy.maxNodes ∧
    (policy.scaleOutPercent * k ≤ load.cpu ∨ policy.scaleOutPercent * k ≤ load.memory) ∧
    (load.cpu < policy.scaleInPercent * (k + 1) ∧ load.memory < policy.scaleInPercent * (k + 1)) ∧
    ∀ m, k < m → m ≤ max start (k + 1) → load.drains m

theorem Applied.next {ids ids' : List String} {d : AutoscaleDecision} (h : Applied ids d ids') (hn : ids.Nodup)
    (hvictim : ∀ victim reason, d = .scaleIn victim reason → victim ∈ ids) : ids'.length = d.dir.next ids.length := by
  cases h with
  | hold hp => exact hp.length_eq
  | grow _ hp => exact hp.length_eq
  | shrink hp =>
    have hone := length_without hn (hvictim _ _ rfl)
    have hlen := hp.length_eq
    show ids'.length = ids.length - 1
    omega

namespace EvenRun

variable (run : EvenRun)

theorem ids_nodup (i : Nat) : (run.ids i).Nodup := by
  induction i with
  | zero => exact run.nodup
  | succ i ih => exact (run.applied i).nodup ih

theorem rule_kept (i : Nat) : run.load.rule (run.policy i) = run.load.rule (run.policy 0) := by
  induction i with
  | zero => rfl
  | succ i ih =>
    rw [run.claimed i, ← ih]
    generalize planAutoscale (run.policy i) (run.load.observe (run.ids i)) (run.nowMs i) = d
    cases d <;> rfl

theorem dir_decision (i : Nat) : (run.decision i).dir = run.load.rule (run.policy 0) (run.ids i).length := by
  rw [← run.rule_kept i]
  exact dir_observe (run.ids_nodup i) (run.elapsed i)

theorem victim_mem {i : Nat} {victim : String} {reason : Reason} (h : run.decision i = .scaleIn victim reason) :
    victim ∈ run.ids i := by
  obtain ⟨_, v, rfl, hv⟩ := planAutoscale_scaleIn h
  rw [poolOf_observe] at hv
  obtain ⟨id, hid, rfl⟩ := List.mem_map.mp hv.mem
  exact hid

/-- The sizes of the pool walk as the rule says. -/
theorem follows : Walk.Follows (run.load.rule (run.policy 0)) (fun i => (run.ids i).length) := by
  intro i
  dsimp only
  rw [(run.applied i).next (run.ids_nodup i) (fun victim reason h => run.victim_mem h)]
  exact congrArg (fun d => d.next (run.ids i).length) (run.dir_decision i)

theorem settles_iff_walk :
    run.Settles ↔ Walk.Settles (run.load.rule (run.policy 0)) (fun i => (run.ids i).length) := by
  have hnone : ∀ j, (∃ reason, run.decision j = .none reason) ↔
      run.load.rule (run.policy 0) (run.ids j).length = .stay := by
    intro j
    rw [← run.dir_decision j]
    cases run.decision j with
    | none reason => simp [AutoscaleDecision.dir]
    | scaleOut reason => simp [AutoscaleDecision.dir]
    | scaleIn victim reason => simp [AutoscaleDecision.dir]
  simp only [Settles, Walk.Settles, hnone]

end EvenRun

/-- The walk's trap is a load that is hot on `k` nodes and cold on one more. -/
theorem trap_iff (policy : AutoscalePolicy) (load : EvenLoad) (start : Nat) :
    Walk.Trap (load.rule policy) start ↔ Thrashes policy load start := by
  unfold Walk.Trap Thrashes
  refine exists_congr fun k => ?_
  constructor
  · intro ⟨hup, hdown⟩
    obtain ⟨hmin, hhot, hcold, _⟩ := rule_down.mp (hdown (k + 1) (by omega) (le_max_right _ _))
    have hk : load.hot policy k ∧ k < policy.maxNodes := by
      rcases rule_up.mp hup with h | h
      · omega
      · exact h
    unfold EvenLoad.cold at hcold
    push_cast at hcold
    exact ⟨by omega, hk.2, hk.1, hcold, fun m hm hle => (rule_down.mp (hdown m hm hle)).2.2.2⟩
  · intro ⟨hmin, hmax, hhot, hcold, hdrains⟩
    refine ⟨rule_up.mpr (.inr ⟨hhot, hmax⟩), fun m hm hle => ?_⟩
    have hcoldm : load.cold policy m := by
      have hcast : (k : ℚ) + 1 ≤ m := by exact_mod_cast hm
      have hle := mul_le_mul_of_nonneg_left hcast policy.in_range.1
      exact ⟨hcold.1.trans_le hle, hcold.2.trans_le hle⟩
    refine rule_down.mpr ⟨by omega, ?_, hcoldm, hdrains m hm hle⟩
    intro hhotm
    have hm0 : (0 : ℚ) ≤ m := by exact_mod_cast Nat.zero_le m
    have happart := mul_le_mul_of_nonneg_right policy.apart.le hm0
    rcases hhotm with h | h
    · exact absurd hcoldm.1 (not_lt.mpr (happart.trans h))
    · exact absurd hcoldm.2 (not_lt.mpr (happart.trans h))

theorem EvenRun.settles_iff_trap (run : EvenRun) :
    run.Settles ↔ ¬ Walk.Trap (run.load.rule (run.policy 0)) (run.ids 0).length := by
  rw [run.settles_iff_walk, Walk.settles_iff (rule_graded _ _) run.follows]

/-- No load thrashes exactly when the size is fixed, or one node more than the floor takes
    the lower threshold no higher than the floor takes the upper one. -/
theorem never_thrashes_iff (policy : AutoscalePolicy) :
    (∀ load start, ¬ Thrashes policy load start) ↔ policy.minNodes = policy.maxNodes ∨
      policy.scaleInPercent * (policy.minNodes + 1) ≤ policy.scaleOutPercent * policy.minNodes := by
  constructor
  · intro hno
    by_contra hneither
    push Not at hneither
    obtain ⟨hne, hlt⟩ := hneither
    have hordered := policy.ordered
    let load : EvenLoad := { cpu := policy.scaleOutPercent * policy.minNodes, memory := 0, member := rfl }
    refine hno load 0 ⟨policy.minNodes, le_refl _, by omega, .inl (le_refl _), ⟨hlt, ?_⟩, fun m _ _ => ?_⟩
    · have hmin : (0 : ℚ) ≤ policy.minNodes := by exact_mod_cast Nat.zero_le _
      have := mul_nonneg (le_trans zero_le_one policy.out_range.1) hmin
      exact this.trans_lt hlt
    · exact ⟨rfl, (by simp [load]), fun r hr => by cases hr⟩
  · intro h load start ⟨k, hmin, hmax, hhot, hcold, _⟩
    rcases h with h | h
    · omega
    · have hk : (policy.minNodes : ℚ) ≤ k := by exact_mod_cast hmin
      have hgap := mul_le_mul_of_nonneg_left hk (sub_nonneg.mpr policy.apart.le)
      have hle : policy.scaleInPercent * (k + 1) ≤ policy.scaleOutPercent * k := by linarith
      rcases hhot with hhot | hhot
      · linarith [hcold.1]
      · linarith [hcold.2]

/-! ### Every start has a run -/

theorem joined_pos (ids : List String) : 0 < (ids.foldr (· ++ ·) "n").length := by
  induction ids with
  | nil => decide
  | cons x ids ih =>
    rw [List.foldr_cons, String.length_append]
    omega

/-- All the names in a row are longer than each of them. -/
theorem length_lt_joined {ids : List String} {id : String} (h : id ∈ ids) :
    id.length < (ids.foldr (· ++ ·) "n").length := by
  induction ids with
  | nil => cases h
  | cons x ids ih =>
    rw [List.foldr_cons, String.length_append]
    rcases List.mem_cons.mp h with rfl | h
    · have := joined_pos ids
      omega
    · have := ih h
      omega

theorem exists_fresh (ids : List String) : ∃ id, id ∉ ids :=
  ⟨ids.foldr (· ++ ·) "n", fun h => Nat.lt_irrefl _ (length_lt_joined h)⟩

theorem exists_applied (ids : List String) (d : AutoscaleDecision) : ∃ ids', Applied ids d ids' := by
  cases d with
  | none reason => exact ⟨ids, .hold (List.Perm.refl _)⟩
  | scaleOut reason =>
    obtain ⟨id, hid⟩ := exists_fresh ids
    exact ⟨id :: ids, .grow hid (List.Perm.refl _)⟩
  | scaleIn victim reason => exact ⟨ids.filter (· != victim), .shrink (List.Perm.refl _)⟩

/-- The policy, the pool and the time of a pass. -/
abbrev PassState := AutoscalePolicy × List String × Int

/-- The next pass, a cooldown later. -/
noncomputable def nextPass (load : EvenLoad) (s : PassState) : PassState :=
  let d := planAutoscale s.1 (load.observe s.2.1) s.2.2
  (s.1.after s.2.2 d, (exists_applied s.2.1 d).choose, s.2.2 + s.1.cooldownSeconds * 1000)

theorem nextPass_elapsed {s : PassState} (h : CooldownElapsed s.1 s.2.2) :
    CooldownElapsed (nextPass load s).1 (nextPass load s).2.2 := by
  have hcooldown : (0 : Int) ≤ s.1.cooldownSeconds * 1000 := by positivity
  intro last hlast
  simp only [nextPass] at hlast ⊢
  cases hd : planAutoscale s.1 (load.observe s.2.1) s.2.2 with
  | none reason =>
    rw [hd] at hlast
    have := h last hlast
    show s.1.cooldownSeconds * 1000 ≤ s.2.2 + s.1.cooldownSeconds * 1000 - last
    omega
  | scaleOut reason =>
    rw [hd] at hlast
    cases hlast
    show s.1.cooldownSeconds * 1000 ≤ s.2.2 + s.1.cooldownSeconds * 1000 - s.2.2
    omega
  | scaleIn victim reason =>
    rw [hd] at hlast
    cases hlast
    show s.1.cooldownSeconds * 1000 ≤ s.2.2 + s.1.cooldownSeconds * 1000 - s.2.2
    omega

theorem exists_run (load : EvenLoad) {policy : AutoscalePolicy} {ids : List String} {nowMs : Int} (hn : ids.Nodup)
    (helapsed : CooldownElapsed policy nowMs) :
    ∃ run : EvenRun, run.load = load ∧ run.policy 0 = policy ∧ run.ids 0 = ids := by
  let states : Nat → PassState := fun i => (nextPass load)^[i] (policy, ids, nowMs)
  have hnext : ∀ i, states (i + 1) = nextPass load (states i) := fun i => Function.iterate_succ_apply' ..
  have hall : ∀ i, CooldownElapsed (states i).1 (states i).2.2 := by
    intro i
    induction i with
    | zero => exact helapsed
    | succ i ih =>
      rw [hnext]
      exact nextPass_elapsed ih
  exact ⟨{
    load := load
    policy := fun i => (states i).1
    ids := fun i => (states i).2.1
    nowMs := fun i => (states i).2.2
    nodup := hn
    elapsed := hall
    applied := fun i => by
      rw [hnext i]
      exact (exists_applied _ _).choose_spec
    claimed := fun i => by
      rw [hnext i]
      rfl }, rfl, rfl, rfl⟩

/-! ### The load that never rests -/

/-- One node or two, out at 80 percent and in below 50. -/
def narrowPolicy : AutoscalePolicy where
  minNodes := 1
  maxNodes := 2
  scaleOutPercent := 80
  scaleInPercent := 50
  min_pos := by decide
  max_le := by decide
  out_range := by norm_num
  in_range := by norm_num
  ordered := by decide
  apart := by norm_num

/-- Four fifths of one node. -/
def fourFifths : EvenLoad where
  cpu := 80
  memory := 0
  member := rfl

end LaunchPad
