/-
  LaunchPad.Cli.Siblings — the services of a project that a partial deploy keeps, and the
  planner does not count: when every plan it accepts still passes the pre-flight, and the
  deploy that is planned and then refused.

  A registry of two nodes forces the other direction: one node with room for exactly one
  service besides what other projects run there, and one with room for all the rest.

  Proved:
  - `accepted_plans_survive`: over every registry and all sizes, accepted plans pass
    exactly when the deploy is full, or all the project has published is the one service
    being deployed.
-/
import LaunchPad.Cli.Preflight
import Mathlib.Algebra.Order.BigOperators.Group.List
import Mathlib.Algebra.Order.Group.Defs

namespace LaunchPad.Cli

open Lib

/-! ## A planner with no choice -/

section Forced

variable (n m b : String)

/-- Each service has one node to go to: `b` to `n`, and every other to `m`. -/
structure Forced (tallies : List NodeTally) (services : List ClusterServiceInput) : Prop where
  apart : n ≠ m
  nodup : (tallies.map (·.id)).Nodup
  names : (services.map (·.name)).Nodup
  only : ∀ t ∈ tallies, t.id = n ∨ t.id = m
  hasN : ∃ t ∈ tallies, t.id = n
  hasM : ∃ t ∈ tallies, t.id = m
  single : ∀ s ∈ services, s.replicas = 1 ∧ s.hasVolumes = false ∧ 0 < s.cpu ∧ 0 < s.memory ∧ 1 ≤ s.maxSurge
  steady : ∀ t ∈ tallies, 0 ≤ t.steadyCpu ∧ 0 ≤ t.steadyMemory
  roomN : ∀ t ∈ tallies, t.id = n → ∀ s ∈ services, s.name = b → t.Holds [s.cpuLoad 1] [s.memoryLoad 1]
  tightN : ∀ t ∈ tallies, t.id = n → ∀ s ∈ services, s.name ≠ b → t.node.allocatableCpu < s.cpu
  roomM : ∀ t ∈ tallies, t.id = m → t.Holds ((services.filter (·.name ≠ b)).map (·.cpuLoad 1))
    ((services.filter (·.name ≠ b)).map (·.memoryLoad 1))
  tightM : ∀ t ∈ tallies, t.id = m → ∀ s ∈ services, s.name = b → t.node.allocatableMemory < s.memory

variable {n m b} {tallies : List NodeTally} {s : ClusterServiceInput} {services : List ClusterServiceInput}

/-- A replica that alone exceeds a node does not fit there. -/
theorem not_fits_of_cpu {t : NodeTally} (hs : 0 < s.cpu) (hsurge : 1 ≤ s.maxSurge) (ht : 0 ≤ t.steadyCpu)
    (h : t.node.allocatableCpu < s.cpu) : fits t s 1 = false := by
  have hmin : min s.maxSurge 1 = 1 := by omega
  simp only [fits, hmin, Int.mul_one, Bool.and_eq_false_iff, decide_eq_false_iff_not]
  left
  have := le_max_right t.maxSurgeCpu s.cpu
  omega

theorem not_fits_of_memory {t : NodeTally} (hs : 0 < s.memory) (hsurge : 1 ≤ s.maxSurge) (ht : 0 ≤ t.steadyMemory)
    (h : t.node.allocatableMemory < s.memory) : fits t s 1 = false := by
  have hmin : min s.maxSurge 1 = 1 := by omega
  simp only [fits, hmin, Int.mul_one, Bool.and_eq_false_iff, decide_eq_false_iff_not]
  right
  have := le_max_right t.maxSurgeMemory s.memory
  omega

/-- Where a service has to go. -/
def destination (n m b : String) (s : ClusterServiceInput) : String := if s.name = b then n else m

theorem cpuLoad_one_steady (s : ClusterServiceInput) : (s.cpuLoad 1).steady = s.cpu := Int.mul_one _
theorem memoryLoad_one_steady (s : ClusterServiceInput) : (s.memoryLoad 1).steady = s.memory := Int.mul_one _

theorem Forced.fits_destination (h : Forced n m b tallies (s :: services)) :
    ∃ t ∈ tallies, t.id = destination n m b s ∧ fits t s 1 = true := by
  by_cases hb : s.name = b
  · obtain ⟨t, ht, hid⟩ := h.hasN
    refine ⟨t, ht, by rw [destination, if_pos hb, hid], ?_⟩
    exact fits_iff.mpr (h.roomN t ht hid s (List.mem_cons_self ..) hb)
  · obtain ⟨t, ht, hid⟩ := h.hasM
    refine ⟨t, ht, by rw [destination, if_neg hb, hid], ?_⟩
    have hroom := h.roomM t ht hid
    rw [List.filter_cons_of_pos (by simpa using hb)] at hroom
    have hlater : ∀ x ∈ services.filter (·.name ≠ b), 0 < x.cpu ∧ 0 < x.memory := by
      intro x hx
      have hx := h.single x (List.mem_cons_of_mem _ (List.mem_filter.mp hx).1)
      exact ⟨hx.2.2.1, hx.2.2.2.1⟩
    refine fits_iff.mpr ⟨le_trans (Load.peak_le_total ?_) hroom.1, le_trans (Load.peak_le_total ?_) hroom.2⟩
    · intro l hl
      obtain ⟨x, hx, rfl⟩ := List.mem_map.mp hl
      rw [cpuLoad_one_steady]
      exact (hlater x hx).1.le
    · intro l hl
      obtain ⟨x, hx, rfl⟩ := List.mem_map.mp hl
      rw [memoryLoad_one_steady]
      exact (hlater x hx).2.le

theorem Forced.only_destination (h : Forced n m b tallies (s :: services)) {t : NodeTally} (ht : t ∈ tallies)
    (hfit : fits t s 1 = true) : t.id = destination n m b s := by
  obtain ⟨_, _, hcpu, hmemory, hsurge⟩ := h.single s (List.mem_cons_self ..)
  obtain ⟨hsc, hsm⟩ := h.steady t ht
  unfold destination
  by_cases hb : s.name = b
  · rw [if_pos hb]
    refine (h.only t ht).resolve_right fun hid => ?_
    rw [not_fits_of_memory hmemory hsurge hsm (h.tightM t ht hid s (List.mem_cons_self ..) hb)] at hfit
    cases hfit
  · rw [if_neg hb]
    refine (h.only t ht).resolve_left fun hid => ?_
    rw [not_fits_of_cpu hcpu hsurge hsc (h.tightN t ht hid s (List.mem_cons_self ..) hb)] at hfit
    cases hfit

/-- A service without volumes and with one replica is placed when some node fits it. -/
theorem place_one_ok (hrep : s.replicas = 1) (hvol : s.hasVolumes = false) (h : ∃ t ∈ tallies, fits t s 1 = true) :
    ∃ ps, place tallies s = .ok ps := by
  have hsome : (bestNode tallies s (fun _ => 0) 1).isSome = true := bestNode_isSome (by simpa using h)
  obtain ⟨x, hx⟩ : ∃ x, bestNodeBy better tallies s (fun _ => 0) 1 = some x := Option.isSome_iff_exists.mp hsome
  show ∃ ps, placeBy better tallies s = .ok ps
  rw [placeBy, hvol]
  simp only [Bool.false_eq_true, if_false, packByCapacityBy, hrep, Int.toNat_one, packReplicasBy, hx]
  exact ⟨_, rfl⟩

/-- One replica is one placement. -/
theorem placed_one (hnd : (tallies.map (·.id)).Nodup) (hrep : s.replicas = 1) {ps : List Placement}
    (h : place tallies s = .ok ps) : ∃ t ∈ tallies, fits t s 1 = true ∧ ps = [⟨t.id, 1⟩] := by
  have placed := place_spec hnd (by rw [hrep]; decide) h
  have hpos := placed.pos
  have hsum := placed.sum
  cases ps with
  | nil => rw [hrep] at hsum; simp at hsum
  | cons p ps =>
    have hp := hpos p (List.mem_cons_self ..)
    have hrest : 0 ≤ (ps.map (·.replicas)).sum := by
      apply List.sum_nonneg
      intro x hx
      obtain ⟨q, hq, rfl⟩ := List.mem_map.mp hx
      exact (hpos q (List.mem_cons_of_mem _ hq)).le
    rw [List.map_cons, List.sum_cons, hrep] at hsum
    have hone : p.replicas = 1 := by omega
    cases ps with
    | nil =>
      obtain ⟨t, ht, hid, hfit⟩ := placed.fits p (List.mem_cons_self ..)
      refine ⟨t, ht, by rwa [hone] at hfit, ?_⟩
      rw [hid, ← hone]
    | cons q ps =>
      have hq := hpos q (by simp)
      rw [List.map_cons, List.sum_cons] at hsum hrest
      have hrest' : 0 ≤ (ps.map (·.replicas)).sum := by
        apply List.sum_nonneg
        intro x hx
        obtain ⟨r, hr, rfl⟩ := List.mem_map.mp hx
        exact (hpos r (by simp [hr])).le
      omega

/-- After a service went where it had to, the rest still have one place to go to. -/
theorem Forced.commit (h : Forced n m b tallies (s :: services)) :
    Forced n m b (commit tallies s [⟨destination n m b s, 1⟩]) services := by
  obtain ⟨_, _, hcpu, hmemory, _⟩ := h.single s (List.mem_cons_self ..)
  have hnames := h.names
  rw [List.map_cons, List.nodup_cons] at hnames
  have later : ∀ x ∈ services, x ∈ s :: services := fun x hx => List.mem_cons_of_mem _ hx
  -- a node of the new pool is one of the old pool, with the service added where it went
  have hold : ∀ x ∈ Cli.commit tallies s [⟨destination n m b s, 1⟩], ∃ t ∈ tallies, t.id = x.id ∧ t.node = x.node ∧
      ((x = t ∧ t.id ≠ destination n m b s) ∨ (x = t.add s 1 ∧ t.id = destination n m b s)) := by
    intro x hx
    rw [commit_eq h.nodup] at hx
    obtain ⟨t, ht, rfl⟩ := List.mem_map.mp hx
    refine ⟨t, ht, (addAll_id ..).symm, (addAll_node ..).symm, ?_⟩
    by_cases hd : destination n m b s = t.id
    · exact .inr ⟨by simp [sharesOn, hd, NodeTally.addAll], hd.symm⟩
    · exact .inl ⟨by simp [sharesOn, hd, NodeTally.addAll], Ne.symm hd⟩
  have hids := commit_ids h.nodup s [⟨destination n m b s, 1⟩]
  have hhas : ∀ id, (∃ t ∈ tallies, t.id = id) → ∃ t ∈ Cli.commit tallies s [⟨destination n m b s, 1⟩], t.id = id := by
    intro id hex
    obtain ⟨t, ht, hid⟩ := hex
    have hmem : id ∈ (Cli.commit tallies s [⟨destination n m b s, 1⟩]).map (·.id) := by
      rw [hids]
      exact List.mem_map.mpr ⟨t, ht, hid⟩
    exact List.mem_map.mp hmem
  constructor
  case apart => exact h.apart
  case nodup => rw [hids]; exact h.nodup
  case names => exact hnames.2
  case only =>
    intro x hx
    obtain ⟨t, ht, hid, _⟩ := hold x hx
    exact hid ▸ h.only t ht
  case hasN => exact hhas n h.hasN
  case hasM => exact hhas m h.hasM
  case single => exact fun x hx => h.single x (later x hx)
  case steady =>
    intro x hx
    obtain ⟨t, ht, _, _, ⟨rfl, _⟩ | ⟨rfl, _⟩⟩ := hold x hx
    · exact h.steady _ ht
    · obtain ⟨hc, hm⟩ := h.steady t ht
      simp only [NodeTally.add, Int.mul_one]
      omega
  case roomN =>
    intro x hx hxid s' hs' hb'
    obtain ⟨t, ht, hid, _, ⟨rfl, _⟩ | ⟨_, hdest⟩⟩ := hold x hx
    · exact h.roomN _ ht hxid s' (later s' hs') hb'
    · -- only `b` goes to `n`, and names are unique
      rw [hid, hxid, destination] at hdest
      split at hdest
      · rename_i hb
        exact absurd (List.mem_map.mpr ⟨s', hs', hb'.trans hb.symm⟩) hnames.1
      · exact absurd hdest h.apart
  case tightN =>
    intro x hx hxid s' hs' hb'
    obtain ⟨t, ht, hid, hnode, _⟩ := hold x hx
    rw [← hnode]
    exact h.tightN t ht (hid.trans hxid) s' (later s' hs') hb'
  case roomM =>
    intro x hx hxid
    obtain ⟨t, ht, hid, _, hwhere⟩ := hold x hx
    have hroom := h.roomM t ht (hid.trans hxid)
    rw [hid, hxid, destination] at hwhere
    by_cases hb : s.name = b
    · rw [List.filter_cons_of_neg (by simpa using hb)] at hroom
      rw [if_pos hb] at hwhere
      obtain ⟨rfl, _⟩ | ⟨_, hm⟩ := hwhere
      · exact hroom
      · exact absurd hm.symm h.apart
    · rw [List.filter_cons_of_pos (by simpa using hb)] at hroom
      rw [if_neg hb] at hwhere
      obtain ⟨_, hm⟩ | ⟨rfl, _⟩ := hwhere
      · exact absurd rfl hm
      · exact add_holds.mpr hroom
  case tightM =>
    intro x hx hxid s' hs' hb'
    obtain ⟨t, ht, hid, hnode, _⟩ := hold x hx
    rw [← hnode]
    exact h.tightM t ht (hid.trans hxid) s' (later s' hs') hb'

/-- The planner takes the only plan there is. -/
theorem Forced.planned (h : Forced n m b tallies services) :
    ∃ plans, planServices tallies services = .ok plans ∧
      ∀ s ∈ services, placementsOf plans s.name = [⟨destination n m b s, 1⟩] := by
  induction services generalizing tallies with
  | nil => exact ⟨[], rfl, fun s hs => by cases hs⟩
  | cons s services ih =>
    obtain ⟨hrep, hvol, _⟩ := h.single s (List.mem_cons_self ..)
    obtain ⟨t₀, ht₀, _, hfit₀⟩ := h.fits_destination
    obtain ⟨ps, hplace⟩ := place_one_ok hrep hvol ⟨t₀, ht₀, hfit₀⟩
    obtain ⟨t, ht, hfit, rfl⟩ := placed_one h.nodup hrep hplace
    rw [h.only_destination ht hfit] at hplace
    obtain ⟨rest, hrest, hplaced⟩ := ih h.commit
    refine ⟨⟨s.name, [⟨destination n m b s, 1⟩], tallies.map (·.id)⟩ :: rest, ?_, fun s' hs' => ?_⟩
    · show planServicesBy better tallies (s :: services) = _
      simp only [planServicesBy, hplace, bind, Except.bind, hrest]
      rfl
    · have hnames := h.names
      rw [List.map_cons, List.nodup_cons] at hnames
      rcases List.mem_cons.mp hs' with rfl | hs'
      · exact placementsOf_head ⟨s'.name, _, _⟩ rest
      · rw [placementsOf_tail]
        · exact hplaced s' hs'
        · intro e
          exact hnames.1 (List.mem_map.mpr ⟨s', hs', e⟩)

end Forced

/-! ## A registry and sizes that leave the planner no choice -/

section Squeeze

variable (st : ClusterState) (ownerProject n b : String) (names : List String)

/-- The other node. -/
def beside : String := n ++ "a"

theorem beside_ne : n ≠ beside n := by
  intro e
  have hlen := congrArg String.length e
  simp [beside] at hlen

/-- What `b` needs of a node's CPU, and every other service of its memory: one unit. -/
def unit : Load Int := ⟨1, 1⟩

/-- Just what `n` has committed, and `b`. -/
def tightCpu : Int := (cpuTotal (committedDemands st ownerProject n) + unit).peak

def hugeCpu : Int := tightCpu st ownerProject n + 1

/-- Just what `beside n` has committed, and every service but `b`. -/
def restCpu : Int :=
  (Load.total (cpuTotal (committedDemands st ownerProject (beside n)))
    ((names.filter (· ≠ b)).map fun _ => ⟨hugeCpu st ownerProject n, hugeCpu st ownerProject n⟩)).peak

def tightMemory : Int :=
  (Load.total (memoryTotal (committedDemands st ownerProject (beside n))) ((names.filter (· ≠ b)).map fun _ => unit)).peak

def hugeMemory : Int := tightMemory st ownerProject n b names + 1

def restMemory : Int :=
  (memoryTotal (committedDemands st ownerProject n) +
    ⟨hugeMemory st ownerProject n b names, hugeMemory st ownerProject n b names⟩).peak

def squeezedEntry (id : String) (cpu memory : Int) : NodeRegistryEntry where
  nodeId := id
  role := .app
  totalCpu := cpu
  totalMemory := memory
  reservedCpu := 0
  reservedMemory := 0
  state := .ready

def squeezedRegistry (id : String) : Option (Raw NodeRegistryEntry) :=
  if id = n then some (.json (squeezedEntry n (tightCpu st ownerProject n) (restMemory st ownerProject n b names)))
  else if id = beside n then
    some (.json (squeezedEntry (beside n) (restCpu st ownerProject n b names) (tightMemory st ownerProject n b names)))
  else none

/-- The same documents, with `n` and `beside n` the only registered nodes. -/
def squeezed (hn : n ∈ st.nodeIds) : ClusterState where
  nodeIds := insertId (beside n) st.nodeIds
  registry := squeezedRegistry st ownerProject n b names
  desired := st.desired
  status := fun _ => none
  sorted := insertId_sorted st.sorted
  named := by
    intro id hid
    rcases mem_insertId.mp hid with rfl | hid
    · intro e
      have hlen := congrArg String.length e
      simp [beside] at hlen
    · exact st.named id hid
  listed := by
    intro id h
    rw [mem_insertId]
    rcases h with h | h
    · unfold squeezedRegistry at h
      split at h
      · rename_i e; exact .inr (e ▸ hn)
      · split at h
        · rename_i e; exact .inl e
        · exact absurd rfl h
    · exact .inr (st.listed id (.inr h))

theorem committed_nonneg (id : String) :
    (0 ≤ (cpuTotal (committedDemands st ownerProject id)).steady ∧
        0 ≤ (cpuTotal (committedDemands st ownerProject id)).peak) ∧
      0 ≤ (memoryTotal (committedDemands st ownerProject id)).steady ∧
        0 ≤ (memoryTotal (committedDemands st ownerProject id)).peak :=
  totals_nonneg fun _ hc => publishedServices_sized (List.mem_filter.mp hc).1

theorem tightCpu_pos : 0 < tightCpu st ownerProject n :=
  (committed_nonneg st ownerProject n).1.2.trans_lt (Load.peak_lt_add (by decide))

theorem tightMemory_nonneg : 0 ≤ tightMemory st ownerProject n b names := by
  refine (committed_nonneg st ownerProject (beside n)).2.2.trans (Load.peak_le_total ?_)
  intro x hx
  obtain ⟨_, _, rfl⟩ := List.mem_map.mp hx
  decide

theorem restCpu_nonneg : 0 ≤ restCpu st ownerProject n b names := by
  have hpos := tightCpu_pos st ownerProject n
  refine (committed_nonneg st ownerProject (beside n)).1.2.trans (Load.peak_le_total ?_)
  intro x hx
  obtain ⟨_, _, rfl⟩ := List.mem_map.mp hx
  show 0 ≤ tightCpu st ownerProject n + 1
  omega

theorem restMemory_nonneg : 0 ≤ restMemory st ownerProject n b names := by
  have hpos := tightMemory_nonneg st ownerProject n b names
  refine (committed_nonneg st ownerProject n).2.2.trans (Load.peak_lt_add ?_).le
  show 0 < tightMemory st ownerProject n b names + 1
  omega

/-- A service of the run, at the size that sends it where it has to go. -/
def squeezedDecl (name : String) : ServiceDecl where
  name
  cpu := if name = b then 1 else hugeCpu st ownerProject n
  memory := if name = b then hugeMemory st ownerProject n b names else 1
  replicas := 1
  rollout := {}
  replicas_pos := plainDecl.replicas_pos
  maxSurge_pos := plainDecl.maxSurge_pos
  cpu_pos := by
    have hpos := tightCpu_pos st ownerProject n
    split
    · exact Int.le_refl 1
    · show 1 ≤ tightCpu st ownerProject n + 1
      omega
  memory_pos := by
    have hpos := tightMemory_nonneg st ownerProject n b names
    split
    · show 1 ≤ tightMemory st ownerProject n b names + 1
      omega
    · exact Int.le_refl 1

def squeezedFootprint (hnames : names.Nodup) : Footprint where
  services := names.map (squeezedDecl st ownerProject n b names)
  nodup := by
    rw [List.map_map]
    simpa [Function.comp_def, squeezedDecl] using hnames

theorem squeezedEntry_schema {id : String} (hid : id ≠ "") {cpu memory : Int} (hcpu : 0 ≤ cpu) (hmemory : 0 ≤ memory) :
    nodeRegistryEntrySchema (squeezedEntry id cpu memory) = true := by
  have hlabel : labelMatches defaultCluster = true := default_label
  simp [nodeRegistryEntrySchema, squeezedEntry, hid, hcpu, hmemory, hlabel]

/-- The services but `b`, as the planner gets them. -/
theorem squeezed_rest (prior : DeployedPlacementSnapshot) (l : List String) :
    let rest := ((l.map (squeezedDecl st ownerProject n b names)).map (clusterInput prior)).filter (·.name ≠ b)
    rest.map (·.cpuLoad 1) = (l.filter (· ≠ b)).map (fun _ => ⟨hugeCpu st ownerProject n, hugeCpu st ownerProject n⟩) ∧
      rest.map (·.memoryLoad 1) = (l.filter (· ≠ b)).map fun _ => unit := by
  induction l with
  | nil => exact ⟨rfl, rfl⟩
  | cons x l ih =>
    by_cases hx : x = b
    · simpa [clusterInput, squeezedDecl, hx] using ih
    · simp only [List.map_cons, List.filter_cons, clusterInput, squeezedDecl, hx] at ih ⊢
      simp only [ne_eq, hx, not_false_eq_true, decide_true, if_true, List.map_cons]
      refine ⟨?_, ?_⟩
      · rw [← ih.1]
        simp [ClusterServiceInput.cpuLoad]
      · rw [← ih.2]
        simp [ClusterServiceInput.memoryLoad, unit]

variable {st ownerProject n b names} (hn : n ∈ st.nodeIds)
include hn

theorem entryOf_squeezed (id : String) :
    entryOf (squeezed st ownerProject n b names hn) id =
      if id = n then some (squeezedEntry n (tightCpu st ownerProject n) (restMemory st ownerProject n b names))
      else if id = beside n then
        some (squeezedEntry (beside n) (restCpu st ownerProject n b names) (tightMemory st ownerProject n b names))
      else none := by
  have hne := st.named n hn
  have hne' := (squeezed st ownerProject n b names hn).named (beside n) (mem_insertId.mpr (.inl rfl))
  unfold entryOf
  show (squeezedRegistry st ownerProject n b names id).bind parseNodeRegistryEntry = _
  unfold squeezedRegistry
  split
  · have hs := squeezedEntry_schema hne (tightCpu_pos st ownerProject n).le (restMemory_nonneg st ownerProject n b names)
    simp [parseNodeRegistryEntry, hs]
  · split
    · have hs := squeezedEntry_schema hne' (restCpu_nonneg st ownerProject n b names)
        (tightMemory_nonneg st ownerProject n b names)
      simp [parseNodeRegistryEntry, hs]
    · rfl

/-- The pool is `n` and `beside n`. -/
theorem squeezed_pool (nowMs : Int) :
    ∃ c, buildCandidateNodes (squeezed st ownerProject n b names hn) ownerProject true nowMs = .ok c ∧
      Pool (squeezed st ownerProject n b names hn) ownerProject nowMs c := by
  have hall : ∀ id ∈ (squeezed st ownerProject n b names hn).nodeIds,
      (squeezed st ownerProject n b names hn).registry id ≠ none → entryOf (squeezed st ownerProject n b names hn) id ≠ none := by
    intro id _ hreg
    rw [entryOf_squeezed]
    change squeezedRegistry st ownerProject n b names id ≠ none at hreg
    unfold squeezedRegistry at hreg
    split
    · simp
    · rename_i h
      rw [if_neg h] at hreg
      split
      · simp
      · rename_i h'
        rw [if_neg h'] at hreg
        exact absurd rfl hreg
  obtain ⟨nodes, hnodes⟩ := registeredNodes_ok hall
  have hbuild : ∃ c, buildCandidateNodes (squeezed st ownerProject n b names hn) ownerProject true nowMs = .ok c := by
    unfold buildCandidateNodes
    rw [hnodes]
    exact ⟨_, rfl⟩
  obtain ⟨c, hc⟩ := hbuild
  exact ⟨c, hc, buildCandidateNodes_spec hc⟩

/-- A tally is that of a registered node, with what other projects have committed there. -/
theorem squeezed_tally {c : CandidateNodes} {nowMs : Int} (pool : Pool (squeezed st ownerProject n b names hn) ownerProject nowMs c)
    {t : NodeTally} (ht : t ∈ c.candidateNodes.map tallyOf) : ∃ entry,
      entryOf (squeezed st ownerProject n b names hn) t.id = some entry ∧
        t = tallyOf (candidateNode (squeezed st ownerProject n b names hn) ownerProject true t.id entry) := by
  obtain ⟨x, hx, rfl⟩ := List.mem_map.mp ht
  obtain ⟨id, entry, he, _, rfl⟩ := pool.mem_candidates.mp hx
  exact ⟨entry, he, rfl⟩

theorem squeezed_input (hnames : names.Nodup) {s : ClusterServiceInput}
    (hs : s ∈ clusterInputs (squeezed st ownerProject n b names hn) ownerProject
      (squeezedFootprint st ownerProject n b names hnames).services) :
    s = clusterInput (loadDeployedPlacement (squeezed st ownerProject n b names hn) ownerProject)
      (squeezedDecl st ownerProject n b names s.name) := by
  obtain ⟨d, hd, rfl⟩ := List.mem_map.mp hs
  obtain ⟨x, _, rfl⟩ := List.mem_map.mp hd
  rfl

theorem squeezed_entry_n : entryOf (squeezed st ownerProject n b names hn) n =
    some (squeezedEntry n (tightCpu st ownerProject n) (restMemory st ownerProject n b names)) := by
  rw [entryOf_squeezed, if_pos rfl]

theorem squeezed_entry_beside : entryOf (squeezed st ownerProject n b names hn) (beside n) =
    some (squeezedEntry (beside n) (restCpu st ownerProject n b names) (tightMemory st ownerProject n b names)) := by
  rw [entryOf_squeezed, if_neg (beside_ne n).symm, if_pos rfl]

/-- Beside what others have on `n`, `b` fits, all its memory in use. -/
theorem squeezed_room_n :
    (tallyOf (candidateNode (squeezed st ownerProject n b names hn) ownerProject true n
      (squeezedEntry n (tightCpu st ownerProject n) (restMemory st ownerProject n b names)))).Holds
      [(clusterInput (loadDeployedPlacement (squeezed st ownerProject n b names hn) ownerProject)
        (squeezedDecl st ownerProject n b names b)).cpuLoad 1]
      [(clusterInput (loadDeployedPlacement (squeezed st ownerProject n b names hn) ownerProject)
        (squeezedDecl st ownerProject n b names b)).memoryLoad 1] := by
  rw [NodeTally.Holds, (candidate_loads ..).1, (candidate_loads ..).2]
  constructor
  · have hload : (clusterInput (loadDeployedPlacement (squeezed st ownerProject n b names hn) ownerProject)
        (squeezedDecl st ownerProject n b names b)).cpuLoad 1 = unit := by
      simp [ClusterServiceInput.cpuLoad, clusterInput, squeezedDecl, unit]
    rw [hload]
    show tightCpu st ownerProject n ≤ tightCpu st ownerProject n - 0
    omega
  · have hload : (clusterInput (loadDeployedPlacement (squeezed st ownerProject n b names hn) ownerProject)
        (squeezedDecl st ownerProject n b names b)).memoryLoad 1 =
          ⟨hugeMemory st ownerProject n b names, hugeMemory st ownerProject n b names⟩ := by
      simp [ClusterServiceInput.memoryLoad, clusterInput, squeezedDecl]
    rw [hload]
    show restMemory st ownerProject n b names ≤ restMemory st ownerProject n b names - 0
    omega

/-- The other services fit on `beside n`, all its CPU in use. -/
theorem squeezed_room_beside (hnames : names.Nodup) :
    (tallyOf (candidateNode (squeezed st ownerProject n b names hn) ownerProject true (beside n)
      (squeezedEntry (beside n) (restCpu st ownerProject n b names) (tightMemory st ownerProject n b names)))).Holds
      (((clusterInputs (squeezed st ownerProject n b names hn) ownerProject
        (squeezedFootprint st ownerProject n b names hnames).services).filter (·.name ≠ b)).map (·.cpuLoad 1))
      (((clusterInputs (squeezed st ownerProject n b names hn) ownerProject
        (squeezedFootprint st ownerProject n b names hnames).services).filter (·.name ≠ b)).map (·.memoryLoad 1)) := by
  obtain ⟨hcpu, hmemory⟩ := squeezed_rest st ownerProject n b names
    (loadDeployedPlacement (squeezed st ownerProject n b names hn) ownerProject) names
  rw [NodeTally.Holds, (candidate_loads ..).1, (candidate_loads ..).2]
  constructor
  · show (Load.total _ (((names.map _).map _).filter _ |>.map _)).peak ≤ _
    rw [hcpu]
    show restCpu st ownerProject n b names ≤ restCpu st ownerProject n b names - 0
    omega
  · show (Load.total _ (((names.map _).map _).filter _ |>.map _)).peak ≤ _
    rw [hmemory]
    show tightMemory st ownerProject n b names ≤ tightMemory st ownerProject n b names - 0
    omega

/-- On those two nodes, at those sizes, the planner has no choice. -/
theorem squeezed_forced {c : CandidateNodes} {nowMs : Int} (hnames : names.Nodup)
    (pool : Pool (squeezed st ownerProject n b names hn) ownerProject nowMs c) :
    Forced n (beside n) b (c.candidateNodes.map tallyOf)
      (clusterInputs (squeezed st ownerProject n b names hn) ownerProject
        (squeezedFootprint st ownerProject n b names hnames).services) := by
  have hsched : ∀ id cpu memory, schedulable (squeezed st ownerProject n b names hn) nowMs id
      (squeezedEntry id cpu memory) = true := fun _ _ _ => rfl
  have hentryN := @squeezed_entry_n st ownerProject n b names hn
  have hentryM := @squeezed_entry_beside st ownerProject n b names hn
  have hcpuPos := tightCpu_pos st ownerProject n
  have hmemPos := tightMemory_nonneg st ownerProject n b names
  constructor
  case apart => exact beside_ne n
  case nodup => exact pool.candidates_nodup
  case names => exact (clusterInputs_spec _ _ _).1
  case only =>
    intro t ht
    obtain ⟨entry, he, _⟩ := squeezed_tally hn pool ht
    rw [entryOf_squeezed] at he
    split at he
    · rename_i h; exact .inl h
    · split at he
      · rename_i h; exact .inr h
      · cases he
  case hasN =>
    have hc := pool.mem_candidates.mpr ⟨n, _, hentryN, hsched .., rfl⟩
    exact ⟨_, List.mem_map.mpr ⟨_, hc, rfl⟩, rfl⟩
  case hasM =>
    have hc := pool.mem_candidates.mpr ⟨beside n, _, hentryM, hsched .., rfl⟩
    exact ⟨_, List.mem_map.mpr ⟨_, hc, rfl⟩, rfl⟩
  case single =>
    intro s hs
    rw [squeezed_input hn hnames hs]
    refine ⟨rfl, rfl, ?_, ?_, Int.le_refl 1⟩
    · exact (squeezedDecl st ownerProject n b names s.name).cpu_pos
    · exact (squeezedDecl st ownerProject n b names s.name).memory_pos
  case steady =>
    intro t ht
    obtain ⟨entry, _, he⟩ := squeezed_tally hn pool ht
    have hnonneg := committed_nonneg st ownerProject t.id
    obtain ⟨hc, hm⟩ := candidate_loads (squeezed st ownerProject n b names hn) ownerProject t.id entry
    rw [← he] at hc hm
    have hsc : t.steadyCpu = (cpuTotal (committedDemands st ownerProject t.id)).steady := congrArg Load.steady hc
    have hsm : t.steadyMemory = (memoryTotal (committedDemands st ownerProject t.id)).steady := congrArg Load.steady hm
    rw [hsc, hsm]
    exact ⟨hnonneg.1.1, hnonneg.2.1⟩
  case roomN =>
    intro t ht hid s hs hb
    obtain ⟨entry, he, htally⟩ := squeezed_tally hn pool ht
    rw [hid, hentryN] at he
    cases he
    rw [htally, hid, squeezed_input hn hnames hs, hb]
    exact squeezed_room_n hn
  case tightN =>
    intro t ht hid s hs hb
    obtain ⟨entry, he, htally⟩ := squeezed_tally hn pool ht
    rw [hid, hentryN] at he
    cases he
    rw [htally, squeezed_input hn hnames hs]
    simp only [clusterInput, squeezedDecl, if_neg hb]
    show tightCpu st ownerProject n - 0 < tightCpu st ownerProject n + 1
    omega
  case roomM =>
    intro t ht hid
    obtain ⟨entry, he, htally⟩ := squeezed_tally hn pool ht
    rw [hid, hentryM] at he
    cases he
    rw [htally, hid]
    exact squeezed_room_beside hn hnames
  case tightM =>
    intro t ht hid s hs hb
    obtain ⟨entry, he, htally⟩ := squeezed_tally hn pool ht
    rw [hid, hentryM] at he
    cases he
    rw [htally, squeezed_input hn hnames hs]
    simp only [clusterInput, squeezedDecl, if_pos hb]
    show tightMemory st ownerProject n b names - 0 < tightMemory st ownerProject n b names + 1
    omega

/-- What the planner gives `n` there: `b`, and nothing else. -/
theorem squeezed_services {plans : List ClusterServicePlan} (hnames : names.Nodup)
    (hplaced : ∀ s ∈ clusterInputs (squeezed st ownerProject n b names hn) ownerProject
      (squeezedFootprint st ownerProject n b names hnames).services,
        placementsOf plans s.name = [⟨destination n (beside n) b s, 1⟩])
    {built : List BuiltService} (hbuilt : built.map (·.decl) = (squeezedFootprint st ownerProject n b names hnames).services) :
    (∀ p ∈ nodeServices built plans n, p.built.decl.name = b ∧ (p.demand ownerProject).cpuLoad = unit) ∧
      (b ∈ names → nodeServices built plans n ≠ []) := by
  have hdecl : ∀ x ∈ built, x.decl = squeezedDecl st ownerProject n b names x.decl.name ∧
      placementsOf plans x.decl.name = [⟨if x.decl.name = b then n else beside n, 1⟩] := by
    intro x hx
    have hmem : x.decl ∈ (squeezedFootprint st ownerProject n b names hnames).services := by
      rw [← hbuilt]
      exact List.mem_map.mpr ⟨x, hx, rfl⟩
    refine ⟨?_, hplaced _ (List.mem_map.mpr ⟨x.decl, hmem, rfl⟩)⟩
    obtain ⟨y, _, hy⟩ := List.mem_map.mp hmem
    rw [← hy]
    rfl
  constructor
  · intro p hp
    obtain ⟨x, hx, hp⟩ := List.mem_flatMap.mp hp
    obtain ⟨hd, hwhere⟩ := hdecl x hx
    rw [hwhere] at hp
    by_cases hb : x.decl.name = b
    · have hone : sharesOn n [⟨if x.decl.name = b then n else beside n, 1⟩] = [1] := by simp [sharesOn, hb]
      rw [hone] at hp
      obtain rfl := List.mem_singleton.mp hp
      refine ⟨hb, ?_⟩
      rw [hb] at hd
      simp only [NodeService.demand, CapacityServiceDemand.cpuLoad, hd, unit, squeezedDecl, if_true]
      rfl
    · have hnone : sharesOn n [⟨if x.decl.name = b then n else beside n, 1⟩] = [] := by
        simp [sharesOn, hb, (beside_ne n).symm]
      rw [hnone] at hp
      cases hp
  · intro hb
    have hmem : squeezedDecl st ownerProject n b names b ∈ built.map (·.decl) := by
      rw [hbuilt]
      exact List.mem_map.mpr ⟨b, hb, rfl⟩
    obtain ⟨x, hx, hxb⟩ := List.mem_map.mp hmem
    have hname : x.decl.name = b := by rw [hxb]; rfl
    have hplace : (⟨x, 1⟩ : NodeService) ∈ nodeServices built plans n := by
      refine List.mem_flatMap.mpr ⟨x, hx, ?_⟩
      rw [(hdecl x hx).2]
      simp [sharesOn, hname]
    exact List.ne_nil_of_mem hplace

/-- A sibling kept on `n` does not fit beside `b`. -/
theorem squeezed_refused (hnames : names.Nodup) (hb : b ∈ names) {e : ServiceConfig} (he : e ∈ publishedServices st n)
    (howner : e.project = ownerProject) (hne : e.service ≠ b) (nowMs : Int) (now : String) :
    ∃ c plans built, built.map BuiltService.decl = (squeezedFootprint st ownerProject n b names hnames).services ∧
      planRegistered (squeezed st ownerProject n b names hn) ownerProject
        (squeezedFootprint st ownerProject n b names hnames).services nowMs = .ok (c, plans) ∧
      preflight (squeezed st ownerProject n b names hn) c.nodes ownerProject true now
        (nodePlacements built plans).entries ≠ .ok () := by
  obtain ⟨c, hc, pool⟩ := @squeezed_pool st ownerProject n b names hn nowMs
  obtain ⟨plans, hplans, hplaced⟩ := (squeezed_forced hn hnames pool).planned
  have hbuilt : ((squeezedFootprint st ownerProject n b names hnames).services.map
      fun d => (⟨d, "", none⟩ : BuiltService)).map (·.decl) =
        (squeezedFootprint st ownerProject n b names hnames).services := by
    rw [List.map_map]
    exact List.map_id _
  generalize hbs : (squeezedFootprint st ownerProject n b names hnames).services.map
    (fun d => (⟨d, "", none⟩ : BuiltService)) = built at hbuilt
  refine ⟨c, plans, built, hbuilt, ?_, ?_⟩
  · have hplan : planClusterPlacementBy better c.candidateNodes (clusterInputs (squeezed st ownerProject n b names hn) ownerProject
        (squeezedFootprint st ownerProject n b names hnames).services) = .ok plans := hplans
    unfold planRegistered
    simp only [hc, bind, Except.bind, hplan]
  · intro hpre
    obtain ⟨honly, hsome⟩ := squeezed_services hn hnames hplaced hbuilt
    have hentry : (n, nodeServices built plans n) ∈ (nodePlacements built plans).entries :=
      mem_nodePlacements.mpr ⟨rfl, hsome hb⟩
    obtain ⟨node, hnode, hfits⟩ := preflight_ok.mp hpre _ hentry
    rw [SortedMap.get_of_mem pool.nodes_nodup (pool.mem_nodes.mpr (squeezed_entry_n hn))] at hnode
    cases hnode
    have hcpu := (assertCapacity_ok.mp hfits).1
    rw [(capacityDemands_totals ..).1, readDesired_services, Load.total_swap, if_pos rfl] at hcpu
    change _ ≤ tightCpu st ownerProject n - 0 at hcpu
    -- what is placed weighs one unit at least, and the sibling comes on top of it
    have hunits : ∀ x ∈ ((nodeServices built plans n).map (·.demand ownerProject)).map (·.cpuLoad), x = unit := by
      intro x hx
      obtain ⟨d, hd, rfl⟩ := List.mem_map.mp hx
      obtain ⟨q, hq, rfl⟩ := List.mem_map.mp hd
      exact (honly q hq).2
    have hplacedLoad : tightCpu st ownerProject n ≤
        (Load.total (cpuTotal (committedDemands st ownerProject n))
          (((nodeServices built plans n).map (·.demand ownerProject)).map (·.cpuLoad))).peak := by
      cases hl : ((nodeServices built plans n).map (·.demand ownerProject)).map (·.cpuLoad) with
      | nil => exact absurd (by simpa using hl) (hsome hb)
      | cons x l =>
        rw [hl] at hunits
        rw [hunits x (List.mem_cons_self ..), Load.total_cons]
        apply Load.peak_le_total
        intro y hy
        rw [hunits y (List.mem_cons_of_mem _ hy)]
        decide
    have hkept : e ∈ keptSiblings ownerProject (publishedServices st n) (nodeServices built plans n) := by
      unfold keptSiblings
      rw [List.mem_filter]
      refine ⟨he, ?_⟩
      simp only [howner, decide_true, Bool.true_and, Bool.not_eq_true', List.contains_eq_mem, decide_eq_false_iff_not]
      intro hmem
      obtain ⟨q, hq, hqe⟩ := List.mem_map.mp hmem
      exact hne (hqe.symm.trans (honly q hq).1)
    have hover := peak_lt_demands (Load.total (cpuTotal (committedDemands st ownerProject n))
      (((nodeServices built plans n).map (·.demand ownerProject)).map (·.cpuLoad)))
      (fun x hx => publishedServices_sized (List.mem_filter.mp hx).1) hkept
    have hsame : publishedServices (squeezed st ownerProject n b names hn) n = publishedServices st n := rfl
    rw [hsame] at hcpu
    rw [Int.sub_zero] at hcpu
    exact (hplacedLoad.trans_lt hover).not_ge hcpu

end Squeeze

/-! ## When every accepted plan passes -/

/-- All the project has published is the one service of that name. -/
def OnlyRedeploys (st : ClusterState) (ownerProject : String) (names : List String) : Prop :=
  ∀ id, ∀ e ∈ publishedServices st id, e.project = ownerProject → ∀ b ∈ names, e.service = b

theorem publishedServices_congr {st st' : ClusterState} (h : st'.desired = st.desired) (id : String) :
    publishedServices st' id = publishedServices st id := by
  unfold publishedServices
  rw [h]

/-- Over all registries and all sizes of the declared services: every plan that is accepted
    passes the pre-flight, exactly when the deploy is full, or redeploys all there is. -/
theorem accepted_plans_survive (st : ClusterState) (ownerProject : String) (fp : Footprint) (partialDeploy : Bool) :
    (∀ (st' : ClusterState) (fp' : Footprint) (built : List BuiltService) (nowMs : Int) (now : String)
        (c : CandidateNodes) (plans : List ClusterServicePlan),
      st'.desired = st.desired → fp'.services.map (·.name) = fp.services.map (·.name) →
      built.map (·.decl) = fp'.services → planRegistered st' ownerProject fp'.services nowMs = .ok (c, plans) →
      preflight st' c.nodes ownerProject partialDeploy now (nodePlacements built plans).entries = .ok ()) ↔
    (partialDeploy = true → OnlyRedeploys st ownerProject (fp.services.map (·.name))) := by
  constructor
  · intro h hdrop id e he howner b hb
    subst hdrop
    by_contra hne
    have hid : id ∈ st.nodeIds := by
      apply st.listed id
      right
      intro hd
      unfold publishedServices at he
      rw [hd] at he
      cases he
    obtain ⟨c, plans, built, hbuilt, hplan, hrefused⟩ := squeezed_refused hid fp.nodup hb he howner hne 0 ""
    refine hrefused (h _ (squeezedFootprint st ownerProject id b _ fp.nodup) built 0 "" c plans rfl ?_ hbuilt hplan)
    show ((fp.services.map (·.name)).map _).map _ = _
    rw [List.map_map]
    exact List.map_id _
  · intro h st' fp' built nowMs now c plans hdesired hnames hbuilt hplan
    apply plan_survives hplan hbuilt
    intro hdrop id hne
    rw [publishedServices_congr hdesired]
    unfold keptSiblings
    rw [List.filter_eq_nil_iff]
    intro e he hkept
    simp only [Bool.and_eq_true, decide_eq_true_eq, Bool.not_eq_true', List.contains_eq_mem,
      decide_eq_false_iff_not] at hkept
    obtain ⟨p, hp⟩ := List.exists_mem_of_ne_nil _ hne
    have hname : p.built.decl.name ∈ fp.services.map (·.name) := by
      obtain ⟨x, hx, hp⟩ := List.mem_flatMap.mp hp
      obtain ⟨_, _, rfl⟩ := List.mem_map.mp hp
      rw [← hnames, ← hbuilt, List.map_map]
      exact List.mem_map.mpr ⟨x, hx, rfl⟩
    exact hkept.2 (List.mem_map.mpr ⟨p, hp, (h hdrop id e he hkept.1 _ hname).symm⟩)

/-! ## The deploy that is planned and refused -/

def workerDecl : ServiceDecl := { plainDecl with name := "worker", cpu := 300, cpu_pos := by decide }

def webService : ServiceConfig where
  project := "shop"
  service := "web"
  image := "web:1"
  cpu := 600
  memory := 100
  ingress := none

theorem oneNode_sorted : ["n1"].Pairwise (· < ·) := List.pairwise_singleton _ _

theorem oneNode_named : ∀ id ∈ ["n1"], id ≠ "" := by decide

theorem oneNode_listed {α β : Type} (entry : α) (state : β) (id : String)
    (h : (if id = "n1" then some entry else none) ≠ none ∨ (if id = "n1" then some state else none) ≠ none) :
    id ∈ ["n1"] := by
  by_cases hid : id = "n1"
  · simp [hid]
  · simp [hid] at h

/-- One node of 1024 units, with `web` on it. -/
def oneNode : ClusterState where
  nodeIds := ["n1"]
  registry := fun id => if id = "n1" then some (.json (squeezedEntry "n1" 1024 1024)) else none
  desired := fun id => if id = "n1" then some (.json ⟨protocolVersion, "n1", "", [webService]⟩) else none
  status := fun _ => none
  sorted := oneNode_sorted
  named := oneNode_named
  listed := oneNode_listed _ _

/-- `worker` alone, deployed beside `web`: 300 units and 300 of surge fit the node as the
    planner counts it, and not the node with `web` on it. -/
theorem planned_and_refused :
    ∃ c plans, planRegistered oneNode "shop" [workerDecl] 0 = .ok (c, plans) ∧
      preflight oneNode c.nodes "shop" true "" (nodePlacements [⟨workerDecl, "", none⟩] plans).entries ≠ .ok () := by
  refine ⟨_, _, rfl, ?_⟩
  decide +kernel

end LaunchPad.Cli
