/-
  LaunchPad.Cli.Absorb — whether a lone survivor has room for a drained node: the
  autoscaler's check (`shared/src/autoscale.ts` `survivorsCanAbsorb`) on what a pass observes
  of two nodes (`candidate-nodes.ts` `buildCandidateNodes`, `commands/autoscale.ts`
  `observePool`), beside the admission check of the merged services (`capacity.ts`
  `checkCapacity`).

  A service on both nodes is published from one configuration: the two entries differ in
  their replicas.

  As built: the surge of a node is reserved per entry, at most the replicas of that entry.
  Merged, the replicas add up and the surge may grow with them, up to `maxSurge`. So the
  autoscaler's check is not exact for a single survivor, as its comment has it: two nodes
  with one replica each and a `maxSurge` of 2 pass it where the merged service needs
  another replica's room (`split_surge_passes`).

  Proved:
  - `admits_absorbed`: what the admission check accepts, the autoscaler's check accepts.
  - `absorb_exact_iff`: they agree exactly when no service on both nodes, of a `maxSurge`
    above both of its counts, outgrows the survivor by its merged surge alone.
-/
import LaunchPad.Cli.Autoscale
import LaunchPad.Shared.MergeLaws

namespace LaunchPad.Cli.Fleet

open Lib

/-! ## What is observed -/

/-- A pool of two nodes, one of which may be drained, and the state that holds their
    documents. -/
structure TwoNodes where
  st : ClusterState
  victim : NodeRegistryEntry
  survivor : NodeRegistryEntry
  victimStatus : Option HostStatus := none
  survivorStatus : Option HostStatus := none
  victimFirst : Bool := true
  defaultEdge : Option String := none
  nowMs : Int := 0
  distinct : survivor.nodeId ≠ victim.nodeId
  unique : ∀ id, ((publishedServices st id).map serviceId).Nodup
  alike : ∀ c ∈ publishedServices st survivor.nodeId, ∀ d ∈ publishedServices st victim.nodeId,
    serviceId c = serviceId d → d = { c with replicas := d.replicas }

namespace TwoNodes

/-- A node as a pass observes it: the pass is of no project, so all services count. -/
def observed (p : TwoNodes) (entry : NodeRegistryEntry) (status : Option HostStatus) : AutoscaleNodeObservation :=
  (observe p.defaultEdge p.nowMs
    { entry, candidate := some (candidateNode p.st "" true entry.nodeId entry), status }).observation

def drained (p : TwoNodes) : AutoscaleNodeObservation := p.observed p.victim p.victimStatus
def kept (p : TwoNodes) : AutoscaleNodeObservation := p.observed p.survivor p.survivorStatus
def pool (p : TwoNodes) : List AutoscaleNodeObservation := if p.victimFirst then [p.drained, p.kept] else [p.kept, p.drained]

/-- The services of the survivor, and those the victim brings. -/
def own (p : TwoNodes) : List ServiceConfig := publishedServices p.st p.survivor.nodeId
def incoming (p : TwoNodes) : List ServiceConfig := publishedServices p.st p.victim.nodeId

end TwoNodes

/-! ## What the survivor would run -/

/-- An entry with the replicas its counterpart brings. -/
def joined (incoming : List ServiceConfig) (c : ServiceConfig) : ServiceConfig :=
  match incoming.find? (serviceId · == serviceId c) with
  | some d => { c with replicas := c.replicas + d.replicas }
  | none => c

/-- The services of both nodes: one entry each, with the replicas of both. -/
def combined (own incoming : List ServiceConfig) : List ServiceConfig :=
  own.map (joined incoming) ++ incoming.filter fun d => !own.any (serviceId · == serviceId d)

/-- The admission check of the survivor with both nodes' services. -/
def TwoNodes.admission (p : TwoNodes) : CapacityCheckResult :=
  checkCapacity {
    totalCpu := p.survivor.totalCpu
    totalMemory := p.survivor.totalMemory
    reservedCpu := p.survivor.reservedCpu
    reservedMemory := p.survivor.reservedMemory
    services := demandsOf (combined p.own p.incoming) }

/-! ## Loads by resource -/

variable {size : ServiceConfig → Int} {own incoming : List ServiceConfig} {c d : ServiceConfig}

/-- The load of one entry, for the resource whose size a replica has. -/
def entryLoad (size : ServiceConfig → Int) (c : ServiceConfig) : Load Int :=
  ⟨size c * c.replicas, size c * min c.rollout.maxSurge c.replicas⟩

def nodeLoad (size : ServiceConfig → Int) (services : List ServiceConfig) : Load Int :=
  Load.total idle (services.map (entryLoad size))

theorem cpuTotal_demandsOf (services : List ServiceConfig) : cpuTotal (demandsOf services) = nodeLoad (·.cpu) services := by
  unfold cpuTotal nodeLoad demandsOf
  rw [List.map_map]
  rfl

theorem memoryTotal_demandsOf (services : List ServiceConfig) :
    memoryTotal (demandsOf services) = nodeLoad (·.memory) services := by
  unfold memoryTotal nodeLoad demandsOf
  rw [List.map_map]
  rfl

theorem nodeLoad_steady (size : ServiceConfig → Int) (services : List ServiceConfig) :
    (nodeLoad size services).steady = (services.map fun c => size c * c.replicas).sum := by
  unfold nodeLoad
  rw [Load.total_steady_sum, List.map_map]
  exact Int.zero_add _

theorem nodeLoad_surge_le {services : List ServiceConfig} {b : Int} : (nodeLoad size services).surge ≤ b ↔
    0 ≤ b ∧ ∀ c ∈ services, size c * min c.rollout.maxSurge c.replicas ≤ b := by
  unfold nodeLoad
  rw [Load.total_surge_le, List.forall_mem_map]
  rfl

theorem publishedServices_project {st : ClusterState} {id : String} (h : c ∈ publishedServices st id) : c.project ≠ "" := by
  unfold publishedServices at h
  split at h
  · rename_i d hd
    obtain ⟨raw, _, hraw⟩ := Option.bind_eq_some_iff.mp hd
    have hs := (parseDesiredState_eq_some.mp hraw).2
    simp only [desiredStateSchema, Bool.and_eq_true, List.all_eq_true] at hs
    have hc := hs.2 c h
    simp only [serviceConfigSchema, Bool.and_eq_true, bne_iff_ne] at hc
    exact hc.1.1.1.1.1.1.1.1.1.1.1.1.1.1
  · cases h

/-- What a node's candidate has committed is the load of its services. -/
theorem observed_reserved (p : TwoNodes) (entry : NodeRegistryEntry) (status : Option HostStatus) :
    (p.observed entry status).reserved = some
      ⟨(nodeLoad (·.cpu) (publishedServices p.st entry.nodeId)).steady,
        (nodeLoad (·.memory) (publishedServices p.st entry.nodeId)).steady,
        (nodeLoad (·.cpu) (publishedServices p.st entry.nodeId)).surge,
        (nodeLoad (·.memory) (publishedServices p.st entry.nodeId)).surge,
        allocatableCpu entry, allocatableMemory entry⟩ := by
  have hall : committedDemands p.st "" entry.nodeId = demandsOf (publishedServices p.st entry.nodeId) := by
    unfold committedDemands
    rw [List.filter_eq_self.mpr fun c hc => by simpa using publishedServices_project hc]
  rw [← cpuTotal_demandsOf, ← memoryTotal_demandsOf]
  unfold cpuTotal memoryTotal
  simp only [Load.total_steady, Load.total_surge, List.foldl_map]
  unfold TwoNodes.observed observe candidateNode
  simp only [if_true, hall]
  rfl

/-! ## Merged -/

theorem joined_found (h : incoming.find? (serviceId · == serviceId c) = some d) :
    joined incoming c = { c with replicas := c.replicas + d.replicas } := by
  unfold joined
  rw [h]

theorem joined_alone (h : incoming.find? (serviceId · == serviceId c) = none) : joined incoming c = c := by
  unfold joined
  rw [h]

/-- An entry of distinct (project, service)s is the one a search for it finds. -/
theorem find_unique (hn : (incoming.map serviceId).Nodup) (hd : d ∈ incoming) (h : serviceId c = serviceId d) :
    incoming.find? (serviceId · == serviceId c) = some d := by
  cases hf : incoming.find? (serviceId · == serviceId c) with
  | none =>
    have := List.find?_eq_none.mp hf d hd
    simp [h] at this
  | some x =>
    have hx : serviceId x = serviceId c := by simpa using List.find?_some hf
    rw [List.inj_on_of_nodup_map hn (List.mem_of_find?_eq_some hf) hd (hx.trans h)]

/-- What the search finds, summed over a list with no (project, service) twice. -/
theorem find_sum (hn : (incoming.map serviceId).Nodup) (w : ServiceConfig → Int) (c : ServiceConfig) :
    ((incoming.filter (serviceId · == serviceId c)).map w).sum =
      ((incoming.find? (serviceId · == serviceId c)).map w).getD 0 := by
  induction incoming with
  | nil => rfl
  | cons d incoming ih =>
    rw [List.map_cons, List.nodup_cons] at hn
    by_cases hd : serviceId d = serviceId c
    · have hrest : incoming.filter (serviceId · == serviceId c) = [] := by
        refine List.filter_eq_nil_iff.mpr fun x hx hxc => ?_
        have hxc : serviceId x = serviceId c := by simpa using hxc
        exact hn.1 (hd.trans hxc.symm ▸ List.mem_map.mpr ⟨x, hx, rfl⟩)
      simp [hd, hrest]
    · simp [hd, ih hn.2]

theorem sum_filter_or (w : ServiceConfig → Int) {p q : ServiceConfig → Bool} (l : List ServiceConfig)
    (h : ∀ x ∈ l, p x = true → q x = false) :
    ((l.filter fun x => p x || q x).map w).sum = ((l.filter p).map w).sum + ((l.filter q).map w).sum := by
  induction l with
  | nil => rfl
  | cons x l ih =>
    have hrest := ih fun y hy => h y (List.mem_cons_of_mem _ hy)
    have hx := h x (List.mem_cons_self ..)
    cases hp : p x with
    | true =>
      simp [hp, hx hp, hrest]
      omega
    | false =>
      cases hq : q x with
      | true =>
        simp [hp, hq, hrest]
        omega
      | false => simp [hp, hq, hrest]

/-- What the own entries find among the incoming ones are the incoming ones already here. -/
theorem found_sum (hown : (own.map serviceId).Nodup) (hn : (incoming.map serviceId).Nodup) (w : ServiceConfig → Int) :
    (own.map fun c => ((incoming.find? (serviceId · == serviceId c)).map w).getD 0).sum =
      ((incoming.filter fun d => own.any (serviceId · == serviceId d)).map w).sum := by
  induction own with
  | nil => simp
  | cons c own ih =>
    rw [List.map_cons, List.nodup_cons] at hown
    have hsplit : ∀ d, (c :: own).any (serviceId · == serviceId d) =
        (serviceId d == serviceId c || own.any (serviceId · == serviceId d)) := by
      intro d
      rw [List.any_cons, Bool.beq_comm]
    have hdisjoint : ∀ d ∈ incoming, (serviceId d == serviceId c) = true →
        own.any (serviceId · == serviceId d) = false := by
      intro d _ hd
      have hd : serviceId d = serviceId c := by simpa using hd
      refine List.any_eq_false.mpr fun x hx hxd => ?_
      have hxd : serviceId x = serviceId d := by simpa using hxd
      exact hown.1 (hxd.trans hd ▸ List.mem_map.mpr ⟨x, hx, rfl⟩)
    simp only [hsplit]
    rw [sum_filter_or w incoming hdisjoint, find_sum hn, List.map_cons, List.sum_cons, ih hown.2]

/-- Two entries of a service, of one configuration. -/
def Alike (own incoming : List ServiceConfig) : Prop :=
  ∀ c ∈ own, ∀ d ∈ incoming, serviceId c = serviceId d → d = { c with replicas := d.replicas }

/-- A size that does not depend on the replicas. -/
def PerReplica (size : ServiceConfig → Int) : Prop := ∀ c n, size { c with replicas := n } = size c

/-- Merging keeps the steady demand. -/
theorem combined_steady (hsize : PerReplica size) (hown : (own.map serviceId).Nodup)
    (hn : (incoming.map serviceId).Nodup) (halike : Alike own incoming) :
    (nodeLoad size (combined own incoming)).steady =
      (nodeLoad size own).steady + (nodeLoad size incoming).steady := by
  have hjoined : ∀ c ∈ own, size (joined incoming c) * (joined incoming c).replicas =
      size c * c.replicas + ((incoming.find? (serviceId · == serviceId c)).map fun d => size d * d.replicas).getD 0 := by
    intro c hc
    cases hf : incoming.find? (serviceId · == serviceId c) with
    | none => simp [joined_alone hf]
    | some d =>
      have hid : serviceId d = serviceId c := by simpa using List.find?_some hf
      have hsame : size d = size c := by
        rw [halike c hc d (List.mem_of_find?_eq_some hf) hid.symm]
        exact hsize c d.replicas
      have hgrown : size { c with replicas := c.replicas + d.replicas } = size c := hsize c _
      simp only [joined_found hf, hgrown, hsame, Option.map_some, Option.getD_some]
      exact Int.mul_add ..
  have hperm := List.filter_append_perm (fun d => own.any (serviceId · == serviceId d)) incoming
  simp only [nodeLoad_steady, combined, List.map_append, List.sum_append, List.map_map, Function.comp_def]
  rw [List.map_congr_left hjoined, List.sum_map_add, found_sum hown hn, ← (hperm.map _).sum_eq, List.map_append,
    List.sum_append]
  omega

/-- The merged replicas of a service on both nodes, at most its `maxSurge`, fit on top of
    both steady demands. -/
def MergedSurgeFits (size : ServiceConfig → Int) (own incoming : List ServiceConfig) (allocatable : Int) : Prop :=
  ∀ c ∈ own, ∀ d ∈ incoming, serviceId c = serviceId d → max c.replicas d.replicas < c.rollout.maxSurge →
    (nodeLoad size own).steady + (nodeLoad size incoming).steady +
      size c * min c.rollout.maxSurge (c.replicas + d.replicas) ≤ allocatable

/-- The sums the autoscaler compares. -/
def SumsFit (size : ServiceConfig → Int) (own incoming : List ServiceConfig) (allocatable : Int) : Prop :=
  (nodeLoad size own).steady + (nodeLoad size incoming).steady +
    max (nodeLoad size incoming).surge (nodeLoad size own).surge ≤ allocatable

/-- Where the merged services surge within a room, so do those of either node, and the pairs. -/
theorem parts_fit {room : Int} (hsize : PerReplica size) (hpos : ∀ c, c ∈ own ∨ c ∈ incoming → 0 < size c ∧ 1 ≤ c.replicas)
    (hn : (incoming.map serviceId).Nodup) (halike : Alike own incoming)
    (hall : ∀ e ∈ combined own incoming, size e * min e.rollout.maxSurge e.replicas ≤ room) :
    (∀ c ∈ own, size c * min c.rollout.maxSurge c.replicas ≤ room) ∧
      (∀ d ∈ incoming, size d * min d.rollout.maxSurge d.replicas ≤ room) ∧
      ∀ c ∈ own, ∀ d ∈ incoming, serviceId c = serviceId d →
        size c * min c.rollout.maxSurge (c.replicas + d.replicas) ≤ room := by
  unfold combined at hall
  -- an entry's merged counterpart surges at least as much
  have hpair : ∀ c ∈ own, ∀ d ∈ incoming, serviceId c = serviceId d →
      size c * min c.rollout.maxSurge (c.replicas + d.replicas) ≤ room := by
    intro c hc d hd hid
    have hj := joined_found (find_unique hn hd hid)
    have hfits := hall (joined incoming c) (List.mem_append_left _ (List.mem_map.mpr ⟨c, hc, rfl⟩))
    rw [hj] at hfits
    have hgrown : size { c with replicas := c.replicas + d.replicas } = size c := hsize c _
    simpa only [hgrown] using hfits
  refine ⟨fun c hc => ?_, fun d hd => ?_, hpair⟩
  · cases hf : incoming.find? (serviceId · == serviceId c) with
    | none =>
      have hfits := hall (joined incoming c) (List.mem_append_left _ (List.mem_map.mpr ⟨c, hc, rfl⟩))
      rwa [joined_alone hf] at hfits
    | some d =>
      have hd := List.mem_of_find?_eq_some hf
      have hid : serviceId d = serviceId c := by simpa using List.find?_some hf
      have hd1 := (hpos d (.inr hd)).2
      have hmono : min c.rollout.maxSurge c.replicas ≤ min c.rollout.maxSurge (c.replicas + d.replicas) := by omega
      exact (mul_le_mul_of_nonneg_left hmono (hpos c (.inl hc)).1.le).trans (hpair c hc d hd hid.symm)
  · by_cases hhere : own.any (serviceId · == serviceId d) = true
    · obtain ⟨c, hc, hid⟩ := List.any_eq_true.mp hhere
      have hid : serviceId c = serviceId d := by simpa using hid
      have hd' := halike c hc d hd hid
      have hsame : size d = size c := by
        rw [hd']
        exact hsize c d.replicas
      have hsurge : d.rollout.maxSurge = c.rollout.maxSurge := by rw [hd']
      have hc1 := (hpos c (.inl hc)).2
      have hmono : min c.rollout.maxSurge d.replicas ≤ min c.rollout.maxSurge (c.replicas + d.replicas) := by omega
      rw [hsame, hsurge]
      exact (mul_le_mul_of_nonneg_left hmono (hpos c (.inl hc)).1.le).trans (hpair c hc d hd hid)
    · exact hall d (List.mem_append_right _ (List.mem_filter.mpr ⟨hd, by simpa using hhere⟩))

/-- Where those of either node surge within a room, and the pairs that surge by more than
    either, so do the merged services. -/
theorem combined_fits {room : Int} (hsize : PerReplica size) (hpos : ∀ c, c ∈ own ∨ c ∈ incoming → 0 < size c ∧ 1 ≤ c.replicas)
    (halike : Alike own incoming) (hin : ∀ c ∈ own, size c * min c.rollout.maxSurge c.replicas ≤ room)
    (hout : ∀ d ∈ incoming, size d * min d.rollout.maxSurge d.replicas ≤ room)
    (hpair : ∀ c ∈ own, ∀ d ∈ incoming, serviceId c = serviceId d → max c.replicas d.replicas < c.rollout.maxSurge →
      size c * min c.rollout.maxSurge (c.replicas + d.replicas) ≤ room) :
    ∀ e ∈ combined own incoming, size e * min e.rollout.maxSurge e.replicas ≤ room := by
  intro e he
  unfold combined at he
  rcases List.mem_append.mp he with he | he
  · obtain ⟨c, hc, rfl⟩ := List.mem_map.mp he
    cases hf : incoming.find? (serviceId · == serviceId c) with
    | none =>
      rw [joined_alone hf]
      exact hin c hc
    | some d =>
      have hd := List.mem_of_find?_eq_some hf
      have hid : serviceId d = serviceId c := by simpa using List.find?_some hf
      have hd' := halike c hc d hd hid.symm
      have hgrown : size { c with replicas := c.replicas + d.replicas } = size c := hsize c _
      rw [joined_found hf]
      simp only [hgrown]
      by_cases hlt : max c.replicas d.replicas < c.rollout.maxSurge
      · exact hpair c hc d hd hid.symm hlt
      · -- the merged surge is the larger of the two
        have hc1 := (hpos c (.inl hc)).2
        have hd1 := (hpos d (.inr hd)).2
        by_cases hle : c.rollout.maxSurge ≤ c.replicas
        · rw [show min c.rollout.maxSurge (c.replicas + d.replicas) = min c.rollout.maxSurge c.replicas by omega]
          exact hin c hc
        · have hfits := hout d hd
          have hsame : size d = size c := by
            rw [hd']
            exact hsize c d.replicas
          have hsurge : d.rollout.maxSurge = c.rollout.maxSurge := by rw [hd']
          rw [hsame, hsurge] at hfits
          rw [show min c.rollout.maxSurge (c.replicas + d.replicas) = min c.rollout.maxSurge d.replicas by omega]
          exact hfits
  · exact hout e (List.mem_filter.mp he).1

/-- The merged services peak within a bound when the sums fit and the merged surges do. -/
theorem combined_peak_le (hsize : PerReplica size) (hpos : ∀ c, c ∈ own ∨ c ∈ incoming → 0 < size c ∧ 1 ≤ c.replicas)
    (hown : (own.map serviceId).Nodup) (hn : (incoming.map serviceId).Nodup) (halike : Alike own incoming)
    (allocatable : Int) : (nodeLoad size (combined own incoming)).peak ≤ allocatable ↔
      SumsFit size own incoming allocatable ∧ MergedSurgeFits size own incoming allocatable := by
  have hsteady := combined_steady hsize hown hn halike
  generalize ht : (nodeLoad size own).steady + (nodeLoad size incoming).steady = total at hsteady
  have hpeak : (nodeLoad size (combined own incoming)).peak ≤ allocatable ↔
      (nodeLoad size (combined own incoming)).surge ≤ allocatable - total := by
    unfold Load.peak
    omega
  have hsums : SumsFit size own incoming allocatable ↔
      (nodeLoad size own).surge ≤ allocatable - total ∧ (nodeLoad size incoming).surge ≤ allocatable - total := by
    unfold SumsFit
    omega
  have hmerged : MergedSurgeFits size own incoming allocatable ↔
      ∀ c ∈ own, ∀ d ∈ incoming, serviceId c = serviceId d → max c.replicas d.replicas < c.rollout.maxSurge →
        size c * min c.rollout.maxSurge (c.replicas + d.replicas) ≤ allocatable - total := by
    unfold MergedSurgeFits
    rw [ht]
    refine forall₅_congr fun c _ d _ _ => ?_
    constructor
    · intro h hlt
      have := h hlt
      omega
    · intro h hlt
      have := h hlt
      omega
  rw [hpeak, hsums, hmerged, nodeLoad_surge_le, nodeLoad_surge_le, nodeLoad_surge_le]
  generalize allocatable - total = room
  constructor
  · intro ⟨hroom, hall⟩
    obtain ⟨hin, hout, hpair⟩ := parts_fit hsize hpos hn halike hall
    exact ⟨⟨⟨hroom, hin⟩, hroom, hout⟩, fun c hc d hd hid _ => hpair c hc d hd hid⟩
  · intro ⟨⟨⟨hroom, hin⟩, _, hout⟩, hpair⟩
    exact ⟨hroom, combined_fits hsize hpos halike hin hout hpair⟩

/-! ## Two nodes -/

namespace TwoNodes

variable (p : TwoNodes)

/-- The two nodes' services, for one resource of the survivor. -/
abbrev Sums (size : ServiceConfig → Int) (allocatable : Int) : Prop := SumsFit size p.own p.incoming allocatable

abbrev Merged (size : ServiceConfig → Int) (allocatable : Int) : Prop := MergedSurgeFits size p.own p.incoming allocatable

theorem absorbs_iff : survivorsCanAbsorb p.drained p.pool = true ↔
    p.Sums (·.cpu) (allocatableCpu p.survivor) ∧ p.Sums (·.memory) (allocatableMemory p.survivor) := by
  have hids : p.kept.nodeId ≠ p.drained.nodeId := p.distinct
  have hsurvivors : p.pool.filter (·.nodeId != p.drained.nodeId) = [p.kept] := by
    unfold pool
    split
    · simp [hids]
    · simp [hids]
  have hkept : p.kept.reserved = some _ := observed_reserved p p.survivor p.survivorStatus
  have hdrained : p.drained.reserved = some _ := observed_reserved p p.victim p.victimStatus
  unfold survivorsCanAbsorb
  simp only [hdrained, hsurvivors, sumOf, maxOf, List.any_cons, List.any_nil, hkept, List.filterMap_cons,
    List.filterMap_nil, List.foldl_cons, List.foldl_nil, Option.isNone_some, Bool.or_self, Bool.false_eq_true, if_false,
    Bool.and_eq_true, decide_eq_true_eq, Int.zero_add]
  rfl

theorem sized {c : ServiceConfig} (h : c ∈ p.own ∨ c ∈ p.incoming) : Sized c := by
  rcases h with h | h
  · exact publishedServices_sized h
  · exact publishedServices_sized h

theorem admits_iff : p.admission.ok = true ↔
    (p.Sums (·.cpu) (allocatableCpu p.survivor) ∧ p.Merged (·.cpu) (allocatableCpu p.survivor)) ∧
      p.Sums (·.memory) (allocatableMemory p.survivor) ∧ p.Merged (·.memory) (allocatableMemory p.survivor) := by
  unfold admission
  rw [checkCapacity_ok, cpuTotal_demandsOf, memoryTotal_demandsOf]
  refine and_congr ?_ ?_
  · exact combined_peak_le (fun _ _ => rfl) (fun c hc => ⟨(p.sized hc).cpu, (p.sized hc).replicas⟩) (p.unique _)
      (p.unique _) p.alike _
  · exact combined_peak_le (fun _ _ => rfl) (fun c hc => ⟨(p.sized hc).memory, (p.sized hc).replicas⟩) (p.unique _)
      (p.unique _) p.alike _

/-- What the admission check accepts, the autoscaler's check accepts. -/
theorem admits_absorbed (h : p.admission.ok = true) : survivorsCanAbsorb p.drained p.pool = true := by
  have ⟨⟨hcpu, _⟩, hmemory, _⟩ := p.admits_iff.mp h
  exact p.absorbs_iff.mpr ⟨hcpu, hmemory⟩

end TwoNodes

/-- The two checks agree exactly when, where the sums fit, the merged surges do. -/
theorem absorb_exact_iff (p : TwoNodes) :
    (survivorsCanAbsorb p.drained p.pool = true ↔ p.admission.ok = true) ↔
      (p.Sums (·.cpu) (allocatableCpu p.survivor) ∧ p.Sums (·.memory) (allocatableMemory p.survivor) →
        p.Merged (·.cpu) (allocatableCpu p.survivor) ∧ p.Merged (·.memory) (allocatableMemory p.survivor)) := by
  rw [p.absorbs_iff, p.admits_iff]
  tauto

/-! ### One replica on each node -/

/-- One replica of a service that may surge by two. -/
def oneOfTwo : ServiceConfig where
  project := "shop"
  service := "web"
  image := "web:1"
  cpu := 256
  memory := 128
  ingress := none
  rollout := { maxSurge := 2 }

/-- Every node lists it. -/
def splitState : ClusterState where
  nodeIds := ["node-1", "node-2"]
  registry := fun _ => none
  desired := fun id => if id ∈ ["node-1", "node-2"] then some (.json ⟨protocolVersion, id, "t0", [oneOfTwo]⟩) else none
  status := fun _ => none
  sorted := by decide
  named := by decide
  listed := by
    intro id h
    by_contra hid
    rcases h with h | h
    · exact h rfl
    · exact h (if_neg hid)

theorem publishedServices_split (id : String) :
    publishedServices splitState id = [] ∨ publishedServices splitState id = [oneOfTwo] := by
  unfold publishedServices splitState
  by_cases hid : id ∈ ["node-1", "node-2"]
  · simp only [hid, if_true, Option.bind_some]
    have hone : serviceConfigSchema oneOfTwo = true := by decide +kernel
    by_cases hne : id = ""
    · subst hne
      simp at hid
    · simp [parseDesiredState, desiredStateSchema, hone, hne]
  · simp [hid]

def splitNode (nodeId : String) : NodeRegistryEntry where
  nodeId := nodeId
  role := .app
  totalCpu := 768
  totalMemory := 1024
  reservedCpu := 0
  reservedMemory := 0
  state := .ready

def splitPair : TwoNodes where
  st := splitState
  victim := splitNode "node-2"
  survivor := splitNode "node-1"
  distinct := by decide
  unique := by
    intro id
    rcases publishedServices_split id with h | h
    · rw [h]
      exact List.nodup_nil
    · rw [h]
      exact List.nodup_singleton _
  alike := by
    intro c hc d hd _
    have hone : ∀ {id x}, x ∈ publishedServices splitState id → x = oneOfTwo := by
      intro id x hx
      rcases publishedServices_split id with h | h
      · rw [h] at hx
        cases hx
      · rw [h] at hx
        exact List.mem_singleton.mp hx
    rw [hone hc, hone hd]

/-- The drained replica is absorbed by the autoscaler's check and refused by the other. -/
theorem split_surge_passes :
    ¬ ∀ p : TwoNodes, survivorsCanAbsorb p.drained p.pool = true ↔ p.admission.ok = true := by
  intro h
  have habsorbs : survivorsCanAbsorb splitPair.drained splitPair.pool = true := by decide +kernel
  have hadmits : splitPair.admission.ok = true := (h splitPair).mp habsorbs
  revert hadmits
  decide +kernel

end LaunchPad.Cli.Fleet
