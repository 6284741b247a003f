/-
  LaunchPad.Cli.Rebalance — the publishes of a rebalance (`commands/rebalance.ts`
  `applyRebalance`, `deploy/rebalance-plan.ts`): the nodes of the new placement, those that
  gain replicas first, then the nodes that the project leaves.

  A node's place in the order is its change over all services taken together. A service may
  lose a replica on a node that gains more of another, and that node comes early.

  Proved:
  - `rebalance_prefixes`: whatever a run published when it ended or was cut, the documents
    are those after some initial segment of the order; and a service never dips below both
    its totals exactly when its own changes, in that order, never do.
-/
import LaunchPad.Cli.Deploy
import LaunchPad.Lib.Split
import Mathlib.Data.List.Dedup
import Mathlib.Data.List.Sort

namespace LaunchPad.Cli

open Lib

/-! ## Placements as maps (`rebalance-plan.ts`) -/

/-- Of each service, node → replicas. -/
abbrev ServicePlacements := SortedMap String (SortedMap String Int)

namespace ServicePlacements

def count (m : ServicePlacements) (service node : String) : Int :=
  ((SortedMap.get service m).bind (SortedMap.get node)).getD 0

def set (service node : String) (replicas : Int) (m : ServicePlacements) : ServicePlacements :=
  SortedMap.insert service (SortedMap.insert node replicas ((SortedMap.get service m).getD [])) m

/-- The nodes with a replica of some service (`occupancyByNode`). -/
def occupied (m : ServicePlacements) : List String :=
  (m.flatMap fun e => (e.2.filter fun c => decide (0 < c.2)).map (·.1)).dedup

end ServicePlacements

def currentPlacement (snapshot : DeployedPlacementSnapshot) : ServicePlacements :=
  snapshot.byNode.foldl (fun m e => e.2.foldl (fun m occ => ServicePlacements.set occ.service e.1 occ.replicas m) m) []

/-- One cell whose replica count changed. -/
structure RebalanceChange where
  service : String
  node : String
  fromCount : Int
  toCount : Int
  deriving DecidableEq, Repr

structure RebalanceDiff where
  changes : List RebalanceChange
  vacatedNodes : List String
  deriving DecidableEq, Repr

/-- The cells of either placement. Their order only shows in the report. -/
def cells (current planned : ServicePlacements) : List (String × String) :=
  ((current ++ planned).flatMap fun e => e.2.map fun c => (e.1, c.1)).dedup

def diffPlacement (current planned : ServicePlacements) : RebalanceDiff where
  changes := ((cells current planned).map fun c =>
    ⟨c.1, c.2, max 0 (current.count c.1 c.2), max 0 (planned.count c.1 c.2)⟩).filter fun c => c.fromCount ≠ c.toCount
  vacatedNodes := (current.occupied.filter fun id => !planned.occupied.contains id).insertionSort (· ≤ ·)

/-! ## A rebalance -/

/-- A service with its published image, and where its replicas go. -/
structure ResolvedService where
  built : BuiltService
  placements : List Placement
  edge : Option String
  valid : built.Valid
  edge_ne : edge ≠ some ""
  nodup : (placements.map (·.nodeId)).Nodup
  pos : ∀ p ∈ placements, 1 ≤ p.replicas
  named : ∀ p ∈ placements, p.nodeId ≠ ""

abbrev ResolvedService.name (r : ResolvedService) : String := r.built.decl.name

/-- What `applyRebalance` gets. -/
structure Rebalance where
  aws : AwsEnv
  ownerProject : String
  env : Option String
  resolved : List ResolvedService
  nodup : (resolved.map (·.name)).Nodup
  owner_ne : ownerProject ≠ ""

def plannedPlacement (resolved : List ResolvedService) : ServicePlacements :=
  resolved.map fun r => (r.name, r.placements.map fun p => (p.nodeId, p.replicas))

/-- The entries of the new placement, service by service. -/
def resolvedEntries (r : Rebalance) : Except DeployFailure (List (String × ServiceConfig)) :=
  (r.resolved.flatMap fun s => s.placements.map fun p => (s, p)).mapM fun x => do
    let c ← toServiceConfig r.aws r.ownerProject x.1.built x.2.replicas x.1.edge r.env none
    return (x.2.nodeId, c)

/-- A node's net change over all services. -/
def nodeDelta (diff : RebalanceDiff) (id : String) : Int :=
  ((diff.changes.filter (·.node = id)).map fun c => c.toCount - c.fromCount).sum

/-- The registry entry of a node: as the pool was read, or read now. -/
def entryFor (st : ClusterState) (nodes : List (String × NodeRegistryEntry)) (id : String) : Option NodeRegistryEntry :=
  (SortedMap.get id nodes).or (entryOf st id)

/-- Gainers before reducers: by descending change, else in the order they first came. -/
def ordered (diff : RebalanceDiff) (nodePlacements : List (String × List ServiceConfig)) : List (String × List ServiceConfig) :=
  nodePlacements.insertionSort fun a b => nodeDelta diff b.1 ≤ nodeDelta diff a.1

/-- What is published, in order: the ordered nodes, then those that are left, if they exist. -/
def publications (diff : RebalanceDiff) (entry : String → Option NodeRegistryEntry)
    (nodePlacements : List (String × List ServiceConfig)) : List (String × List ServiceConfig) :=
  ordered diff nodePlacements ++ (diff.vacatedNodes.filter fun id => (entry id).isSome).map fun id => (id, [])

def publishEach (ownerProject : String) (entry : String → Option NodeRegistryEntry) :
    List (String × List ServiceConfig) → DeployProg
  | [] => .ret (.ok ())
  | (id, services) :: rest =>
    match entry id with
    | none => .ret (.error (.failed (.deploy (.unknownNode id))))
    | some node => do
      match ← publishDesired id node ownerProject services false with
      | .error e => .ret (.error (.publish id e))
      | .ok () => publishEach ownerProject entry rest

def rebalanceDiff (r : Rebalance) (st : ClusterState) : RebalanceDiff :=
  diffPlacement (currentPlacement (loadDeployedPlacement st r.ownerProject)) (plannedPlacement r.resolved)

/-- Every target's entry is resolved before anything is written. -/
def publishSequence (r : Rebalance) (st : ClusterState) (nodes : List (String × NodeRegistryEntry)) :
    Except DeployFailure (List (String × List ServiceConfig)) := do
  let flat ← resolvedEntries r
  let nodePlacements := (FirstSeen.group flat).entries
  match nodePlacements.find? fun e => (entryFor st nodes e.1).isNone with
  | some e => .error (.deploy (.unknownNode e.1))
  | none => .ok (publications (rebalanceDiff r st) (entryFor st nodes) nodePlacements)

def applyRebalance (r : Rebalance) (st : ClusterState) (nodes : List (String × NodeRegistryEntry)) : DeployProg :=
  match publishSequence r st nodes with
  | .error e => .ret (.error (.failed e))
  | .ok ps => publishEach r.ownerProject (entryFor st nodes) ps

/-! ## Documents along the way -/

/-- Every document, as it is read. -/
abbrev Documents := String → List ServiceConfig

def publishOn (ownerProject : String) (S : Documents) (p : String × List ServiceConfig) : Documents :=
  Function.update S p.1 ((S p.1).filter (·.project ≠ ownerProject) ++ p.2)

def documentsAfter (ownerProject : String) (S : Documents) (ps : List (String × List ServiceConfig)) : Documents :=
  ps.foldl (publishOn ownerProject) S

/-- A service's replicas over those documents. -/
def totalOver (ids : List String) (ownerProject service : String) (S : Documents) : Int :=
  (ids.map fun id => replicasOf ownerProject service (S id)).sum

/-- What a publish changes of a service. -/
def changeBy (ownerProject service : String) (S : Documents) (p : String × List ServiceConfig) : Int :=
  replicasOf ownerProject service p.2 - replicasOf ownerProject service (S p.1)

section Totals

variable {ids : List String} {ownerProject service : String} {S : Documents}

theorem replicasOf_publishOn (p : String × List ServiceConfig) (id : String) :
    replicasOf ownerProject service (publishOn ownerProject S p id) =
      replicasOf ownerProject service (S id) + if id = p.1 then changeBy ownerProject service S p else 0 := by
  unfold publishOn
  by_cases hid : id = p.1
  · subst hid
    rw [Function.update_self, if_pos rfl, changeBy]
    have hnone : entriesOf ownerProject service ((S p.1).filter (·.project ≠ ownerProject) ++ p.2) =
        entriesOf ownerProject service p.2 := by
      unfold entriesOf
      rw [List.filter_append, List.filter_filter]
      have hempty : (S p.1).filter (fun s => decide (s.project = ownerProject ∧ s.service = service) &&
          decide (s.project ≠ ownerProject)) = [] := by
        rw [List.filter_eq_nil_iff]
        intro s _ h
        simp only [ne_eq, Bool.and_eq_true, decide_eq_true_eq] at h
        exact h.2 h.1.1
      rw [hempty, List.nil_append]
    rw [replicasOf, hnone, ← replicasOf]
    omega
  · rw [Function.update_of_ne hid, if_neg hid, Int.add_zero]

theorem sum_at {ids : List String} (hnd : ids.Nodup) {x : String} (hx : x ∈ ids) (n : Int) :
    (ids.map fun id => if id = x then n else 0).sum = n := by
  rw [List.sum_map_ite_eq, List.count_eq_one_of_mem hnd hx, List.map_const', List.sum_replicate]
  simp

theorem totalOver_publishOn (hnd : ids.Nodup) {p : String × List ServiceConfig} (hp : p.1 ∈ ids) :
    totalOver ids ownerProject service (publishOn ownerProject S p) =
      totalOver ids ownerProject service S + changeBy ownerProject service S p := by
  unfold totalOver
  simp only [replicasOf_publishOn, List.sum_map_add]
  rw [sum_at hnd hp]

/-- Publishes on nodes of their own each change what was there at first. -/
theorem totalOver_after (hnd : ids.Nodup) {ps : List (String × List ServiceConfig)} (hps : (ps.map (·.1)).Nodup)
    (hids : ∀ p ∈ ps, p.1 ∈ ids) :
    totalOver ids ownerProject service (documentsAfter ownerProject S ps) =
      totalOver ids ownerProject service S + (ps.map (changeBy ownerProject service S)).sum := by
  induction ps generalizing S with
  | nil => simp [documentsAfter]
  | cons p ps ih =>
    rw [List.map_cons, List.nodup_cons] at hps
    have hlater : ps.map (changeBy ownerProject service (publishOn ownerProject S p)) = ps.map (changeBy ownerProject service S) := by
      apply List.map_congr_left
      intro q hq
      have hne : q.1 ≠ p.1 := fun e => hps.1 (e ▸ List.mem_map.mpr ⟨q, hq, rfl⟩)
      simp only [changeBy, publishOn, Function.update_of_ne hne]
    change totalOver ids ownerProject service (documentsAfter ownerProject (publishOn ownerProject S p) ps) = _
    rw [ih hps.2 fun q hq => hids q (List.mem_cons_of_mem _ hq), hlater, totalOver_publishOn hnd (hids p (List.mem_cons_self ..)),
      List.map_cons, List.sum_cons]
    omega

end Totals

/-! ## The run -/

section Run

variable {E : Etags} {r : Rebalance} {st : ClusterState} {nodes : List (String × NodeRegistryEntry)} {ownerProject : String}
  {entry : String → Option NodeRegistryEntry} {S : Documents} {j : DesiredBucket Unit}

/-- The documents are those after some initial segment of the publishes. -/
def AtPrefix (ownerProject : String) (S : Documents) (ps : List (String × List ServiceConfig)) (j : DesiredBucket Unit) : Prop :=
  ∃ k ≤ ps.length, ∀ id, servicesAt id j = documentsAfter ownerProject S (ps.take k) id

theorem publishEach_alone {before after : List (String × List ServiceConfig)}
    (hids : ∀ p ∈ after, p.1 ≠ "") (haccepted : ∀ p ∈ after, ∀ c ∈ p.2, serviceConfigSchema c = true)
    (hj : ∀ id, servicesAt id j = documentsAfter ownerProject S before id) :
    Sat (alone (s3Sem E)) (fun _ => AtPrefix ownerProject S (before ++ after))
      (fun r j' => AtPrefix ownerProject S (before ++ after) j' ∧
        (r = .ok () → ∀ id, servicesAt id j' = documentsAfter ownerProject S (before ++ after) id))
      (publishEach ownerProject entry after) j := by
  induction after generalizing before j with
  | nil => exact .aloneRet ⟨⟨before.length, by simp, by simpa using hj⟩, fun _ => by simpa using hj⟩
  | cons p after ih =>
    obtain ⟨id, services⟩ := p
    have hnow : AtPrefix ownerProject S (before ++ (id, services) :: after) j :=
      ⟨before.length, by simp, fun id' => by rw [List.take_left]; exact hj id'⟩
    -- one more publish is one more element of the order
    have hnext : ∀ j', Published id ownerProject services false j j' →
        ∀ id', servicesAt id' j' = documentsAfter ownerProject S (before ++ [(id, services)]) id' := by
      intro j' ⟨hmerged, hothers⟩ id'
      unfold documentsAfter
      rw [List.foldl_append, List.foldl_cons, List.foldl_nil, ← documentsAfter, publishOn]
      by_cases hid : id' = id
      · subst hid
        obtain ⟨_, hmerged, _⟩ := (mergeProjectServices_ok).mp hmerged
        rw [Function.update_self, ← hj]
        exact hmerged
      · rw [Function.update_of_ne hid, ← hj]
        exact hothers id' hid
    have hstep : ∀ j', Published id ownerProject services false j j' →
        AtPrefix ownerProject S (before ++ (id, services) :: after) j' := by
      intro j' h
      have htake : (before ++ (id, services) :: after).take (before.length + 1) = before ++ [(id, services)] := by
        rw [List.take_append, List.take_of_length_le (by omega)]
        simp
      refine ⟨before.length + 1, by rw [List.length_append, List.length_cons]; omega, fun id' => ?_⟩
      rw [hnext j' h id', htake]
    rw [publishEach]
    split
    · exact .aloneRet ⟨hnow, fun e => by cases e⟩
    · rename_i node _
      refine Sat.bind (publish_alone (hids _ (List.mem_cons_self ..)) (haccepted _ (List.mem_cons_self ..)) hnow hstep)
        fun res j₁ hpublish => ?_
      obtain ⟨hP, hpublished⟩ := hpublish
      cases res with
      | error e => exact .aloneRet ⟨hP, fun e => by cases e⟩
      | ok u =>
        have hrest := @ih j₁ (before ++ [(id, services)]) (fun p hp => hids p (List.mem_cons_of_mem _ hp))
          (fun p hp => haccepted p (List.mem_cons_of_mem _ hp)) (hnext j₁ (hpublished rfl))
        rwa [List.append_assoc] at hrest

end Run

/-! ## What is published -/

section Publications

variable {r : Rebalance} {st : ClusterState} {nodes : List (String × NodeRegistryEntry)} {flat : List (String × ServiceConfig)}

/-- Every entry of the new placement is accepted, and on a named node. -/
theorem resolvedEntries_accepted (h : resolvedEntries r = .ok flat) {e : String × ServiceConfig} (he : e ∈ flat) :
    serviceConfigSchema e.2 = true ∧ e.1 ≠ "" := by
  obtain ⟨⟨s, p⟩, hx, hc⟩ := (mapM_ok_iff h).2 _ he
  obtain ⟨s', hs', hx⟩ := List.mem_flatMap.mp hx
  obtain ⟨p', hp', hx⟩ := List.mem_map.mp hx
  cases hx
  cases hcfg : toServiceConfig r.aws r.ownerProject s.built p.replicas s.edge r.env none with
  | error e => simp only [hcfg, bind, Except.bind] at hc; cases hc
  | ok c =>
    simp only [hcfg, bind, Except.bind] at hc
    cases hc
    exact ⟨toServiceConfig_accepted s.valid r.owner_ne (s.pos p hp') s.edge_ne hcfg, s.named p hp'⟩

theorem publishSequence_ok {ps : List (String × List ServiceConfig)} (h : publishSequence r st nodes = .ok ps) :
    ∃ flat, resolvedEntries r = .ok flat ∧ (∀ e ∈ (FirstSeen.group flat).entries, entryFor st nodes e.1 ≠ none) ∧
      ps = publications (rebalanceDiff r st) (entryFor st nodes) (FirstSeen.group flat).entries := by
  unfold publishSequence at h
  cases hf : resolvedEntries r with
  | error e => rw [hf] at h; cases h
  | ok flat =>
    rw [hf] at h
    simp only [bind, Except.bind] at h
    split at h
    · cases h
    · rename_i hnone
      cases h
      refine ⟨flat, rfl, fun e he hno => ?_, rfl⟩
      have := List.find?_eq_none.mp hnone e he
      rw [hno] at this
      exact this rfl

/-- An element of the order: the group of a node of the new placement, or nothing on a node
    that is left. -/
theorem mem_publications {diff : RebalanceDiff} {entry : String → Option NodeRegistryEntry} {p : String × List ServiceConfig} :
    p ∈ publications diff entry (FirstSeen.group flat).entries ↔
      p ∈ (FirstSeen.group flat).entries ∨ (p.1 ∈ diff.vacatedNodes ∧ (entry p.1).isSome = true ∧ p.2 = []) := by
  unfold publications ordered
  rw [List.mem_append, (List.perm_insertionSort ..).mem_iff, List.mem_map]
  apply or_congr Iff.rfl
  constructor
  · intro ⟨id, hid, he⟩
    obtain ⟨hid, hentry⟩ := List.mem_filter.mp hid
    subst he
    exact ⟨hid, hentry, rfl⟩
  · intro ⟨hid, hentry, hnil⟩
    exact ⟨p.1, List.mem_filter.mpr ⟨hid, hentry⟩, by rw [← hnil]⟩

theorem mem_occupied {m : ServicePlacements} {id : String} :
    id ∈ m.occupied ↔ ∃ e ∈ m, ∃ c ∈ e.2, c.1 = id ∧ 0 < c.2 := by
  simp only [ServicePlacements.occupied, List.mem_dedup, List.mem_flatMap, List.mem_map, List.mem_filter, decide_eq_true_eq]
  constructor
  · rintro ⟨e, he, c, ⟨hc, hpos⟩, hid⟩
    exact ⟨e, he, c, hc, hid, hpos⟩
  · rintro ⟨e, he, c, hc, hid, hpos⟩
    exact ⟨e, he, c, ⟨hc, hpos⟩, hid⟩

/-- A node of the new placement is occupied by it. -/
theorem group_occupied (h : resolvedEntries r = .ok flat) {p : String × List ServiceConfig}
    (hp : p ∈ (FirstSeen.group flat).entries) : p.1 ∈ (plannedPlacement r.resolved).occupied ∧ p.1 ≠ "" := by
  obtain ⟨id, services⟩ := p
  obtain ⟨rfl, hne⟩ := FirstSeen.mem_group.mp hp
  obtain ⟨c, hc⟩ := List.exists_mem_of_ne_nil _ hne
  obtain ⟨e, he, rfl⟩ := List.mem_map.mp hc
  obtain ⟨hflat, hid⟩ := List.mem_filter.mp he
  have hid : e.1 = id := by simpa using hid
  subst hid
  refine ⟨?_, (resolvedEntries_accepted h hflat).2⟩
  obtain ⟨⟨s, q⟩, hx, hcfg⟩ := (mapM_ok_iff h).2 _ hflat
  obtain ⟨s', hs', hx⟩ := List.mem_flatMap.mp hx
  obtain ⟨q', hq', hx⟩ := List.mem_map.mp hx
  cases hx
  have hnode : q.nodeId = e.1 := by
    cases hc : toServiceConfig r.aws r.ownerProject s.built q.replicas s.edge r.env none with
    | error e => simp only [hc, bind, Except.bind] at hcfg; cases hcfg
    | ok c => simp only [hc, bind, Except.bind] at hcfg; cases hcfg; rfl
  have hpos := s.pos q hq'
  exact mem_occupied.mpr ⟨_, List.mem_map.mpr ⟨s, hs', rfl⟩, _, List.mem_map.mpr ⟨q, hq', rfl⟩, hnode, by omega⟩

theorem currentPlacement_nodes (snapshot : DeployedPlacementSnapshot) {id : String}
    (h : id ∈ (currentPlacement snapshot).occupied) : id ∈ snapshot.byNode.map (·.1) := by
  have hset : ∀ (m : ServicePlacements) (service node : String) (n : Int) (l : List String),
      (∀ e ∈ m, ∀ c ∈ e.2, c.1 ∈ l) → node ∈ l → ∀ e ∈ ServicePlacements.set service node n m, ∀ c ∈ e.2, c.1 ∈ l := by
    intro m service node n l hm hnode e he c hc
    rcases SortedMap.mem_insert he with rfl | he
    · rcases SortedMap.mem_insert hc with rfl | hc
      · exact hnode
      · cases hg : SortedMap.get service m with
        | none => rw [hg] at hc; cases hc
        | some inner => rw [hg] at hc; exact hm _ (SortedMap.get_mem hg) c hc
    · exact hm e he c hc
  have hnode : ∀ (occs : List NodeOccupancy) (m : ServicePlacements) (node : String) (l : List String),
      (∀ e ∈ m, ∀ c ∈ e.2, c.1 ∈ l) → node ∈ l →
        ∀ e ∈ occs.foldl (fun m occ => ServicePlacements.set occ.service node occ.replicas m) m, ∀ c ∈ e.2, c.1 ∈ l := by
    intro occs
    induction occs with
    | nil => exact fun m node l hm _ => hm
    | cons occ occs ih => exact fun m node l hm hn => ih _ node l (hset m _ node _ l hm hn) hn
  have hall : ∀ (es : List (String × List NodeOccupancy)) (m : ServicePlacements) (l : List String),
      (∀ e ∈ m, ∀ c ∈ e.2, c.1 ∈ l) → (∀ e ∈ es, e.1 ∈ l) →
        ∀ e ∈ es.foldl (fun m e => e.2.foldl (fun m occ => ServicePlacements.set occ.service e.1 occ.replicas m) m) m,
          ∀ c ∈ e.2, c.1 ∈ l := by
    intro es
    induction es with
    | nil => exact fun m l hm _ => hm
    | cons e es ih =>
      exact fun m l hm hes => ih _ l (hnode e.2 m e.1 l hm (hes e (List.mem_cons_self ..)))
        fun x hx => hes x (List.mem_cons_of_mem _ hx)
  obtain ⟨e, he, c, hc, rfl, _⟩ := mem_occupied.mp h
  refine hall snapshot.byNode [] (snapshot.byNode.map (·.1)) (fun e he => by cases he) ?_ e he c hc
  exact fun e he => List.mem_map.mpr ⟨e, he, rfl⟩

theorem mem_vacated {id : String} (h : id ∈ (rebalanceDiff r st).vacatedNodes) :
    id ∈ st.nodeIds ∧ id ∉ (plannedPlacement r.resolved).occupied := by
  have h := (List.perm_insertionSort ..).mem_iff.mp h
  obtain ⟨hcur, hnot⟩ := List.mem_filter.mp h
  refine ⟨?_, by simpa using hnot⟩
  obtain ⟨⟨id', occ⟩, he, rfl⟩ := List.mem_map.mp (currentPlacement_nodes _ hcur)
  obtain ⟨id'', hlisted, he⟩ := List.mem_map.mp (List.mem_filter.mp he).1
  cases he
  exact hlisted

/-- Each publish is on a directory of its own, and of accepted entries. -/
structure Sequence (r : Rebalance) (st : ClusterState) (ps : List (String × List ServiceConfig)) : Prop where
  nodup : (ps.map (·.1)).Nodup
  listed : ∀ p ∈ ps, p.1 ∈ st.nodeIds
  accepted : ∀ p ∈ ps, ∀ c ∈ p.2, serviceConfigSchema c = true

theorem publishSequence_spec {nowMs : Int} {c : CandidateNodes} (hpool : Pool st r.ownerProject nowMs c)
    {ps : List (String × List ServiceConfig)} (h : publishSequence r st c.nodes = .ok ps) : Sequence r st ps := by
  obtain ⟨flat, hflat, hregistered, rfl⟩ := publishSequence_ok h
  constructor
  · unfold publications
    rw [List.map_append, List.nodup_append]
    refine ⟨?_, ?_, ?_⟩
    · exact ((List.perm_insertionSort _ _).map _).nodup_iff.mpr (FirstSeen.group_nodup flat)
    · rw [List.map_map]
      change List.Nodup (((rebalanceDiff r st).vacatedNodes.filter _).map fun id => id)
      rw [List.map_id']
      exact ((List.perm_insertionSort _ _).nodup_iff.mpr ((List.nodup_dedup _).filter _)).filter _
    · intro a ha b hb hab
      obtain ⟨p, hp, rfl⟩ := List.mem_map.mp ha
      obtain ⟨q, hq, rfl⟩ := List.mem_map.mp hb
      obtain ⟨id, hid, rfl⟩ := List.mem_map.mp hq
      have hp := (group_occupied hflat ((List.perm_insertionSort ..).mem_iff.mp hp)).1
      rw [hab] at hp
      exact (mem_vacated (List.mem_filter.mp hid).1).2 hp
  · intro p hp
    rcases mem_publications.mp hp with hp | ⟨hp, _, _⟩
    · have hentry := hregistered p hp
      apply st.listed
      left
      intro hno
      apply hentry
      have hnone : entryOf st p.1 = none := by rw [entryOf, hno]; rfl
      unfold entryFor
      rw [hnone, Option.or_none]
      cases hget : SortedMap.get p.1 c.nodes with
      | none => rfl
      | some e =>
        rw [hpool.mem_nodes.mp (SortedMap.get_mem hget)] at hnone
        cases hnone
    · exact (mem_vacated hp).1
  · intro p hp
    rcases mem_publications.mp hp with hp | ⟨_, _, hnil⟩
    · obtain ⟨id, services⟩ := p
      obtain ⟨rfl, _⟩ := FirstSeen.mem_group.mp hp
      intro x hx
      obtain ⟨e, he, rfl⟩ := List.mem_map.mp hx
      exact (resolvedEntries_accepted hflat (List.mem_filter.mp he).1).1
    · rw [hnil]
      intro x hx
      cases hx

end Publications

/-! ## A service on the way -/

/-- What a rebalance publishes, if nothing fails; one that is refused publishes nothing. -/
def sequenceOf (r : Rebalance) (st : ClusterState) (nodes : List (String × NodeRegistryEntry)) : List (String × List ServiceConfig) :=
  match publishSequence r st nodes with
  | .ok ps => ps
  | .error _ => []

section Dips

variable (r : Rebalance) (st : ClusterState) (nodes : List (String × NodeRegistryEntry)) (service : String)

/-- A service's replicas over all nodes after so many publishes. -/
def totalAt (k : Nat) : Int :=
  totalOver st.nodeIds r.ownerProject service
    (documentsAfter r.ownerProject (publishedServices st) ((sequenceOf r st nodes).take k))

/-- How each publish in turn changes the service, from the two placements. -/
def changesOf : List Int := (sequenceOf r st nodes).map (changeBy r.ownerProject service (publishedServices st))

/-- What the service has lost along the order it has gained before, or loses for good. -/
def NeverDips : Prop := ∀ k, min 0 (changesOf r st nodes service).sum ≤ ((changesOf r st nodes service).take k).sum

end Dips

variable {E : Etags} {r : Rebalance} {st : ClusterState} {j₀ : DesiredBucket Unit}

/-- Over every published and every planned placement, alone on the bucket: each world of
    each run holds the documents of an initial segment of the publishes; and along all of
    them a service keeps at least the lesser of its totals before and after exactly when
    its changes, in the order of the publishes, never add up to less than zero and their sum. -/
theorem rebalance_prefixes {nowMs : Int} {c : CandidateNodes}
    (hpool : buildCandidateNodes st r.ownerProject true nowMs = .ok c) (hstored : Stored st j₀) :
    (∀ s : Crew Unit DesiredResp (Except RunError Unit) (DesiredBucket Unit),
      CrewRun (s3Sem E) ⟨fun _ => applyRebalance r st c.nodes, j₀⟩ s →
        AtPrefix r.ownerProject (publishedServices st) (sequenceOf r st c.nodes) s.world) ∧
      ∀ service, (∀ k, min (totalAt r st c.nodes service 0)
          (totalAt r st c.nodes service (sequenceOf r st c.nodes).length) ≤ totalAt r st c.nodes service k) ↔
        NeverDips r st c.nodes service := by
  have hpool := buildCandidateNodes_spec hpool
  have hstart : ∀ id, servicesAt id j₀ = documentsAfter r.ownerProject (publishedServices st) [] id := hstored.services
  have hsequence : Sequence r st (sequenceOf r st c.nodes) := by
    unfold sequenceOf
    cases h : publishSequence r st c.nodes with
    | error e => exact ⟨List.nodup_nil, fun p hp => (by cases hp), fun p hp => by cases hp⟩
    | ok ps => exact publishSequence_spec hpool h
  constructor
  · intro s hrun
    refine alone_visits ?_ hrun
    unfold applyRebalance
    cases h : publishSequence r st c.nodes with
    | error e => exact .aloneRet ⟨0, Nat.zero_le _, hstart⟩
    | ok ps =>
      rw [sequenceOf, h] at hsequence ⊢
      have hnamed : ∀ p ∈ ps, p.1 ≠ "" := fun p hp => st.named _ (hsequence.listed p hp)
      exact (@publishEach_alone _ _ _ _ _ [] _ hnamed hsequence.accepted hstart).mono (fun _ _ h => h) fun _ _ h => h.1
  · intro service
    have htotal : ∀ k, totalAt r st c.nodes service k =
        totalAt r st c.nodes service 0 + ((changesOf r st c.nodes service).take k).sum := by
      intro k
      have hsub : ((sequenceOf r st c.nodes).take k).Sublist (sequenceOf r st c.nodes) := List.take_sublist ..
      unfold totalAt changesOf
      rw [totalOver_after (sorted_nodup st.sorted) (hsequence.nodup.sublist (hsub.map _))
        fun p hp => hsequence.listed p (hsub.subset hp), ← List.map_take]
      simp [documentsAfter]
    have hend : (changesOf r st c.nodes service).take (sequenceOf r st c.nodes).length = changesOf r st c.nodes service := by
      rw [List.take_of_length_le]
      simp [changesOf]
    unfold NeverDips
    apply forall_congr'
    intro k
    rw [htotal k, htotal (sequenceOf r st c.nodes).length, hend]
    omega

/-! ## Two services that cross -/

def webDecl : ServiceDecl := { plainDecl with replicas := 2, replicas_pos := by decide }

def apiDecl : ServiceDecl := { plainDecl with name := "api" }

/-- A service that goes to one node. -/
def goesTo (decl : ServiceDecl) (hdecl : serviceDeclSchema decl = true) (id : String) (hid : id ≠ "") : ResolvedService where
  built := ⟨decl, "img", none⟩
  placements := [⟨id, decl.replicas⟩]
  edge := none
  valid := ⟨show "img" ≠ "" by decide, rfl, hdecl⟩
  edge_ne := by decide
  nodup := List.nodup_singleton _
  pos := by
    intro p hp
    obtain rfl := List.mem_singleton.mp hp
    exact decl.replicas_pos
  named := by
    intro p hp
    obtain rfl := List.mem_singleton.mp hp
    exact hid

theorem first_named : "n1" ≠ "" := by decide

theorem second_named : "n2" ≠ "" := by decide

theorem webDecl_accepted : serviceDeclSchema webDecl = true := by decide +kernel

theorem apiDecl_accepted : serviceDeclSchema apiDecl = true := by decide +kernel

/-- `web`, two replicas, from `n1` to `n2`; `api`, one replica, the other way. -/
def crossing : Rebalance where
  aws := ⟨"default", "1", "r"⟩
  ownerProject := "shop"
  env := none
  resolved := [goesTo webDecl webDecl_accepted "n2" second_named, goesTo apiDecl apiDecl_accepted "n1" first_named]
  nodup := by decide
  owner_ne := shop_ne

def onNode (service : String) (replicas : Int) : ServiceConfig := { webEntry with service, replicas }

/-- What the two nodes publish. -/
def crossedDesired (id : String) : Option (Raw DesiredState) :=
  if id = "n1" then some (.json ⟨protocolVersion, "n1", "", [onNode "web" 2]⟩)
  else if id = "n2" then some (.json ⟨protocolVersion, "n2", "", [onNode "api" 1]⟩) else none

def crossed : ClusterState where
  nodeIds := ["n1", "n2"]
  registry id := if id = "n1" ∨ id = "n2" then some (.json { smallNode with nodeId := id }) else none
  desired := crossedDesired
  status _ := none
  sorted := twoNodes.sorted
  named := twoNodes.named
  listed := by
    intro id h
    by_cases h1 : id = "n1"
    · simp [h1]
    · by_cases h2 : id = "n2"
      · simp [h2]
      · simp [crossedDesired, h1, h2] at h

def crossedBucket : DesiredBucket Unit :=
  [⟨none, "n1", some (.parsed (.json ⟨protocolVersion, "n1", "", [onNode "web" 2]⟩))⟩,
    ⟨none, "n2", some (.parsed (.json ⟨protocolVersion, "n2", "", [onNode "api" 1]⟩))⟩]

theorem crossed_stored : Stored crossed crossedBucket := by
  intro id
  by_cases h1 : id = "n1"
  · subst h1; rfl
  · by_cases h2 : id = "n2"
    · subst h2; rfl
    · simp [crossedBucket, Journal.current, crossed, crossedDesired, h1, h2, Ne.symm h1, Ne.symm h2]

def crossedNodes : List (String × NodeRegistryEntry) :=
  [("n1", { smallNode with nodeId := "n1" }), ("n2", { smallNode with nodeId := "n2" })]

theorem crossed_pool : ∃ c, buildCandidateNodes crossed "shop" true 0 = .ok c ∧ c.nodes = crossedNodes := by
  refine ⟨_, rfl, ?_⟩
  decide +kernel

/-- The run after so many commands. -/
def crossingRun (commands : Nat) : Crew Unit DesiredResp (Except RunError Unit) (DesiredBucket Unit) :=
  Crew.play (s3Serve strokes "t") (List.replicate commands ())
    ⟨fun _ => applyRebalance crossing crossed crossedNodes, crossedBucket⟩

theorem crossingRun_run (commands : Nat) :
    CrewRun (s3Sem strokes) ⟨fun _ => applyRebalance crossing crossed crossedNodes, crossedBucket⟩ (crossingRun commands) :=
  play_run (s3Serve_sem strokes "t") _ _

theorem rebalance_prefixes_crossing :
    AtPrefix "shop" (publishedServices crossed) (sequenceOf crossing crossed crossedNodes) (crossingRun 4).world ∧
      ¬∀ k, min (totalAt crossing crossed crossedNodes "api" 0)
        (totalAt crossing crossed crossedNodes "api" (sequenceOf crossing crossed crossedNodes).length) ≤
          totalAt crossing crossed crossedNodes "api" k := by
  obtain ⟨c, hc, hnodes⟩ := crossed_pool
  obtain ⟨hpre, hiff⟩ := rebalance_prefixes (E := strokes) (r := crossing) hc crossed_stored
  rw [hnodes] at hpre hiff
  refine ⟨hpre _ (crossingRun_run 4), fun h => ?_⟩
  have hdip := (hiff "api").mp h 1
  revert hdip
  decide +kernel

/-- After the first publish `api` has no replica anywhere; it had one and will have one. -/
theorem moved_service_absent :
    ∃ s s', CrewRun (s3Sem strokes) ⟨fun _ => applyRebalance crossing crossed crossedNodes, crossedBucket⟩ s ∧
      CrewRun (s3Sem strokes) ⟨fun _ => applyRebalance crossing crossed crossedNodes, crossedBucket⟩ s' ∧
      s'.progs () = .ret (.ok ()) ∧ totalOver crossed.nodeIds "shop" "api" (publishedServices crossed) = 1 ∧
      totalOver crossed.nodeIds "shop" "api" (fun id => servicesAt id s.world) = 0 ∧
      totalOver crossed.nodeIds "shop" "api" (fun id => servicesAt id s'.world) = 1 := by
  refine ⟨crossingRun 4, crossingRun 8, crossingRun_run 4, crossingRun_run 8, Prog.eq_ret (by decide +kernel), ?_, ?_, ?_⟩
  · decide +kernel
  · decide +kernel
  · decide +kernel

end LaunchPad.Cli
