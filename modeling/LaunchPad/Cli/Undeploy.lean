/-
  LaunchPad.Cli.Undeploy — the preview of an undeploy against what it does: the plan
  (`shared/src/undeploy.ts` `planUndeploy`) is made from one reading of every node's
  document, each node is then rewritten from its own (`servicesAfterRemoval`), and the
  config baseline is trimmed by the plan's names (`removeServicesFromBaseline`).

  The source takes a domain into account when it is not the empty text, which a document
  that parses never has (`parsed_domain`). A file whose services are all deleted is none
  (`LaunchPadConfig.service_ne`), so when no service remains in the baseline, and it is
  deleted, the file it leaves has a service the baseline did not know.

  Proved:
  - `undeploy_previewed`: the plan's slices are what the removal drops and keeps on each
    node, its domains are those that nothing left serves, and the file without those
    services passes the lock on the trimmed baseline.
  - `removeFromNodes_services`: executed, the plan leaves on every node what is left after
    the removal, on those it lists and on those it does not.
-/
import LaunchPad.Cli.ConfigLock
import LaunchPad.Cli.EnvDestroy
import Mathlib.Algebra.Order.Group.Multiset

namespace LaunchPad.Cli

open Lib

section Preview

variable (ownerProject : String) (servicesToRemove : Option (List String))

/-- The removal is asked for this entry. -/
def Asked (s : ServiceConfig) : Prop := s.project = ownerProject ∧ ∀ names, servicesToRemove = some names → s.service ∈ names

/-- What the removal drops from a node's services. -/
def droppedFrom (services : List ServiceConfig) : List ServiceConfig :=
  services.diff (servicesAfterRemoval services ownerProject servicesToRemove)

/-- Some entry serves that domain. -/
def Serves (domain : String) (services : List ServiceConfig) : Prop :=
  ∃ s ∈ services, ∃ i, s.ingress = some i ∧ i.domain = domain

/-- A node's slice of a plan, for a node with these services. -/
structure SliceOf (services : List ServiceConfig) (n : NodeUndeployPlan) : Prop where
  some_dropped : droppedFrom ownerProject servicesToRemove services ≠ []
  removed : n.removed.Perm ((droppedFrom ownerProject servicesToRemove services).map (·.service))
  kept : n.kept = (servicesAfterRemoval services ownerProject servicesToRemove).filter (·.project = ownerProject)

/-- The plan says of every node's document what the removal does with it. -/
structure Previews (states : List (String × List ServiceConfig)) (plan : UndeployPlan) : Prop where
  /-- A node that loses an entry is listed. -/
  lists : ∀ state ∈ states, droppedFrom ownerProject servicesToRemove state.2 ≠ [] →
    ∃ n ∈ plan.nodes, n.nodeId = state.1 ∧ SliceOf ownerProject servicesToRemove state.2 n
  /-- No other is. -/
  only : ∀ n ∈ plan.nodes, ∃ state ∈ states, n.nodeId = state.1 ∧ SliceOf ownerProject servicesToRemove state.2 n
  /-- What is dropped is what was asked for. -/
  asked : ∀ state ∈ states, ∀ s, s ∈ droppedFrom ownerProject servicesToRemove state.2 ↔
    s ∈ state.2 ∧ Asked ownerProject servicesToRemove s
  /-- Served before by an entry that goes, and by none that stays. -/
  domains : ∀ domain, domain ∈ plan.removedDomains ↔
    (∃ state ∈ states, Serves domain (droppedFrom ownerProject servicesToRemove state.2)) ∧
      ¬ ∃ state ∈ states, Serves domain (servicesAfterRemoval state.2 ownerProject servicesToRemove)
  domains_nodup : plan.removedDomains.Nodup
  names : ∀ name, name ∈ plan.removedServices ↔
    ∃ state ∈ states, ∃ s ∈ droppedFrom ownerProject servicesToRemove state.2, s.service = name

end Preview

section Lemmas

variable {ownerProject : String} {servicesToRemove : Option (List String)} {services : List ServiceConfig}
  {states : List (String × List ServiceConfig)}

theorem isRemoved_iff {s : ServiceConfig} : isRemoved ownerProject servicesToRemove s = true ↔ Asked ownerProject servicesToRemove s := by
  unfold isRemoved shouldRemove Asked
  cases servicesToRemove with
  | none => simp
  | some names => simp

/-- A document that parses has no empty domain. -/
theorem parsed_domain {raw : Raw DesiredState} {d : DesiredState} (h : parseDesiredState raw = some d) {s : ServiceConfig}
    (hs : s ∈ d.services) {i : Ingress} (hi : s.ingress = some i) : i.domain ≠ "" := by
  have haccepted := (parseDesiredState_eq_some.mp h).2
  simp only [desiredStateSchema, Bool.and_eq_true, List.all_eq_true] at haccepted
  have hservice := haccepted.2 s hs
  simp only [serviceConfigSchema, Bool.and_eq_true] at hservice
  obtain ⟨⟨⟨⟨⟨⟨⟨_, hingress⟩, _⟩, _⟩, _⟩, _⟩, _⟩, _⟩ := hservice
  rw [hi] at hingress
  simp only [Option.all_some, ingressSchema, Bool.and_eq_true] at hingress
  intro he
  rw [he] at hingress
  exact absurd hingress.1.1 (by decide +kernel)

theorem servicesAfterRemoval_eq (services : List ServiceConfig) :
    servicesAfterRemoval services ownerProject servicesToRemove =
      services.filter fun s => !isRemoved ownerProject servicesToRemove s := rfl

/-- What is dropped is what is removed. -/
theorem droppedFrom_perm (services : List ServiceConfig) :
    (droppedFrom ownerProject servicesToRemove services).Perm (services.filter (isRemoved ownerProject servicesToRemove)) := by
  unfold droppedFrom
  rw [servicesAfterRemoval_eq, ← Multiset.coe_eq_coe, ← Multiset.coe_sub]
  have hsplit : (services : Multiset ServiceConfig) = ((services.filter (isRemoved ownerProject servicesToRemove) : List _) : Multiset _) +
      ((services.filter fun s => !isRemoved ownerProject servicesToRemove s : List _) : Multiset _) := by
    rw [Multiset.coe_add, Multiset.coe_eq_coe]
    exact (List.filter_append_perm _ services).symm
  rw [hsplit]
  exact Multiset.add_sub_cancel_right ..

theorem mem_droppedFrom {s : ServiceConfig} :
    s ∈ droppedFrom ownerProject servicesToRemove services ↔ s ∈ services ∧ Asked ownerProject servicesToRemove s := by
  rw [(droppedFrom_perm services).mem_iff, List.mem_filter, isRemoved_iff]

theorem owned_filter (services : List ServiceConfig) (p : ServiceConfig → Bool) :
    (services.filter fun s => decide (s.project = ownerProject)).filter p =
      services.filter fun s => decide (s.project = ownerProject) && p s := by
  rw [List.filter_filter]
  refine List.filter_congr fun s _ => ?_
  rw [Bool.and_comm]

/-- The owner's entries of those services are what is removed. -/
theorem owned_removed (services : List ServiceConfig) :
    (services.filter (·.project = ownerProject)).filter (fun s => shouldRemove servicesToRemove s.service) =
      services.filter (isRemoved ownerProject servicesToRemove) := owned_filter services _

theorem owned_kept (services : List ServiceConfig) :
    (services.filter (·.project = ownerProject)).filter (fun s => !shouldRemove servicesToRemove s.service) =
      (servicesAfterRemoval services ownerProject servicesToRemove).filter (·.project = ownerProject) := by
  rw [owned_filter, servicesAfterRemoval_eq, List.filter_filter]
  refine List.filter_congr fun s _ => ?_
  by_cases hs : s.project = ownerProject <;> simp [isRemoved, hs]

/-- A node has a slice exactly when it loses an entry. -/
theorem nodeUndeploy_some {state : String × List ServiceConfig} {n : NodeUndeployPlan}
    (h : nodeUndeploy ownerProject servicesToRemove state = some n) :
    n.nodeId = state.1 ∧ SliceOf ownerProject servicesToRemove state.2 n := by
  unfold nodeUndeploy at h
  simp only [owned_removed] at h
  split at h
  · cases h
  · rename_i hne
    cases h
    refine ⟨rfl, ⟨fun hnil => hne ?_, ?_, owned_kept _⟩⟩
    · have hperm := @droppedFrom_perm ownerProject servicesToRemove state.2
      rw [hnil] at hperm
      rw [List.isEmpty_iff]
      exact List.nil_perm.mp hperm
    · exact (List.perm_insertionSort ..).trans ((droppedFrom_perm state.2).map _).symm

theorem nodeUndeploy_listed {state : String × List ServiceConfig}
    (h : droppedFrom ownerProject servicesToRemove state.2 ≠ []) :
    ∃ n, nodeUndeploy ownerProject servicesToRemove state = some n := by
  unfold nodeUndeploy
  simp only [owned_removed]
  have hne : (state.2.filter (isRemoved ownerProject servicesToRemove)).isEmpty = false := by
    rw [List.isEmpty_eq_false_iff]
    intro hnil
    have hperm := @droppedFrom_perm ownerProject servicesToRemove state.2
    rw [hnil] at hperm
    exact h (List.perm_nil.mp hperm)
  rw [hne]
  exact ⟨_, rfl⟩

/-- The plan is a preview of the removal. -/
theorem planUndeploy_previews (ownerProject : String) (servicesToRemove : Option (List String))
    (states : List (String × List ServiceConfig)) :
    Previews ownerProject servicesToRemove states (planUndeploy ownerProject servicesToRemove states) where
  lists := by
    intro state hstate hdropped
    obtain ⟨n, hn⟩ := nodeUndeploy_listed hdropped
    exact ⟨n, (List.perm_insertionSort ..).mem_iff.mpr (List.mem_filterMap.mpr ⟨state, hstate, hn⟩), nodeUndeploy_some hn⟩
  only := by
    intro n hn
    obtain ⟨state, hstate, hslice⟩ := List.mem_filterMap.mp ((List.perm_insertionSort ..).mem_iff.mp hn)
    exact ⟨state, hstate, nodeUndeploy_some hslice⟩
  asked _ _ _ := mem_droppedFrom
  domains := by
    intro domain
    show domain ∈ List.insertionSort _ _ ↔ _
    rw [(List.perm_insertionSort ..).mem_iff, List.mem_dedup, List.mem_map]
    constructor
    · intro ⟨i, hi, hdomain⟩
      obtain ⟨hfront, hnot⟩ := List.mem_filter.mp hi
      obtain ⟨s, hs, hingress⟩ := List.mem_filterMap.mp hfront
      obtain ⟨hall, hremoved⟩ := List.mem_filter.mp hs
      obtain ⟨state, hstate, hmem⟩ := List.mem_flatMap.mp hall
      refine ⟨⟨state, hstate, s, mem_droppedFrom.mpr ⟨hmem, isRemoved_iff.mp hremoved⟩, i, hingress, hdomain⟩, ?_⟩
      intro ⟨other, hother, t, ht, j, hj, hjd⟩
      rw [servicesAfterRemoval_eq] at ht
      obtain ⟨htmem, hkept⟩ := List.mem_filter.mp ht
      have hsurvives : i.domain ∈ ((states.flatMap (·.2)).filter fun s => !isRemoved ownerProject servicesToRemove s).filterMap
          fun s => s.ingress.map (·.domain) := by
        refine List.mem_filterMap.mpr ⟨t, List.mem_filter.mpr ⟨List.mem_flatMap.mpr ⟨other, hother, htmem⟩, hkept⟩, ?_⟩
        rw [hj, Option.map_some, hjd, hdomain]
      simp [hsurvives] at hnot
    · intro ⟨⟨state, hstate, s, hs, i, hingress, hdomain⟩, hnone⟩
      obtain ⟨hmem, hasked⟩ := mem_droppedFrom.mp hs
      refine ⟨i, List.mem_filter.mpr ⟨List.mem_filterMap.mpr ⟨s, List.mem_filter.mpr
        ⟨List.mem_flatMap.mpr ⟨state, hstate, hmem⟩, isRemoved_iff.mpr hasked⟩, hingress⟩, ?_⟩, hdomain⟩
      rw [Bool.not_eq_true', List.contains_eq_mem, decide_eq_false_iff_not]
      intro hsurvives
      obtain ⟨t, ht, htd⟩ := List.mem_filterMap.mp hsurvives
      obtain ⟨hall, hkept⟩ := List.mem_filter.mp ht
      obtain ⟨other, hother, htmem⟩ := List.mem_flatMap.mp hall
      obtain ⟨j, hj, hjd⟩ := Option.map_eq_some_iff.mp htd
      exact hnone ⟨other, hother, t, List.mem_filter.mpr ⟨htmem, hkept⟩, j, hj, hjd.trans hdomain⟩
  domains_nodup := (List.perm_insertionSort ..).nodup_iff.mpr (List.nodup_dedup _)
  names := by
    intro name
    show name ∈ List.insertionSort _ _ ↔ _
    rw [(List.perm_insertionSort ..).mem_iff, List.mem_dedup, List.mem_map]
    constructor
    · intro ⟨s, hs, hname⟩
      obtain ⟨hall, hremoved⟩ := List.mem_filter.mp hs
      obtain ⟨state, hstate, hmem⟩ := List.mem_flatMap.mp hall
      exact ⟨state, hstate, s, mem_droppedFrom.mpr ⟨hmem, isRemoved_iff.mp hremoved⟩, hname⟩
    · intro ⟨state, hstate, s, hs, hname⟩
      obtain ⟨hmem, hasked⟩ := mem_droppedFrom.mp hs
      exact ⟨s, List.mem_filter.mpr ⟨List.mem_flatMap.mpr ⟨state, hstate, hmem⟩, isRemoved_iff.mpr hasked⟩, hname⟩

end Lemmas

/-! ## The trimmed baseline -/

section Baseline

open ConfigLock

variable {opts : ConfigLockCompareOptions} {baseline : ConfigLock.ConfigBaseline}
  {config edited : LaunchPadConfig} {names : List String} {t u : String}

/-- The file with the services of those names deleted. -/
structure Deleted (config edited : LaunchPadConfig) (names : List String) : Prop where
  project : edited.project = config.project
  component : edited.component = config.component
  service : edited.service = config.service.filter fun s => !names.contains s.name

/-- The snapshot of the edited file is the old one without those services. -/
theorem serviceNamed_deleted (h : Deleted config edited names) (name : String) :
    serviceNamed (snapshotConfigBaseline edited u) name = serviceNamed ((snapshotConfigBaseline config t).without names) name := by
  refine Option.ext fun s => ?_
  rw [serviceNamed_without, serviceNamed_snapshot, h.service]
  by_cases hname : name ∈ names
  · rw [if_pos hname]
    constructor
    · intro ⟨d, hd, _, hdn⟩
      have hnot := (List.mem_filter.mp hd).2
      subst hdn
      simp [hname] at hnot
    · intro hs
      cases hs
  · rw [if_neg hname, serviceNamed_snapshot]
    constructor
    · intro ⟨d, hd, hs, hdn⟩
      exact ⟨d, (List.mem_filter.mp hd).1, hs, hdn⟩
    · intro ⟨d, hd, hs, hdn⟩
      refine ⟨d, List.mem_filter.mpr ⟨hd, ?_⟩, hs, hdn⟩
      subst hdn
      simp [hname]

theorem Deleted.unlocked (hdel : Deleted config edited names) (h : Unlocked opts baseline (snapshotConfigBaseline config t)) :
    Unlocked opts (baseline.without names) (snapshotConfigBaseline edited u) := by
  refine Unlocked.congr ?_ ?_ (serviceNamed_deleted hdel) (Unlocked.remove h)
  · exact hdel.project
  · exact hdel.component

/-- A file that passed the lock passes it on the trimmed baseline without those services.
    When nothing is left of the baseline, what is left of the file is new. -/
structure Relocks (names : List String) (opts : ConfigLockCompareOptions) (baseline : ConfigLock.ConfigBaseline)
    (edited : LaunchPadConfig) (u : String) : Prop where
  passes : ∀ next, ConfigLock.removeServicesFromBaseline baseline names = some next →
    findConfigLockViolations opts next (snapshotConfigBaseline edited u) = []
  cleared : ConfigLock.removeServicesFromBaseline baseline names = none → opts.allowNewServices = true

theorem Deleted.relocks (hdel : Deleted config edited names)
    (h : findConfigLockViolations opts baseline (snapshotConfigBaseline config t) = []) :
    Relocks names opts baseline edited u where
  passes := by
    intro next hnext
    rw [removeServicesFromBaseline_some hnext]
    exact unlocked_iff.mpr (hdel.unlocked (unlocked_iff.mp h))
  cleared := by
    intro hnone
    have hunlocked := hdel.unlocked (u := u) (unlocked_iff.mp h)
    obtain ⟨d, hd⟩ := List.exists_mem_of_ne_nil _ edited.service_ne
    have hnamed : serviceNamed (snapshotConfigBaseline edited u) d.name ≠ none :=
      serviceNamed_snapshot_ne.mpr ⟨d, hd, rfl⟩
    rcases hunlocked.added with hallow | hadded
    · exact hallow
    · exact absurd (removeServicesFromBaseline_none hnone d.name) (hadded d.name hnamed)

end Baseline

open ConfigLock in
/-- The preview is what is executed, and the file without the removed services passes the
    lock that is left. -/
theorem undeploy_previewed (ownerProject : String) (servicesToRemove : Option (List String))
    (states : List (String × List ServiceConfig)) :
    let plan := planUndeploy ownerProject servicesToRemove states
    Previews ownerProject servicesToRemove states plan ∧
      ∀ (opts : ConfigLockCompareOptions) (baseline : ConfigLock.ConfigBaseline) (config edited : LaunchPadConfig) (t u : String),
        findConfigLockViolations opts baseline (snapshotConfigBaseline config t) = [] →
          Deleted config edited plan.removedServices → Relocks plan.removedServices opts baseline edited u := by
  intro plan
  refine ⟨planUndeploy_previews ownerProject servicesToRemove states, ?_⟩
  intro opts baseline config edited t u hpasses hdel
  exact hdel.relocks hpasses

/-! ## Executed -/

section Executed

variable {owner now : String} {servicesToRemove : Option (List String)} {b : EnvBucket}

theorem servicesAfterRemoval_idem (services : List ServiceConfig) :
    servicesAfterRemoval (servicesAfterRemoval services owner servicesToRemove) owner servicesToRemove =
      servicesAfterRemoval services owner servicesToRemove := by
  rw [servicesAfterRemoval_eq, servicesAfterRemoval_eq, List.filter_filter]
  simp

/-- Every document that parsed still does, and has the services `f` makes of its own. -/
structure Rewritten (f : String → List ServiceConfig → List ServiceConfig) (b b' : EnvBucket) : Prop where
  services : ∀ id, b'.servicesOn id = f id (b.servicesOn id)
  parses : ∀ id, (b'.docOn id).isSome = (b.docOn id).isSome
  named : b.Named → b'.Named

/-- One node's removal, on a node whose document parses. -/
theorem removeFromNode_services (hn : b.Named) {id : String} (hparse : (b.docOn id).isSome) :
    ∃ b', (removeFromNode none owner servicesToRemove now id).exec b = (.ok (), b') ∧
      Rewritten (fun j l => if j = id then servicesAfterRemoval l owner servicesToRemove else l) b b' := by
  obtain ⟨d, hd⟩ := Option.isSome_iff_exists.mp hparse
  obtain ⟨raw, hraw, hdoc⟩ := Option.bind_eq_some_iff.mp hd
  have hservices : b.servicesOn id = d.services := by
    rw [EnvBucket.servicesOn, hd]
    rfl
  unfold removeFromNode
  rw [exec_attempt_bind, exec_get_bind, hraw]
  simp only [decideRemoval, hdoc]
  by_cases hlen : (servicesAfterRemoval d.services owner servicesToRemove).length = d.services.length
  · rw [if_pos hlen]
    refine ⟨b, rfl, fun j => ?_, fun _ => rfl, fun h => h⟩
    by_cases hj : j = id
    · subst hj
      rw [if_pos rfl, hservices]
      exact (List.filter_sublist.eq_of_length hlen).symm
    · rw [if_neg hj]
  · rw [if_neg hlen]
    have hid : id ≠ "" := hn id (by rw [hraw]; exact Option.some_ne_none _)
    have haccepted := (parseDesiredState_eq_some.mp hdoc).2
    simp only [desiredStateSchema, Bool.and_eq_true, List.all_eq_true] at haccepted
    let doc : DesiredState := ⟨protocolVersion, id, now, servicesAfterRemoval d.services owner servicesToRemove⟩
    let b' : EnvBucket := { b with desired := SortedMap.insert id (.json doc) b.desired }
    have hwritten : b'.docOn id = some doc := by
      show (SortedMap.get id (SortedMap.insert id _ b.desired)).bind parseDesiredState = _
      rw [SortedMap.get_insert_self]
      refine parseDesiredState_eq_some.mpr ⟨rfl, ?_⟩
      simp only [desiredStateSchema, Bool.and_eq_true, List.all_eq_true]
      exact ⟨⟨by simp [doc], by simpa using hid⟩, fun c hc => haccepted.2 c (List.mem_filter.mp hc).1⟩
    have hother : ∀ j, j ≠ id → b'.docOn j = b.docOn j := by
      intro j hj
      show (SortedMap.get j (SortedMap.insert id _ b.desired)).bind parseDesiredState = _
      rw [SortedMap.get_insert_ne hj]
      rfl
    refine ⟨b', rfl, fun j => ?_, fun j => ?_, fun _ j hget => ?_⟩
    · by_cases hj : j = id
      · subst hj
        rw [if_pos rfl, hservices, EnvBucket.servicesOn, hwritten]
        rfl
      · rw [if_neg hj, EnvBucket.servicesOn, hother j hj]
        rfl
    · by_cases hj : j = id
      · subst hj
        rw [hwritten, hd]
        rfl
      · rw [hother j hj]
    · by_cases hj : j = id
      · exact hj ▸ hid
      · refine hn j ?_
        have hget' : SortedMap.get j (SortedMap.insert id (Raw.json doc) b.desired) ≠ none := hget
        rwa [SortedMap.get_insert_ne hj] at hget'

/-- The removal over a list of nodes rewrites exactly those. -/
theorem removeFromNodes_rewritten (hn : b.Named) {nodes : List NodeUndeployPlan} (hparse : ∀ n ∈ nodes, (b.docOn n.nodeId).isSome) :
    ∃ b', (removeFromNodes {} owner servicesToRemove now nodes).exec b = (.ok (), b') ∧
      Rewritten (fun j l => if j ∈ nodes.map (·.nodeId) then servicesAfterRemoval l owner servicesToRemove else l) b b' := by
  induction nodes generalizing b with
  | nil => exact ⟨b, rfl, fun j => by simp, fun _ => rfl, fun h => h⟩
  | cons node nodes ih =>
    obtain ⟨b₁, hfirst, hone⟩ := @removeFromNode_services owner now servicesToRemove b hn node.nodeId
      (hparse node (List.mem_cons_self ..))
    obtain ⟨b₂, hrest, hmany⟩ := ih (hone.named hn) fun n hmem => by
      rw [hone.parses]
      exact hparse n (List.mem_cons_of_mem _ hmem)
    refine ⟨b₂, ?_, fun j => ?_, fun j => (hmany.parses j).trans (hone.parses j), fun h => hmany.named (hone.named h)⟩
    · rw [removeFromNodes]
      exact (exec_bind_ok hfirst _).trans hrest
    · rw [hmany.services, hone.services, List.map_cons]
      by_cases hj : j = node.nodeId
      · subst hj
        by_cases hlater : node.nodeId ∈ nodes.map (·.nodeId)
        · simp [hlater, servicesAfterRemoval_idem]
        · simp [hlater]
      · simp [hj]

theorem droppedFrom_nil {services : List ServiceConfig} (h : droppedFrom owner servicesToRemove services = []) :
    servicesAfterRemoval services owner servicesToRemove = services := by
  rw [servicesAfterRemoval_eq, List.filter_eq_self]
  intro s hs
  rw [Bool.not_eq_true', ← Bool.not_eq_true, isRemoved_iff]
  intro hasked
  have hmem := mem_droppedFrom.mpr ⟨hs, hasked⟩
  rw [h] at hmem
  cases hmem

/-- The plan of the stored documents, executed: every node, listed or not, is left with what
    remains after the removal. -/
theorem removeFromNodes_services (hstored : b.Stored) :
    ∃ b', (removeFromNodes {} owner servicesToRemove now (planUndeploy owner servicesToRemove b.states).nodes).exec b = (.ok (), b') ∧
      ∀ id, b'.servicesOn id = servicesAfterRemoval (b.servicesOn id) owner servicesToRemove := by
  have hpreviews := planUndeploy_previews owner servicesToRemove b.states
  have hparse : ∀ n ∈ (planUndeploy owner servicesToRemove b.states).nodes, (b.docOn n.nodeId).isSome := by
    intro n hn
    obtain ⟨⟨id, services⟩, hstate, hid, _⟩ := hpreviews.only n hn
    obtain ⟨d, hd, _⟩ := (docOn_states hstored).mp hstate
    rw [hid, hd]
    rfl
  obtain ⟨b', hrun, hrewritten⟩ := @removeFromNodes_rewritten owner now servicesToRemove b hstored.named _ hparse
  refine ⟨b', hrun, fun id => ?_⟩
  rw [hrewritten.services]
  split
  · rfl
  · rename_i hunlisted
    cases hd : b.docOn id with
    | none =>
      rw [EnvBucket.servicesOn, hd]
      rfl
    | some d =>
      have hservices : b.servicesOn id = d.services := by
        rw [EnvBucket.servicesOn, hd]
        rfl
      rw [hservices]
      refine (droppedFrom_nil (by_contra fun hdropped => hunlisted ?_)).symm
      obtain ⟨n, hn, hid, _⟩ := hpreviews.lists (id, d.services) ((docOn_states hstored).mpr ⟨d, hd, rfl⟩) hdropped
      exact List.mem_map.mpr ⟨n, hn, hid⟩

end Executed

end LaunchPad.Cli
