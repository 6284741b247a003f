/-
  LaunchPad.Cli.Admission — whether a node is ever asked for more than it has: the peak of
  its `desired.json`, every service steady and the largest rollout on top, against its
  registered totals less what is reserved (`shared/src/capacity.ts` `checkCapacity`).

  Of the four loops that rewrite the document, `publishDesired` checks what it is about to
  write; the two removals write less than they read. `publishJobRun` adds a service and
  checks nothing.

  Proved:
  - `admission_holds_iff`: over any interleaving, on any nodes of one registry, no document
    is ever above its node exactly when every job's entry found room.
  - `job_overfills_node`: a job that runs beside a service that fills its node.
-/
import LaunchPad.Cli.Publish

namespace LaunchPad.Cli

open Lib

/-- The services peak within the node's allocatable. -/
def Admitted (node : NodeRegistryEntry) (services : List ServiceConfig) : Prop :=
  (checkCapacity {
    totalCpu := node.totalCpu
    totalMemory := node.totalMemory
    reservedCpu := node.reservedCpu
    reservedMemory := node.reservedMemory
    services := demandsOf services }).ok = true

theorem admitted_iff {node : NodeRegistryEntry} {services : List ServiceConfig} :
    Admitted node services ↔
      (cpuTotal (demandsOf services)).peak ≤ node.totalCpu - node.reservedCpu ∧
        (memoryTotal (demandsOf services)).peak ≤ node.totalMemory - node.reservedMemory := checkCapacity_ok

theorem admitted_of_assert {nodeId : String} {node : NodeRegistryEntry} {services : List ServiceConfig}
    (h : assertCapacity nodeId node (demandsOf services) = .ok ()) : Admitted node services := by
  rw [admitted_iff]
  exact assertCapacity_ok.mp h

/-- Fewer services, no higher a peak. -/
theorem Admitted.filter {node : NodeRegistryEntry} {services : List ServiceConfig} (h : Admitted node services)
    (hsized : ∀ c ∈ services, Sized c) (p : ServiceConfig → Bool) : Admitted node (services.filter p) := by
  have hperm : (demandsOf services).Perm (demandsOf (services.filter p) ++ demandsOf (services.filter fun c => !p c)) := by
    unfold demandsOf
    rw [← List.map_append]
    exact (List.filter_append_perm p services).symm.map _
  have hrest : ∀ d ∈ demandsOf (services.filter fun c => !p c), 0 ≤ d.cpuLoad.steady ∧ 0 ≤ d.memoryLoad.steady := by
    intro d hd
    have hpos := demandsOf_nonneg (fun c hc => hsized c (List.mem_filter.mp hc).1) hd
    exact ⟨hpos.1.le, hpos.2.le⟩
  have hle : ∀ load : CapacityServiceDemand → Load Int, (∀ d ∈ demandsOf (services.filter fun c => !p c), 0 ≤ (load d).steady) →
      (Load.total idle ((demandsOf (services.filter p)).map load)).peak ≤ (Load.total idle ((demandsOf services).map load)).peak := by
    intro load hload
    rw [Load.total_perm idle (hperm.map load), List.map_append, Load.total_append]
    refine Load.peak_le_total fun x hx => ?_
    obtain ⟨d, hd, rfl⟩ := List.mem_map.mp hx
    exact hload d hd
  rw [admitted_iff] at h ⊢
  exact ⟨(hle _ fun d hd => (hrest d hd).1).trans h.1, (hle _ fun d hd => (hrest d hd).2).trans h.2⟩

/-- The order of the services says nothing. -/
theorem Admitted.perm {node : NodeRegistryEntry} {services services' : List ServiceConfig} (h : services.Perm services') :
    Admitted node services ↔ Admitted node services' := by
  have hperm : (demandsOf services).Perm (demandsOf services') := h.map _
  have hpeak : ∀ load : CapacityServiceDemand → Load Int,
      Load.total idle ((demandsOf services).map load) = Load.total idle ((demandsOf services').map load) := by
    intro load
    exact Load.total_perm idle (hperm.map load)
  rw [admitted_iff, admitted_iff]
  unfold cpuTotal memoryTotal
  rw [hpeak, hpeak]

/-- The services with an entry in the place of its own service's. -/
def withEntry (incoming : ServiceConfig) (services : List ServiceConfig) : List ServiceConfig :=
  incoming :: services.filter fun s => !(s.project = incoming.project && s.service = incoming.service)

theorem merged_withEntry {services merged : List ServiceConfig} {incoming : ServiceConfig}
    (h : mergeProjectServicesPartial services incoming.project [incoming] = .ok merged) :
    merged.Perm (withEntry incoming services) := by
  have hothers : merged.filter (fun s => !(s.project = incoming.project && s.service = incoming.service)) =
      services.filter fun s => !(s.project = incoming.project && s.service = incoming.service) := by
    apply partial_siblings h
    intro s hp hs
    have hs : s.service = incoming.service := by simpa using hs
    simp [hp, hs]
  have hown : merged.filter (fun s => s.project = incoming.project && s.service = incoming.service) = [incoming] := by
    have hentry := partial_entries h (by simp) (List.mem_singleton_self incoming)
    unfold entriesOf at hentry
    simpa using hentry
  have hsplit := List.filter_append_perm (fun s => s.project = incoming.project && s.service = incoming.service) merged
  rw [hothers, hown] at hsplit
  exact hsplit.symm

/-! ## The clients of a cluster -/

/-- What one client does, on one node of the registry. -/
structure Task (registry : String → NodeRegistryEntry) where
  nodeId : String
  request : Request
  named : nodeId ≠ ""
  wellFormed : request.WellFormed
  /-- A publish checks against the node's entry. -/
  registered : ∀ node project incoming partialDeploy,
    request = .publishDesired node project incoming partialDeploy → node = registry nodeId

variable {registry : String → NodeRegistryEntry}

def Task.client (t : Task registry) : Client := t.request.client t.nodeId

/-- If the task is a job's run: these services and its entry are within the node. -/
def Task.Roomy (t : Task registry) (services : List ServiceConfig) : Prop :=
  ∀ incoming, t.request = .publishJobRun incoming → Admitted (registry t.nodeId) (withEntry incoming services)

section Run

variable {ι : Type} [DecidableEq ι] {E : Etags} {tasks : ι → Task registry} {s : Clients ι}

/-- Each loop's own change of an admitted document, but for a job's. -/
theorem write_admitted (t : Task registry) {nodeId now : String} {existing : Option DesiredRaw} {state : DesiredState}
    (hnode : t.nodeId = nodeId) (hread : stateOrEmpty nodeId existing now = state)
    (hparsed : ∀ raw, existing = some raw → parseDesiredState raw = some state) (hsized : ∀ c ∈ state.services, Sized c)
    (hroom : t.Roomy state.services) (hbefore : Admitted (registry nodeId) state.services) {version : Int}
    {services : List ServiceConfig} (h : t.request.decide nodeId existing now = .write version services) :
    Admitted (registry nodeId) services := by
  have happly := (Request.decide_write hread hparsed h).2
  cases hreq : t.request with
  | publishDesired node project incoming partialDeploy =>
    rw [hreq] at h
    simp only [Request.decide, decidePublish, hread] at h
    split at h
    · cases h
    · split at h
      · cases h
      · rename_i merged _ u hcap
        cases h
        rw [t.registered _ _ _ _ hreq, hnode] at hcap
        exact admitted_of_assert hcap
  | publishRemoval ownerProject removeSet =>
    rw [hreq] at happly
    obtain rfl := (Except.ok.inj happly).symm
    exact hbefore.filter hsized _
  | publishJobRun incoming =>
    rw [hreq] at happly
    rw [← hnode]
    exact (Admitted.perm (merged_withEntry happly)).mpr (hroom incoming hreq)
  | removeJobRun ownerProject jobName runId =>
    rw [hreq] at happly
    obtain rfl := (Except.ok.inj happly).symm
    exact hbefore.filter hsized _

/-- Over every run from an empty cluster: no node's document is ever above the node,
    exactly when no reservation exceeds its node and each job's entry that is written finds
    room. -/
theorem admission_holds_iff (hrun : CrewRun (s3Sem E) ⟨fun i => (tasks i).client, []⟩ s) :
    (∀ newer older, s.world = newer ++ older → ∀ id, Admitted (registry id) (servicesAt id older)) ↔
      (∀ id, Admitted (registry id) []) ∧ ∀ newer w older i, s.world = newer ++ w :: older → w.writer = some i →
        (tasks i).Roomy (servicesAt (tasks i).nodeId older) := by
  let reqs : ι → {r : Request // r.WellFormed} := fun i => ⟨(tasks i).request, (tasks i).wellFormed⟩
  have hrun' : CrewRun (s3Sem E) ⟨fun i => (reqs i).1.client (tasks i).nodeId, []⟩ s := hrun
  have hbefore : ∀ w ∈ ([] : DesiredBucket ι), w.writer = none := fun w hw => by cases hw
  have hread : ∀ i, Readable (tasks i).nodeId ([] : DesiredBucket ι) := fun _ b hb => by cases hb
  have hnode : ∀ i, (tasks i).nodeId ≠ "" := fun i => (tasks i).named
  obtain ⟨done, hdone, hwriters⟩ := run_grows hrun'
  have hworld : s.world = done := hdone.trans (List.append_nil done)
  -- a write, and what it was worked out from
  have hwrite : ∀ newer w older i, s.world = newer ++ w :: older → w.writer = some i →
      Readable (tasks i).nodeId older ∧ w.key = (tasks i).nodeId ∧ ∃ value, w.body = some (.parsed value) ∧
        Overwrites (tasks i).nodeId ((tasks i).request.decide (tasks i).nodeId) older value := by
    intro newer w older i hsplit hw
    have hreadable := crew_readable hnode hbefore hread hrun' hdone hwriters
      (hworld.symm.trans (hsplit.trans (List.append_cons newer w older))) i
    rw [List.append_nil] at hreadable
    exact ⟨hreadable, (crew_overwrites hbefore hrun' i).1 newer w older hsplit hw⟩
  constructor
  · intro h
    refine ⟨fun id => h s.world [] (by simp) id, fun newer w older i hsplit hw incoming hreq => ?_⟩
    obtain ⟨hreadable, hkey, value, hbody, hover⟩ := hwrite newer w older i hsplit hw
    obtain ⟨doc, rfl, hschema, happly⟩ := hover.applies (tasks i).wellFormed (tasks i).named hreadable
    rw [hreq] at happly
    apply (Admitted.perm (merged_withEntry happly)).mp
    have hafter := h newer (w :: older) hsplit (tasks i).nodeId
    rwa [servicesAt_written hschema hkey hbody] at hafter
  · intro hcondition newer older
    obtain ⟨hempty, hroom⟩ := hcondition
    induction older generalizing newer with
    | nil => exact fun _ id => hempty id
    | cons w older ih =>
      intro hsplit id
      have holder := ih (newer ++ [w]) (by rw [hsplit]; simp)
      have hmem : w ∈ done := by rw [← hworld, hsplit]; simp
      obtain ⟨i, hwi⟩ := Option.ne_none_iff_exists'.mp (hwriters w hmem)
      obtain ⟨hreadable, hkey, value, hbody, hover⟩ := hwrite newer w older i hsplit hwi
      by_cases hid : (tasks i).nodeId = id
      · subst hid
        obtain ⟨doc, rfl, hschema, _⟩ := hover.applies (tasks i).wellFormed (tasks i).named hreadable
        rw [servicesAt_written hschema hkey hbody]
        obtain ⟨existing, now, now', version, services, hcur, hd, hvalue⟩ := hover
        obtain ⟨state, hstate, hparsed, _, hservices⟩ := hreadable.state (tasks i).named hcur now
        cases hvalue
        have hsized : ∀ c ∈ state.services, Sized c := by
          intro c hc
          rw [← hservices] at hc
          exact serviceConfigSchema_sized (servicesAt_accepted hc)
        refine write_admitted (tasks i) rfl hstate hparsed hsized ?_ ?_ hd
        · rw [← hservices]
          exact hroom newer w older i hsplit hwi
        · rw [← hservices]
          exact holder _
      · rw [servicesAt_cons_ne (by rwa [hkey])]
        exact holder id

end Run

/-! ## A service that fills its node, and a job beside it -/

/-- Every node of the registry is the small one. -/
def smallNodes : String → NodeRegistryEntry := fun _ => smallNode

def fullEntry : ServiceConfig := { webEntry with cpu := 512 }

def jobEntry : ServiceConfig := { webEntry with service := "migrate", jobRun := some ⟨"run-1", "t"⟩ }

def fillTask : Task smallNodes where
  nodeId := "n1"
  request := .publishDesired smallNode "shop" [fullEntry] false
  named := by decide
  wellFormed := by
    intro s hs
    obtain rfl := List.mem_singleton.mp hs
    decide +kernel
  registered := by
    intro node project incoming partialDeploy h
    cases h
    rfl

def jobTask : Task smallNodes where
  nodeId := "n1"
  request := .publishJobRun jobEntry
  named := by decide
  wellFormed := by
    show serviceConfigSchema jobEntry = true
    decide +kernel
  registered := fun _ _ _ _ h => by cases h

def deployThenJob : Bool → Task smallNodes
  | true => fillTask
  | false => jobTask

def filledRun (schedule : List Bool) : Clients Bool :=
  Crew.play (s3Serve strokes "t") schedule ⟨fun i => (deployThenJob i).client, []⟩

theorem filledRun_run (schedule : List Bool) :
    CrewRun (s3Sem strokes) ⟨fun i => (deployThenJob i).client, []⟩ (filledRun schedule) :=
  play_run (s3Serve_sem strokes "t") schedule _

instance (node : NodeRegistryEntry) (services : List ServiceConfig) : Decidable (Admitted node services) :=
  inferInstanceAs (Decidable (_ = true))

theorem admission_holds_filled : Admitted smallNode (servicesAt "n1" (filledRun [true, true, true, true]).world) := by
  refine (admission_holds_iff (filledRun_run [true, true, true, true])).mpr ⟨fun id => ?_, ?_⟩ [] _ rfl "n1"
  · show Admitted smallNode []
    decide +kernel
  · intro newer w older i hsplit hw incoming hreq
    -- the only write is the deploy's
    have hwriters : (filledRun [true, true, true, true]).world.map (·.writer) = [some true] := by decide +kernel
    rw [hsplit] at hwriters
    cases i with
    | true => cases hreq
    | false =>
      have hmem : some false ∈ (newer ++ w :: older).map (·.writer) := by simp [hw]
      rw [hwriters] at hmem
      exact absurd hmem (by decide)

/-- The job's entry goes on top of a full node. -/
theorem job_overfills_node :
    ∃ (registry : String → NodeRegistryEntry) (tasks : Bool → Task registry) (s : Clients Bool),
      CrewRun (s3Sem strokes) ⟨fun i => (tasks i).client, []⟩ s ∧ (∀ i, s.progs i = .ret (.ok ())) ∧
        (∀ id, Admitted (registry id) []) ∧ ¬ Admitted (registry "n1") (servicesAt "n1" s.world) := by
  refine ⟨smallNodes, deployThenJob, filledRun [true, true, true, true, false, false, false, false],
    filledRun_run _, fun i => Prog.eq_ret ?_, fun id => ?_, by decide +kernel⟩
  · cases i <;> decide +kernel
  · show Admitted smallNode []
    decide +kernel

end LaunchPad.Cli
