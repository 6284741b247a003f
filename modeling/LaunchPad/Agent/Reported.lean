/-
  LaunchPad.Agent.Reported — every status a node writes in a run, each beside what docker
  held when it was built, and the documents the agent has planned from.

  `ReportRules` says which documents, commands and writes a class of runs is about; with
  none given, every run of the node is meant.

  Proved:
  - `watch_reports`: where a report comes from. A failed pass; a heartbeat or a backup; or
    the end of a tick.
  - `sourced_upheld`: in every run each container was made from an entry of a document
    the agent planned from.
  - `watchReach_traced`: so were the containers of each report, by the time it was built.
-/
import LaunchPad.Agent.JobStatus

namespace LaunchPad.Agent

open Lib

/-! ## The record of a run -/

/-- A status that was written; the containers docker had when it was built, and the
    documents the agent had planned from by then. -/
structure Report where
  status : NodeStatus
  docker : List Container
  read : List DesiredState
  deriving DecidableEq, Repr

/-- The documents planned from, and the statuses written, both latest first. -/
structure Ledger where
  read : List DesiredState := []
  reports : List Report := []
  deriving DecidableEq, Repr

def Ledger.wrote (g : Ledger) (docker : List Container) (statuses : List NodeStatus) : Ledger :=
  { g with reports := statuses.map (⟨·, docker, g.read⟩) ++ g.reports }

def Ledger.planned (g : Ledger) (d : DesiredState) : Ledger := { g with read := d :: g.read }

/-- The runs that are meant: their documents; what a command leaves behind; and the nodes a
    heartbeat, and the report of a failed pass, may be written of. -/
structure ReportRules where
  doc : DesiredState → Prop := fun _ => True
  command : Op → Node → Prop := fun _ _ => True
  heartbeat : Node → Prop := fun _ => True
  failure : Node → Prop := fun _ => True

section Observer

variable (config : AgentConfig) (agentVersion : String)

/-- A status of that node, with whatever exit codes docker reports. -/
def Built (w : Node) (s : NodeStatus) : Prop := ∃ codes, Written config agentVersion w codes s

def reporting (R : ReportRules) : Observer Ledger where
  start := {}
  env g _ _ g' := g' = g
  failed g w' g' := ∃ statuses, (∀ s ∈ statuses, R.failure w' ∧ FailureWritten config agentVersion s) ∧
    g' = g.wrote w'.docker statuses
  begin g _ i g' := R.doc i.desired ∧ g' = g.planned i.desired
  command g o w _ w' g' := R.command o w' ∧
    ∃ statuses, (∀ s ∈ statuses, o.writesStatus = true ∧ R.heartbeat w ∧ Built config agentVersion w s) ∧
      g' = g.wrote w.docker statuses
  finish g r w' g' := ∃ statuses, (∀ s ∈ statuses, (R.failure w' ∧ FailureWritten config agentVersion s) ∨
      r = .ok () ∧ Built config agentVersion w' s) ∧ g' = g.wrote w'.docker statuses

end Observer

/-! ## Where a report comes from -/

section Reports

variable {nodeId : String} {config : AgentConfig} {agentVersion : String} {R : ReportRules}

theorem mem_wrote {g : Ledger} {docker : List Container} {statuses : List NodeStatus} {report : Report} :
    report ∈ (g.wrote docker statuses).reports ↔
      (report.status ∈ statuses ∧ report.docker = docker ∧ report.read = g.read) ∨ report ∈ g.reports := by
  simp only [Ledger.wrote, List.mem_append, List.mem_map]
  constructor
  · intro h
    rcases h with ⟨s, hs, rfl⟩ | h
    · exact .inl ⟨hs, rfl, rfl⟩
    · exact .inr h
  · intro h
    rcases h with ⟨hs, hd, hr⟩ | h
    · exact .inl ⟨report.status, hs, by rw [← hd, ← hr]⟩
    · exact .inr h

variable (config agentVersion R) in
/-- Where a status comes from that a move from `c` to `c'` writes. -/
inductive Origin (c c' : Phase × Node × Ledger) (s : NodeStatus) : Prop
  | failure : R.failure c'.2.1 → c'.2.1.docker = c.2.1.docker → FailureWritten config agentVersion s → Origin c c' s
  | heartbeat : R.heartbeat c.2.1 → Built config agentVersion c.2.1 s → Origin c c' s
  | tickEnd (res : Except String Unit) : c.1 = .applying (.ret res) → c'.2.1.docker = c.2.1.docker →
      c'.2.1.desired = c.2.1.desired → Built config agentVersion c'.2.1 s → Origin c c' s

variable (config agentVersion R) in
/-- A report that a move from `c` to `c'` adds. -/
structure Adds (c c' : Phase × Node × Ledger) (report : Report) : Prop where
  docker : report.docker = c.2.1.docker
  read : report.read = c.2.2.read
  origin : Origin config agentVersion R c c' report.status

/-- The step lemma of the record. -/
theorem watch_reports {c c' : Phase × Node × Ledger} (h : Watch nodeId (reporting config agentVersion R) c c')
    {report : Report} (hr : report ∈ c'.2.2.reports) :
    report ∈ c.2.2.reports ∨ Adds config agentVersion R c c' report := by
  cases h with
  | boot w g => exact .inl hr
  | crash p w g => exact .inl hr
  | env p c c' h =>
    obtain ⟨w, g⟩ := c
    obtain ⟨w', g'⟩ := c'
    obtain ⟨-, hg⟩ := h
    obtain rfl : g' = g := hg
    exact .inl hr
  | failed w w' g g' hf hg =>
    obtain ⟨statuses, hs, rfl⟩ := hg
    have hdocker : w'.docker = w.docker := by cases hf <;> rfl
    rcases mem_wrote.mp hr with ⟨hm, hd, hread⟩ | hr
    · exact .inr ⟨hd.trans hdocker, hread, .failure (hs _ hm).1 hdocker (hs _ hm).2⟩
    · exact .inl hr
  | begin w g i g' ht hg =>
    obtain ⟨-, rfl⟩ := hg
    exact .inl hr
  | command o k c r c' hs =>
    obtain ⟨w, g⟩ := c
    obtain ⟨w', g'⟩ := c'
    obtain ⟨-, -, statuses, hw, hg⟩ := hs
    obtain rfl : g' = g.wrote w.docker statuses := hg
    rcases mem_wrote.mp hr with ⟨hm, hd, hread⟩ | hr
    · exact .inr ⟨hd, hread, .heartbeat (hw _ hm).2.1 (hw _ hm).2.2⟩
    · exact .inl hr
  | finish res w g r w' g' hs hg =>
    obtain ⟨statuses, hw, rfl⟩ := hg
    have hdocker : w'.docker = w.docker := (sem_same hs rfl).1
    rcases mem_wrote.mp hr with ⟨hm, hd, hread⟩ | hr
    · refine .inr ⟨hd.trans hdocker, hread, ?_⟩
      rcases hw _ hm with ⟨hfail, hf⟩ | ⟨-, hb⟩
      · exact .failure hfail hdocker hf
      · exact .tickEnd res rfl hdocker (sem_routes hs).1 hb
    · exact .inl hr

/-! ## What a container was made from -/

/-- As far as a status tells entries apart. -/
structure MadeFrom (c : ServiceConfig) (x : Container) : Prop where
  project : x.replica.project = c.project
  service : x.replica.service = c.service
  image : x.replica.image = c.image
  stamp : x.replica.configStamp = serviceConfigStamp c

/-- From an entry of one of these documents. -/
def Traced (docs : List DesiredState) (x : Container) : Prop := ∃ d ∈ docs, ∃ c ∈ d.services, MadeFrom c x

theorem MadeFrom.congr {c : ServiceConfig} {x y : Container} (h : MadeFrom c y) (hfix : y.fixed = x.fixed) :
    MadeFrom c x := by
  simp only [Container.fixed, Container.setState, Container.mk.injEq, ManagedReplica.mk.injEq] at hfix
  obtain ⟨⟨-, -, -, -, hproject, hservice, himage, -, -, -, hstamp, -⟩, -⟩ := hfix
  exact ⟨hproject ▸ h.project, hservice ▸ h.service, himage ▸ h.image, hstamp ▸ h.stamp⟩

theorem MadeFrom.key {c : ServiceConfig} {x : Container} (h : MadeFrom c x) : x.replica.key = c.key := by
  rw [ManagedReplica.key, ServiceConfig.key, h.project, h.service]

theorem Traced.congr {docs : List DesiredState} {x y : Container} (h : Traced docs y) (hfix : y.fixed = x.fixed) :
    Traced docs x := by
  obtain ⟨d, hd, c, hc, hm⟩ := h
  exact ⟨d, hd, c, hc, hm.congr hfix⟩

/-- A plan runs containers of its document's entries only. -/
def RunsEntries (d : DesiredState) (o : Op) : Prop :=
  ∀ c index hostPort bind fire job, o = .runContainer c index hostPort bind fire job → c ∈ d.services

theorem issues_config {a : Action} {c : ServiceConfig} {index : Int} {hostPort : Option Int} {bind : String}
    {fire : Option Int} {job : Option String} (h : a.Issues (.runContainer c index hostPort bind fire job)) :
    a.config = some c := by
  cases a with
  | noop c => cases h
  | remove key replicas => obtain ⟨r, -, hr⟩ := h; cases hr
  | scaleDown c retired => obtain ⟨r, -, hr | hr⟩ := h <;> cases hr
  | start c index id => cases h
  | create c index =>
    rcases h with h | h | ⟨hostPort, h⟩
    · cases h
    · cases h
    · cases h; rfl
  | rollout c replicas => cases h; rfl
  | cronRun c fireMs previous =>
    rcases h with h | ⟨r, -, h⟩ | h | h
    · cases h
    · cases h
    · cases h
    · cases h; rfl
  | jobRun c previous =>
    rcases h with h | ⟨r, -, h⟩ | ⟨req, -, h⟩
    · cases h
    · cases h
    · cases h; rfl
  | cronSkip c fireMs => cases h
  | backupRun c fireMs => cases h

/-- The entry an action of the plan is about. -/
theorem plan_config {w : Node} {i : TickInput} {a : Action} {c : ServiceConfig} (ha : a ∈ w.plan i)
    (hc : a.config = some c) : c ∈ i.desired.services := by
  rcases mem_planReconcile.mp ha with ⟨e, he, ha⟩ | ⟨key, replicas, -, -, rfl⟩
  · rcases planService_config ha with hcfg | ⟨rs, rfl⟩
    · rw [hcfg] at hc
      cases hc
      exact he
    · cases hc
  · cases hc

theorem uses_plan (w : Node) (i : TickInput) : Uses (RunsEntries i.desired) (applyActions (w.plan i)).run := by
  refine (uses_applyActions _).mono ?_
  rintro o ⟨a, ha, ho | ⟨c, m, -, rfl⟩⟩
  · rintro c index hostPort bind fire job rfl
    exact plan_config ha (issues_config ho)
  · intro c' index hostPort bind fire job he
    cases he

variable (R) in
/-- Every container was made from an entry of a document planned from, and these documents
    are as the rules say. -/
structure Sourced (c : Node × Ledger) : Prop where
  traced : ∀ x ∈ c.1.docker, Traced c.2.read x
  docs : ∀ d ∈ c.2.read, R.doc d

theorem sourced_fresh (clock : Int) : Sourced R (.fresh clock, {}) :=
  ⟨fun _ hx => absurd hx List.not_mem_nil, fun _ hd => absurd hd List.not_mem_nil⟩

theorem sourced_rely {c c' : Node × Ledger} (h : Sourced R c)
    (hr : (watcher nodeId (reporting config agentVersion R)).rely c c') : Sourced R c' := by
  obtain ⟨w, g⟩ := c
  obtain ⟨w', g'⟩ := c'
  obtain ⟨hr, hg⟩ := hr
  obtain rfl : g' = g := hg
  refine ⟨fun x hx => ?_, h.docs⟩
  obtain ⟨y, hy, hfix⟩ := (rely_shuffle hr).1.origin hx
  exact (h.traced y hy).congr hfix

theorem launched_madeFrom (c : ServiceConfig) (index : Int) (hostPort fire : Option Int) (job : Option String) (id : String)
    (s : ContainerState) : MadeFrom c (launched c index hostPort fire job id s) := ⟨rfl, rfl, rfl, rfl⟩

/-- What a command leaves was there before, or is a new container of an entry. -/
theorem sem_origin {d : DesiredState} {o : Op} {w w' : Node} {r : Resp o} (ho : RunsEntries d o)
    (hs : sem nodeId o w r w') {x : Container} (hx : x ∈ w'.docker) :
    (∃ y ∈ w.docker, y.fixed = x.fixed) ∨ ∃ c ∈ d.services, MadeFrom c x := by
  by_cases hrun : ∀ c i p b f j, o ≠ .runContainer c i p b f j
  · exact .inl ((sem_shuffle hs hrun).1.origin hx)
  · simp only [not_forall, not_not] at hrun
    obtain ⟨c, i, p, b, f, j, rfl⟩ := hrun
    obtain ⟨docker, issued, hl, rfl⟩ := hs
    rcases mem_launch hl hx with hm | ⟨id, s, -, rfl⟩
    · exact .inl ⟨x, hm, rfl⟩
    · exact .inr ⟨c, ho _ _ _ _ _ _ rfl, launched_madeFrom ..⟩

theorem sourced_sem {d : DesiredState} {o : Op} {c c' : Node × Ledger} {r : Resp o} (h : Sourced R c) (hd : d ∈ c.2.read)
    (ho : RunsEntries d o) (hs : (watcher nodeId (reporting config agentVersion R)).sem o c r c') :
    Sourced R c' ∧ c'.2.read = c.2.read := by
  obtain ⟨w, g⟩ := c
  obtain ⟨w', g'⟩ := c'
  obtain ⟨hs, -, statuses, -, hg⟩ := hs
  obtain rfl : g' = g.wrote w.docker statuses := hg
  refine ⟨⟨fun x hx => ?_, h.docs⟩, rfl⟩
  rcases sem_origin ho hs hx with ⟨y, hy, hfix⟩ | ⟨c, hc, hmade⟩
  · exact (h.traced y hy).congr hfix
  · exact ⟨d, hd, c, hc, hmade⟩

theorem sourced_failed {w w' : Node} {g g' : Ledger} (h : Sourced R (w, g)) (hf : Failing w w')
    (hg : (reporting config agentVersion R).failed g w' g') : Sourced R (w', g') := by
  obtain ⟨statuses, -, rfl⟩ := hg
  cases hf <;> exact ⟨h.traced, h.docs⟩

theorem sourced_began {w : Node} {g g' : Ledger} {i : TickInput} (h : Sourced R (w, g))
    (hg : (reporting config agentVersion R).begin g w i g') :
    Sourced R (w.began i, g') ∧ i.desired ∈ g'.read := by
  obtain ⟨hdoc, rfl⟩ := hg
  refine ⟨⟨fun x hx => (h.traced x hx).imp fun d hd => ⟨List.mem_cons_of_mem _ hd.1, hd.2⟩, fun d hd => ?_⟩,
    List.mem_cons_self ..⟩
  rcases List.mem_cons.mp hd with rfl | hd
  · exact hdoc
  · exact h.docs d hd

theorem sourced_finish {w w' : Node} {g g' : Ledger} {r : Except String Unit} (h : Sourced R (w, g))
    (hs : sem nodeId (.refreshRouting []) w r w') (hg : (reporting config agentVersion R).finish g r w' g') :
    Sourced R (w', g') := by
  obtain ⟨statuses, -, rfl⟩ := hg
  refine ⟨fun x hx => ?_, h.docs⟩
  rw [(sem_same hs rfl).1] at hx
  exact h.traced x hx

theorem sourced_upheld : Upheld nodeId (reporting config agentVersion R) (Sourced R) (Sourced R) fun _ => Sourced R where
  fresh clock := sourced_fresh clock
  stable c c' h hr := sourced_rely h hr
  boot w g h := ⟨h.traced, h.docs⟩
  failed w w' g g' h hf hg := sourced_failed h hf hg
  command o c h := h
  planned c h := h
  finish w g r w' g' h hs hg := sourced_finish h hs hg
  begin w g i g' h ht hg := by
    -- the document stays read while its plan is applied
    refine (Sat.ofUses (I := fun c => Sourced R c ∧ i.desired ∈ c.2.read) ?_ ?_ (fun o c _ hc => hc.1) (uses_plan w i)
      (sourced_began h hg)).mono (fun _ _ h => h) fun _ _ h => h.1
    · rintro ⟨w, g⟩ ⟨w', g'⟩ ⟨h, hd⟩ hr
      have hg : g' = g := hr.2
      exact ⟨sourced_rely h hr, hg ▸ hd⟩
    · rintro o ho c r c' ⟨h, hd⟩ hs
      obtain ⟨h', hread⟩ := sourced_sem h hd ho hs
      exact ⟨h', hread ▸ hd⟩

/-- The run lemma. -/
theorem watchReach_traced {c : Phase × Node × Ledger} (h : WatchReach nodeId (reporting config agentVersion R) c) :
    ∀ report ∈ c.2.2.reports, ∀ x ∈ report.docker, Traced report.read x := by
  induction h with
  | fresh clock => exact fun report hr => absurd hr List.not_mem_nil
  | step hreach hs ih =>
    have hbefore := watchReach_invariant sourced_upheld hreach
    intro report hr x hx
    rcases watch_reports hs hr with hold | hadd
    · exact ih report hold x hx
    · rw [hadd.docker] at hx
      rw [hadd.read]
      exact hbefore.traced x hx

end Reports

/-! ## A run -/

/-- A worker with that environment. -/
def worker (env : List (String × String)) : ServiceConfig :=
  { project := "shop", service := "worker", image := "worker:1", cpu := 256, memory := 512, env, ingress := none }

def workerTick (services : List ServiceConfig) : TickInput where
  desired := ⟨protocolVersion, "n1", "2026-01-01T00:00:00.000Z", services⟩
  now _ := 0
  planNow := 0
  saved := true

def workerBegan : Node := (Node.fresh 0).boot.began (workerTick [worker []])

def workerContainer : Container := launched (worker []) 0 none none none "c1" .running

/-- The node once its replica runs. -/
def workerRunning : Node := { workerBegan with docker := [workerContainer], issued := ["c1"] }

/-- A status of such a node. -/
def workerStatus (w : Node) : NodeStatus :=
  buildStatus ⟨"n1", "a1"⟩ "0.1.0" w.desired (w.observed (fun _ => 0) []) w.errors [] noCaddy "2026-01-01T00:00:00.000Z" 0

theorem workerStatus_built (w : Node) : Built ⟨"n1", "a1"⟩ "0.1.0" w (workerStatus w) := ⟨[], fun _ => 0, [], _, 0, rfl⟩

theorem workerTick_timed {w : Node} (services : List ServiceConfig) (h : w.clock = 0) : (workerTick services).Timed w := by
  unfold TickInput.Timed
  rw [h]
  exact ⟨Int.le_refl _, fun _ => ⟨Int.le_refl _, Int.le_refl _⟩⟩

theorem plan_workerBegan : (Node.fresh 0).boot.plan (workerTick [worker []]) = [.create (worker []) 0] := rfl

section Worker

variable {nodeId : String} {R : ReportRules}

/-- The agent comes up, reads the document, and starts the replica. -/
theorem worker_reached (hdoc : R.doc (workerTick [worker []]).desired) (hpull : R.command (.pull "worker:1") workerBegan)
    (hrun : R.command (.runContainer (worker []) 0 none (bindHost (worker [])) none none) workerRunning) :
    WatchReach nodeId (reporting ⟨"n1", "a1"⟩ "0.1.0" R)
      (.applying (.ret (.ok ())), workerRunning, ⟨[(workerTick [worker []]).desired], []⟩) := by
  have hboot : WatchReach nodeId (reporting ⟨"n1", "a1"⟩ "0.1.0" R) (.idle, (Node.fresh 0).boot, {}) :=
    .step (.fresh 0) (.boot _ _)
  have hbegan := hboot.step (.begin _ _ (workerTick [worker []]) _ (workerTick_timed _ rfl) ⟨hdoc, rfl⟩)
  rw [plan_workerBegan] at hbegan
  have hp : (watcher nodeId (reporting ⟨"n1", "a1"⟩ "0.1.0" R)).sem (.pull "worker:1")
      (workerBegan, ⟨[(workerTick [worker []]).desired], []⟩) (.ok ())
      (workerBegan, ⟨[(workerTick [worker []]).desired], []⟩) := ⟨rfl, hpull, [], nofun, rfl⟩
  have hr : (watcher nodeId (reporting ⟨"n1", "a1"⟩ "0.1.0" R)).sem
      (.runContainer (worker []) 0 none (bindHost (worker [])) none none)
      (workerBegan, ⟨[(workerTick [worker []]).desired], []⟩) (.ok ())
      (workerRunning, ⟨[(workerTick [worker []]).desired], []⟩) :=
    ⟨⟨[workerContainer], ["c1"], Launch.running "c1" List.not_mem_nil (fun _ h => by cases h) (fun _ h => by cases h), rfl⟩,
      hrun, [], nofun, rfl⟩
  exact hbegan.runs (Runs.act hp (Runs.act hr (.refl _ _)))

/-- And the tick ends with a status. -/
theorem worker_reported (hdoc : R.doc (workerTick [worker []]).desired) (hpull : R.command (.pull "worker:1") workerBegan)
    (hrun : R.command (.runContainer (worker []) 0 none (bindHost (worker [])) none none) workerRunning) :
    WatchReach nodeId (reporting ⟨"n1", "a1"⟩ "0.1.0" R)
      (.idle, workerRunning, ⟨[(workerTick [worker []]).desired],
        [⟨workerStatus workerRunning, [workerContainer], [(workerTick [worker []]).desired]⟩]⟩) :=
  (worker_reached hdoc hpull hrun).step (.finish _ _ _ (.ok ()) _ _ ⟨rfl, rfl⟩ ⟨[workerStatus workerRunning], fun s hs =>
    .inr ⟨rfl, by
      rw [List.mem_singleton.mp hs]
      exact workerStatus_built _⟩, rfl⟩)

end Worker

end LaunchPad.Agent
