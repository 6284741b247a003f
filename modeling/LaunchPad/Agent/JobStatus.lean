/-
  LaunchPad.Agent.JobStatus — what a node's statuses say of one job request over a run. The
  rule: pending, then running, then succeeded or failed, and nothing after that; and a
  success is a container that ran and ended with code 0.

  The runs are those of `Agent.JobLog`, with the statuses written: by a heartbeat, by a
  backup, at the end of a tick, and by a failed tick. A container that stops running is
  given its exit code then; for one that was only created docker reports 0, or the code of
  its failed start.

  As built:
  - `retried_after_failure`: an error of the pull is reported as failed, and the next tick
    pulls again and runs the job.

  Proved, for runs whose statuses are `Settled` (no error of the key, its request's
  container running or exited):
  - `job_status_final`: the states only move on, nothing starts after the end, an end is
    told with its code, and a waiting command is told the truth.

  `JobTaleInv` ties what was written to docker: a reported end has its container, stopped,
  with that code.
-/
import LaunchPad.Agent.JobOnce
import LaunchPad.Cli.JobRun

namespace LaunchPad.Agent

open Lib Cli

/-! ## The record of a run -/

inductive JobEvent where
  | started (s : JobStart)
  /-- A container stopped running, with that code. -/
  | ended (container : String) (code : Int)
  | wrote (status : NodeStatus)
  deriving DecidableEq, Repr

/-- The log of requests, the exit code of each container that stopped running, latest
    first, and what happened, newest first. -/
structure JobTale where
  log : JobLog := {}
  codes : SortedMap String Int := []
  events : List JobEvent := []
  deriving DecidableEq, Repr

/-- The containers that ran in `docker` and do not in `docker'`. -/
def haltedIds (docker docker' : List Container) : List String :=
  (docker'.filter fun x =>
    !x.replica.running && docker.any fun y => hasId x.replica.id y && y.replica.running).map (·.replica.id)

/-- `ExitCode` of `docker inspect`: 0 until the container has ended. -/
def exitCodeOf (codes : SortedMap String Int) (id : String) : Int := (SortedMap.get id codes).getD 0

/-- A container that was never started reads as 0, or as the code of its failed start. -/
def Container.withCode (created : String → Int) (codes : SortedMap String Int) (x : Container) : Container :=
  let code := if x.replica.state = .created then created x.replica.id else exitCodeOf codes x.replica.id
  { x with replica := { x.replica with exitCode := some code } }

/-- What docker reports, exit codes included. -/
def Node.observed (w : Node) (created : String → Int) (codes : SortedMap String Int) : Live :=
  inspectManaged (w.docker.map (Container.withCode created codes))

def JobTale.wrote (g : JobTale) (statuses : List NodeStatus) : JobTale :=
  { g with events := statuses.map .wrote ++ g.events }

def JobTale.asked (g : JobTale) (d : DesiredState) : JobTale := { g with log := g.log.asked d }

/-- Docker moves, and these containers end. -/
def JobTale.moved (g : JobTale) (docker docker' : List Container) (ends : List (String × Int)) : JobTale where
  log := g.log.started docker docker'
  codes := ends ++ g.codes
  events := ends.map (fun e => .ended e.1 e.2) ++ (jobStarts docker docker').map .started ++ g.events

section Observer

variable (config : AgentConfig) (agentVersion : String)

/-- A status of that node. -/
def Written (w : Node) (codes : SortedMap String Int) (s : NodeStatus) : Prop :=
  ∃ created backups now nowMs,
    s = buildStatus config agentVersion w.desired (w.observed created codes) w.errors backups noCaddy now nowMs

/-- A status of a pass that failed. -/
def FailureWritten (s : NodeStatus) : Prop := ∃ message now, s = heartbeatStatus config agentVersion message now

/-- The commands that write statuses while a plan is applied; a backup heartbeats before
    each database. -/
def Op.writesStatus : Op → Bool
  | .heartbeat | .runBackup .. => true
  | _ => false

/-- The runs of `jobRuns`, with the statuses written, each of a node that `cond` allows. -/
def jobReports (cond : Node → Prop) (key : String) : Observer JobTale where
  start := {}
  env g w w' g' := w'.docker.map (·.replica.id) = w.docker.map (·.replica.id) ∧
    ∃ ends, ends.map (·.1) = haltedIds w.docker w'.docker ∧ g' = g.moved w.docker w'.docker ends
  failed g _ g' := ∃ statuses, (∀ s ∈ statuses, FailureWritten config agentVersion s) ∧ g' = g.wrote statuses
  begin g _ i g' := JobDoc key i.desired g.log ∧ g' = g.asked i.desired
  command g o w _ w' g' := ∃ ends statuses, ends.map (·.1) = haltedIds w.docker w'.docker ∧
    (∀ s ∈ statuses, o.writesStatus = true ∧ cond w ∧ Written config agentVersion w g.codes s) ∧
    g' = (g.wrote statuses).moved w.docker w'.docker ends
  finish g r w' g' := ∃ statuses, (∀ s ∈ statuses, FailureWritten config agentVersion s ∨
      r = .ok () ∧ cond w' ∧ Written config agentVersion w' g.codes s) ∧ g' = g.wrote statuses

theorem jobReports_refines (cond : Node → Prop) (key : String) :
    (jobReports config agentVersion cond key).Refines (jobRuns key) (·.log) where
  start := rfl
  env := by
    rintro g w w' g' ⟨hids, ends, -, rfl⟩
    exact ⟨hids, rfl⟩
  failed := by
    rintro g w g' ⟨statuses, -, rfl⟩
    rfl
  begin := by
    rintro g w i g' ⟨hdoc, rfl⟩
    exact ⟨hdoc, rfl⟩
  command := by
    rintro g o w r w' g' ⟨ends, statuses, -, -, rfl⟩
    rfl
  finish := by
    rintro g r w g' ⟨statuses, -, rfl⟩
    rfl

end Observer

/-! ## The rule -/

def JobEvent.report (project service id : String) : JobEvent → Option JobRunStatus
  | .wrote s => jobStatus (some s) project service id
  | _ => none

def JobRunState.rank : JobRunState → Nat
  | .pending => 0
  | .running => 1
  | .succeeded | .failed => 2

def JobRunState.terminal (s : JobRunState) : Bool := s == .succeeded || s == .failed

/-- After an end, nothing of the request starts and its state stays; no state moves back. -/
def Orderly (project service id : String) (newer older : JobEvent) : Prop :=
  ∀ run, older.report project service id = some run →
    (∀ run', newer.report project service id = some run' → run.state.rank ≤ run'.state.rank ∧
      (run.state.terminal = true → run'.state = run.state)) ∧
    (run.state.terminal = true → ∀ container, newer ≠ .started ⟨serviceKey project service, id, container⟩)

/-- The container of the request ran, and ended as the rollup says. -/
def EndedAs (project service id : String) (state : JobRunState) (exitCode : Option Int) (events : List JobEvent) :
    Prop :=
  ∃ container code, .started ⟨serviceKey project service, id, container⟩ ∈ events ∧ .ended container code ∈ events ∧
    exitCode = some code ∧ (state = .succeeded ↔ code = 0)

/-- A reported end is one that happened before. -/
def Truthful (project service id : String) (events : List JobEvent) : Prop :=
  ∀ newer s older run, events = newer ++ .wrote s :: older → jobStatus (some s) project service id = some run →
    run.state.terminal = true → EndedAs project service id run.state run.exitCode older

/-- The condition on a node whose status is written: no error of the key, and the container
    of its request, if there is one, runs or has exited. -/
structure Settled (key : String) (w : Node) : Prop where
  quiet : SortedMap.get key w.errors = none
  stands : ∀ id, (key, id) ∈ jobRequests w.desired → ∀ x ∈ w.docker, x.replica.key = key →
    x.replica.jobRunId = some id → x.replica.state = .running ∨ x.replica.state = .exited

/-! ## What a written status says -/

section Report

variable {config : AgentConfig} {agentVersion : String} {project service id : String} {w : Node}
  {codes : SortedMap String Int} {s : NodeStatus} {run : JobRunStatus}

theorem failure_silent (h : FailureWritten config agentVersion s) : jobStatus (some s) project service id = none := by
  obtain ⟨message, now, rfl⟩ := h
  rfl

/-- A rollup is of an entry of the document, over the containers of its key. -/
theorem written_report (h : Written config agentVersion w codes s) (hrun : jobStatus (some s) project service id = some run) :
    (serviceKey project service, id) ∈ jobRequests w.desired ∧
      ∃ created req now, req.id = id ∧
        run = (jobRunServiceView req (replicasOf (w.observed created codes) (serviceKey project service))
          (SortedMap.get (serviceKey project service) w.errors) now).jobRun := by
  obtain ⟨created, backups, now, nowMs, rfl⟩ := h
  rw [jobStatus_some] at hrun
  obtain ⟨v, hv, hvrun⟩ := Option.bind_eq_some_iff.mp hrun
  have hfound := List.find?_some hv
  obtain ⟨d, hd, rfl⟩ := List.mem_map.mp (List.mem_of_find?_eq_some hv)
  simp only [project_serviceStatus, service_serviceStatus, jobRun_serviceStatus, Bool.and_eq_true, beq_iff_eq,
    Option.any_map, Option.any_eq_true] at hfound hvrun
  obtain ⟨⟨rfl, rfl⟩, req, hreq, hid⟩ := hfound
  obtain ⟨req', hreq', rfl⟩ := Option.map_eq_some_iff.mp hvrun
  rw [hreq] at hreq'
  cases hreq'
  have hview := (jobRunServiceView_spec req (replicasOf (w.observed created codes) d.key)
    (SortedMap.get d.key w.errors) now).1
  have hid : req.id = id := hview.symm.trans hid
  exact ⟨mem_jobRequests.mpr ⟨d, hd, rfl, req, hreq, hid⟩, created, req, now, hid, rfl⟩

/-- The container that a rollup is of. -/
theorem find_observed {created : String → Int} {key : String} {r : ManagedReplica}
    (h : (replicasOf (w.observed created codes) key).find? (matchesRequest id) = some r) :
    ∃ x ∈ w.docker, x.replica.key = key ∧ x.replica.jobRunId = some id ∧ r.running = x.replica.running ∧
      (x.replica.state ≠ .created → r.exitCode = some (exitCodeOf codes x.replica.id)) := by
  have hmem := List.mem_of_find?_eq_some h
  have hid := List.find?_some h
  obtain ⟨⟨y, hy, rfl⟩, -, hkey⟩ := mem_replicasOf.mp hmem
  obtain ⟨x, hx, rfl⟩ := List.mem_map.mp hy
  refine ⟨x, hx, hkey, beq_iff_eq.mp hid, rfl, fun hstate => ?_⟩
  simp only [Container.withCode, if_neg hstate]

theorem find_observed_none {created : String → Int} {key : String}
    (h : (replicasOf (w.observed created codes) key).find? (matchesRequest id) = none) {x : Container} (hx : x ∈ w.docker)
    (hkey : x.replica.key = key) (hlab : labelled x.replica = true) : x.replica.jobRunId ≠ some id := by
  intro hid
  have hmem : (x.withCode created codes).replica ∈ replicasOf (w.observed created codes) key :=
    mem_replicasOf.mpr ⟨⟨_, List.mem_map.mpr ⟨x, hx, rfl⟩, rfl⟩, hlab, hkey⟩
  refine List.find?_eq_none.mp h _ hmem ?_
  exact beq_iff_eq.mpr hid

end Report

/-! ## The invariant -/

/-- Docker beside what was written: a reported run was started; a reported end has its
    container, stopped, with that code; a stopped container has ended. -/
structure JobTaleInv (project service : String) (w : Node) (g : JobTale) : Prop where
  starts : ∀ s, .started s ∈ g.events ↔ s ∈ g.log.starts
  ended : ∀ x ∈ w.docker, x.replica.key = serviceKey project service → x.replica.state ≠ .created →
    x.replica.running = false → .ended x.replica.id (exitCodeOf g.codes x.replica.id) ∈ g.events
  begun : ∀ e ∈ g.events, ∀ id run, e.report project service id = some run → 0 < run.state.rank →
    ∃ i, (⟨serviceKey project service, id, i⟩ : JobStart) ∈ g.log.starts
  final : ∀ e ∈ g.events, ∀ id run, e.report project service id = some run → run.state.terminal = true →
    ∃ i, (⟨serviceKey project service, id, i⟩ : JobStart) ∈ g.log.starts ∧
      (∀ x ∈ w.docker, x.replica.id = i → x.replica.running = false) ∧
      (run.state = .succeeded ↔ exitCodeOf g.codes i = 0)
  orderly : ∀ id, g.events.Pairwise (Orderly project service id)
  truthful : ∀ id, Truthful project service id g.events

section Tale

variable {project service : String} {w w' : Node} {g : JobTale}

theorem mem_haltedIds {docker docker' : List Container} {i : String} :
    i ∈ haltedIds docker docker' ↔ ∃ x ∈ docker', x.replica.id = i ∧ x.replica.running = false ∧
      ∃ y ∈ docker, y.replica.id = i ∧ y.replica.running = true := by
  simp only [haltedIds, List.mem_map, List.mem_filter, Bool.and_eq_true, Bool.not_eq_true', List.any_eq_true, hasId,
    beq_iff_eq]
  constructor
  · rintro ⟨x, ⟨hx, hrun, y, hy, hyx, hyr⟩, rfl⟩
    exact ⟨x, hx, rfl, hrun, y, hy, hyx, hyr⟩
  · rintro ⟨x, hx, rfl, hrun, y, hy, hyx, hyr⟩
    exact ⟨x, ⟨hx, hrun, y, hy, hyx, hyr⟩, rfl⟩

theorem exitCodeOf_append_mem {ends codes : SortedMap String Int} {i : String} (h : i ∈ ends.map (·.1)) :
    (i, exitCodeOf (ends ++ codes) i) ∈ ends := by
  induction ends with
  | nil => cases h
  | cons e ends ih =>
    obtain ⟨k, c⟩ := e
    unfold exitCodeOf at ih ⊢
    rw [List.cons_append, SortedMap.get]
    by_cases hk : k = i
    · subst hk
      rw [if_pos rfl]
      exact List.mem_cons_self ..
    · rw [if_neg hk]
      have hm : i ∈ ends.map (·.1) := by
        rcases List.mem_cons.mp h with he | he
        · exact absurd he.symm hk
        · exact he
      exact List.mem_cons_of_mem _ (ih hm)

theorem exitCodeOf_append_not_mem {ends codes : SortedMap String Int} {i : String} (h : i ∉ ends.map (·.1)) :
    exitCodeOf (ends ++ codes) i = exitCodeOf codes i := by
  induction ends with
  | nil => rfl
  | cons e ends ih =>
    obtain ⟨k, c⟩ := e
    simp only [List.map_cons, List.mem_cons, not_or] at h
    unfold exitCodeOf at ih ⊢
    rw [List.cons_append, SortedMap.get, if_neg (Ne.symm h.1)]
    exact ih h.2

theorem JobRunState.terminal_rank {s : JobRunState} (h : s.terminal = true) : 0 < s.rank := by
  cases s with
  | pending => cases h
  | running => exact Nat.succ_pos _
  | succeeded => exact Nat.succ_pos _
  | failed => exact Nat.succ_pos _

/-- A request of the key has one start. -/
theorem JobInv.unique {key : String} {c : Node × JobLog} (h : JobInv key c) {s t : JobStart} (hs : s ∈ c.2.starts)
    (ht : t ∈ c.2.starts) (hsk : s.key = key) (htk : t.key = key) (heq : s.request = t.request) : s = t := by
  refine List.inj_on_of_nodup_map h.once ?_ ?_ heq
  · exact List.mem_filter.mpr ⟨hs, beq_iff_eq.mpr hsk⟩
  · exact List.mem_filter.mpr ⟨ht, beq_iff_eq.mpr htk⟩

/-- A started request is not started again. -/
theorem JobInv.not_restarted {key : String} {g : JobLog} {docker docker' : List Container}
    (hpost : JobInv key (w', g.started docker docker')) {id i j : String} (hi : (⟨key, id, i⟩ : JobStart) ∈ g.starts) :
    (⟨key, id, j⟩ : JobStart) ∉ jobStarts docker docker' := by
  intro hj
  have hnodup := hpost.once
  unfold JobLog.startsOf JobLog.started at hnodup
  rw [List.filter_append, List.map_append, List.nodup_append] at hnodup
  refine hnodup.2.2 id ?_ id ?_ rfl
  · exact List.mem_map.mpr ⟨_, List.mem_filter.mpr ⟨hj, beq_self_eq_true _⟩, rfl⟩
  · exact List.mem_map.mpr ⟨_, List.mem_filter.mpr ⟨hi, beq_self_eq_true _⟩, rfl⟩

section Moved

variable {docker docker' : List Container} {ends : List (String × Int)} {e : JobEvent}

/-- What docker does is no report. -/
theorem moved_silent (he : e ∈ ends.map (fun e => JobEvent.ended e.1 e.2) ++ (jobStarts docker docker').map .started) (id : String) :
    e.report project service id = none := by
  rcases List.mem_append.mp he with he | he
  · obtain ⟨_, -, rfl⟩ := List.mem_map.mp he
    rfl
  · obtain ⟨_, -, rfl⟩ := List.mem_map.mp he
    rfl

theorem moved_started {s : JobStart} : JobEvent.started s ∈ (g.moved docker docker' ends).events ↔
    s ∈ jobStarts docker docker' ∨ .started s ∈ g.events := by
  simp only [JobTale.moved, List.mem_append, List.mem_map, JobEvent.started.injEq, exists_eq_right]
  constructor
  · intro h
    rcases h with (⟨e, -, he⟩ | hs) | hs
    · cases he
    · exact .inl hs
    · exact .inr hs
  · intro h
    rcases h with hs | hs
    · exact .inl (.inr hs)
    · exact .inr hs

/-- A report of the tale after a move is one of before. -/
theorem moved_report {id : String} {run : JobRunStatus} (he : e ∈ (g.moved docker docker' ends).events)
    (hrun : e.report project service id = some run) : e ∈ g.events := by
  rcases List.mem_append.mp he with he | he
  · rw [moved_silent he id] at hrun
    cases hrun
  · exact he

theorem moved_truthful {id : String} (h : Truthful project service id g.events) :
    Truthful project service id (g.moved docker docker' ends).events := by
  intro newer s older run hsplit hrun hend
  rcases List.append_eq_append_iff.mp hsplit with ⟨l, hl, hg⟩ | ⟨l, hl, hg⟩
  · exact h l s older run hg hrun hend
  · cases l with
    | nil => exact h [] s older run hg.symm hrun hend
    | cons e l =>
      obtain ⟨rfl, hg⟩ := List.cons.inj hg
      have hm : JobEvent.wrote s ∈ ends.map (fun e => JobEvent.ended e.1 e.2) ++ (jobStarts docker docker').map .started := by
        rw [hl]
        simp
      have hnone : (JobEvent.wrote s).report project service id = none := moved_silent hm id
      rw [JobEvent.report, hrun] at hnone
      cases hnone

end Moved

/-- Docker moved: nothing that was reported as ended runs, or is started, again. -/
theorem JobTaleInv.moved (h : JobTaleInv project service w g)
    (hpost : JobInv (serviceKey project service) (w', g.log.started w.docker w'.docker))
    (hhalt : ∀ x ∈ w'.docker, x.replica.key = serviceKey project service → x.replica.state ≠ .created →
      x.replica.running = false → ∃ y ∈ w.docker, y.fixed = x.fixed ∧ y.replica.state ≠ .created)
    {ends : List (String × Int)} (hends : ends.map (·.1) = haltedIds w.docker w'.docker) :
    JobTaleInv project service w' (g.moved w.docker w'.docker ends) where
  starts s := by
    rw [moved_started, h.starts s]
    exact List.mem_append.symm
  ended x hx hk hstate hrun := by
    by_cases hhalted : x.replica.id ∈ haltedIds w.docker w'.docker
    · rw [← hends] at hhalted
      have hm : (x.replica.id, exitCodeOf (ends ++ g.codes) x.replica.id) ∈ ends := exitCodeOf_append_mem hhalted
      exact List.mem_append_left _ (List.mem_append_left _ (List.mem_map.mpr ⟨_, hm, rfl⟩))
    · obtain ⟨y, hy, hfix, hstate'⟩ := hhalt x hx hk hstate hrun
      have hid := fixed_id hfix
      have hyrun : y.replica.running = false := by
        rw [← Bool.not_eq_true]
        exact fun hyr => hhalted (mem_haltedIds.mpr ⟨x, hx, rfl, hrun, y, hy, hid, hyr⟩)
      have hm := h.ended y hy ((fixed_key hfix).trans hk) hstate' hyrun
      rw [hid, ← exitCodeOf_append_not_mem (by rw [hends]; exact hhalted)] at hm
      exact List.mem_append_right _ hm
  begun e he id run hrun hrank := by
    obtain ⟨i, hi⟩ := h.begun e (moved_report he hrun) id run hrun hrank
    exact ⟨i, List.mem_append_right _ hi⟩
  final e he id run hrun hend := by
    obtain ⟨i, hi, hstop, hcode⟩ := h.final e (moved_report he hrun) id run hrun hend
    refine ⟨i, List.mem_append_right _ hi, fun x hx hxi => ?_, ?_⟩
    · rw [← Bool.not_eq_true]
      intro hxr
      obtain ⟨hxk, hxl⟩ := (hpost.named _ (List.mem_append_right _ hi)).2 x hx hxi
      refine hpost.not_restarted hi (j := x.replica.id) (mem_jobStarts.mpr ⟨x, hx, hxr, fun y hy hyx => ?_, hxk, hxl, rfl⟩)
      exact hstop y hy (hyx.trans hxi)
    · have hnot : i ∉ ends.map (·.1) := by
        rw [hends]
        intro hm
        obtain ⟨x, -, -, -, y, hy, hyi, hyr⟩ := mem_haltedIds.mp hm
        rw [hstop y hy hyi] at hyr
        cases hyr
      show _ ↔ exitCodeOf (ends ++ g.codes) i = 0
      rw [exitCodeOf_append_not_mem hnot]
      exact hcode
  orderly id := by
    refine List.pairwise_append.mpr ⟨?_, h.orderly id, fun a ha b hb run hrun => ⟨fun run' hrun' => ?_, fun hend i he => ?_⟩⟩
    · refine List.pairwise_of_forall_mem_list fun a ha b hb run hrun => ?_
      rw [moved_silent hb id] at hrun
      cases hrun
    · rw [moved_silent ha id] at hrun'
      cases hrun'
    · obtain ⟨j, hj, -⟩ := h.final b hb id run hrun hend
      subst he
      rcases List.mem_append.mp ha with ha | ha
      · obtain ⟨_, -, he⟩ := List.mem_map.mp ha
        cases he
      · obtain ⟨s, hs, he⟩ := List.mem_map.mp ha
        cases he
        exact hpost.not_restarted hj hs
  truthful id := moved_truthful (h.truthful id)

/-! ### A status is written -/

/-- The container that a reported state is of. -/
inductive Shown (project service id : String) (w : Node) (g : JobTale) (run : JobRunStatus) : Prop
  | pending : run.state = .pending → (∀ x ∈ w.docker, x.replica.key = serviceKey project service →
      x.replica.jobRunId ≠ some id) → Shown project service id w g run
  | running (x : Container) : x ∈ w.docker → x.replica.running = true → run.state = .running →
      ⟨serviceKey project service, id, x.replica.id⟩ ∈ g.log.starts → Shown project service id w g run
  | ended (x : Container) : x ∈ w.docker → x.replica.running = false → run.state.terminal = true →
      ⟨serviceKey project service, id, x.replica.id⟩ ∈ g.log.starts →
      .ended x.replica.id (exitCodeOf g.codes x.replica.id) ∈ g.events →
      run.exitCode = some (exitCodeOf g.codes x.replica.id) →
      (run.state = .succeeded ↔ exitCodeOf g.codes x.replica.id = 0) → Shown project service id w g run

section Wrote

variable {config : AgentConfig} {agentVersion id : String} {s : NodeStatus} {run : JobRunStatus}

theorem Shown.started (h : Shown project service id w g run) (hrank : 0 < run.state.rank) :
    ∃ i, (⟨serviceKey project service, id, i⟩ : JobStart) ∈ g.log.starts := by
  cases h with
  | pending hs _ =>
    rw [hs] at hrank
    cases hrank
  | running x _ _ _ hstart => exact ⟨_, hstart⟩
  | ended x _ _ _ hstart => exact ⟨_, hstart⟩

/-- A settled node's status says what its docker shows. -/
theorem JobTaleInv.shown (h : JobTaleInv project service w g) (hinv : JobInv (serviceKey project service) (w, g.log))
    (hset : Settled (serviceKey project service) w) (hw : Written config agentVersion w g.codes s)
    (hrun : jobStatus (some s) project service id = some run) : Shown project service id w g run := by
  obtain ⟨hreq, created, req, now, rfl, rfl⟩ := written_report hw hrun
  rw [hset.quiet]
  have hstart : ∀ x ∈ w.docker, x.replica.key = serviceKey project service → x.replica.jobRunId = some req.id →
      x.replica.state ≠ .created → ⟨serviceKey project service, req.id, x.replica.id⟩ ∈ g.log.starts := by
    intro x hx hk hl hstate
    obtain ⟨id', hl', hs⟩ := hinv.ran x hx hk hstate
    rw [hl] at hl'
    cases hl'
    exact hs
  obtain ⟨-, ⟨he, -⟩ | ⟨-, ⟨r, hfind, hr, hstate⟩ | ⟨r, hfind, hr, hcode, hstate⟩ | ⟨hfind, hstate⟩⟩⟩ :=
    jobRunServiceView_spec req (replicasOf (w.observed created g.codes) (serviceKey project service)) none now
  · cases he
  · obtain ⟨x, hx, hk, hl, hxr, -⟩ := find_observed hfind
    rw [hr] at hxr
    refine .running x hx hxr.symm hstate (hstart x hx hk hl fun hc => ?_)
    rw [ManagedReplica.running, hc] at hxr
    cases hxr
  · obtain ⟨x, hx, hk, hl, hxr, hxc⟩ := find_observed hfind
    rw [hr] at hxr
    have hexited : x.replica.state = .exited := by
      rcases hset.stands req.id hreq x hx hk hl with hs | hs
      · rw [ManagedReplica.running, hs] at hxr
        cases hxr
      · exact hs
    have hne : x.replica.state ≠ .created := by
      rw [hexited]
      decide
    rw [hxc hne, Option.getD_some] at hcode hstate
    refine .ended x hx hxr.symm ?_ (hstart x hx hk hl hne) (h.ended x hx hk hne hxr.symm) hcode ?_
    · rw [hstate]
      split <;> rfl
    · rw [hstate]
      split
      · rename_i hzero
        exact ⟨fun _ => hzero, fun _ => rfl⟩
      · rename_i hzero
        refine ⟨fun hs => ?_, fun hs => absurd hs hzero⟩
        cases hs
  · refine .pending hstate fun x hx hk => ?_
    exact find_observed_none hfind hx hk (hinv.jobs x hx hk).1

theorem Shown.endedAs (h : Shown project service id w g run) (hs : ∀ s, .started s ∈ g.events ↔ s ∈ g.log.starts)
    (hend : run.state.terminal = true) : EndedAs project service id run.state run.exitCode g.events := by
  cases h with
  | pending hstate _ =>
    rw [hstate] at hend
    cases hend
  | running x _ _ hstate _ =>
    rw [hstate] at hend
    cases hend
  | ended x _ _ _ hstart hended hcode hzero =>
    exact ⟨x.replica.id, exitCodeOf g.codes x.replica.id, (hs _).mpr hstart, hended, hcode, hzero⟩

theorem JobRunState.eq_of_terminal {s t : JobRunState} (hs : s.terminal = true) (ht : t.terminal = true)
    (h : s = .succeeded ↔ t = .succeeded) : s = t := by
  have hdecide : ∀ s t : JobRunState, s.terminal = true → t.terminal = true →
      (s = .succeeded ↔ t = .succeeded) → s = t := by
    intro s t
    cases s <;> cases t <;> decide
  exact hdecide s t hs ht h

/-- What was reported before stands in the way of an older state. -/
theorem JobTaleInv.shown_orderly (h : JobTaleInv project service w g)
    (hinv : JobInv (serviceKey project service) (w, g.log)) {run' : JobRunStatus}
    (hcur : (serviceKey project service, id) ∈ g.log.current) (ht : Shown project service id w g run')
    {e : JobEvent} (he : e ∈ g.events) (hrun : e.report project service id = some run) :
    run.state.rank ≤ run'.state.rank ∧ (run.state.terminal = true → run'.state = run.state) := by
  have hstood : 0 < run.state.rank → ∃ x ∈ w.docker, x.replica.key = serviceKey project service ∧
      x.replica.jobRunId = some id := by
    intro hrank
    obtain ⟨i, hi⟩ := h.begun e he id run hrun hrank
    obtain ⟨x, hx, hid⟩ := hinv.held _ hi rfl hcur
    obtain ⟨hk, hl⟩ := (hinv.named _ hi).2 x hx hid
    exact ⟨x, hx, hk, hl⟩
  have hsame : run.state.terminal = true → ∃ i, (∀ x ∈ w.docker, x.replica.id = i → x.replica.running = false) ∧
      (run.state = .succeeded ↔ exitCodeOf g.codes i = 0) ∧
      ∀ j, ⟨serviceKey project service, id, j⟩ ∈ g.log.starts → j = i := by
    intro hend
    obtain ⟨i, hi, hstop, hcode⟩ := h.final e he id run hrun hend
    exact ⟨i, hstop, hcode, fun j hj => congrArg JobStart.container (hinv.unique hj hi rfl rfl rfl)⟩
  cases ht with
  | pending hstate hno =>
    have hzero : ¬ 0 < run.state.rank := by
      intro hrank
      obtain ⟨x, hx, hk, hl⟩ := hstood hrank
      exact hno x hx hk hl
    refine ⟨by omega, fun hend => ?_⟩
    exact absurd (JobRunState.terminal_rank hend) hzero
  | running x hx hxr hstate hstart =>
    have hnot : ¬ run.state.terminal = true := by
      intro hend
      obtain ⟨i, hstop, -, honly⟩ := hsame hend
      rw [hstop x hx (honly _ hstart)] at hxr
      cases hxr
    refine ⟨?_, fun hend => absurd hend hnot⟩
    rw [hstate]
    cases hs : run.state with
    | pending => exact Nat.zero_le _
    | running => exact Nat.le_refl _
    | succeeded => exact absurd (by rw [hs]; rfl) hnot
    | failed => exact absurd (by rw [hs]; rfl) hnot
  | ended x hx hxr hend' hstart hended hcode hzero =>
    refine ⟨?_, fun hend => ?_⟩
    · have htop : run'.state.rank = 2 := by
        cases hs : run'.state with
        | pending => rw [hs] at hend'; cases hend'
        | running => rw [hs] at hend'; cases hend'
        | succeeded => rfl
        | failed => rfl
      rw [htop]
      cases run.state with
      | pending => exact Nat.zero_le _
      | running => exact Nat.le_succ _
      | succeeded => exact Nat.le_refl _
      | failed => exact Nat.le_refl _
    · obtain ⟨i, -, hzero', honly⟩ := hsame hend
      refine JobRunState.eq_of_terminal hend' hend (hzero.trans ?_)
      rw [honly _ hstart]
      exact hzero'.symm

/-- A status is written that reports nothing, or what docker shows. -/
theorem JobTaleInv.wroteOne (h : JobTaleInv project service w g)
    (hinv : JobInv (serviceKey project service) (w, g.log))
    (hs : ∀ id run, jobStatus (some s) project service id = some run →
      (serviceKey project service, id) ∈ g.log.current ∧ Shown project service id w g run) :
    JobTaleInv project service w (g.wrote [s]) := by
  refine ⟨fun t => ?_, fun x hx hk hstate hrun => List.mem_cons_of_mem _ (h.ended x hx hk hstate hrun),
    fun e he id run hrun hrank => ?_, fun e he id run hrun hend => ?_, fun id => ?_, fun id => ?_⟩
  · show JobEvent.started t ∈ JobEvent.wrote s :: g.events ↔ _
    rw [List.mem_cons]
    constructor
    · rintro (he | he)
      · cases he
      · exact (h.starts t).mp he
    · exact fun he => .inr ((h.starts t).mpr he)
  · rcases List.mem_cons.mp he with rfl | he
    · exact (hs id run hrun).2.started hrank
    · exact h.begun e he id run hrun hrank
  · rcases List.mem_cons.mp he with rfl | he
    · cases (hs id run hrun).2 with
      | pending hstate _ =>
        rw [hstate] at hend
        cases hend
      | running x _ _ hstate _ =>
        rw [hstate] at hend
        cases hend
      | ended x hx hxr _ hstart _ _ hzero =>
        refine ⟨x.replica.id, hstart, fun y hy hyx => ?_, hzero⟩
        rw [List.inj_on_of_nodup_map hinv.docker.ids hy hx hyx]
        exact hxr
    · exact h.final e he id run hrun hend
  · refine List.pairwise_cons.mpr ⟨fun e he run hrun => ⟨fun run' hrun' => ?_, fun _ i he => by cases he⟩, h.orderly id⟩
    obtain ⟨hcur, ht⟩ := hs id run' hrun'
    exact h.shown_orderly hinv hcur ht he hrun
  · intro newer s' older run hsplit hrun hend
    cases newer with
    | nil =>
      obtain ⟨hs', rfl⟩ := List.cons.inj hsplit
      cases hs'
      exact (hs id run hrun).2.endedAs h.starts hend
    | cons e newer =>
      obtain ⟨-, hsplit⟩ := List.cons.inj hsplit
      exact h.truthful id newer s' older run hsplit hrun hend

theorem Shown.wrote {statuses : List NodeStatus} (h : Shown project service id w g run) :
    Shown project service id w (g.wrote statuses) run := by
  cases h with
  | pending hstate hno => exact .pending hstate hno
  | running x hx hxr hstate hstart => exact .running x hx hxr hstate hstart
  | ended x hx hxr hend hstart hended hcode hzero =>
    exact .ended x hx hxr hend hstart (List.mem_append_right _ hended) hcode hzero

/-- Several statuses of one node, and of failed passes. -/
theorem JobTaleInv.wrote {statuses : List NodeStatus} (h : JobTaleInv project service w g)
    (hinv : JobInv (serviceKey project service) (w, g.log))
    (hs : ∀ s ∈ statuses, FailureWritten config agentVersion s ∨ jobRequests w.desired = g.log.current ∧
      Settled (serviceKey project service) w ∧ Written config agentVersion w g.codes s) :
    JobTaleInv project service w (g.wrote statuses) := by
  induction statuses with
  | nil => exact h
  | cons s statuses ih =>
    have hrest := ih fun s hs' => hs s (List.mem_cons_of_mem _ hs')
    refine hrest.wroteOne hinv fun id run hrun => ?_
    rcases hs s (List.mem_cons_self ..) with hf | ⟨hcur, hset, hw⟩
    · rw [failure_silent hf] at hrun
      cases hrun
    · refine ⟨?_, (h.shown hinv hset hw hrun).wrote⟩
      show _ ∈ g.log.current
      rw [← hcur]
      exact (written_report hw hrun).1

end Wrote

end Tale

/-! ## The runs -/

section Runs

variable {nodeId project service agentVersion : String} {config : AgentConfig}

theorem JobTaleInv.docker {w w' : Node} {g : JobTale} (h : JobTaleInv project service w g)
    (hd : w'.docker = w.docker) : JobTaleInv project service w' g := by
  refine ⟨h.starts, ?_, h.begun, ?_, h.orderly, h.truthful⟩
  · rw [hd]
    exact h.ended
  · rw [hd]
    exact h.final

/-- The step lemma. -/
theorem watch_taleInv {c c' : Phase × Node × JobTale}
    (hreach : WatchReach nodeId (jobReports config agentVersion (Settled (serviceKey project service))
      (serviceKey project service)) c)
    (hs : Watch nodeId (jobReports config agentVersion (Settled (serviceKey project service))
      (serviceKey project service)) c c')
    (h : JobTaleInv project service c.2.1 c.2.2) : JobTaleInv project service c'.2.1 c'.2.2 := by
  have href := jobReports_refines config agentVersion (Settled (serviceKey project service))
    (serviceKey project service)
  have hlog := hreach.map href
  have hstep := hs.map href
  have hpre : JobInv (serviceKey project service) (c.2.1, c.2.2.log) := watchReach_invariant jobRuns_upheld hlog
  have hpost : JobInv (serviceKey project service) (c'.2.1, c'.2.2.log) :=
    watchReach_invariant jobRuns_upheld (hlog.step hstep)
  have hhalt := watch_halted hlog hstep
  have hcur := watch_current hlog
  cases hs with
  | boot w g => exact h.docker rfl
  | crash p w g => exact h
  | env p c c' hr =>
    obtain ⟨-, -, ends, hends, hg⟩ := hr
    dsimp only at hpost
    rw [hg] at hpost ⊢
    exact h.moved hpost hhalt hends
  | failed w w' g g' hf hg =>
    obtain ⟨statuses, hw, rfl⟩ := hg
    have hd : w'.docker = w.docker := by cases hf <;> rfl
    exact (h.docker hd).wrote hpost fun s hs' => .inl (hw s hs')
  | begin w g i g' ht hg =>
    obtain ⟨-, rfl⟩ := hg
    exact ⟨h.starts, h.ended, h.begun, h.final, h.orderly, h.truthful⟩
  | command o k c r c' hr =>
    obtain ⟨-, ends, statuses, hends, hw, hg⟩ := hr
    dsimp only at hpost
    rw [hg] at hpost ⊢
    have hwrote := h.wrote hpre fun s hs' => .inr ⟨hcur _ rfl, (hw s hs').2⟩
    exact hwrote.moved hpost hhalt hends
  | finish res w g r w' g' hr hg =>
    obtain ⟨statuses, hw, rfl⟩ := hg
    have hdesired : jobRequests w'.desired = g.log.current := by
      rw [(sem_routes hr).1]
      exact hcur _ rfl
    exact (h.docker (sem_same hr rfl).1).wrote hpost fun s hs' => (hw s hs').imp_right fun h => ⟨hdesired, h.2⟩

theorem jobTaleInv_start (clock : Int) : JobTaleInv project service (Node.fresh clock) {} where
  starts s := by simp
  ended x hx := absurd hx List.not_mem_nil
  begun e he := absurd he List.not_mem_nil
  final e he := absurd he List.not_mem_nil
  orderly id := List.Pairwise.nil
  truthful id newer s older run hsplit := by
    have hne := List.append_ne_nil_of_right_ne_nil newer (List.cons_ne_nil (JobEvent.wrote s) older)
    exact absurd hsplit.symm hne

/-- The run lemma. -/
theorem watchReach_taleInv {c : Phase × Node × JobTale}
    (h : WatchReach nodeId (jobReports config agentVersion (Settled (serviceKey project service))
      (serviceKey project service)) c) : JobTaleInv project service c.2.1 c.2.2 := by
  induction h with
  | fresh clock =>
    exact jobTaleInv_start clock
  | step hr hs ih => exact watch_taleInv hr hs ih

/-- The statuses of a run. -/
def JobEvent.status : JobEvent → Option NodeStatus
  | .wrote s => some s
  | _ => none

/-- A wait that reads statuses of the run tells the truth. -/
theorem waitForJob_truthful {events : List JobEvent} {id : String} (h : Truthful project service id events)
    (polls : Nat) :
    Sat polling (fun _ _ => True)
      (onResult (fun outcome _ => ∃ state, (outcome.ok = true ↔ state = .succeeded) ∧
        EndedAs project service id state outcome.exitCode events) fun _ _ => True)
      (waitForJob nodeId project service id polls) (events.filterMap JobEvent.status) := by
  refine (waitForJob_told nodeId project service id polls _).mono (fun _ _ _ => trivial) fun res w hres => ?_
  cases res with
  | error e => trivial
  | ok outcome =>
    obtain ⟨s, hs, run, hrun, hout⟩ := hres
    obtain ⟨e, he, hes⟩ := List.mem_filterMap.mp hs
    cases e with
    | started _ => cases hes
    | ended _ _ => cases hes
    | wrote s' =>
      cases hes
      obtain ⟨newer, older, hsplit⟩ := List.append_of_mem he
      have hend : run.state.terminal = true ∧ outcome.exitCode = run.exitCode ∧
          (outcome.ok = true ↔ run.state = .succeeded) := by
        unfold outcomeOf at hout
        split at hout
        · rename_i hstate
          cases hout
          exact ⟨by rw [hstate]; rfl, rfl, fun _ => hstate, fun _ => rfl⟩
        · rename_i hstate
          cases hout
          exact ⟨by rw [hstate]; rfl, rfl, nofun, fun hs => by rw [hstate] at hs; cases hs⟩
        · cases hout
      obtain ⟨i, code, hstart, hended, hcode, hzero⟩ := h newer s older run hsplit hrun hend.1
      have hold : ∀ e ∈ older, e ∈ events := by
        intro e he
        rw [hsplit]
        exact List.mem_append_right _ (List.mem_cons_of_mem _ he)
      exact ⟨run.state, hend.2.2, i, code, hold _ hstart, hold _ hended, hend.2.1.trans hcode, hzero⟩

/-- For a key that is only ever published as a job, over every run in which only the agent
    removes containers, no request of the key comes back once withdrawn, and each status is
    written of a settled node: the reported state of a request only moves on, stays once it
    is terminal, and nothing of the request starts after that; a reported end is how its
    container ended; and a waiting command that reads these statuses is told so. -/
theorem job_status_final (nodeId project service agentVersion : String) (config : AgentConfig)
    (c : Phase × Node × JobTale)
    (h : WatchReach nodeId (jobReports config agentVersion (Settled (serviceKey project service))
      (serviceKey project service)) c) (id : String) :
    c.2.2.events.Pairwise (Orderly project service id) ∧
    Truthful project service id c.2.2.events ∧
    ∀ polls, Sat polling (fun _ _ => True)
      (onResult (fun outcome _ => ∃ state, (outcome.ok = true ↔ state = .succeeded) ∧
        EndedAs project service id state outcome.exitCode c.2.2.events) fun _ _ => True)
      (waitForJob nodeId project service id polls) (c.2.2.events.filterMap JobEvent.status) := by
  have hinv := watchReach_taleInv h
  exact ⟨hinv.orderly id, hinv.truthful id, fun polls => waitForJob_truthful (hinv.truthful id) polls⟩

end Runs

/-! ### Two runs -/

def shopReports (cond : Node → Prop) : Observer JobTale := jobReports ⟨"n1", "a1"⟩ "0.1.0" cond "shop/migrate"

/-- The status of such a node. -/
def shopStatus (w : Node) (codes : SortedMap String Int) : NodeStatus :=
  buildStatus ⟨"n1", "a1"⟩ "0.1.0" w.desired (w.observed (fun _ => 0) codes) w.errors [] noCaddy
    "2026-01-01T00:00:00.000Z" 0

theorem shopStatus_written (w : Node) (codes : SortedMap String Int) :
    Written ⟨"n1", "a1"⟩ "0.1.0" w codes (shopStatus w codes) := ⟨fun _ => 0, [], _, 0, rfl⟩

theorem migrate_timed {w : Node} (h : w.clock = 0) : (migrateTick "r1").Timed w := by
  unfold TickInput.Timed
  rw [h]
  exact ⟨Int.le_refl _, fun _ => ⟨Int.le_refl _, Int.le_refl _⟩⟩

theorem migrate_doc {g : JobLog} (h : ∀ id, ("shop/migrate", id) ∈ g.requested → ("shop/migrate", id) ∈ g.current) :
    JobDoc "shop/migrate" (migrateTick "r1").desired g := by
  refine ⟨by decide, fun c hc hk => ?_, fun id _ hid => h id hid⟩
  obtain rfl := List.mem_singleton.mp hc
  exact ⟨by decide, by decide, _, rfl, by decide⟩

/-- The requests of that document, and nothing else. -/
def migrateLog (starts : List JobStart) : JobLog := ⟨[("shop/migrate", "r1")], [("shop/migrate", "r1")], starts⟩

theorem migrate_began (cond : Node → Prop) : WatchReach "n1" (shopReports cond)
    (.applying (applyActions ((Node.fresh 0).boot.plan (migrateTick "r1"))).run, (Node.fresh 0).boot.began (migrateTick "r1"),
      ⟨migrateLog [], [], []⟩) := by
  have hboot : WatchReach "n1" (shopReports cond) (.idle, (Node.fresh 0).boot, {}) := .step (.fresh 0) (.boot _ _)
  exact .step hboot (.begin _ _ _ _ (migrate_timed rfl) ⟨migrate_doc fun id h => (List.not_mem_nil h).elim, rfl⟩)

/-- The node after a pull that failed. -/
def migrateFailed : Node :=
  { (Node.fresh 0).boot.began (migrateTick "r1") with errors := [("shop/migrate", "pull failed")] }

/-- The first tick's pull fails, and its status says so; the second one pulls and runs. -/
theorem retried_after_failure : ∃ c, WatchReach "n1" (shopReports fun _ => True) c ∧
    ¬ c.2.2.events.Pairwise (Orderly "shop" "migrate" "r1") := by
  have hpull : (watcher "n1" (shopReports fun _ => True)).sem (.pull "migrate:1")
      ((Node.fresh 0).boot.began (migrateTick "r1"), ⟨migrateLog [], [], []⟩) (.error "pull failed")
      ((Node.fresh 0).boot.began (migrateTick "r1"), ⟨migrateLog [], [], []⟩) :=
    ⟨rfl, [], [], rfl, nofun, rfl⟩
  have herror : (watcher "n1" (shopReports fun _ => True)).sem (.setError "shop/migrate" "pull failed")
      ((Node.fresh 0).boot.began (migrateTick "r1"), ⟨migrateLog [], [], []⟩) ()
      (migrateFailed, ⟨migrateLog [], [], []⟩) := ⟨rfl, [], [], rfl, nofun, rfl⟩
  have hfirst := (migrate_began fun _ => True).runs (Runs.act hpull (Runs.act herror (.refl _ _)))
  have hfailed : WatchReach "n1" (shopReports fun _ => True)
      (.idle, migrateFailed, ⟨migrateLog [], [], [.wrote (shopStatus migrateFailed [])]⟩) :=
    .step hfirst (.finish _ _ _ (.ok ()) migrateFailed _ ⟨rfl, rfl⟩
      ⟨[shopStatus migrateFailed []], fun s hs => .inr ⟨rfl, trivial, by
        rw [List.mem_singleton.mp hs]
        exact shopStatus_written _ _⟩, rfl⟩)
  have hagain : WatchReach "n1" (shopReports fun _ => True)
      (.applying (applyActions ((Node.fresh 0).boot.plan (migrateTick "r1"))).run,
        (Node.fresh 0).boot.began (migrateTick "r1"),
        (⟨migrateLog [], [], [.wrote (shopStatus migrateFailed [])]⟩ : JobTale).asked (migrateTick "r1").desired) :=
    .step hfailed (.begin _ _ _ _ (migrate_timed rfl) ⟨migrate_doc fun id h => h, rfl⟩)
  refine ⟨_, hagain.runs (runs_migrate _ "n1" ⟨[], [], rfl, nofun, rfl⟩ ⟨[], [], rfl, nofun, rfl⟩), fun h => ?_⟩
  have horder : Orderly "shop" "migrate" "r1" (.started ⟨"shop/migrate", "r1", "c1"⟩)
      (.wrote (shopStatus migrateFailed [])) := List.rel_of_pairwise_cons h (List.mem_singleton.mpr rfl)
  have hrun : JobEvent.report "shop" "migrate" "r1" (.wrote (shopStatus migrateFailed [])) =
      some ⟨"r1", "2026-01-01T00:00:00.000Z", none, some "2026-01-01T00:00:00.000Z", none, .failed, "pull failed"⟩ := by
    decide +kernel
  exact (horder _ hrun).2 rfl "c1" rfl

/-- The container of the run has ended. -/
def migrateEnded : Node := { migrateRunning with docker := [migrateContainer "r1" .exited] }

theorem liveNow_ended : inspectManaged migrateEnded.docker =
    [("shop/migrate", [(migrateContainer "r1" .exited).replica])] :=
  inspectManaged_singleton (by decide)

theorem plan_ended : migrateEnded.plan (migrateTick "r1") = [.noop (migrateJob "r1")] := by
  unfold Node.plan Node.liveNow
  rw [liveNow_ended]
  decide +kernel

def migrateStart : JobStart := ⟨"shop/migrate", "r1", "c1"⟩

/-- The guarantee at a run: the job runs, exits with code 0, and the next tick says so. -/
theorem job_status_final_migrate : ∃ c, WatchReach "n1" (shopReports (Settled "shop/migrate")) c ∧
    (∃ run, c.2.2.events.head?.bind (·.report "shop" "migrate" "r1") = some run ∧ run.state = .succeeded) ∧
    c.2.2.events.Pairwise (Orderly "shop" "migrate" "r1") := by
  have hruns : Runs (watcher "n1" (shopReports (Settled "shop/migrate")))
      (applyActions ((Node.fresh 0).boot.plan (migrateTick "r1"))).run
      ((Node.fresh 0).boot.began (migrateTick "r1"), ⟨migrateLog [], [], []⟩) (.ret (.ok ()))
      (migrateRunning, ⟨migrateLog [migrateStart], [], [.started migrateStart]⟩) :=
    runs_migrate _ "n1" ⟨[], [], rfl, nofun, rfl⟩ ⟨[], [], rfl, nofun, rfl⟩
  have hidle : WatchReach "n1" (shopReports (Settled "shop/migrate"))
      (.idle, migrateRunning, ⟨migrateLog [migrateStart], [], [.started migrateStart]⟩) :=
    .step ((migrate_began _).runs hruns) (.finish _ _ _ (.ok ()) _ _ ⟨rfl, rfl⟩ ⟨[], nofun, rfl⟩)
  have hexit : Rely migrateRunning migrateEnded :=
    .exit migrateRunning (migrateContainer "r1" .running) .exited (List.mem_singleton.mpr rfl) nofun nofun
  have hended : WatchReach "n1" (shopReports (Settled "shop/migrate"))
      (.idle, migrateEnded,
        ⟨migrateLog [migrateStart], [("c1", 0)], [.ended "c1" 0, .started migrateStart]⟩) :=
    .step hidle (.env _ (migrateRunning, _) (migrateEnded, _) ⟨hexit, rfl, [("c1", 0)], rfl, rfl⟩)
  have hagain : WatchReach "n1" (shopReports (Settled "shop/migrate"))
      (.applying (applyActions (migrateEnded.plan (migrateTick "r1"))).run, migrateEnded.began (migrateTick "r1"),
        (⟨migrateLog [migrateStart], [("c1", 0)], [.ended "c1" 0, .started migrateStart]⟩ : JobTale).asked
          (migrateTick "r1").desired) :=
    .step hended (.begin _ _ _ _ (migrate_timed rfl) ⟨migrate_doc fun id h => h, rfl⟩)
  rw [plan_ended] at hagain
  have hsettled : Settled "shop/migrate" (migrateEnded.began (migrateTick "r1")) := by
    refine ⟨rfl, fun id hid x hx hk hl => .inr ?_⟩
    rw [List.mem_singleton.mp hx]
    rfl
  have hlast := hagain.step (.finish (.ok ()) _ _ (.ok ()) _ _ ⟨rfl, rfl⟩
    ⟨[shopStatus (migrateEnded.began (migrateTick "r1")) [("c1", 0)]], fun s hs => .inr ⟨rfl, hsettled, by
      rw [List.mem_singleton.mp hs]
      exact shopStatus_written _ _⟩, rfl⟩)
  refine ⟨_, hlast, ?_, (job_status_final "n1" "shop" "migrate" "0.1.0" ⟨"n1", "a1"⟩ _ hlast "r1").1⟩
  have hobserved : (migrateEnded.began (migrateTick "r1")).observed (fun _ => 0) [("c1", 0)] =
      [("shop/migrate", [{ (migrateContainer "r1" .exited).replica with exitCode := some 0 }])] :=
    inspectManaged_singleton (by decide)
  have hstatus : jobStatus (some (shopStatus (migrateEnded.began (migrateTick "r1")) [("c1", 0)])) "shop" "migrate" "r1" =
      some ⟨"r1", "2026-01-01T00:00:00.000Z", some "2026-01-01T00:00:00.000Z", some "2026-01-01T00:00:00.000Z",
        some 0, .succeeded, "job run succeeded"⟩ := by
    unfold shopStatus
    rw [hobserved]
    decide +kernel
  exact ⟨_, hstatus, rfl⟩

end LaunchPad.Agent
