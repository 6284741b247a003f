/-
  LaunchPad.Agent.Drained — what a drain that is reported says of the node. The rule: when
  `drained` accepts a status, no container of the removed services ran when it was built;
  when `victimDrained` does, none of any service.

  A status lists the services of the document the agent holds, or, after a pass that failed,
  none. So it hides what runs of a service that is no longer listed, until a tick has
  removed it, and everything else after a failure:
  - `failed_tick_looks_drained`: a tick fails while a service runs.

  Proved, for documents of named services:
  - `drain_sound`: the rule, in every run in which `docker rm -f` removes what it is asked
    to, a heartbeat is written only while all that runs is listed, and a failed pass is
    reported only while nothing runs.

  `Sweeping` is the invariant of a tick: what is of no listed service is still to be removed.
-/
import LaunchPad.Agent.Reported
import LaunchPad.Cli.Drain
import LaunchPad.Shared.MergeLaws

namespace LaunchPad.Agent

open Lib Cli Cli.Drain

/-! ## The condition -/

def Wanted (d : DesiredState) (x : Container) : Prop :=
  ∃ c ∈ d.services, c.project = x.replica.project ∧ c.service = x.replica.service

def AllWanted (w : Node) : Prop := ∀ x ∈ w.docker, x.replica.running = true → Wanted w.desired x

def NothingRuns (w : Node) : Prop := ∀ x ∈ w.docker, x.replica.running = false

/-- Names as a deploy checks them: not empty, and the project without a slash. -/
structure Named (c : ServiceConfig) : Prop where
  project : c.project ≠ ""
  service : c.service ≠ ""
  slashFree : '/' ∉ c.project.toList

/-- The condition on a run. -/
def drainRules : ReportRules where
  doc d := ∀ c ∈ d.services, Named c
  command o w' := ∀ id, o = .removeContainer id → ∀ x ∈ w'.docker, x.replica.id ≠ id
  heartbeat := AllWanted
  failure := NothingRuns

/-! ## One tick -/

/-- The containers that the rest of a plan removes. -/
def toRemove (l : List Action) : List String :=
  l.flatMap fun a => match a with
    | .remove _ replicas => replicas.map (·.id)
    | _ => []

section Tick

variable {nodeId : String} {config : AgentConfig} {agentVersion : String}

theorem Sourced.named {c : Node × Ledger} (h : Sourced drainRules c) {x : Container} (hx : x ∈ c.1.docker) :
    ∃ e, Named e ∧ MadeFrom e x := by
  obtain ⟨d, hd, e, he, hm⟩ := h.traced x hx
  exact ⟨e, h.docs d hd e he, hm⟩

theorem Named.labelled {e : ServiceConfig} {x : Container} (h : Named e) (hm : MadeFrom e x) : labelled x.replica = true := by
  unfold Agent.labelled
  rw [hm.project, hm.service]
  simp [h.project, h.service]

/-- A container with the key of an entry is one of its service. -/
theorem wanted_of_key {c : Node × Ledger} (h : Sourced drainRules c) {d : DesiredState} (hd : d ∈ c.2.read) {x : Container}
    (hx : x ∈ c.1.docker) (hkey : x.replica.key ∈ d.services.map (·.key)) : Wanted d x := by
  obtain ⟨e, he, hm⟩ := h.named hx
  obtain ⟨s, hs, hsk⟩ := List.mem_map.mp hkey
  have hid := key_inj (h.docs d hd s hs).slashFree he.slashFree (hsk.trans hm.key)
  rw [serviceId, serviceId, Prod.mk.injEq] at hid
  exact ⟨s, hs, hid.1.trans hm.project.symm, hid.2.trans hm.service.symm⟩

/-- What is of no listed service the rest of the plan removes, or `ids` has it. -/
structure Sweeping (d : DesiredState) (plan l : List Action) (ids : List String) (c : Node × Ledger) : Prop where
  sourced : Sourced drainRules c
  read : d ∈ c.2.read
  desired : c.1.desired = d
  planned : ∀ a ∈ l, a ∈ plan
  left : ∀ x ∈ c.1.docker, x.replica.key ∈ d.services.map (·.key) ∨ x.replica.id ∈ ids ∨ x.replica.id ∈ toRemove l

variable {d : DesiredState} {plan l : List Action} {ids : List String}

theorem sweeping_rely {c c' : Node × Ledger} (h : Sweeping d plan l ids c)
    (hr : (watcher nodeId (reporting config agentVersion drainRules)).rely c c') : Sweeping d plan l ids c' := by
  refine ⟨sourced_rely h.sourced hr, ?_, (rely_routes hr.1).1.trans h.desired, h.planned, fun x hx => ?_⟩
  · rw [show c'.2 = c.2 from hr.2]
    exact h.read
  · obtain ⟨y, hy, hfix⟩ := (rely_shuffle hr.1).1.origin hx
    rw [← fixed_key hfix, ← (Container.fixed_congr hfix).1]
    exact h.left y hy

theorem sweeping_stable :
    (watcher nodeId (reporting config agentVersion drainRules)).Stable (Sweeping d plan l ids) := fun _ _ => sweeping_rely

/-- A command of the plan only takes away, or adds what is listed. -/
theorem sweeping_sem {o : Op} {c c' : Node × Ledger} {r : Resp o} (h : Sweeping d plan l ids c) (ho : RunsEntries d o)
    (hs : (watcher nodeId (reporting config agentVersion drainRules)).sem o c r c') : Sweeping d plan l ids c' := by
  obtain ⟨hsourced, hread⟩ := sourced_sem h.sourced h.read ho hs
  refine ⟨hsourced, hread ▸ h.read, (sem_routes hs.1).1.trans h.desired, h.planned, fun x hx => ?_⟩
  rcases sem_origin ho hs.1 hx with ⟨y, hy, hfix⟩ | ⟨e, he, hm⟩
  · rw [← fixed_key hfix, ← (Container.fixed_congr hfix).1]
    exact h.left y hy
  · exact .inl (hm.key ▸ List.mem_map_of_mem he)

theorem runsEntries_setError (key message : String) : RunsEntries d (.setError key message) :=
  fun _ _ _ _ _ _ h => nomatch h

/-- An action with its error recorded ends well. -/
theorem sweeping_isolated {a : Action} {c : Node × Ledger}
    (h : Sat (watcher nodeId (reporting config agentVersion drainRules)) (fun _ => Sourced drainRules)
      (onResult (fun _ => Sweeping d plan l ids) fun _ => Sweeping d plan l ids) (applyOne a).run c) :
    Sat (watcher nodeId (reporting config agentVersion drainRules)) (fun _ => Sourced drainRules)
      (onResult (fun _ => Sweeping d plan l ids) fun _ _ => False) (applyIsolated a).run c := by
  refine Sat.tryCatch h (fun _ => sweeping_stable) fun e c hc => ?_
  split
  · refine Sat.act sweeping_stable hc (fun _ h => h.sourced) fun c r c' hc hs => ?_
    exact Sat.ret sweeping_stable (sweeping_sem hc (runsEntries_setError _ _) hs) fun _ h => h
  · exact Sat.ret sweeping_stable hc fun _ h => h

theorem toRemove_cons_remove (key : String) (replicas : List ManagedReplica) (l : List Action) :
    toRemove (.remove key replicas :: l) = replicas.map (·.id) ++ toRemove l := rfl

/-- What `docker rm -f` was asked to remove is gone. -/
theorem sweeping_removed {id : String} {c c' : Node × Ledger} {r : Except String Unit}
    (h : Sweeping d plan l (id :: ids) c)
    (hs : (watcher nodeId (reporting config agentVersion drainRules)).sem (.removeContainer id) c r c') :
    r = .ok () ∧ Sweeping d plan l ids c' := by
  have hkept := sweeping_sem h (fun _ _ _ _ _ _ he => by cases he) hs
  refine ⟨hs.1.1, hkept.sourced, hkept.read, hkept.desired, hkept.planned, fun x hx => ?_⟩
  rcases hkept.left x hx with hkey | hid | hl
  · exact .inl hkey
  · rcases List.mem_cons.mp hid with he | hid
    · exact absurd he (hs.2.1 id rfl x hx)
    · exact .inr (.inl hid)
  · exact .inr (.inr hl)

theorem sweeping_remove {key : String} {replicas : List ManagedReplica} {c : Node × Ledger}
    (h : Sweeping d plan (.remove key replicas :: l) [] c) :
    Sat (watcher nodeId (reporting config agentVersion drainRules)) (fun _ => Sourced drainRules)
      (onResult (fun _ => Sweeping d plan l []) fun _ => Sweeping d plan l []) (applyOne (.remove key replicas)).run c := by
  have hstart : Sweeping d plan l (replicas.map (·.id)) c := by
    refine ⟨h.sourced, h.read, h.desired, fun a ha => h.planned a (List.mem_cons_of_mem _ ha), fun x hx => ?_⟩
    rcases h.left x hx with hkey | hid | hl
    · exact .inl hkey
    · cases hid
    · rw [toRemove_cons_remove, List.mem_append] at hl
      exact .inr hl
  refine (Sat.forM_rest (I := fun rs => Sweeping d plan l (rs.map (·.id))) (E := fun _ _ => False) sweeping_stable
    (fun _ _ _ h => h.elim) (fun r rs c hc => ?_) hstart).mono (fun _ _ h => h) fun res c hres => ?_
  · refine Sat.act sweeping_stable hc (fun _ h => h.sourced) fun c res c' hc hs => ?_
    obtain ⟨rfl, hc'⟩ := sweeping_removed hc hs
    exact Sat.ret sweeping_stable hc' fun _ h => h
  · cases res with
    | ok u => exact hres
    | error e => exact hres.elim

/-- One action of the plan. -/
theorem sweeping_action {w : Node} {i : TickInput} {a : Action} {c : Node × Ledger}
    (h : Sweeping i.desired (w.plan i) (a :: l) [] c) :
    Sat (watcher nodeId (reporting config agentVersion drainRules)) (fun _ => Sourced drainRules)
      (onResult (fun _ => Sweeping i.desired (w.plan i) l []) fun _ _ => False) (applyIsolated a).run c := by
  by_cases hremove : ∃ key replicas, a = .remove key replicas
  · obtain ⟨key, replicas, rfl⟩ := hremove
    exact sweeping_isolated (sweeping_remove h)
  · have hsame : toRemove (a :: l) = toRemove l := by
      cases a with
      | remove key replicas => exact absurd ⟨key, replicas, rfl⟩ hremove
      | _ => rfl
    have hrest : Sweeping i.desired (w.plan i) l [] c :=
      ⟨h.sourced, h.read, h.desired, fun a ha => h.planned a (List.mem_cons_of_mem _ ha), hsame ▸ h.left⟩
    refine sweeping_isolated ((Sat.ofUses sweeping_stable (fun o ho c r c' hc hs => sweeping_sem hc ?_ hs)
      (fun _ _ _ h => h.sourced) (uses_applyOne a) hrest).mono (fun _ _ h => h) fun res c hc => ?_)
    · rintro e index hostPort bind fire job rfl
      exact plan_config (h.planned a (List.mem_cons_self ..)) (issues_config ho)
    · cases res <;> exact hc

/-- Before the plan is applied, it removes all that is of no listed service. -/
theorem sweeping_began {w : Node} {g g' : Ledger} {i : TickInput} (h : Sourced drainRules (w, g))
    (hg : (reporting config agentVersion drainRules).begin g w i g') :
    Sweeping i.desired (w.plan i) (w.plan i) [] (w.began i, g') := by
  obtain ⟨hsourced, hread⟩ := sourced_began h hg
  refine ⟨hsourced, hread, rfl, fun _ h => h, fun x hx => ?_⟩
  by_cases hkey : x.replica.key ∈ i.desired.services.map (·.key)
  · exact .inl hkey
  · obtain ⟨e, he, hm⟩ := h.named hx
    have hlive : x.replica ∈ replicasOf w.liveNow x.replica.key :=
      mem_replicasOf.mpr ⟨⟨x, hx, rfl⟩, he.labelled hm, rfl⟩
    unfold replicasOf at hlive
    cases hget : SortedMap.get x.replica.key w.liveNow with
    | none =>
      rw [hget] at hlive
      cases hlive
    | some replicas =>
      rw [hget, Option.getD_some] at hlive
      refine .inr (.inr (List.mem_flatMap.mpr ⟨.remove x.replica.key replicas, ?_, List.mem_map_of_mem hlive⟩))
      refine mem_planReconcile.mpr (.inr ⟨_, _, SortedMap.get_mem hget, fun c hc he => ?_, rfl⟩)
      exact hkey (he ▸ List.mem_map_of_mem hc)

/-- At the end of a tick only listed services have containers. -/
def Swept (c : Node × Ledger) : Prop :=
  Sourced drainRules c ∧ ∀ x ∈ c.1.docker, Wanted c.1.desired x

theorem swept_upheld : Upheld nodeId (reporting config agentVersion drainRules) (Sourced drainRules) Swept
    fun _ => Sourced drainRules where
  fresh clock := sourced_fresh clock
  stable c c' h hr := sourced_rely h hr
  boot w g h := ⟨h.traced, h.docs⟩
  failed w w' g g' h hf hg := sourced_failed h hf hg
  command o c h := h
  planned c h := h.1
  finish w g r w' g' h hs hg := sourced_finish h.1 hs hg
  begin w g i g' h ht hg := by
    refine (Sat.forM_rest (I := fun l => Sweeping i.desired (w.plan i) l []) sweeping_stable (fun _ _ _ h => h.elim)
      (fun a l c hc => sweeping_action hc) (sweeping_began h hg)).mono (fun _ _ h => h) fun res c hres => ?_
    cases res with
    | error e => exact hres.elim
    | ok u =>
      refine ⟨hres.sourced, fun x hx => ?_⟩
      rw [hres.desired]
      refine wanted_of_key hres.sourced hres.read hx ?_
      rcases hres.left x hx with hkey | hid | hid
      · exact hkey
      · cases hid
      · cases hid

end Tick

/-! ## What a status shows -/

section Shown

variable {nodeId : String} {config : AgentConfig} {agentVersion : String} {w : Node} {s : NodeStatus} {x : Container}

/-- A status of a node lists what runs of a listed service. -/
theorem built_shows (h : Built config agentVersion w s) (hx : x ∈ w.docker) (hlab : labelled x.replica = true)
    (hrun : x.replica.running = true) (hlisted : Wanted w.desired x) :
    ∃ svc ∈ s.services, svc.project = x.replica.project ∧ svc.service = x.replica.service ∧
      0 < svc.runningReplicas ∧ ∃ r ∈ svc.replicas, r.state = .running := by
  obtain ⟨codes, created, backups, now, nowMs, rfl⟩ := h
  obtain ⟨d, hd, hproject, hservice⟩ := hlisted
  have hkey : x.replica.key = d.key := by rw [ManagedReplica.key, ServiceConfig.key, hproject, hservice]
  have hmem : replicaStatus (x.withCode created codes).replica ∈
      (replicasOf (w.observed created codes) d.key).map replicaStatus :=
    List.mem_map_of_mem (mem_replicasOf.mpr ⟨⟨_, List.mem_map.mpr ⟨x, hx, rfl⟩, rfl⟩, hlab, hkey⟩)
  have hstate : (replicaStatus (x.withCode created codes).replica).state = .running := running_replicaStatus.mpr hrun
  refine ⟨_, List.mem_map.mpr ⟨d, hd, rfl⟩, ?_, ?_, ?_, _, ?_, hstate⟩
  · rw [project_serviceStatus, hproject]
  · rw [service_serviceStatus, hservice]
  · rw [runningReplicas_serviceStatus]
    have hrunning : replicaStatus (x.withCode created codes).replica ∈
        ((replicasOf (w.observed created codes) d.key).map replicaStatus).filter (·.state == .running) :=
      List.mem_filter.mpr ⟨hmem, beq_iff_eq.mpr hstate⟩
    have hpos := List.length_pos_of_mem hrunning
    omega
  · rw [replicas_serviceStatus]
    exact hmem

/-- What a report that obeys the rules hides does not run. -/
def Frank (config : AgentConfig) (agentVersion : String) (report : Report) : Prop :=
  (FailureWritten config agentVersion report.status ∧ ∀ x ∈ report.docker, x.replica.running = false) ∨
    ∃ w, Built config agentVersion w report.status ∧ report.docker = w.docker ∧ AllWanted w ∧
      ∀ x ∈ w.docker, labelled x.replica = true

theorem Sourced.labelled {c : Node × Ledger} (h : Sourced drainRules c) : ∀ x ∈ c.1.docker, Agent.labelled x.replica = true := by
  intro x hx
  obtain ⟨e, he, hm⟩ := h.named hx
  exact he.labelled hm

/-- The run lemma. -/
theorem watchReach_frank {c : Phase × Node × Ledger}
    (h : WatchReach nodeId (reporting config agentVersion drainRules) c) :
    ∀ report ∈ c.2.2.reports, Frank config agentVersion report := by
  induction h with
  | fresh clock => exact fun report hr => absurd hr List.not_mem_nil
  | @step c₀ _ hreach hs ih =>
    have hsourced := watchReach_invariant sourced_upheld hreach
    have hstands := watchReach_watching swept_upheld hreach
    intro report hr
    rcases watch_reports hs hr with hold | hadd
    · exact ih report hold
    · cases hadd.origin with
      | failure hrule hdocker hf => exact .inl ⟨hf, by rw [hadd.docker, ← hdocker]; exact hrule⟩
      | heartbeat hrule hb => exact .inr ⟨_, hb, hadd.docker, hrule, hsourced.labelled⟩
      | tickEnd res hphase hdocker hdesired hb =>
        refine .inr ⟨_, hb, hadd.docker.trans hdocker.symm, fun x hx _ => ?_, ?_⟩
        · rw [hdocker] at hx
          rw [hdesired]
          obtain ⟨p, c₀⟩ := c₀
          obtain rfl : p = .applying (.ret res) := hphase
          exact hstands.planned.2 x hx
        · rw [hdocker]
          exact hsourced.labelled

theorem Frank.drained {report : Report} (h : Frank config agentVersion report) {ownerProject : String}
    {removeSet : Option (List String)} (hd : drained (some report.status) ownerProject removeSet = true) :
    ∀ x ∈ report.docker, removed ownerProject removeSet x.replica.project x.replica.service = true →
      x.replica.running = false := by
  intro x hx hrem
  rcases h with ⟨-, hnone⟩ | ⟨w, hb, hdocker, hlisted, hlab⟩
  · exact hnone x hx
  · rw [hdocker] at hx
    rw [← Bool.not_eq_true]
    intro hrun
    obtain ⟨svc, hsvc, hp, hs, hpos, -⟩ := built_shows hb hx (hlab x hx) hrun (hlisted x hx hrun)
    obtain ⟨_, he, hstopped⟩ := drained_iff.mp hd
    cases he
    have := (hstopped svc hsvc (by rw [hp, hs]; exact hrem)).1
    omega

theorem Frank.victimDrained {report : Report} (h : Frank config agentVersion report)
    (hd : victimDrained (some report.status) = true) : ∀ x ∈ report.docker, x.replica.running = false := by
  intro x hx
  rcases h with ⟨-, hnone⟩ | ⟨w, hb, hdocker, hlisted, hlab⟩
  · exact hnone x hx
  · rw [hdocker] at hx
    rw [← Bool.not_eq_true]
    intro hrun
    obtain ⟨svc, hsvc, -, -, hpos, -⟩ := built_shows hb hx (hlab x hx) hrun (hlisted x hx hrun)
    obtain ⟨_, he, hstopped⟩ := victimDrained_iff.mp hd
    cases he
    have := hstopped svc hsvc
    omega

end Shown

/-! ## The runs -/

/-- No container of the removed services runs. -/
def Stopped (ownerProject : String) (removeSet : Option (List String)) (docker : List Container) : Prop :=
  ∀ x ∈ docker, removed ownerProject removeSet x.replica.project x.replica.service = true → x.replica.running = false

/-- Over all runs of the nodes that meet the condition, whatever statuses of theirs the polls
    read: when `waitForDrain` reports the nodes as drained, it has read a status of each at
    whose building no removed service ran there; when `waitForVictimDrained` confirms, one
    at whose building nothing ran. -/
theorem drain_sound (agentVersion : String) (config : String → AgentConfig) (c : String → Phase × Node × Ledger)
    (h : ∀ nodeId, WatchReach nodeId (reporting (config nodeId) agentVersion drainRules) (c nodeId))
    (dateParse : String → Option Int) (nowMs : Int) (polls : Nat) :
    (∀ (nodeIds : List String) (ownerProject : String) (removeSet : Option (List String)),
      Sat statusReads (fun _ _ => True)
        (onResult (fun (result : DrainResult) _ => result.drained = true → ∀ nodeId ∈ nodeIds,
          ∃ s ∈ (c nodeId).2.2.reports.map (·.status), drained (some s) ownerProject removeSet = true ∧
            ∀ report ∈ (c nodeId).2.2.reports, report.status = s → Stopped ownerProject removeSet report.docker)
          fun _ _ => True)
        (waitForDrain dateParse nodeIds ownerProject removeSet nowMs polls).run
        fun nodeId => (c nodeId).2.2.reports.map (·.status)) ∧
    ∀ nodeId, Sat statusReads (fun _ _ => True)
      (onResult (fun confirmed _ => confirmed = true →
        ∃ s ∈ (c nodeId).2.2.reports.map (·.status), victimDrained (some s) = true ∧
          ∀ report ∈ (c nodeId).2.2.reports, report.status = s → ∀ x ∈ report.docker, x.replica.running = false)
        fun _ _ => True)
      (waitForVictimDrained nodeId polls).run fun nodeId => (c nodeId).2.2.reports.map (·.status) := by
  constructor
  · intro nodeIds ownerProject removeSet
    refine (waitForDrain_shown dateParse nodeIds ownerProject removeSet nowMs polls).mono (fun _ _ _ => trivial)
      fun res w hres => ?_
    cases res with
    | error e => trivial
    | ok result =>
      intro hdrained nodeId hid
      obtain ⟨s, hs, hd⟩ := hres hdrained nodeId hid
      refine ⟨s, hs, hd, fun report hreport he => ?_⟩
      subst he
      exact (watchReach_frank (h nodeId) report hreport).drained hd
  · intro nodeId
    refine (waitForVictimDrained_shown nodeId polls).mono (fun _ _ _ => trivial) fun res w hres => ?_
    cases res with
    | error e => trivial
    | ok confirmed =>
      intro hconfirmed
      obtain ⟨s, hs, hd⟩ := hres hconfirmed
      refine ⟨s, hs, hd, fun report hreport he => ?_⟩
      subst he
      exact (watchReach_frank (h nodeId) report hreport).victimDrained hd

/-! ### Two runs -/

/-- The status of the pass that fails after the replica has started. -/
def failedStatus : NodeStatus := heartbeatStatus ⟨"n1", "a1"⟩ "0.1.0" "no such bucket" "2026-01-01T00:01:00.000Z"

/-- The replica runs, a tick cannot read its document, and both waits take its status. -/
theorem failed_tick_looks_drained : ∃ c, WatchReach "n1" (reporting ⟨"n1", "a1"⟩ "0.1.0" {}) c ∧
    ∃ report ∈ c.2.2.reports,
      Runs statusReads (waitForDrain (fun _ => none) ["n1"] "shop" none 0 0).run (fun _ => [report.status])
        (.ret (.ok ⟨true, []⟩)) (fun _ => [report.status]) ∧
      Runs statusReads (waitForVictimDrained "n1" 0).run (fun _ => [report.status]) (.ret (.ok true))
        (fun _ => [report.status]) ∧
      ¬ Stopped "shop" none report.docker := by
  have hrunning : WatchReach "n1" (reporting ⟨"n1", "a1"⟩ "0.1.0" {}) _ := worker_reported trivial trivial trivial
  have hfailed := hrunning.step (.failed _ _ _ _ .noDesired ⟨[failedStatus], fun s hs => ⟨trivial, by
    rw [List.mem_singleton.mp hs]
    exact ⟨_, _, rfl⟩⟩, rfl⟩)
  have hread : statusReads.sem (.getStatus "n1") (fun _ => [failedStatus]) (.ok (some failedStatus))
      fun _ => [failedStatus] := ⟨rfl, fun s hs => by cases hs; exact List.mem_singleton.mpr rfl⟩
  refine ⟨_, hfailed, ⟨failedStatus, [workerContainer], _⟩, List.mem_cons_self .., Runs.act hread (.refl _ _),
    Runs.act hread (.refl _ _), fun h => ?_⟩
  exact absurd (h workerContainer (List.mem_singleton.mpr rfl) (by decide)) (by decide)

/-- The node once the service is no longer listed and its replica is removed. -/
def workerGone : Node := { workerRunning.began (workerTick []) with docker := [] }

theorem plan_workerGone : workerRunning.plan (workerTick []) = [.remove "shop/worker" [workerContainer.replica]] := by
  have hlive : workerRunning.liveNow = [("shop/worker", [workerContainer.replica])] := inspectManaged_singleton (by decide)
  unfold Node.plan
  rw [hlive]
  rfl

theorem named_worker : Named (worker []) := ⟨by decide, by decide, by decide⟩

/-- The first tick starts the replica, the second one removes it. -/
def sweptReports : List Report :=
  [⟨workerStatus workerGone, [], [(workerTick []).desired, (workerTick [worker []]).desired]⟩,
    ⟨workerStatus workerRunning, [workerContainer], [(workerTick [worker []]).desired]⟩]

theorem worker_swept (nodeId : String) : WatchReach nodeId (reporting ⟨"n1", "a1"⟩ "0.1.0" drainRules)
    (.idle, workerGone, ⟨[(workerTick []).desired, (workerTick [worker []]).desired], sweptReports⟩) := by
  have hrunning : WatchReach nodeId (reporting ⟨"n1", "a1"⟩ "0.1.0" drainRules) _ :=
    worker_reported (fun e he => by rw [List.mem_singleton.mp he]; exact named_worker) nofun nofun
  have hbegan := hrunning.step (.begin _ _ (workerTick []) _ (workerTick_timed _ rfl) ⟨fun _ he => absurd he List.not_mem_nil, rfl⟩)
  rw [plan_workerGone] at hbegan
  have hremove : (watcher nodeId (reporting ⟨"n1", "a1"⟩ "0.1.0" drainRules)).sem (.removeContainer "c1")
      (workerRunning.began (workerTick []), ⟨[(workerTick []).desired, (workerTick [worker []]).desired],
        [⟨workerStatus workerRunning, [workerContainer], [(workerTick [worker []]).desired]⟩]⟩) (.ok ())
      (workerGone, ⟨[(workerTick []).desired, (workerTick [worker []]).desired],
        [⟨workerStatus workerRunning, [workerContainer], [(workerTick [worker []]).desired]⟩]⟩) :=
    ⟨⟨rfl, .inr rfl⟩, fun _ _ _ hx => absurd hx List.not_mem_nil, [], nofun, rfl⟩
  have hswept := hbegan.runs (Runs.act hremove (.refl _ _))
  have hpublish : sem nodeId (.refreshRouting []) workerGone (.ok ()) workerGone := ⟨rfl, rfl⟩
  refine hswept.step (.finish (.ok ()) workerGone _ (.ok ()) workerGone _ hpublish ⟨[workerStatus workerGone], ?_, rfl⟩)
  intro s hs
  obtain rfl := List.mem_singleton.mp hs
  exact .inr ⟨rfl, workerStatus_built _⟩

/-- The guarantee at that run. -/
theorem drain_sound_worker : ∃ c, WatchReach "n1" (reporting ⟨"n1", "a1"⟩ "0.1.0" drainRules) c ∧
    ∃ s ∈ c.2.2.reports.map (·.status), drained (some s) "shop" none = true ∧
      ∀ report ∈ c.2.2.reports, report.status = s → Stopped "shop" none report.docker := by
  have hread : statusReads.sem (.getStatus "n1") (fun _ => sweptReports.map (·.status))
      (.ok (some (workerStatus workerGone))) fun _ => sweptReports.map (·.status) :=
    ⟨rfl, fun s hs => by cases hs; exact List.mem_cons_self ..⟩
  have hwait : Runs statusReads (waitForDrain (fun _ => none) ["n1"] "shop" none 0 0).run
      (fun _ => sweptReports.map (·.status)) (.ret (.ok ⟨true, []⟩)) _ := Runs.act hread (.refl _ _)
  have hsat := (drain_sound "0.1.0" (fun _ => ⟨"n1", "a1"⟩) _ worker_swept (fun _ => none) 0 0).1 ["n1"] "shop" none
  exact ⟨_, worker_swept "n1", (hsat.runs hwait).atRet rfl "n1" (List.mem_singleton.mpr rfl)⟩

end LaunchPad.Agent
