/-
  LaunchPad.Agent.Converged — what a deploy's watch may conclude from a node's statuses. The
  rule: a success means that the node's agent had read the published entry (its image and
  its config stamp) and ran the wanted number of replicas of it when the status was built.

  A replica is healthy in a status when it runs; `build_status` probes nothing.

  As built the watch tells entries apart by their image, and by the containers that ran
  before a `--restart`:
  - `config_deploy_looks_converged`: the environment of a service changes, its image does
    not. The status from before the publish converges at once.

  Proved:
  - `deploy_watch_sound`: the rule, in every run in which each container of the service on
    that image under another config stamp is a previous one, for an entry that is no cron
    service. One that is expects no replicas, and so takes any status that lists it.
-/
import LaunchPad.Agent.Reported
import LaunchPad.Agent.Stamp
import LaunchPad.Cli.Watch

namespace LaunchPad.Agent

open Lib Cli

/-! ## What is watched for -/

/-- What a deploy waits for once it has published the entry to the node. -/
def watchTarget (nodeId : String) (e : ServiceConfig) (previous : List String) : WatchTarget where
  nodeId
  project := e.project
  service := e.service
  image := e.image
  -- A cron service idles with no replica running.
  expectedReplicas := if e.cron.isSome then 0 else e.replicas
  previousContainerIds := previous

/-- A running container of the service on that image, under whatever config. -/
def Container.runsImage (e : ServiceConfig) (x : Container) : Bool :=
  labelled x.replica && x.replica.key == e.key && x.replica.image == e.image && x.replica.running

theorem runsImage_iff {e : ServiceConfig} {x : Container} : x.runsImage e = true ↔
    labelled x.replica = true ∧ x.replica.key = e.key ∧ x.replica.image = e.image ∧ x.replica.running = true := by
  simp only [Container.runsImage, Bool.and_eq_true, beq_iff_eq, and_assoc]

/-- A running replica of that entry. -/
def Container.runs (e : ServiceConfig) (x : Container) : Bool :=
  x.runsImage e && x.replica.configStamp == serviceConfigStamp e

/-- A container of the service on that image under another config. -/
structure Elder (e : ServiceConfig) (x : Container) : Prop where
  key : x.replica.key = e.key
  image : x.replica.image = e.image
  stamp : x.replica.configStamp ≠ serviceConfigStamp e

def Marked (e : ServiceConfig) (previous : List String) (docker : List Container) : Prop :=
  ∀ x ∈ docker, Elder e x → x.replica.id ∈ previous ∧ x.replica.id ≠ ""

/-- The condition on a run: whatever a command leaves, the elders are previous containers. -/
def deployRules (e : ServiceConfig) (previous : List String) : ReportRules where
  command _ w' := Marked e previous w'.docker

/-- The entry was read by then, and that many replicas of it ran, which the status lists as
    healthy. -/
structure Converged (target : WatchTarget) (e : ServiceConfig) (report : Report) : Prop where
  read : ∃ d ∈ report.read, ∃ c ∈ d.services, c.key = e.key ∧ c.image = e.image ∧
    serviceConfigStamp c = serviceConfigStamp e
  running : e.replicas ≤ (report.docker.filter (·.runs e)).length
  healthy : ∃ svc, target.reported report.status = some svc ∧ e.replicas ≤ (svc.replicas.filter fun r =>
    r.healthy && report.docker.any fun x => x.runs e && r.containerId == some x.replica.id).length

/-! ## What a status lists of a service -/

section Status

variable {config : AgentConfig} {agentVersion : String} {w : Node} {s : NodeStatus} {target : WatchTarget}
  {svc : ServiceStatus}

/-- The containers of the service's key. -/
theorem built_reported (h : Built config agentVersion w s) (hsvc : target.reported s = some svc) :
    ∃ created codes, svc.replicas =
      (replicasOf (w.observed created codes) (serviceKey target.project target.service)).map replicaStatus := by
  obtain ⟨codes, created, backups, now, nowMs, rfl⟩ := h
  obtain ⟨d, -, rfl⟩ := List.mem_map.mp (List.mem_of_find?_eq_some hsvc)
  have hfound := List.find?_some hsvc
  rw [Bool.and_eq_true, beq_iff_eq, beq_iff_eq, project_serviceStatus, service_serviceStatus] at hfound
  refine ⟨created, codes, ?_⟩
  rw [replicas_serviceStatus, ← hfound.1, ← hfound.2]
  rfl

/-- What a status shows running on the image are the containers that run it. -/
theorem mem_onImage {e : ServiceConfig} (h : Built config agentVersion w s) (hsvc : target.reported s = some svc)
    (hkey : serviceKey target.project target.service = e.key) (himage : target.image = e.image) {r : ReplicaStatus}
    (hr : r ∈ target.onImage svc) :
    r.healthy = true ∧ ∃ x ∈ w.docker, x.runsImage e = true ∧ r.containerId = some x.replica.id := by
  obtain ⟨created, codes, hreplicas⟩ := built_reported h hsvc
  obtain ⟨hr, hon⟩ := List.mem_filter.mp hr
  rw [hreplicas] at hr
  obtain ⟨m, hm, rfl⟩ := List.mem_map.mp hr
  obtain ⟨⟨y, hy, rfl⟩, hlab, hxk⟩ := mem_replicasOf.mp hm
  obtain ⟨x, hx, rfl⟩ := List.mem_map.mp hy
  rw [Bool.and_eq_true, beq_iff_eq, beq_iff_eq] at hon
  refine ⟨beq_iff_eq.mpr hon.2, x, hx, ?_, rfl⟩
  exact runsImage_iff.mpr ⟨hlab, hxk.trans hkey, hon.1.trans himage, running_replicaStatus.mp hon.2⟩

theorem onImage_of {e : ServiceConfig} (h : Built config agentVersion w s) (hsvc : target.reported s = some svc)
    (hkey : serviceKey target.project target.service = e.key) (himage : target.image = e.image) {x : Container}
    (hx : x ∈ w.docker) (hrun : x.runsImage e = true) : ∃ r ∈ target.onImage svc, r.containerId = some x.replica.id := by
  obtain ⟨created, codes, hreplicas⟩ := built_reported h hsvc
  obtain ⟨hlab, hxk, himg, hrun⟩ := runsImage_iff.mp hrun
  have hmem : (x.withCode created codes).replica ∈
      replicasOf (w.observed created codes) (serviceKey target.project target.service) :=
    mem_replicasOf.mpr ⟨⟨_, List.mem_map.mpr ⟨x, hx, rfl⟩, rfl⟩, hlab, hxk.trans hkey.symm⟩
  refine ⟨replicaStatus (x.withCode created codes).replica, List.mem_filter.mpr ⟨?_, ?_⟩, rfl⟩
  · rw [hreplicas]
    exact List.mem_map_of_mem hmem
  · rw [Bool.and_eq_true, beq_iff_eq, beq_iff_eq]
    exact ⟨himg.trans himage.symm, running_replicaStatus.mpr hrun⟩

/-- There are no more of them than such containers. -/
theorem onImage_le {e : ServiceConfig} (h : Built config agentVersion w s) (hsvc : target.reported s = some svc)
    (hkey : serviceKey target.project target.service = e.key) (himage : target.image = e.image) :
    (target.onImage svc).length ≤ (w.docker.filter (·.runsImage e)).length := by
  obtain ⟨created, codes, hreplicas⟩ := built_reported h hsvc
  have hperm := (replicasOf_perm (w.docker.map (Container.withCode created codes)) e.key).map replicaStatus
  have hlen : (target.onImage svc).length =
      ((((((w.docker.map (Container.withCode created codes)).map (·.replica)).filter labelled).filter
        (·.key == e.key)).map replicaStatus).filter fun r => r.image == target.image && r.state == .running).length := by
    unfold WatchTarget.onImage
    rw [hreplicas, hkey]
    exact (hperm.filter _).length_eq
  rw [hlen, List.filter_map, List.length_map, List.filter_filter, List.filter_filter, List.map_map, List.filter_map,
    List.length_map, ← List.countP_eq_length_filter, ← List.countP_eq_length_filter]
  refine List.countP_mono_left fun x _ hx => ?_
  simp only [Function.comp_apply, Bool.and_eq_true, beq_iff_eq] at hx
  obtain ⟨⟨⟨himg, hrun⟩, hxk⟩, hlab⟩ := hx
  exact runsImage_iff.mpr ⟨hlab, hxk, himg.trans himage, running_replicaStatus.mp hrun⟩

end Status

/-! ## The runs -/

section Runs

variable {nodeId : String} {config : AgentConfig} {agentVersion : String} {e : ServiceConfig} {previous : List String}

theorem Elder.congr {x y : Container} (h : Elder e x) (hfix : y.fixed = x.fixed) : Elder e y := by
  have hkey := fixed_key hfix
  simp only [Container.fixed, Container.setState, Container.mk.injEq, ManagedReplica.mk.injEq] at hfix
  obtain ⟨⟨-, -, -, -, -, -, himage, -, -, -, hstamp, -⟩, -⟩ := hfix
  exact ⟨hkey.trans h.key, himage.trans h.image, fun he => h.stamp (hstamp ▸ he)⟩

/-- The step lemma. -/
theorem watch_marked {c c' : Phase × Node × Ledger}
    (h : Watch nodeId (reporting config agentVersion (deployRules e previous)) c c') (hm : Marked e previous c.2.1.docker) :
    Marked e previous c'.2.1.docker := by
  cases h with
  | boot w g => exact hm
  | crash p w g => exact hm
  | env p c c' hr =>
    intro x hx helder
    obtain ⟨y, hy, hfix⟩ := (rely_shuffle hr.1).1.origin hx
    rw [← (Container.fixed_congr hfix).1]
    exact hm y hy (helder.congr hfix)
  | failed w w' g g' hf hg => cases hf <;> exact hm
  | begin w g i g' ht hg => exact hm
  | command o k c r c' hs => exact hs.2.1
  | finish res w g r w' g' hs hg =>
    intro x hx
    rw [(sem_same hs rfl).1] at hx
    exact hm x hx

/-- What every report is: that of a failed pass; or a status of a node whose containers it
    has, the elders all previous ones. -/
theorem watchReach_report {c : Phase × Node × Ledger}
    (h : WatchReach nodeId (reporting config agentVersion (deployRules e previous)) c) :
    Marked e previous c.2.1.docker ∧ ∀ report ∈ c.2.2.reports, FailureWritten config agentVersion report.status ∨
      ∃ w, Built config agentVersion w report.status ∧ report.docker = w.docker ∧ Marked e previous w.docker := by
  induction h with
  | fresh clock => exact ⟨fun x hx => absurd hx List.not_mem_nil, fun report hr => absurd hr List.not_mem_nil⟩
  | step hreach hs ih =>
    have hafter := watch_marked hs ih.1
    refine ⟨hafter, fun report hr => ?_⟩
    rcases watch_reports hs hr with hold | hadd
    · exact ih.2 report hold
    · cases hadd.origin with
      | failure _ _ hf => exact .inl hf
      | heartbeat _ hb => exact .inr ⟨_, hb, hadd.docker, ih.1⟩
      | tickEnd _ _ hd _ hb => exact .inr ⟨_, hb, hadd.docker.trans hd.symm, hafter⟩

theorem failure_unreported {s : NodeStatus} (h : FailureWritten config agentVersion s) (target : WatchTarget) :
    target.reported s = none := by
  obtain ⟨message, now, rfl⟩ := h
  rfl

/-- A container on the image that is not a previous one is of the entry. -/
theorem runs_of_marked {docker : List Container} (hm : Marked e previous docker) {x : Container} (hx : x ∈ docker)
    (hrun : x.runsImage e = true) (hnew : x.replica.id ≠ "" → x.replica.id ∉ previous) : x.runs e = true := by
  unfold Container.runs
  rw [hrun, Bool.true_and, beq_iff_eq]
  by_contra hstamp
  obtain ⟨-, hkey, himage, -⟩ := runsImage_iff.mp hrun
  obtain ⟨hprev, hne⟩ := hm x hx ⟨hkey, himage, hstamp⟩
  exact hnew hne hprev

theorem converged_of_ok (hcron : e.cron = none) (hpos : 1 ≤ e.replicas) {report : Report}
    (htraced : ∀ x ∈ report.docker, Traced report.read x) {w : Node} (hb : Built config agentVersion w report.status)
    (hdocker : report.docker = w.docker) (hm : Marked e previous w.docker)
    (hok : (evaluate (some report.status) (watchTarget nodeId e previous)).ok = true) :
    Converged (watchTarget nodeId e previous) e report := by
  obtain ⟨s, svc, hs, hsvc, -, -, hcount, hold⟩ := evaluate_ok_iff.mp hok
  cases hs
  have hexpected : (watchTarget nodeId e previous).expectedReplicas = e.replicas := by simp [watchTarget, hcron]
  rw [hexpected] at hcount
  -- what runs on the image is no previous container, and so of the entry
  have hentry : ∀ x ∈ report.docker, x.runsImage e = true → x.runs e = true := by
    intro x hx hrun
    rw [hdocker] at hx
    refine runs_of_marked hm hx hrun fun hne hprev => ?_
    obtain ⟨r, hr, hid⟩ := onImage_of hb hsvc rfl rfl hx hrun
    have hmem : x.replica.id ∈ (watchTarget nodeId e previous).oldStillRunning svc := by
      refine List.mem_filter.mpr ⟨List.mem_filterMap.mpr ⟨r, hr, ?_⟩, List.contains_iff_mem.mpr hprev⟩
      rw [hid, Option.filter_some, if_pos (decide_eq_true hne)]
    rw [hold] at hmem
    cases hmem
  have hfewer : (report.docker.filter (·.runsImage e)).length ≤ (report.docker.filter (·.runs e)).length := by
    rw [← List.countP_eq_length_filter, ← List.countP_eq_length_filter]
    exact List.countP_mono_left hentry
  have hle := onImage_le hb hsvc rfl rfl
  rw [← hdocker] at hle
  refine ⟨?_, by omega, svc, hsvc, ?_⟩
  · have hsome : 0 < (report.docker.filter (·.runs e)).length := by omega
    obtain ⟨x, hx⟩ := List.exists_mem_of_length_pos hsome
    obtain ⟨hx, hrun⟩ := List.mem_filter.mp hx
    obtain ⟨d, hd, c, hc, hmade⟩ := htraced x hx
    rw [Container.runs, Bool.and_eq_true, beq_iff_eq] at hrun
    obtain ⟨-, hkey, himage, -⟩ := runsImage_iff.mp hrun.1
    exact ⟨d, hd, c, hc, hmade.key.symm.trans hkey, hmade.image.symm.trans himage, hmade.stamp.symm.trans hrun.2⟩
  · have hsub : ((watchTarget nodeId e previous).onImage svc).length ≤ (svc.replicas.filter fun r =>
        r.healthy && report.docker.any fun x => x.runs e && r.containerId == some x.replica.id).length := by
      unfold WatchTarget.onImage
      rw [← List.countP_eq_length_filter, ← List.countP_eq_length_filter]
      refine List.countP_mono_left fun r hr hon => ?_
      obtain ⟨hhealthy, x, hx, hrun, hid⟩ := mem_onImage hb hsvc rfl rfl (List.mem_filter.mpr ⟨hr, hon⟩)
      rw [← hdocker] at hx
      rw [hhealthy, Bool.true_and, List.any_eq_true]
      exact ⟨x, hx, by rw [hentry x hx hrun, hid, Bool.true_and, beq_self_eq_true]⟩
    omega

/-- For an entry that is no cron service and wants a replica, over every run of its node in
    which each container of the service on the entry's image under another config stamp is
    a previous one: whatever statuses of the node the watch reads, and whatever other
    targets it has, a success for the entry's target is of a status that was built when the
    agent had read the entry and ran its replicas. -/
theorem deploy_watch_sound (nodeId agentVersion : String) (config : AgentConfig) (e : ServiceConfig)
    (previous : List String) (hcron : e.cron = none) (hpos : 1 ≤ e.replicas) (c : Phase × Node × Ledger)
    (h : WatchReach nodeId (reporting config agentVersion (deployRules e previous)) c)
    (written : String → List NodeStatus) (hwritten : written nodeId = c.2.2.reports.map (·.status))
    (targets : List WatchTarget) (polls : Nat) :
    Sat statusReads (fun _ _ => True)
      (onResult (fun results _ => ∀ r ∈ results, r.ok = true → r.target = watchTarget nodeId e previous →
        ∃ s ∈ c.2.2.reports.map (·.status), r = evaluate (some s) r.target ∧
          ∀ report ∈ c.2.2.reports, report.status = s → Converged r.target e report) fun _ _ => True)
      (waitForConvergence targets polls).run written := by
  refine (waitForConvergence_shown targets polls).mono (fun _ _ _ => trivial) fun res w hres => ?_
  cases res with
  | error err => trivial
  | ok results =>
    intro r hr hok htarget
    obtain ⟨target, -, status, rfl, hread⟩ := hres r hr
    rw [evaluate_target] at htarget ⊢
    subst htarget
    obtain ⟨s, -, rfl, -⟩ := evaluate_ok_iff.mp hok
    refine ⟨s, hwritten ▸ hread s rfl, rfl, fun report hreport hs => ?_⟩
    subst hs
    rcases (watchReach_report h).2 report hreport with hf | ⟨w', hb, hdocker, hm⟩
    · obtain ⟨s', svc, hs', hsvc, -⟩ := evaluate_ok_iff.mp hok
      cases hs'
      rw [failure_unreported hf] at hsvc
      cases hsvc
    · exact converged_of_ok hcron hpos (watchReach_traced h report hreport) hb hdocker hm hok

end Runs

/-! ### A deploy of a config -/

/-- Whatever the environment of the entry, that status shows one replica on its image. -/
theorem worker_shown (env : List (String × String)) :
    (evaluate (some (workerStatus workerRunning)) (watchTarget "n1" (worker env) [])).ok = true := by
  have hobserved : workerRunning.observed (fun _ => 0) [] =
      [("shop/worker", [(workerContainer.withCode (fun _ => 0) []).replica])] :=
    inspectManaged_singleton (by decide)
  refine evaluate_ok_iff.mpr ⟨_, serviceStatus (worker []) [(workerContainer.withCode (fun _ => 0) []).replica] none none
    "2026-01-01T00:00:00.000Z" 0, rfl, ?_, by decide, Int.le_refl 1, Int.le_refl 1, rfl⟩
  unfold workerStatus
  rw [hobserved]
  rfl

/-- A wait that reads it once is over. -/
theorem worker_wait (env : List (String × String)) :
    Runs statusReads (waitForConvergence [watchTarget "n1" (worker env) []] 0).run (fun _ => [workerStatus workerRunning])
      (.ret (.ok [evaluate (some (workerStatus workerRunning)) (watchTarget "n1" (worker env) [])]))
      fun _ => [workerStatus workerRunning] := by
  have hread : statusReads.sem (.getStatus "n1") (fun _ => [workerStatus workerRunning])
      (.ok (some (workerStatus workerRunning))) fun _ => [workerStatus workerRunning] :=
    ⟨rfl, fun s hs => by cases hs; exact List.mem_singleton.mpr rfl⟩
  exact Runs.act hread (.refl _ _)

/-- The environment of the service changes and its image does not: the wait reads the status
    from before the publish and succeeds, and no document that was read has the new entry. -/
theorem config_deploy_looks_converged : ∃ c, WatchReach "n1" (reporting ⟨"n1", "a1"⟩ "0.1.0" {}) c ∧
    ∃ report ∈ c.2.2.reports, ∃ result,
      Runs statusReads (waitForConvergence [watchTarget "n1" (worker [("MODE", "new")]) []] 0).run
        (fun _ => [report.status]) (.ret (.ok [result])) (fun _ => [report.status]) ∧
      result.ok = true ∧ ¬ Converged result.target (worker [("MODE", "new")]) report := by
  refine ⟨_, worker_reported trivial trivial trivial, _, List.mem_singleton.mpr rfl, _, worker_wait _,
    worker_shown _, fun h => ?_⟩
  obtain ⟨d, hd, c, hc, -, -, hstamp⟩ := h.read
  obtain rfl := List.mem_singleton.mp hd
  obtain rfl := List.mem_singleton.mp hc
  exact absurd (serviceConfigStamp_inj.mp hstamp).env (by decide)

/-- The guarantee at the entry that the replica was started from. -/
theorem deploy_watch_sound_worker :
    ∃ c, WatchReach "n1" (reporting ⟨"n1", "a1"⟩ "0.1.0" (deployRules (worker []) [])) c ∧
      ∃ report ∈ c.2.2.reports, Converged (watchTarget "n1" (worker []) []) (worker []) report := by
  have hmarked : Marked (worker []) [] workerRunning.docker := by
    intro x hx helder
    obtain rfl := List.mem_singleton.mp hx
    exact absurd rfl helder.stamp
  have hreach : WatchReach "n1" (reporting ⟨"n1", "a1"⟩ "0.1.0" (deployRules (worker []) [])) _ :=
    worker_reported trivial (fun _ hx => absurd hx List.not_mem_nil) hmarked
  refine ⟨_, hreach, _, List.mem_singleton.mpr rfl, ?_⟩
  have hsat := deploy_watch_sound "n1" "0.1.0" ⟨"n1", "a1"⟩ (worker []) [] rfl (by decide) _ hreach
    (fun _ => [workerStatus workerRunning]) rfl [watchTarget "n1" (worker []) []] 0
  obtain ⟨s, hs, -, hconv⟩ := (hsat.runs (worker_wait [])).atRet _ (List.mem_singleton.mpr rfl) (worker_shown [])
    evaluate_target
  obtain rfl := List.mem_singleton.mp hs
  have := hconv _ (List.mem_singleton.mpr rfl) rfl
  rwa [evaluate_target] at this

end LaunchPad.Agent
