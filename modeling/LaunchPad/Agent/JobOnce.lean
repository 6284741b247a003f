/-
  LaunchPad.Agent.JobOnce — a job request is run at most once, over every run of
  `Agent.JobLog`.

  Proved:
  - `job_runs_at_most_once`: no request of the key is started twice; never do two job
    containers of the key run; a start finds none running and its request never started.
-/
import LaunchPad.Agent.JobPlan

namespace LaunchPad.Agent

open Lib Reconciler

/-! ## The start of a tick -/

section Tick

variable {nodeId key : String} {w : Node} {g : JobLog} {i : TickInput}

/-- A new document keeps the invariant: what was published again was still published. -/
theorem jobInv_began (h : JobInv key (w, g)) (hd : JobDoc key i.desired g) :
    JobInv key (w.began i, g.asked i.desired) := by
  refine ⟨h.docker.congr rfl rfl, h.jobs, h.alone, h.single, h.ran, fun s hs hk hcur => ?_,
    fun x hx id hid => List.mem_append_right _ (h.asked x hx id hid),
    fun s hs => List.mem_append_right _ (h.known s hs), h.named, h.once,
    fun p hp => List.mem_append_left _ hp⟩
  refine h.held s hs hk (hd.fresh _ hcur ?_)
  rw [← hk]
  exact h.known s hs

/-- The containers of the key. -/
def ownIds (key : String) (w : Node) : List String :=
  ((w.docker.map (·.replica)).filter fun r => r.key == key).map (·.id)

theorem loose_ownIds (h : DockerOk w) (hno : ∀ x ∈ w.docker, x.replica.key = key →
    ∀ id, x.replica.jobRunId = some id → (key, id) ∉ g.current) : Loose key (ownIds key w) (w, g) := by
  intro id hid
  obtain ⟨r, hr, rfl⟩ := List.mem_map.mp hid
  obtain ⟨hr, -⟩ := List.mem_filter.mp hr
  obtain ⟨y, hy, rfl⟩ := List.mem_map.mp hr
  exact ⟨h.issued y hy, fun x hx _ hxk id' hid' => hno x hx hxk id' hid'⟩

theorem loose_nil : Loose key [] (w, g) := fun id hid => by cases hid

theorem mem_ownIds {r : ManagedReplica} (hr : r ∈ replicasOf w.liveNow key) : r.id ∈ ownIds key w := by
  obtain ⟨⟨x, hx, rfl⟩, -, hkey⟩ := mem_replicasOf.mp hr
  refine List.mem_map.mpr ⟨x.replica, List.mem_filter.mpr ⟨List.mem_map.mpr ⟨x, hx, rfl⟩, ?_⟩, rfl⟩
  simpa using hkey

/-- The replicas of a group that is removed are of another key, or of this one. -/
theorem group_ids {k : String} {rs : List ManagedReplica} (h : (k, rs) ∈ w.liveNow) :
    ∀ r ∈ rs, (k ≠ key → r.id ∈ otherIds key w) ∧ (k = key → r.id ∈ ownIds key w) := by
  intro r hr
  rw [group_eq h] at hr
  exact ⟨fun hne => mem_otherIds hr hne, fun he => mem_ownIds (he ▸ hr)⟩

section Document

variable {spare : List String} {next : Option String} {rest : List Action} {cron : Option CronPlanContext}

/-- What the plan has for services of other keys. -/
theorem foreign_services {s : List ServiceConfig} (hs : ∀ c ∈ s, c ∈ i.desired.services ∧ c.key ≠ key)
    (hrest : JobPlan key (otherIds key w) spare (jobRequests i.desired) next rest) :
    JobPlan key (otherIds key w) spare (jobRequests i.desired) next
      (s.flatMap (fun c => planService c (replicasOf w.liveNow c.key) c.key cron) ++ rest) := by
  induction s with
  | nil => exact hrest
  | cons c s ih =>
    obtain ⟨hc, hk⟩ := hs c (List.mem_cons_self ..)
    rw [List.flatMap_cons, List.append_assoc]
    refine jobPlan_foreign hk (fun r hr => mem_otherIds hr hk) (fun req hreq => ?_) (fun a ha => ha)
      (ih fun c hc => hs c (List.mem_cons_of_mem _ hc))
    exact mem_jobRequests.mpr ⟨c, hc, rfl, req, hreq, rfl⟩

/-- What it removes: groups of other keys, and the key's own only where the document does not
    have the key. -/
theorem foreign_removes (hkey : key ∈ i.desired.services.map (·.key) ∨ spare = ownIds key w) :
    JobPlan key (otherIds key w) spare (jobRequests i.desired) next
      ((w.liveNow.filter fun e => !(i.desired.services.map (·.key)).contains e.1).map fun e => .remove e.1 e.2) := by
  refine jobPlan_removes fun a ha => ?_
  obtain ⟨⟨k, rs⟩, he, rfl⟩ := List.mem_map.mp ha
  obtain ⟨he, hk⟩ := List.mem_filter.mp he
  refine ⟨k, rs, rfl, fun r hr => ?_⟩
  by_cases hsame : k = key
  · rcases hkey with hkey | rfl
    · rw [hsame] at hk
      simp only [Bool.not_eq_true', List.contains_eq_mem, decide_eq_false_iff_not] at hk
      exact absurd hkey hk
    · exact .inr ((group_ids he r hr).2 hsame)
  · exact .inl ((group_ids he r hr).1 hsame)

variable {c : ServiceConfig} {req : JobRunRequest}

/-- The services of the document around the one of the key. -/
theorem services_around (hd : JobDoc key i.desired g) (hc : c ∈ i.desired.services) (hkey : c.key = key) :
    ∃ s₁ s₂, i.desired.services = s₁ ++ c :: s₂ ∧ ∀ c' ∈ s₁ ++ s₂, c' ∈ i.desired.services ∧ c'.key ≠ key := by
  obtain ⟨s₁, s₂, hsplit⟩ := List.append_of_mem hc
  have hnodup := hd.keys
  rw [hsplit, List.map_append, List.map_cons, List.nodup_middle, List.nodup_cons, ← List.map_append] at hnodup
  refine ⟨s₁, s₂, hsplit, fun c' hc' => ⟨?_, fun hk => hnodup.1 (List.mem_map.mpr ⟨c', hc', hk.trans hkey.symm⟩)⟩⟩
  rw [hsplit]
  rcases List.mem_append.mp hc' with h | h
  · exact List.mem_append_left _ h
  · exact List.mem_append_right _ (List.mem_cons_of_mem _ h)

/-- The key's request in the document is its service's. -/
theorem request_unique (hd : JobDoc key i.desired g) (hc : c ∈ i.desired.services) (hkey : c.key = key) (hreq : c.jobRun = some req)
    {id : String} (hm : (key, id) ∈ jobRequests i.desired) : id = req.id := by
  obtain ⟨c', hc', hk', req', hreq', rfl⟩ := mem_jobRequests.mp hm
  have hcc : c' = c := List.inj_on_of_nodup_map hd.keys hc' hc (hk'.trans hkey.symm)
  subst hcc
  rw [hreq] at hreq'
  cases hreq'
  rfl

/-- The plan of the key's job: nothing, or a run that no container carries and that finds none
    of the key running. -/
theorem planJobService_cases (h : JobInv key (w, g)) (hreq : c.jobRun = some req) :
    planJobService c (replicasOf w.liveNow key) = [.noop c] ∨
      planJobService c (replicasOf w.liveNow key) = [.jobRun c (replicasOf w.liveNow key)] ∧
        ∀ x ∈ w.docker, x.replica.key = key → x.replica.jobRunId ≠ some req.id ∧ x.replica.running = false := by
  have hlive : ∀ x ∈ w.docker, x.replica.key = key → x.replica ∈ replicasOf w.liveNow key := fun x hx hxk =>
    mem_replicasOf.mpr ⟨⟨x, hx, rfl⟩, (h.jobs x hx hxk).1, hxk⟩
  unfold planJobService
  simp only [hreq]
  split
  · exact .inl rfl
  · rename_i hlabel
    split
    · exact .inl rfl
    · rename_i hrunning
      refine .inr ⟨rfl, fun x hx hxk => ⟨fun hxl => ?_, ?_⟩⟩
      · refine hlabel (List.any_eq_true.mpr ⟨x.replica, hlive x hx hxk, ?_⟩)
        rw [hxl, beq_self_eq_true]
      · rw [← Bool.not_eq_true]
        intro hxr
        obtain ⟨-, -, id, hxl⟩ := h.jobs x hx hxk
        refine hrunning (List.any_eq_true.mpr ⟨x.replica, hlive x hx hxk, ?_⟩)
        rw [hxl, hxr]
        rfl

end Document

/-- The plan of a document: the services before the key's, the key's job if it has one, the
    services after it, and the removals. -/
theorem plan_jobPlan (h : JobInv key (w, g)) (hd : JobDoc key i.desired g) :
    ∃ spare next, JobPlan key (otherIds key w) spare (jobRequests i.desired) next (w.plan i) ∧
      Planned key (otherIds key w) spare (jobRequests i.desired) next (w.began i, g.asked i.desired) := by
  have hinv := jobInv_began h hd
  have hoff : Elsewhere key (otherIds key w) (w.began i) := elsewhere_otherIds h.docker
  have hreqs : ∀ p ∈ jobRequests i.desired, p ∈ (g.asked i.desired).requested :=
    fun p hp => List.mem_append_left _ hp
  unfold Node.plan planReconcile
  by_cases hex : ∃ c ∈ i.desired.services, c.key = key
  · obtain ⟨c, hc, hkey⟩ := hex
    obtain ⟨hp, hsv, req, hreq, hid⟩ := hd.job c hc hkey
    have hmem : key ∈ i.desired.services.map (·.key) := List.mem_map.mpr ⟨c, hc, hkey⟩
    obtain ⟨s₁, s₂, hsplit, hother⟩ := services_around hd hc hkey
    have hservice : ∀ cron, planService c (replicasOf w.liveNow c.key) c.key cron = planJobService c (replicasOf w.liveNow key) := by
      intro cron
      simp [planService, hreq, hkey]
    rw [show i.desired.services.flatMap _ = _ from congrArg (List.flatMap _) hsplit, List.flatMap_append,
      List.flatMap_cons, List.append_assoc, List.append_assoc, hservice]
    have hbefore : ∀ c' ∈ s₁, c' ∈ i.desired.services ∧ c'.key ≠ key := fun c' hc' => hother c' (List.mem_append_left _ hc')
    have hafter : ∀ c' ∈ s₂, c' ∈ i.desired.services ∧ c'.key ≠ key := fun c' hc' => hother c' (List.mem_append_right _ hc')
    rcases planJobService_cases h hreq with hplan | ⟨hplan, hfree⟩
    · rw [hplan]
      refine ⟨[], none, foreign_services hbefore (.off (fun o ho => ?_) (foreign_services hafter (foreign_removes (.inl hmem)))), ?_⟩
      · exact False.elim ho
      · exact ⟨hinv, hoff, loose_nil, hreqs, fun id he => by cases he⟩
    · rw [hplan]
      refine ⟨ownIds key w, some req.id, foreign_services hbefore ?_, hinv, hoff, ?_, hreqs, fun id he => ?_⟩
      · exact .run hkey hp hsv hreq hid (fun r hr => mem_ownIds hr) (foreign_services hafter (foreign_removes (.inl hmem)))
      · refine loose_ownIds (h.docker.congr rfl rfl) fun x hx hxk id hxl hm => ?_
        rw [request_unique hd hc hkey hreq hm] at hxl
        exact (hfree x hx hxk).1 hxl
      · cases he
        exact ⟨mem_jobRequests.mpr ⟨c, hc, hkey, req, hreq, rfl⟩, hfree⟩
  · have hnone : ∀ id, (key, id) ∉ jobRequests i.desired := by
      intro id hm
      obtain ⟨c, hc, hk, -⟩ := mem_jobRequests.mp hm
      exact hex ⟨c, hc, hk⟩
    refine ⟨ownIds key w, none, ?_, hinv, hoff, ?_, hreqs, fun id he => by cases he⟩
    · exact foreign_services (fun c hc => ⟨hc, fun hk => hex ⟨c, hc, hk⟩⟩) (foreign_removes (.inr rfl))
    · exact loose_ownIds (h.docker.congr rfl rfl) fun x hx _ id _ hm => hnone id hm

theorem jobRuns_upheld : Upheld nodeId (jobRuns key) (JobInv key) (JobInv key) (JobGuard nodeId key) where
  fresh clock := by
    refine ⟨dockerOk_fresh clock, ?_, ?_, ?_, ?_, ?_, ?_, ?_, ?_, List.nodup_nil, ?_⟩
    all_goals intro x hx
    all_goals cases hx
  stable c c' h hr := by
    obtain ⟨w, g⟩ := c
    obtain ⟨w', g'⟩ := c'
    obtain ⟨hr, hids, hg⟩ := hr
    dsimp only at hr hids hg
    subst hg
    exact h.frame (h.rely hr hids)
  boot w g h := ⟨h.docker.congr rfl rfl, h.jobs, h.alone, h.single, h.ran, h.held, h.asked, h.known, h.named, h.once,
    h.current⟩
  failed w w' g g' h hf hg := by
    subst hg
    cases hf <;> exact ⟨h.docker.congr rfl rfl, h.jobs, h.alone, h.single, h.ran, h.held, h.asked, h.known, h.named,
      h.once, h.current⟩
  command o c h := h.1
  planned c h := h
  finish w g r w' g' h hs hg := by
    subst hg
    obtain ⟨hd, hi⟩ := sem_same hs rfl
    have := h.frame (JobFrame.same h.docker hd hi)
    rw [JobLog.started, hd, jobStarts_self, List.nil_append] at this
    exact this
  begin w g i g' h ht hb := by
    obtain ⟨hd, rfl⟩ := hb
    obtain ⟨spare, next, hplan, hpend⟩ := plan_jobPlan h hd
    exact sat_jobPlan hplan _ hpend

/-! ## The guarantee -/

/-- A step that starts a container of the key starts its published request, for the first
    time, and finds no container of the key running. -/
theorem watch_starts {c c' : Phase × Node × JobLog} (h : WatchReach nodeId (jobRuns key) c)
    (hs : Watch nodeId (jobRuns key) c c') {s : JobStart} (hm : s ∈ jobStarts c.2.1.docker c'.2.1.docker)
    (hk : s.key = key) : JobStartOk key s.request c.2 := by
  have hself : ∀ {docker docker' : List Container}, docker' = docker → s ∉ jobStarts docker docker' := by
    intro docker docker' he
    rw [he, jobStarts_self]
    exact List.not_mem_nil
  cases hs with
  | boot w g => exact absurd hm (hself rfl)
  | crash p w g => exact absurd hm (hself rfl)
  | env p c c' hr =>
    have hinv : JobInv key c := watchReach_invariant jobRuns_upheld h
    exact absurd hk ((hinv.rely hr.1 hr.2.1).starts hm)
  | failed w w' g g' hf hg =>
    have hd : w'.docker = w.docker := by cases hf <;> rfl
    exact absurd hm (hself hd)
  | begin w g i g' ht hg => exact absurd hm (hself rfl)
  | finish res w g r w' g' hr hg => exact absurd hm (hself (sem_same hr rfl).1)
  | command o k c r c' hr =>
    obtain ⟨hinv, hframe | ⟨cfg, i, p, b, id, rfl, hcfg, hok⟩⟩ := watchReach_command jobRuns_upheld h
    · exact absurd hk ((hframe r c'.1 hr.1).starts hm)
    · obtain ⟨x, hx, hrun, hno, -, hlab, -⟩ := mem_jobStarts.mp hm
      obtain ⟨⟨docker, issued, hl, hw⟩, -⟩ := hr
      dsimp only at hx
      rw [hw] at hx
      rcases mem_launch hl hx with hx | ⟨id', st, -, rfl⟩
      · rw [hno x hx rfl] at hrun
        cases hrun
      · simp only [launched, Option.isSome_none, Bool.false_eq_true, if_false, Option.filter_eq_some_iff] at hlab
        have hreq : id = s.request := Option.some.inj hlab.1
        exact hreq ▸ hok

/-- A container of the key that stands beyond `created`, and does not run, stood so before. -/
theorem watch_halted {c c' : Phase × Node × JobLog} (h : WatchReach nodeId (jobRuns key) c)
    (hs : Watch nodeId (jobRuns key) c c') : ∀ x ∈ c'.2.1.docker, x.replica.key = key → x.replica.state ≠ .created →
      x.replica.running = false → ∃ y ∈ c.2.1.docker, y.fixed = x.fixed ∧ y.replica.state ≠ .created := by
  have hself : ∀ {docker' : List Container}, docker' = c.2.1.docker → ∀ x ∈ docker', x.replica.state ≠ .created →
      ∃ y ∈ c.2.1.docker, y.fixed = x.fixed ∧ y.replica.state ≠ .created := by
    rintro docker' rfl x hx hstate
    exact ⟨x, hx, rfl, hstate⟩
  intro x hx hk hstate hrun
  cases hs with
  | boot w g => exact hself rfl x hx hstate
  | crash p w g => exact hself rfl x hx hstate
  | env p c c' hr =>
    have hinv : JobInv key c := watchReach_invariant jobRuns_upheld h
    exact (hinv.rely hr.1 hr.2.1).ran x hx hk hstate
  | failed w w' g g' hf hg =>
    have hd : w'.docker = w.docker := by cases hf <;> rfl
    exact hself hd x hx hstate
  | begin w g i g' ht hg => exact hself rfl x hx hstate
  | finish res w g r w' g' hr hg => exact hself (sem_same hr rfl).1 x hx hstate
  | command o k c r c' hr =>
    obtain ⟨-, hframe | ⟨cfg, i, p, b, id, rfl, -, -⟩⟩ := watchReach_command jobRuns_upheld h
    · exact (hframe r c'.1 hr.1).ran x hx hk hstate
    · obtain ⟨⟨docker, issued, hl, hw⟩, -⟩ := hr
      dsimp only at hx
      rw [hw] at hx
      cases hl with
      | refused e => exact ⟨x, hx, rfl, hstate⟩
      | created e id' _ _ =>
        rcases List.mem_append.mp hx with hx | hx
        · exact ⟨x, hx, rfl, hstate⟩
        · rw [List.mem_singleton.mp hx] at hstate
          exact absurd rfl hstate
      | running id' _ _ _ =>
        rcases List.mem_append.mp hx with hx | hx
        · exact ⟨x, hx, rfl, hstate⟩
        · rw [List.mem_singleton.mp hx] at hrun
          cases hrun

/-- While a plan is applied, the last document planned is the one the agent holds. -/
theorem watch_current {c : Phase × Node × JobLog} (h : WatchReach nodeId (jobRuns key) c) :
    ∀ p, c.1 = .applying p → jobRequests c.2.1.desired = c.2.2.current := by
  induction h with
  | fresh clock => exact fun p he => by cases he
  | step _ hs ih =>
    intro p he
    cases hs with
    | boot w g => cases he
    | crash p w g => cases he
    | failed w w' g g' hf hg => cases he
    | finish res w g r w' g' hr hg => cases he
    | begin w g i g' ht hg =>
      obtain ⟨-, rfl⟩ := hg
      rfl
    | env p' c c' hr =>
      have hd := ih p he
      obtain ⟨hr, -, hg⟩ := hr
      rw [hg, (rely_routes hr).1]
      exact hd
    | command o k c r c' hr =>
      have hd := ih _ rfl
      obtain ⟨hr, hg⟩ := hr
      dsimp only [jobRuns] at hg
      rw [hg, (sem_routes hr).1]
      exact hd

/-- For a key that is only ever published as a job, over every run in which only the agent
    removes containers and no request of the key comes back once withdrawn: each request is
    started at most once, so a request that only this key ever asked for has one container
    started at most; two containers of the key never run at once; and a start finds none
    of the key running. -/
theorem job_runs_at_most_once (nodeId key : String) (c : Phase × Node × JobLog)
    (h : WatchReach nodeId (jobRuns key) c) :
    (c.2.2.startsOf key).Nodup ∧
    (∀ id, (∀ k, (k, id) ∈ c.2.2.requested → k = key) → (c.2.2.starts.filter (·.request == id)).length ≤ 1) ∧
    (∀ x ∈ c.2.1.docker, ∀ y ∈ c.2.1.docker, x.replica.key = key → y.replica.key = key →
      x.replica.running = true → y.replica.running = true → x = y) ∧
    ∀ c', Watch nodeId (jobRuns key) c c' → ∀ s ∈ jobStarts c.2.1.docker c'.2.1.docker, s.key = key →
      JobStartOk key s.request c.2 := by
  have hinv : JobInv key c.2 := watchReach_invariant jobRuns_upheld h
  refine ⟨hinv.once, fun id honly => ?_, fun x hx y hy hxk hyk hxr hyr => ?_,
    fun c' hs s hm hk => watch_starts h hs hm hk⟩
  · have hown : c.2.2.starts.filter (·.request == id) =
        (c.2.2.starts.filter (·.key == key)).filter (·.request == id) := by
      rw [List.filter_filter]
      refine List.filter_congr fun s hs => ?_
      by_cases hid : s.request = id
      · have := honly s.key (hid ▸ hinv.known s hs)
        simp [hid, this]
      · simp [hid]
    have hcount := List.nodup_iff_count_le_one.mp hinv.once id
    rw [hown, ← List.countP_eq_length_filter]
    unfold JobLog.startsOf List.count at hcount
    rw [List.countP_map] at hcount
    exact hcount
  · exact List.inj_on_of_nodup_map hinv.docker.ids hx hy (hinv.single x hx y hy hxk hyk hxr hyr)

end Tick

/-! ### A run -/

def migrateJob (id : String) : ServiceConfig :=
  { project := "shop", service := "migrate", image := "migrate:1", cpu := 256, memory := 512, ingress := none
    jobRun := some ⟨id, "2026-01-01T00:00:00.000Z"⟩ }

/-- A tick over a document of one job. -/
def migrateTick (id : String) : TickInput where
  desired := ⟨protocolVersion, "n1", "2026-01-01T00:00:00.000Z", [migrateJob id]⟩
  now _ := 0
  planNow := 0
  saved := true

/-- The container of a request. -/
def migrateContainer (id : String) (state : ContainerState) : Container :=
  launched (migrateJob id) 0 none none (some id) "c1" state

/-- The node once the first request runs. -/
def migrateRunning : Node :=
  { (Node.fresh 0).boot.began (migrateTick "r1") with
    docker := [migrateContainer "r1" .running], issued := ["c1"] }

theorem plan_migrate : (Node.fresh 0).boot.plan (migrateTick "r1") = [.jobRun (migrateJob "r1") []] := rfl

theorem run_migrate (nodeId : String) :
    sem nodeId (.runContainer (migrateJob "r1") 0 none (bindHost (migrateJob "r1")) none (some "r1"))
      ((Node.fresh 0).boot.began (migrateTick "r1")) (.ok ()) migrateRunning :=
  ⟨[migrateContainer "r1" .running], ["c1"],
    Launch.running "c1" List.not_mem_nil (fun _ h => by cases h) (fun _ h => by cases h), rfl⟩

/-- The first tick: pull and run. -/
theorem runs_migrate {γ : Type} (O : Observer γ) (nodeId : String) {g g₁ g₂ : γ}
    (hpull : O.command g (.pull "migrate:1") ((Node.fresh 0).boot.began (migrateTick "r1")) (.ok ())
      ((Node.fresh 0).boot.began (migrateTick "r1")) g₁)
    (hrun : O.command g₁ (.runContainer (migrateJob "r1") 0 none (bindHost (migrateJob "r1")) none (some "r1"))
      ((Node.fresh 0).boot.began (migrateTick "r1")) (.ok ()) migrateRunning g₂) :
    Runs (watcher nodeId O) (applyActions ((Node.fresh 0).boot.plan (migrateTick "r1"))).run
      ((Node.fresh 0).boot.began (migrateTick "r1"), g) (.ret (.ok ())) (migrateRunning, g₂) := by
  rw [plan_migrate]
  have hp : (watcher nodeId O).sem (.pull "migrate:1") ((Node.fresh 0).boot.began (migrateTick "r1"), g) (.ok ())
    ((Node.fresh 0).boot.began (migrateTick "r1"), g₁) := ⟨rfl, hpull⟩
  have hr : (watcher nodeId O).sem
      (.runContainer (migrateJob "r1") 0 none (bindHost (migrateJob "r1")) none (some "r1"))
      ((Node.fresh 0).boot.began (migrateTick "r1"), g₁) (.ok ()) (migrateRunning, g₂) := ⟨run_migrate nodeId, hrun⟩
  exact Runs.act hp (Runs.act hr (.refl _ _))

theorem migrate_reached : WatchReach "n1" (jobRuns "shop/migrate")
    (.applying (.ret (.ok ())), migrateRunning, ⟨[("shop/migrate", "r1")], [("shop/migrate", "r1")],
      [⟨"shop/migrate", "r1", "c1"⟩]⟩) := by
  have hboot : WatchReach "n1" (jobRuns "shop/migrate") (.idle, (Node.fresh 0).boot, {}) :=
    .step (.fresh 0) (.boot _ _)
  have htimed : (migrateTick "r1").Timed (Node.fresh 0).boot :=
    ⟨Int.le_refl _, fun _ => ⟨Int.le_refl _, Int.le_refl _⟩⟩
  have hdoc : JobDoc "shop/migrate" (migrateTick "r1").desired {} := by
    refine ⟨by decide, fun c hc hk => ?_, fun id _ h => by cases h⟩
    obtain rfl := List.mem_singleton.mp hc
    exact ⟨by decide, by decide, _, rfl, by decide⟩
  have hbegin := WatchReach.step hboot (.begin _ _ (migrateTick "r1") _ htimed ⟨hdoc, rfl⟩)
  refine hbegin.runs (runs_migrate _ "n1" rfl ?_)
  show (_ : JobLog) = _
  decide

/-- The guarantee at that run. -/
theorem job_runs_at_most_once_migrate : ∃ c, WatchReach "n1" (jobRuns "shop/migrate") c ∧
    c.2.2.startsOf "shop/migrate" = ["r1"] ∧ (c.2.2.startsOf "shop/migrate").Nodup :=
  ⟨_, migrate_reached, rfl, (job_runs_at_most_once "n1" "shop/migrate" _ migrate_reached).1⟩

end LaunchPad.Agent
