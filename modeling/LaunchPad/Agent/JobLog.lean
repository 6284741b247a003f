/-
  LaunchPad.Agent.JobLog — what a run has done about job requests. The agent remembers a
  request only by the label of its container, which the next request of the key removes.

  `jobRuns key` observes the runs in which containers are removed by the agent only, the
  key is only ever published as a job, and no request of the key is published again after
  it was withdrawn. Pulls and starts may fail, the agent may crash between any two
  commands, containers may exit at any time, and other services are free.

  `JobInv` is the invariant of these runs: a started request that is still published has
  its container. `JobFrame` is what a step leaves alone that starts nothing of the key.

  Proved:
  - `JobInv.frame`: such a step keeps the invariant.
  - `JobInv.rely`, `JobFrame.launch`: the environment's moves and the runs of other
    services are such steps.
-/
import LaunchPad.Agent.Observed

namespace LaunchPad.Agent

open Lib Reconciler

/-! ## The record of a run -/

/-- A container of a job request came to run. -/
structure JobStart where
  key : String
  request : String
  container : String
  deriving DecidableEq, Repr

/-- The requests of all documents planned so far, those of the last one, and the job
    containers started, newest first. -/
structure JobLog where
  requested : List (String × String) := []
  current : List (String × String) := []
  starts : List JobStart := []
  deriving DecidableEq, Repr

/-- The job requests of a document, each with its service's key. -/
def jobRequests (d : DesiredState) : List (String × String) :=
  d.services.filterMap fun c => c.jobRun.map fun req => (c.key, req.id)

/-- The job containers that run in `docker'` and did not in `docker`. -/
def jobStarts (docker docker' : List Container) : List JobStart :=
  docker'.filterMap fun x =>
    if x.replica.running && !docker.any (fun y => hasId x.replica.id y && y.replica.running) then
      x.replica.jobRunId.map fun id => ⟨x.replica.key, id, x.replica.id⟩
    else none

def JobLog.started (g : JobLog) (docker docker' : List Container) : JobLog :=
  { g with starts := jobStarts docker docker' ++ g.starts }

def JobLog.asked (g : JobLog) (d : DesiredState) : JobLog :=
  { g with requested := jobRequests d ++ g.requested, current := jobRequests d }

/-- The starts of one key's requests. -/
def JobLog.startsOf (g : JobLog) (key : String) : List String :=
  (g.starts.filter (·.key == key)).map (·.request)

/-- The documents of the claim: distinct service keys; the key is only ever published as a
    job, with a request id and names as the schema demands; and a request of the key that
    was published before is one that the last document still had. -/
structure JobDoc (key : String) (d : DesiredState) (g : JobLog) : Prop where
  keys : (d.services.map (·.key)).Nodup
  job : ∀ c ∈ d.services, c.key = key →
    c.project ≠ "" ∧ c.service ≠ "" ∧ ∃ req, c.jobRun = some req ∧ req.id ≠ ""
  fresh : ∀ id, (key, id) ∈ jobRequests d → (key, id) ∈ g.requested → (key, id) ∈ g.current

/-- Containers are removed by the agent only, and the documents are as `JobDoc` says. -/
def jobRuns (key : String) : Observer JobLog where
  start := {}
  env g w w' g' := w'.docker.map (·.replica.id) = w.docker.map (·.replica.id) ∧ g' = g.started w.docker w'.docker
  failed g _ g' := g' = g
  begin g _ i g' := JobDoc key i.desired g ∧ g' = g.asked i.desired
  command g _ w _ w' g' := g' = g.started w.docker w'.docker
  finish g _ _ g' := g' = g

theorem mem_jobRequests {d : DesiredState} {k id : String} :
    (k, id) ∈ jobRequests d ↔ ∃ c ∈ d.services, c.key = k ∧ ∃ req, c.jobRun = some req ∧ req.id = id := by
  simp only [jobRequests, List.mem_filterMap, Option.map_eq_some_iff, Prod.mk.injEq]
  constructor
  · rintro ⟨c, hc, req, hreq, hk, hid⟩
    exact ⟨c, hc, hk, req, hreq, hid⟩
  · rintro ⟨c, hc, hk, req, hreq, hid⟩
    exact ⟨c, hc, req, hreq, hk, hid⟩

theorem mem_jobStarts {docker docker' : List Container} {s : JobStart} :
    s ∈ jobStarts docker docker' ↔ ∃ x ∈ docker', x.replica.running = true ∧
      (∀ y ∈ docker, y.replica.id = x.replica.id → y.replica.running = false) ∧
      x.replica.key = s.key ∧ x.replica.jobRunId = some s.request ∧ x.replica.id = s.container := by
  simp only [jobStarts, List.mem_filterMap]
  constructor
  · rintro ⟨x, hx, hs⟩
    split at hs
    · rename_i hcond
      rw [Bool.and_eq_true, Bool.not_eq_true', List.any_eq_false] at hcond
      obtain ⟨id, hid, rfl⟩ := Option.map_eq_some_iff.mp hs
      refine ⟨x, hx, hcond.1, fun y hy hyx => ?_, rfl, hid, rfl⟩
      have := hcond.2 y hy
      simpa [hasId, hyx] using this
    · cases hs
  · rintro ⟨x, hx, hrun, hno, hkey, hid, hcon⟩
    refine ⟨x, hx, ?_⟩
    have hany : docker.any (fun y => hasId x.replica.id y && y.replica.running) = false := by
      rw [List.any_eq_false]
      intro y hy
      by_cases hyx : y.replica.id = x.replica.id
      · simp [hno y hy hyx]
      · simp [hasId, hyx]
    rw [hrun, hany, hid, hkey, hcon]
    rfl

/-! ## The invariant -/

structure JobInv (key : String) (c : Node × JobLog) : Prop where
  docker : DockerOk c.1
  jobs : ∀ x ∈ c.1.docker, x.replica.key = key →
    labelled x.replica = true ∧ x.restarts = false ∧ ∃ id, x.replica.jobRunId = some id
  /-- A request of the key has one container at most. -/
  alone : ∀ x ∈ c.1.docker, ∀ y ∈ c.1.docker, x.replica.key = key → y.replica.key = key →
    x.replica.jobRunId = y.replica.jobRunId → x.replica.id = y.replica.id
  single : ∀ x ∈ c.1.docker, ∀ y ∈ c.1.docker, x.replica.key = key → y.replica.key = key →
    x.replica.running = true → y.replica.running = true → x.replica.id = y.replica.id
  /-- What is beyond `created` was started. -/
  ran : ∀ x ∈ c.1.docker, x.replica.key = key → x.replica.state ≠ .created →
    ∃ id, x.replica.jobRunId = some id ∧ ⟨key, id, x.replica.id⟩ ∈ c.2.starts
  /-- A started request that is still published has its container. -/
  held : ∀ s ∈ c.2.starts, s.key = key → (key, s.request) ∈ c.2.current →
    ∃ x ∈ c.1.docker, x.replica.id = s.container
  asked : ∀ x ∈ c.1.docker, ∀ id, x.replica.jobRunId = some id → (x.replica.key, id) ∈ c.2.requested
  known : ∀ s ∈ c.2.starts, (s.key, s.request) ∈ c.2.requested
  /-- A started container keeps its key and its label. -/
  named : ∀ s ∈ c.2.starts, s.container ∈ c.1.issued ∧ ∀ x ∈ c.1.docker, x.replica.id = s.container →
    x.replica.key = s.key ∧ x.replica.jobRunId = some s.request
  once : (c.2.startsOf key).Nodup
  current : ∀ p ∈ c.2.current, p ∈ c.2.requested

/-- A step that starts nothing of the key and leaves the containers of its published
    request. -/
structure JobFrame (key : String) (g : JobLog) (w w' : Node) : Prop where
  docker : DockerOk w'
  issued : ∀ id ∈ w.issued, id ∈ w'.issued
  origin : ∀ x ∈ w'.docker, (∃ y ∈ w.docker, y.fixed = x.fixed) ∨
    (x.replica.key ≠ key ∧ x.replica.id ∉ w.issued ∧
      ∀ id, x.replica.jobRunId = some id → (x.replica.key, id) ∈ g.requested)
  stays : ∀ x ∈ w.docker, x.replica.key = key → ∀ id, x.replica.jobRunId = some id → (key, id) ∈ g.current →
    ∃ y ∈ w'.docker, y.fixed = x.fixed
  running : ∀ x ∈ w'.docker, x.replica.key = key → x.replica.running = true →
    ∃ y ∈ w.docker, y.fixed = x.fixed ∧ y.replica.running = true
  ran : ∀ x ∈ w'.docker, x.replica.key = key → x.replica.state ≠ .created →
    ∃ y ∈ w.docker, y.fixed = x.fixed ∧ y.replica.state ≠ .created

theorem fixed_label {x y : Container} (h : y.fixed = x.fixed) : y.replica.jobRunId = x.replica.jobRunId := by
  simp only [Container.fixed, Container.setState, Container.mk.injEq, ManagedReplica.mk.injEq] at h
  tauto

theorem fixed_id {x y : Container} (h : y.fixed = x.fixed) : y.replica.id = x.replica.id :=
  (Container.fixed_congr h).1

theorem fixed_labelled {x y : Container} (h : y.fixed = x.fixed) : labelled y.replica = labelled x.replica := by
  obtain ⟨-, -, hp, hs, -⟩ := Container.fixed_congr h
  unfold labelled
  rw [hp, hs]

section Frame

variable {key : String} {g : JobLog} {w w' : Node}

/-- An own container is an old one. -/
theorem JobFrame.own (h : JobFrame key g w w') {x : Container} (hx : x ∈ w'.docker) (hkey : x.replica.key = key) :
    ∃ y ∈ w.docker, y.fixed = x.fixed := by
  rcases h.origin x hx with hy | ⟨hne, -⟩
  · exact hy
  · exact absurd hkey hne

/-- The new starts are of other keys. -/
theorem JobFrame.starts (h : JobFrame key g w w') {s : JobStart} (hs : s ∈ jobStarts w.docker w'.docker) :
    s.key ≠ key := by
  intro he
  obtain ⟨x, hx, hrun, hno, hkey, -, -⟩ := mem_jobStarts.mp hs
  obtain ⟨y, hy, hfix, hyrun⟩ := h.running x hx (hkey.trans he) hrun
  rw [hno y hy (fixed_id hfix)] at hyrun
  cases hyrun

theorem JobLog.startsOf_started (docker docker' : List Container)
    (h : ∀ s ∈ jobStarts docker docker', s.key ≠ key) : (g.started docker docker').startsOf key = g.startsOf key := by
  unfold JobLog.startsOf JobLog.started
  rw [List.filter_append, List.filter_eq_nil_iff.mpr fun s hs => by simpa using h s hs, List.nil_append]

theorem JobInv.frame (h : JobInv key (w, g)) (hf : JobFrame key g w w') :
    JobInv key (w', g.started w.docker w'.docker) := by
  have hcong : ∀ {x y : Container}, y.fixed = x.fixed → x.replica.key = key → y.replica.key = key :=
    fun hfix hkey => (fixed_key hfix).trans hkey
  have hasked : ∀ x ∈ w'.docker, ∀ id, x.replica.jobRunId = some id → (x.replica.key, id) ∈ g.requested := by
    intro x hx id hid
    rcases hf.origin x hx with ⟨y, hy, hfix⟩ | ⟨-, -, hnew⟩
    · rw [← fixed_key hfix]
      exact h.asked y hy id ((fixed_label hfix).trans hid)
    · exact hnew id hid
  refine ⟨hf.docker, ?_, ?_, ?_, ?_, ?_, hasked, ?_, ?_, ?_, h.current⟩
  · intro x hx hkey
    obtain ⟨y, hy, hfix⟩ := hf.own hx hkey
    obtain ⟨hlab, hres, id, hid⟩ := h.jobs y hy (hcong hfix hkey)
    refine ⟨(fixed_labelled hfix).symm.trans hlab, ?_, id, (fixed_label hfix).symm.trans hid⟩
    exact (Container.fixed_congr hfix).2.2.2.2.2.2.2.symm.trans hres
  · intro x hx y hy hxk hyk hlab
    obtain ⟨x₀, hx₀, hxf⟩ := hf.own hx hxk
    obtain ⟨y₀, hy₀, hyf⟩ := hf.own hy hyk
    rw [← fixed_id hxf, ← fixed_id hyf]
    refine h.alone x₀ hx₀ y₀ hy₀ (hcong hxf hxk) (hcong hyf hyk) ?_
    rw [fixed_label hxf, fixed_label hyf, hlab]
  · intro x hx y hy hxk hyk hxr hyr
    obtain ⟨x₀, hx₀, hxf, hxr₀⟩ := hf.running x hx hxk hxr
    obtain ⟨y₀, hy₀, hyf, hyr₀⟩ := hf.running y hy hyk hyr
    rw [← fixed_id hxf, ← fixed_id hyf]
    exact h.single x₀ hx₀ y₀ hy₀ (hcong hxf hxk) (hcong hyf hyk) hxr₀ hyr₀
  · intro x hx hkey hstate
    obtain ⟨y, hy, hfix, hstate'⟩ := hf.ran x hx hkey hstate
    obtain ⟨id, hid, hs⟩ := h.ran y hy (hcong hfix hkey) hstate'
    rw [fixed_id hfix] at hs
    exact ⟨id, (fixed_label hfix).symm.trans hid, List.mem_append_right _ hs⟩
  · intro s hs hkey hcur
    rcases List.mem_append.mp hs with hs | hs
    · exact absurd hkey (hf.starts hs)
    · obtain ⟨x, hx, hid⟩ := h.held s hs hkey hcur
      obtain ⟨hxk, hxl⟩ := (h.named s hs).2 x hx hid
      obtain ⟨y, hy, hfix⟩ := hf.stays x hx (hxk.trans hkey) s.request hxl hcur
      exact ⟨y, hy, (fixed_id hfix).trans hid⟩
  · intro s hs
    rcases List.mem_append.mp hs with hs | hs
    · obtain ⟨x, hx, -, -, hkey, hid, -⟩ := mem_jobStarts.mp hs
      rw [← hkey]
      exact hasked x hx _ hid
    · exact h.known s hs
  · intro s hs
    rcases List.mem_append.mp hs with hs | hs
    · obtain ⟨x, hx, -, -, hkey, hid, hcon⟩ := mem_jobStarts.mp hs
      refine ⟨hcon ▸ hf.docker.issued x hx, fun y hy hyid => ?_⟩
      obtain rfl := List.inj_on_of_nodup_map hf.docker.ids hx hy (hcon.trans hyid.symm)
      exact ⟨hkey, hid⟩
    · obtain ⟨hissued, hnamed⟩ := h.named s hs
      refine ⟨hf.issued _ hissued, fun x hx hid => ?_⟩
      rcases hf.origin x hx with ⟨y, hy, hfix⟩ | ⟨-, hnew, -⟩
      · rw [← fixed_key hfix, ← fixed_label hfix]
        exact hnamed y hy ((fixed_id hfix).trans hid)
      · exact absurd (hid ▸ hissued) hnew
  · show ((g.started w.docker w'.docker).startsOf key).Nodup
    rw [JobLog.startsOf_started _ _ fun s hs => hf.starts hs]
    exact h.once

/-! ### What the moves are -/

/-- The containers stand as they did. -/
theorem JobFrame.same (h : DockerOk w) (hd : w'.docker = w.docker) (hi : w'.issued = w.issued) :
    JobFrame key g w w' := by
  refine ⟨h.congr hd hi, fun id hid => by rw [hi]; exact hid, ?_, ?_, ?_, ?_⟩
  · intro x hx
    rw [hd] at hx
    exact .inl ⟨x, hx, rfl⟩
  · intro x hx _ id _ _
    exact ⟨x, by rw [hd]; exact hx, rfl⟩
  · intro x hx _ hrun
    rw [hd] at hx
    exact ⟨x, hx, rfl, hrun⟩
  · intro x hx _ hstate
    rw [hd] at hx
    exact ⟨x, hx, rfl, hstate⟩

/-- Own containers are set to another state only once they are beyond `created`, and never
    to `running`. -/
theorem JobFrame.setStates {p : Container → Bool} {s : ContainerState} {halted : Bool} (h : DockerOk w')
    (hd : w'.docker = setStates p s halted w.docker) (hi : w'.issued = w.issued)
    (hp : ∀ x ∈ w.docker, p x = true → x.replica.key = key → s ≠ .running ∧ x.replica.state ≠ .created) :
    JobFrame key g w w' := by
  have hmem : ∀ {x}, x ∈ w'.docker → ∃ y ∈ w.docker, x = if p y then y.setState s halted else y := by
    intro x hx
    rw [hd] at hx
    obtain ⟨y, hy, rfl⟩ := List.mem_map.mp hx
    exact ⟨y, hy, rfl⟩
  have hfix : ∀ y : Container, (if p y then y.setState s halted else y).fixed = y.fixed := by
    intro y
    split <;> rfl
  refine ⟨h, fun id hid => by rw [hi]; exact hid, ?_, ?_, ?_, ?_⟩
  · intro x hx
    obtain ⟨y, hy, rfl⟩ := hmem hx
    exact .inl ⟨y, hy, (hfix y).symm⟩
  · intro x hx _ id _ _
    refine ⟨_, ?_, hfix x⟩
    rw [hd]
    exact List.mem_map.mpr ⟨x, hx, rfl⟩
  · intro x hx hkey hrun
    obtain ⟨y, hy, rfl⟩ := hmem hx
    refine ⟨y, hy, (hfix y).symm, ?_⟩
    have hk : y.replica.key = key := (fixed_key (hfix y).symm).trans hkey
    split at hrun
    · rename_i hpy
      exact absurd (by simpa [ManagedReplica.running, Container.setState] using hrun) (hp y hy hpy hk).1
    · exact hrun
  · intro x hx hkey hstate
    obtain ⟨y, hy, rfl⟩ := hmem hx
    refine ⟨y, hy, (hfix y).symm, ?_⟩
    have hk : y.replica.key = key := (fixed_key (hfix y).symm).trans hkey
    split at hstate
    · rename_i hpy
      exact (hp y hy hpy hk).2
    · exact hstate

/-- The containers of the published request are not among those removed. -/
theorem JobFrame.filter {p : Container → Bool} (h : DockerOk w') (hd : w'.docker = w.docker.filter p)
    (hi : w'.issued = w.issued)
    (hp : ∀ x ∈ w.docker, x.replica.key = key → ∀ id, x.replica.jobRunId = some id → (key, id) ∈ g.current →
      p x = true) : JobFrame key g w w' := by
  have hmem : ∀ {x}, x ∈ w'.docker → x ∈ w.docker := by
    intro x hx
    rw [hd] at hx
    exact (List.mem_filter.mp hx).1
  refine ⟨h, fun id hid => by rw [hi]; exact hid, fun x hx => .inl ⟨x, hmem hx, rfl⟩, ?_,
    fun x hx _ hrun => ⟨x, hmem hx, rfl, hrun⟩, fun x hx _ hstate => ⟨x, hmem hx, rfl, hstate⟩⟩
  intro x hx hkey id hid hcur
  refine ⟨x, ?_, rfl⟩
  rw [hd]
  exact List.mem_filter.mpr ⟨hx, hp x hx hkey id hid hcur⟩

/-- The environment starts no job container, and by assumption removes none. -/
theorem JobInv.rely (h : JobInv key (w, g)) (hr : Rely w w')
    (hids : w'.docker.map (·.replica.id) = w.docker.map (·.replica.id)) : JobFrame key g w w' := by
  have hdocker : DockerOk w' := dockerOk_rely h.docker hr
  cases hr with
  | tick t _ => exact .same h.docker rfl rfl
  | loseFile => exact .same h.docker rfl rfl
  | exit x s hx hstate hs =>
    refine .setStates hdocker rfl rfl fun y hy hp _ => ⟨hs, ?_⟩
    obtain rfl := List.inj_on_of_nodup_map h.docker.ids hy hx (beq_iff_eq.mp hp)
    exact hstate
  | restart x hx hres hhalt hstate hport =>
    refine .setStates hdocker rfl rfl fun y hy hp hkey => ?_
    obtain rfl := List.inj_on_of_nodup_map h.docker.ids hy hx (beq_iff_eq.mp hp)
    rw [(h.jobs y hy hkey).2.1] at hres
    cases hres
  | remove id =>
    refine .same h.docker ?_ rfl
    have hlen := congrArg List.length hids
    rw [List.length_map, List.length_map] at hlen
    exact List.filter_eq_self.mpr (List.length_filter_eq_length_iff.mp hlen)

/-- A run of another service's container. -/
theorem JobFrame.launch {nodeId : String} {c : ServiceConfig} {i : Int} {p : Option Int} {b : String}
    {f : Option Int} {j : Option String} {r : Except String Unit} (h : DockerOk w) (hc : c.key ≠ key)
    (hj : ∀ id, j = some id → (c.key, id) ∈ g.requested) (hs : sem nodeId (.runContainer c i p b f j) w r w') :
    JobFrame key g w w' := by
  have hdocker := dockerOk_sem h hs
  obtain ⟨docker, issued, hl, rfl⟩ := hs
  have hold : ∀ x ∈ w.docker, x ∈ docker := by
    intro x hx
    cases hl with
    | refused => exact hx
    | created => exact List.mem_append_left _ hx
    | running => exact List.mem_append_left _ hx
  have hissued : ∀ id ∈ w.issued, id ∈ issued := by
    intro id hid
    cases hl with
    | refused => exact hid
    | created => exact List.mem_cons_of_mem _ hid
    | running => exact List.mem_cons_of_mem _ hid
  have hown : ∀ x ∈ docker, x.replica.key = key → x ∈ w.docker := by
    intro x hx hkey
    rcases mem_launch hl hx with hx | ⟨id, s, -, rfl⟩
    · exact hx
    · exact absurd hkey hc
  refine ⟨hdocker, hissued, fun x hx => ?_, fun x hx _ id _ _ => ⟨x, hold x hx, rfl⟩,
    fun x hx hkey hrun => ⟨x, hown x hx hkey, rfl, hrun⟩, fun x hx hkey hstate => ⟨x, hown x hx hkey, rfl, hstate⟩⟩
  rcases mem_launch hl hx with hx | ⟨id, s, hid, rfl⟩
  · exact .inl ⟨x, hx, rfl⟩
  · refine .inr ⟨hc, hid, fun id' hid' => ?_⟩
    simp only [launched] at hid'
    split at hid'
    · cases hid'
    · exact hj id' (Option.filter_eq_some_iff.mp hid').1

end Frame

end LaunchPad.Agent
