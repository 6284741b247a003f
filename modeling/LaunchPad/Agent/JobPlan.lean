/-
  LaunchPad.Agent.JobPlan — the plan of one tick, followed for a key that is only published
  as a job. `Planned` is what the plan knows while it runs: which containers are of other
  keys, which it may remove, and that the request it is about to start has no container.
  It is lost at the start, which records it.

  Commands of other services are `OffJob`. The stop of a surged replica goes by its name:
  `Probing` says that the name is still that replica's.

  Proved:
  - `sat_jobPlan`: every plan with at most one start for the key keeps the invariant.
  - `start_job`: the start of a request without a container keeps it.
-/
import LaunchPad.Agent.JobLog

namespace LaunchPad.Agent

open Lib Reconciler

/-! ## The plan of a tick -/

/-- Ids of containers that may be removed: none carries a published request of the key. -/
def Loose (key : String) (ids : List String) (c : Node × JobLog) : Prop :=
  ∀ i ∈ ids, i ∈ c.1.issued ∧ ∀ x ∈ c.1.docker, x.replica.id = i → x.replica.key = key →
    ∀ id, x.replica.jobRunId = some id → (key, id) ∉ c.2.current

/-- A command that is not for the key's job: the containers in `ids` are of other keys, those
    in `spare` may be removed, and the document asks for the requests in `reqs`. -/
def OffJob (key : String) (ids spare : List String) (reqs : List (String × String)) : Op → Prop
  | .runContainer c _ _ _ _ job => c.key ≠ key ∧ ∀ id, job = some id → (c.key, id) ∈ reqs
  | .startContainer id => id ∈ ids
  | .stopContainer (.id id) _ => id ∈ ids
  | .stopContainer (.name _) _ => False
  | .removeContainer id => id ∈ ids ∨ id ∈ spare
  | _ => True

/-- What the plan knows: the containers of other keys, those it may remove, the requests of
    the document, and that the request it is to start has no container yet. -/
structure Planned (key : String) (ids spare : List String) (reqs : List (String × String)) (next : Option String)
    (c : Node × JobLog) : Prop where
  inv : JobInv key c
  off : Elsewhere key ids c.1
  loose : Loose key spare c
  reqs : ∀ p ∈ reqs, p ∈ c.2.requested
  next : ∀ id, next = some id → (key, id) ∈ c.2.current ∧
    ∀ x ∈ c.1.docker, x.replica.key = key → x.replica.jobRunId ≠ some id ∧ x.replica.running = false

section Plan

variable {nodeId key : String} {ids spare : List String} {reqs : List (String × String)} {next : Option String}
  {g : JobLog} {w w' : Node}

theorem Planned.frame (h : Planned key ids spare reqs next (w, g)) (hf : JobFrame key g w w') :
    Planned key ids spare reqs next (w', g.started w.docker w'.docker) := by
  refine ⟨h.inv.frame hf, ?_, ?_, h.reqs, ?_⟩
  · intro id hid
    obtain ⟨hissued, hkey⟩ := h.off id hid
    refine ⟨hf.issued id hissued, fun x hx hxid => ?_⟩
    rcases hf.origin x hx with ⟨y, hy, hfix⟩ | ⟨hne, -⟩
    · rw [← fixed_key hfix]
      exact hkey y hy ((fixed_id hfix).trans hxid)
    · exact hne
  · intro i hi
    obtain ⟨hissued, hlab⟩ := h.loose i hi
    refine ⟨hf.issued i hissued, fun x hx hxid hxk id hid => ?_⟩
    obtain ⟨y, hy, hfix⟩ := hf.own hx hxk
    exact hlab y hy ((fixed_id hfix).trans hxid) ((fixed_key hfix).trans hxk) id ((fixed_label hfix).trans hid)
  · intro id hid
    obtain ⟨hcur, hfree⟩ := h.next id hid
    refine ⟨hcur, fun x hx hkey => ?_⟩
    obtain ⟨y, hy, hfix⟩ := hf.own hx hkey
    have hyk := (fixed_key hfix).trans hkey
    refine ⟨fixed_label hfix ▸ (hfree y hy hyk).1, ?_⟩
    rw [← Bool.not_eq_true]
    intro hrun
    obtain ⟨z, hz, hzf, hzr⟩ := hf.running x hx hkey hrun
    rw [(hfree z hz ((fixed_key hzf).trans hkey)).2] at hzr
    cases hzr

/-- A command that is not for the key's job is such a step. -/
theorem Planned.sem {o : Op} {r : Resp o} (h : Planned key ids spare reqs next (w, g))
    (ho : OffJob key ids spare reqs o) (hs : sem nodeId o w r w') : JobFrame key g w w' := by
  have hdocker : DockerOk w' := dockerOk_sem h.inv.docker hs
  cases o with
  | runContainer c i p b f j => exact .launch h.inv.docker ho.1 (fun id hid => h.reqs _ (ho.2 id hid)) hs
  | startContainer id =>
    rcases hs with ⟨e, -, rfl⟩ | ⟨-, x, hx, hid, hport, rfl⟩
    · exact .same h.inv.docker rfl rfl
    · refine .setStates hdocker rfl rfl fun y hy hp hkey => ?_
      exact absurd hkey ((h.off id ho).2 y hy (beq_iff_eq.mp hp))
  | stopContainer container grace =>
    cases container with
    | name n => exact ho.elim
    | id id =>
      have hno : ∀ y ∈ w.docker, (ContainerRef.id id).picks y = true → y.replica.key ≠ key :=
        fun y hy hp => (h.off id ho).2 y hy (beq_iff_eq.mp hp)
      rcases hs with ⟨-, rfl | rfl | rfl⟩
      · exact .same h.inv.docker rfl rfl
      · exact .setStates hdocker rfl rfl fun y hy hp hkey => absurd hkey (hno y hy hp)
      · refine .filter hdocker rfl rfl fun y hy hkey _ _ _ => ?_
        rw [Bool.not_eq_true', ← Bool.not_eq_true]
        exact fun hp => hno y hy hp hkey
  | removeContainer id =>
    rcases hs with ⟨-, rfl | rfl⟩
    · exact .same h.inv.docker rfl rfl
    · refine .filter hdocker rfl rfl fun y hy hkey i hi hcur => ?_
      rw [Bool.not_eq_true', ← Bool.not_eq_true]
      intro hp
      rcases ho with ho | ho
      · exact (h.off id ho).2 y hy (beq_iff_eq.mp hp) hkey
      · exact (h.loose id ho).2 y hy (beq_iff_eq.mp hp) hkey i hi hcur
  | _ =>
    obtain ⟨hd, hi⟩ := sem_same hs rfl
    exact .same h.inv.docker hd hi

/-- What holds where a request of the key is started. -/
structure JobStartOk (key id : String) (c : Node × JobLog) : Prop where
  published : (key, id) ∈ c.2.current
  idle : ∀ x ∈ c.1.docker, x.replica.key = key → x.replica.running = false
  new : id ∉ c.2.startsOf key

/-- A command of a plan starts nothing of the key, or it is the start of its request. -/
def JobGuard (nodeId key : String) (o : Op) (c : Node × JobLog) : Prop :=
  JobInv key c ∧ ((∀ r w', sem nodeId o c.1 r w' → JobFrame key c.2 c.1 w') ∨
    ∃ cfg i p b id, o = .runContainer cfg i p b none (some id) ∧ cfg.key = key ∧ JobStartOk key id c)

theorem Planned.forget {c : Node × JobLog} (h : Planned key ids spare reqs next c) :
    Planned key ids spare reqs none c := ⟨h.inv, h.off, h.loose, h.reqs, fun id hid => by cases hid⟩

theorem planned_rely {c c' : Node × JobLog} (h : Planned key ids spare reqs next c)
    (hr : (watcher nodeId (jobRuns key)).rely c c') : Planned key ids spare reqs next c' := by
  obtain ⟨w, g⟩ := c
  obtain ⟨w', g'⟩ := c'
  obtain ⟨hr, hids, hg⟩ := hr
  dsimp only at hr hids hg
  subst hg
  exact h.frame (h.inv.rely hr hids)

theorem planned_keeps {o : Op} (ho : OffJob key ids spare reqs o) :
    (watcher nodeId (jobRuns key)).Keeps (Planned key ids spare reqs next) o := by
  rintro ⟨w, g⟩ r ⟨w', g'⟩ h ⟨hs, hg⟩
  dsimp only [jobRuns] at hs hg
  subst hg
  exact h.frame (h.sem ho hs)

theorem jobGuard_off {o : Op} {c : Node × JobLog} (ho : OffJob key ids spare reqs o)
    (h : Planned key ids spare reqs next c) : JobGuard nodeId key o c :=
  ⟨h.inv, .inl fun _ _ hs => h.sem ho hs⟩

/-- A program of commands that are not for the key's job. -/
theorem sat_offJob {α : Type} {p : Prog Resp (Except String α)} {c : Node × JobLog}
    (hp : Uses (OffJob key ids spare reqs) p) (h : Planned key ids spare reqs next c) :
    Sat (watcher nodeId (jobRuns key)) (JobGuard nodeId key)
      (onResult (fun _ => Planned key ids spare reqs next) fun _ => Planned key ids spare reqs next) p c := by
  have hsat := Sat.ofUses (M := watcher nodeId (jobRuns key)) (G := JobGuard nodeId key)
    (fun c c' h hr => planned_rely h hr) (fun o ho => planned_keeps ho) (fun o c ho hc => jobGuard_off ho hc) hp h
  refine hsat.mono (fun _ _ h => h) fun r c hc => ?_
  cases r <;> exact hc

/-! ### The start of a request -/

theorem jobStarts_self (docker : List Container) : jobStarts docker docker = [] := by
  refine List.eq_nil_iff_forall_not_mem.mpr fun s hs => ?_
  obtain ⟨y, hy, hrun, hno, -⟩ := mem_jobStarts.mp hs
  rw [hno y hy rfl] at hrun
  cases hrun

/-- A run started its own container at most. -/
theorem jobStarts_append {docker : List Container} {x : Container} (hx : ∀ y ∈ docker, y.replica.id ≠ x.replica.id) :
    jobStarts docker (docker ++ [x]) =
      if x.replica.running then (x.replica.jobRunId.map fun id => ⟨x.replica.key, id, x.replica.id⟩).toList else [] := by
  have hnew : docker.any (fun y => hasId x.replica.id y && y.replica.running) = false := by
    rw [List.any_eq_false]
    intro y hy
    simp [hasId, hx y hy]
  have hold := jobStarts_self docker
  unfold jobStarts at hold ⊢
  rw [List.filterMap_append, hold, List.nil_append]
  simp only [List.filterMap_cons, List.filterMap_nil, hnew]
  cases x.replica.running <;> cases x.replica.jobRunId <;> rfl

/-- A container made for a request: of its key and labelled, under an id not used before. -/
structure MadeFor (key id : String) (w : Node) (x : Container) : Prop where
  key : x.replica.key = key
  label : x.replica.jobRunId = some id
  once : x.restarts = false
  managed : labelled x.replica = true
  new : x.replica.id ∉ w.issued
  started : x.replica.state ≠ .created → x.replica.running = true

theorem launched_made {c : ServiceConfig} {i : Int} {p : Option Int} {id id' : String} {s : ContainerState} (hc : c.key = key)
    (hp : c.project ≠ "") (hsv : c.service ≠ "") (hid : id ≠ "") (hnew : id' ∉ w.issued) (hstate : s = .created ∨ s = .running) :
    MadeFor key id w (launched c i p none (some id) id' s) where
  key := hc
  label := by simp [launched, hid]
  once := rfl
  managed := by simp [labelled, launched, hp, hsv]
  new := hnew
  started hs := by
    rcases hstate with rfl | rfl
    · exact absurd rfl hs
    · rfl

section Made

variable {id : String} {x : Container} {docker : List Container} {issued : List String}

theorem MadeFor.fresh (h : MadeFor key id w x) (hdocker : DockerOk w) : ∀ y ∈ w.docker, y.replica.id ≠ x.replica.id :=
  fun y hy he => h.new (he ▸ hdocker.issued y hy)

/-- Its start, if docker got as far, is the only new one. -/
theorem MadeFor.starts (h : MadeFor key id w x) (hdocker : DockerOk w) :
    jobStarts w.docker (w.docker ++ [x]) = if x.replica.running then [⟨key, id, x.replica.id⟩] else [] := by
  rw [jobStarts_append (h.fresh hdocker), h.key, h.label]
  rfl

/-- The request was not started before: its container would be there. -/
theorem Planned.unstarted (h : Planned key ids spare reqs (some id) (w, g)) : ∀ s ∈ g.starts, s.key = key → s.request ≠ id := by
  obtain ⟨hcur, hfree⟩ := h.next id rfl
  intro s hs hk he
  obtain ⟨x, hx, hxid⟩ := h.inv.held s hs hk (he ▸ hcur)
  obtain ⟨hxk, hxl⟩ := (h.inv.named s hs).2 x hx hxid
  exact (hfree x hx (hxk.trans hk)).1 (he ▸ hxl)

theorem Planned.startsOf_made (h : Planned key ids spare reqs (some id) (w, g)) (hx : MadeFor key id w x) :
    ((g.started w.docker (w.docker ++ [x])).startsOf key).Nodup := by
  have heq : (g.started w.docker (w.docker ++ [x])).startsOf key = (if x.replica.running then [id] else []) ++ g.startsOf key := by
    unfold JobLog.startsOf JobLog.started
    rw [hx.starts h.inv.docker, List.filter_append, List.map_append]
    cases x.replica.running <;> simp
  rw [heq]
  split
  · refine List.nodup_cons.mpr ⟨fun hm => ?_, h.inv.once⟩
    obtain ⟨t, ht, hte⟩ := List.mem_map.mp hm
    obtain ⟨ht, htk⟩ := List.mem_filter.mp ht
    exact h.unstarted t ht (beq_iff_eq.mp htk) hte
  · exact h.inv.once

/-- The container of the request that had none: the invariant holds again. -/
theorem Planned.made {history : History} (h : Planned key ids spare reqs (some id) (w, g)) (hx : MadeFor key id w x)
    (hdocker : DockerOk { w with docker := w.docker ++ [x], issued := x.replica.id :: w.issued, history }) :
    Planned key ids spare reqs none
      ({ w with docker := w.docker ++ [x], issued := x.replica.id :: w.issued, history }, g.started w.docker (w.docker ++ [x])) := by
  obtain ⟨hcur, hfree⟩ := h.next id rfl
  have hcases : ∀ {y}, y ∈ w.docker ++ [x] → y ∈ w.docker ∨ y = x := fun hy =>
    (List.mem_append.mp hy).imp_right List.mem_singleton.mp
  have hold : ∀ y ∈ w.docker, y ∈ w.docker ++ [x] := fun _ hy => List.mem_append_left _ hy
  have hmem : x ∈ w.docker ++ [x] := List.mem_append_right _ (List.mem_singleton.mpr rfl)
  have hsub : ∀ t ∈ jobStarts w.docker (w.docker ++ [x]), t = ⟨key, id, x.replica.id⟩ := by
    intro t ht
    rw [hx.starts h.inv.docker] at ht
    split at ht
    · exact List.mem_singleton.mp ht
    · cases ht
  have hkept : ∀ {i : String} {P : Container → Prop}, (i ∈ w.issued ∧ ∀ y ∈ w.docker, y.replica.id = i → P y) →
      i ∈ x.replica.id :: w.issued ∧ ∀ y ∈ w.docker ++ [x], y.replica.id = i → P y := by
    intro i P hi
    refine ⟨List.mem_cons_of_mem _ hi.1, fun y hy hyid => ?_⟩
    rcases hcases hy with hy | rfl
    · exact hi.2 y hy hyid
    · exact absurd (hyid ▸ hi.1) hx.new
  refine ⟨⟨hdocker, ?_, ?_, ?_, ?_, ?_, ?_, ?_, ?_, h.startsOf_made hx, h.inv.current⟩, ?_, ?_, h.reqs, fun _ he => by cases he⟩
  · intro y hy hyk
    rcases hcases hy with hy | rfl
    · exact h.inv.jobs y hy hyk
    · exact ⟨hx.managed, hx.once, id, hx.label⟩
  · intro y hy z hz hyk hzk hlab
    rcases hcases hy with hy' | rfl <;> rcases hcases hz with hz' | rfl
    · exact h.inv.alone y hy' z hz' hyk hzk hlab
    · exact absurd (hlab.trans hx.label) (hfree y hy' hyk).1
    · exact absurd (hlab.symm.trans hx.label) (hfree z hz' hzk).1
    · rfl
  · intro y hy z hz hyk hzk hyr hzr
    rcases hcases hy with hy' | rfl <;> rcases hcases hz with hz' | rfl
    · exact h.inv.single y hy' z hz' hyk hzk hyr hzr
    · rw [(hfree y hy' hyk).2] at hyr; cases hyr
    · rw [(hfree z hz' hzk).2] at hzr; cases hzr
    · rfl
  · intro y hy hyk hst
    rcases hcases hy with hy | rfl
    · obtain ⟨id₀, hl₀, hs₀⟩ := h.inv.ran y hy hyk hst
      exact ⟨id₀, hl₀, List.mem_append_right _ hs₀⟩
    · refine ⟨id, hx.label, List.mem_append_left _ ?_⟩
      rw [hx.starts h.inv.docker, if_pos (hx.started hst)]
      exact List.mem_singleton.mpr rfl
  · intro t ht htk htc
    rcases List.mem_append.mp ht with ht | ht
    · rw [hsub t ht]
      exact ⟨x, hmem, rfl⟩
    · obtain ⟨y, hy, hyid⟩ := h.inv.held t ht htk htc
      exact ⟨y, hold y hy, hyid⟩
  · intro y hy id₀ hl₀
    rcases hcases hy with hy | rfl
    · exact h.inv.asked y hy id₀ hl₀
    · rw [hx.label] at hl₀
      cases hl₀
      rw [hx.key]
      exact h.inv.current _ hcur
  · intro t ht
    rcases List.mem_append.mp ht with ht | ht
    · rw [hsub t ht]
      exact h.inv.current _ hcur
    · exact h.inv.known t ht
  · intro t ht
    rcases List.mem_append.mp ht with ht | ht
    · rw [hsub t ht]
      refine ⟨List.mem_cons_self .., fun y hy hyid => ?_⟩
      rcases hcases hy with hy | rfl
      · exact absurd hyid (hx.fresh h.inv.docker y hy)
      · exact ⟨hx.key, hx.label⟩
    · exact hkept (h.inv.named t ht)
  · exact fun i hi => hkept (h.off i hi)
  · exact fun i hi => hkept (h.loose i hi)

end Made

/-- The plan's start: whether or not docker manages it, the invariant holds again. -/
theorem start_job {c : ServiceConfig} {i : Int} {p : Option Int} {b id : String} {r : Except String Unit}
    (h : Planned key ids spare reqs (some id) (w, g)) (hc : c.key = key) (hp : c.project ≠ "") (hsv : c.service ≠ "")
    (hid : id ≠ "") (hs : sem nodeId (.runContainer c i p b none (some id)) w r w') :
    Planned key ids spare reqs none (w', g.started w.docker w'.docker) := by
  have hdocker := dockerOk_sem h.inv.docker hs
  obtain ⟨docker, issued, hl, rfl⟩ := hs
  cases hl with
  | refused e => exact (h.frame (.same h.inv.docker rfl rfl)).forget
  | created e id' hnew hname => exact h.made (launched_made hc hp hsv hid hnew (.inl rfl)) hdocker
  | running id' hnew hname hport => exact h.made (launched_made hc hp hsv hid hnew (.inr rfl)) hdocker

/-! ### The rollout of another service -/

/-- A container of another key bears the name. -/
def Foreign (key name : String) (w : Node) : Prop := ∃ x ∈ w.docker, x.replica.name = name ∧ x.replica.key ≠ key

/-- Where nothing is removed, each container is still there. -/
theorem rely_stays (hr : Rely w w') (hids : w'.docker.map (·.replica.id) = w.docker.map (·.replica.id)) :
    ∀ x ∈ w.docker, ∃ y ∈ w'.docker, y.fixed = x.fixed := by
  have hsub := (rely_shuffle hr).1.sublist
  have hlen := congrArg List.length hids
  rw [List.length_map, List.length_map] at hlen
  have heq := hsub.eq_of_length (by rw [List.length_map, List.length_map, hlen])
  intro x hx
  have hm : x.fixed ∈ w'.docker.map Container.fixed := by
    rw [heq]
    exact List.mem_map.mpr ⟨x, hx, rfl⟩
  exact List.mem_map.mp hm

theorem foreign_rely {name : String} (h : Foreign key name w) (hr : Rely w w')
    (hids : w'.docker.map (·.replica.id) = w.docker.map (·.replica.id)) : Foreign key name w' := by
  obtain ⟨x, hx, hname, hkey⟩ := h
  obtain ⟨y, hy, hfix⟩ := rely_stays hr hids x hx
  exact ⟨y, hy, (Container.fixed_congr hfix).2.1.trans hname, fun hk => hkey ((fixed_key hfix).symm.trans hk)⟩

/-- The plan's knowledge while a surged replica of another key is probed. -/
structure Probing (key : String) (ids spare : List String) (reqs : List (String × String)) (next : Option String)
    (name : String) (c : Node × JobLog) : Prop where
  planned : Planned key ids spare reqs next c
  foreign : Foreign key name c.1

theorem probing_stable (name : String) :
    (watcher nodeId (jobRuns key)).Stable (Probing key ids spare reqs next name) := by
  rintro c c' h hr
  exact ⟨planned_rely h.planned hr, foreign_rely h.foreign hr.1 hr.2.1⟩

theorem planned_stable : (watcher nodeId (jobRuns key)).Stable (Planned key ids spare reqs next) :=
  fun _ _ h hr => planned_rely h hr

/-- The commands of a probe leave docker alone. -/
theorem probing_keeps {name : String} {o : Op} (ho : OffJob key ids spare reqs o) (hd : o.onDocker = false) :
    (watcher nodeId (jobRuns key)).Keeps (Probing key ids spare reqs next name) o := by
  intro c r c' h hs
  refine ⟨planned_keeps ho c r c' h.planned hs, ?_⟩
  obtain ⟨x, hx, hname, hkey⟩ := h.foreign
  refine ⟨x, ?_, hname, hkey⟩
  rw [(sem_same hs.1 hd).1]
  exact hx

theorem sat_awaitHealthy {name : String} {c : ServiceConfig} {hostPort : Option Int} {s : Node × JobLog}
    (h : Probing key ids spare reqs next name s) :
    Sat (watcher nodeId (jobRuns key)) (JobGuard nodeId key)
      (onResult (fun _ => Probing key ids spare reqs next name) fun _ => Planned key ids spare reqs next)
      (awaitHealthy c hostPort).run s := by
  unfold awaitHealthy
  split
  · rename_i hc port _
    have ho : OffJob key ids spare reqs (.waitHealthy port hc (rolloutHealthCeilingMs hc)) := trivial
    refine Sat.act (probing_stable name) h (fun s hs => jobGuard_off ho hs.planned) fun s r s' hs hsem => ?_
    exact Sat.ret (probing_stable name) (probing_keeps ho rfl s r s' hs hsem) fun _ h => h
  · exact Sat.ret (probing_stable name) h fun _ h => h

/-- Stopping the surged replica by its name stops a container of its own service. -/
theorem Probing.stop {name : String} {grace : Int} {c : Node × JobLog} {r : Except String Unit}
    (h : Probing key ids spare reqs next name c) (hs : sem nodeId (.stopContainer (.name name) grace) c.1 r w') :
    JobFrame key c.2 c.1 w' := by
  obtain ⟨x, hx, hname, hkey⟩ := h.foreign
  have hok := h.planned.inv.docker
  have hno : ∀ y ∈ c.1.docker, (ContainerRef.name name).picks y = true → y.replica.key ≠ key := by
    intro y hy hpick
    obtain rfl := List.inj_on_of_nodup_map hok.names hy hx ((beq_iff_eq.mp hpick).trans hname.symm)
    exact hkey
  have hdocker : DockerOk w' := dockerOk_sem hok hs
  rcases hs with ⟨-, rfl | rfl | rfl⟩
  · exact .same hok rfl rfl
  · exact .setStates hdocker rfl rfl fun y hy hpick hk => absurd hk (hno y hy hpick)
  · refine .filter hdocker rfl rfl fun y hy hk _ _ _ => ?_
    rw [Bool.not_eq_true', ← Bool.not_eq_true]
    exact fun hpick => hno y hy hpick hk

theorem sat_stopForeign {name : String} {grace : Int} {s : Node × JobLog}
    (h : Probing key ids spare reqs next name s) :
    Sat (watcher nodeId (jobRuns key)) (JobGuard nodeId key)
      (onResult (fun _ => Planned key ids spare reqs next) fun _ => Planned key ids spare reqs next)
      (stopContainer (.name name) grace).run s := by
  refine Sat.act (probing_stable name) h (fun s hs => ⟨hs.planned.inv, .inl fun _ _ hsem => hs.stop hsem⟩) ?_
  rintro ⟨w, g⟩ r ⟨w', g'⟩ hp ⟨hs, hg⟩
  dsimp only [jobRuns] at hs hg
  subst hg
  have hdone := hp.planned.frame (hp.stop hs)
  rcases r with e | u
  · exact Sat.ret planned_stable hdone fun _ h => h
  · exact Sat.ret planned_stable hdone fun _ h => h

theorem sat_abortSurge {c : ServiceConfig} {idx : Int} {draining : List String} {s : Node × JobLog}
    (h : Probing key ids spare reqs next (containerName c.project c.service idx) s) :
    Sat (watcher nodeId (jobRuns key)) (JobGuard nodeId key)
      (onResult (fun _ => Planned key ids spare reqs next) fun _ => Planned key ids spare reqs next)
      (abortSurge c idx draining).run s := by
  unfold abortSurge
  refine Sat.bindE (sat_stopForeign h) (fun _ => planned_stable) fun _ s hs => sat_offJob ?_ hs
  refine Uses.bindE ⟨trivial, fun _ => trivial⟩ fun _ => ?_
  refine Uses.bindE ⟨trivial, fun _ => trivial⟩ fun _ => ?_
  exact uses_forWeb fun _ => ⟨trivial, fun _ => trivial⟩

/-- The run of a surged replica leaves its name to it. -/
theorem sat_runForeign {c : ServiceConfig} {i : Int} {p : Option Int} {b : String} (hc : c.key ≠ key)
    {s : Node × JobLog} (h : Planned key ids spare reqs next s) :
    Sat (watcher nodeId (jobRuns key)) (JobGuard nodeId key)
      (onResult (fun _ => Probing key ids spare reqs next (containerName c.project c.service i))
        fun _ => Planned key ids spare reqs next) (runContainer c i p b none none).run s := by
  have ho : OffJob key ids spare reqs (.runContainer c i p b none none) := ⟨hc, fun id hid => by cases hid⟩
  refine Sat.act planned_stable h (fun s hs => jobGuard_off ho hs) fun s r s' hs hsem => ?_
  have hdone := planned_keeps ho s r s' hs hsem
  obtain ⟨⟨docker, issued, hl, hw⟩, -⟩ := hsem
  cases hl with
  | refused e => exact Sat.ret planned_stable hdone fun _ h => h
  | created e id hid hname => exact Sat.ret planned_stable hdone fun _ h => h
  | running id hid hname hport =>
    refine Sat.ret (probing_stable (containerName c.project c.service i)) ⟨hdone, launched c i p none none id .running, ?_, rfl, hc⟩
      fun _ h => h
    rw [hw]
    exact List.mem_append_right _ (List.mem_singleton.mpr rfl)

theorem sat_surgeForeign {c : ServiceConfig} {st : RolloutState} (hc : c.key ≠ key) {s : Node × JobLog}
    (h : Planned key ids spare reqs next s) :
    Sat (watcher nodeId (jobRuns key)) (JobGuard nodeId key)
      (onResult (fun _ => Planned key ids spare reqs next) fun _ => Planned key ids spare reqs next)
      (surgeOne c st).run s := by
  unfold surgeOne
  refine Sat.bindE (sat_offJob (uses_hostPortFor fun _ => trivial) h) (fun _ => planned_stable) fun p s hs => ?_
  refine Sat.bindE (sat_runForeign hc hs) (fun _ => planned_stable) fun _ s hs => ?_
  refine Sat.bindE (sat_awaitHealthy hs) (fun _ => planned_stable) fun healthy s hs => ?_
  split
  · refine sat_offJob ?_ hs.planned
    refine Uses.bindE (uses_forWeb fun _ => ?_) fun _ => trivial
    exact Uses.bindE ⟨trivial, fun _ => trivial⟩ fun _ => ⟨trivial, fun _ => trivial⟩
  · exact Sat.bindE (sat_abortSurge hs) (fun _ => planned_stable) fun _ s hs => Sat.ret planned_stable hs fun _ h => h

theorem uses_drainForeign {c : ServiceConfig} {st : RolloutState} {old : ManagedReplica} (hid : old.id ∈ ids) :
    Uses (OffJob key ids spare reqs) (drainOne c st old).run := by
  unfold drainOne divert
  refine Uses.bindE (uses_forWeb fun _ => ?_) fun _ => ?_
  · refine Uses.bindE ⟨trivial, fun _ => trivial⟩ fun _ => ?_
    refine Uses.bindE ⟨trivial, fun _ => trivial⟩ fun _ => ?_
    split
    · exact ⟨trivial, fun _ => trivial⟩
    · trivial
  · refine Uses.bindE ⟨hid, fun _ => trivial⟩ fun _ => ?_
    refine Uses.bindE ⟨trivial, fun _ => trivial⟩ fun _ => ?_
    exact ⟨trivial, fun _ => trivial⟩

/-- A rollout of another service. -/
theorem sat_rolloutForeign {c : ServiceConfig} {replicas : List ManagedReplica} (hc : c.key ≠ key)
    (hids : ∀ r ∈ replicas, r.id ∈ ids) {s : Node × JobLog} (h : Planned key ids spare reqs next s) :
    Sat (watcher nodeId (jobRuns key)) (JobGuard nodeId key)
      (onResult (fun _ => Planned key ids spare reqs next) fun _ => Planned key ids spare reqs next)
      (rolloutService c replicas).run s := by
  unfold rolloutService
  refine Sat.bindE (sat_offJob ⟨trivial, fun _ => trivial⟩ h) (fun _ => planned_stable) fun _ s hs => ?_
  refine Sat.bindE (R := fun _ => Planned key ids spare reqs next) ?_ (fun _ => planned_stable) fun converged s hs => ?_
  · refine sat_rolloutLoop (I := fun st s => (∀ r ∈ st.oldQueue, r.id ∈ ids) ∧ Planned key ids spare reqs next s)
      (fun _ => planned_stable) (fun _ => planned_stable) (fun st s _ _ h => h.2) ?_ ?_
      (fun st s s' h hr => ⟨h.1, planned_rely h.2 hr⟩) _ ⟨fun r hr => hids r (List.mem_filter.mp hr).1, hs⟩
    · intro st s _ hI
      refine (sat_surgeForeign hc hI.2).mono (fun _ _ h => h) fun r s hs => ?_
      cases r with
      | error e => exact hs
      | ok healthy => cases healthy with
        | true => exact ⟨hI.1, hs⟩
        | false => exact hs
    · intro st old rest s _ hq hI
      rw [hq] at hI
      refine (sat_offJob (uses_drainForeign (hI.1 old (List.mem_cons_self ..))) hI.2).mono (fun _ _ h => h) ?_
      intro r s hs
      cases r with
      | error e => exact hs
      | ok u => exact ⟨fun r hr => hI.1 r (List.mem_cons_of_mem _ hr), hs⟩
  · split
    · exact sat_offJob (uses_forWeb fun _ => ⟨trivial, fun _ => trivial⟩) hs
    · exact Sat.ret planned_stable hs fun _ h => h

/-! ### A whole plan -/

/-- The run of a request: pull, clear the name, start. -/
theorem sat_jobRun {c : ServiceConfig} {req : JobRunRequest} {previous : List ManagedReplica} (hc : c.key = key)
    (hp : c.project ≠ "") (hsv : c.service ≠ "") (hreq : c.jobRun = some req) (hid : req.id ≠ "")
    (hprev : ∀ r ∈ previous, r.id ∈ spare) {s : Node × JobLog} (h : Planned key ids spare reqs (some req.id) s) :
    Sat (watcher nodeId (jobRuns key)) (JobGuard nodeId key)
      (onResult (fun _ => Planned key ids spare reqs none) fun _ => Planned key ids spare reqs none)
      (applyOne (.jobRun c previous)).run s := by
  have hweak : ∀ {p : Eff Unit} {s : Node × JobLog},
      Sat (watcher nodeId (jobRuns key)) (JobGuard nodeId key)
        (onResult (fun _ => Planned key ids spare reqs (some req.id)) fun _ => Planned key ids spare reqs (some req.id))
        p.run s →
      Sat (watcher nodeId (jobRuns key)) (JobGuard nodeId key)
        (onResult (fun _ => Planned key ids spare reqs (some req.id)) fun _ => Planned key ids spare reqs none)
        p.run s := by
    intro p s hp
    refine hp.mono (fun _ _ h => h) fun r s hs => ?_
    cases r with
    | error e => exact Planned.forget hs
    | ok u => exact hs
  simp only [applyOne, hreq]
  refine Sat.bindE (hweak (sat_offJob ⟨trivial, fun _ => trivial⟩ h)) (fun _ => planned_stable) fun _ s hs => ?_
  refine Sat.bindE (hweak (sat_offJob (Uses.forM _ _ fun r hr => ⟨.inr (hprev r hr), fun _ => trivial⟩) hs))
    (fun _ => planned_stable) fun _ s hs => ?_
  refine Sat.act planned_stable hs (fun s hs => ⟨hs.inv, .inr ⟨c, _, _, _, req.id, rfl, hc, ?_⟩⟩) ?_
  · obtain ⟨hcur, hfree⟩ := hs.next req.id rfl
    refine ⟨hcur, fun x hx hxk => (hfree x hx hxk).2, fun hm => ?_⟩
    obtain ⟨t, ht, hte⟩ := List.mem_map.mp hm
    obtain ⟨ht, htk⟩ := List.mem_filter.mp ht
    replace htk := beq_iff_eq.mp htk
    obtain ⟨x, hx, hxid⟩ := hs.inv.held t ht htk (hte ▸ hcur)
    obtain ⟨hxk, hxl⟩ := (hs.inv.named t ht).2 x hx hxid
    exact (hfree x hx (hxk.trans htk)).1 (hte ▸ hxl)
  · rintro ⟨w, g⟩ r ⟨w', g'⟩ hw ⟨hsem, hg⟩
    dsimp only [jobRuns] at hsem hg
    subst hg
    have hdone := start_job hw hc hp hsv hid hsem
    rcases r with e | u
    · exact Sat.ret planned_stable hdone fun _ h => h
    · exact Sat.ret planned_stable hdone fun _ h => h

/-- A plan with at most one start for the key, the rest of other services. -/
inductive JobPlan (key : String) (ids spare : List String) (reqs : List (String × String)) :
    Option String → List Action → Prop
  | nil (next : Option String) : JobPlan key ids spare reqs next []
  | off {next : Option String} {a : Action} {l : List Action} :
      (∀ o, a.Issues o → OffJob key ids spare reqs o) → JobPlan key ids spare reqs next l →
      JobPlan key ids spare reqs next (a :: l)
  | rollout {next : Option String} {c : ServiceConfig} {replicas : List ManagedReplica} {l : List Action} :
      c.key ≠ key → (∀ r ∈ replicas, r.id ∈ ids) → JobPlan key ids spare reqs next l →
      JobPlan key ids spare reqs next (.rollout c replicas :: l)
  | run {c : ServiceConfig} {req : JobRunRequest} {previous : List ManagedReplica} {l : List Action} : c.key = key →
      c.project ≠ "" → c.service ≠ "" → c.jobRun = some req → req.id ≠ "" → (∀ r ∈ previous, r.id ∈ spare) →
      JobPlan key ids spare reqs none l → JobPlan key ids spare reqs (some req.id) (.jobRun c previous :: l)

/-- The handler of a failed action only records its error. -/
theorem sat_jobIsolated {a : Action} {s : Node × JobLog}
    (h : Sat (watcher nodeId (jobRuns key)) (JobGuard nodeId key)
      (onResult (fun _ => Planned key ids spare reqs next) fun _ => Planned key ids spare reqs next) (applyOne a).run s) :
    Sat (watcher nodeId (jobRuns key)) (JobGuard nodeId key)
      (onResult (fun _ => Planned key ids spare reqs next) fun _ => Planned key ids spare reqs next)
      (applyIsolated a).run s := by
  refine Sat.tryCatch h (fun _ => planned_stable) fun e s hs => sat_offJob ?_ hs
  split
  · exact ⟨trivial, fun _ => trivial⟩
  · trivial

theorem sat_jobPlan {l : List Action} (hl : JobPlan key ids spare reqs next l) :
    ∀ s, Planned key ids spare reqs next s →
      Sat (watcher nodeId (jobRuns key)) (JobGuard nodeId key) (fun _ => JobInv key) (applyActions l).run s := by
  have hdone : ∀ {next'} {p : Eff Unit} {s : Node × JobLog},
      Sat (watcher nodeId (jobRuns key)) (JobGuard nodeId key)
        (onResult (fun _ => Planned key ids spare reqs next') fun _ => Planned key ids spare reqs next') p.run s →
      ∀ {l}, (∀ s, Planned key ids spare reqs next' s →
        Sat (watcher nodeId (jobRuns key)) (JobGuard nodeId key) (fun _ => JobInv key) (applyActions l).run s) →
      Sat (watcher nodeId (jobRuns key)) (JobGuard nodeId key) (fun _ => JobInv key) (p >>= fun _ => applyActions l).run s := by
    intro next' p s hp l hl
    rw [ExceptT.run_bind]
    refine Sat.bind hp ?_
    rintro (e | u) s hs
    · exact Sat.ret planned_stable hs fun _ h => h.inv
    · exact hl s hs
  induction hl with
  | nil next => exact fun s h => Sat.ret planned_stable h fun _ h => h.inv
  | off ha _ ih => exact fun s h => hdone (sat_jobIsolated (sat_offJob ((uses_applyOne _).mono ha) h)) ih
  | rollout hc hids _ ih => exact fun s h => hdone (sat_jobIsolated (sat_rolloutForeign hc hids h)) ih
  | run hc hp hsv hreq hid hprev _ ih =>
    exact fun s h => hdone (sat_jobIsolated (sat_jobRun hc hp hsv hreq hid hprev h)) ih

/-- The removals at the end of a plan. -/
theorem jobPlan_removes {l : List Action}
    (h : ∀ a ∈ l, ∃ k rs, a = .remove k rs ∧ ∀ r ∈ rs, r.id ∈ ids ∨ r.id ∈ spare) :
    JobPlan key ids spare reqs next l := by
  induction l with
  | nil => exact .nil next
  | cons a l ih =>
    obtain ⟨k, rs, rfl, hrs⟩ := h a (List.mem_cons_self ..)
    refine .off ?_ (ih fun b hb => h b (List.mem_cons_of_mem _ hb))
    rintro o ⟨r, hr, rfl⟩
    exact hrs r hr

/-- An action of another service. -/
theorem jobPlan_foreign {c : ServiceConfig} {cron : Option CronPlanContext} {have_ : List ManagedReplica}
    (hc : c.key ≠ key) (hids : ∀ r ∈ have_, r.id ∈ ids)
    (hreqs : ∀ req, c.jobRun = some req → (c.key, req.id) ∈ reqs) {l : List Action}
    (hl : ∀ a ∈ l, a ∈ planService c have_ c.key cron) {rest : List Action}
    (h : JobPlan key ids spare reqs next rest) : JobPlan key ids spare reqs next (l ++ rest) := by
  induction l with
  | nil => exact h
  | cons a l ih =>
    have hmem := hl a (List.mem_cons_self ..)
    have htail := ih fun b hb => hl b (List.mem_cons_of_mem _ hb)
    obtain ⟨hreplicas, hstart⟩ := planService_replicas hmem
    rcases planService_config hmem with hconf | ⟨rs, rfl⟩
    · cases a with
      | remove k rs => cases hconf
      | rollout c' rs =>
        cases hconf
        exact .rollout hc (fun r hr => hids r (hreplicas r hr)) htail
      | noop c' => exact .off (fun o ho => ho.elim) htail
      | scaleDown c' rs =>
        refine .off ?_ htail
        rintro o ⟨r, hr, rfl | rfl⟩
        · exact .inl (hids r (hreplicas r hr))
        · trivial
      | start c' i id =>
        refine .off ?_ htail
        rintro o rfl
        obtain ⟨r, hr, rfl⟩ := hstart c' i id rfl
        exact hids r hr
      | create c' i =>
        cases hconf
        refine .off ?_ htail
        rintro o (rfl | rfl | ⟨p, rfl⟩)
        · trivial
        · trivial
        · exact ⟨hc, fun id hid => by cases hid⟩
      | cronRun c' fire rs =>
        cases hconf
        refine .off ?_ htail
        rintro o (rfl | ⟨r, hr, rfl⟩ | rfl | rfl)
        · trivial
        · exact .inl (hids r (hreplicas r hr))
        · trivial
        · exact ⟨hc, fun id hid => by cases hid⟩
      | jobRun c' rs =>
        cases hconf
        refine .off ?_ htail
        rintro o (rfl | ⟨r, hr, rfl⟩ | ⟨req, hreq, rfl⟩)
        · trivial
        · exact .inl (hids r (hreplicas r hr))
        · refine ⟨hc, fun id hid => ?_⟩
          cases hid
          exact hreqs req hreq
      | cronSkip c' fire =>
        refine .off ?_ htail
        rintro o rfl
        trivial
      | backupRun c' fire =>
        refine .off ?_ htail
        rintro o rfl
        trivial
    · refine .off ?_ htail
      rintro o ⟨r, hr, rfl⟩
      exact .inl (hids r (hreplicas r hr))

end Plan

end LaunchPad.Agent
