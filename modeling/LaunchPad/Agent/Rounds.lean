/-
  LaunchPad.Agent.Rounds — the actions of a plan on a node where every command does what it
  is told: what each does to the containers of its service (`reconcile.rs` `apply_one`,
  `rollout_service`).

  A command succeeds when it reports no failure, and what it removes or waits for is then
  gone, or healthy. The containers of a key are one part of the node; an action works on one.

  Proved:
  - `does_rolloutService`: the rule of a rollout, over what its loop keeps of the key's
    containers; `rolling_rule`: it makes replicas with indices of their own.
  - `does_starts`, `does_creates`, `does_scaleDown`, `does_removes`: what the other actions
    of a plan leave, started together from the same listing.
  - `freeIndices_spec`: the planner's indices are free, and as many as it asks for.
-/
import LaunchPad.Agent.Liveness
import LaunchPad.Lib.Parts
import LaunchPad.Lib.Probe

namespace LaunchPad.Agent.Rounds

open Lib Lib.Probe Reconciler

/-! ## When everything works -/

/-- The command succeeds: what is removed is gone, and what is waited for becomes healthy. -/
def Works : (o : Op) → Resp o → Node → Prop
  | .waitHealthy .., r, _ => r = true
  | .stopContainer container _, r, w' => r = .ok () ∧ ∀ x ∈ w'.docker, container.picks x = false
  | .removeContainer id, r, w' => r = .ok () ∧ ∀ x ∈ w'.docker, hasId id x = false
  | o, r, _ => Liveness.Succeeded o r

/-- Containers stay as the commands leave them. -/
def working (nodeId : String) : Machine Resp Node := ⟨fun o w r w' => sem nodeId o w r w' ∧ Works o r w', fun _ _ => False⟩

/-- The containers of a key. -/
def own (key : String) (w : Node) : List Container := w.docker.filter (·.replica.key == key)

/-- As the document wants them, with an index each. -/
structure Good (c : ServiceConfig) (l : List Container) : Prop where
  indices : (l.map (·.replica.index)).Nodup
  current : ∀ x ∈ l, replicaNeedsReplace x.replica c = false

/-- And all of them, running. -/
structure Exact (c : ServiceConfig) (l : List Container) : Prop extends Good c l where
  count : (l.length : Int) = c.replicas
  running : ∀ x ∈ l, x.replica.running = true

/-! ## What commands do to the containers of a key -/

/-- Every creation of a replica finds `C`. -/
def Creates (C : ServiceConfig → Int → Node → Prop) : Op → Node → Prop
  | .runContainer c i _ _ _ _, w => C c i w
  | _, _ => True

/-- Its service does not have the index. -/
def Unused (c : ServiceConfig) (i : Int) (w : Node) : Prop := ∀ x ∈ own c.key w, x.replica.index ≠ i

/-- Between two commands. -/
structure Between (l : List ManagedReplica) (w : Node) : Prop where
  docker : DockerOk w
  recalled : Recalled l w
  labelled : ∀ x ∈ w.docker, labelled x.replica = true

/-- An action of `k` is under way, which began in `v`. -/
structure Turn (l : List ManagedReplica) (k : String) (v : Node) (P : List Container → Prop) (w : Node) : Prop extends
    Between l w where
  others : ∀ j, j ≠ k → own j w = own j v
  mine : P (own k w)

section Commands

variable {nodeId k : String} {l : List ManagedReplica} {v w w' : Node} {P P' : List Container → Prop} {c : ServiceConfig} {i : Int}

theorem mem_own {x : Container} : x ∈ own k w ↔ x ∈ w.docker ∧ x.replica.key = k := by
  rw [own, List.mem_filter, beq_iff_eq]

theorem Turn.quiet (h : Turn l k v P w) (hd : w'.docker = w.docker) (hi : w'.issued = w.issued) : Turn l k v P w' := by
  have hsame : ∀ j, own j w' = own j w := fun j => by rw [own, own, hd]
  refine ⟨⟨h.docker.congr hd hi, h.recalled.frame hi ?_, ?_⟩, fun j hj => (hsame j).trans (h.others j hj), ?_⟩
  · rw [hd]
    exact fun x hx => ⟨x, hx, rfl⟩
  · rw [hd]
    exact h.labelled
  · rw [hsame]
    exact h.mine

/-- A new container of the key. -/
theorem Turn.add (h : Turn l k v P w) (hdocker : DockerOk w') (hrecalled : Recalled l w') {x : Container}
    (hd : w'.docker = w.docker ++ [x]) (hk : x.replica.key = k) (hlabel : labelled x.replica = true)
    (hP : P (own k w) → P' (own k w ++ [x])) : Turn l k v P' w' := by
  refine ⟨⟨hdocker, hrecalled, fun y hy => ?_⟩, fun j hj => ?_, ?_⟩
  · rw [hd] at hy
    rcases List.mem_append.mp hy with hy | hy
    · exact h.labelled y hy
    · rw [List.mem_singleton.mp hy]
      exact hlabel
  · have hout : (x.replica.key == j) = false := by simpa [hk] using Ne.symm hj
    rw [← h.others j hj, own, own, hd, List.filter_append, List.filter_singleton, hout]
    exact List.append_nil _
  · have hin : (x.replica.key == k) = true := by simpa using hk
    have hown : own k w' = own k w ++ [x] := by
      rw [own, own, hd, List.filter_append, List.filter_singleton, hin]
      rfl
    rw [hown]
    exact hP h.mine

/-- Containers of the key are removed. -/
theorem Turn.drop {p : Container → Bool} (h : Turn l k v P w) (hdocker : DockerOk w') (hi : w'.issued = w.issued)
    (hd : w'.docker = w.docker.filter (!p ·)) (hp : ∀ x ∈ w.docker, p x = true → x.replica.key = k)
    (hP : P (own k w) → P' ((own k w).filter (!p ·))) : Turn l k v P' w' := by
  have hown : ∀ j, own j w' = (own j w).filter (!p ·) := by
    intro j
    rw [own, own, hd, List.filter_filter, List.filter_filter]
    exact List.filter_congr fun x _ => Bool.and_comm _ _
  refine ⟨⟨hdocker, h.recalled.frame hi ?_, ?_⟩, fun j hj => ?_, ?_⟩
  · rw [hd]
    exact fun x hx => ⟨x, (List.mem_filter.mp hx).1, rfl⟩
  · rw [hd]
    exact fun x hx => h.labelled x (List.mem_filter.mp hx).1
  · rw [hown, ← h.others j hj]
    refine List.filter_eq_self.mpr fun x hx => ?_
    obtain ⟨hx, hkey⟩ := mem_own.mp hx
    cases hpick : p x with
    | false => rfl
    | true => exact absurd (hkey.symm.trans (hp x hx hpick)) hj
  · rw [hown]
    exact hP h.mine

/-- Containers of the key are started. -/
theorem Turn.start {p : Container → Bool} (h : Turn l k v P w) (hdocker : DockerOk w') (hi : w'.issued = w.issued)
    (hd : w'.docker = setStates p .running false w.docker) (hp : ∀ x ∈ w.docker, p x = true → x.replica.key = k)
    (hP : P (own k w) → P' (setStates p .running false (own k w))) : Turn l k v P' w' := by
  have hown : ∀ j, own j w' = setStates p .running false (own j w) := by
    intro j
    rw [own, own, hd, setStates, setStates, List.filter_map]
    congr 1
    refine List.filter_congr fun x _ => ?_
    simp only [Function.comp]
    split <;> rfl
  have hfixed : w'.docker.map Container.fixed = w.docker.map Container.fixed := by
    rw [hd, setStates]
    exact map_fixed p (fun x => x.setState .running false) (fun _ => rfl) _
  refine ⟨⟨hdocker, h.recalled.frame hi (origin_of_fixed hfixed), fun x hx => ?_⟩, fun j hj => ?_, ?_⟩
  · obtain ⟨y, hy, hfix⟩ := origin_of_fixed hfixed x hx
    have hsame := same_of_fixed hfix
    have hlabel := h.labelled y hy
    unfold Agent.labelled at hlabel ⊢
    rwa [hsame.project, hsame.service] at hlabel
  · rw [hown, ← h.others j hj, setStates]
    refine (List.map_congr_left fun x hx => ?_).trans (List.map_id _)
    obtain ⟨hx, hkey⟩ := mem_own.mp hx
    split
    · rename_i hpick
      exact absurd (hkey.symm.trans (hp x hx hpick)) hj
    · rfl
  · rw [hown]
    exact hP h.mine

end Commands

/-! ## Steps of an action -/

/-- The rest of the action does not fail, and ends in `Q`. -/
abbrev Does {α : Type} (nodeId : String) (C : ServiceConfig → Int → Node → Prop) (l : List ManagedReplica) (k : String) (v : Node)
    (Q : α → List Container → Prop) (e : Eff α) (w : Node) : Prop :=
  Sat (working nodeId) (Creates C) (onResult (fun a => Turn l k v (Q a)) fun _ _ => False) e.run w

section Steps

variable {nodeId k : String} {C : ServiceConfig → Int → Node → Prop} {l : List ManagedReplica} {v w : Node}
  {P P' : List Container → Prop} {c : ServiceConfig} {i : Int}

theorem working_stable (P : Node → Prop) : (working nodeId).Stable P := fun _ _ _ h => h.elim

theorem sat_ret {α : Type} {Q : α → Node → Prop} {a : α} (h : Q a w) : Sat (working nodeId) (Creates C) Q (.ret a) w :=
  Sat.ret (P := fun x => x = w) (working_stable _) rfl fun _ hx => hx ▸ h

theorem sat_act {α : Type} {Q : α → Node → Prop} {o : Op} {cont : Resp o → Prog Resp α} (hG : Creates C o w)
    (hk : ∀ r w', sem nodeId o w r w' → Works o r w' → Sat (working nodeId) (Creates C) Q (cont r) w') :
    Sat (working nodeId) (Creates C) Q (.act o cont) w :=
  Sat.act (P := fun x => x = w) (working_stable _) rfl (fun _ hx => hx ▸ hG) fun _ r w' hx hs => hk r w' (hx ▸ hs.1) hs.2

theorem Does.bind {α β : Type} {R : β → List Container → Prop} {Q : α → List Container → Prop} {e : Eff β} {f : β → Eff α}
    (h : Does nodeId C l k v R e w) (hf : ∀ b w', Turn l k v (R b) w' → Does nodeId C l k v Q (f b) w') :
    Does nodeId C l k v Q (e >>= f) w :=
  Sat.bindE h (fun _ => working_stable _) hf

theorem Does.weaken {α : Type} {Q Q' : α → List Container → Prop} {e : Eff α} (h : Does nodeId C l k v Q e w)
    (hQ : ∀ a o, Q a o → Q' a o) : Does nodeId C l k v Q' e w := by
  refine h.mono (fun _ _ h => h) fun res w h => ?_
  cases res with
  | error e => exact h
  | ok a => exact ⟨h.toBetween, h.others, hQ a _ h.mine⟩

theorem does_pure {α : Type} {Q : α → List Container → Prop} {a : α} (h : Turn l k v (Q a) w) : Does nodeId C l k v Q (pure a) w :=
  sat_ret h

theorem does_pull (h : Turn l k v P w) (image : String) : Does nodeId C l k v (fun _ => P) (pull image) w := by
  refine sat_act trivial fun r w' hs hworks => ?_
  obtain rfl : r = .ok () := hworks
  exact sat_ret (h.quiet (sem_same hs rfl).1 (sem_same hs rfl).2)

theorem does_refresh (h : Turn l k v P w) (ids : List String) : Does nodeId C l k v (fun _ => P) (refreshRouting ids) w := by
  refine sat_act trivial fun r w' hs hworks => ?_
  obtain rfl : r = .ok () := hworks
  exact sat_ret (h.quiet (sem_same hs rfl).1 (sem_same hs rfl).2)

theorem does_heartbeat (h : Turn l k v P w) : Does nodeId C l k v (fun _ => P) heartbeat w :=
  sat_act trivial fun _ _ hs _ => sat_ret (h.quiet (sem_same hs rfl).1 (sem_same hs rfl).2)

theorem does_sleep (h : Turn l k v P w) (ms : Int) : Does nodeId C l k v (fun _ => P) (sleepMs ms) w :=
  sat_act trivial fun _ _ hs _ => sat_ret (h.quiet (sem_same hs rfl).1 (sem_same hs rfl).2)

theorem does_release (h : Turn l k v P w) (key : String) (index : Int) :
    Does nodeId C l k v (fun _ => P) (Reconciler.releasePort key index) w :=
  sat_act trivial fun _ _ hs _ => sat_ret (h.quiet (sem_same hs rfl).1 (sem_same hs rfl).2)

theorem does_forWeb {e : Eff Unit} (h : Turn l k v P w) (he : Does nodeId C l k v (fun _ => P) e w) :
    Does nodeId C l k v (fun _ => P) (forWeb c e) w := by
  unfold forWeb
  split
  · exact he
  · exact does_pure h

theorem does_hostPortFor (h : Turn l k v P w) : Does nodeId C l k v (fun _ => P) (hostPortFor c i) w := by
  unfold hostPortFor
  split
  · exact sat_act trivial fun _ _ hs _ => sat_ret (h.quiet (sem_same hs rfl).1 (sem_same hs rfl).2)
  · exact does_pure h

theorem does_await (h : Turn l k v P w) (hostPort : Option Int) :
    Does nodeId C l k v (fun healthy o => healthy = true ∧ P o) (awaitHealthy c hostPort) w := by
  unfold awaitHealthy
  split
  · refine sat_act trivial fun r w' hs hworks => ?_
    obtain rfl : r = true := hworks
    have hdone := h.quiet (sem_same hs rfl).1 (sem_same hs rfl).2
    exact sat_ret ⟨hdone.toBetween, hdone.others, rfl, hdone.mine⟩
  · exact does_pure ⟨h.toBetween, h.others, rfl, h.mine⟩

/-- A replica is created. -/
theorem does_run {hostPort : Option Int} {bind : String} (h : Turn l k v P w) (hk : c.key = k)
    (hlabel : c.project ≠ "" ∧ c.service ≠ "") (hC : C c i w)
    (hP : ∀ o id, P o → P' (o ++ [launched c i hostPort none none id .running])) :
    Does nodeId C l k v (fun _ => P') (runContainer c i hostPort bind none none) w := by
  refine sat_act hC fun r w' hs hworks => ?_
  obtain rfl : r = .ok () := hworks
  have hdocker := dockerOk_sem h.docker hs
  obtain ⟨docker, issued, hl, hw⟩ := hs
  have hrecalled : Recalled l w' := h.recalled.launch hl (fun _ _ => rfl) (by rw [hw]) (by rw [hw])
  cases hl with
  | running id hid hname hport =>
    have hd : w'.docker = w.docker ++ [launched c i hostPort none none id .running] := by rw [hw]
    refine sat_ret (h.add hdocker hrecalled hd hk ?_ (hP _ id))
    simp [labelled, launched, hlabel]

/-- A listed container of the key is started. -/
theorem does_start {r : ManagedReplica} (h : Turn l k v P w) (hr : r ∈ l) (hk : r.key = k)
    (hP : ∀ o, P o → P' (setStates (hasId r.id) .running false o)) : Does nodeId C l k v (fun _ => P') (startContainer r.id) w := by
  refine sat_act trivial fun res w' hs hworks => ?_
  obtain rfl : res = .ok () := hworks
  have hdocker := dockerOk_sem h.docker hs
  rcases hs with ⟨e, he, -⟩ | ⟨-, x, hx, hid, -, rfl⟩
  · cases he
  · refine sat_ret (h.start hdocker rfl rfl ?_ (hP _))
    exact fun y hy hpick => ((h.recalled r hr).2 y hy (beq_iff_eq.mp hpick)).1.trans hk

theorem does_remove {r : ManagedReplica} (h : Turn l k v P w) (hr : r ∈ l) (hk : r.key = k)
    (hP : ∀ o, P o → P' (o.filter (!hasId r.id ·))) : Does nodeId C l k v (fun _ => P') (removeContainer r.id) w := by
  refine sat_act trivial fun res w' hs hworks => ?_
  have hdocker := dockerOk_sem h.docker hs
  obtain ⟨rfl, rfl⟩ := sem_removed hs hworks.2
  refine sat_ret (h.drop hdocker rfl rfl ?_ (hP _))
  exact fun y hy hpick => ((h.recalled r hr).2 y hy (beq_iff_eq.mp hpick)).1.trans hk

theorem does_stop {r : ManagedReplica} {grace : Int} (h : Turn l k v P w) (hr : r ∈ l) (hk : r.key = k)
    (hP : ∀ o, P o → P' (o.filter (!hasId r.id ·))) : Does nodeId C l k v (fun _ => P') (stopContainer (.id r.id) grace) w := by
  refine sat_act trivial fun res w' hs hworks => ?_
  have hdocker := dockerOk_sem h.docker hs
  obtain ⟨rfl, rfl⟩ := sem_stopped hs hworks.2
  refine sat_ret (h.drop (p := hasId r.id) hdocker rfl rfl ?_ (hP _))
  exact fun y hy hpick => ((h.recalled r hr).2 y hy (beq_iff_eq.mp hpick)).1.trans hk

end Steps

/-! ## A rollout -/

section Rollout

variable {nodeId k : String} {C : ServiceConfig → Int → Node → Prop} {l : List ManagedReplica} {v w : Node} {c : ServiceConfig}

/-- Where the loop of a rollout stands: what must be replaced is in the queue, and every
    index is below the next one as long as one is needed. -/
structure Rolling (c : ServiceConfig) (s : RolloutState) (o : List Container) : Prop where
  indices : (o.map (·.replica.index)).Nodup
  queued : ∀ x ∈ o, replicaNeedsReplace x.replica c = true → ∃ r ∈ s.oldQueue, r.id = x.replica.id
  below : s.newCount < c.replicas → (∀ x ∈ o, x.replica.index < s.nextIndex) ∧
    -i64Max - 1 ≤ s.nextIndex ∧ s.nextIndex + (c.replicas - s.newCount) ≤ i64Max + 1

theorem launched_current (c : ServiceConfig) (i : Int) (p : Option Int) (id : String) (s : ContainerState) :
    replicaNeedsReplace (launched c i p none none id s).replica c = false := by
  simp [replicaNeedsReplace, launched]

theorem Rolling.surged {s : RolloutState} {o : List Container} (h : Rolling c s o) (hsurge : s.newCount < c.replicas)
    (p : Option Int) (id : String) : Rolling c s.surged (o ++ [launched c s.nextIndex p none none id .running]) := by
  obtain ⟨hbelow, hlow, hroom⟩ := h.below hsurge
  refine ⟨?_, fun x hx hold => ?_, fun hmore => ?_⟩
  · rw [List.map_append, List.nodup_append]
    refine ⟨h.indices, List.nodup_singleton _, fun a ha b hb => ?_⟩
    obtain ⟨x, hx, rfl⟩ := List.mem_map.mp ha
    rw [List.mem_singleton.mp hb]
    exact Int.ne_of_lt (hbelow x hx)
  · rcases List.mem_append.mp hx with hx | hx
    · exact h.queued x hx hold
    · rw [List.mem_singleton.mp hx, launched_current] at hold
      cases hold
  · have hmore : s.newCount + 1 < c.replicas := hmore
    have hnext : s.surged.nextIndex = s.nextIndex + 1 := i64_exact (by omega) (by omega)
    have hcount : s.surged.newCount = s.newCount + 1 := rfl
    rw [hnext, hcount]
    refine ⟨fun x hx => ?_, by omega, by omega⟩
    rcases List.mem_append.mp hx with hx | hx
    · have := hbelow x hx
      omega
    · rw [List.mem_singleton.mp hx]
      exact Int.lt_succ s.nextIndex

theorem Rolling.drained {s : RolloutState} {o : List Container} {old : ManagedReplica} {rest : List ManagedReplica}
    (h : Rolling c s o) (hq : s.oldQueue = old :: rest) : Rolling c (s.drained old rest) (o.filter (!hasId old.id ·)) := by
  refine ⟨h.indices.sublist (List.filter_sublist.map _), fun x hx hold => ?_, fun hmore => ?_⟩
  · obtain ⟨hx, hkeep⟩ := List.mem_filter.mp hx
    obtain ⟨r, hr, hid⟩ := h.queued x hx hold
    rw [hq] at hr
    rcases List.mem_cons.mp hr with rfl | hr
    · simp [hasId, hid] at hkeep
    · exact ⟨r, hr, hid⟩
  · obtain ⟨hbelow, hlow, hroom⟩ := h.below hmore
    exact ⟨fun x hx => hbelow x (List.mem_filter.mp hx).1, hlow, hroom⟩

theorem Rolling.good {s : RolloutState} {o : List Container} (h : Rolling c s o) (hq : s.oldQueue = []) : Good c o := by
  refine ⟨h.indices, fun x hx => ?_⟩
  rw [← Bool.not_eq_true]
  intro hold
  obtain ⟨r, hr, -⟩ := h.queued x hx hold
  rw [hq] at hr
  cases hr

/-- What both branches of the loop keep, over the containers of the key alone. -/
structure LoopRule (C : ServiceConfig → Int → Node → Prop) (c : ServiceConfig) (R : RolloutState → List Container → Prop) : Prop where
  free : ∀ s o w, s.canSurge c = true → R s o → own c.key w = o → C c s.nextIndex w
  surged : ∀ s o p id, s.canSurge c = true → R s o → R s.surged (o ++ [launched c s.nextIndex p none none id .running])
  drained : ∀ s o old rest, s.oldQueue = old :: rest → R s o → R (s.drained old rest) (o.filter (!hasId old.id ·))

variable {R : RolloutState → List Container → Prop}

theorem does_surgeOne (hR : LoopRule C c R) {s : RolloutState} (h : Turn l k v (R s) w) (hk : c.key = k)
    (hlabel : c.project ≠ "" ∧ c.service ≠ "") (hroom : s.canSurge c = true) :
    Does nodeId C l k v (fun healthy o => healthy = true ∧ R s.surged o) (surgeOne c s) w := by
  unfold surgeOne
  refine (does_hostPortFor h).bind fun hostPort w h => ?_
  have hfree := hR.free s _ w hroom (hk ▸ h.mine) rfl
  refine (does_run h hk hlabel hfree fun o id ho => hR.surged s o hostPort id hroom ho).bind fun _ w h => ?_
  refine (does_await h hostPort).bind fun healthy w h => ?_
  obtain ⟨rfl, hrolling⟩ := h.mine
  have hdone : Turn l k v (R s.surged) w := ⟨h.toBetween, h.others, hrolling⟩
  refine Does.bind (R := fun _ => R s.surged) (does_forWeb hdone ?_) fun _ w h => ?_
  · exact (does_refresh hdone s.draining).bind fun _ w h => does_heartbeat h
  · exact does_pure ⟨h.toBetween, h.others, rfl, h.mine⟩

theorem does_drainOne (hR : LoopRule C c R) {s : RolloutState} {old : ManagedReplica} {rest : List ManagedReplica}
    (h : Turn l k v (R s) w) (hold : old ∈ l) (hk : old.key = k) (hq : s.oldQueue = old :: rest) :
    Does nodeId C l k v (fun _ => R (s.drained old rest)) (drainOne c s old) w := by
  unfold drainOne divert
  refine (does_forWeb h ?_).bind fun _ w h => ?_
  · refine (does_refresh h _).bind fun _ w h => (does_heartbeat h).bind fun _ w h => ?_
    split
    · exact does_sleep h _
    · exact does_pure h
  refine (does_stop h hold hk fun o ho => hR.drained s o old rest hq ho).bind fun _ w h => ?_
  exact (does_release h _ _).bind fun _ w h => does_heartbeat h

theorem does_rolloutService (hR : LoopRule C c R) {current : List ManagedReplica} (h : Turn l k v (R (.init c current)) w)
    (hk : c.key = k) (hlabel : c.project ≠ "" ∧ c.service ≠ "") (hold : ∀ r ∈ current, r ∈ l ∧ r.key = k) :
    Does nodeId C l k v (fun _ o => ∃ s, s.oldQueue = [] ∧ R s o) (rolloutService c current) w := by
  unfold rolloutService
  refine (does_pull h c.image).bind fun _ w h => ?_
  refine Does.bind (R := fun converged o => converged = true ∧ ∃ s, s.oldQueue = [] ∧ R s o) ?_ fun converged w h => ?_
  · refine sat_rolloutLoop (I := fun s w => (∀ r ∈ s.oldQueue, r ∈ l ∧ r.key = k) ∧ Turn l k v (R s) w)
      (fun _ => working_stable _) (fun _ => working_stable _) ?_ ?_ ?_ (fun _ => working_stable _) _
      ⟨fun r hr => hold r (List.mem_filter.mp hr).1, h⟩
    · intro s w _ hq hI
      exact ⟨hI.2.toBetween, hI.2.others, rfl, s, hq, hI.2.mine⟩
    · intro s w hroom hI
      refine (does_surgeOne hR hI.2 hk hlabel hroom).mono (fun _ _ h => h) fun r w h => ?_
      cases r with
      | error e => exact h
      | ok healthy =>
        obtain ⟨rfl, hrolling⟩ := h.mine
        exact ⟨hI.1, h.toBetween, h.others, hrolling⟩
    · intro s old rest w _ hq hI
      obtain ⟨hm, hkey⟩ := hI.1 old (hq ▸ List.mem_cons_self ..)
      refine (does_drainOne hR hI.2 hm hkey hq).mono (fun _ _ h => h) fun r w h => ?_
      cases r with
      | error e => exact h
      | ok u => exact ⟨fun r hr => hI.1 r (hq ▸ List.mem_cons_of_mem _ hr), h⟩
  · obtain ⟨rfl, hdone⟩ := h.mine
    have hdone : Turn l k v (fun o => ∃ s, s.oldQueue = [] ∧ R s o) w := ⟨h.toBetween, h.others, hdone⟩
    exact does_forWeb hdone (does_refresh hdone [])

/-- A rollout creates replicas with indices of their own. -/
theorem rolling_rule (c : ServiceConfig) : LoopRule Unused c (Rolling c) where
  free s o w hroom h ho x hx := by
    rw [ho] at hx
    exact Int.ne_of_lt ((h.below (RolloutState.canSurge_iff.mp hroom).1).1 x hx)
  surged s o p id hroom h := h.surged (RolloutState.canSurge_iff.mp hroom).1 p id
  drained s o old rest hq h := h.drained hq

end Rollout

/-! ## The other actions -/

section Actions

variable {nodeId k : String} {C : ServiceConfig → Int → Node → Prop} {l : List ManagedReplica} {v w : Node} {c : ServiceConfig}

theorem does_isolated {P : List Container → Prop} {a : Action} (h : Does nodeId C l k v (fun _ => P) (applyOne a) w) :
    Does nodeId C l k v (fun _ => P) (applyIsolated a) w :=
  Sat.tryCatch h (fun _ => working_stable _) fun _ _ hw => hw.elim

/-- A loop, over what is still to be done. -/
theorem does_each {γ : Type} {J : List γ → List Container → Prop} {f : γ → Eff Unit} {xs : List γ}
    (hf : ∀ x xs w, Turn l k v (J (x :: xs)) w → Does nodeId C l k v (fun _ => J xs) (f x) w) (h : Turn l k v (J xs) w) :
    Does nodeId C l k v (fun _ => J []) (forM xs f) w :=
  Sat.forM_rest (I := fun xs => Turn l k v (J xs)) (working_stable _) (fun _ => working_stable _) hf h

/-- Replicas of the key, as they were listed. -/
def Among (l : List ManagedReplica) (k : String) (rs : List ManagedReplica) : Prop := ∀ r ∈ rs, r ∈ l ∧ r.key = k

theorem Among.tail {r : ManagedReplica} {rs : List ManagedReplica} (h : Among l k (r :: rs)) : Among l k rs :=
  fun r' hr' => h r' (List.mem_cons_of_mem _ hr')

theorem Among.head {r : ManagedReplica} {rs : List ManagedReplica} (h : Among l k (r :: rs)) : r ∈ l ∧ r.key = k :=
  h r (List.mem_cons_self ..)

/-- The containers of before; the stopped ones are still to be started. -/
structure Waking (o₀ : List Container) (rest : List ManagedReplica) (o : List Container) : Prop where
  fixed : o.map Container.fixed = o₀.map Container.fixed
  stopped : ∀ x ∈ o, x.replica.running = false → ∃ r ∈ rest, r.id = x.replica.id

theorem Waking.step {o₀ o : List Container} {r : ManagedReplica} {rest : List ManagedReplica} (h : Waking o₀ (r :: rest) o) :
    Waking o₀ rest (setStates (hasId r.id) .running false o) where
  fixed := by
    rw [setStates, map_fixed (hasId r.id) (fun x => x.setState .running false) fun _ => rfl]
    exact h.fixed
  stopped x hx hstop := by
    obtain ⟨y, hy, rfl⟩ := List.mem_map.mp hx
    split at hstop
    · cases hstop
    · rename_i hother
      rw [if_neg hother]
      obtain ⟨r', hr', hid⟩ := h.stopped y hy hstop
      rcases List.mem_cons.mp hr' with rfl | hr'
      · exact absurd (beq_iff_eq.mpr hid.symm) hother
      · exact ⟨r', hr', hid⟩

theorem does_starts {o₀ : List Container} {rs : List ManagedReplica} (h : Turn l k v (Waking o₀ rs) w) (hl : Among l k rs) :
    Does nodeId C l k v (fun _ => Waking o₀ []) (forM (rs.map fun r => Action.start c r.index r.id) applyIsolated) w := by
  rw [List.forM_map]
  refine (does_each (J := fun rest o => Among l k rest ∧ Waking o₀ rest o) (fun r rest w h => ?_)
    ⟨h.toBetween, h.others, hl, h.mine⟩).weaken fun _ _ ho => ho.2
  refine does_isolated (does_start h h.mine.1.head.1 h.mine.1.head.2 ?_)
  exact fun o ho => ⟨ho.1.tail, ho.2.step⟩

/-- As the document wants them, and running, with replicas of these indices still to come. -/
structure Filling (c : ServiceConfig) (rest : List Int) (o : List Container) : Prop where
  indices : (o.map (·.replica.index) ++ rest).Nodup
  current : ∀ x ∈ o, replicaNeedsReplace x.replica c = false
  running : ∀ x ∈ o, x.replica.running = true
  count : (o.length : Int) + rest.length = c.replicas

theorem Filling.step {o : List Container} {i : Int} {rest : List Int} (h : Filling c (i :: rest) o) (p : Option Int)
    (id : String) : Filling c rest (o ++ [launched c i p none none id .running]) where
  indices := by
    rw [List.map_append, List.append_assoc]
    exact h.indices
  current x hx := by
    rcases List.mem_append.mp hx with hx | hx
    · exact h.current x hx
    · rw [List.mem_singleton.mp hx, launched_current]
  running x hx := by
    rcases List.mem_append.mp hx with hx | hx
    · exact h.running x hx
    · rw [List.mem_singleton.mp hx]
      rfl
  count := by
    have := h.count
    rw [List.length_cons] at this
    rw [List.length_append, List.length_singleton]
    omega

theorem Filling.exact {o : List Container} (h : Filling c [] o) : Exact c o where
  indices := by simpa using h.indices
  current := h.current
  count := by simpa using h.count
  running := h.running

/-- A replica that is made has an index that the service does not. -/
theorem Filling.unused {o : List Container} {i : Int} {rest : List Int} (h : Filling c (i :: rest) o) :
    ∀ x ∈ o, x.replica.index ≠ i := by
  intro x hx he
  have hdisjoint := (List.nodup_append.mp h.indices).2.2
  exact hdisjoint _ (List.mem_map.mpr ⟨x, hx, rfl⟩) i (List.mem_cons_self ..) he

/-- What a creation finds, when it is one that a plan lists. -/
theorem does_create {P P' : List Container → Prop} {i : Int} (h : Turn l k v P w) (hk : c.key = k)
    (hlabel : c.project ≠ "" ∧ c.service ≠ "") (hC : ∀ w, P (own c.key w) → C c i w)
    (hP : ∀ o p id, P o → P' (o ++ [launched c i p none none id .running])) :
    Does nodeId C l k v (fun _ => P') (applyOne (.create c i)) w := by
  refine (does_pull h c.image).bind fun _ w h => ?_
  refine (does_hostPortFor h).bind fun hostPort w h => ?_
  exact does_run h hk hlabel (hC w (hk ▸ h.mine)) fun o id ho => hP o hostPort id ho

theorem does_creates {is : List Int} (h : Turn l k v (Filling c is) w) (hk : c.key = k)
    (hlabel : c.project ≠ "" ∧ c.service ≠ "") :
    Does nodeId Unused l k v (fun _ => Exact c) (forM (is.map (Action.create c)) applyIsolated) w := by
  rw [List.forM_map]
  refine (does_each (fun i rest w h => ?_) h).weaken fun _ _ ho => ho.exact
  exact does_isolated (does_create h hk hlabel (fun w ho => ho.unused) fun o p id ho => ho.step p id)

/-- As the document wants them, and running, but for the replicas still to be retired. -/
structure Retiring (c : ServiceConfig) (rest : List ManagedReplica) (o : List Container) : Prop extends Good c o where
  running : ∀ x ∈ o, x.replica.running = true
  count : (o.length : Int) = c.replicas + rest.length
  ids : (o.map (·.replica.id)).Nodup
  retired : (rest.map (·.id)).Nodup
  here : ∀ r ∈ rest, ∃ x ∈ o, x.replica.id = r.id

/-- A container that is there is one less. -/
theorem length_removed {o : List Container} {id : String} (hids : (o.map (·.replica.id)).Nodup)
    (hm : ∃ x ∈ o, x.replica.id = id) : o.length = (o.filter (!hasId id ·)).length + 1 := by
  have hone : o.countP (hasId id) = 1 := by
    obtain ⟨x, hx, rfl⟩ := hm
    have hcount := List.count_eq_one_of_mem hids (List.mem_map.mpr ⟨x, hx, rfl⟩)
    rw [List.count, List.countP_map] at hcount
    exact hcount
  have hrest : o.countP (fun x => !hasId id x) = (o.filter (!hasId id ·)).length := List.countP_eq_length_filter
  have hsplit := List.length_eq_countP_add_countP (hasId id) (l := o)
  have hsame : o.countP (fun x => decide ¬hasId id x = true) = o.countP (fun x => !hasId id x) :=
    List.countP_congr fun x _ => by simp
  omega

theorem Retiring.step {o : List Container} {r : ManagedReplica} {rest : List ManagedReplica} (h : Retiring c (r :: rest) o) :
    Retiring c rest (o.filter (!hasId r.id ·)) where
  indices := h.indices.sublist (List.filter_sublist.map _)
  current x hx := h.current x (List.mem_filter.mp hx).1
  running x hx := h.running x (List.mem_filter.mp hx).1
  count := by
    have hlen := length_removed h.ids (h.here r (List.mem_cons_self ..))
    have hcount := h.count
    rw [List.length_cons] at hcount
    omega
  ids := h.ids.sublist (List.filter_sublist.map _)
  retired := (List.nodup_cons.mp h.retired).2
  here r' hr' := by
    obtain ⟨x, hx, hid⟩ := h.here r' (List.mem_cons_of_mem _ hr')
    refine ⟨x, List.mem_filter.mpr ⟨hx, ?_⟩, hid⟩
    have hne : x.replica.id ≠ r.id := by
      rw [hid]
      exact fun he => (List.nodup_cons.mp h.retired).1 (List.mem_map.mpr ⟨r', hr', he⟩)
    simpa [hasId] using hne

theorem Retiring.exact {o : List Container} (h : Retiring c [] o) : Exact c o where
  indices := h.indices
  current := h.current
  count := by simpa using h.count
  running := h.running

theorem does_scaleDown {rs : List ManagedReplica} (h : Turn l k v (Retiring c rs) w) (hl : Among l k rs) :
    Does nodeId C l k v (fun _ => Exact c) (applyOne (.scaleDown c rs)) w := by
  refine (does_each (J := fun rest o => Among l k rest ∧ Retiring c rest o) (fun r rest w h => ?_)
    ⟨h.toBetween, h.others, hl, h.mine⟩).weaken fun _ _ ho => ho.2.exact
  refine Does.bind (does_remove h h.mine.1.head.1 h.mine.1.head.2 fun o ho => ?_) fun _ w h => does_release h _ _
  exact ⟨ho.1.tail, ho.2.step⟩

/-- Only containers of these ids are left. -/
def Leaving (rest : List ManagedReplica) (o : List Container) : Prop := ∀ x ∈ o, ∃ r ∈ rest, r.id = x.replica.id

theorem does_removes {key : String} {rs : List ManagedReplica} (h : Turn l k v (Leaving rs) w) (hl : Among l k rs) :
    Does nodeId C l k v (fun _ o => o = []) (applyOne (.remove key rs)) w := by
  refine (does_each (J := fun rest o => Among l k rest ∧ Leaving rest o) (fun r rest w h => ?_)
    ⟨h.toBetween, h.others, hl, h.mine⟩).weaken fun _ o ho => ?_
  · refine does_remove h h.mine.1.head.1 h.mine.1.head.2 fun o ho => ⟨ho.1.tail, fun x hx => ?_⟩
    obtain ⟨hx, hkeep⟩ := List.mem_filter.mp hx
    obtain ⟨r', hr', hid⟩ := ho.2 x hx
    rcases List.mem_cons.mp hr' with rfl | hr'
    · simp [hasId, hid] at hkeep
    · exact ⟨r', hr', hid⟩
  · refine List.eq_nil_iff_forall_not_mem.mpr fun x hx => ?_
    obtain ⟨r, hr, -⟩ := ho.2 x hx
    cases hr

end Actions

/-! ## Indices -/

theorem nextFree_eq_probe (used : List Int) (fuel : Nat) (idx : Int) :
    nextFree used fuel idx = probe used.contains (· + 1) fuel idx := by
  induction fuel generalizing idx with
  | zero => rfl
  | succ fuel ih =>
    unfold nextFree probe
    rw [ih]

theorem iterate_succ (k : Nat) (i : Int) : (· + 1)^[k] i = i + k := by
  induction k generalizing i with
  | zero => simp
  | succ k ih =>
    rw [Function.iterate_succ_apply, ih, Int.natCast_succ]
    omega

theorem nextFree_unused (used : List Int) (idx : Int) : nextFree used used.length idx ∉ used := by
  obtain ⟨x, ⟨hlow, hhigh⟩, hx⟩ : ∃ x, Within idx (used.length + 1) x ∧ x ∉ used := exists_free (Nat.lt_succ_self used.length)
  have hreach : (· + 1)^[(x - idx).toNat] idx = x := by
    rw [iterate_succ]
    omega
  rw [nextFree_eq_probe]
  have hle : (x - idx).toNat ≤ used.length := by omega
  have hfree : used.contains (probe used.contains (· + 1) used.length idx) = false :=
    probe_free hle (by rw [hreach]; simpa using hx)
  simpa using hfree

/-- The indices are new, different, and as many as asked for. -/
theorem freeIndices_spec (n : Nat) (used : List Int) (idx : Int) :
    (freeIndices n used idx).length = n ∧ (used.Nodup → (used ++ freeIndices n used idx).Nodup) := by
  induction n generalizing used idx with
  | zero => exact ⟨rfl, fun h => by simpa [freeIndices] using h⟩
  | succ n ih =>
    have hnew := nextFree_unused used idx
    obtain ⟨hlength, hnodup⟩ := ih (nextFree used used.length idx :: used) (nextFree used used.length idx + 1)
    refine ⟨by rw [freeIndices, List.length_cons, hlength], fun h => ?_⟩
    rw [freeIndices, List.perm_middle.nodup_iff]
    exact hnodup (List.nodup_cons.mpr ⟨hnew, h⟩)

end LaunchPad.Agent.Rounds
