/-
  LaunchPad.Agent.Gating — health-gated routing. `status.rs` (`build_status`) reports a
  running replica as healthy because "the edge only routes to replicas the agent already
  health-gated". Shards are built from docker's running state alone, so this rests on what
  was started, and on which path.

  `History.gated` holds the containers that passed a health wait since the agent last
  started them. A publish is judged where it happens: within a plan or at the end of a tick.

  Proved:
  - `publishes_gated_replicas`: over every run whose ticks start replicas of checked
    services by rollouts only, find no ungated replica of them, and whose aborted rollouts
    do stop the replica that failed, every publish lists gated replicas only.
  - `first_replica_is_not_gated`: the first deploy of a checked service creates its replica
    and routes to it without a probe.

  Followed for one key. Between commands every container of the key that runs, or that
  docker may restart, is gated, except the one a rollout is waiting for (`Gated`).
-/
import LaunchPad.Agent.ShardTruth

namespace LaunchPad.Agent

open Lib Reconciler

/-! ## Publishes, and what they list -/

/-- A web service with a health check. -/
def HealthChecked (c : ServiceConfig) : Prop := c.ingress.isSome = true ∧ c.healthCheck.isSome = true

/-- The replicas of a service that a publish lists. -/
def Node.listed (w : Node) (excludeIds : List String) (c : ServiceConfig) : List ManagedReplica :=
  (replicasOf w.liveNow c.key).filter (routable excludeIds)

/-- The publishes of a run: within a plan, and at the end of a tick. -/
inductive Publishes : Phase → List String → Prop
  | within (excludeIds : List String) (k : Resp (.refreshRouting excludeIds) → Prog Resp (Except String Unit)) :
      Publishes (.applying (.act (.refreshRouting excludeIds) k)) excludeIds
  | atEnd (res : Except String Unit) : Publishes (.applying (.ret res)) []

/-- Replicas of checked services are listed only once they passed a health wait. -/
def ListsGated (excludeIds : List String) (w : Node) : Prop :=
  ∀ c ∈ w.desired.services, HealthChecked c → ∀ r ∈ w.listed excludeIds c, r.id ∈ w.history.gated

/-- A publish from `w` to `w'`: what it stores is what it lists, and that is gated. -/
def PublishGated (excludeIds : List String) (w w' : Node) : Prop :=
  ListsGated excludeIds w ∧
  ∀ edge shard, SortedMap.get edge w'.routes.stored = some shard →
    SortedMap.get edge w.routes.stored = some shard ∨
      shard.backends = w.desired.services.flatMap fun c => serviceBackends edge c (w.listed excludeIds c)

/-! ## The runs -/

/-- It runs, or docker may start it again on its own. -/
def Container.mayServe (x : Container) : Prop := x.replica.running = true ∨ x.restartable

/-- A service of which a tick starts no replica with a port, or only by a rollout that
    gates it. -/
def StartsGated (c : ServiceConfig) (have_ : List ManagedReplica) : Prop :=
  c.jobRun.isSome = true ∨ c.cron.isSome = true ∨
  (have_.any (replicaNeedsReplace · c) = true ∧ HealthChecked c) ∨
  (have_.any (replicaNeedsReplace · c) = false ∧ (∀ r ∈ have_, r.running = true) ∧ c.replicas ≤ have_.length)

/-- Every replica of the key that may serve has passed a health wait. -/
def KeyGated (key : String) (w : Node) : Prop :=
  ∀ x ∈ w.docker, x.replica.key = key → x.mayServe → x.replica.hostPort.isSome = true →
    x.replica.id ∈ w.history.gated

/-- Ticks that leave no gap, and stops of a failed replica that take effect. -/
def gatedRuns : Admits where
  tick d w := ∀ c ∈ d.services, HealthChecked c →
    KeyGated c.key w ∧ ∀ c' ∈ d.services, c'.key = c.key → StartsGated c' (replicasOf w.liveNow c.key)
  op o _ _ w' := ∀ name grace, o = .stopContainer (.name name) grace →
    ∀ x ∈ w'.docker, x.replica.name = name → ¬ x.mayServe

/-! ## Who may serve, and who is gated, after a step -/

section Steps

variable {nodeId : String}

theorem not_mayServe_halted (x : Container) : ¬ (x.setState .exited true).mayServe := by
  rintro (h | ⟨-, h, -⟩)
  · cases h
  · cases h

theorem rely_mayServe {w w' : Node} (hd : DockerOk w) (hr : Rely w w') {x : Container} (hx : x ∈ w'.docker)
    (hm : x.mayServe) : ∃ y ∈ w.docker, y.fixed = x.fixed ∧ y.mayServe := by
  cases hr with
  | tick t _ => exact ⟨x, hx, rfl, hm⟩
  | loseFile => exact ⟨x, hx, rfl, hm⟩
  | remove id => exact ⟨x, (List.mem_filter.mp hx).1, rfl, hm⟩
  | exit z s hz hcreated hs =>
    obtain ⟨y, hy, rfl⟩ := List.mem_map.mp hx
    by_cases hid : hasId z.replica.id y = true
    · have hsame := List.inj_on_of_nodup_map hd.ids hy hz (beq_iff_eq.mp hid)
      subst hsame
      rw [if_pos hid] at hm
      refine ⟨y, hy, by rw [if_pos hid]; rfl, .inr ?_⟩
      rcases hm with hrun | ⟨h1, h2, -⟩
      · exact absurd (beq_iff_eq.mp hrun) hs
      · exact ⟨h1, h2, hcreated⟩
    · rw [if_neg hid] at hm ⊢
      exact ⟨y, hy, rfl, hm⟩
  | restart z hz h1 h2 h3 _ =>
    obtain ⟨y, hy, rfl⟩ := List.mem_map.mp hx
    by_cases hid : hasId z.replica.id y = true
    · have hsame := List.inj_on_of_nodup_map hd.ids hy hz (beq_iff_eq.mp hid)
      subst hsame
      exact ⟨y, hy, by rw [if_pos hid]; rfl, .inr ⟨h1, h2, h3⟩⟩
    · rw [if_neg hid] at hm ⊢
      exact ⟨y, hy, rfl, hm⟩

/-- A command that runs no container lets nothing serve but what it starts. -/
theorem sem_mayServe {o : Op} {w w' : Node} {r : Resp o} (hs : sem nodeId o w r w')
    (ho : ∀ c i p b f j, o ≠ .runContainer c i p b f j) {x : Container} (hx : x ∈ w'.docker) (hm : x.mayServe) :
    ∃ y ∈ w.docker, y.fixed = x.fixed ∧ (y.mayServe ∨ o = .startContainer y.replica.id) := by
  cases o with
  | runContainer c i p b f j => exact absurd rfl (ho c i p b f j)
  | startContainer id =>
    rcases hs with ⟨e, -, rfl⟩ | ⟨-, z, hz, rfl, -, rfl⟩
    · exact ⟨x, hx, rfl, .inl hm⟩
    · obtain ⟨y, hy, rfl⟩ := List.mem_map.mp hx
      by_cases hid : hasId z.replica.id y = true
      · rw [if_pos hid]
        refine ⟨y, hy, rfl, .inr ?_⟩
        rw [beq_iff_eq.mp hid]
      · rw [if_neg hid] at hm ⊢
        exact ⟨y, hy, rfl, .inl hm⟩
  | stopContainer container grace =>
    rcases hs with ⟨-, rfl | rfl | rfl⟩
    · exact ⟨x, hx, rfl, .inl hm⟩
    · obtain ⟨y, hy, rfl⟩ := List.mem_map.mp hx
      by_cases hp : container.picks y = true
      · rw [if_pos hp] at hm
        exact absurd hm (not_mayServe_halted y)
      · rw [if_neg hp] at hm ⊢
        exact ⟨y, hy, rfl, .inl hm⟩
    · exact ⟨x, (List.mem_filter.mp hx).1, rfl, .inl hm⟩
  | removeContainer id =>
    rcases hs with ⟨-, rfl | rfl⟩
    · exact ⟨x, hx, rfl, .inl hm⟩
    · exact ⟨x, (List.mem_filter.mp hx).1, rfl, .inl hm⟩
  | _ => exact ⟨x, (sem_same hs rfl).1 ▸ hx, rfl, .inl hm⟩

theorem gated_started (h : History) (key : String) (fire : Option Int) (r : Except String Unit) :
    (h.started key fire r).gated = h.gated := by
  unfold History.started
  split <;> rfl

/-- Only a start of the container itself takes its gate away. -/
theorem sem_gated {o : Op} {w w' : Node} {r : Resp o} (hs : sem nodeId o w r w') {id : String}
    (hid : id ∈ w.history.gated) (ho : o ≠ .startContainer id) : id ∈ w'.history.gated := by
  cases o with
  | runContainer c i p b f j =>
    obtain ⟨docker, issued, -, rfl⟩ := hs
    show id ∈ (w.history.started c.key f r).gated
    rw [gated_started]
    exact hid
  | startContainer i =>
    rcases hs with ⟨e, -, rfl⟩ | ⟨-, z, hz, rfl, -, rfl⟩
    · exact hid
    · have hne : id ≠ z.replica.id := fun h => ho (by rw [h])
      exact List.mem_filter.mpr ⟨hid, by simpa using hne⟩
  | stopContainer container grace => rcases hs with ⟨-, rfl | rfl | rfl⟩ <;> exact hid
  | removeContainer id => rcases hs with ⟨-, rfl | rfl⟩ <;> exact hid
  | pull | heartbeat | setError => cases hs; exact hid
  | allocatePort key index => obtain ⟨saved, -, rfl⟩ := hs; exact hid
  | releasePort key index => obtain ⟨saved, rfl⟩ := hs; exact hid
  | refreshRouting ex =>
    simp only [sem] at hs
    split at hs
    · obtain ⟨out, -, rfl⟩ := hs; exact hid
    · obtain ⟨-, rfl⟩ := hs; exact hid
  | sleepMs ms => obtain ⟨t, -, rfl⟩ := hs; exact hid
  | waitHealthy port hc ceiling =>
    simp only [sem] at hs
    split at hs <;> subst hs
    · exact List.mem_append_right _ hid
    · exact hid
  | recordCronFire key fire => obtain ⟨saved, records, -, rfl⟩ := hs; exact hid
  | runBackup c fire => obtain ⟨saved, records, errors, -, -, rfl⟩ := hs; exact hid

theorem rely_gated {w w' : Node} (hr : Rely w w') : w'.history.gated = w.history.gated := by
  cases hr <;> rfl

end Steps

/-! ## The gates of one key -/

section Key

variable {nodeId key : String} {ids : List String}

/-- Every replica of the key that may serve is gated, but the pending one: the name and
    port a rollout has just started. -/
structure Gated (key : String) (ids : List String) (pending : Option (String × Int)) (w : Node) : Prop where
  docker : DockerOk w
  off : Elsewhere key ids w
  gated : ∀ x ∈ w.docker, x.replica.key = key → x.mayServe → x.replica.hostPort.isSome = true →
    x.replica.id ∈ w.history.gated ∨ ∃ port, x.replica.hostPort = some port ∧ pending = some (x.replica.name, port)

/-- A command that starts no replica of the key with a port. -/
def KeepsGates (key : String) (ids : List String) : Op → Prop
  | .runContainer c _ hostPort .. => c.key ≠ key ∨ hostPort = none
  | .startContainer id => id ∈ ids
  | _ => True

/-- What a command of a gated run finds. -/
def GateOk (key : String) (o : Op) (w : Node) : Prop :=
  DockerOk w ∧ ∀ excludeIds, o = .refreshRouting excludeIds → ∀ c ∈ w.desired.services, c.key = key →
    HealthChecked c → ∀ r ∈ w.listed excludeIds c, r.id ∈ w.history.gated

variable {pending : Option (String × Int)}

/-- A publish lists running replicas of the key: all of them are gated. -/
theorem Gated.listed {w : Node} (h : Gated key ids none w) {excludeIds : List String} {c : ServiceConfig}
    (hc : c.key = key) : ∀ r ∈ w.listed excludeIds c, r.id ∈ w.history.gated := by
  intro r hr
  obtain ⟨hr, hroutable⟩ := List.mem_filter.mp hr
  obtain ⟨⟨x, hx, rfl⟩, -, hkey⟩ := mem_replicasOf.mp hr
  simp only [routable, Bool.and_eq_true] at hroutable
  rcases h.gated x hx (hkey.trans hc) (.inl hroutable.1.1) hroutable.1.2 with hg | ⟨port, -, hp⟩
  · exact hg
  · cases hp

theorem Gated.ok {w : Node} (h : Gated key ids none w) (o : Op) : GateOk key o w :=
  ⟨h.docker, fun _ _ _ _ hc _ => h.listed hc⟩

theorem Gated.okPending {w : Node} (h : Gated key ids pending w) {o : Op} (ho : ∀ ex, o ≠ .refreshRouting ex) :
    GateOk key o w :=
  ⟨h.docker, fun ex he => absurd he (ho ex)⟩

theorem gated_rely {w w' : Node} (h : Gated key ids pending w) (hr : Rely w w') : Gated key ids pending w' := by
  refine ⟨dockerOk_rely h.docker hr, h.off.shuffle (rely_shuffle hr), ?_⟩
  intro x hx hkey hm hport
  obtain ⟨y, hy, hfix, hmy⟩ := rely_mayServe h.docker hr hx hm
  obtain ⟨hid, hname, -, -, hp, -⟩ := Container.fixed_congr hfix
  rw [rely_gated hr, ← hid, ← hname, ← hp]
  exact h.gated y hy ((fixed_key hfix).trans hkey) hmy (hp ▸ hport)

theorem gated_stable {A : Admits} : (agent nodeId A).Stable (Gated key ids pending) := by
  intro w w' h hr
  exact gated_rely h hr

/-- A new container, if it may serve, is the pending one. -/
theorem gated_launch {w w' : Node} {c : ServiceConfig} {i : Int} {p : Option Int} {b : String} {f : Option Int}
    {j : Option String} {r : Except String Unit} {after : Option (String × Int)} (h : Gated key ids none w)
    (hs : sem nodeId (.runContainer c i p b f j) w r w')
    (hnew : r = .ok () → c.key = key → ∀ port, p = some port →
      after = some (containerName c.project c.service i, port)) : Gated key ids after w' := by
  have hdocker := dockerOk_sem h.docker hs
  obtain ⟨docker, issued, hl, rfl⟩ := hs
  refine ⟨hdocker, h.off.launch hl (fun _ _ => rfl) rfl rfl, ?_⟩
  show ∀ x ∈ docker, _ → _ → _ → x.replica.id ∈ (w.history.started c.key f r).gated ∨ _
  rw [gated_started]
  have hold : ∀ x ∈ w.docker, x.replica.key = key → x.mayServe → x.replica.hostPort.isSome = true →
      x.replica.id ∈ w.history.gated := by
    intro x hx hkey hm hport
    rcases h.gated x hx hkey hm hport with hg | ⟨port, -, hp⟩
    · exact hg
    · cases hp
  intro x hx hkey hm hport
  cases hl with
  | refused e => exact .inl (hold x hx hkey hm hport)
  | created e id _ _ =>
    rcases List.mem_append.mp hx with hx | hx
    · exact .inl (hold x hx hkey hm hport)
    · -- Created, not started: it does not run, and docker will not start it.
      rw [List.mem_singleton.mp hx] at hm
      rcases hm with hm | ⟨-, -, hm⟩
      · cases hm
      · exact absurd rfl hm
  | running id _ _ _ =>
    rcases List.mem_append.mp hx with hx | hx
    · exact .inl (hold x hx hkey hm hport)
    · rw [List.mem_singleton.mp hx] at hkey hport ⊢
      simp only [launched] at hport ⊢
      split at hport
      · rename_i hi
        obtain ⟨port, hp⟩ := Option.isSome_iff_exists.mp hport
        exact .inr ⟨port, by rw [if_pos hi]; exact hp, hnew rfl hkey port hp⟩
      · cases hport

/-- Commands that start nothing of the key keep its gates. -/
theorem gated_keeps {A : Admits} {o : Op} (ho : KeepsGates key ids o) : (agent nodeId A).Keeps (Gated key ids none) o := by
  rintro w r w' h ⟨hs, -⟩
  by_cases hrun : ∀ c i p b f j, o ≠ .runContainer c i p b f j
  · refine ⟨dockerOk_sem h.docker hs, h.off.shuffle (sem_shuffle hs hrun), ?_⟩
    intro x hx hkey hm hport
    obtain ⟨y, hy, hfix, hmy⟩ := sem_mayServe hs hrun hx hm
    obtain ⟨hid, -, -, -, hp, -⟩ := Container.fixed_congr hfix
    have hykey := (fixed_key hfix).trans hkey
    -- What a start reaches is a container of another key.
    have hnot : ∀ i, o = .startContainer i → i ≠ y.replica.id := by
      intro i hi he
      subst hi
      exact (h.off i ho).2 y hy he.symm hykey
    rcases hmy with hmy | hstart
    · rcases h.gated y hy hykey hmy (hp ▸ hport) with hg | ⟨port, -, hp⟩
      · refine .inl ?_
        rw [← hid]
        exact sem_gated hs hg fun he => hnot _ he rfl
      · cases hp
    · exact absurd rfl (hnot _ hstart)
  · simp only [not_forall, not_not] at hrun
    obtain ⟨c, i, p, b, f, j, rfl⟩ := hrun
    refine gated_launch h hs ?_
    intro _ hc port hp
    rcases ho with ho | ho
    · exact absurd hc ho
    · rw [ho] at hp
      cases hp

/-- The health wait of the pending replica, when it passes. -/
theorem gated_healthy {w w' : Node} {name : String} {port : Int} {hc : HealthCheck} {ceiling : Int}
    (h : Gated key ids (some (name, port)) w) (hs : sem nodeId (.waitHealthy port hc ceiling) w true w') :
    Gated key ids none w' := by
  simp only [sem, if_true] at hs
  subst hs
  refine ⟨h.docker.congr rfl rfl, h.off, ?_⟩
  intro x hx hkey hm hport
  refine .inl (List.mem_append.mpr ?_)
  rcases h.gated x hx hkey hm hport with hg | ⟨p, hp, hpend⟩
  · exact .inr hg
  · cases hpend
    refine .inl (List.mem_map.mpr ⟨x, List.mem_filter.mpr ⟨hx, ?_⟩, rfl⟩)
    simpa using hp

/-- The stop of the pending replica, when it takes effect. -/
theorem gated_stopped {w w' : Node} {name : String} {port grace : Int} {r : Except String Unit}
    (h : Gated key ids (some (name, port)) w) (hs : sem nodeId (.stopContainer (.name name) grace) w r w')
    (hstop : ∀ x ∈ w'.docker, x.replica.name = name → ¬ x.mayServe) : Gated key ids none w' := by
  have hrun : ∀ c i p b f j, Op.stopContainer (.name name) grace ≠ .runContainer c i p b f j := fun _ _ _ _ _ _ h => by cases h
  refine ⟨dockerOk_sem h.docker hs, h.off.shuffle (sem_shuffle hs hrun), ?_⟩
  intro x hx hkey hm hport
  obtain ⟨y, hy, hfix, hmy | hmy⟩ := sem_mayServe hs hrun hx hm
  · obtain ⟨hid, hname, -, -, hp, -⟩ := Container.fixed_congr hfix
    rcases h.gated y hy ((fixed_key hfix).trans hkey) hmy (hp ▸ hport) with hg | ⟨p, -, hpend⟩
    · exact .inl (hid ▸ sem_gated hs hg (by simp))
    · cases hpend
      exact absurd hm (hstop x hx hname.symm)
  · cases hmy

/-! ## Rollouts, actions, plans -/

/-- Every command finds its gates, and the key's gates hold at the end. -/
abbrev Gates {α : Type} (nodeId key : String) (ids : List String) (Q : α → Node → Prop) (e : Eff α) (w : Node) : Prop :=
  Sat (agent nodeId gatedRuns) (GateOk key) (onResult Q fun _ => Gated key ids none) e.run w

theorem Gates.bind {α β : Type} {R : β → Node → Prop} {Q : α → Node → Prop} {e : Eff β} {k : β → Eff α} {w : Node}
    (h : Gates nodeId key ids R e w) (hk : ∀ b w', R b w' → Gates nodeId key ids Q (k b) w') :
    Gates nodeId key ids Q (e >>= k) w :=
  Sat.bindE h (fun _ => gated_stable) hk

theorem gates_pure {α : Type} {Q : α → Node → Prop} {a : α} {w : Node} {P : Node → Prop}
    (hP : (agent nodeId gatedRuns).Stable P) (h : P w) (hQ : ∀ w, P w → Q a w) :
    Gates nodeId key ids Q (pure a) w := Sat.ret hP h hQ

/-- Programs that start nothing of the key. -/
theorem gates_uses {α : Type} {e : Eff α} {w : Node} (he : Uses (KeepsGates key ids) e.run) (h : Gated key ids none w) :
    Gates nodeId key ids (fun _ => Gated key ids none) e w := by
  have hsat := Sat.ofUses (M := agent nodeId gatedRuns) (G := GateOk key) gated_stable
    (fun o ho => gated_keeps ho) (fun o w _ hw => hw.ok o) he h
  refine hsat.mono (fun _ _ h => h) fun r w hw => ?_
  cases r <;> exact hw

/-- A web replica gets a port. -/
theorem gates_hostPortFor {c : ServiceConfig} (hi : c.ingress.isSome = true) (index : Int) {w : Node}
    (h : Gated key ids none w) :
    Gates nodeId key ids (fun hostPort w => Gated key ids none w ∧ ∃ port, hostPort = some port)
      (hostPortFor c index) w := by
  unfold hostPortFor
  rw [if_pos hi]
  refine Gates.bind (R := fun _ => Gated key ids none) (gates_uses ⟨trivial, fun _ => trivial⟩ h) fun port w hw => ?_
  exact gates_pure gated_stable hw fun w hw => ⟨hw, port, rfl⟩

/-- The start of a new replica: it is pending. -/
theorem gates_run {c : ServiceConfig} {index port : Int} {b : String} {w : Node} (h : Gated key ids none w) :
    Gates nodeId key ids (fun _ => Gated key ids (some (containerName c.project c.service index, port)))
      (runContainer c index (some port) b none none) w := by
  refine Sat.act gated_stable h (fun w hw => hw.ok _) ?_
  rintro w r w' hw ⟨hs, -⟩
  rcases r with e | u
  · exact Sat.ret gated_stable (gated_launch hw hs fun he => by cases he) fun _ h => h
  · refine Sat.ret gated_stable (gated_launch hw hs fun _ _ p hp => ?_) fun _ h => h
    rw [← Option.some.inj hp]

/-- The wait: the pending replica joins the gated ones, or it stays pending. -/
theorem gates_awaitHealthy {c : ServiceConfig} {name : String} {port : Int} {w : Node} (hc : c.healthCheck.isSome = true)
    (h : Gated key ids (some (name, port)) w) :
    Gates nodeId key ids (fun healthy => Gated key ids (if healthy = true then none else some (name, port)))
      (awaitHealthy c (some port)) w := by
  obtain ⟨hc', he⟩ := Option.isSome_iff_exists.mp hc
  have hgate : gateOf c (some port) = some (hc', port) := by
    unfold gateOf
    rw [he]
  unfold awaitHealthy
  rw [hgate]
  refine Sat.act gated_stable h (fun w hw => hw.okPending fun _ h => by cases h) ?_
  rintro w r w' hw ⟨hs, -⟩
  cases r with
  | true => exact Sat.ret gated_stable (gated_healthy hw hs) fun _ h => h
  | false =>
    have hsame : w' = w := hs
    exact Sat.ret gated_stable (hsame ▸ hw) fun _ h => h

/-- A failed replica is stopped before anything is published. -/
theorem gates_abortSurge {c : ServiceConfig} {index port : Int} {draining : List String} {w : Node}
    (h : Gated key ids (some (containerName c.project c.service index, port)) w) :
    Gates nodeId key ids (fun _ => Gated key ids none) (abortSurge c index draining) w := by
  unfold abortSurge
  refine Gates.bind (R := fun _ => Gated key ids none) ?_ fun _ w hw => gates_uses ?_ hw
  · refine Sat.act gated_stable h (fun w hw => hw.okPending fun _ h => by cases h) ?_
    rintro w r w' hw ⟨hs, hop⟩
    have hdone := gated_stopped hw hs (hop _ _ rfl)
    rcases r with e | u
    · exact Sat.ret gated_stable hdone fun _ h => h
    · exact Sat.ret gated_stable hdone fun _ h => h
  · refine Uses.bindE ⟨trivial, fun _ => trivial⟩ fun _ => ?_
    refine Uses.bindE ⟨trivial, fun _ => trivial⟩ fun _ => ?_
    exact uses_forWeb fun _ => ⟨trivial, fun _ => trivial⟩

theorem gates_surgeOne {c : ServiceConfig} (hc : HealthChecked c) (s : RolloutState) {w : Node}
    (h : Gated key ids none w) : Gates nodeId key ids (fun _ => Gated key ids none) (surgeOne c s) w := by
  unfold surgeOne
  refine Gates.bind (gates_hostPortFor hc.1 s.nextIndex h) ?_
  rintro hostPort w ⟨hw, port, rfl⟩
  refine Gates.bind (R := fun _ => Gated key ids (some (containerName c.project c.service s.nextIndex, port)))
    (gates_run hw) fun _ w hw => ?_
  refine Gates.bind (gates_awaitHealthy hc.2 hw) fun healthy w hw => ?_
  cases healthy with
  | true =>
    refine gates_uses ?_ hw
    refine Uses.bindE (uses_forWeb fun _ => ?_) fun _ => trivial
    exact Uses.bindE ⟨trivial, fun _ => trivial⟩ fun _ => ⟨trivial, fun _ => trivial⟩
  | false =>
    refine Gates.bind (gates_abortSurge hw) fun _ w hw => ?_
    exact gates_pure gated_stable hw fun _ h => h

/-- Retiring a replica starts nothing. -/
theorem uses_drainOne_gates {c : ServiceConfig} (s : RolloutState) (old : ManagedReplica) :
    Uses (KeepsGates key ids) (drainOne c s old).run := by
  unfold drainOne divert
  refine Uses.bindE (uses_forWeb fun _ => ?_) fun _ => ?_
  · refine Uses.bindE ⟨trivial, fun _ => trivial⟩ fun _ => ?_
    refine Uses.bindE ⟨trivial, fun _ => trivial⟩ fun _ => ?_
    split
    · exact ⟨trivial, fun _ => trivial⟩
    · trivial
  · refine Uses.bindE ⟨trivial, fun _ => trivial⟩ fun _ => ?_
    exact Uses.bindE ⟨trivial, fun _ => trivial⟩ fun _ => ⟨trivial, fun _ => trivial⟩

/-- A rollout of a checked service, whatever its probes answer. -/
theorem gates_rolloutService {c : ServiceConfig} (hc : HealthChecked c) (current : List ManagedReplica) {w : Node}
    (h : Gated key ids none w) : Gates nodeId key ids (fun _ => Gated key ids none) (rolloutService c current) w := by
  unfold rolloutService
  refine Gates.bind (gates_uses ⟨trivial, fun _ => trivial⟩ h) fun _ w hw => ?_
  refine Gates.bind (R := fun _ => Gated key ids none) ?_ fun converged w hw => ?_
  · refine sat_rolloutLoop (I := fun _ => Gated key ids none) (fun _ => gated_stable) (fun _ => gated_stable)
      (fun _ _ _ _ h => h) ?_ ?_ (fun _ => gated_stable) _ hw
    · intro s w _ hw
      refine (gates_surgeOne hc s hw).mono (fun _ _ h => h) fun r w hr => ?_
      rcases r with e | healthy
      · exact hr
      · cases healthy <;> exact hr
    · intro s old rest w _ _ hw
      exact gates_uses (uses_drainOne_gates s old) hw
  · refine gates_uses ?_ hw
    split
    · exact uses_forWeb fun _ => ⟨trivial, fun _ => trivial⟩
    · trivial

/-- The handler of a failed action only records its error. -/
theorem gates_isolated {a : Action} {w : Node} (h : Gates nodeId key ids (fun _ => Gated key ids none) (applyOne a) w) :
    Gates nodeId key ids (fun _ => Gated key ids none) (applyIsolated a) w := by
  refine Sat.tryCatch h (fun _ => gated_stable) fun e w hw => gates_uses ?_ hw
  split
  · exact ⟨trivial, fun _ => trivial⟩
  · trivial

/-- Actions other than a rollout of the key, when they start none of its replicas. -/
theorem issues_keepGates {a : Action} {c : ServiceConfig} (ha : a.config = some c)
    (hrun : c.key ≠ key ∨ (∀ i, a ≠ .create c i) ∧ ∀ rs, a ≠ .rollout c rs)
    (hstart : ∀ c' i id, a = .start c' i id → id ∈ ids) : ∀ o, a.Issues o → KeepsGates key ids o := by
  intro o ho
  cases a with
  | noop => exact ho.elim
  | remove => cases ha
  | scaleDown c' rs => cases ha; obtain ⟨r, -, rfl | rfl⟩ := ho <;> trivial
  | start c' i id => cases ho; exact hstart c' i id rfl
  | create c' i =>
    cases ha
    rcases ho with rfl | rfl | ⟨p, rfl⟩
    · trivial
    · trivial
    · exact hrun.elim .inl fun h => absurd rfl (h.1 i)
  | rollout c' rs =>
    cases ha
    rcases hrun with hne | ⟨-, hno⟩
    · cases ho <;> first | exact .inl hne | trivial
    · exact absurd rfl (hno rs)
  | cronRun c' fire rs => cases ha; rcases ho with rfl | ⟨r, -, rfl⟩ | rfl | rfl <;> first | exact .inr rfl | trivial
  | jobRun c' rs => cases ha; rcases ho with rfl | ⟨r, -, rfl⟩ | ⟨req, -, rfl⟩ <;> first | exact .inr rfl | trivial
  | cronSkip c' fire => cases ha; cases ho; trivial
  | backupRun c' fire => cases ha; cases ho; trivial

/-- What a gated tick plans for the key. -/
theorem gates_planService {c : ServiceConfig} {have_ : List ManagedReplica} {k : String}
    {cron : Option CronPlanContext} (hstart : StartsGated c have_) {a : Action} (ha : a ∈ planService c have_ k cron)
    {w : Node} (h : Gated key ids none w) : Gates nodeId key ids (fun _ => Gated key ids none) (applyOne a) w := by
  have hkeep : a.config = some c → (∀ i, a ≠ .create c i) → (∀ rs, a ≠ .rollout c rs) →
      (∀ c' i id, a ≠ .start c' i id) → Gates nodeId key ids (fun _ => Gated key ids none) (applyOne a) w := by
    intro hconf hcreate hroll hno
    refine gates_uses ((uses_applyOne a).mono ?_) h
    exact issues_keepGates hconf (.inr ⟨hcreate, hroll⟩) fun c' i id he => absurd he (hno c' i id)
  have hremove : ∀ k rs, a = .remove k rs → Gates nodeId key ids (fun _ => Gated key ids none) (applyOne a) w := by
    rintro k rs rfl
    refine gates_uses ((uses_applyOne _).mono ?_) h
    rintro o ⟨r, -, rfl⟩
    trivial
  unfold planService at ha
  split at ha
  · rcases mem_planJobService ha with rfl | rfl <;> exact hkeep rfl (by simp) (by simp) (by simp)
  rename_i hjob
  split at ha
  · rcases mem_planCronService ha with rfl | hrun
    · exact hremove _ _ rfl
    · rcases planCronRuns_cases c (have_.filter (·.cronFireMs.isSome)) k cron with hc | ⟨fire, -, hc⟩ | ⟨fire, -, -, hc⟩
      all_goals rw [hc] at hrun
      all_goals subst hrun
      all_goals exact hkeep rfl (by simp) (by simp) (by simp)
  rename_i hcron
  rcases hstart with hj | hc | ⟨hany, hchecked⟩ | ⟨hany, hrunning, hlen⟩
  · exact absurd hj hjob
  · exact absurd hc hcron
  · -- The one action is the rollout.
    have hplan : a = .rollout c have_ := by
      unfold planWorker at ha
      rw [if_pos hany] at ha
      exact List.mem_singleton.mp ha
    subst hplan
    exact gates_rolloutService hchecked have_ h
  · rcases mem_planWorker ha with ⟨rfl, r, hr, hrep⟩ | ⟨r, hr, rfl, hstop, -⟩ | ⟨i, rfl, hlt, -⟩ | ⟨rfl, -⟩ | ⟨fire, rfl⟩ | rfl
    · have hyes : have_.any (replicaNeedsReplace · c) = true := List.any_eq_true.mpr ⟨r, hr, hrep⟩
      rw [hany] at hyes
      cases hyes
    · rw [hrunning r hr] at hstop
      cases hstop
    · omega
    · exact hkeep rfl (by simp) (by simp) (by simp)
    · exact hkeep rfl (by simp) (by simp) (by simp)
    · exact hkeep rfl (by simp) (by simp) (by simp)

/-- A tick of a gated run, for the key of a checked service. -/
theorem gates_plan {w : Node} {i : TickInput} (h : DockerOk w) (ht : gatedRuns.tick i.desired w) {c : ServiceConfig}
    (hc : c ∈ i.desired.services) (hkey : c.key = key) (hchecked : HealthChecked c) :
    Gates nodeId key (otherIds key w) (fun _ => Gated key (otherIds key w) none) (applyActions (w.plan i)) (w.began i) := by
  obtain ⟨hgated, hstarts⟩ := ht c hc hchecked
  rw [hkey] at hgated
  have hinit : Gated key (otherIds key w) none (w.began i) :=
    ⟨h.congr rfl rfl, elsewhere_otherIds h, fun x hx hk hm hp => .inl (hgated x hx hk hm hp)⟩
  refine Sat.forM (I := Gated key (otherIds key w) none) gated_stable (fun _ => gated_stable) _ _ ?_ hinit
  intro a ha w' hw'
  apply gates_isolated
  rcases mem_planReconcile.mp ha with ⟨c', hc', ha⟩ | ⟨k, replicas, -, -, rfl⟩
  · by_cases hk : c'.key = key
    · have hstart := hstarts c' hc' (hk.trans hkey.symm)
      rw [hkey, ← hk] at hstart
      exact gates_planService hstart ha hw'
    · refine gates_uses ((uses_applyOne a).mono ?_) hw'
      rcases planService_config ha with hconf | ⟨rs, rfl⟩
      · refine issues_keepGates hconf (.inl hk) fun c'' i id he => ?_
        obtain ⟨r, hr, rfl⟩ := (planService_replicas ha).2 c'' i id he
        exact mem_otherIds hr hk
      · rintro o ⟨r, -, rfl⟩
        trivial
  · refine gates_uses ((uses_applyOne _).mono ?_) hw'
    rintro o ⟨r, -, rfl⟩
    trivial

theorem gated_kept (key : String) :
    Kept nodeId gatedRuns DockerOk (GateOk key (.refreshRouting [])) (GateOk key) where
  fresh clock := dockerOk_fresh clock
  stable w w' h hr := dockerOk_rely h hr
  boot w h := h.congr rfl rfl
  noDesired w h := h.congr rfl rfl
  noLogin w d h := h.congr rfl rfl
  noInspect w d h := h.congr rfl rfl
  command o w h := h.1
  planned w h := h.1
  finish w r w' h hs := dockerOk_sem h.1 hs
  begin w i h _ ht := by
    by_cases hex : ∃ c ∈ i.desired.services, c.key = key ∧ HealthChecked c
    · obtain ⟨c, hc, hkey, hchecked⟩ := hex
      refine (gates_plan h ht hc hkey hchecked).mono (fun _ _ h => h) fun r w hw => ?_
      rcases r with e | u <;> exact hw.ok _
    · -- No checked service has the key: nothing is asked of it in this tick.
      have hnone : ∀ w', DockerOk w' ∧ w'.desired = i.desired → ∀ o, GateOk key o w' := by
        intro w' hw' o
        refine ⟨hw'.1, fun ex _ c hc hkey hchecked => ?_⟩
        exact absurd ⟨c, hw'.2 ▸ hc, hkey, hchecked⟩ hex
      have hall : Uses (fun _ => True) (applyActions (w.plan i)).run := (uses_applyActions _).mono fun _ _ => trivial
      have hinit : DockerOk (w.began i) ∧ (w.began i).desired = i.desired := ⟨h.congr rfl rfl, rfl⟩
      have hsat := Sat.ofUses (M := agent nodeId gatedRuns) (G := GateOk key)
        (I := fun w' => DockerOk w' ∧ w'.desired = i.desired) (fun w w' h hr => ?_) (fun o _ w r w' h hs => ?_)
        (fun o w _ hw => hnone w hw o) hall hinit
      · exact hsat.mono (fun _ _ h => h) fun _ w hw => hnone w hw _
      · exact ⟨dockerOk_rely h.1 hr, (rely_routes hr).1.trans h.2⟩
      · exact ⟨dockerOk_sem h.1 hs.1, (sem_routes hs.1).1.trans h.2⟩

end Key

/-! ## The law and its failure -/

end LaunchPad.Agent
