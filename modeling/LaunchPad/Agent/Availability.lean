/-
  LaunchPad.Agent.Availability — the availability of a service through a rolling update
  (`reconcile.rs`, `rollout_service`): its comment promises the load balancer at least one
  healthy upstream at every moment.

  `Roster` watches a rollout from outside: which replicas of the service are running, of
  the old ones, of those that already match, and of those started in this rollout, the
  last apart until their health wait has passed. Every answer of every command is
  possible, and a trace may stop anywhere.

  Proved:
  - `rollout_keeps_serving_iff`: no trace of a rollout stops the last good replica,
    exactly when the rollout has a `Spare`: a running replica already matches, or
    there is room to surge one before the last running old replica is retired.
  - `rollout_stops_the_last_replica`: one running stale replica and a matching one that
    is not running. The matching one counts as new, so the rollout stops the only
    running replica first.
-/
import LaunchPad.Agent.Apply

namespace LaunchPad.Agent

open Lib Reconciler

/-! ## What a rollout leaves running -/

/-- The running replicas of a service during a rollout. Input replicas go by their id,
    surged ones by their name. -/
structure Roster where
  old : List String
  kept : List String
  fresh : List String
  pending : List String

namespace Roster

def init (c : ServiceConfig) (current : List ManagedReplica) : Roster where
  old := ((current.filter (replicaNeedsReplace · c)).filter (·.running)).map (·.id)
  kept := ((current.filter (!replicaNeedsReplace · c)).filter (·.running)).map (·.id)
  fresh := []
  pending := []

def up (w : Roster) : List String := w.old ++ w.kept ++ w.fresh ++ w.pending

/-- The replicas that may carry the service: the pending one has not passed its wait. -/
def good (w : Roster) : List String := w.old ++ w.kept ++ w.fresh

def stopped (w : Roster) (id : String) : Roster :=
  { w with old := w.old.filter (· ≠ id), kept := w.kept.filter (· ≠ id) }

/-- A rollout stops by name only the replica it has just surged. -/
def observe (w : Roster) : (o : Op) → Resp o → Roster
  | .runContainer c index hostPort _ _ _, .ok _ =>
    let name := containerName c.project c.service index
    if (gateOf c hostPort).isSome then { w with pending := name :: w.pending } else { w with fresh := name :: w.fresh }
  | .waitHealthy .., true => { w with fresh := w.pending ++ w.fresh, pending := [] }
  | .stopContainer (.id id) _, _ => w.stopped id
  | .stopContainer (.name name) _, _ => { w with pending := w.pending.filter (· ≠ name) }
  | _, _ => w

end Roster

/-- A running old replica is stopped only while another good replica runs, and no command
    takes the number of running replicas from positive to zero. -/
def KeepsServing (o : Op) (w : Roster) : Prop :=
  (∀ id grace, o = .stopContainer (.id id) grace → id ∈ w.old → (w.stopped id).good ≠ []) ∧
  ∀ r, w.up ≠ [] → (w.observe o r).up ≠ []

/-! ## When a rollout has a spare -/

/-- The old replicas queued after the last running one. -/
def idleTail : List ManagedReplica → Nat
  | [] => 0
  | _ :: rest => if rest.any (·.running) then idleTail rest else rest.length

/-- A running replica already matches; or, when the last running old replica heads the
    queue, fewer new replicas than wanted exist and one more fits under the limit. -/
def Spare (c : ServiceConfig) (current : List ManagedReplica) : Prop :=
  (∃ r ∈ current, r.running = true ∧ replicaNeedsReplace r c = false) ∨
  (RolloutState.init c current).newCount < c.replicas ∧
    (RolloutState.init c current).newCount + idleTail (RolloutState.init c current).oldQueue + 1 < surgeLimit c

instance (c : ServiceConfig) (current : List ManagedReplica) : Decidable (Spare c current) := by
  unfold Spare; infer_instance

/-! ## With a spare, every trace keeps serving -/

section Serving

variable {c : ServiceConfig}

/-- Only a stop loses a running replica. -/
theorem keepsServing_of_not_stop {o : Op} {w : Roster} (h : ∀ container grace, o ≠ .stopContainer container grace) :
    KeepsServing o w := by
  refine ⟨fun id grace ho => absurd ho (h _ _), fun r hup => ?_⟩
  cases o with
  | stopContainer container grace => exact absurd rfl (h container grace)
  | runContainer c index hostPort bindHost cronFireMs jobRunId =>
    rcases r with e | u
    · exact hup
    · simp only [Roster.observe]
      split <;> simp [Roster.up]
  | waitHealthy hostPort hc ceiling =>
    rcases r with _ | _
    · exact hup
    · simpa [Roster.observe, Roster.up, and_comm] using hup
  | _ => exact hup

/-- Where the loop stands: `n` replicas of the input already match, and while no surge
    has succeeded the room for one is still there. -/
structure Serving (c : ServiceConfig) (n : Int) (s : RolloutState) (w : Roster) : Prop where
  old : w.old = (s.oldQueue.filter (·.running)).map (·.id)
  nodup : (s.oldQueue.map (·.id)).Nodup
  apart : ∀ r ∈ s.oldQueue, r.id ∉ w.kept
  count : s.newCount = n + w.fresh.length
  pending : w.pending = []
  spare : w.kept ≠ [] ∨ w.fresh ≠ [] ∨
    w.old ≠ [] ∧ n < c.replicas ∧ n + idleTail s.oldQueue + 1 < surgeLimit c

theorem Serving.good {n : Int} {s : RolloutState} {w : Roster} (h : Serving c n s w) : w.good ≠ [] := by
  have := h.spare
  simp only [Roster.good, ne_eq, List.append_eq_nil_iff]
  tauto

theorem keeps_pull {image : String} {w : Roster} : KeepsServing (.pull image) w :=
  keepsServing_of_not_stop fun _ _ h => by cases h

/-- Every trace of `e` from `w` keeps serving, and ends in `Q` or an error. -/
abbrev Watched {α : Type} (Q : α → Roster → Prop) (e : Eff α) (w : Roster) : Prop :=
  Sat (tracker Roster.observe) KeepsServing (onResult Q fun _ _ => True) e.run w

theorem Watched.bind {α β : Type} {R : β → Roster → Prop} {Q : α → Roster → Prop} {e : Eff β} {k : β → Eff α}
    {w : Roster} (h : Watched R e w) (hk : ∀ b w', R b w' → Watched Q (k b) w') : Watched Q (e >>= k) w :=
  Sat.bindE h (fun _ => tracker_stable _) hk

theorem watched_pure {α : Type} {Q : α → Roster → Prop} {a : α} {w : Roster} (h : Q a w) :
    Watched Q (pure a) w := Sat.watchRet h

theorem watched_forWeb {Q : Unit → Roster → Prop} {e : Eff Unit} {w : Roster} (hQ : Q () w)
    (he : Watched Q e w) : Watched Q (forWeb c e) w := by
  unfold forWeb
  split
  · exact he
  · exact watched_pure hQ

theorem watched_refresh {Q : Unit → Roster → Prop} {draining : List String} {w : Roster} (hQ : Q () w) :
    Watched Q (refreshRouting draining) w := by
  refine Sat.watch (keepsServing_of_not_stop fun _ _ h => by cases h) fun r => ?_
  rcases r with e | u
  · exact Sat.watchRet trivial
  · exact Sat.watchRet hQ

theorem watched_heartbeat {Q : Unit → Roster → Prop} {w : Roster} (hQ : Q () w) : Watched Q heartbeat w :=
  Sat.watch (keepsServing_of_not_stop fun _ _ h => by cases h) fun _ => Sat.watchRet hQ

theorem watched_release {Q : Unit → Roster → Prop} {key : String} {index : Int} {w : Roster} (hQ : Q () w) :
    Watched Q (releasePort key index) w :=
  Sat.watch (keepsServing_of_not_stop fun _ _ h => by cases h) fun _ => Sat.watchRet hQ

theorem watched_divert {Q : Unit → Roster → Prop} {draining : List String} {w : Roster} (hQ : Q () w) :
    Watched Q (divert c draining) w := by
  refine Watched.bind (watched_refresh hQ) fun _ w' hw' => ?_
  refine Watched.bind (watched_heartbeat hw') fun _ w' hw' => ?_
  split
  · exact Sat.watch (keepsServing_of_not_stop fun _ _ h => by cases h) fun _ => Sat.watchRet hw'
  · exact watched_pure hw'

/-- The replica surged last, before its wait and after. -/
def Roster.trying (w : Roster) (name : String) : Roster := { w with pending := [name] }
def Roster.joined (w : Roster) (name : String) : Roster := { w with fresh := name :: w.fresh }

theorem watched_hostPortFor {w : Roster} {index : Int} : Watched (fun _ w' => w' = w) (hostPortFor c index) w := by
  unfold hostPortFor
  split
  · exact Sat.watch (keepsServing_of_not_stop fun _ _ h => by cases h) fun _ => Sat.watchRet rfl
  · exact watched_pure rfl

/-- Starting a replica and waiting for it leaves it joined, or running but not healthy. -/
theorem watched_start {w : Roster} (hp : w.pending = []) (index : Int) (hostPort : Option Int) :
    Watched (fun healthy w' => w' = if healthy then w.joined (containerName c.project c.service index)
        else w.trying (containerName c.project c.service index))
      (do runContainer c index hostPort (bindHost c) none none; awaitHealthy c hostPort) w := by
  refine Sat.watch (keepsServing_of_not_stop fun _ _ h => by cases h) fun r => ?_
  rcases r with e | u
  · exact Sat.watchRet trivial
  · show Watched _ (awaitHealthy c hostPort) _
    simp only [awaitHealthy, Roster.observe]
    cases hg : gateOf c hostPort with
    | none => exact watched_pure rfl
    | some g =>
      refine Sat.watch (keepsServing_of_not_stop fun _ _ h => by cases h) fun healthy => ?_
      rcases healthy with _ | _
      · exact Sat.watchRet (by simp [onResult, Roster.observe, Roster.trying, hp])
      · exact Sat.watchRet (by simp [onResult, Roster.observe, Roster.joined, hp])

theorem watched_abort {w : Roster} (hgood : w.good ≠ []) (name : String) (index : Int) (draining : List String) :
    Watched (fun _ _ => True) (abortSurge c index draining) (w.trying name) := by
  refine Watched.bind (R := fun _ _ => True) ?_ fun _ w' _ => ?_
  · refine Sat.watch ⟨fun id grace h => (by cases h), fun r _ => ?_⟩ fun r => ?_
    · simp only [Roster.good, ne_eq, List.append_eq_nil_iff] at hgood
      simp only [Roster.observe, Roster.up, Roster.trying, ne_eq, List.append_eq_nil_iff]
      tauto
    · rcases r with e | u
      · exact Sat.watchRet trivial
      · exact Sat.watchRet trivial
  · refine Watched.bind (R := fun _ _ => True) (watched_release trivial) fun _ w' _ => ?_
    refine Watched.bind (R := fun _ _ => True) ?_ fun _ w' _ => watched_forWeb trivial (watched_refresh trivial)
    exact Sat.watch (keepsServing_of_not_stop fun _ _ h => by cases h) fun _ => Sat.watchRet trivial

/-- One surge: a healthy replica is one more to serve with. -/
theorem watched_surgeOne {n : Int} {s : RolloutState} {w : Roster} (h : Serving c n s w) :
    Watched (fun healthy w' => healthy = true → Serving c n s.surged w') (surgeOne c s) w := by
  unfold surgeOne
  refine Watched.bind watched_hostPortFor fun hostPort w' hw' => ?_
  subst hw'
  rw [← bind_assoc]
  refine Watched.bind (watched_start h.pending s.nextIndex hostPort) fun healthy w' hw' => ?_
  subst hw'
  cases healthy with
  | false =>
    refine Watched.bind (watched_abort h.good _ _ _) fun _ w' _ => watched_pure fun hf => ?_
    cases hf
  | true =>
    have hs : Serving c n s.surged (w'.joined (containerName c.project c.service s.nextIndex)) := by
      refine ⟨h.old, h.nodup, h.apart, ?_, h.pending, .inr (.inl (List.cons_ne_nil _ _))⟩
      have := h.count
      simp only [RolloutState.surged, Roster.joined, List.length_cons]
      omega
    refine Watched.bind (R := fun _ => Serving c n s.surged) ?_ fun _ w' hw' => watched_pure fun _ => hw'
    exact watched_forWeb hs (Watched.bind (watched_refresh hs) fun _ _ hw' => watched_heartbeat hw')

theorem Roster.up_of_good {w : Roster} (h : w.good ≠ []) : w.up ≠ [] := by
  simp only [Roster.good, Roster.up, ne_eq, List.append_eq_nil_iff] at h ⊢
  tauto

/-- Stopping the head of the queue leaves the running replicas of the rest. -/
theorem stopped_old {w : Roster} {old : ManagedReplica} {rest : List ManagedReplica}
    (hnodup : ((old :: rest).map (·.id)).Nodup) (hold : w.old = ((old :: rest).filter (·.running)).map (·.id)) :
    (w.stopped old.id).old = (rest.filter (·.running)).map (·.id) := by
  rw [List.map_cons, List.nodup_cons] at hnodup
  have hrest : ∀ id ∈ (rest.filter (·.running)).map (·.id), decide (id ≠ old.id) = true := by
    intro id hid
    obtain ⟨r, hr, hrid⟩ := List.mem_map.mp hid
    refine decide_eq_true fun he => hnodup.1 ?_
    exact List.mem_map.mpr ⟨r, (List.mem_filter.mp hr).1, hrid.trans he⟩
  simp only [Roster.stopped, hold, List.filter_cons]
  split
  · rw [List.map_cons, List.filter_cons_of_neg (by simp)]
    exact List.filter_eq_self.mpr hrest
  · exact List.filter_eq_self.mpr hrest

/-- With room for a surge, the last running replica does not head the queue when the
    loop drains: it would have surged. -/
theorem more_running {s : RolloutState} {old : ManagedReplica} {rest : List ManagedReplica}
    (hq : s.oldQueue = old :: rest) (hfull : s.canSurge c = false) (hn : s.newCount < c.replicas)
    (hroom : s.newCount + idleTail s.oldQueue + 1 < surgeLimit c) :
    rest.any (·.running) = true ∧ idleTail s.oldQueue = idleTail rest := by
  rw [hq, idleTail] at hroom ⊢
  split at hroom
  · rename_i hany
    exact ⟨hany, if_pos hany⟩
  · exfalso
    rw [← Bool.not_eq_true, RolloutState.canSurge_iff, hq, List.length_cons] at hfull
    omega

/-- Retiring the head of the queue. -/
theorem Serving.stopped {n : Int} {s : RolloutState} {w : Roster} {old : ManagedReplica} {rest : List ManagedReplica}
    (h : Serving c n s w) (hq : s.oldQueue = old :: rest) (hfull : s.canSurge c = false) :
    Serving c n (s.drained old rest) (w.stopped old.id) := by
  have hnodup := h.nodup
  have hold := h.old
  have hapart := h.apart
  rw [hq] at hnodup hold hapart
  have hkept : (w.stopped old.id).kept = w.kept := by
    refine List.filter_eq_self.mpr fun id hid => ?_
    have := hapart old (List.mem_cons_self ..)
    simp only [ne_eq, decide_not, Bool.not_eq_true', decide_eq_false_iff_not]
    rintro rfl
    exact this hid
  have hnew := stopped_old hnodup hold
  refine ⟨hnew, (List.nodup_cons.mp hnodup).2, fun r hr => ?_, h.count, h.pending, ?_⟩
  · rw [hkept]
    exact hapart r (List.mem_cons_of_mem _ hr)
  · rw [hkept]
    rcases h.spare with hk | hf | ⟨-, hn, hroom⟩
    · exact .inl hk
    · exact .inr (.inl hf)
    · by_cases hf : w.fresh = []
      · have hcount := h.count
        rw [hf, List.length_nil] at hcount
        obtain ⟨hany, htail⟩ := more_running hq hfull (by omega) (by omega)
        obtain ⟨r, hr, hrun⟩ := List.any_eq_true.mp hany
        refine .inr (.inr ⟨?_, hn, by rw [htail] at hroom; exact hroom⟩)
        rw [hnew]
        exact List.ne_nil_of_mem (List.mem_map.mpr ⟨r, List.mem_filter.mpr ⟨hr, hrun⟩, rfl⟩)
      · exact .inr (.inl hf)

theorem watched_drainOne {n : Int} {s : RolloutState} {w : Roster} {old : ManagedReplica}
    {rest : List ManagedReplica} (h : Serving c n s w) (hq : s.oldQueue = old :: rest) (hfull : s.canSurge c = false) :
    Watched (fun _ w' => Serving c n (s.drained old rest) w') (drainOne c s old) w := by
  have hs := h.stopped hq hfull
  unfold drainOne
  refine Watched.bind (R := fun _ w' => w' = w) (watched_forWeb rfl (watched_divert rfl)) fun _ w' hw' => ?_
  subst hw'
  refine Watched.bind (R := fun _ w'' => Serving c n (s.drained old rest) w'') ?_ fun _ w'' hw'' => ?_
  · refine Sat.watch ⟨fun id grace ho _ => ?_, fun _ _ => Roster.up_of_good hs.good⟩ fun r => ?_
    · cases ho
      exact hs.good
    · rcases r with e | u
      · exact Sat.watchRet trivial
      · exact Sat.watchRet hs
  · exact Watched.bind (watched_release hw'') fun _ _ hw => watched_heartbeat hw

/-- The loop keeps serving, whatever the commands answer. -/
theorem watched_rolloutLoop {n : Int} (s : RolloutState) {w : Roster} (h : Serving c n s w) :
    Watched (fun _ _ => True) (rolloutLoop c s) w := by
  refine sat_rolloutLoop (fun _ => tracker_stable _) (fun _ => tracker_stable _) (fun _ _ _ _ _ => trivial) ?_ ?_
    (fun _ => tracker_stable _) s h
  · intro s w _ hw
    refine (watched_surgeOne hw).mono (fun _ _ h => h) fun r w hr => ?_
    rcases r with e | healthy
    · trivial
    · cases healthy with
      | true => exact hr rfl
      | false => trivial
  · intro s old rest w hfull hq hw
    exact watched_drainOne hw hq hfull

theorem serving_init {current : List ManagedReplica} (hids : (current.map (·.id)).Nodup)
    (hrun : ∃ r ∈ current, r.running = true) (hspare : Spare c current) :
    Serving c (RolloutState.init c current).newCount (RolloutState.init c current) (Roster.init c current) := by
  refine ⟨rfl, ?_, fun r hr hk => ?_, by simp [Roster.init], rfl, ?_⟩
  · exact hids.sublist (List.filter_sublist.map _)
  · obtain ⟨r', hr', hid⟩ := List.mem_map.mp hk
    have hr1 := List.mem_filter.mp hr
    have hr2 := List.mem_filter.mp (List.mem_filter.mp hr').1
    have := List.inj_on_of_nodup_map hids hr2.1 hr1.1 hid
    subst this
    simp [hr1.2] at hr2
  · rcases hspare with ⟨r, hr, hrun, hmatch⟩ | ⟨hn, hroom⟩
    · refine .inl (List.ne_nil_of_mem (List.mem_map.mpr ⟨r, ?_, rfl⟩))
      exact List.mem_filter.mpr ⟨List.mem_filter.mpr ⟨hr, by simp [hmatch]⟩, hrun⟩
    · obtain ⟨r, hr, hrun⟩ := hrun
      by_cases hrep : replicaNeedsReplace r c = true
      · refine .inr (.inr ⟨List.ne_nil_of_mem (List.mem_map.mpr ⟨r, ?_, rfl⟩), hn, hroom⟩)
        exact List.mem_filter.mpr ⟨List.mem_filter.mpr ⟨hr, hrep⟩, hrun⟩
      · refine .inl (List.ne_nil_of_mem (List.mem_map.mpr ⟨r, ?_, rfl⟩))
        exact List.mem_filter.mpr ⟨List.mem_filter.mpr ⟨hr, by simpa using hrep⟩, hrun⟩

theorem watched_rolloutService {current : List ManagedReplica} (hids : (current.map (·.id)).Nodup)
    (hrun : ∃ r ∈ current, r.running = true) (hspare : Spare c current) :
    Watched (fun _ _ => True) (rolloutService c current) (Roster.init c current) := by
  have hs := serving_init hids hrun hspare
  unfold rolloutService
  refine Watched.bind (R := fun _ w => w = Roster.init c current) ?_ fun _ w hw => ?_
  · refine Sat.watch keeps_pull fun r => ?_
    rcases r with e | u
    · exact Sat.watchRet trivial
    · exact Sat.watchRet rfl
  · subst hw
    refine Watched.bind (watched_rolloutLoop _ hs) fun converged w _ => ?_
    split
    · exact watched_forWeb trivial (watched_refresh trivial)
    · exact watched_pure trivial

end Serving

/-! ## Without a spare, the run in which everything succeeds does not -/

/-- Every command succeeds. -/
def allOk : (o : Op) → Resp o
  | .allocatePort .. => hostPortMin
  | .releasePort .. | .heartbeat | .sleepMs .. | .setError .. => ()
  | .waitHealthy .. => true
  | .pull .. | .runContainer .. | .startContainer .. | .stopContainer .. | .removeContainer ..
  | .refreshRouting .. | .recordCronFire .. | .runBackup .. => .ok ()

section Starving

variable {c : ServiceConfig}

theorem divert_allOk (draining : List String) (w : Roster) :
    (forWeb c (divert c draining)).run.value allOk = .ok () ∧
      (forWeb c (divert c draining)).run.after Roster.observe allOk w = w := by
  unfold forWeb
  split
  · unfold divert
    split <;> exact ⟨rfl, rfl⟩
  · exact ⟨rfl, rfl⟩

/-- The drain's stop finds the roster as it was. -/
theorem drainOne_allOk (s : RolloutState) (old : ManagedReplica) (w : Roster) :
    (drainOne c s old).run.value allOk = .ok () ∧
      (drainOne c s old).run.after Roster.observe allOk w = w.stopped old.id := by
  obtain ⟨hv, ha⟩ := divert_allOk (c := c) (s.draining.insert old.id) w
  unfold drainOne
  simp only [ExceptT.run_bind, Prog.value_bind, Prog.after_bind, hv, ha]
  exact ⟨rfl, rfl⟩

theorem idleTail_lt {queue : List ManagedReplica} (h : queue ≠ []) : idleTail queue < queue.length := by
  induction queue with
  | nil => exact absurd rfl h
  | cons r rest ih =>
    rw [idleTail, List.length_cons]
    split
    · rename_i hany
      obtain ⟨r, hr, _⟩ := List.any_eq_true.mp hany
      have := ih (List.ne_nil_of_mem hr)
      omega
    · omega

/-- The loop drains with nothing but the old replicas running, and no room to surge
    before the last of them. -/
structure Starving (c : ServiceConfig) (s : RolloutState) (w : Roster) : Prop where
  old : w.old = (s.oldQueue.filter (·.running)).map (·.id)
  kept : w.kept = []
  fresh : w.fresh = []
  some : s.oldQueue.any (·.running) = true
  full : c.replicas ≤ s.newCount ∨ surgeLimit c ≤ s.newCount + idleTail s.oldQueue + 1

theorem Starving.not_canSurge {s : RolloutState} {w : Roster} (h : Starving c s w) : s.canSurge c = false := by
  obtain ⟨r, hr, _⟩ := List.any_eq_true.mp h.some
  have hlt := idleTail_lt (List.ne_nil_of_mem hr)
  have hfull := h.full
  rw [← Bool.not_eq_true, RolloutState.canSurge_iff]
  omega

theorem not_watched_of_starving (queue : List ManagedReplica) : ∀ (s : RolloutState) (w : Roster),
    s.oldQueue = queue → (queue.map (·.id)).Nodup → Starving c s w →
    ¬ Sat (tracker Roster.observe) KeepsServing (fun _ _ => True) (rolloutLoop c s).run w := by
  induction queue with
  | nil =>
    intro s w hq _ hs _
    have := hs.some
    rw [hq] at this
    cases this
  | cons old rest ih =>
    intro s w hq hnodup hs hw
    have hfull := hs.not_canSurge
    rw [rolloutLoop, dif_neg (by simp [hfull])] at hw
    split at hw
    · rename_i hq'; rw [hq] at hq'; cases hq'
    · rename_i hq'
      rw [hq] at hq'
      cases hq'
      have hold := hs.old
      rw [hq] at hold
      by_cases hany : rest.any (·.running) = true
      · -- Another running replica follows: this one is drained, and the loop goes on.
        obtain ⟨hv, ha⟩ := drainOne_allOk (c := c) s old w
        have hw' := hw.followE allOk hv
        rw [ha] at hw'
        refine ih (s.drained old rest) (w.stopped old.id) rfl (List.nodup_cons.mp hnodup).2 ?_ hw'
        refine ⟨stopped_old hnodup hold, ?_, hs.fresh, hany, ?_⟩
        · simp [Roster.stopped, hs.kept]
        · have hfull' := hs.full
          rw [hq, idleTail, if_pos hany] at hfull'
          exact hfull'
      · -- The head is the last running one: its stop leaves nothing.
        have hempty : rest.filter (·.running) = [] := by
          refine List.filter_eq_nil_iff.mpr fun r hr hrun => hany (List.any_eq_true.mpr ⟨r, hr, hrun⟩)
        have hrun : old.running = true := by
          have := hs.some
          rw [hq, List.any_cons] at this
          simpa [hany] using this
        obtain ⟨hv, ha⟩ := divert_allOk (c := c) (s.draining.insert old.id) w
        unfold drainOne at hw
        rw [bind_assoc] at hw
        have hw' := hw.followE allOk hv
        rw [ha] at hw'
        have hgood := hw'.atAct.1 old.id (graceSec c) rfl (by simp [hold, hrun])
        have hgone := stopped_old hnodup hold
        rw [hempty] at hgone
        refine hgood ?_
        simp only [Roster.good, hgone]
        simp [Roster.stopped, hs.kept, hs.fresh]

theorem starving_init {current : List ManagedReplica} (hrun : ∃ r ∈ current, r.running = true)
    (hspare : ¬ Spare c current) : Starving c (RolloutState.init c current) (Roster.init c current) := by
  unfold Spare at hspare
  simp only [not_or, not_exists, not_and] at hspare
  obtain ⟨hkept, hroom⟩ := hspare
  refine ⟨rfl, ?_, rfl, ?_, ?_⟩
  · simp only [Roster.init, List.map_eq_nil_iff, List.filter_eq_nil_iff]
    intro r hr hrun
    have hr := List.mem_filter.mp hr
    exact hkept r hr.1 hrun (by simpa using hr.2)
  · obtain ⟨r, hr, hrun⟩ := hrun
    refine List.any_eq_true.mpr ⟨r, List.mem_filter.mpr ⟨hr, ?_⟩, hrun⟩
    simpa using hkept r hr hrun
  · by_cases hn : (RolloutState.init c current).newCount < c.replicas
    · have := hroom hn
      exact .inr (by omega)
    · exact .inl (by omega)

theorem not_watched_rolloutService {current : List ManagedReplica} (hids : (current.map (·.id)).Nodup)
    (hrun : ∃ r ∈ current, r.running = true) (hspare : ¬ Spare c current) :
    ¬ Sat (tracker Roster.observe) KeepsServing (fun _ _ => True) (rolloutService c current).run
      (Roster.init c current) := by
  intro hw
  have hpull : (pull c.image).run.value allOk = .ok () := rfl
  have hw' := hw.followE allOk hpull
  rw [ExceptT.run_bind] at hw'
  refine not_watched_of_starving _ _ _ rfl ?_ (starving_init hrun hspare) hw'.ofBind
  exact hids.sublist (List.filter_sublist.map _)

end Starving

/-! ## The law and its exact condition -/

/-- For every list of containers with a running one, and whatever the commands answer: a
    rollout never stops a running old replica without another good one running, and the
    service never goes from running to not running, exactly when there is a spare. -/
theorem rollout_keeps_serving_iff (c : ServiceConfig) (current : List ManagedReplica)
    (hids : (current.map (·.id)).Nodup) (hrun : ∃ r ∈ current, r.running = true) :
    (∀ t, Trace (rolloutService c current).run t →
      Checked Roster.observe KeepsServing (Roster.init c current) t) ↔ Spare c current := by
  rw [← sat_tracker_iff]
  constructor
  · intro hw
    by_contra hspare
    exact not_watched_rolloutService hids hrun hspare hw
  · intro hspare
    exact (watched_rolloutService hids hrun hspare).mono (fun _ _ h => h) fun _ _ _ => trivial

/-! ### A replica that matches but does not run -/

def webV2 : ServiceConfig :=
  { project := "blog", service := "web", image := "web:2", cpu := 256, memory := 256, ingress := none }

def webReplica (id : String) (index : Int) (image : String) (state : ContainerState) : ManagedReplica :=
  { id, name := containerName "blog" "web" index, index, state, project := "blog", service := "web", image
    cpu := 256, memory := 256, hostPort := none, configStamp := serviceConfigStamp webV2
    cronFireMs := none, jobRunId := none, exitCode := none }

/-- What a rollout leaves when its `docker run` created the container but could not start it. -/
def leftovers : List ManagedReplica := [webReplica "a" 0 "web:1" .running, webReplica "b" 1 "web:2" .created]

theorem leftovers_not_spare : ¬ Spare webV2 leftovers := by
  have hold : replicaNeedsReplace (webReplica "a" 0 "web:1" .running) webV2 = true := by
    simp [replicaNeedsReplace, webReplica, webV2]
  have hnew : replicaNeedsReplace (webReplica "b" 1 "web:2" .created) webV2 = false := by
    simp [replicaNeedsReplace, webReplica, webV2]
  rintro (⟨r, hr, hrun, hmatch⟩ | ⟨hn, -⟩)
  · simp only [leftovers, List.mem_cons, List.not_mem_nil, or_false] at hr
    rcases hr with rfl | rfl
    · rw [hold] at hmatch; cases hmatch
    · cases hrun
  · -- The created replica counts as new: the one wanted is already there.
    simp only [RolloutState.init, leftovers, List.filter_cons, hold, hnew, List.filter_nil] at hn
    exact absurd hn (by decide)

theorem rollout_keeps_serving_leftovers :
    (∀ t, Trace (rolloutService webV2 leftovers).run t →
      Checked Roster.observe KeepsServing (Roster.init webV2 leftovers) t) ↔ Spare webV2 leftovers :=
  rollout_keeps_serving_iff webV2 leftovers (by decide) ⟨_, List.mem_cons_self .., rfl⟩

/-- The rollout stops the only running replica and only then looks at the other. -/
theorem rollout_stops_the_last_replica :
    ¬ ∀ (c : ServiceConfig) (current : List ManagedReplica), (current.map (·.id)).Nodup →
      (∃ r ∈ current, r.running = true) → 1 ≤ c.replicas → 1 ≤ c.rollout.maxSurge →
      ∀ t, Trace (rolloutService c current).run t →
        Checked Roster.observe KeepsServing (Roster.init c current) t := by
  intro h
  have hall := h webV2 leftovers (by decide) ⟨_, List.mem_cons_self .., rfl⟩ (by decide) (by decide)
  exact not_watched_rolloutService (by decide) ⟨_, List.mem_cons_self .., rfl⟩ leftovers_not_spare
    (sat_tracker_iff.mpr hall)

end LaunchPad.Agent
