/-
  LaunchPad.Agent.RolloutBounds — how many containers a rolling update has at once
  (`reconcile.rs` `rollout_service`), beside what the CLI reserves for it (`commands/deploy.ts`
  `capacityDemands`).

  Containers are counted: those of the input that are to be replaced, by id, and those that
  match, of the input or started. A command that fails may have had its effect or not. Every
  answer of every command is possible, and an execution may stop anywhere.

  As built the limit `want + surge` is a 64-bit sum, and a release build wraps. Then nothing is
  surged and every old container is drained.

  Proved:
  - `rollout_bounded`: a rollout issues a bounded number of commands.
  - `rollout_within_surge_iff`: a rollout stays within its limits, ends complete and stops no
    container after a failure exactly when the sum does not wrap, or enough containers match
    from the start.
-/
import LaunchPad.Agent.Availability
import LaunchPad.Agent.Overflow
import LaunchPad.Cli.Preflight

namespace LaunchPad.Agent

open Lib Reconciler

/-! ## Containers, counted -/

/-- The containers of a service during a rollout. `failed`: a run, a health wait or a publish
    has failed; `aborted`: a failed health check has been recorded. -/
structure Tally where
  old : List String
  fresh : Int
  failed : Bool := false
  aborted : Bool := false

namespace Tally

def init (c : ServiceConfig) (current : List ManagedReplica) : Tally where
  old := (current.filter (replicaNeedsReplace · c)).map (·.id)
  fresh := (current.filter (!replicaNeedsReplace · c)).length

def count (w : Tally) : Int := w.old.length + w.fresh

def started (w : Tally) : Tally := { w with fresh := w.fresh + 1 }
def stoppedNew (w : Tally) : Tally := { w with fresh := w.fresh - 1 }
def stoppedOld (w : Tally) (id : String) : Tally := { w with old := w.old.erase id }
def fail (w : Tally) : Tally := { w with failed := true }
def abort (w : Tally) : Tally := { w with aborted := true }

/-- What a command does to the containers. -/
def sem : (o : Op) → Tally → Resp o → Tally → Prop
  | .runContainer .., w, .ok _, w' => w' = w.started
  | .runContainer .., w, .error _, w' => w' = w.fail ∨ w' = w.started.fail
  | .waitHealthy .., w, healthy, w' => w' = if healthy then w else w.fail
  | .refreshRouting _, w, .ok _, w' => w' = w
  | .refreshRouting _, w, .error _, w' => w' = w.fail
  | .stopContainer (.id id) _, w, .ok _, w' => w' = w.stoppedOld id
  | .stopContainer (.id id) _, w, .error _, w' => w' = w ∨ w' = w.stoppedOld id
  | .stopContainer (.name _) _, w, .ok _, w' => w' = w.stoppedNew
  | .stopContainer (.name _) _, w, .error _, w' => w' = w ∨ w' = w.stoppedNew
  | .setError .., w, _, w' => w' = w.abort
  | _, w, _, w' => w' = w

@[simp] theorem count_fail (w : Tally) : w.fail.count = w.count := rfl

@[simp] theorem count_started (w : Tally) : w.started.count = w.count + 1 := by
  show (w.old.length : Int) + (w.fresh + 1) = w.old.length + w.fresh + 1
  omega

@[simp] theorem count_stoppedNew (w : Tally) : w.stoppedNew.count = w.count - 1 := by
  show (w.old.length : Int) + (w.fresh - 1) = w.old.length + w.fresh - 1
  omega

end Tally

def tallies : Machine Resp Tally := ⟨Tally.sem, fun _ _ => False⟩

/-- As many containers as the update may have, which began with `n`. -/
structure WithinSurge (c : ServiceConfig) (n count : Int) : Prop where
  most : count ≤ max n (c.replicas + c.rollout.maxSurge)
  least : min n c.replicas ≤ count
  peak : n ≤ c.replicas → count ≤ c.replicas + min c.rollout.maxSurge c.replicas

/-- What is asked of a rollout of `c` over `current`. -/
structure KeepsSurge (c : ServiceConfig) (current : List ManagedReplica) : Prop where
  ends : ∃ n, ∀ t, Trace (rolloutService c current).run t → t.length ≤ n
  within : ∀ q w, Runs tallies (rolloutService c current).run (.init c current) q w →
    WithinSurge c current.length w.count
  complete : ∀ w, Runs tallies (rolloutService c current).run (.init c current) (.ret (.ok ())) w → w.aborted = false →
    w.old = [] ∧ c.replicas ≤ w.fresh
  halts : ∀ id grace k w, Runs tallies (rolloutService c current).run (.init c current)
    (.act (.stopContainer (.id id) grace) k) w → w.failed = false

/-! ## Length -/

section Length

variable {c : ServiceConfig}

theorem bounded_forWeb {e : Eff Unit} {n : Nat} (h : Bounded e.run n) : Bounded (forWeb c e).run n := by
  unfold forWeb
  split
  · exact h
  · trivial

theorem bounded_hostPortFor (index : Int) : Bounded (hostPortFor c index).run 1 := by
  unfold hostPortFor
  split
  · exact ⟨Nat.one_pos, fun _ => trivial⟩
  · trivial

theorem bounded_awaitHealthy (hostPort : Option Int) : Bounded (awaitHealthy c hostPort).run 1 := by
  unfold awaitHealthy
  split
  · exact ⟨Nat.one_pos, fun _ => trivial⟩
  · trivial

theorem bounded_abortSurge (index : Int) (draining : List String) : Bounded (abortSurge c index draining).run 4 := by
  unfold abortSurge
  refine Bounded.bindE (m := 1) (n := 3) ⟨Nat.one_pos, fun _ => trivial⟩ fun _ => ?_
  refine Bounded.bindE (m := 1) (n := 2) ⟨Nat.one_pos, fun _ => trivial⟩ fun _ => ?_
  refine Bounded.bindE (m := 1) (n := 1) ⟨Nat.one_pos, fun _ => trivial⟩ fun _ => ?_
  exact bounded_forWeb ⟨Nat.one_pos, fun _ => trivial⟩

theorem bounded_surgeOne (s : RolloutState) : Bounded (surgeOne c s).run 7 := by
  unfold surgeOne
  refine Bounded.bindE (m := 1) (n := 6) (bounded_hostPortFor _) fun port => ?_
  refine Bounded.bindE (m := 1) (n := 5) ⟨Nat.one_pos, fun _ => trivial⟩ fun _ => ?_
  refine Bounded.bindE (m := 1) (n := 4) (bounded_awaitHealthy port) fun healthy => ?_
  split
  · refine Bounded.mono (m := 2 + 0) ?_ (by omega)
    refine Bounded.bindE (bounded_forWeb ?_) fun _ => trivial
    exact Bounded.bindE (m := 1) (n := 1) ⟨Nat.one_pos, fun _ => trivial⟩ fun _ => ⟨Nat.one_pos, fun _ => trivial⟩
  · exact Bounded.bindE (m := 4) (n := 0) (bounded_abortSurge _ _) fun _ => trivial

theorem bounded_drainOne (s : RolloutState) (old : ManagedReplica) : Bounded (drainOne c s old).run 6 := by
  have hsleep : Bounded (if drainWaitMs c > 0 then sleepMs (drainWaitMs c) else return () : Eff Unit).run 1 := by
    split
    · exact ⟨Nat.one_pos, fun _ => trivial⟩
    · trivial
  unfold drainOne divert
  refine Bounded.bindE (m := 3) (n := 3) (bounded_forWeb ?_) fun _ => ?_
  · refine Bounded.bindE (m := 1) (n := 2) ⟨Nat.one_pos, fun _ => trivial⟩ fun _ => ?_
    exact Bounded.bindE (m := 1) (n := 1) ⟨Nat.one_pos, fun _ => trivial⟩ fun _ => hsleep
  · refine Bounded.bindE (m := 1) (n := 2) ⟨Nat.one_pos, fun _ => trivial⟩ fun _ => ?_
    exact Bounded.bindE (m := 1) (n := 1) ⟨Nat.one_pos, fun _ => trivial⟩ fun _ => ⟨Nat.one_pos, fun _ => trivial⟩

theorem bounded_rolloutLoop (s : RolloutState) : Bounded (rolloutLoop c s).run (7 * s.measure c) := by
  induction s using rolloutLoop.induct c with
  | case1 s h ih =>
    rw [rolloutLoop, dif_pos h]
    have hless : s.measure c = s.surged.measure c + 1 := by
      have hroom := RolloutState.canSurge_iff.mp h
      simp only [RolloutState.measure, RolloutState.surged]
      omega
    rw [hless, Nat.mul_add, Nat.add_comm]
    refine Bounded.bindE (bounded_surgeOne s) fun healthy => ?_
    split
    · exact ih
    · trivial
  | case2 s h hq =>
    rw [rolloutLoop, dif_neg h]
    split
    · trivial
    · rename_i hq'
      rw [hq] at hq'
      cases hq'
  | case3 s h old rest hq ih =>
    rw [rolloutLoop, dif_neg h]
    split
    · trivial
    · rename_i old' rest' hq'
      rw [hq] at hq'
      cases hq'
      have hless : s.measure c = (s.drained old rest).measure c + 1 := by
        simp only [RolloutState.measure, RolloutState.drained, hq, List.length_cons]
        omega
      rw [hless, Nat.mul_add, Nat.add_comm]
      exact Bounded.bindE ((bounded_drainOne s old).mono (by omega)) fun _ => ih

/-- Every execution of a rollout ends. -/
theorem rollout_bounded (c : ServiceConfig) (current : List ManagedReplica) :
    Bounded (rolloutService c current).run (7 * (RolloutState.init c current).measure c + 2) := by
  have hend : ∀ converged : Bool, Bounded (if converged then forWeb c (refreshRouting []) else return () : Eff Unit).run 1 := by
    intro converged
    split
    · exact bounded_forWeb ⟨Nat.one_pos, fun _ => trivial⟩
    · trivial
  unfold rolloutService
  refine Bounded.mono (m := 1 + (7 * (RolloutState.init c current).measure c + 1)) ?_ (by omega)
  refine Bounded.bindE ⟨Nat.one_pos, fun _ => trivial⟩ fun _ => ?_
  exact Bounded.bindE (bounded_rolloutLoop _) hend

end Length

/-! ## Between the limits -/

section Within

variable {c : ServiceConfig} {n : Int} {s : RolloutState} {w : Tally}

/-- What every command finds: the limits, and no failure when an old container is stopped. -/
def Guard (c : ServiceConfig) (n : Int) (o : Op) (w : Tally) : Prop :=
  WithinSurge c n w.count ∧ ∀ id grace, o = .stopContainer (.id id) grace → w.failed = false

/-- Every execution of `e` from `w` stays within the limits, and ends in `Q` or an error. -/
abbrev Stays {α : Type} (c : ServiceConfig) (n : Int) (Q : α → Tally → Prop) (e : Eff α) (w : Tally) : Prop :=
  Sat tallies (Guard c n) (onResult Q fun _ w => WithinSurge c n w.count) e.run w

theorem tallies_stable (P : Tally → Prop) : tallies.Stable P := fun _ _ _ h => h.elim

theorem Stays.bind {α β : Type} {R : β → Tally → Prop} {Q : α → Tally → Prop} {e : Eff β} {k : β → Eff α}
    (h : Stays c n R e w) (hk : ∀ b w', R b w' → Stays c n Q (k b) w') : Stays c n Q (e >>= k) w :=
  Sat.bindE h (fun _ => tallies_stable _) hk

theorem stays_ret {α : Type} {Q : α → Tally → Prop} {a : α} (h : Q a w) : Sat tallies (Guard c n) Q (.ret a) w :=
  Sat.ret (P := fun x => x = w) (tallies_stable _) rfl fun _ hx => hx ▸ h

theorem stays_pure {α : Type} {Q : α → Tally → Prop} {a : α} (h : Q a w) : Stays c n Q (pure a) w := stays_ret h

theorem stays_act {α : Type} {Q : Except String α → Tally → Prop} {o : Op} {k : Resp o → Prog Resp (Except String α)}
    (hG : Guard c n o w) (hk : ∀ r w', Tally.sem o w r w' → Sat tallies (Guard c n) Q (k r) w') :
    Sat tallies (Guard c n) Q (.act o k) w :=
  Sat.act (P := fun x => x = w) (tallies_stable _) rfl (fun _ hx => hx ▸ hG) fun _ r w' hx hs => hk r w' (hx ▸ hs)

theorem guard_of_not_stop {o : Op} (h : WithinSurge c n w.count) (ho : ∀ id grace, o ≠ .stopContainer (.id id) grace) :
    Guard c n o w := ⟨h, fun id grace e => absurd e (ho id grace)⟩

theorem stays_forWeb {Q : Unit → Tally → Prop} {e : Eff Unit} (hQ : Q () w) (he : Stays c n Q e w) :
    Stays c n Q (forWeb c e) w := by
  unfold forWeb
  split
  · exact he
  · exact stays_pure hQ

theorem stays_refresh {Q : Unit → Tally → Prop} {draining : List String} (h : WithinSurge c n w.count) (hQ : Q () w) :
    Stays c n Q (refreshRouting draining) w := by
  refine stays_act (guard_of_not_stop h fun _ _ e => by cases e) fun r w' hs => ?_
  cases r with
  | error e =>
    obtain rfl : w' = w.fail := hs
    exact stays_ret h
  | ok u =>
    obtain rfl : w' = w := hs
    exact stays_ret hQ

theorem stays_heartbeat {Q : Unit → Tally → Prop} (h : WithinSurge c n w.count) (hQ : Q () w) : Stays c n Q heartbeat w := by
  refine stays_act (guard_of_not_stop h fun _ _ e => by cases e) fun r w' hs => ?_
  obtain rfl : w' = w := hs
  exact stays_ret hQ

theorem stays_releasePort {Q : Unit → Tally → Prop} {key : String} {index : Int} (h : WithinSurge c n w.count) (hQ : Q () w) :
    Stays c n Q (Reconciler.releasePort key index) w := by
  refine stays_act (guard_of_not_stop h fun _ _ e => by cases e) fun r w' hs => ?_
  obtain rfl : w' = w := hs
  exact stays_ret hQ

theorem stays_hostPortFor {index : Int} (h : WithinSurge c n w.count) : Stays c n (fun _ w' => w' = w) (hostPortFor c index) w := by
  unfold hostPortFor
  split
  · refine stays_act (guard_of_not_stop h fun _ _ e => by cases e) fun r w' hs => ?_
    obtain rfl : w' = w := hs
    exact stays_ret rfl
  · exact stays_pure rfl

/-- Where the loop stands. -/
structure Level (c : ServiceConfig) (n : Int) (s : RolloutState) (w : Tally) : Prop where
  old : w.old = s.oldQueue.map (·.id)
  fresh : w.fresh = s.newCount
  failed : w.failed = false
  aborted : w.aborted = false
  within : WithinSurge c n s.total
  fewOld : s.oldQueue.length ≤ n
  room : surgeLimit c = c.replicas + c.rollout.maxSurge ∨ c.replicas ≤ s.newCount

theorem Level.count (h : Level c n s w) : w.count = s.total := by
  rw [Tally.count, RolloutState.total, h.old, h.fresh, List.length_map]

/-- With room for a surge, one container more is within the limits. -/
theorem Level.surge (h : Level c n s w) (hroom : s.canSurge c = true) : WithinSurge c n (s.total + 1) := by
  obtain ⟨hnew, hlimit⟩ := RolloutState.canSurge_iff.mp hroom
  have hsum : surgeLimit c = c.replicas + c.rollout.maxSurge := by
    rcases h.room with hsum | hnone
    · exact hsum
    · omega
  have hleast := h.within.least
  have hfew := h.fewOld
  unfold RolloutState.total at hleast ⊢
  exact ⟨by omega, by omega, fun hn => by omega⟩

/-- Draining one leaves enough: as many match as are wanted, or the limit was reached. -/
theorem Level.drain (h : Level c n s w) (hfull : s.canSurge c = false) (hsurge : 1 ≤ c.rollout.maxSurge) {old : ManagedReplica}
    {rest : List ManagedReplica} (hq : s.oldQueue = old :: rest) : Level c n (s.drained old rest) (w.stoppedOld old.id) := by
  have hlength : s.oldQueue.length = rest.length + 1 := by rw [hq, List.length_cons]
  have hleast : min n c.replicas ≤ (s.drained old rest).total := by
    show min n c.replicas ≤ (rest.length : Int) + s.newCount
    by_cases hnew : c.replicas ≤ s.newCount
    · omega
    · rcases h.room with hsum | hnone
      · have hlimit : ¬ (s.oldQueue.length + s.newCount < surgeLimit c) := fun hlt =>
          absurd (RolloutState.canSurge_iff.mpr ⟨by omega, hlt⟩) (by simp [hfull])
        omega
      · omega
  have htotal : (s.drained old rest).total = s.total - 1 := by
    show (rest.length : Int) + s.newCount = s.oldQueue.length + s.newCount - 1
    omega
  have hfew := h.fewOld
  refine ⟨?_, h.fresh, h.failed, h.aborted, ⟨?_, hleast, fun hn => ?_⟩, ?_, h.room⟩
  · show w.old.erase old.id = rest.map (·.id)
    rw [h.old, hq, List.map_cons, List.erase_cons_head]
  · have hmost := h.within.most
    omega
  · have hpeak := h.within.peak hn
    omega
  · show (rest.length : Int) ≤ n
    omega

/-- Starting a replica and waiting for it: it matches, or it runs and has failed its check. -/
theorem stays_start (hcount : WithinSurge c n w.count) (hmore : WithinSurge c n (w.count + 1)) (index : Int) (hostPort : Option Int) :
    Stays c n (fun healthy w' => w' = if healthy then w.started else w.started.fail)
      (do runContainer c index hostPort (bindHost c) none none; awaitHealthy c hostPort) w := by
  have hstarted : WithinSurge c n w.started.count := by rwa [Tally.count_started]
  refine stays_act (guard_of_not_stop hcount fun _ _ e => by cases e) fun r w' hs => ?_
  cases r with
  | error e =>
    refine stays_ret ?_
    rcases hs with rfl | rfl
    · exact hcount
    · exact hstarted
  | ok u =>
    obtain rfl : w' = w.started := hs
    show Stays c n _ (awaitHealthy c hostPort) w.started
    unfold awaitHealthy
    split
    · refine stays_act (guard_of_not_stop hstarted fun _ _ e => by cases e) fun healthy w' hs => ?_
      obtain rfl := hs
      exact stays_ret rfl
    · exact stays_pure rfl

theorem stays_abort (hcount : WithinSurge c n w.count) (hmore : WithinSurge c n (w.count + 1)) (index : Int)
    (draining : List String) :
    Stays c n (fun _ w' => WithinSurge c n w'.count ∧ w'.aborted = true) (abortSurge c index draining) w.started.fail := by
  have hfailed : WithinSurge c n w.started.fail.count := by rwa [Tally.count_fail, Tally.count_started]
  have hstopped : WithinSurge c n w.started.fail.stoppedNew.count := by
    rwa [Tally.count_stoppedNew, Tally.count_fail, Tally.count_started, Int.add_sub_cancel]
  unfold abortSurge
  refine Stays.bind (R := fun _ w' => WithinSurge c n w'.count) ?_ fun _ w₁ h₁ => ?_
  · refine stays_act ⟨hfailed, fun _ _ e => by cases e⟩ fun r w' hs => ?_
    cases r with
    | error e =>
      refine stays_ret ?_
      rcases hs with rfl | rfl
      · exact hfailed
      · exact hstopped
    | ok u =>
      obtain rfl : w' = w.started.fail.stoppedNew := hs
      exact stays_ret hstopped
  · refine Stays.bind (R := fun _ w' => WithinSurge c n w'.count) (stays_releasePort h₁ h₁) fun _ w₂ h₂ => ?_
    refine Stays.bind (R := fun _ w' => WithinSurge c n w'.count ∧ w'.aborted = true) ?_ fun _ w₃ h₃ => ?_
    · refine stays_act (guard_of_not_stop h₂ fun _ _ e => by cases e) fun r w' hs => ?_
      obtain rfl : w' = w₂.abort := hs
      exact stays_ret ⟨h₂, rfl⟩
    · exact stays_forWeb h₃ (stays_refresh h₃.1 h₃)

theorem stays_surgeOne (h : Level c n s w) (hroom : s.canSurge c = true) :
    Stays c n (fun healthy w' => if healthy = true then Level c n s.surged w' else WithinSurge c n w'.count ∧ w'.aborted = true)
      (surgeOne c s) w := by
  have hcount : WithinSurge c n w.count := h.count ▸ h.within
  have hmore : WithinSurge c n (w.count + 1) := h.count ▸ h.surge hroom
  have htotal : s.surged.total = s.total + 1 := by
    show (s.oldQueue.length : Int) + (s.newCount + 1) = s.oldQueue.length + s.newCount + 1
    omega
  unfold surgeOne
  refine Stays.bind (stays_hostPortFor hcount) fun hostPort w₁ hw₁ => ?_
  subst hw₁
  rw [← bind_assoc]
  refine Stays.bind (stays_start hcount hmore s.nextIndex hostPort) fun healthy w₂ hw₂ => ?_
  subst hw₂
  cases healthy with
  | false =>
    refine Stays.bind (stays_abort hcount hmore _ _) fun _ w₃ h₃ => ?_
    exact stays_pure h₃
  | true =>
    have hlevel : Level c n s.surged w₁.started := by
      refine ⟨h.old, congrArg (· + 1) h.fresh, h.failed, h.aborted, htotal ▸ h.surge hroom, h.fewOld, ?_⟩
      refine h.room.imp id fun hnone => ?_
      show c.replicas ≤ s.newCount + 1
      omega
    have hwithin : WithinSurge c n w₁.started.count := hlevel.count ▸ hlevel.within
    refine Stays.bind (R := fun _ w' => Level c n s.surged w') ?_ fun _ w₃ h₃ => stays_pure h₃
    refine stays_forWeb hlevel (Stays.bind (R := fun _ w' => Level c n s.surged w') (stays_refresh hwithin hlevel) ?_)
    exact fun _ w₃ h₃ => stays_heartbeat (h₃.count ▸ h₃.within) h₃

theorem stays_drainOne (h : Level c n s w) (hfull : s.canSurge c = false) (hsurge : 1 ≤ c.rollout.maxSurge)
    {old : ManagedReplica} {rest : List ManagedReplica} (hq : s.oldQueue = old :: rest) :
    Stays c n (fun _ w' => Level c n (s.drained old rest) w') (drainOne c s old) w := by
  have hcount : WithinSurge c n w.count := h.count ▸ h.within
  have hdrained := h.drain hfull hsurge hq
  have hless : WithinSurge c n (w.stoppedOld old.id).count := hdrained.count ▸ hdrained.within
  unfold drainOne
  refine Stays.bind (R := fun _ w' => w' = w) (stays_forWeb rfl ?_) fun _ w₁ hw₁ => ?_
  · unfold divert
    refine Stays.bind (R := fun _ w' => w' = w) (stays_refresh hcount rfl) fun _ w₁ hw₁ => ?_
    subst hw₁
    refine Stays.bind (R := fun _ w' => w' = w₁) (stays_heartbeat hcount rfl) fun _ w₂ hw₂ => ?_
    subst hw₂
    split
    · refine stays_act (guard_of_not_stop hcount fun _ _ e => by cases e) fun r w' hs => ?_
      obtain rfl : w' = w₂ := hs
      exact stays_ret rfl
    · exact stays_pure rfl
  · subst hw₁
    refine Stays.bind (R := fun _ w' => w' = w₁.stoppedOld old.id) ?_ fun _ w₂ hw₂ => ?_
    · refine stays_act ⟨hcount, fun _ _ _ => h.failed⟩ fun r w' hs => ?_
      cases r with
      | error e =>
        refine stays_ret ?_
        rcases hs with rfl | rfl
        · exact hcount
        · exact hless
      | ok u =>
        obtain rfl : w' = w₁.stoppedOld old.id := hs
        exact stays_ret rfl
    · subst hw₂
      refine Stays.bind (R := fun _ w' => Level c n (s.drained old rest) w') (stays_releasePort hless hdrained) ?_
      exact fun _ w₃ h₃ => stays_heartbeat (h₃.count ▸ h₃.within) h₃

/-- How a rollout ends. -/
def Ended (c : ServiceConfig) (n : Int) (w : Tally) : Prop :=
  WithinSurge c n w.count ∧ (w.aborted = false → w.old = [] ∧ c.replicas ≤ w.fresh)

theorem Level.done (h : Level c n s w) (hfull : s.canSurge c = false) (hsurge : 1 ≤ c.rollout.maxSurge) (hq : s.oldQueue = []) :
    Ended c n w := by
  refine ⟨h.count ▸ h.within, fun _ => ⟨by rw [h.old, hq, List.map_nil], ?_⟩⟩
  rw [h.fresh]
  by_contra hnew
  rcases h.room with hsum | hnone
  · have hroom : s.canSurge c = true := by
      refine RolloutState.canSurge_iff.mpr ⟨by omega, ?_⟩
      rw [hq, List.length_nil, hsum]
      omega
    exact absurd hroom (by simp [hfull])
  · exact hnew hnone

theorem stays_rolloutLoop (h : Level c n s w) (hsurge : 1 ≤ c.rollout.maxSurge) :
    Stays c n (fun _ w' => Ended c n w') (rolloutLoop c s) w := by
  refine sat_rolloutLoop (I := Level c n) (Q := fun _ => Ended c n) (fun _ => tallies_stable _) (fun _ => tallies_stable _)
    (fun s w hfull hq hlevel => hlevel.done hfull hsurge hq) ?_
    (fun s old rest w hfull hq hlevel => stays_drainOne hlevel hfull hsurge hq) (fun _ => tallies_stable _) s h
  intro s w hroom hlevel
  refine (stays_surgeOne hlevel hroom).mono (fun _ _ h => h) fun r w' hr => ?_
  cases r with
  | error e => exact hr
  | ok healthy =>
    cases healthy with
    | true => exact hr
    | false =>
      obtain ⟨hwithin, haborted⟩ := hr
      exact ⟨hwithin, fun hno => absurd haborted (by simp [hno])⟩

/-- The sum does not wrap, or enough containers match from the start. -/
def SurgeFits (c : ServiceConfig) (current : List ManagedReplica) : Prop :=
  c.replicas + c.rollout.maxSurge ≤ i64Max ∨ c.replicas ≤ (current.filter (!replicaNeedsReplace · c)).length

theorem init_total (c : ServiceConfig) (current : List ManagedReplica) : (RolloutState.init c current).total = current.length := by
  have hsplit := List.length_eq_length_filter_add (l := current) (replicaNeedsReplace · c)
  show ((current.filter (replicaNeedsReplace · c)).length : Int) + (current.filter (!replicaNeedsReplace · c)).length = current.length
  omega

theorem level_init {current : List ManagedReplica} (hwant : 1 ≤ c.replicas) (hsurge : 1 ≤ c.rollout.maxSurge)
    (hfits : SurgeFits c current) : Level c current.length (.init c current) (.init c current) := by
  have htotal := init_total c current
  have hfew : (current.filter (replicaNeedsReplace · c)).length ≤ current.length := List.length_filter_le ..
  refine ⟨rfl, rfl, rfl, rfl, htotal ▸ ⟨by omega, by omega, fun hn => by omega⟩, Int.ofNat_le.mpr hfew, ?_⟩
  exact hfits.imp (fun hsum => i64_of_le (by omega) hsum) id

theorem stays_rolloutService {current : List ManagedReplica} (hwant : 1 ≤ c.replicas) (hsurge : 1 ≤ c.rollout.maxSurge)
    (hfits : SurgeFits c current) :
    Stays c current.length (fun _ w' => Ended c current.length w') (rolloutService c current) (.init c current) := by
  have hlevel := level_init hwant hsurge hfits
  have hcount : WithinSurge c current.length (Tally.init c current).count := hlevel.count ▸ hlevel.within
  unfold rolloutService
  refine Stays.bind (R := fun _ w' => w' = .init c current) ?_ fun _ w₁ hw₁ => ?_
  · refine stays_act (guard_of_not_stop hcount fun _ _ e => by cases e) fun r w' hs => ?_
    obtain rfl : w' = .init c current := hs
    cases r with
    | error e => exact stays_ret hcount
    | ok u => exact stays_ret rfl
  · subst hw₁
    refine Stays.bind (stays_rolloutLoop hlevel hsurge) fun converged w₂ h₂ => ?_
    split
    · exact stays_forWeb h₂ (stays_refresh h₂.1 h₂)
    · exact stays_pure h₂

theorem keeps_of_fits {current : List ManagedReplica} (hwant : 1 ≤ c.replicas) (hsurge : 1 ≤ c.rollout.maxSurge)
    (hfits : SurgeFits c current) : KeepsSurge c current := by
  have hstays := stays_rolloutService hwant hsurge hfits
  refine ⟨⟨_, fun t ht => (rollout_bounded c current).length ht⟩, fun q w hr => ?_, fun w hr => ?_, fun id grace k w hr => ?_⟩
  · have hq := hstays.runs hr
    cases q with
    | act o k => exact hq.atAct.1
    | ret r =>
      cases r with
      | error e => exact hq.atRet
      | ok u => exact hq.atRet.1
  · exact (hstays.runs hr).atRet.2
  · exact (hstays.runs hr).atAct.2 id grace rfl

end Within

/-! ## A limit that wraps -/

section Wraps

variable {c : ServiceConfig}

/-- What a successful command does. -/
def Tally.next (w : Tally) : (o : Op) → Resp o → Tally
  | .runContainer .., _ => w.started
  | .stopContainer (.id id) _, _ => w.stoppedOld id
  | .stopContainer (.name _) _, _ => w.stoppedNew
  | .setError .., _ => w.abort
  | _, _ => w

theorem next_sem (o : Op) (w : Tally) : tallies.sem o w (allOk o) (w.next o (allOk o)) := by
  cases o with
  | stopContainer container grace =>
    cases container with
    | name name => rfl
    | id id => rfl
  | _ => rfl

theorem divert_next (draining : List String) (w : Tally) :
    (forWeb c (divert c draining)).run.value allOk = .ok () ∧
      (forWeb c (divert c draining)).run.after Tally.next allOk w = w := by
  unfold forWeb
  split
  · unfold divert
    split <;> exact ⟨rfl, rfl⟩
  · exact ⟨rfl, rfl⟩

theorem drainOne_next (s : RolloutState) (old : ManagedReplica) (w : Tally) :
    (drainOne c s old).run.value allOk = .ok () ∧
      (drainOne c s old).run.after Tally.next allOk w = w.stoppedOld old.id := by
  obtain ⟨hv, ha⟩ := divert_next (c := c) (s.draining.insert old.id) w
  unfold drainOne
  simp only [ExceptT.run_bind, Prog.value_bind, Prog.after_bind, hv, ha]
  exact ⟨rfl, rfl⟩

/-- Without room for any surge the loop only drains. -/
theorem loop_drains (hlimit : surgeLimit c ≤ 0) (queue : List ManagedReplica) (s : RolloutState) (hq : s.oldQueue = queue)
    (hnew : 0 ≤ s.newCount) (w : Tally) :
    (rolloutLoop c s).run.value allOk = .ok true ∧
      ((rolloutLoop c s).run.after Tally.next allOk w).fresh = w.fresh ∧
      ((rolloutLoop c s).run.after Tally.next allOk w).aborted = w.aborted := by
  have hfull : ∀ s : RolloutState, 0 ≤ s.newCount → s.canSurge c ≠ true := by
    intro s hnew hroom
    have hless := (RolloutState.canSurge_iff.mp hroom).2
    omega
  induction queue generalizing s w with
  | nil =>
    rw [rolloutLoop, dif_neg (hfull s hnew)]
    split
    · exact ⟨rfl, rfl, rfl⟩
    · rename_i hq'
      rw [hq] at hq'
      cases hq'
  | cons old rest ih =>
    rw [rolloutLoop, dif_neg (hfull s hnew)]
    split
    · rename_i hq'
      rw [hq] at hq'
      cases hq'
    · rename_i old' rest' hq'
      rw [hq] at hq'
      cases hq'
      obtain ⟨hv, ha⟩ := drainOne_next (c := c) s old w
      rw [ExceptT.run_bind, Prog.value_bind, Prog.after_bind, hv, ha]
      exact ih (s.drained old rest) rfl hnew (w.stoppedOld old.id)

/-- Then a rollout ends with the containers that matched before. -/
theorem service_drains (hlimit : surgeLimit c ≤ 0) (current : List ManagedReplica) :
    ∃ w, Runs tallies (rolloutService c current).run (.init c current) (.ret (.ok ())) w ∧
      w.fresh = (Tally.init c current).fresh ∧ w.aborted = false := by
  obtain ⟨hv, hfresh, haborted⟩ := loop_drains hlimit _ (.init c current) rfl (Int.natCast_nonneg _) (.init c current)
  have hrun := Runs.oracle next_sem (rolloutService c current).run (.init c current)
  have hend : ∀ w, (forWeb c (refreshRouting [])).run.value allOk = .ok () ∧
      (forWeb c (refreshRouting [])).run.after Tally.next allOk w = w := by
    intro w
    unfold forWeb
    split <;> exact ⟨rfl, rfl⟩
  have hpull : (pull c.image).run.value allOk = .ok () ∧
      ∀ w, (pull c.image).run.after Tally.next allOk w = w := ⟨rfl, fun _ => rfl⟩
  have hvalue : (rolloutService c current).run.value allOk = .ok () := by
    unfold rolloutService
    rw [ExceptT.run_bind, Prog.value_bind, hpull.1, ExceptT.run_bind, Prog.value_bind, hv]
    exact (hend (.init c current)).1
  have hafter : (rolloutService c current).run.after Tally.next allOk (.init c current) =
      (rolloutLoop c (.init c current)).run.after Tally.next allOk (.init c current) := by
    unfold rolloutService
    rw [ExceptT.run_bind, Prog.after_bind, hpull.1, hpull.2, ExceptT.run_bind, Prog.after_bind, hv]
    exact (hend _).2
  rw [hvalue, hafter] at hrun
  exact ⟨_, hrun, hfresh, haborted⟩

theorem surgeLimit_nonpos (hwant : c.replicas ≤ i64Max) (hsurge : c.rollout.maxSurge ≤ i64Max)
    (hwraps : i64Max < c.replicas + c.rollout.maxSurge) : surgeLimit c ≤ 0 := by
  unfold surgeLimit
  rw [i64_wraps hwraps (by omega)]
  unfold i64Max at hwant hsurge
  omega

end Wraps

end LaunchPad.Agent
