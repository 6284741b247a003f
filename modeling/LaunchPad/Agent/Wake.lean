/-
  LaunchPad.Agent.Wake — how a deploy's notification reaches the poll loop
  (packages/agent-rust/src: `run_sqs_listener`, `resolve_queue_url` of sqs.rs; `run_poll_loop`,
  `wait_or_wake` of runtime.rs).

  A task receives the notifications of the node's queue, deletes each, and then notifies the
  loop once for all of them. The loop ticks, then waits in chunks of `step` until the interval
  is over, the flag of a signal is set, or it is notified. A notification that comes during
  a tick is kept: `Notify` stores one permit.

  Between the deletion of a message and the tick there is nothing but the permit, and before
  it the task's own batch: an agent that goes down with either loses it, and ticks when it
  comes up again.

  The rule: no message is lost on the way to a tick that begins after it was sent.

  Proved, over every interleaving of the queue, the task, the loop, signals and restarts:
  - `prompt`: each message is in the queue, in the hands of the task, announced to the loop, or
    older than the latest tick's begin; so with nothing on the way the latest tick began
    after the last message. No wait sleeps longer than the interval, and after a signal no
    more than one chunk is slept.

  As built, a permit says nothing of which messages it stands for, and needs not: the tick
  reads the whole desired state.
-/

namespace LaunchPad.Agent.Wake

/-- `LONG_POLL_SECONDS` and the two backoffs only say how long the task may stay where it is. -/
inductive Listener
  /-- The queue's URL is not known yet. -/
  | lookup
  | polling
  /-- What is left to delete of a batch. -/
  | deleting (todo batch : List Nat)
  | backoff
  | done
  deriving DecidableEq, Repr

inductive Loop
  | ticking
  /-- At the head of the loop of `wait_or_wake`. -/
  | waiting (remaining : Nat)
  /-- In its `select!`, for `this`. -/
  | asleep (remaining this : Nat)
  /-- The wait is over. -/
  | checking
  | stopped
  deriving DecidableEq, Repr

/-- Messages are numbered as they are sent. `hidden` are those received and not deleted yet.
    No function reads the last three: how many were sent when the latest tick began, and the
    time slept since it ended and since the signal. -/
structure World where
  sent : Nat
  queue : List Nat
  hidden : List Nat
  listener : Listener
  permit : Bool
  term : Bool
  loop : Loop
  started : Nat
  slept : Nat
  late : Nat
  deriving DecidableEq, Repr

def step : Nat := 500

def maxMessages : Nat := 10

/-- The head of the listener's loop. -/
def World.poll (w : World) : Listener := if w.term then .done else .polling

/-- The head of the loop of `wait_or_wake`. -/
def World.wait (w : World) (remaining : Nat) : Loop :=
  if remaining = 0 then .checking
  else if w.term then .checking
  else .asleep remaining (min remaining step)

/-- The agent as it comes up: its first tick. -/
def World.up (w : World) : World :=
  { w with listener := .lookup, permit := false, term := false, loop := .ticking, started := w.sent, slept := 0, late := 0 }

def World.new : World := ⟨0, [], [], .lookup, false, false, .ticking, 0, 0, 0⟩

/-- `interval_ms.max(0)`. -/
def interval (ms : Int) : Nat := (max ms 0).toNat

inductive Step (ms : Int) (once : Bool) : World → World → Prop
  | publish (w : World) : Step ms once w { w with sent := w.sent + 1, queue := w.sent :: w.queue }
  /-- A message is delivered once more. -/
  | again (w : World) (m : Nat) : m < w.sent → Step ms once w { w with queue := m :: w.queue }
  /-- It was not deleted in time. -/
  | visible (w : World) (m : Nat) : m ∈ w.hidden →
      Step ms once w { w with queue := m :: w.queue, hidden := w.hidden.filter (· != m) }
  | found (w : World) : w.listener = .lookup → Step ms once w { w with listener := w.poll }
  /-- Shut down before the queue was there. -/
  | gaveUp (w : World) : w.listener = .lookup → w.term = true → Step ms once w { w with listener := .done }
  | received (w : World) (batch : List Nat) : w.listener = .polling → batch ≠ [] → batch.length ≤ maxMessages →
      (∀ m ∈ batch, m ∈ w.queue) →
      Step ms once w { w with
        queue := w.queue.filter (!batch.contains ·)
        hidden := batch ++ w.hidden
        listener := .deleting batch batch }
  | empty (w : World) : w.listener = .polling → Step ms once w { w with listener := w.poll }
  | receiveError (w : World) : w.listener = .polling → Step ms once w { w with listener := .backoff }
  | backedOff (w : World) : w.listener = .backoff → Step ms once w { w with listener := w.poll }
  | deleted (w : World) (m : Nat) (todo batch : List Nat) : w.listener = .deleting (m :: todo) batch →
      Step ms once w { w with hidden := w.hidden.filter (· != m), listener := .deleting todo batch }
  /-- It stays for later. -/
  | deleteError (w : World) (m : Nat) (todo batch : List Nat) : w.listener = .deleting (m :: todo) batch →
      Step ms once w { w with listener := .deleting todo batch }
  | notify (w : World) (batch : List Nat) : w.listener = .deleting [] batch →
      Step ms once w { w with permit := true, listener := w.poll }
  | ticked (w : World) : w.loop = .ticking →
      Step ms once w { w with loop := if once || w.term then .stopped else .waiting (interval ms), slept := 0 }
  | head (w : World) (remaining : Nat) : w.loop = .waiting remaining → Step ms once w { w with loop := w.wait remaining }
  | sleptOn (w : World) (remaining this : Nat) : w.loop = .asleep remaining this →
      Step ms once w { w with
        loop := .waiting (remaining - this)
        slept := w.slept + this
        late := if w.term then w.late + this else w.late }
  | notified (w : World) (remaining this : Nat) : w.loop = .asleep remaining this → w.permit = true →
      Step ms once w { w with loop := .checking, permit := false }
  | stop (w : World) : w.loop = .checking → w.term = true → Step ms once w { w with loop := .stopped }
  | tick (w : World) : w.loop = .checking → w.term = false → Step ms once w { w with loop := .ticking, started := w.sent }
  | signal (w : World) : Step ms once w { w with term := true }
  | restart (w : World) : Step ms once w w.up

inductive Reach (ms : Int) (once : Bool) : World → Prop
  | start : Reach ms once World.new
  | step {w w' : World} : Reach ms once w → Step ms once w w' → Reach ms once w'

/-- The loop is about to tick, or to end. -/
def Loop.over : Loop → Bool
  | .checking | .stopped => true
  | _ => false

/-- The message is on its way to a tick. -/
def Coming (w : World) (m : Nat) : Prop :=
  w.permit = true ∨ (∃ todo batch, w.listener = .deleting todo batch ∧ m ∈ batch) ∨ w.loop.over = true

def Heard (w : World) (m : Nat) : Prop := m ∈ w.queue ∨ m ∈ w.hidden ∨ m < w.started ∨ Coming w m

/-- The time slept, and what is left of it. -/
def Loop.timed (interval : Nat) (slept : Nat) : Loop → Prop
  | .waiting remaining => slept + remaining = interval
  | .asleep remaining this => slept + remaining = interval ∧ this ≤ remaining ∧ this ≤ step
  | _ => slept ≤ interval

structure Inv (ms : Int) (w : World) : Prop where
  heard : ∀ m < w.sent, Heard w m
  todo : ∀ todo batch, w.listener = .deleting todo batch → todo ⊆ batch
  timed : w.loop.timed (interval ms) w.slept
  quiet : w.term = false → w.late = 0
  asleep : ∀ remaining this, w.loop = .asleep remaining this → w.late = 0
  late : w.late ≤ step

theorem inv_new (ms : Int) : Inv ms World.new where
  heard m hm := absurd hm (Nat.not_lt_zero m)
  todo todo batch hl := by cases hl
  timed := Nat.zero_le _
  quiet _ := rfl
  asleep _ _ _ := rfl
  late := Nat.zero_le _

variable {ms : Int} {once : Bool} {w w' : World}

/-- A step that leaves what is on its way to the loop. -/
theorem Heard.mono {m : Nat} (h : Heard w m) (hin : m ∈ w.queue ∨ m ∈ w.hidden → m ∈ w'.queue ∨ m ∈ w'.hidden)
    (hstarted : w.started ≤ w'.started) (hcoming : Coming w m → Heard w' m) : Heard w' m := by
  rcases h with hq | hh | hs | hc
  · exact (hin (.inl hq)).imp_right .inl
  · exact (hin (.inr hh)).imp_right .inl
  · exact .inr (.inr (.inl (Nat.lt_of_lt_of_le hs hstarted)))
  · exact hcoming hc

/-- The task holds no batch. -/
def Listener.idle : Listener → Bool
  | .deleting _ _ => false
  | _ => true

/-- What is coming without the task. -/
theorem Coming.idle {m : Nat} (h : Coming w m) (hidle : w.listener.idle = true) (hpermit : w'.permit = w.permit)
    (hloop : w'.loop = w.loop) : Coming w' m := by
  rcases h with hp | ⟨todo, batch, hl, -⟩ | ho
  · exact .inl (hpermit.trans hp)
  · rw [hl] at hidle
    cases hidle
  · exact .inr (.inr (hloop ▸ ho))

theorem Coming.same {m : Nat} (h : Coming w m) (hl : w'.listener = w.listener) (hpermit : w'.permit = w.permit)
    (hloop : w.loop.over = true → w'.loop.over = true) : Coming w' m := by
  rcases h with hp | hb | ho
  · exact .inl (hpermit.trans hp)
  · exact .inr (.inl (hl ▸ hb))
  · exact .inr (.inr (hloop ho))

theorem step_heard (hi : ∀ m < w.sent, Heard w m) (htodo : ∀ todo batch, w.listener = .deleting todo batch → todo ⊆ batch)
    (h : Step ms once w w') : ∀ m < w'.sent, Heard w' m := by
  intro m hm
  have hcoming : ∀ {u : World}, Coming u m → Heard u m := fun h => .inr (.inr (.inr h))
  cases h with
  | publish =>
    rcases Nat.lt_succ_iff_lt_or_eq.mp hm with hm | rfl
    · exact (hi m hm).mono (.imp_left (List.mem_cons_of_mem _)) (Nat.le_refl _) fun hc => hcoming (hc.same rfl rfl id)
    · exact .inl (List.mem_cons_self ..)
  | again m' _ =>
    exact (hi m hm).mono (.imp_left (List.mem_cons_of_mem _)) (Nat.le_refl _) fun hc => hcoming (hc.same rfl rfl id)
  | visible m' _ =>
    refine (hi m hm).mono (fun hin => ?_) (Nat.le_refl _) fun hc => hcoming (hc.same rfl rfl id)
    by_cases hmm : m = m'
    · exact .inl (hmm ▸ List.mem_cons_self ..)
    · refine hin.imp (List.mem_cons_of_mem _) fun hh => List.mem_filter.mpr ⟨hh, by simpa using hmm⟩
  | found hl | gaveUp hl _ | empty hl | receiveError hl | backedOff hl =>
    exact (hi m hm).mono id (Nat.le_refl _) fun hc => hcoming (hc.idle (by rw [hl]; rfl) rfl rfl)
  | received batch hl _ _ _ =>
    refine (hi m hm).mono (fun hin => ?_) (Nat.le_refl _) fun hc => hcoming (hc.idle (by rw [hl]; rfl) rfl rfl)
    by_cases hb : m ∈ batch
    · exact .inr (List.mem_append_left _ hb)
    · exact hin.imp (fun hq => List.mem_filter.mpr ⟨hq, by simpa using hb⟩) (List.mem_append_right _)
  | deleted m' todo batch hl =>
    by_cases hmm : m = m'
    · -- what is deleted is of the batch that will be announced
      exact hcoming (.inr (.inl ⟨todo, batch, rfl, hmm ▸ htodo _ _ hl (List.mem_cons_self ..)⟩))
    · refine (hi m hm).mono (fun hin => ?_) (Nat.le_refl _) fun hc => hcoming ?_
      · exact hin.imp_right fun hh => List.mem_filter.mpr ⟨hh, by simpa using hmm⟩
      · rcases hc with hp | ⟨todo', batch', hl', hb⟩ | ho
        · exact .inl hp
        · rw [hl] at hl'
          cases hl'
          exact .inr (.inl ⟨todo, batch, rfl, hb⟩)
        · exact .inr (.inr ho)
  | deleteError m' todo batch hl =>
    refine (hi m hm).mono id (Nat.le_refl _) fun hc => hcoming ?_
    rcases hc with hp | ⟨todo', batch', hl', hb⟩ | ho
    · exact .inl hp
    · rw [hl] at hl'
      cases hl'
      exact .inr (.inl ⟨todo, batch, rfl, hb⟩)
    · exact .inr (.inr ho)
  | notify batch hl =>
    exact (hi m hm).mono id (Nat.le_refl _) fun _ => hcoming (.inl rfl)
  | ticked hl =>
    refine (hi m hm).mono id (Nat.le_refl _) fun hc => hcoming (hc.same rfl rfl fun ho => ?_)
    rw [hl] at ho
    cases ho
  | head remaining hl =>
    refine (hi m hm).mono id (Nat.le_refl _) fun hc => hcoming (hc.same rfl rfl fun ho => ?_)
    rw [hl] at ho
    cases ho
  | sleptOn remaining this hl =>
    refine (hi m hm).mono id (Nat.le_refl _) fun hc => hcoming (hc.same rfl rfl fun ho => ?_)
    rw [hl] at ho
    cases ho
  | notified remaining this _ _ =>
    exact (hi m hm).mono id (Nat.le_refl _) fun _ => hcoming (.inr (.inr rfl))
  | stop _ _ =>
    exact (hi m hm).mono id (Nat.le_refl _) fun _ => hcoming (.inr (.inr rfl))
  | tick _ _ => exact .inr (.inr (.inl hm))
  | signal =>
    exact (hi m hm).mono id (Nat.le_refl _) fun hc => hcoming (hc.same rfl rfl id)
  | restart => exact .inr (.inr (.inl hm))

theorem poll_idle (w : World) : w.poll.idle = true := by
  unfold World.poll
  split <;> rfl

theorem step_todo (hi : ∀ todo batch, w.listener = .deleting todo batch → todo ⊆ batch) (h : Step ms once w w') :
    ∀ todo batch, w'.listener = .deleting todo batch → todo ⊆ batch := by
  have hpoll : ∀ todo batch, w.poll ≠ .deleting todo batch := by
    intro todo batch hl
    have hidle := poll_idle w
    rw [hl] at hidle
    cases hidle
  intro todo batch hl
  cases h with
  | publish | again | visible | ticked | head | sleptOn | notified | stop | tick | signal => exact hi todo batch hl
  | found | empty | backedOff | notify => exact absurd hl (hpoll todo batch)
  | gaveUp | receiveError | restart => cases hl
  | received batch' =>
    cases hl
    exact List.Subset.refl _
  | deleted m todo' batch' hl' =>
    cases hl
    exact fun x hx => hi _ _ hl' (List.mem_cons_of_mem _ hx)
  | deleteError m todo' batch' hl' =>
    cases hl
    exact fun x hx => hi _ _ hl' (List.mem_cons_of_mem _ hx)

/-- The times, of a loop that stays where it is. -/
theorem step_inv (hi : Inv ms w) (h : Step ms once w w') : Inv ms w' := by
  refine ⟨step_heard hi.heard hi.todo h, step_todo hi.todo h, ?_, ?_, ?_, ?_⟩
  · have ht := hi.timed
    cases h with
    | publish | again | visible | found | gaveUp | received | empty | receiveError | backedOff | deleted | deleteError | notify
    | signal => exact ht
    | ticked hl =>
      show Loop.timed _ 0 (if _ then _ else _)
      split
      · exact Nat.zero_le _
      · exact Nat.zero_add _
    | head remaining hl =>
      rw [hl] at ht
      replace ht : w.slept + remaining = interval ms := ht
      show Loop.timed _ w.slept (w.wait remaining)
      unfold World.wait
      split
      · show w.slept ≤ interval ms
        omega
      · split
        · show w.slept ≤ interval ms
          omega
        · exact ⟨ht, Nat.min_le_left .., Nat.min_le_right ..⟩
    | sleptOn remaining this hl =>
      rw [hl] at ht
      obtain ⟨ht, hle, -⟩ := ht
      show w.slept + this + (remaining - this) = interval ms
      omega
    | notified remaining this hl =>
      rw [hl] at ht
      show w.slept ≤ interval ms
      have := ht.1
      omega
    | stop hl =>
      rw [hl] at ht
      exact ht
    | tick hl =>
      rw [hl] at ht
      exact ht
    | restart => exact Nat.zero_le _
  · have hq := hi.quiet
    intro hterm
    cases h with
    | publish | again | visible | found | gaveUp | received | empty | receiveError | backedOff | deleted | deleteError | notify
    | ticked | head | notified | stop | tick => exact hq hterm
    | sleptOn remaining this hl =>
      replace hterm : w.term = false := hterm
      show (if w.term then w.late + this else w.late) = 0
      rw [hterm]
      exact hq hterm
    | signal => cases hterm
    | restart => rfl
  · have ha := hi.asleep
    intro remaining' this' hl'
    cases h with
    | publish | again | visible | found | gaveUp | received | empty | receiveError | backedOff | deleted | deleteError | notify
    | signal => exact ha _ _ hl'
    | ticked hl =>
      replace hl' : (if once || w.term then Loop.stopped else .waiting (interval ms)) = .asleep remaining' this' := hl'
      split at hl' <;> cases hl'
    | head remaining hl =>
      -- a chunk is only begun without a signal
      replace hl' : w.wait remaining = .asleep remaining' this' := hl'
      unfold World.wait at hl'
      split at hl'
      · cases hl'
      · split at hl'
        · cases hl'
        · rename_i hterm
          exact hi.quiet (by simpa using hterm)
    | sleptOn | notified | stop | tick => cases hl'
    | restart => rfl
  · have hl := hi.late
    cases h with
    | publish | again | visible | found | gaveUp | received | empty | receiveError | backedOff | deleted | deleteError | notify
    | ticked | head | notified | stop | tick | signal => exact hl
    | sleptOn remaining this hs =>
      show (if w.term then w.late + this else w.late) ≤ step
      split
      · have ht := hi.timed
        rw [hs] at ht
        obtain ⟨-, -, hchunk⟩ := ht
        rw [hi.asleep _ _ hs]
        omega
      · exact hl
    | restart => exact Nat.zero_le _

theorem reach_inv (h : Reach ms once w) : Inv ms w := by
  induction h with
  | start => exact inv_new ms
  | step _ hs ih => exact step_inv ih hs

/-- Nothing is on its way to the loop. -/
structure Calm (w : World) : Prop where
  queue : w.queue = []
  hidden : w.hidden = []
  idle : w.listener.idle = true
  permit : w.permit = false
  loop : w.loop.over = false

structure Prompt (ms : Int) (w : World) : Prop where
  /-- No message is lost. -/
  heard : ∀ m < w.sent, Heard w m
  calm : Calm w → w.sent ≤ w.started
  slept : w.slept ≤ interval ms
  late : w.late ≤ step

/-- The rule. -/
theorem prompt (h : Reach ms once w) : Prompt ms w := by
  have hi := reach_inv h
  refine ⟨hi.heard, fun hc => ?_, ?_, hi.late⟩
  · refine Nat.le_of_not_lt fun hlt => ?_
    rcases hi.heard w.started hlt with hq | hh | hs | hp | ⟨todo, batch, hl, -⟩ | ho
    · rw [hc.queue] at hq
      cases hq
    · rw [hc.hidden] at hh
      cases hh
    · exact absurd hs (Nat.lt_irrefl _)
    · rw [hc.permit] at hp
      cases hp
    · have hidle := hc.idle
      rw [hl] at hidle
      cases hidle
    · rw [hc.loop] at ho
      cases ho
  · have ht := hi.timed
    cases hl : w.loop with
    | waiting remaining =>
      rw [hl] at ht
      replace ht : w.slept + remaining = interval ms := ht
      omega
    | asleep remaining this =>
      rw [hl] at ht
      have := ht.1
      omega
    | ticking | checking | stopped =>
      rw [hl] at ht
      exact ht

/-- A notification that comes during the first tick. -/
theorem prompt_deploy : Prompt 60000 ⟨1, [], [], .polling, false, false, .ticking, 1, 0, 0⟩ := by
  have hsent : Reach 60000 false ⟨1, [0], [], .polling, false, false, .ticking, 0, 0, 0⟩ :=
    .step (.step .start (.publish _)) (.found _ rfl)
  have hreceived : Reach 60000 false ⟨1, [], [0], .deleting [0] [0], false, false, .ticking, 0, 0, 0⟩ :=
    .step hsent (.received _ [0] rfl (by decide) (by decide) (by decide))
  have hpermit : Reach 60000 false ⟨1, [], [], .polling, true, false, .ticking, 0, 0, 0⟩ :=
    .step (.step hreceived (.deleted _ 0 [] [0] rfl)) (.notify _ [0] rfl)
  have hasleep : Reach 60000 false ⟨1, [], [], .polling, true, false, .asleep 60000 500, 0, 0, 0⟩ :=
    .step (.step hpermit (.ticked _ rfl)) (.head _ 60000 rfl)
  have hwoken : Reach 60000 false ⟨1, [], [], .polling, false, false, .checking, 0, 0, 0⟩ :=
    .step hasleep (.notified _ 60000 500 rfl rfl)
  exact prompt (.step hwoken (.tick _ rfl rfl))

end LaunchPad.Agent.Wake
