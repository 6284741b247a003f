/-
  LaunchPad.Agent.Liveness — the age of the status an app node last wrote, over the life of
  one agent process (`agent-rust/src/status_write.rs` `decide_status_write`,
  `resolve_liveness`; `runtime.rs` `load_agent_env`, `run_poll_loop`; the windows of
  `types.rs` and `shared/src/constants.ts`).

  The rule of `constants.ts`: poll interval ≤ liveness heartbeat ≤ half the stale window, "or
  a healthy node can flicker stale". The runs are those of `Agent.Observed` from a start of
  the agent on, in which no side effect fails, with a `Pulse` beside the node. Time passes
  between any two commands, and while a status is on its way to the bucket. The two readings
  of the clock for one status (`lastSeen` and the tracker's) are one instant: the agent only
  computes between them.

  As built: the default poll interval is the whole stale window, twice the liveness heartbeat,
  and a status is built at the end of a tick only, or by a heartbeat of a rollout or a backup.
  So the wait between two ticks leaves the status stale (`patient_poll_goes_stale`), and so
  does the drain of a web replica (`web_drain_goes_stale`).

  Proved:
  - `beating_step`, `alive_beating`: what a step, and so a run, keeps of the pulse.
  - `fresh_iff_paced`: for which pace every run keeps its status fresh. The next status must
    land within the stale window after one that was written; after one that was suppressed,
    within what the liveness heartbeat leaves of the window.
-/
import LaunchPad.Agent.Draining
import LaunchPad.Agent.Observed
import LaunchPad.Agent.StatusWrite
import LaunchPad.Cli.Cluster
import LaunchPad.Lib.Double

namespace LaunchPad.Agent.Liveness

open Lib
open Cli (heartbeatStaleMs isHeartbeatStale)

/-! ## The windows -/

/-- `LIVENESS_HEARTBEAT_MS`. -/
def livenessHeartbeatMs : Int := 30000

/-- An `i64` as an `f64`. -/
def f64 (x : Int) : Int := x.sign * Double.round x.natAbs

/-- A whole `f64` as it is printed. -/
def f64Text (x : Int) : String := (if x < 0 then "-" else "") ++ toString (Double.shortest x.natAbs)

structure ResolvedLiveness where
  livenessMs : Int
  warnings : List String
  deriving DecidableEq, Repr

/-- `resolve_liveness`, for the whole numbers that `load_agent_env` passes. -/
def resolveLiveness (livenessMs pollMs staleMs : Int) : ResolvedLiveness :=
  let maxSafe := staleMs.tdiv 2
  let (resolved, warnings) : Int × List String :=
    if livenessMs ≤ 0 then
      (maxSafe, ["invalid liveness " ++ f64Text livenessMs ++ "; using " ++ toString maxSafe ++ "ms"])
    else if livenessMs > f64 maxSafe then
      (maxSafe, ["liveness " ++ f64Text livenessMs ++ "ms exceeds half the " ++ toString staleMs ++
        "ms stale window; clamping to " ++ toString maxSafe ++ "ms"])
    else (min livenessMs i64Max, [])
  { livenessMs := resolved
    warnings := warnings ++
      if pollMs ≥ staleMs then
        ["poll " ++ toString pollMs ++ "ms >= " ++ toString staleMs ++ "ms stale window — liveness only fires per tick, " ++
          "so the node may read stale between ticks; lower LAUNCHPAD_POLL_MS"]
      else [] }

/-- What `load_agent_env` resolves when the environment sets neither interval. -/
def defaultLiveness : ResolvedLiveness := resolveLiveness (f64 livenessHeartbeatMs) defaultPollIntervalMs heartbeatStaleMs

theorem defaultLiveness_ms : defaultLiveness.livenessMs = livenessHeartbeatMs := by decide +kernel

/-- With the defaults the agent warns of itself. -/
example : defaultLiveness.warnings = ["poll 60000ms >= 60000ms stale window — liveness only fires per tick, " ++
    "so the node may read stale between ticks; lower LAUNCHPAD_POLL_MS"] := by decide +kernel

/-! ## The pulse of a run -/

/-- What one agent process has written. -/
structure Pulse (Host H : Type) where
  writer : StatusWriter Host H := {}
  /-- The instant that the stored status names as its `lastSeen`. -/
  seen : Option Int := none
  /-- The clock of the latest status built. -/
  built : Int
  /-- It was written, not suppressed. -/
  wrote : Bool := false
  /-- The end of the latest command; the next status is built later. -/
  since : Int

variable {Host H : Type}

/-- The agent comes up. -/
def Pulse.start (clock : Int) : Pulse Host H := { built := clock, since := clock }

/-- The CLI's filter lets the node pass, once it has written a status. -/
def Pulse.Fresh (g : Pulse Host H) (clock : Int) : Prop := ∀ t ∈ g.seen, isHeartbeatStale t clock heartbeatStaleMs = false

/-- A command ends. -/
def Pulse.passed (g : Pulse Host H) (clock : Int) : Pulse Host H := { g with since := clock }

/-- The pace of a run: how long, from when a status was built, the next may take until it has
    landed, when that one was suppressed and when it was written. -/
def Paced (suppressed written : Nat) (c : Node × Pulse Host H) : Prop :=
  c.2.seen.isSome = true → c.1.clock - c.2.built ≤ if c.2.wrote then written else suppressed

/-- What a run keeps of its pulse. -/
structure Beating (c : Node × Pulse Host H) : Prop where
  since : c.2.since ≤ c.1.clock
  named : c.2.writer.stored.map (·.lastSeen) = c.2.seen.bind isoFromMs
  past : ∀ t ∈ c.2.seen, t ≤ c.2.since
  tracked : ∀ t ∈ c.2.seen, c.2.writer.tracker.lastWriteMs = t
  wrote : ∀ t ∈ c.2.seen, c.2.wrote = true → c.2.built = t
  suppressed : ∀ t ∈ c.2.seen, c.2.wrote = false → c.2.built - t < livenessHeartbeatMs

section Frames

variable {w w' : Node} {g : Pulse Host H}

theorem beating_start (w : Node) : Beating (w.boot, (.start w.clock : Pulse Host H)) :=
  ⟨Int.le_refl _, rfl, fun _ h => (Option.not_mem_none _ h).elim, fun _ h => (Option.not_mem_none _ h).elim,
    fun _ h => (Option.not_mem_none _ h).elim, fun _ h => (Option.not_mem_none _ h).elim⟩

/-- A later node, which the writer has not heard of. -/
theorem Beating.later (h : Beating (w, g)) (hc : w.clock ≤ w'.clock) : Beating (w', g) :=
  ⟨Int.le_trans h.since hc, h.named, h.past, h.tracked, h.wrote, h.suppressed⟩

theorem Beating.passed (h : Beating (w, g)) (hc : w.clock ≤ w'.clock) : Beating (w', g.passed w'.clock) :=
  ⟨Int.le_refl _, h.named, fun t ht => Int.le_trans (h.past t ht) (Int.le_trans h.since hc), h.tracked, h.wrote, h.suppressed⟩

/-- The written status is at least as old as the node is late. -/
theorem Beating.stale (h : Beating (w, g)) {t clock : Int} (ht : g.seen = some t) (hlate : w.clock + heartbeatStaleMs < clock) :
    isHeartbeatStale t clock heartbeatStaleMs = true := by
  have hpast : t ≤ g.since := h.past t ht
  have hsince : g.since ≤ w.clock := h.since
  refine decide_eq_true ?_
  show clock - t > heartbeatStaleMs
  omega

end Frames

/-! ## The runs -/

variable [DecidableEq H] (hash : FpStatusPayload → H)

/-- The writer takes the status. -/
def takes (w : StatusWriter Host H) (o : Offer Host) : Bool :=
  o.forced || (decideStatusWrite w.tracker (fingerprintStatus hash o.status) o.nowMs defaultLiveness.livenessMs).write

/-- A status was offered to the writer and, if taken, has landed by now. -/
def Pulse.offered (g : Pulse Host H) (o : Offer Host) (clock : Int) : Pulse Host H where
  writer := g.writer.offer hash defaultLiveness.livenessMs o
  seen := if takes hash g.writer o then some o.nowMs else g.seen
  built := o.nowMs
  wrote := takes hash g.writer o
  since := clock

section Runs

variable (config : AgentConfig) (agentVersion : String)

/-- A status of that node, of that moment (`current_status`). -/
def Current (w : Node) (o : Offer Host) : Prop :=
  ∃ live backups host now, isoFromMs o.nowMs = some now ∧
    o.status = { buildStatus config agentVersion w.desired live w.errors backups noCaddy now o.nowMs with edgeRoutes := [], host }

/-- The agent builds a status, after the latest command has ended, and offers it. -/
def Offers (forced : Bool) (w : Node) (g g' : Pulse Host H) : Prop :=
  ∃ o : Offer Host, o.forced = forced ∧ Current config agentVersion w o ∧ g.since ≤ o.nowMs ∧ o.nowMs ≤ w.clock ∧
    g' = g.offered hash o w.clock

/-- The command reports no failure. A replica may come up healthy or not. -/
def Succeeded : (o : Op) → Resp o → Prop
  | .pull _, r => r = .ok ()
  | .runContainer .., r => r = .ok ()
  | .startContainer _, r => r = .ok ()
  | .stopContainer .., r => r = .ok ()
  | .removeContainer _, r => r = .ok ()
  | .refreshRouting _, r => r = .ok ()
  | .recordCronFire .., r => r = .ok ()
  | .runBackup .., r => r = .ok ()
  | _, _ => True

/-- What a command does to the pulse. -/
def Beats : Op → Node → Pulse Host H → Pulse Host H → Prop
  | .heartbeat, w, g, g' => Offers hash config agentVersion true w g g'
  | _, w, g, g' => g' = g.passed w.clock

/-- Every tick gets a document that the schema accepts, no side effect fails, and every tick
    ends with a status. -/
def pulses : Observer (Pulse Host H) where
  start := .start 0
  env g _ _ g' := g' = g
  failed _ _ _ := False
  begin g _ i g' := desiredStateSchema i.desired = true ∧ g' = g.passed i.planNow
  command g o _ r w' g' := Succeeded o r ∧ Beats hash config agentVersion o w' g g'
  finish g r w' g' := r = .ok () ∧ Offers hash config agentVersion false w' g g'

variable (nodeId : String) (P : Node × Pulse Host H → Prop)

/-- The states of the runs of one agent process, on any node, all of which satisfy `P`. -/
inductive Alive : Phase × Node × Pulse Host H → Prop
  | boot (w : Node) : P (w.boot, .start w.clock) → Alive (.idle, w.boot, .start w.clock)
  | step {c c' : Phase × Node × Pulse Host H} : Alive c → Watch nodeId (pulses hash config agentVersion) c c' →
      c'.1 ≠ .down → P c'.2 → Alive c'
  /-- The heartbeat before the dump of one database. -/
  | beat {c : ServiceConfig} {fireMs : Int} {k : Resp (.runBackup c fireMs) → Prog Resp (Except String Unit)} {w : Node}
      {g g' : Pulse Host H} : Alive (.applying (.act (.runBackup c fireMs) k), w, g) →
      Offers hash config agentVersion true w g g' → P (w, g') → Alive (.applying (.act (.runBackup c fireMs) k), w, g')

end Runs

/-! ## What a run keeps -/

section Kept

variable {hash} {config : AgentConfig} {agentVersion nodeId : String} {P : Node × Pulse Host H → Prop} {w w' : Node}
  {g g' : Pulse Host H}

theorem lastSeen_current {o : Offer Host} (h : Current config agentVersion w o) : isoFromMs o.nowMs = some o.status.lastSeen := by
  obtain ⟨live, backups, host, now, hnow, hs⟩ := h
  rw [hnow, hs]
  rfl

/-- A status is suppressed that says what the written one does, before the heartbeat is due. -/
theorem takes_eq_false {o : Offer Host} {s : StatusWriter Host H} : takes hash s o = false ↔
    o.forced = false ∧ s.tracker.fingerprint = some (fingerprintStatus hash o.status) ∧
      o.nowMs - s.tracker.lastWriteMs < livenessHeartbeatMs := by
  unfold takes decideStatusWrite
  rw [defaultLiveness_ms, Bool.or_eq_false_iff]
  refine and_congr_right fun _ => ?_
  cases s.tracker.fingerprint with
  | none => simp
  | some fingerprint =>
    by_cases hsame : fingerprint = fingerprintStatus hash o.status
    · by_cases hdue : o.nowMs - s.tracker.lastWriteMs ≥ livenessHeartbeatMs
      · simp [hsame, hdue, Int.not_lt.mpr hdue]
      · simp [hsame, hdue, Int.not_le.mp hdue]
    · simp [hsame]

theorem offer_takes (s : StatusWriter Host H) (o : Offer Host) : s.offer hash defaultLiveness.livenessMs o =
    if takes hash s o then .wrote hash o.status o.nowMs else s := by
  unfold StatusWriter.offer StatusWriter.writeStatusMaybe takes
  cases o.forced with
  | true => rfl
  | false => rfl

theorem offered_taken {o : Offer Host} {clock : Int} (h : takes hash g.writer o = true) :
    g.offered hash o clock = ⟨.wrote hash o.status o.nowMs, some o.nowMs, o.nowMs, true, clock⟩ := by
  unfold Pulse.offered
  rw [offer_takes, h]
  rfl

theorem offered_suppressed {o : Offer Host} {clock : Int} (h : takes hash g.writer o = false) :
    g.offered hash o clock = ⟨g.writer, g.seen, o.nowMs, false, clock⟩ := by
  unfold Pulse.offered
  rw [offer_takes, h]
  rfl

theorem beating_offers {forced : Bool} (h : Beating (w, g)) (ho : Offers hash config agentVersion forced w g g') :
    Beating (w, g') := by
  obtain ⟨o, -, hcurrent, hsince, hnow, rfl⟩ := ho
  cases htakes : takes hash g.writer o with
  | true =>
    rw [offered_taken htakes]
    refine ⟨Int.le_refl _, (lastSeen_current hcurrent).symm, ?_, ?_, ?_, ?_⟩
    · intro t ht
      cases ht
      exact hnow
    · intro t ht
      cases ht
      rfl
    · intro t ht _
      cases ht
      rfl
    · intro t _ hno
      cases hno
  | false =>
    rw [offered_suppressed htakes]
    refine ⟨Int.le_refl _, h.named, fun t ht => Int.le_trans (h.past t ht) h.since, h.tracked, ?_, ?_⟩
    · intro t _ hyes
      cases hyes
    · intro t ht _
      have := (takes_eq_false.mp htakes).2.2
      rw [h.tracked t ht] at this
      exact this

theorem beating_command {o : Op} {r : Resp o} (h : Beating (w, g)) (hs : sem nodeId o w r w')
    (hb : Beats hash config agentVersion o w' g g') : Beating (w', g') := by
  have hc := sem_clock hs
  cases o with
  | heartbeat => exact beating_offers (h.later hc) hb
  | _ =>
    cases hb
    exact h.passed hc

/-- The step lemma. -/
theorem beating_step {c c' : Phase × Node × Pulse Host H} (h : Beating c.2)
    (hs : Watch nodeId (pulses hash config agentVersion) c c') : Beating c'.2 := by
  cases hs with
  | boot w g => exact h.later (Int.le_refl _)
  | crash p w g => exact h
  | env p c c' hr =>
    obtain ⟨hr, hg⟩ := hr
    obtain ⟨w', g'⟩ := c'
    cases hg
    refine h.later ?_
    cases hr with
    | tick t ht => exact ht
    | exit | restart | remove | loseFile => exact Int.le_refl _
  | failed w w' g g' hf hg => exact hg.elim
  | begin w g i g' ht hg =>
    obtain ⟨-, rfl⟩ := hg
    have hlater : w.clock ≤ (w.began i).clock := ht.1
    exact h.passed hlater
  | command o k c r c' hs => exact beating_command h hs.1 hs.2.2
  | finish res w g r w' g' hs hg => exact beating_offers (h.later (sem_clock hs)) hg.2

/-- The run lemma. -/
theorem alive_beating {c : Phase × Node × Pulse Host H} (h : Alive hash config agentVersion nodeId P c) : Beating c.2 := by
  induction h with
  | boot w _ => exact beating_start w
  | step _ hs _ _ ih => exact beating_step ih hs
  | beat _ ho _ ih => exact beating_offers ih ho

theorem Alive.holds {c : Phase × Node × Pulse Host H} (h : Alive hash config agentVersion nodeId P c) : P c.2 := by
  cases h with
  | boot w hP => exact hP
  | step _ _ _ hP => exact hP
  | beat _ _ hP => exact hP

end Kept

/-! ## Paced runs -/

section Paced

variable {hash} {config : AgentConfig} {agentVersion nodeId : String}

/-- Within the pace every age is within the stale window. -/
theorem fresh_of_paced {suppressed written : Nat} (hs : suppressed ≤ 30001) (hw : written ≤ 60000)
    {c : Phase × Node × Pulse Host H} (h : Alive hash config agentVersion nodeId (Paced suppressed written) c) :
    c.2.2.Fresh c.2.1.clock := by
  intro t ht
  have hb := alive_beating h
  have hp := h.holds (Option.isSome_iff_exists.mpr ⟨t, ht⟩)
  unfold isHeartbeatStale heartbeatStaleMs
  rw [decide_eq_false_iff_not]
  cases hwrote : c.2.2.wrote with
  | true =>
    have hbuilt := hb.wrote t ht hwrote
    rw [hwrote, if_pos rfl] at hp
    omega
  | false =>
    -- the status it stands for was written less than a liveness heartbeat before
    have hage := hb.suppressed t ht hwrote
    rw [hwrote, if_neg Bool.false_ne_true] at hp
    unfold livenessHeartbeatMs at hage
    omega

end Paced

/-! ## Runs of a node without services -/

section Idle

variable (config : AgentConfig) (agentVersion : String)

def idleDocument : DesiredState := ⟨protocolVersion, "n1", "2026-01-01T00:00:00.000Z", []⟩

def idleInput (clock : Int) : TickInput where
  desired := idleDocument
  now _ := clock
  planNow := clock
  saved := true

theorem idleDocument_ok : desiredStateSchema idleDocument = true := by decide

/-- The node between two ticks. -/
def idleNode (clock : Int) : Node := { Node.fresh clock with desired := idleDocument }

/-- Its status at an instant with that text. -/
def idleOffer (clock : Int) (text : String) : Offer Host where
  status := { buildStatus config agentVersion idleDocument [] [] [] noCaddy text clock with edgeRoutes := [], host := none }
  nowMs := clock

/-- The pulse once a status was written at the instant 0, and the latest built at `built`. -/
def idlePulse (text : String) (built : Int) (wrote : Bool) : Pulse Host H :=
  ⟨.wrote hash (idleOffer config agentVersion 0 text).status 0, some 0, built, wrote, built⟩

variable {config agentVersion} {nodeId : String} {P : Node × Pulse Host H → Prop}

/-- The fingerprint has no instants, so a status within the heartbeat is suppressed. -/
theorem takes_idle {later : Int} (h : later < livenessHeartbeatMs) (text text' : String) :
    takes hash (.wrote hash (idleOffer config agentVersion 0 text : Offer Host).status 0)
      (idleOffer config agentVersion later text') = false := by
  refine takes_eq_false.mpr ⟨rfl, rfl, ?_⟩
  show later - 0 < livenessHeartbeatMs
  omega

variable {hash}

theorem idle_wait {clock later : Int} {g : Pulse Host H}
    (h : Alive hash config agentVersion nodeId P (.idle, idleNode clock, g)) (hle : clock ≤ later)
    (hP : P (idleNode later, g)) : Alive hash config agentVersion nodeId P (.idle, idleNode later, g) :=
  .step h (.env _ _ (idleNode later, g) ⟨.tick (idleNode clock) later hle, rfl⟩) nofun hP

/-- A tick that takes no time. -/
theorem idle_tick {w : Node} {clock : Int} {text : String} {g : Pulse Host H}
    (h : Alive hash config agentVersion nodeId P (.idle, w, g)) (ht : (idleInput clock).Timed w)
    (hbegan : w.began (idleInput clock) = idleNode clock) (hplan : w.plan (idleInput clock) = [])
    (htext : isoFromMs clock = some text) (hP : P (idleNode clock, g.passed clock))
    (hend : P (idleNode clock, (g.passed clock).offered hash (idleOffer config agentVersion clock text) clock)) :
    Alive hash config agentVersion nodeId P
      (.idle, idleNode clock, (g.passed clock).offered hash (idleOffer config agentVersion clock text) clock) := by
  have hstarted := h.step (.begin w g (idleInput clock) (g.passed clock) ht ⟨idleDocument_ok, rfl⟩) nofun (hbegan ▸ hP)
  rw [hplan, hbegan] at hstarted
  exact hstarted.step (.finish (.ok ()) (idleNode clock) _ (.ok ()) (idleNode clock) _ ⟨rfl, rfl⟩
    ⟨rfl, _, rfl, ⟨[], [], none, text, htext, rfl⟩, Int.le_refl _, Int.le_refl _, rfl⟩) nofun hend

theorem idle_timed {clock later : Int} (h : clock ≤ later) : (idleInput later).Timed (idleNode clock) :=
  ⟨h, fun _ => ⟨h, Int.le_refl _⟩⟩

/-- The agent comes up and writes its first status. -/
theorem idle_first {text : String} (htext : isoFromMs 0 = some text) (hstart : P ((Node.fresh 0).boot, .start 0))
    (hbegan : P (idleNode 0, .start 0)) (hP : P (idleNode 0, idlePulse hash config agentVersion text 0 true)) :
    Alive hash config agentVersion nodeId P (.idle, idleNode 0, idlePulse hash config agentVersion text 0 true) :=
  idle_tick (.boot (Node.fresh 0) hstart) ⟨Int.le_refl _, fun _ => ⟨Int.le_refl _, Int.le_refl _⟩⟩ rfl rfl htext hbegan hP

/-- Another tick, the status of which is suppressed. -/
theorem idle_again {clock later : Int} {text text' : String} {wrote : Bool} {built : Int}
    (h : Alive hash config agentVersion nodeId P (.idle, idleNode clock, idlePulse hash config agentVersion text built wrote))
    (hle : clock ≤ later) (hlate : later < livenessHeartbeatMs) (htext : isoFromMs later = some text')
    (hP : P (idleNode later, (idlePulse hash config agentVersion text built wrote).passed later))
    (hend : P (idleNode later, idlePulse hash config agentVersion text later false)) :
    Alive hash config agentVersion nodeId P (.idle, idleNode later, idlePulse hash config agentVersion text later false) := by
  have hpulse : ((idlePulse hash config agentVersion text built wrote : Pulse Host H).passed later).offered hash
      (idleOffer config agentVersion later text') later = idlePulse hash config agentVersion text later false := by
    exact offered_suppressed (takes_idle hash hlate text text')
  have ht := idle_tick h (idle_timed hle) rfl rfl htext hP (hpulse ▸ hend)
  rw [hpulse] at ht
  exact ht

/-- A wait of that length after the first status. -/
theorem idle_written {suppressed : Nat} {text : String} (htext : isoFromMs 0 = some text) (written : Nat) :
    Alive hash config agentVersion nodeId (Paced suppressed written)
      (.idle, idleNode written, (idlePulse hash config agentVersion text 0 true : Pulse Host H)) :=
  idle_wait (idle_first htext nofun nofun fun _ => Int.natCast_nonneg written) (Int.natCast_nonneg written)
    fun _ => Int.le_of_eq (Int.sub_zero _)

/-- A wait of that length after a status that was suppressed just before the heartbeat was due. -/
theorem idle_suppressed {written : Nat} {text text' : String} (htext : isoFromMs 0 = some text)
    (htext' : isoFromMs 29999 = some text') {suppressed : Nat} (hlong : 29999 ≤ suppressed) :
    Alive hash config agentVersion nodeId (Paced suppressed written)
      (.idle, idleNode (29999 + suppressed), (idlePulse hash config agentVersion text 29999 false : Pulse Host H)) := by
  have hfirst : Alive hash config agentVersion nodeId (Paced suppressed written)
      (.idle, idleNode 0, (idlePulse hash config agentVersion text 0 true : Pulse Host H)) :=
    idle_first htext nofun nofun fun _ => Int.natCast_nonneg written
  have hagain := idle_again hfirst (Int.le_refl 0) (by decide) htext (fun _ => Int.natCast_nonneg written)
    fun _ => Int.natCast_nonneg suppressed
  have hready := idle_wait hagain (show (0 : Int) ≤ 29999 by decide) fun _ => by
    show (29999 : Int) - 0 ≤ suppressed
    omega
  have hlast := idle_again hready (Int.le_refl 29999) (by decide) htext' (fun _ => by
    show (29999 : Int) - 0 ≤ suppressed
    omega) fun _ => by
    show (29999 : Int) - 29999 ≤ suppressed
    omega
  refine idle_wait hlast (by omega) fun _ => ?_
  show 29999 + (suppressed : Int) - 29999 ≤ suppressed
  omega

end Idle

/-! ## The rule -/

/-- For every pace, node and hash: every run of that pace has its latest written status fresh
    at every moment, if and only if the pace lets the next status take no more than 60 s after
    one that was written and no more than 30001 ms after one that was suppressed. -/
theorem fresh_iff_paced (config : AgentConfig) (agentVersion nodeId : String) (suppressed written : Nat) :
    (∀ c : Phase × Node × Pulse Host H, Alive hash config agentVersion nodeId (Paced suppressed written) c →
      c.2.2.Fresh c.2.1.clock) ↔ suppressed ≤ 30001 ∧ written ≤ 60000 := by
  obtain ⟨text, htext⟩ : ∃ text, isoFromMs 0 = some text := Option.isSome_iff_exists.mp (by decide +kernel)
  obtain ⟨text', htext'⟩ : ∃ text, isoFromMs 29999 = some text := Option.isSome_iff_exists.mp (by decide +kernel)
  refine ⟨fun h => ⟨?_, ?_⟩, fun ⟨hs, hw⟩ c hc => fresh_of_paced hs hw hc⟩
  · by_contra hlong
    have hfresh := h _ (idle_suppressed htext htext' (by omega)) 0 rfl
    have hage := of_decide_eq_false hfresh
    unfold heartbeatStaleMs at hage
    exact hage (show (29999 : Int) + suppressed - 0 > 60000 by omega)
  · by_contra hlong
    have hfresh := h _ (idle_written htext written) 0 rfl
    have hage := of_decide_eq_false hfresh
    unfold heartbeatStaleMs at hage
    exact hage (show (written : Int) - 0 > 60000 by omega)

/-! ## What the agent does by itself -/

section Stale

variable {hash} {config : AgentConfig} {agentVersion nodeId : String} {P : Node × Pulse Host H → Prop}

/-- No status is written in a sleep, so one longer than the stale window ends with a stale
    status. -/
theorem slept_stale {ms : Int} (hms : heartbeatStaleMs < ms) {k : Resp (.sleepMs ms) → Prog Resp (Except String Unit)}
    {w w' : Node} {g g' : Pulse Host H} {t : Int}
    (h : Alive hash config agentVersion nodeId P (.applying (.act (.sleepMs ms) k), w, g)) (ht : g.seen = some t)
    {r : Resp (.sleepMs ms)} (hs : (watcher nodeId (pulses hash config agentVersion)).sem (.sleepMs ms) (w, g) r (w', g')) :
    g'.seen = some t ∧ isHeartbeatStale t w'.clock heartbeatStaleMs = true := by
  obtain ⟨⟨clock, hclock, hw⟩, -, hg⟩ := hs
  have hg : g' = g.passed w'.clock := hg
  have hslept : w.clock + max ms 0 ≤ w'.clock := by
    cases hw
    exact hclock
  rw [hg]
  exact ⟨ht, (alive_beating h).stale ht (by omega)⟩

/-- So ends the drain of every web replica. -/
theorem web_drain_goes_stale {c : ServiceConfig} (hc : c.ingress.isSome = true)
    {k : Resp (.sleepMs (drainWaitMs c)) → Prog Resp (Except String Unit)} {w w' : Node} {g g' : Pulse Host H} {t : Int}
    (h : Alive hash config agentVersion nodeId P (.applying (.act (.sleepMs (drainWaitMs c)) k), w, g))
    (ht : g.seen = some t) {r : Resp (.sleepMs (drainWaitMs c))}
    (hs : (watcher nodeId (pulses hash config agentVersion)).sem (.sleepMs (drainWaitMs c)) (w, g) r (w', g')) :
    g'.seen = some t ∧ isHeartbeatStale t w'.clock heartbeatStaleMs = true := by
  have hfloor : heartbeatStaleMs < remoteEdgeDrainFloorMs := by decide
  exact slept_stale (Int.lt_of_lt_of_le hfloor (drainWait_floor hc)) h ht hs

end Stale

/-- An agent without services writes its first status and waits out the default poll interval.
    The next tick has begun a millisecond later; its status is not there yet. -/
theorem patient_poll_goes_stale :
    ¬ ∀ c : Phase × Node × Pulse Unit FpStatusPayload, Alive id ⟨"n1", "a1"⟩ "0.1.0" "n1" (fun _ => True) c →
      c.2.2.Fresh c.2.1.clock := by
  intro h
  obtain ⟨text, htext⟩ : ∃ text, isoFromMs 0 = some text := Option.isSome_iff_exists.mp (by decide +kernel)
  have hfirst : Alive id ⟨"n1", "a1"⟩ "0.1.0" "n1" (fun _ => True)
      (.idle, idleNode 0, (idlePulse id ⟨"n1", "a1"⟩ "0.1.0" text 0 true : Pulse Unit FpStatusPayload)) :=
    idle_first htext trivial trivial trivial
  have hwaited := idle_wait hfirst (show 0 ≤ defaultPollIntervalMs by decide) trivial
  have hnext := hwaited.step (.begin _ _ (idleInput (defaultPollIntervalMs + 1)) _
    (idle_timed (show defaultPollIntervalMs ≤ defaultPollIntervalMs + 1 by decide)) ⟨idleDocument_ok, rfl⟩) nofun trivial
  have hfresh : isHeartbeatStale 0 (defaultPollIntervalMs + 1) heartbeatStaleMs = false := h _ hnext 0 rfl
  exact absurd hfresh (by decide)

end LaunchPad.Agent.Liveness
