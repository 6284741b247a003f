/-
  LaunchPad.Agent.Observed — the runs of `Agent.Node` with a record beside the node. An
  `Observer` says what each move adds to the record, and which moves the runs it is about
  may make; no command reads the record.

  The moves are those of `Agent.Node`: the agent boots and crashes, the environment moves,
  a tick fails before it plans, begins, issues its commands and ends. A status is written
  by a failed tick, by a heartbeat command and by the end of a tick, so an observer sees
  every place where one may be built.

  Proved:
  - `WatchReach.plain`: without the record, an observed run is a run of the node.
  - `WatchReach.map`: a finer observer's run is a coarser one's, its record projected.
  - `watchReach_invariant`, `watchReach_command`: what the moves keep holds of every run.
-/
import LaunchPad.Agent.Node

namespace LaunchPad.Agent

open Lib

/-- A tick that ends before it plans, as in `Step`. -/
inductive Failing (w : Node) : Node → Prop
  | noDesired : Failing w { w with errors := [] }
  | noLogin (d : DesiredState) : Failing w { w with errors := [], desired := d }
  | noInspect (d : DesiredState) : Failing w { w with errors := [], desired := d, hasWeb := hasWebOf d }

/-- What happens to the record `γ` at each move, with the node before and after it. -/
structure Observer (γ : Type) where
  start : γ
  env : γ → Node → Node → γ → Prop
  /-- A failed tick leaves that node. -/
  failed : γ → Node → γ → Prop
  begin : γ → Node → TickInput → γ → Prop
  command : γ → (o : Op) → Node → Resp o → Node → γ → Prop
  /-- The publish at the end of a tick answers, and leaves that node. -/
  finish : γ → Except String Unit → Node → γ → Prop

section Observed

variable {γ δ : Type} (nodeId : String) (O : Observer γ)

/-- The machine of the commands, with the record. -/
def watcher : Machine Resp (Node × γ) :=
  ⟨fun o c r c' => sem nodeId o c.1 r c'.1 ∧ O.command c.2 o c.1 r c'.1 c'.2,
   fun c c' => Rely c.1 c'.1 ∧ O.env c.2 c.1 c'.1 c'.2⟩

inductive Watch : Phase × Node × γ → Phase × Node × γ → Prop
  | boot (w : Node) (g : γ) : Watch (.down, w, g) (.idle, w.boot, g)
  | crash (p : Phase) (w : Node) (g : γ) : Watch (p, w, g) (.down, w, g)
  | env (p : Phase) (c c' : Node × γ) : (watcher nodeId O).rely c c' → Watch (p, c) (p, c')
  | failed (w w' : Node) (g g' : γ) : Failing w w' → O.failed g w' g' → Watch (.idle, w, g) (.idle, w', g')
  | begin (w : Node) (g : γ) (i : TickInput) (g' : γ) : i.Timed w → O.begin g w i g' →
      Watch (.idle, w, g) (.applying (applyActions (w.plan i)).run, w.began i, g')
  | command (o : Op) (k : Resp o → Prog Resp (Except String Unit)) (c : Node × γ) (r : Resp o) (c' : Node × γ) :
      (watcher nodeId O).sem o c r c' → Watch (.applying (.act o k), c) (.applying (k r), c')
  | finish (res : Except String Unit) (w : Node) (g : γ) (r : Except String Unit) (w' : Node) (g' : γ) :
      sem nodeId (.refreshRouting []) w r w' → O.finish g r w' g' →
      Watch (.applying (.ret res), w, g) (.idle, w', g')

/-- The states of the observed runs. -/
inductive WatchReach : Phase × Node × γ → Prop
  | fresh (clock : Int) : WatchReach (.down, .fresh clock, O.start)
  | step {c c' : Phase × Node × γ} : WatchReach c → Watch nodeId O c c' → WatchReach c'

variable {nodeId O}

theorem Watch.plain {c c' : Phase × Node × γ} (h : Watch nodeId O c c') :
    Step nodeId {} (c.1, c.2.1) (c'.1, c'.2.1) := by
  cases h with
  | boot w g => exact .boot w
  | crash p w g => exact .crash p w
  | env p c c' hr => exact .env p c.1 c'.1 hr.1
  | failed w w' g g' hf hg =>
    cases hf with
    | noDesired => exact .noDesired w
    | noLogin d => exact .noLogin w d
    | noInspect d => exact .noInspect w d
  | begin w g i g' ht hg => exact .begin w i ht trivial
  | command o k c r c' hs => exact .command o k c.1 r c'.1 ⟨hs.1, trivial⟩
  | finish res w g r w' g' hs hg => exact .finish res w r w' hs

/-- The record changes nothing: the runs are runs of the node. -/
theorem WatchReach.plain {c : Phase × Node × γ} (h : WatchReach nodeId O c) : Reach nodeId {} (c.1, c.2.1) := by
  induction h with
  | fresh clock => exact .fresh clock
  | step _ hs ih => exact .step ih hs.plain

/-- A run goes on along the commands of its plan. -/
theorem WatchReach.runs {p q : Prog Resp (Except String Unit)} {c c' : Node × γ}
    (hr : Runs (watcher nodeId O) p c q c') (h : WatchReach nodeId O (.applying p, c)) :
    WatchReach nodeId O (.applying q, c') := by
  induction hr with
  | refl => exact h
  | act hs _ ih => exact ih (.step h (.command _ _ _ _ _ hs))

/-! ## A coarser record -/

/-- What `O` records and allows is, through `π`, what `O'` records and allows. -/
structure Observer.Refines (O : Observer γ) (O' : Observer δ) (π : γ → δ) : Prop where
  start : π O.start = O'.start
  env : ∀ {g w w' g'}, O.env g w w' g' → O'.env (π g) w w' (π g')
  failed : ∀ {g w g'}, O.failed g w g' → O'.failed (π g) w (π g')
  begin : ∀ {g w i g'}, O.begin g w i g' → O'.begin (π g) w i (π g')
  command : ∀ {g o w r w' g'}, O.command g o w r w' g' → O'.command (π g) o w r w' (π g')
  finish : ∀ {g r w g'}, O.finish g r w g' → O'.finish (π g) r w (π g')

theorem Watch.map {O' : Observer δ} {π : γ → δ} (hO : O.Refines O' π) {c c' : Phase × Node × γ}
    (h : Watch nodeId O c c') : Watch nodeId O' (c.1, c.2.1, π c.2.2) (c'.1, c'.2.1, π c'.2.2) := by
  cases h with
  | boot w g => exact .boot w _
  | crash p w g => exact .crash p w _
  | env p c c' hr => exact .env p (c.1, π c.2) (c'.1, π c'.2) ⟨hr.1, hO.env hr.2⟩
  | failed w w' g g' hf hg => exact .failed w w' _ _ hf (hO.failed hg)
  | begin w g i g' ht hg => exact .begin w _ i _ ht (hO.begin hg)
  | command o k c r c' hs => exact .command o k (c.1, π c.2) r (c'.1, π c'.2) ⟨hs.1, hO.command hs.2⟩
  | finish res w g r w' g' hs hg => exact .finish res w _ r w' _ hs (hO.finish hg)

theorem WatchReach.map {O' : Observer δ} {π : γ → δ} (hO : O.Refines O' π) {c : Phase × Node × γ}
    (h : WatchReach nodeId O c) : WatchReach nodeId O' (c.1, c.2.1, π c.2.2) := by
  induction h with
  | fresh clock =>
    show WatchReach nodeId O' (.down, .fresh clock, π O.start)
    rw [hO.start]
    exact .fresh clock
  | step _ hs ih => exact .step ih (hs.map hO)

/-! ## What every observed run keeps -/

/-- As `Kept`, of the node together with the record. -/
structure Upheld (nodeId : String) (O : Observer γ) (I J : Node × γ → Prop) (G : Op → Node × γ → Prop) : Prop where
  fresh : ∀ clock, I (.fresh clock, O.start)
  stable : ∀ c c', I c → (watcher nodeId O).rely c c' → I c'
  boot : ∀ w g, I (w, g) → I (w.boot, g)
  failed : ∀ w w' g g', I (w, g) → Failing w w' → O.failed g w' g' → I (w', g')
  command : ∀ o c, G o c → I c
  planned : ∀ c, J c → I c
  finish : ∀ w g r w' g', J (w, g) → sem nodeId (.refreshRouting []) w r w' → O.finish g r w' g' → I (w', g')
  begin : ∀ w g i g', I (w, g) → i.Timed w → O.begin g w i g' →
    Sat (watcher nodeId O) G (fun _ => J) (applyActions (w.plan i)).run (w.began i, g')

variable {I J : Node × γ → Prop} {G : Op → Node × γ → Prop}

/-- Where an observed run stands, as `Standing`. -/
def Watching (nodeId : String) (O : Observer γ) (I J : Node × γ → Prop) (G : Op → Node × γ → Prop) :
    Phase × Node × γ → Prop
  | (.down, c) | (.idle, c) => I c
  | (.applying p, c) => Sat (watcher nodeId O) G (fun _ => J) p c

theorem Watching.planned {res : Except String Unit} {c : Node × γ}
    (h : Watching nodeId O I J G (.applying (.ret res), c)) : J c := by
  have hp : Sat (watcher nodeId O) G (fun _ => J) (.ret res) c := h
  exact hp.atRet

theorem Watching.invariant (hU : Upheld nodeId O I J G) {c : Phase × Node × γ} (h : Watching nodeId O I J G c) :
    I c.2 := by
  obtain ⟨p, c⟩ := c
  cases p with
  | down => exact h
  | idle => exact h
  | applying p =>
    have hp : Sat (watcher nodeId O) G (fun _ => J) p c := h
    cases p with
    | ret res => exact hU.planned c h.planned
    | act o k => exact hU.command o c hp.atAct

/-- The step lemma. -/
theorem watch_watching (hU : Upheld nodeId O I J G) {c c' : Phase × Node × γ} (h : Watching nodeId O I J G c)
    (hs : Watch nodeId O c c') : Watching nodeId O I J G c' := by
  have hI := h.invariant hU
  cases hs with
  | boot w g => exact hU.boot w g hI
  | crash p w g => exact hI
  | env p c c' hr =>
    cases p with
    | down => exact hU.stable c c' hI hr
    | idle => exact hU.stable c c' hI hr
    | applying p => exact Sat.drift h (Relation.ReflTransGen.single hr)
  | failed w w' g g' hf hg => exact hU.failed w w' g g' hI hf hg
  | begin w g i g' ht hg => exact hU.begin w g i g' hI ht hg
  | command o k c r c' hr => exact Sat.step h (.act hr)
  | finish res w g r w' g' hr hg => exact hU.finish w g r w' g' h.planned hr hg

/-- The run lemma. -/
theorem watchReach_watching (hU : Upheld nodeId O I J G) {c : Phase × Node × γ} (h : WatchReach nodeId O c) :
    Watching nodeId O I J G c := by
  induction h with
  | fresh clock => exact hU.fresh clock
  | step _ hs ih => exact watch_watching hU ih hs

theorem watchReach_invariant (hU : Upheld nodeId O I J G) {c : Phase × Node × γ} (h : WatchReach nodeId O c) : I c.2 :=
  (watchReach_watching hU h).invariant hU

theorem watchReach_command (hU : Upheld nodeId O I J G) {o : Op} {k : Resp o → Prog Resp (Except String Unit)}
    {c : Node × γ} (h : WatchReach nodeId O (.applying (.act o k), c)) : G o c :=
  Sat.atAct (watchReach_watching hU h)

end Observed

end LaunchPad.Agent
