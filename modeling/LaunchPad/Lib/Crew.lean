/-
  LaunchPad.Lib.Crew — programs that run side by side on one world, one command at a time,
  in any order.

  What each program may count on from the others is what their own conditions promise: a
  command is only issued where its program's condition holds. So programs that are right
  beside an environment of such commands are right beside each other.

  Proved:
  - `crew_sat`: the rule of composition, over every run.
  - `crew_keeps`: what every command keeps where its condition holds, every run keeps.
  - `alone_done`, `alone_visits`: how a program beside which nothing runs ends, and what
    holds in every world of its runs.
  - `play_run`: a schedule, with a server that answers, plays a run.
-/
import LaunchPad.Lib.Prog

namespace LaunchPad.Lib

section Crew

variable {ι Op : Type} {Resp : Op → Type} {W α : Type}

/-- The programs and the world they share. -/
structure Crew (ι : Type) {Op : Type} (Resp : Op → Type) (α W : Type) where
  progs : ι → Prog Resp α
  world : W

variable (sem : ι → (o : Op) → W → Resp o → W → Prop)

/-- Program `i` issues its next command. -/
inductive CrewStep [DecidableEq ι] : Crew ι Resp α W → Crew ι Resp α W → Prop
  | act {s : Crew ι Resp α W} {i : ι} {o : Op} {k : Resp o → Prog Resp α} {r : Resp o} {w' : W} :
      s.progs i = .act o k → sem i o s.world r w' →
      CrewStep s ⟨fun j => if j = i then k r else s.progs j, w'⟩

/-- Any number of steps, in any order. -/
inductive CrewRun [DecidableEq ι] : Crew ι Resp α W → Crew ι Resp α W → Prop
  | refl (s : Crew ι Resp α W) : CrewRun s s
  | tail {s t u : Crew ι Resp α W} : CrewRun s t → CrewStep sem t u → CrewRun s u

variable {sem} in
theorem CrewRun.trans [DecidableEq ι] {s t u : Crew ι Resp α W} (h : CrewRun sem s t) (h' : CrewRun sem t u) :
    CrewRun sem s u := by
  induction h' with
  | refl => exact h
  | tail _ hs ih => exact .tail ih hs

/-- Program `i` among commands of the others, each issued where its condition holds. -/
def amidst (G : ι → Op → W → Prop) (i : ι) : Machine Resp W where
  sem := sem i
  rely w w' := ∃ j, j ≠ i ∧ ∃ o r, G j o w ∧ sem j o w r w'

variable {sem} [DecidableEq ι] {G : ι → Op → W → Prop} {Q : ι → α → W → Prop} {s t : Crew ι Resp α W}

theorem crew_sat_step (h : ∀ i, Sat (amidst sem G i) (G i) (Q i) (s.progs i) s.world) (hs : CrewStep sem s t) :
    ∀ i, Sat (amidst sem G i) (G i) (Q i) (t.progs i) t.world := by
  obtain ⟨hp, hsem⟩ := hs
  rename_i i o k r w'
  have hi := h i
  rw [hp] at hi
  intro j
  by_cases hj : j = i
  · subst hj
    simp only [if_pos]
    exact hi.step (.act hsem)
  · simp only [if_neg hj]
    exact (h j).step (.rely ⟨i, Ne.symm hj, o, r, hi.atAct, hsem⟩)

/-- Programs that are right amidst each other's commands stay so over every run. -/
theorem crew_sat (h : ∀ i, Sat (amidst sem G i) (G i) (Q i) (s.progs i) s.world) (hr : CrewRun sem s t) :
    ∀ i, Sat (amidst sem G i) (G i) (Q i) (t.progs i) t.world := by
  induction hr with
  | refl => exact h
  | tail _ hs ih => exact crew_sat_step ih hs

theorem crew_keeps {I : W → Prop} (h : ∀ i, Sat (amidst sem G i) (G i) (Q i) (s.progs i) s.world)
    (hkeep : ∀ i o w r w', G i o w → sem i o w r w' → I w → I w') (hI : I s.world) (hr : CrewRun sem s t) :
    I t.world := by
  induction hr with
  | refl => exact hI
  | tail hr hs ih =>
    obtain ⟨hp, hsem⟩ := hs
    rename_i u i o k r w'
    have hi := crew_sat h hr i
    rw [hp] at hi
    exact hkeep i o _ r _ hi.atAct hsem ih

/-- A program that is done satisfies its postcondition. -/
theorem crew_done (h : ∀ i, Sat (amidst sem G i) (G i) (Q i) (s.progs i) s.world) (hr : CrewRun sem s t) {i : ι}
    {a : α} (hi : t.progs i = .ret a) : Q i a t.world := by
  have hsat := crew_sat h hr i
  rw [hi] at hsat
  exact hsat.atRet

/-! ## One program alone -/

section Alone

variable {sem : Unit → (o : Op) → W → Resp o → W → Prop}

/-- The machine of a program beside which nothing runs. -/
abbrev alone (sem : Unit → (o : Op) → W → Resp o → W → Prop) : Machine Resp W := amidst sem (fun _ _ _ => True) ()

theorem alone_stable (P : W → Prop) : (alone sem).Stable P := by
  intro w w' _ ⟨j, hj, _⟩
  exact absurd rfl hj

/-- Beside nothing, what the others are held to does not matter. -/
theorem amidst_alone (G : Unit → Op → W → Prop) : amidst sem G () = alone sem := by
  unfold alone amidst
  congr 1
  funext w w'
  apply propext
  constructor
  · intro ⟨j, hj, _⟩
    exact absurd rfl hj
  · intro ⟨j, hj, _⟩
    exact absurd rfl hj

variable {G : Op → W → Prop} {Q : α → W → Prop} {p : Prog Resp α} {w : W}

theorem Sat.aloneRet {a : α} (h : Q a w) : Sat (alone sem) G Q (.ret a) w := Sat.ret (alone_stable _) h fun _ h => h

/-- Nothing changes between a command and the next. -/
theorem Sat.aloneAct {o : Op} {k : Resp o → Prog Resp α} (hG : G o w)
    (hk : ∀ r w', sem () o w r w' → Sat (alone sem) G Q (k r) w') : Sat (alone sem) G Q (.act o k) w := by
  apply Sat.act (alone_stable (· = w)) rfl
  · intro w₁ h
    subst h
    exact hG
  · intro w₁ r w' h hs
    subst h
    exact hk r w' hs

theorem alone_sat (h : Sat (alone sem) G Q p w) {s : Crew Unit Resp α W} (hr : CrewRun sem ⟨fun _ => p, w⟩ s) :
    Sat (alone sem) G Q (s.progs ()) s.world := by
  have hall := crew_sat (G := fun _ => G) (Q := fun _ => Q) (s := ⟨fun _ => p, w⟩)
    (fun i => by cases i; rw [amidst_alone]; exact h) hr ()
  rwa [amidst_alone] at hall

/-- How the program ends, over every run of it. -/
theorem alone_done (h : Sat (alone sem) G Q p w) {s : Crew Unit Resp α W} (hr : CrewRun sem ⟨fun _ => p, w⟩ s) {a : α}
    (ha : s.progs () = .ret a) : Q a s.world := by
  have hsat := alone_sat h hr
  rw [ha] at hsat
  exact hsat.atRet

/-- What holds at every command and at the end holds in every world of a run. -/
theorem alone_visits {P : W → Prop} (h : Sat (alone sem) (fun _ => P) (fun _ => P) p w) {s : Crew Unit Resp α W}
    (hr : CrewRun sem ⟨fun _ => p, w⟩ s) : P s.world := by
  have hsat := alone_sat h hr
  cases hp : s.progs () with
  | ret a => rw [hp] at hsat; exact hsat.atRet
  | act o k => rw [hp] at hsat; exact hsat.atAct

end Alone

/-! ## A run by schedule -/

section Play

variable (serve : ι → (o : Op) → W → Resp o × W)

/-- Program `i` takes its turn, with the answer a deterministic server gives. -/
def Crew.turn (s : Crew ι Resp α W) (i : ι) : Crew ι Resp α W :=
  match s.progs i with
  | .ret _ => s
  | .act o k => ⟨fun j => if j = i then k (serve i o s.world).1 else s.progs j, (serve i o s.world).2⟩

def Crew.play (schedule : List ι) (s : Crew ι Resp α W) : Crew ι Resp α W := schedule.foldl (Crew.turn serve) s

variable {serve}

theorem turn_run (hserve : ∀ i o w, sem i o w (serve i o w).1 (serve i o w).2) {u : Crew ι Resp α W}
    (h : CrewRun sem u s) (i : ι) : CrewRun sem u (s.turn serve i) := by
  unfold Crew.turn
  split
  · exact h
  · rename_i o k hp
    exact .tail h (.act hp (hserve i o s.world))

/-- A schedule plays a run. -/
theorem play_run (hserve : ∀ i o w, sem i o w (serve i o w).1 (serve i o w).2) (schedule : List ι)
    (s : Crew ι Resp α W) : CrewRun sem s (s.play serve schedule) := by
  have hgen : ∀ u, CrewRun sem s u → CrewRun sem s (u.play serve schedule) := by
    induction schedule with
    | nil => exact fun u h => h
    | cons i schedule ih => exact fun u h => ih _ (turn_run hserve h i)
  exact hgen s (.refl s)

end Play

end Crew

end LaunchPad.Lib
