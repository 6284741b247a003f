/-
  LaunchPad.Lib.Prog — programs over a signature of commands, their executions, and the
  rules to prove what every execution keeps.

  A program is a tree: it is done with a value, or it issues a command `o` and goes on
  with the answer (`Resp o`). What a command does to the world is a relation
  (`Machine.sem`), so a command may have several answers and effects; between two
  commands the environment may change the world on its own (`Machine.rely`).

  `Sat M G Q p w`: from world `w`, whatever the commands answer and the environment does,
  every command `o` that `p` issues finds a world where `G o` holds, and `p` ends in a
  value and world that satisfy `Q`. A program cut short by a crash is covered: `G` has
  been checked up to the cut.

  Proved:
  - `Sat.step`: `Sat` is kept by one step of the program or of the environment, so it is
    an invariant of every machine that interleaves the two.
  - `Sat.bind`, `Sat.bindE`, `Sat.forM`, `Sat.ofUses`: the rules of composition, for plain
    programs, programs that may fail, loops over lists, and programs all of whose commands
    keep one invariant.
  - `Sat.runs`: what holds of every execution holds along one (`Runs`, `Visits`).
  - `sat_tracker_iff`: over a deterministic observer of commands and answers, `Sat` is a
    statement about all traces.
  - `Bounded.length`: no trace is longer than its program's bound.
  - `Sat.follow`: `Sat` goes on along the run that an oracle picks.
-/
import Mathlib.Logic.Relation

namespace LaunchPad.Lib

/-- A program over commands `Op` whose answers have the types `Resp`. -/
inductive Prog {Op : Type} (Resp : Op → Type) (α : Type) : Type where
  | ret (a : α)
  | act (o : Op) (k : Resp o → Prog Resp α)

namespace Prog

variable {Op : Type} {Resp : Op → Type} {α β ε : Type}

def bind : Prog Resp α → (α → Prog Resp β) → Prog Resp β
  | .ret a, f => f a
  | .act o k, f => .act o fun r => (k r).bind f

instance : Monad (Prog Resp) where
  pure := .ret
  bind := bind

/-- Issue one command and return its answer. -/
def cmd (o : Op) : Prog Resp (Resp o) := .act o .ret

@[simp] theorem pure_eq (a : α) : (pure a : Prog Resp α) = .ret a := rfl
@[simp] theorem ret_bind (a : α) (f : α → Prog Resp β) : (Prog.ret a >>= f) = f a := rfl
@[simp] theorem act_bind (o : Op) (k : Resp o → Prog Resp α) (f : α → Prog Resp β) :
    (Prog.act o k >>= f) = .act o fun r => k r >>= f := rfl
@[simp] theorem cmd_bind (o : Op) (f : Resp o → Prog Resp β) : (cmd o >>= f) = .act o f := rfl

theorem bind_ret (p : Prog Resp α) : (p >>= .ret) = p := by
  induction p with
  | ret a => rfl
  | act o k ih => rw [act_bind]; congr 1; funext r; exact ih r

theorem bind_assoc (p : Prog Resp α) (f : α → Prog Resp β) {γ : Type} (g : β → Prog Resp γ) :
    ((p >>= f) >>= g) = (p >>= fun a => f a >>= g) := by
  induction p with
  | ret a => rfl
  | act o k ih => simp only [act_bind]; congr 1; funext r; exact ih r

/-- The value a program is done with. -/
def result : Prog Resp α → Option α
  | .ret a => some a
  | .act _ _ => none

theorem eq_ret {p : Prog Resp α} {a : α} (h : p.result = some a) : p = .ret a := by
  cases p with
  | ret b => cases h; rfl
  | act o k => cases h

instance : LawfulMonad (Prog Resp) :=
  LawfulMonad.mk' (Prog Resp) bind_ret (fun _ _ => rfl) fun p f g => bind_assoc p f g

end Prog

/-! ## Machines -/

/-- What the commands and the environment do to a world of type `W`. -/
structure Machine {Op : Type} (Resp : Op → Type) (W : Type) where
  /-- `sem o w r w'`: the command `o` issued in `w` may answer `r` and leave `w'`. -/
  sem : (o : Op) → W → Resp o → W → Prop
  /-- The environment's own moves. -/
  rely : W → W → Prop

namespace Machine

variable {Op : Type} {Resp : Op → Type} {W : Type} (M : Machine Resp W)

/-- Any number of moves of the environment. -/
def Drift : W → W → Prop := Relation.ReflTransGen M.rely

def Stable (P : W → Prop) : Prop := ∀ w w', P w → M.rely w w' → P w'

/-- `P` survives the command `o`, whatever it answers. -/
def Keeps (P : W → Prop) (o : Op) : Prop := ∀ w r w', P w → M.sem o w r w' → P w'

theorem Drift.refl (w : W) : M.Drift w w := Relation.ReflTransGen.refl

variable {M}

theorem Stable.drift {P : W → Prop} (hP : M.Stable P) {w w' : W} (h : P w) (hd : M.Drift w w') : P w' := by
  induction hd with
  | refl => exact h
  | tail _ hs ih => exact hP _ _ ih hs

end Machine

/-! ## What every execution of a program keeps -/

section Sat

variable {Op : Type} {Resp : Op → Type} {W α β ε : Type} (M : Machine Resp W)

/-- Every command `p` issues from `w` finds its `G`, and `p` ends in `Q`. -/
def Sat (G : Op → W → Prop) (Q : α → W → Prop) : Prog Resp α → W → Prop
  | .ret a, w => ∀ w₁, M.Drift w w₁ → Q a w₁
  | .act o k, w => ∀ w₁, M.Drift w w₁ → G o w₁ ∧ ∀ r w₂, M.sem o w₁ r w₂ → Sat G Q (k r) w₂

/-- One move: of the program, or of the environment around it. -/
inductive ProgStep : Prog Resp α → W → Prog Resp α → W → Prop
  | act {o : Op} {k : Resp o → Prog Resp α} {w w' : W} {r : Resp o} :
      M.sem o w r w' → ProgStep (.act o k) w (k r) w'
  | rely {p : Prog Resp α} {w w' : W} : M.rely w w' → ProgStep p w p w'

variable {M} {G G' : Op → W → Prop} {Q Q' : α → W → Prop}

theorem Sat.drift {p : Prog Resp α} {w w' : W} (h : Sat M G Q p w) (hd : M.Drift w w') : Sat M G Q p w' := by
  cases p with
  | ret a => exact fun w₁ h₁ => h w₁ (hd.trans h₁)
  | act o k => exact fun w₁ h₁ => h w₁ (hd.trans h₁)

theorem Sat.step {p p' : Prog Resp α} {w w' : W} (h : Sat M G Q p w) (hs : ProgStep M p w p' w') :
    Sat M G Q p' w' := by
  cases hs with
  | act hs => exact (h w (Machine.Drift.refl M w)).2 _ _ hs
  | rely hs => exact h.drift (Relation.ReflTransGen.single hs)

theorem Sat.atRet {a : α} {w : W} (h : Sat M G Q (.ret a) w) : Q a w := h w (Machine.Drift.refl M w)

theorem Sat.atAct {o : Op} {k : Resp o → Prog Resp α} {w : W} (h : Sat M G Q (.act o k) w) : G o w :=
  (h w (Machine.Drift.refl M w)).1

theorem Sat.mono {p : Prog Resp α} {w : W} (h : Sat M G Q p w) (hG : ∀ o w, G o w → G' o w)
    (hQ : ∀ a w, Q a w → Q' a w) : Sat M G' Q' p w := by
  induction p generalizing w with
  | ret a => exact fun w₁ h₁ => hQ _ _ (h w₁ h₁)
  | act o k ih => exact fun w₁ h₁ => ⟨hG _ _ (h w₁ h₁).1, fun r w₂ hs => ih r ((h w₁ h₁).2 r w₂ hs)⟩

/-- Nothing asked is nothing to show. -/
theorem Sat.any (p : Prog Resp α) (w : W) : Sat M (fun _ _ => True) (fun _ _ => True) p w := by
  induction p generalizing w with
  | ret a => exact fun _ _ => trivial
  | act o k ih => exact fun w₁ _ => ⟨trivial, fun r w₂ _ => ih r w₂⟩

theorem Sat.ret {P : W → Prop} (hP : M.Stable P) {a : α} {w : W} (h : P w) (hQ : ∀ w, P w → Q a w) :
    Sat M G Q (.ret a) w := fun w₁ h₁ => hQ w₁ (hP.drift h h₁)

/-- One command, from a precondition the environment cannot break. -/
theorem Sat.act {P : W → Prop} (hP : M.Stable P) {o : Op} {k : Resp o → Prog Resp α} {w : W} (h : P w)
    (hG : ∀ w, P w → G o w) (hk : ∀ w r w', P w → M.sem o w r w' → Sat M G Q (k r) w') :
    Sat M G Q (.act o k) w :=
  fun w₁ h₁ => ⟨hG w₁ (hP.drift h h₁), fun r w₂ hs => hk w₁ r w₂ (hP.drift h h₁) hs⟩

theorem Sat.bind {R : β → W → Prop} {p : Prog Resp β} {k : β → Prog Resp α} {w : W} (h : Sat M G R p w)
    (hk : ∀ b w', R b w' → Sat M G Q (k b) w') : Sat M G Q (p >>= k) w := by
  induction p generalizing w with
  | ret b => exact hk b w h.atRet
  | act o k' ih => exact fun w₁ h₁ => ⟨(h w₁ h₁).1, fun r w₂ hs => ih r ((h w₁ h₁).2 r w₂ hs)⟩

/-- What holds of a composition holds of its first part. -/
theorem Sat.ofBind {p : Prog Resp β} {k : β → Prog Resp α} {w : W} (h : Sat M G Q (p >>= k) w) :
    Sat M G (fun _ _ => True) p w := by
  induction p generalizing w with
  | ret b => exact fun _ _ => trivial
  | act o k' ih => exact fun w₁ h₁ => ⟨(h w₁ h₁).1, fun r w₂ hs => ih r ((h w₁ h₁).2 r w₂ hs)⟩

/-! ### Programs that may fail -/

/-- `Q` at a result: the value's postcondition, or the error's. -/
def onResult (Q : α → W → Prop) (E : ε → W → Prop) : Except ε α → W → Prop
  | .ok a, w => Q a w
  | .error e, w => E e w

/-- The rule of `?`: an error ends the whole program. -/
theorem Sat.bindE {R : β → W → Prop} {E : ε → W → Prop} {p : ExceptT ε (Prog Resp) β}
    {k : β → ExceptT ε (Prog Resp) α} {w : W} (h : Sat M G (onResult R E) p.run w)
    (hE : ∀ e, M.Stable (E e)) (hk : ∀ b w', R b w' → Sat M G (onResult Q E) (k b).run w') :
    Sat M G (onResult Q E) (p >>= k).run w := by
  rw [ExceptT.run_bind]
  refine Sat.bind h ?_
  rintro (e | b) w' hb
  · exact Sat.ret (hE e) hb fun _ h => h
  · exact hk b w' hb

/-- A loop whose invariant is about what is still to be done. -/
theorem Sat.forM_rest {γ : Type} {I : List γ → W → Prop} {E : ε → W → Prop} (hI : M.Stable (I [])) (hE : ∀ e, M.Stable (E e))
    {l : List γ} {f : γ → ExceptT ε (Prog Resp) PUnit}
    (hf : ∀ x l w, I (x :: l) w → Sat M G (onResult (fun _ => I l) E) (f x).run w) {w : W} (hw : I l w) :
    Sat M G (onResult (fun _ => I []) E) (forM l f).run w := by
  induction l generalizing w with
  | nil => exact Sat.ret hI hw fun _ h => h
  | cons x l ih =>
    rw [List.forM_cons]
    exact Sat.bindE (hf x l w hw) hE fun _ w' hw' => ih hw'

/-- A loop over a list that keeps one invariant. -/
theorem Sat.forM {γ : Type} {I : W → Prop} {E : ε → W → Prop} (hI : M.Stable I) (hE : ∀ e, M.Stable (E e))
    (l : List γ) (f : γ → ExceptT ε (Prog Resp) PUnit)
    (hf : ∀ x ∈ l, ∀ w, I w → Sat M G (onResult (fun _ => I) E) (f x).run w) {w : W} (hw : I w) :
    Sat M G (onResult (fun _ => I) E) (forM l f).run w := by
  induction l generalizing w with
  | nil => exact Sat.ret hI hw fun _ h => h
  | cons x l ih =>
    rw [List.forM_cons]
    exact Sat.bindE (hf x (List.mem_cons_self ..) w hw) hE fun _ w' hw' =>
      ih (fun y hy => hf y (List.mem_cons_of_mem _ hy)) hw'

/-- The rule of a handler: the error, or the value, goes on. -/
theorem Sat.tryCatch {E : ε → W → Prop} {p : ExceptT ε (Prog Resp) α} {h : ε → ExceptT ε (Prog Resp) α} {w : W}
    (hp : Sat M G (onResult Q E) p.run w) (hQ : ∀ a, M.Stable (Q a)) {E' : ε → W → Prop}
    (hh : ∀ e w', E e w' → Sat M G (onResult Q E') (h e).run w') :
    Sat M G (onResult Q E') (tryCatch p h).run w := by
  refine Sat.bind hp ?_
  rintro (e | a) w' hw'
  · exact hh e w' hw'
  · exact Sat.ret (hQ a) hw' fun _ h => h

/-! ### Footprints -/

/-- Every command that `p` may issue satisfies `P`. -/
def Uses (P : Op → Prop) : Prog Resp α → Prop
  | .ret _ => True
  | .act o k => P o ∧ ∀ r, Uses P (k r)

theorem Uses.bind {P : Op → Prop} {p : Prog Resp β} {k : β → Prog Resp α} (h : Uses P p)
    (hk : ∀ b, Uses P (k b)) : Uses P (p >>= k) := by
  induction p with
  | ret b => exact hk b
  | act o k' ih => exact ⟨h.1, fun r => ih r (h.2 r)⟩

theorem Uses.mono {P P' : Op → Prop} {p : Prog Resp α} (h : Uses P p) (hP : ∀ o, P o → P' o) : Uses P' p := by
  induction p with
  | ret a => trivial
  | act o k ih => exact ⟨hP o h.1, fun r => ih r (h.2 r)⟩

theorem Uses.bindE {P : Op → Prop} {p : ExceptT ε (Prog Resp) β} {k : β → ExceptT ε (Prog Resp) α}
    (h : Uses P p.run) (hk : ∀ b, Uses P (k b).run) : Uses P (p >>= k).run := by
  rw [ExceptT.run_bind]
  refine h.bind ?_
  rintro (e | b)
  · trivial
  · exact hk b

theorem Uses.forM {γ : Type} {P : Op → Prop} (l : List γ) (f : γ → ExceptT ε (Prog Resp) PUnit)
    (hf : ∀ x ∈ l, Uses P (f x).run) : Uses P (forM l f).run := by
  induction l with
  | nil => trivial
  | cons x l ih =>
    rw [List.forM_cons]
    exact Uses.bindE (hf x (List.mem_cons_self ..)) fun _ => ih fun y hy => hf y (List.mem_cons_of_mem _ hy)

/-- A program whose commands all keep `I`, and find their `G` under it, keeps `I`. -/
theorem Sat.ofUses {P : Op → Prop} {I : W → Prop} (hI : M.Stable I) (hkeep : ∀ o, P o → M.Keeps I o)
    (hG : ∀ o w, P o → I w → G o w) {p : Prog Resp α} (hp : Uses P p) {w : W} (hw : I w) :
    Sat M G (fun _ => I) p w := by
  induction p generalizing w with
  | ret a => exact Sat.ret hI hw fun _ h => h
  | act o k ih =>
    exact Sat.act hI hw (fun w h => hG o w hp.1 h) fun w₁ r w₂ h₁ hs =>
      ih r (hp.2 r) (hkeep o hp.1 w₁ r w₂ h₁ hs)

end Sat

/-! ## Some execution -/

section Runs

variable {Op : Type} {Resp : Op → Type} {W α β ε : Type} (M : Machine Resp W)

/-- Some answers take the program and the world there. -/
inductive Runs : Prog Resp α → W → Prog Resp α → W → Prop
  | refl (p : Prog Resp α) (w : W) : Runs p w p w
  | act {o : Op} {k : Resp o → Prog Resp α} {w w₁ w₂ : W} {r : Resp o} {q : Prog Resp α} :
      M.sem o w r w₁ → Runs (k r) w₁ q w₂ → Runs (.act o k) w q w₂

variable {M} {w w₁ w₂ : W}

theorem Runs.trans {p q s : Prog Resp α} (h : Runs M p w q w₁) (h' : Runs M q w₁ s w₂) : Runs M p w s w₂ := by
  induction h with
  | refl => exact h'
  | act hs _ ih => exact .act hs (ih h')

theorem Runs.bind {p q : Prog Resp β} (h : Runs M p w q w₁) (f : β → Prog Resp α) :
    Runs M (p >>= f) w (q >>= f) w₁ := by
  induction h with
  | refl => exact .refl _ _
  | act hs _ ih => exact .act hs ih

theorem Runs.cmd {o : Op} {r : Resp o} (h : M.sem o w r w₁) : Runs M (Prog.cmd o) w (.ret r) w₁ :=
  .act h (.refl _ _)

/-- The first part of a composition succeeds, and the rest goes on. -/
theorem Runs.bindE {p : ExceptT ε (Prog Resp) β} {k : β → ExceptT ε (Prog Resp) α} {b : β}
    {q : Prog Resp (Except ε α)} (h : Runs M p.run w (.ret (.ok b)) w₁) (hk : Runs M (k b).run w₁ q w₂) :
    Runs M (p >>= k).run w q w₂ := by
  rw [ExceptT.run_bind]
  exact (h.bind _).trans hk

/-- What every execution keeps, this one keeps. -/
theorem Sat.runs {G : Op → W → Prop} {Q : α → W → Prop} {p q : Prog Resp α} (hr : Runs M p w q w₁)
    (h : Sat M G Q p w) : Sat M G Q q w₁ := by
  induction hr with
  | refl => exact h
  | act hs _ ih => exact ih (h.step (.act hs))

variable (M) in
/-- Some execution passes through that world. -/
def Visits (p : Prog Resp α) (w w₁ : W) : Prop := ∃ q, Runs M p w q w₁

theorem Visits.bind {p : Prog Resp β} (h : Visits M p w w₁) (f : β → Prog Resp α) : Visits M (p >>= f) w w₁ := by
  obtain ⟨q, hq⟩ := h
  exact ⟨_, hq.bind f⟩

theorem Visits.left {p : ExceptT ε (Prog Resp) β} (h : Visits M p.run w w₁) (k : β → ExceptT ε (Prog Resp) α) :
    Visits M (p >>= k).run w w₁ := by
  rw [ExceptT.run_bind]
  exact h.bind _

theorem Visits.right {p : ExceptT ε (Prog Resp) β} {k : β → ExceptT ε (Prog Resp) α} {b : β}
    (h : Runs M p.run w (.ret (.ok b)) w₁) (hk : Visits M (k b).run w₁ w₂) : Visits M (p >>= k).run w w₂ := by
  obtain ⟨q, hq⟩ := hk
  exact ⟨q, h.bindE hq⟩

end Runs

/-! ## Traces -/

section Trace

variable {Op : Type} {Resp : Op → Type} {W α : Type}

/-- A command with the answer it got. -/
structure Event {Op : Type} (Resp : Op → Type) where
  op : Op
  resp : Resp op

/-- The command sequences an execution of a program may show, cut at any point. -/
inductive Trace : Prog Resp α → List (Event Resp) → Prop
  | cut (p : Prog Resp α) : Trace p []
  | act {o : Op} {k : Resp o → Prog Resp α} {r : Resp o} {t : List (Event Resp)} :
      Trace (k r) t → Trace (.act o k) (⟨o, r⟩ :: t)

variable (observe : W → (o : Op) → Resp o → W)

/-- The machine that only watches: every answer is possible. -/
def tracker : Machine Resp W := ⟨fun o w r w' => w' = observe w o r, fun _ _ => False⟩

/-- Each command of a trace satisfies `G` where the observer stands when it is issued. -/
def Checked (G : Op → W → Prop) : W → List (Event Resp) → Prop
  | _, [] => True
  | w, e :: t => G e.op w ∧ Checked G (observe w e.op e.resp) t

variable {observe}

theorem tracker_drift {w w' : W} (h : (tracker observe : Machine Resp W).Drift w w') : w' = w := by
  cases h with
  | refl => rfl
  | tail _ hs => exact hs.elim

theorem tracker_stable (P : W → Prop) : (tracker observe : Machine Resp W).Stable P := fun _ _ _ h => h.elim

theorem Sat.watch {G : Op → W → Prop} {Q : α → W → Prop} {o : Op} {k : Resp o → Prog Resp α} {w : W} (hG : G o w)
    (hk : ∀ r, Sat (tracker observe) G Q (k r) (observe w o r)) : Sat (tracker observe) G Q (.act o k) w := by
  intro w₁ h₁
  obtain rfl := tracker_drift h₁
  refine ⟨hG, fun r w₂ hs => ?_⟩
  obtain rfl := hs
  exact hk r

theorem Sat.watchRet {G : Op → W → Prop} {Q : α → W → Prop} {a : α} {w : W} (h : Q a w) :
    Sat (tracker observe) G Q (Prog.ret a : Prog Resp α) w := by
  intro w₁ h₁
  obtain rfl := tracker_drift h₁
  exact h

/-- Over an observer, `Sat` says that every trace passes its checks. -/
theorem sat_tracker_iff [∀ o, Nonempty (Resp o)] {G : Op → W → Prop} {p : Prog Resp α} {w : W} :
    Sat (tracker observe) G (fun _ _ => True) p w ↔ ∀ t, Trace p t → Checked observe G w t := by
  induction p generalizing w with
  | ret a =>
    refine ⟨fun _ t ht => ?_, fun _ _ _ => trivial⟩
    cases ht; trivial
  | act o k ih =>
    constructor
    · intro h t ht
      cases ht with
      | cut => trivial
      | act ht => exact ⟨h.atAct, (ih _).mp ((h w (Machine.Drift.refl _ w)).2 _ _ rfl) _ ht⟩
    · intro h w₁ h₁
      obtain rfl := tracker_drift h₁
      refine ⟨?_, fun r w₂ hs => ?_⟩
      · obtain ⟨r⟩ := ‹∀ o, Nonempty (Resp o)› o
        exact (h [⟨o, r⟩] (.act (.cut _))).1
      · obtain rfl := hs
        exact (ih r).mpr fun t ht => (h (⟨o, r⟩ :: t) (.act ht)).2

/-! ### Length -/

/-- No execution of the program issues more than `n` commands. -/
def Bounded : Prog Resp α → Nat → Prop
  | .ret _, _ => True
  | .act _ k, n => 0 < n ∧ ∀ r, Bounded (k r) (n - 1)

theorem Bounded.mono {p : Prog Resp α} {m n : Nat} (h : Bounded p m) (hle : m ≤ n) : Bounded p n := by
  induction p generalizing m n with
  | ret a => trivial
  | act o k ih => exact ⟨by have := h.1; omega, fun r => ih r (h.2 r) (by omega)⟩

theorem Bounded.bind {β : Type} {p : Prog Resp β} {k : β → Prog Resp α} {m n : Nat} (h : Bounded p m)
    (hk : ∀ b, Bounded (k b) n) : Bounded (p >>= k) (m + n) := by
  induction p generalizing m with
  | ret b => exact (hk b).mono (by omega)
  | act o k' ih =>
    have hpos := h.1
    refine ⟨by omega, fun r => (ih r (h.2 r)).mono ?_⟩
    omega

theorem Bounded.bindE {β ε : Type} {p : ExceptT ε (Prog Resp) β} {k : β → ExceptT ε (Prog Resp) α} {m n : Nat}
    (h : Bounded p.run m) (hk : ∀ b, Bounded (k b).run n) : Bounded (p >>= k).run (m + n) := by
  rw [ExceptT.run_bind]
  refine h.bind fun b => ?_
  cases b with
  | error e => trivial
  | ok b => exact hk b

theorem Bounded.length {p : Prog Resp α} {n : Nat} (h : Bounded p n) {t : List (Event Resp)} (ht : Trace p t) :
    t.length ≤ n := by
  induction ht generalizing n with
  | cut => exact Nat.zero_le n
  | act _ ih =>
    have hpos := h.1
    have hrest := ih (h.2 _)
    rw [List.length_cons]
    omega

/-! ### The run an oracle picks -/

variable {β ε : Type}

/-- The value of a program whose commands are answered by `ans`. -/
def Prog.value (ans : ∀ o, Resp o) : Prog Resp α → α
  | .ret a => a
  | .act o k => (k (ans o)).value ans

variable (observe) in
/-- What the observer has seen of that run. -/
def Prog.after (ans : ∀ o, Resp o) : Prog Resp α → W → W
  | .ret _, w => w
  | .act o k, w => (k (ans o)).after ans (observe w o (ans o))

variable {ans : ∀ o, Resp o}

@[simp] theorem Prog.value_bind (p : Prog Resp β) (f : β → Prog Resp α) :
    (p >>= f).value ans = (f (p.value ans)).value ans := by
  induction p with
  | ret b => rfl
  | act o k ih => exact ih (ans o)

@[simp] theorem Prog.after_bind (p : Prog Resp β) (f : β → Prog Resp α) (w : W) :
    (p >>= f).after observe ans w = (f (p.value ans)).after observe ans (p.after observe ans w) := by
  induction p generalizing w with
  | ret b => rfl
  | act o k ih => exact ih (ans o) _

/-- A machine that may answer as the oracle does runs the program to its end. -/
theorem Runs.oracle {M : Machine Resp W} (h : ∀ o w, M.sem o w (ans o) (observe w o (ans o))) (p : Prog Resp α) (w : W) :
    Runs M p w (.ret (p.value ans)) (p.after observe ans w) := by
  induction p generalizing w with
  | ret a => exact .refl _ _
  | act o k ih => exact .act (h o w) (ih (ans o) _)

/-- `Sat` goes on along every oracle's run. -/
theorem Sat.follow {G : Op → W → Prop} {Q : α → W → Prop} (ans : ∀ o, Resp o) {p : Prog Resp β}
    {k : β → Prog Resp α} {w : W} (h : Sat (tracker observe) G Q (p >>= k) w) :
    Sat (tracker observe) G Q (k (p.value ans)) (p.after observe ans w) := by
  induction p generalizing w with
  | ret b => exact h
  | act o k' ih => exact ih (ans o) ((h w (Machine.Drift.refl _ w)).2 _ _ rfl)

theorem Sat.followE {G : Op → W → Prop} {Q : Except ε α → W → Prop} (ans : ∀ o, Resp o)
    {p : ExceptT ε (Prog Resp) β} {k : β → ExceptT ε (Prog Resp) α} {b : β} {w : W}
    (h : Sat (tracker observe) G Q (p >>= k).run w) (hv : p.run.value ans = .ok b) :
    Sat (tracker observe) G Q (k b).run (p.run.after observe ans w) := by
  rw [ExceptT.run_bind] at h
  have h' := h.follow ans
  rw [hv] at h'
  exact h'

end Trace

end LaunchPad.Lib
