/-
  LaunchPad.Lib.Crontab — the five-field language of cron schedules, as relations on text:
  which texts are items and fields, and which values they stand for.

  An item is a range with an optional step; a range is `*`, a number, or two numbers, and a
  single number with a step runs to the field's end. A field is a list of items. A day of
  the week is from 0 to 7, where both ends are Sunday. When neither day field is `*`, one of
  the two has to match; otherwise both.

  Proved:
  - `Fields.matchBy_congr`: two readings that agree on the fields match the same minutes.
  - `Item.le`, `Denotes.range`: what a field stands for lies in its range.
  - `Item.chars`, `WellFormed.chars`: the characters of an item and of a field.
-/
import LaunchPad.Lib.Calendar
import LaunchPad.Lib.Split

namespace LaunchPad.Lib.Crontab

/-- The range of a field's values. -/
structure Field where
  min : Nat
  max : Nat
  deriving DecidableEq, Repr

def minute : Field := ⟨0, 59⟩
def hour : Field := ⟨0, 23⟩
def dayOfMonth : Field := ⟨1, 31⟩
def month : Field := ⟨1, 12⟩
def dayOfWeek : Field := ⟨0, 7⟩

/-- The number that digits write. -/
def value (digits : List Char) : Nat := digits.foldl (fun n c => n * 10 + (c.toNat - '0'.toNat)) 0

def Numeral (text : List Char) : Prop := text ≠ [] ∧ ∀ c ∈ text, c.isDigit = true

/-- A range's text, whether a step follows it, and its ends. -/
inductive Span (F : Field) : List Char → Bool → Nat → Nat → Prop
  | star {stepped : Bool} : Span F ['*'] stepped F.min F.max
  | number {text : List Char} : Numeral text → F.min ≤ value text → value text ≤ F.max →
      Span F text false (value text) (value text)
  | numberUp {text : List Char} : Numeral text → F.min ≤ value text → value text ≤ F.max →
      Span F text true (value text) F.max
  | range {stepped : Bool} {a b : List Char} : Numeral a → Numeral b → F.min ≤ value a → value a ≤ value b →
      value b ≤ F.max → Span F (a ++ '-' :: b) stepped (value a) (value b)

/-- An item's text, its ends and its step. -/
inductive Item (F : Field) : List Char → Nat → Nat → Nat → Prop
  | plain {text : List Char} {lo hi : Nat} : Span F text false lo hi → Item F text lo hi 1
  | stepped {text k : List Char} {lo hi : Nat} : Span F text true lo hi → Numeral k → 0 < value k →
      Item F (text ++ '/' :: k) lo hi (value k)

/-- The values from `lo` to `hi` at the distance `step`. -/
def Steps (lo hi step v : Nat) : Prop := ∃ j : Nat, v = lo + j * step ∧ v ≤ hi

/-- Every piece between commas is an item. -/
def WellFormed (F : Field) (field : List Char) : Prop := ∀ text ∈ field.splitOn ',', ∃ lo hi step, Item F text lo hi step

/-- What a field stands for. -/
def Denotes (F : Field) (field : List Char) (v : Nat) : Prop :=
  ∃ text ∈ field.splitOn ',', ∃ lo hi step, Item F text lo hi step ∧ Steps lo hi step v

/-- The five fields of a schedule. -/
structure Fields where
  minute : List Char
  hour : List Char
  dayOfMonth : List Char
  month : List Char
  dayOfWeek : List Char
  deriving DecidableEq, Repr

structure Fields.WellFormed (f : Fields) : Prop where
  minute : Crontab.WellFormed Crontab.minute f.minute
  hour : Crontab.WellFormed Crontab.hour f.hour
  dayOfMonth : Crontab.WellFormed Crontab.dayOfMonth f.dayOfMonth
  month : Crontab.WellFormed Crontab.month f.month
  dayOfWeek : Crontab.WellFormed Crontab.dayOfWeek f.dayOfWeek

/-- A reading of the fields: which values a field's text stands for. -/
abbrev Reading := Field → List Char → Nat → Prop

/-- A weekday from Sunday, which is 0 and 7. -/
def OnWeekday (D : Reading) (field : List Char) (weekday : Nat) : Prop :=
  D dayOfWeek field weekday ∨ (weekday = 0 ∧ D dayOfWeek field 7)

/-- The rule for the two day fields. -/
def OnDay (D : Reading) (f : Fields) (day weekday : Nat) : Prop :=
  if f.dayOfMonth ≠ ['*'] ∧ f.dayOfWeek ≠ ['*'] then D dayOfMonth f.dayOfMonth day ∨ OnWeekday D f.dayOfWeek weekday
  else D dayOfMonth f.dayOfMonth day ∧ OnWeekday D f.dayOfWeek weekday

/-- A minute of the calendar that a schedule matches under a reading. -/
def Fields.MatchBy (D : Reading) (f : Fields) (minute hour day month weekday : Nat) : Prop :=
  D Crontab.minute f.minute minute ∧ D Crontab.hour f.hour hour ∧ D Crontab.month f.month month ∧ OnDay D f day weekday

/-- What a reading says of an instant, in epoch milliseconds. -/
def Fields.MatchAt (D : Reading) (f : Fields) (ms : Int) : Prop :=
  f.MatchBy D (ms / 60000 % 60).toNat (ms / 3600000 % 24).toNat (Calendar.ofDay (ms / 86400000)).day.toNat
    (Calendar.ofDay (ms / 86400000)).month.toNat ((ms / 86400000 + 4) % 7).toNat

/-- The fields with their ranges. -/
def Fields.all (f : Fields) : List (Field × List Char) :=
  [(Crontab.minute, f.minute), (Crontab.hour, f.hour), (Crontab.dayOfMonth, f.dayOfMonth), (Crontab.month, f.month),
    (Crontab.dayOfWeek, f.dayOfWeek)]

/-- Five texts as the fields of a schedule. -/
def Fields.ofList : List (List Char) → Option Fields
  | [f₁, f₂, f₃, f₄, f₅] => some ⟨f₁, f₂, f₃, f₄, f₅⟩
  | _ => none

theorem Fields.ofList_eq_some {l : List (List Char)} {f : Fields} : Fields.ofList l = some f ↔ l = f.all.map (·.2) := by
  rcases l with _ | ⟨a, _ | ⟨b, _ | ⟨c, _ | ⟨d, _ | ⟨e, _ | ⟨g, l⟩⟩⟩⟩⟩⟩
  all_goals
    cases f
    simp [Fields.ofList, Fields.all]

/-- Readings that agree on a schedule's fields match the same minutes. -/
theorem Fields.matchBy_congr {D D' : Reading} {f : Fields} (h : ∀ e ∈ f.all, ∀ v, D e.1 e.2 v ↔ D' e.1 e.2 v)
    {minute hour day month weekday : Nat} :
    f.MatchBy D minute hour day month weekday ↔ f.MatchBy D' minute hour day month weekday := by
  simp only [Fields.all, List.forall_mem_cons] at h
  obtain ⟨hmin, hhour, hdom, hmonth, hdow, _⟩ := h
  unfold Fields.MatchBy OnDay OnWeekday
  simp only [hmin, hhour, hdom, hmonth, hdow]

/-- A reading that has more values matches more. -/
theorem Fields.MatchAt.mono {D D' : Reading} {f : Fields} {ms : Int} (h : f.MatchAt D ms)
    (hD : ∀ F field {v}, D F field v → D' F field v) : f.MatchAt D' ms := by
  obtain ⟨hmin, hhour, hmonth, hday⟩ := h
  refine ⟨hD _ _ hmin, hD _ _ hhour, hD _ _ hmonth, ?_⟩
  have hweek : ∀ {w}, OnWeekday D f.dayOfWeek w → OnWeekday D' f.dayOfWeek w :=
    fun hw => hw.imp (hD _ _) fun h7 => ⟨h7.1, hD _ _ h7.2⟩
  unfold OnDay at hday ⊢
  split at hday
  · rename_i hboth
    rw [if_pos hboth]
    exact hday.imp (hD _ _) hweek
  · rename_i hboth
    rw [if_neg hboth]
    exact ⟨hD _ _ hday.1, hweek hday.2⟩

theorem Fields.matchAt_congr {D D' : Reading} {f : Fields} (h : ∀ e ∈ f.all, ∀ v, D e.1 e.2 v ↔ D' e.1 e.2 v) (ms : Int) :
    f.MatchAt D ms ↔ f.MatchAt D' ms := matchBy_congr h

/-! ## Ranges -/

section Range

variable {F : Field} {text : List Char} {lo hi step v : Nat} {stepped : Bool}

theorem Span.le (hF : F.min ≤ F.max) (h : Span F text stepped lo hi) : F.min ≤ lo ∧ lo ≤ hi ∧ hi ≤ F.max := by
  cases h with
  | star => exact ⟨Nat.le_refl _, hF, Nat.le_refl _⟩
  | number _ h1 h2 => exact ⟨h1, Nat.le_refl _, h2⟩
  | numberUp _ h1 h2 => exact ⟨h1, h2, Nat.le_refl _⟩
  | range _ _ h1 h2 h3 => exact ⟨h1, h2, h3⟩

theorem Item.le (hF : F.min ≤ F.max) (h : Item F text lo hi step) : F.min ≤ lo ∧ lo ≤ hi ∧ hi ≤ F.max ∧ 0 < step := by
  cases h with
  | plain h =>
    obtain ⟨h1, h2, h3⟩ := h.le hF
    exact ⟨h1, h2, h3, Nat.one_pos⟩
  | stepped h _ hk =>
    obtain ⟨h1, h2, h3⟩ := h.le hF
    exact ⟨h1, h2, h3, hk⟩

theorem Denotes.range (hF : F.min ≤ F.max) (h : Denotes F text v) : F.min ≤ v ∧ v ≤ F.max := by
  obtain ⟨_, _, lo, hi, step, hitem, j, rfl, hle⟩ := h
  obtain ⟨h1, _, h3, _⟩ := hitem.le hF
  exact ⟨Nat.le_trans h1 (Nat.le_add_right _ _), Nat.le_trans hle h3⟩

/-- A field stands for something. -/
theorem WellFormed.exists_denotes (hF : F.min ≤ F.max) (h : WellFormed F text) : ∃ v, Denotes F text v := by
  cases hs : text.splitOn ',' with
  | nil => exact absurd hs (List.splitOn_ne_nil ',' text)
  | cons item rest =>
    have hmem : item ∈ text.splitOn ',' := by rw [hs]; exact List.mem_cons_self ..
    obtain ⟨lo, hi, step, hitem⟩ := h item hmem
    exact ⟨lo, item, hmem, lo, hi, step, hitem, 0, by simp, (hitem.le hF).2.1⟩

theorem wellFormed_star (F : Field) : WellFormed F ['*'] := by
  intro text htext
  rw [List.splitOn_eq_singleton (by decide), List.mem_singleton] at htext
  rw [htext]
  exact ⟨_, _, _, .plain .star⟩

/-- A field of one star is unrestricted: it stands for its whole range. -/
theorem denotes_star (hF : F.min ≤ F.max) : Denotes F ['*'] v ↔ F.min ≤ v ∧ v ≤ F.max := by
  refine ⟨Denotes.range hF, fun ⟨h1, h2⟩ => ?_⟩
  have hsplit : (['*'] : List Char).splitOn ',' = [['*']] := List.splitOn_eq_singleton (by decide)
  exact ⟨['*'], by rw [hsplit]; exact List.mem_singleton_self _, F.min, F.max, 1, .plain .star, v - F.min, by omega, h2⟩

end Range

/-! ## Characters -/

/-- A character of an item. -/
def itemChar (c : Char) : Bool := c.isDigit || c == '*' || c == '-' || c == '/'

theorem Numeral.not_mem {text : List Char} (h : Numeral text) {c : Char} (hc : c.isDigit = false) : c ∉ text := by
  intro hmem
  rw [h.2 c hmem] at hc
  cases hc

theorem Numeral.chars {text : List Char} (h : Numeral text) {c : Char} (hc : c ∈ text) : itemChar c = true := by
  simp [itemChar, h.2 c hc]

theorem Span.chars {F : Field} {text : List Char} {stepped : Bool} {lo hi : Nat} (h : Span F text stepped lo hi) {c : Char}
    (hc : c ∈ text) : itemChar c = true := by
  cases h with
  | star =>
    rw [List.mem_singleton.mp hc]
    decide
  | number h => exact h.chars hc
  | numberUp h => exact h.chars hc
  | range ha hb =>
    rcases List.mem_append.mp hc with hc | hc
    · exact ha.chars hc
    · rcases List.mem_cons.mp hc with rfl | hc
      · decide
      · exact hb.chars hc

theorem Span.no_slash {F : Field} {text : List Char} {stepped : Bool} {lo hi : Nat} (h : Span F text stepped lo hi) :
    '/' ∉ text := by
  cases h with
  | star => decide
  | number h => exact h.not_mem (by decide)
  | numberUp h => exact h.not_mem (by decide)
  | range ha hb =>
    intro hmem
    rcases List.mem_append.mp hmem with hmem | hmem
    · exact ha.not_mem (by decide) hmem
    · rcases List.mem_cons.mp hmem with hmem | hmem
      · exact absurd hmem (by decide)
      · exact hb.not_mem (by decide) hmem

theorem Span.unique {F : Field} {text : List Char} {stepped : Bool} {lo hi lo' hi' : Nat} (h : Span F text stepped lo hi)
    (h' : Span F text stepped lo' hi') : lo = lo' ∧ hi = hi' := by
  have hstar : ∀ {t : List Char}, Numeral t → t ≠ ['*'] := by
    rintro t ht rfl
    exact ht.not_mem (c := '*') (by decide) (List.mem_singleton_self _)
  have hdash : ∀ {a b : List Char}, a ++ '-' :: b ≠ ['*'] := by
    intro a b he
    have : '-' ∈ ['*'] := by rw [← he]; simp
    exact absurd this (by decide)
  cases h with
  | star =>
    generalize ht : ['*'] = text at h'
    cases h' with
    | star => exact ⟨rfl, rfl⟩
    | number hn => exact absurd ht.symm (hstar hn)
    | numberUp hn => exact absurd ht.symm (hstar hn)
    | range => exact absurd ht.symm hdash
  | number hn =>
    cases h' with
    | star => exact absurd rfl (hstar hn)
    | number => exact ⟨rfl, rfl⟩
    | range => exact absurd (by simp) (hn.not_mem (c := '-') (by decide))
  | numberUp hn =>
    cases h' with
    | star => exact absurd rfl (hstar hn)
    | numberUp => exact ⟨rfl, rfl⟩
    | range => exact absurd (by simp) (hn.not_mem (c := '-') (by decide))
  | @range _ a b ha hb =>
    generalize ht : a ++ '-' :: b = text at h'
    cases h' with
    | star => exact absurd ht hdash
    | number hn => exact absurd (by rw [← ht]; simp) (hn.not_mem (c := '-') (by decide))
    | numberUp hn => exact absurd (by rw [← ht]; simp) (hn.not_mem (c := '-') (by decide))
    | @range _ c d hc hd =>
      have h1 := splitOn_two_iff.mpr ⟨rfl, ha.not_mem (c := '-') (by decide), hb.not_mem (c := '-') (by decide)⟩
      have h2 := splitOn_two_iff.mpr ⟨ht, hc.not_mem (c := '-') (by decide), hd.not_mem (c := '-') (by decide)⟩
      rw [h1] at h2
      cases h2
      exact ⟨rfl, rfl⟩

/-- An item is read in one way. -/
theorem Item.unique {F : Field} {text : List Char} {lo hi step lo' hi' step' : Nat} (h : Item F text lo hi step)
    (h' : Item F text lo' hi' step') : lo = lo' ∧ hi = hi' ∧ step = step' := by
  cases h with
  | plain h =>
    cases h' with
    | plain h' =>
      obtain ⟨h1, h2⟩ := h.unique h'
      exact ⟨h1, h2, rfl⟩
    | stepped h' _ _ => exact absurd (by simp) h.no_slash
  | @stepped t k _ _ h hk =>
    generalize ht : t ++ '/' :: k = text at h'
    cases h' with
    | plain h' => exact absurd (by rw [← ht]; simp) h'.no_slash
    | @stepped t' k' _ _ h' hk' =>
      have h1 := splitOn_two_iff.mpr ⟨rfl, h.no_slash, hk.not_mem (c := '/') (by decide)⟩
      have h2 := splitOn_two_iff.mpr ⟨ht, h'.no_slash, hk'.not_mem (c := '/') (by decide)⟩
      rw [h1] at h2
      cases h2
      obtain ⟨h1, h2⟩ := h.unique h'
      exact ⟨h1, h2, rfl⟩

theorem Item.chars {F : Field} {text : List Char} {lo hi step : Nat} (h : Item F text lo hi step) {c : Char} (hc : c ∈ text) :
    itemChar c = true := by
  cases h with
  | plain h => exact h.chars hc
  | stepped h hk =>
    rcases List.mem_append.mp hc with hc | hc
    · exact h.chars hc
    · rcases List.mem_cons.mp hc with rfl | hc
      · decide
      · exact hk.chars hc

/-- A well-formed field has only item characters and commas. -/
theorem WellFormed.chars {F : Field} {field : List Char} (h : WellFormed F field) {c : Char} (hc : c ∈ field) :
    itemChar c = true ∨ c = ',' := by
  have hback : [','].intercalate (field.splitOn ',') = field := List.intercalate_splitOn ','
  rw [← hback] at hc
  rcases mem_intercalate hc with hc | ⟨t, ht, hc⟩
  · exact .inr hc
  · obtain ⟨_, _, _, hitem⟩ := h t ht
    exact .inl (hitem.chars hc)

theorem Fields.WellFormed.chars {f : Fields} (h : f.WellFormed) {e : Field × List Char} (he : e ∈ f.all) {c : Char}
    (hc : c ∈ e.2) : itemChar c = true ∨ c = ',' := by
  have hall : ∀ e ∈ f.all, Crontab.WellFormed e.1 e.2 := by
    simp only [Fields.all, List.forall_mem_cons]
    exact ⟨h.minute, h.hour, h.dayOfMonth, h.month, h.dayOfWeek, fun e he => absurd he List.not_mem_nil⟩
  exact (hall e he).chars hc

end LaunchPad.Lib.Crontab
