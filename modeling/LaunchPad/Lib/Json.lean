/-
  LaunchPad.Lib.Json — JSON texts: written as `JSON.stringify` does, with or without a gap,
  and read as RFC 8259 says, with the white space between the tokens that it allows.

  Left out: numbers with a fraction or an exponent, and a limit on the nesting.

  Proved:
  - `parse_stringify`: what is written is read as it was, whatever the gap.
  - `small_stringify`: no line of a written text starts with a capital letter.
-/
import LaunchPad.Lib.Decimal
import LaunchPad.Lib.Split
import Mathlib.Data.List.Chain

namespace LaunchPad.Lib

inductive JsonValue
  | null
  | bool (b : Bool)
  | num (n : Int)
  | str (s : String)
  | arr (items : List JsonValue)
  | obj (fields : List (String × JsonValue))
  deriving Repr

namespace JsonValue

/-! ## Writing -/

/-- `QuoteJSONString`, a character. -/
def quoteChar (c : Char) : List Char :=
  match c.toNat with
  | 0x08 => ['\\', 'b']
  | 0x09 => ['\\', 't']
  | 0x0a => ['\\', 'n']
  | 0x0c => ['\\', 'f']
  | 0x0d => ['\\', 'r']
  | 0x22 => ['\\', '"']
  | 0x5c => ['\\', '\\']
  | n => if n < 0x20 then ['\\', 'u', '0', '0', Nat.digitChar (n / 16), Nat.digitChar (n % 16)] else [c]

def quote (s : String) : List Char := '"' :: (s.toList.flatMap quoteChar ++ ['"'])

/-- A new line, unless there is no gap. -/
def newline (gap indent : List Char) : List Char := if gap = [] then [] else '\n' :: indent

def colon (gap : List Char) : List Char := if gap = [] then [':'] else [':', ' ']

mutual

/-- `SerializeJSONProperty`. -/
def stringify (gap indent : List Char) : JsonValue → List Char
  | .null => ['n', 'u', 'l', 'l']
  | .bool true => ['t', 'r', 'u', 'e']
  | .bool false => ['f', 'a', 'l', 's', 'e']
  | .num n => n.repr.toList
  | .str s => quote s
  | .arr [] => ['[', ']']
  | .arr (v :: vs) =>
    '[' :: (newline gap (indent ++ gap) ++ stringify gap (indent ++ gap) v ++ stringifyItems gap (indent ++ gap) vs
      ++ newline gap indent ++ [']'])
  | .obj [] => ['{', '}']
  | .obj ((k, v) :: fs) =>
    '{' :: (newline gap (indent ++ gap) ++ quote k ++ colon gap ++ stringify gap (indent ++ gap) v
      ++ stringifyFields gap (indent ++ gap) fs ++ newline gap indent ++ ['}'])

def stringifyItems (gap indent : List Char) : List JsonValue → List Char
  | [] => []
  | v :: vs => ',' :: (newline gap indent ++ stringify gap indent v ++ stringifyItems gap indent vs)

def stringifyFields (gap indent : List Char) : List (String × JsonValue) → List Char
  | [] => []
  | (k, v) :: fs =>
    ',' :: (newline gap indent ++ quote k ++ colon gap ++ stringify gap indent v ++ stringifyFields gap indent fs)

end

/-! ## Reading -/

def isBlank (c : Char) : Bool := c == ' ' || c == '\n' || c == '\r' || c == '\t'

def skip (text : List Char) : List Char := text.dropWhile isBlank

def hexValue (c : Char) : Option Nat :=
  if c.isDigit then some (c.toNat - 48)
  else if 'a' ≤ c ∧ c ≤ 'f' then some (c.toNat - 87)
  else if 'A' ≤ c ∧ c ≤ 'F' then some (c.toNat - 55)
  else none

def hex4 (a b c d : Char) : Option Nat := do
  let a ← hexValue a
  let b ← hexValue b
  let c ← hexValue c
  let d ← hexValue d
  return ((a * 16 + b) * 16 + c) * 16 + d

/-- The second half of a surrogate pair. -/
def lowSurrogate (high : Nat) : List Char → Option (Char × List Char)
  | '\\' :: 'u' :: a :: b :: c :: d :: rest => do
    let low ← hex4 a b c d
    if 0xdc00 ≤ low ∧ low ≤ 0xdfff then some (Char.ofNat (0x10000 + (high - 0xd800) * 0x400 + (low - 0xdc00)), rest) else none
  | _ => none

/-- A character of a string, not its closing quote. -/
def readChar : List Char → Option (Char × List Char)
  | '\\' :: 'u' :: a :: b :: c :: d :: rest => do
    let n ← hex4 a b c d
    if 0xd800 ≤ n ∧ n ≤ 0xdbff then lowSurrogate n rest
    else if 0xdc00 ≤ n ∧ n ≤ 0xdfff then none
    else some (Char.ofNat n, rest)
  | '\\' :: 'b' :: rest => some ('\x08', rest)
  | '\\' :: 't' :: rest => some ('\t', rest)
  | '\\' :: 'n' :: rest => some ('\n', rest)
  | '\\' :: 'f' :: rest => some ('\x0c', rest)
  | '\\' :: 'r' :: rest => some ('\r', rest)
  | '\\' :: c :: rest => if c = '"' ∨ c = '\\' ∨ c = '/' then some (c, rest) else none
  | c :: rest => if c = '\\' ∨ c.toNat < 0x20 then none else some (c, rest)
  | [] => none

/-- A string after its opening quote. -/
def readString : Nat → List Char → Option (List Char × List Char)
  | _, '"' :: rest => some ([], rest)
  | 0, _ => none
  | fuel + 1, text => do
    let (c, rest) ← readChar text
    let (cs, rest) ← readString fuel rest
    return (c :: cs, rest)

def readStr (text : List Char) : Option (String × List Char) :=
  (readString text.length text).map fun (cs, rest) => (String.ofList cs, rest)

/-- An integer. No digit stands behind a leading zero. -/
def readNat (text : List Char) : Option (Nat × List Char) :=
  match text.takeWhile (·.isDigit) with
  | [] => none
  | '0' :: _ :: _ => none
  | digits =>
    match text.dropWhile (·.isDigit) with
    | '.' :: _ => none
    | 'e' :: _ => none
    | 'E' :: _ => none
    | rest => some (Nat.ofDigitChars 10 digits 0, rest)

def readNum : List Char → Option (JsonValue × List Char)
  | '-' :: rest => (readNat rest).map fun (n, rest) => (.num (-n), rest)
  | text => (readNat text).map fun (n, rest) => (.num n, rest)

mutual

/-- A value, with at most so many within each other or one after the other. -/
def readValue : Nat → List Char → Option (JsonValue × List Char)
  | 0, _ => none
  | fuel + 1, text =>
    match skip text with
    | '"' :: rest => (readStr rest).map fun (s, rest) => (.str s, rest)
    | '[' :: rest =>
      if (skip rest).head? = some ']' then some (.arr [], (skip rest).tail)
      else do
        let (v, rest) ← readValue fuel rest
        let (vs, rest) ← readItems fuel rest
        return (.arr (v :: vs), rest)
    | '{' :: rest =>
      if (skip rest).head? = some '}' then some (.obj [], (skip rest).tail)
      else do
        let (f, rest) ← readField fuel rest
        let (fs, rest) ← readFields fuel rest
        return (.obj (f :: fs), rest)
    | 'n' :: 'u' :: 'l' :: 'l' :: rest => some (.null, rest)
    | 't' :: 'r' :: 'u' :: 'e' :: rest => some (.bool true, rest)
    | 'f' :: 'a' :: 'l' :: 's' :: 'e' :: rest => some (.bool false, rest)
    | rest => readNum rest

def readField : Nat → List Char → Option ((String × JsonValue) × List Char)
  | 0, _ => none
  | fuel + 1, text =>
    match skip text with
    | '"' :: rest => do
      let (k, rest) ← readStr rest
      match skip rest with
      | ':' :: rest => do
        let (v, rest) ← readValue fuel rest
        return ((k, v), rest)
      | _ => none
    | _ => none

/-- The items after the first, and the bracket. -/
def readItems : Nat → List Char → Option (List JsonValue × List Char)
  | 0, _ => none
  | fuel + 1, text =>
    match skip text with
    | ']' :: rest => some ([], rest)
    | ',' :: rest => do
      let (v, rest) ← readValue fuel rest
      let (vs, rest) ← readItems fuel rest
      return (v :: vs, rest)
    | _ => none

def readFields : Nat → List Char → Option (List (String × JsonValue) × List Char)
  | 0, _ => none
  | fuel + 1, text =>
    match skip text with
    | '}' :: rest => some ([], rest)
    | ',' :: rest => do
      let (f, rest) ← readField fuel rest
      let (fs, rest) ← readFields fuel rest
      return (f :: fs, rest)
    | _ => none

end

/-- A whole text. -/
def parse (text : List Char) : Option JsonValue :=
  match readValue text.length text with
  | some (v, rest) => if skip rest = [] then some v else none
  | none => none

/-! ## What is written is read -/

variable {gap indent ws rest : List Char} {c : Char} {v : JsonValue} {fuel : Nat}

/-- White space. -/
def Blank (ws : List Char) : Prop := ∀ c ∈ ws, isBlank c = true

theorem blank_nil : Blank [] := fun _ hc => by cases hc

theorem Blank.append {xs ys : List Char} (hx : Blank xs) (hy : Blank ys) : Blank (xs ++ ys) := by
  intro c hc
  rcases List.mem_append.mp hc with hc | hc
  · exact hx c hc
  · exact hy c hc

theorem newline_blank (gap : List Char) (hindent : Blank indent) : Blank (newline gap indent) := by
  unfold newline
  split
  · intro c hc
    cases hc
  · intro c hc
    rcases List.mem_cons.mp hc with rfl | hc
    · rfl
    · exact hindent c hc

theorem skip_blank (h : Blank ws) (text : List Char) : skip (ws ++ text) = skip text := by
  induction ws with
  | nil => rfl
  | cons c ws ih =>
    rw [List.cons_append, skip, List.dropWhile_cons_of_pos (h c (List.mem_cons_self ..))]
    exact ih fun c hc => h c (List.mem_cons_of_mem _ hc)

theorem skip_cons (h : isBlank c = false) : skip (c :: rest) = c :: rest := List.dropWhile_cons_of_neg (by simp [h])

/-! ### Strings -/

theorem readChar_plain (hslash : c ≠ '\\') (hcontrol : ¬c.toNat < 0x20) : readChar (c :: rest) = some (c, rest) := by
  unfold readChar
  split
  all_goals simp_all

theorem hex_low : ∀ n < 32, hex4 '0' '0' (Nat.digitChar (n / 16)) (Nat.digitChar (n % 16)) = some n := by decide

theorem readChar_quoteChar (c : Char) (rest : List Char) : readChar (quoteChar c ++ rest) = some (c, rest) := by
  have hback : ∀ n, c.toNat = n → some (Char.ofNat n, rest) = some (c, rest) := by
    intro n h
    rw [← h, Char.ofNat_toNat]
  unfold quoteChar
  split
  · exact hback 0x08 ‹_›
  · exact hback 0x09 ‹_›
  · exact hback 0x0a ‹_›
  · exact hback 0x0c ‹_›
  · exact hback 0x0d ‹_›
  · exact hback 0x22 ‹_›
  · exact hback 0x5c ‹_›
  · rename_i hslash
    split
    · rename_i hcontrol
      refine Eq.trans ?_ (hback c.toNat rfl)
      show (hex4 '0' '0' _ _).bind _ = _
      rw [hex_low _ hcontrol]
      show (if 0xd800 ≤ c.toNat ∧ c.toNat ≤ 0xdbff then _ else if 0xdc00 ≤ c.toNat ∧ c.toNat ≤ 0xdfff then none else _) = _
      rw [if_neg (by omega), if_neg (by omega)]
      rfl
    · rename_i hcontrol
      exact readChar_plain (fun h => hslash (by rw [h]; rfl)) hcontrol

theorem quoteChar_head (c : Char) : ∃ d t, quoteChar c = d :: t ∧ d ≠ '"' := by
  unfold quoteChar
  split
  all_goals first | exact ⟨_, _, rfl, by decide⟩ | skip
  rename_i hquote _
  split
  · exact ⟨_, _, rfl, by decide⟩
  · exact ⟨c, [], rfl, fun h => hquote (by rw [h]; rfl)⟩

theorem readString_quoted (cs rest : List Char) (hfuel : cs.length ≤ fuel) :
    readString fuel (cs.flatMap quoteChar ++ '"' :: rest) = some (cs, rest) := by
  induction cs generalizing fuel with
  | nil =>
    rw [List.flatMap_nil, List.nil_append]
    unfold readString
    rfl
  | cons c cs ih =>
    obtain ⟨d, t, hd, hquote⟩ := quoteChar_head c
    cases fuel with
    | zero => cases hfuel
    | succ fuel =>
      have hread := readChar_quoteChar c (cs.flatMap quoteChar ++ '"' :: rest)
      have hrest : readString fuel (cs.flatMap quoteChar ++ '"' :: rest) = some (cs, rest) := ih (by simpa using hfuel)
      rw [List.flatMap_cons, List.append_assoc]
      rw [hd] at hread ⊢
      rw [List.cons_append] at hread ⊢
      unfold readString
      split
      · rename_i h
        exact absurd (List.cons.inj h).1 hquote
      · rename_i hzero _
        cases hzero
      · rename_i h _
        obtain rfl : fuel = _ := Nat.succ.inj h
        simp [hread, hrest]

theorem readStr_quote (s : String) (rest : List Char) : ∃ t, quote s ++ rest = '"' :: t ∧ readStr t = some (s, rest) := by
  refine ⟨s.toList.flatMap quoteChar ++ '"' :: rest, by simp [quote], ?_⟩
  have hlen : s.toList.length ≤ (s.toList.flatMap quoteChar).length := by
    induction s.toList with
    | nil => exact Nat.zero_le _
    | cons c cs ih =>
      obtain ⟨d, t, hd, -⟩ := quoteChar_head c
      rw [List.flatMap_cons, List.length_append, hd]
      simp only [List.length_cons]
      omega
  unfold readStr
  rw [readString_quoted s.toList rest (by rw [List.length_append]; omega)]
  show some (String.ofList s.toList, rest) = _
  rw [String.ofList_toList]

/-! ### Numbers -/

/-- What stands behind a number goes on none. -/
def Follows (rest : List Char) : Prop := ∀ c ∈ rest.head?, c.isDigit = false ∧ c ≠ '.' ∧ c ≠ 'e' ∧ c ≠ 'E'

theorem span_digits {digits : List Char} (hdigits : ∀ c ∈ digits, c.isDigit = true) (hrest : Follows rest) :
    (digits ++ rest).takeWhile (·.isDigit) = digits ∧ (digits ++ rest).dropWhile (·.isDigit) = rest := by
  rw [List.takeWhile_append_of_pos hdigits, List.dropWhile_append_of_pos hdigits]
  cases rest with
  | nil => exact ⟨List.append_nil _, rfl⟩
  | cons c rest =>
    have hc : ¬c.isDigit = true := by
      rw [(hrest c rfl).1]
      exact Bool.false_ne_true
    rw [List.takeWhile_cons_of_neg hc, List.dropWhile_cons_of_neg hc]
    exact ⟨List.append_nil _, rfl⟩

/-- No printed number but zero starts with one. -/
theorem toDigits_leading (n : Nat) (d : Char) (t : List Char) : Nat.toDigits 10 n ≠ '0' :: d :: t := by
  induction n using Nat.strongRecOn generalizing d t with
  | ind n ih =>
    intro h
    by_cases hn : n < 10
    · rw [Nat.toDigits_of_lt_base hn] at h
      exact absurd (List.cons.inj h).2.symm (List.cons_ne_nil _ _)
    · rw [Nat.toDigits_of_base_le (by decide) (by omega)] at h
      have hsmall : n / 10 < n := Nat.div_lt_self (by omega) (by decide)
      match htens : Nat.toDigits 10 (n / 10) with
      | [] => exact Nat.toDigits_ne_nil htens
      | [x] =>
        rw [htens] at h
        obtain rfl : x = '0' := (List.cons.inj h).1
        have : n / 10 = 0 := Decimal.toDigits_inj (htens.trans (Nat.toDigits_zero 10).symm)
        omega
      | x :: y :: ys =>
        rw [htens] at h
        obtain rfl : x = '0' := (List.cons.inj h).1
        exact ih _ hsmall y ys htens

theorem readNat_toDigits (n : Nat) (hrest : Follows rest) : readNat (Nat.toDigits 10 n ++ rest) = some (n, rest) := by
  have hdigits : ∀ c ∈ Nat.toDigits 10 n, c.isDigit = true := fun c hc => Nat.isDigit_of_mem_toDigits (by decide) (by decide) hc
  obtain ⟨htake, hdrop⟩ := span_digits hdigits hrest
  unfold readNat
  rw [htake, hdrop]
  split
  · exact absurd ‹_› Nat.toDigits_ne_nil
  · exact absurd ‹_› (toDigits_leading n _ _)
  · split
    · exact absurd rfl (hrest _ rfl).2.1
    · exact absurd rfl (hrest _ rfl).2.2.1
    · exact absurd rfl (hrest _ rfl).2.2.2
    · rw [Nat.ofDigitChars_ten_toDigits]

theorem readNum_repr (n : Int) (hrest : Follows rest) : readNum (n.repr.toList ++ rest) = some (.num n, rest) := by
  cases n with
  | ofNat m =>
    rw [Decimal.toList_ofNat]
    unfold readNum
    split
    · rename_i t h
      have hminus : '-' ∉ Nat.toDigits 10 m := Decimal.not_mem_toDigits (by decide) m
      match htext : Nat.toDigits 10 m with
      | [] => exact absurd htext Nat.toDigits_ne_nil
      | d :: ds =>
        rw [htext] at h hminus
        exact absurd (List.mem_cons_self ..) ((List.cons.inj h).1 ▸ hminus)
    · rw [readNat_toDigits m hrest]
      rfl
  | negSucc m =>
    rw [Decimal.toList_negSucc]
    show (readNat (Nat.toDigits 10 (m + 1) ++ rest)).map _ = _
    rw [readNat_toDigits (m + 1) hrest]
    rfl

/-- The text starts with a digit or a sign. -/
theorem repr_head (n : Int) : ∃ c t, n.repr.toList = c :: t ∧ (c.isDigit = true ∨ c = '-') := by
  cases n with
  | ofNat m =>
    rw [Decimal.toList_ofNat]
    match htext : Nat.toDigits 10 m with
    | [] => exact absurd htext Nat.toDigits_ne_nil
    | d :: ds =>
      refine ⟨d, ds, rfl, Or.inl ?_⟩
      exact Nat.isDigit_of_mem_toDigits (by decide) (by decide) (htext ▸ List.mem_cons_self ..)
  | negSucc m =>
    rw [Decimal.toList_negSucc]
    exact ⟨'-', _, rfl, Or.inr rfl⟩

/-! ### Values -/

/-- A character that a value starts with. -/
def Opens (c : Char) : Prop := c.isDigit = true ∨ c ∈ ['-', '"', '[', '{', 'n', 't', 'f']

theorem stringify_head (gap indent : List Char) (v : JsonValue) : ∃ c t, stringify gap indent v = c :: t ∧ Opens c := by
  cases v with
  | null => exact ⟨_, _, by rw [stringify], Or.inr (by decide)⟩
  | bool b => cases b <;> exact ⟨_, _, by rw [stringify], Or.inr (by decide)⟩
  | num n =>
    obtain ⟨c, t, ht, hc⟩ := repr_head n
    refine ⟨c, t, by rw [stringify, ht], hc.imp_right fun h => ?_⟩
    rw [h]
    decide
  | str s => exact ⟨_, _, by rw [stringify, quote], Or.inr (by decide)⟩
  | arr items => cases items <;> exact ⟨_, _, by rw [stringify], Or.inr (by decide)⟩
  | obj fields =>
    match fields with
    | [] => exact ⟨_, _, by rw [stringify], Or.inr (by decide)⟩
    | (k, v) :: fs => exact ⟨_, _, by rw [stringify], Or.inr (by decide)⟩

theorem Opens.ne {d : Char} (hc : Opens c) (hdigit : d.isDigit = false) (hd : d ∉ ['-', '"', '[', '{', 'n', 't', 'f']) : c ≠ d := by
  intro h
  rcases hc with hc | hc
  · rw [h, hdigit] at hc
    cases hc
  · exact hd (h ▸ hc)

theorem Opens.visible (hc : Opens c) : isBlank c = false := by
  unfold isBlank
  simp [hc.ne (d := ' ') rfl (by decide), hc.ne (d := '\n') rfl (by decide), hc.ne (d := '\r') rfl (by decide),
    hc.ne (d := '\t') rfl (by decide)]

theorem skip_stringify (hws : Blank ws) (gap indent : List Char) (v : JsonValue) :
    skip (ws ++ (stringify gap indent v ++ rest)) = stringify gap indent v ++ rest := by
  obtain ⟨c, t, ht, hc⟩ := stringify_head gap indent v
  rw [skip_blank hws, ht]
  exact skip_cons hc.visible

theorem follows_cons (hc : c.isDigit = false) (hne : c ∉ ['.', 'e', 'E']) : Follows (c :: rest) := by
  intro d hd
  obtain rfl : c = d := Option.some.inj hd
  refine ⟨hc, ?_, ?_, ?_⟩
  all_goals
    intro h
    subst h
    exact hne (by decide)

theorem follows_blank (hws : Blank ws) (hrest : Follows rest) : Follows (ws ++ rest) := by
  cases ws with
  | nil => exact hrest
  | cons c ws =>
    have hc := hws c (List.mem_cons_self ..)
    refine follows_cons ?_ ?_
    all_goals
      simp only [isBlank, Bool.or_eq_true, beq_iff_eq] at hc
      rcases hc with ((rfl | rfl) | rfl) | rfl
    all_goals decide

/-- A line ends, or a bracket. -/
theorem follows_end (gap indent rest : List Char) (hc : c = ']' ∨ c = '}') : Follows (newline gap indent ++ c :: rest) := by
  unfold newline
  split
  · rcases hc with rfl | rfl
    · exact follows_cons rfl (by decide)
    · exact follows_cons rfl (by decide)
  · exact follows_cons rfl (by decide)

theorem follows_items (gap indent : List Char) (vs : List JsonValue) (hrest : Follows rest) :
    Follows (stringifyItems gap indent vs ++ rest) := by
  cases vs with
  | nil =>
    rw [stringifyItems]
    exact hrest
  | cons v vs =>
    rw [stringifyItems]
    exact follows_cons rfl (by decide)

theorem follows_fields (gap indent : List Char) (fs : List (String × JsonValue)) (hrest : Follows rest) :
    Follows (stringifyFields gap indent fs ++ rest) := by
  match fs with
  | [] =>
    rw [stringifyFields]
    exact hrest
  | (k, v) :: fs =>
    rw [stringifyFields]
    exact follows_cons rfl (by decide)

/-- The reader is at a number. -/
theorem readValue_num (n : Int) (hws : Blank ws) (hrest : Follows rest) :
    readValue (fuel + 1) (ws ++ (n.repr.toList ++ rest)) = some (.num n, rest) := by
  obtain ⟨c, t, ht, hc⟩ := repr_head n
  have hopens : Opens c := hc.imp_right fun h => by rw [h]; decide
  have hne : ∀ d : Char, d.isDigit = false → d ≠ '-' → c ≠ d := by
    intro d hd hminus h
    rcases hc with hc | hc
    · rw [h, hd] at hc
      cases hc
    · exact hminus (h.symm.trans hc)
  rw [← readNum_repr n hrest, readValue, skip_blank hws, ht, List.cons_append, skip_cons hopens.visible]
  split
  all_goals first | rfl | (rename_i h; exact absurd (List.cons.inj h).1 (hne _ rfl (by decide)))

theorem readStr_skip (hws : Blank ws) (s : String) (rest : List Char) :
    ∃ t, skip (ws ++ (quote s ++ rest)) = '"' :: t ∧ readStr t = some (s, rest) := by
  obtain ⟨t, ht, hread⟩ := readStr_quote s rest
  refine ⟨t, ?_, hread⟩
  rw [skip_blank hws, ht]
  exact skip_cons rfl

theorem skip_colon (gap rest : List Char) : ∃ ws, Blank ws ∧ skip (colon gap ++ rest) = ':' :: (ws ++ rest) := by
  unfold colon
  split
  · exact ⟨[], by simp [Blank], skip_cons rfl⟩
  · exact ⟨[' '], by simp [Blank, isBlank], skip_cons rfl⟩

theorem readField_of (hws : Blank ws) (k : String)
    (hread : ∀ ws, Blank ws → readValue fuel (ws ++ (stringify gap indent v ++ rest)) = some (v, rest)) :
    readField (fuel + 1) (ws ++ (quote k ++ (colon gap ++ (stringify gap indent v ++ rest)))) = some ((k, v), rest) := by
  obtain ⟨t, ht, hk⟩ := readStr_skip hws k (colon gap ++ (stringify gap indent v ++ rest))
  obtain ⟨ws', hws', hcolon⟩ := skip_colon gap (stringify gap indent v ++ rest)
  rw [readField, ht]
  show (readStr t).bind _ = _
  rw [hk]
  show (match skip (colon gap ++ (stringify gap indent v ++ rest)) with | ':' :: rest => _ | _ => none) = _
  rw [hcolon]
  show (readValue fuel (ws' ++ (stringify gap indent v ++ rest))).bind _ = _
  rw [hread ws' hws']
  rfl

theorem stringify_pos (gap indent : List Char) (v : JsonValue) : 0 < (stringify gap indent v).length := by
  obtain ⟨c, t, ht, -⟩ := stringify_head gap indent v
  rw [ht]
  exact Nat.succ_pos _

theorem readValue_bracket {inner : List Char} (hws : Blank ws) (h : (skip inner).head? ≠ some ']') :
    readValue (fuel + 1) (ws ++ '[' :: inner) =
      (readValue fuel inner).bind fun p => (readItems fuel p.2).bind fun q => some (.arr (p.1 :: q.1), q.2) := by
  rw [readValue, skip_blank hws, skip_cons rfl]
  exact if_neg h

theorem readValue_brace {inner : List Char} (hws : Blank ws) (h : (skip inner).head? ≠ some '}') :
    readValue (fuel + 1) (ws ++ '{' :: inner) =
      (readField fuel inner).bind fun p => (readFields fuel p.2).bind fun q => some (.obj (p.1 :: q.1), q.2) := by
  rw [readValue, skip_blank hws, skip_cons rfl]
  exact if_neg h

/-- Items are there. -/
theorem head_stringify (hws : Blank ws) (gap indent : List Char) (v : JsonValue) :
    (skip (ws ++ (stringify gap indent v ++ rest))).head? ≠ some ']' := by
  obtain ⟨c, t, ht, hc⟩ := stringify_head gap indent v
  rw [skip_stringify hws, ht]
  intro h
  exact hc.ne rfl (by decide) (Option.some.inj h)

theorem head_quote (hws : Blank ws) (k : String) : (skip (ws ++ (quote k ++ rest))).head? ≠ some '}' := by
  obtain ⟨t, ht, -⟩ := readStr_skip hws k rest
  rw [ht]
  intro h
  cases h

mutual

theorem readValue_stringify {gap indent ws rest : List Char} (fuel : Nat) (hgap : Blank gap) (hindent : Blank indent) (v : JsonValue)
    (hws : Blank ws) (hrest : Follows rest) (hfuel : (stringify gap indent v).length ≤ fuel) :
    readValue fuel (ws ++ (stringify gap indent v ++ rest)) = some (v, rest) := by
  have hpos := stringify_pos gap indent v
  obtain ⟨n, hn⟩ : ∃ n, fuel = n + 1 := ⟨fuel - 1, by omega⟩
  have hin : Blank (indent ++ gap) := hindent.append hgap
  have hline : Blank (newline gap (indent ++ gap)) := newline_blank gap hin
  have hback : Blank (newline gap indent) := newline_blank gap hindent
  rw [hn]
  match v with
  | .null =>
    rw [readValue, skip_stringify hws, stringify]
    rfl
  | .bool true =>
    rw [readValue, skip_stringify hws, stringify]
    rfl
  | .bool false =>
    rw [readValue, skip_stringify hws, stringify]
    rfl
  | .num n =>
    rw [stringify]
    exact readValue_num n hws hrest
  | .str s =>
    obtain ⟨t, ht, hread⟩ := readStr_skip hws s rest
    rw [stringify, readValue, ht]
    show (readStr t).map _ = _
    rw [hread]
    rfl
  | .arr [] =>
    rw [readValue, skip_stringify hws, stringify]
    rfl
  | .arr (v :: vs) =>
    rw [stringify] at hfuel
    simp only [List.length_cons, List.length_append] at hfuel
    have hend := follows_end gap indent rest (Or.inl rfl)
    have hvalue := readValue_stringify n hgap hin v hline (follows_items gap (indent ++ gap) vs hend) (by omega)
    have hitems := readItems_stringify n rest hgap hin vs hback (by omega)
    simp only [stringify, List.cons_append, List.append_assoc, List.nil_append]
    rw [readValue_bracket hws (head_stringify hline gap (indent ++ gap) v), hvalue, Option.bind_some, hitems]
    rfl
  | .obj [] =>
    rw [readValue, skip_stringify hws, stringify]
    rfl
  | .obj ((k, v) :: fs) =>
    rw [stringify] at hfuel
    simp only [List.length_cons, List.length_append] at hfuel
    have hend := follows_end gap indent rest (Or.inr rfl)
    obtain ⟨m, hm⟩ : ∃ m, n = m + 1 := ⟨n - 1, by omega⟩
    have hvalue := fun ws (hws : Blank ws) =>
      readValue_stringify m hgap hin v hws (follows_fields gap (indent ++ gap) fs hend) (by omega)
    have hfields := readFields_stringify n rest hgap hin fs hback (by omega)
    simp only [stringify, List.cons_append, List.append_assoc, List.nil_append]
    rw [readValue_brace hws (head_quote hline k), hm, readField_of hline k hvalue, ← hm, Option.bind_some, hfields]
    rfl

theorem readItems_stringify {gap indent ws : List Char} (fuel : Nat) (rest : List Char) (hgap : Blank gap) (hindent : Blank indent)
    (vs : List JsonValue) (hws : Blank ws) (hfuel : (stringifyItems gap indent vs).length < fuel) :
    readItems fuel (stringifyItems gap indent vs ++ (ws ++ ']' :: rest)) = some (vs, rest) := by
  obtain ⟨n, hn⟩ : ∃ n, fuel = n + 1 := ⟨fuel - 1, by omega⟩
  rw [hn]
  match vs with
  | [] =>
    rw [stringifyItems, List.nil_append, readItems, skip_blank hws]
    rfl
  | v :: vs =>
    rw [stringifyItems] at hfuel
    simp only [List.length_cons, List.length_append] at hfuel
    have hnext : Follows (ws ++ ']' :: rest) := follows_blank hws (follows_cons rfl (by decide))
    have hvalue := readValue_stringify n hgap hindent v (newline_blank gap hindent)
      (follows_items gap indent vs hnext) (by omega)
    have hitems := readItems_stringify n rest hgap hindent vs hws (by omega)
    simp only [stringifyItems, List.cons_append, List.append_assoc]
    rw [readItems, skip_cons rfl]
    show (readValue n _).bind _ = _
    rw [hvalue]
    show (readItems n _).bind _ = _
    rw [hitems]
    rfl

theorem readFields_stringify {gap indent ws : List Char} (fuel : Nat) (rest : List Char) (hgap : Blank gap) (hindent : Blank indent)
    (fs : List (String × JsonValue)) (hws : Blank ws) (hfuel : (stringifyFields gap indent fs).length < fuel) :
    readFields fuel (stringifyFields gap indent fs ++ (ws ++ '}' :: rest)) = some (fs, rest) := by
  obtain ⟨n, hn⟩ : ∃ n, fuel = n + 1 := ⟨fuel - 1, by omega⟩
  rw [hn]
  match fs with
  | [] =>
    rw [stringifyFields, List.nil_append, readFields, skip_blank hws]
    rfl
  | (k, v) :: fs =>
    rw [stringifyFields] at hfuel
    simp only [List.length_cons, List.length_append] at hfuel
    have hnext : Follows (ws ++ '}' :: rest) := follows_blank hws (follows_cons rfl (by decide))
    obtain ⟨m, hm⟩ : ∃ m, n = m + 1 := ⟨n - 1, by omega⟩
    have hvalue := fun ws (hws : Blank ws) =>
      readValue_stringify m hgap hindent v hws (follows_fields gap indent fs hnext) (by omega)
    have hfields := readFields_stringify n rest hgap hindent fs hws (by omega)
    simp only [stringifyFields, List.cons_append, List.append_assoc]
    rw [readFields, skip_cons rfl]
    show (readField n _).bind _ = _
    rw [hm, readField_of (newline_blank gap hindent) k hvalue, ← hm]
    show (readFields n _).bind _ = _
    rw [hfields]
    rfl

end

/-- What is written is read as it was, also with white space behind it. -/
theorem parse_stringify (hgap : Blank gap) (hws : Blank ws) (v : JsonValue) : parse (stringify gap [] v ++ ws) = some v := by
  have hrest : Follows (ws ++ []) := follows_blank hws fun _ hc => by cases hc
  rw [List.append_nil] at hrest
  have hlen : (stringify gap [] v).length ≤ (stringify gap [] v ++ ws).length := by
    rw [List.length_append]
    omega
  have hread := readValue_stringify _ hgap blank_nil v blank_nil hrest hlen
  have hskip : skip ws = [] := by
    have := skip_blank hws []
    rwa [List.append_nil] at this
  unfold parse
  rw [List.nil_append] at hread
  rw [hread]
  exact if_pos hskip

/-! ## How the lines start -/

theorem quoteChar_line (c : Char) : '\n' ∉ quoteChar c := by
  have hdigit : ∀ n < 32, '\n' ∉ ['\\', 'u', '0', '0', Nat.digitChar (n / 16), Nat.digitChar (n % 16)] := by decide
  unfold quoteChar
  split
  all_goals first | decide | skip
  split
  · exact hdigit _ ‹_›
  · rename_i hcontrol
    intro h
    rw [← List.mem_singleton.mp h] at hcontrol
    exact hcontrol (by decide)

theorem quote_line (s : String) : '\n' ∉ quote s := by
  intro h
  rcases List.mem_cons.mp h with h | h
  · cases h
  · rcases List.mem_append.mp h with h | h
    · obtain ⟨c, -, hc⟩ := List.mem_flatMap.mp h
      exact quoteChar_line c hc
    · cases List.mem_singleton.mp h

/-- No line starts with a capital letter. -/
abbrev Small (text : List Char) : Prop := Fronts '\n' (fun c => c.isUpper = false) text

theorem small_all {text : List Char} (h : (text.all fun c => !c.isUpper) = true) : Small text :=
  Fronts.all fun c hc => Bool.not_eq_true' _ ▸ List.all_eq_true.mp h c hc

theorem small_quote (s : String) : Small (quote s) := by
  refine Fronts.free (fun c hc => ?_) (quote_line s)
  rw [← Option.some.inj hc]
  rfl

theorem small_blank (hws : Blank ws) : Small ws := by
  refine Fronts.all fun c hc => ?_
  have hblank := hws c hc
  simp only [isBlank, Bool.or_eq_true, beq_iff_eq] at hblank
  rcases hblank with ((rfl | rfl) | rfl) | rfl
  all_goals rfl

theorem not_upper_of_digit (h : c.isDigit = true) : c.isUpper = false := by
  simp only [Char.isDigit, Bool.and_eq_true, decide_eq_true_eq, ge_iff_le, UInt32.le_iff_toNat_le] at h
  refine decide_eq_false fun hupper => ?_
  have hlow : c.val.toNat ≤ 57 := h.2
  have hhigh : 65 ≤ c.val.toNat := UInt32.le_iff_toNat_le.mp hupper.1
  omega

theorem small_num (n : Int) : Small n.repr.toList := by
  refine Fronts.all fun c hc => ?_
  by_contra hupper
  have hdigit : c.isDigit = false := by
    cases h : c.isDigit with
    | false => rfl
    | true => exact absurd (not_upper_of_digit h) hupper
  refine Decimal.not_mem_repr hdigit (fun h => hupper ?_) n hc
  rw [h]
  rfl

theorem small_colon (gap : List Char) : Small (colon gap) := by
  unfold colon
  split
  · exact small_all rfl
  · exact small_all rfl

mutual

theorem small_stringify {gap indent : List Char} (hgap : Blank gap) (hindent : Blank indent) (v : JsonValue) :
    Small (stringify gap indent v) := by
  have hin : Blank (indent ++ gap) := hindent.append hgap
  have hline : Small (newline gap (indent ++ gap)) := small_blank (newline_blank gap hin)
  have hback : Small (newline gap indent) := small_blank (newline_blank gap hindent)
  match v with
  | .null =>
    rw [stringify]
    exact small_all rfl
  | .bool true =>
    rw [stringify]
    exact small_all rfl
  | .bool false =>
    rw [stringify]
    exact small_all rfl
  | .num n =>
    rw [stringify]
    exact small_num n
  | .str s =>
    rw [stringify]
    exact small_quote s
  | .arr [] =>
    rw [stringify]
    exact small_all rfl
  | .arr (v :: vs) =>
    have hopen : Small ['['] := small_all rfl
    have hclose : Small [']'] := small_all rfl
    rw [stringify]
    exact hopen.append ((((hline.append (small_stringify hgap hin v)).append (small_items hgap hin vs)).append hback).append hclose)
  | .obj [] =>
    rw [stringify]
    exact small_all rfl
  | .obj ((k, v) :: fs) =>
    have hopen : Small ['{'] := small_all rfl
    have hclose : Small ['}'] := small_all rfl
    have hfield := ((hline.append (small_quote k)).append (small_colon gap)).append (small_stringify hgap hin v)
    rw [stringify]
    exact hopen.append (((hfield.append (small_fields hgap hin fs)).append hback).append hclose)

theorem small_items {gap indent : List Char} (hgap : Blank gap) (hindent : Blank indent) (vs : List JsonValue) :
    Small (stringifyItems gap indent vs) := by
  match vs with
  | [] =>
    rw [stringifyItems]
    exact small_all rfl
  | v :: vs =>
    have hcomma : Small [','] := small_all rfl
    have hline : Small (newline gap indent) := small_blank (newline_blank gap hindent)
    rw [stringifyItems]
    exact hcomma.append ((hline.append (small_stringify hgap hindent v)).append (small_items hgap hindent vs))

theorem small_fields {gap indent : List Char} (hgap : Blank gap) (hindent : Blank indent) (fs : List (String × JsonValue)) :
    Small (stringifyFields gap indent fs) := by
  match fs with
  | [] =>
    rw [stringifyFields]
    exact small_all rfl
  | (k, v) :: fs =>
    have hcomma : Small [','] := small_all rfl
    have hline : Small (newline gap indent) := small_blank (newline_blank gap hindent)
    have hfield := ((hline.append (small_quote k)).append (small_colon gap)).append (small_stringify hgap hindent v)
    rw [stringifyFields]
    exact hcomma.append (hfield.append (small_fields hgap hindent fs))

end

end JsonValue

end LaunchPad.Lib
