/-
  LaunchPad.Lib.Utf8Lines — text lines as bytes and back: lossy UTF-8 decoding, and cutting
  a text after each separator.

  Decoding follows Rust's `String::from_utf8_lossy`: each longest run of bytes that begins a
  character and does not complete it becomes one U+FFFD.

  Proved:
  - `fromUtf8Lossy_encode`: the encoding of a text decodes to the text, and
    `encode_fromUtf8Lossy`: bytes that decode without a replacement are the encoding.
  - `splitInclusive_flatMap`: a text made of terminated lines is cut into them.
  - `utf8Encode_take`, `splitInclusive_open`: the front of a text of one-byte characters, and
    a text without a separator.
-/
import Mathlib.Data.List.Basic

namespace LaunchPad.Lib

/-! ## Lossy decoding -/

def utf8Encode (text : List Char) : List UInt8 := text.flatMap String.utf8EncodeChar

/-- The character that the bytes start with. -/
def utf8Front (bytes : List UInt8) : Option Char := (bytes.take 4).toByteArray.utf8DecodeChar? 0

def isTail (b : UInt8) : Bool := 0x80 ≤ b && b ≤ 0xBF

/-- The second bytes a three- or four-byte character may have after its first. -/
def secondOk (first second : UInt8) : Bool :=
  (first == 0xE0 && 0xA0 ≤ second && second ≤ 0xBF) ||
  (0xE1 ≤ first && first ≤ 0xEC && isTail second) ||
  (first == 0xED && 0x80 ≤ second && second ≤ 0x9F) ||
  (0xEE ≤ first && first ≤ 0xEF && isTail second) ||
  (first == 0xF0 && 0x90 ≤ second && second ≤ 0xBF) ||
  (0xF1 ≤ first && first ≤ 0xF3 && isTail second) ||
  (first == 0xF4 && 0x80 ≤ second && second ≤ 0x8F)

/-- How many bytes one U+FFFD stands for where no character starts. -/
def brokenLength : List UInt8 → Nat
  | first :: second :: third :: _ =>
    if secondOk first second then if 0xF0 ≤ first && isTail third then 3 else 2 else 1
  | [first, second] => if secondOk first second then 2 else 1
  | _ => 1

def decodeLossy : Nat → List UInt8 → List Char
  | _, [] => []
  | 0, _ => []
  | fuel + 1, bytes =>
    match utf8Front bytes with
    | some c => c :: decodeLossy fuel (bytes.drop c.utf8Size)
    | none => '\uFFFD' :: decodeLossy fuel (bytes.drop (brokenLength bytes))

/-- Every round takes a byte or more, so a round for each byte is enough. -/
def fromUtf8Lossy (bytes : List UInt8) : List Char := decodeLossy bytes.length bytes

@[simp] theorem utf8Encode_nil : utf8Encode [] = [] := rfl

theorem utf8Encode_cons (c : Char) (text : List Char) : utf8Encode (c :: text) = String.utf8EncodeChar c ++ utf8Encode text :=
  List.flatMap_cons

theorem utf8Encode_append (a b : List Char) : utf8Encode (a ++ b) = utf8Encode a ++ utf8Encode b :=
  List.flatMap_append

theorem utf8Front_encode (c : Char) (rest : List UInt8) : utf8Front (String.utf8EncodeChar c ++ rest) = some c := by
  have hsize : (String.utf8EncodeChar c).length ≤ 4 := by
    rw [String.length_utf8EncodeChar]
    exact c.utf8Size_le_four
  unfold utf8Front
  rw [List.take_append, List.take_of_length_le hsize, List.toByteArray_append]
  exact ByteArray.utf8DecodeChar?_utf8EncodeChar_append

theorem decodeLossy_encode {fuel : Nat} {text : List Char} (h : (utf8Encode text).length ≤ fuel) :
    decodeLossy fuel (utf8Encode text) = text := by
  induction text generalizing fuel with
  | nil => cases fuel <;> rfl
  | cons c text ih =>
    have hpos := c.utf8Size_pos
    rw [utf8Encode_cons, List.length_append, String.length_utf8EncodeChar] at h
    obtain ⟨fuel, rfl⟩ : ∃ n, fuel = n + 1 := ⟨fuel - 1, by omega⟩
    rw [utf8Encode_cons]
    obtain ⟨b, bytes, hb⟩ := List.exists_cons_of_ne_nil (String.utf8EncodeChar_ne_nil (c := c))
    have hfront := utf8Front_encode c (utf8Encode text)
    have hdrop : (String.utf8EncodeChar c ++ utf8Encode text).drop c.utf8Size = utf8Encode text := by
      rw [← String.length_utf8EncodeChar, List.drop_left]
    rw [hb] at hfront hdrop ⊢
    simp only [List.cons_append] at hfront hdrop ⊢
    simp only [decodeLossy, hfront, hdrop]
    rw [ih (by omega)]

theorem fromUtf8Lossy_encode (text : List Char) : fromUtf8Lossy (utf8Encode text) = text :=
  decodeLossy_encode (Nat.le_refl _)

/-- The character in front, and what comes after it. -/
theorem utf8Front_some {bytes : List UInt8} {c : Char} (h : utf8Front bytes = some c) :
    ∃ rest, bytes = String.utf8EncodeChar c ++ rest := by
  unfold utf8Front at h
  obtain ⟨l, hl⟩ := ByteArray.exists_of_utf8DecodeChar?_eq_some h
  have hlist := congrArg ByteArray.data hl
  simp only [List.data_toByteArray, ByteArray.data_append] at hlist
  have hfour : bytes.take 4 = String.utf8EncodeChar c ++ l.data.toList := by
    have htolist := congrArg Array.toList hlist
    simpa [List.utf8Encode_singleton] using htolist
  refine ⟨l.data.toList ++ bytes.drop 4, ?_⟩
  rw [← List.append_assoc, ← hfour, List.take_append_drop]

theorem encode_decodeLossy {fuel : Nat} {bytes : List UInt8} (hfuel : bytes.length ≤ fuel)
    (h : '\uFFFD' ∉ decodeLossy fuel bytes) : utf8Encode (decodeLossy fuel bytes) = bytes := by
  induction fuel generalizing bytes with
  | zero =>
    rw [List.length_eq_zero_iff.mp (Nat.le_zero.mp hfuel)]
    rfl
  | succ fuel ih =>
    cases bytes with
    | nil => rfl
    | cons b bytes =>
      rw [decodeLossy] at h ⊢
      · cases hfront : utf8Front (b :: bytes) with
        | none =>
          rw [hfront] at h
          exact absurd (List.mem_cons_self ..) h
        | some c =>
          rw [hfront] at h
          obtain ⟨rest, hrest⟩ := utf8Front_some hfront
          have hdrop : (b :: bytes).drop c.utf8Size = rest := by
            rw [hrest, ← String.length_utf8EncodeChar, List.drop_left]
          have hlength : rest.length ≤ fuel := by
            have hpos := c.utf8Size_pos
            have hsum := congrArg List.length hrest
            rw [List.length_append, String.length_utf8EncodeChar] at hsum
            omega
          dsimp only at h ⊢
          rw [hdrop] at h ⊢
          rw [List.mem_cons, not_or] at h
          rw [utf8Encode_cons, ih hlength h.2, ← hrest]
      all_goals simp

/-- Bytes that decode without a replacement are the encoding of what they decode to. -/
theorem encode_fromUtf8Lossy {bytes : List UInt8} (h : '\uFFFD' ∉ fromUtf8Lossy bytes) :
    utf8Encode (fromUtf8Lossy bytes) = bytes := encode_decodeLossy (Nat.le_refl _) h

theorem length_le_utf8Encode (text : List Char) : text.length ≤ (utf8Encode text).length := by
  induction text with
  | nil => exact Nat.le_refl _
  | cons c text ih =>
    have := c.utf8Size_pos
    rw [utf8Encode_cons, List.length_append, String.length_utf8EncodeChar, List.length_cons]
    omega

/-- Of one-byte characters, as many bytes as characters. -/
theorem utf8Encode_take {text : List Char} (h : ∀ c ∈ text, c.utf8Size = 1) {n : Nat} (hn : n ≤ text.length) (rest : List Char) :
    (utf8Encode (text ++ rest)).take n = utf8Encode (text.take n) := by
  induction text generalizing n with
  | nil =>
    rw [Nat.le_zero.mp hn]
    rfl
  | cons c text ih =>
    cases n with
    | zero => rfl
    | succ n =>
      rw [List.length_cons, Nat.succ_le_succ_iff] at hn
      rw [List.cons_append, utf8Encode_cons, String.utf8EncodeChar_eq_singleton (h c (List.mem_cons_self ..)),
        List.singleton_append, List.take_succ_cons, ih (fun d hd => h d (List.mem_cons_of_mem _ hd)) hn,
        List.take_succ_cons, utf8Encode_cons, String.utf8EncodeChar_eq_singleton (h c (List.mem_cons_self ..)),
        List.singleton_append]

/-! ## Lines -/

/-- Rust's `split_inclusive`: the pieces of a text, each with the separator that ends it. -/
def splitInclusive (sep : Char) : List Char → List (List Char)
  | [] => []
  | c :: text =>
    if c = sep then [c] :: splitInclusive sep text
    else
      match splitInclusive sep text with
      | [] => [[c]]
      | piece :: pieces => (c :: piece) :: pieces

theorem splitInclusive_line {sep : Char} {line : List Char} (h : sep ∉ line) (rest : List Char) :
    splitInclusive sep (line ++ sep :: rest) = (line ++ [sep]) :: splitInclusive sep rest := by
  induction line with
  | nil => simp [splitInclusive]
  | cons c line ih =>
    rw [List.mem_cons, not_or] at h
    simp [splitInclusive, Ne.symm h.1, ih h.2]

theorem splitInclusive_open {sep : Char} {text : List Char} (h : sep ∉ text) (hne : text ≠ []) :
    splitInclusive sep text = [text] := by
  induction text with
  | nil => exact absurd rfl hne
  | cons c text ih =>
    rw [List.mem_cons, not_or] at h
    cases text with
    | nil => simp [splitInclusive, Ne.symm h.1]
    | cons d text => rw [splitInclusive, if_neg (Ne.symm h.1), ih h.2 (List.cons_ne_nil d text)]

/-- The pieces make up the text. -/
theorem flatten_splitInclusive (sep : Char) (text : List Char) : (splitInclusive sep text).flatten = text := by
  induction text with
  | nil => rfl
  | cons c text ih =>
    rw [splitInclusive]
    by_cases hc : c = sep
    · rw [if_pos hc, List.flatten_cons, ih, List.singleton_append]
    · rw [if_neg hc]
      cases hs : splitInclusive sep text with
      | nil =>
        rw [hs] at ih
        simp [← ih]
      | cons piece pieces =>
        rw [hs] at ih
        rw [← ih]
        simp

theorem splitInclusive_flatMap {sep : Char} {lines : List (List Char)} (h : ∀ l ∈ lines, sep ∉ l) :
    splitInclusive sep (lines.flatMap fun l => l ++ [sep]) = lines.map fun l => l ++ [sep] := by
  induction lines with
  | nil => rfl
  | cons l lines ih =>
    rw [List.flatMap_cons, List.append_assoc, List.singleton_append,
      splitInclusive_line (h l (List.mem_cons_self ..)), ih fun k hk => h k (List.mem_cons_of_mem _ hk), List.map_cons]

end LaunchPad.Lib
