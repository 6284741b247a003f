/-
  LaunchPad.Cli.Dotenv — reading a `.env` file (`config/dotenv.ts` `parseDotenv`): line by
  line, where a quoted value may run over several lines. The closing quote is looked for on
  each line, and the escapes are expanded afterwards in the lines joined with LF.

  A line ends with LF or CR LF everywhere, inside quotes too, so a CR LF between single
  quotes is read as LF. A file written with the documented escapes has no bare CR inside
  double quotes.

  Proved:
  - `parse_terminates`: on every text the loop is through after as many rounds as lines.
  - `escapes_lines`: in each line of an escaped value every backslash is followed by the
    character it escapes, and what is expanded is the value.
  - `dotenv_inverts`: a file of assignments, comments and blank lines gives its keys and
    values, in order, and no malformed line.
-/
import LaunchPad.Lib.Lines
import LaunchPad.Shared.Cron
import LaunchPad.Shared.Schema

namespace LaunchPad.Dotenv

open Lib

/-! ## Parsing -/

structure DotenvEntry where
  key : List Char
  value : List Char
  /-- Where the assignment began, from 1. -/
  line : Nat
  deriving DecidableEq, Repr

structure ParsedDotenv where
  entries : List DotenvEntry
  malformed : List Nat
  deriving DecidableEq, Repr

def trimStart (s : List Char) : List Char := s.dropWhile Cron.isSpace

def trimEnd (s : List Char) : List Char := (trimStart s.reverse).reverse

def trim (s : List Char) : List Char := trimEnd (trimStart s)

/-- `replace(/^export\s+/, "")`. -/
def dropExport (start : List Char) : List Char :=
  let rest := start.drop 6
  if start.take 6 = ['e', 'x', 'p', 'o', 'r', 't'] ∧ rest.head?.any Cron.isSpace then trimStart rest else start

/-- The next double quote that no backslash escapes. -/
def closingDouble : List Char → Option Nat
  | [] => none
  | ['\\'] => none
  | '\\' :: _ :: s => (closingDouble s).map (· + 2)
  | c :: s => if c = '"' then some 0 else (closingDouble s).map (· + 1)

def findClosingQuote (s : List Char) (quote : Char) : Option Nat :=
  if quote = '\'' then s.findIdx? (· = '\'') else closingDouble s

/-- What an escape stands for. -/
def unescaped : Char → Option Char
  | 'n' => some '\n'
  | 'r' => some '\r'
  | 't' => some '\t'
  | '"' => some '"'
  | '\\' => some '\\'
  | _ => none

/-- `replace(/\\([nrt"\\])/g, …)`. -/
def unescapeDouble : List Char → List Char
  | [] => []
  | '\\' :: c :: s =>
    match unescaped c with
    | some d => d :: unescapeDouble s
    | none => '\\' :: unescapeDouble (c :: s)
  | c :: s => c :: unescapeDouble s

/-- The segments up to the closing quote, whether there is one, and the lines after it. -/
def gather (quote : Char) (segment : List Char) (rest : List (List Char)) (collected : List (List Char)) :
    List (List Char) × Bool × List (List Char) :=
  match findClosingQuote segment quote with
  | some close => (collected ++ [segment.take close], true, rest)
  | none =>
    match rest with
    | [] => (collected ++ [segment], false, [])
    | next :: rest => gather quote next rest (collected ++ [segment])
termination_by structural rest

def ParsedDotenv.push (parsed : ParsedDotenv) (key value : List Char) (line : Nat) : ParsedDotenv :=
  { parsed with entries := parsed.entries ++ [⟨key, value, line⟩] }

def ParsedDotenv.flag (parsed : ParsedDotenv) (line : Nat) : ParsedDotenv :=
  { parsed with malformed := parsed.malformed ++ [line] }

/-- A value, its quotes included, and the lines it does not use. -/
def readValue (lineNo : Nat) (key valuePart : List Char) (rest : List (List Char)) (parsed : ParsedDotenv) :
    ParsedDotenv × List (List Char) :=
  match valuePart with
  | [] => (parsed.push key [] lineNo, rest)
  | quote :: segment =>
    if quote = '"' ∨ quote = '\'' then
      match gather quote segment rest [] with
      | (_, false, rest) => (parsed.flag lineNo, rest)
      | (collected, true, rest) =>
        let body := joinLines collected
        (parsed.push key (if quote = '"' then unescapeDouble body else body) lineNo, rest)
    else (parsed.push key (trimEnd valuePart) lineNo, rest)

/-- One round of the loop: a line, those after it, and what is left of them. -/
def readLine (lineNo : Nat) (line : List Char) (rest : List (List Char)) (parsed : ParsedDotenv) :
    ParsedDotenv × List (List Char) :=
  let start := trimStart line
  if start = [] ∨ start.head? = some '#' then (parsed, rest)
  else
    let assignment := dropExport start
    match assignment.findIdx? (· = '=') with
    | none => (parsed.flag lineNo, rest)
    | some eq =>
      -- no `=` and an empty key alike
      if eq = 0 then (parsed.flag lineNo, rest)
      else readValue lineNo (trim (assignment.take eq)) (trimStart (assignment.drop (eq + 1))) rest parsed

/-- The loop, for so many rounds; `none` if there is more to read. -/
def parseLines : Nat → List (List Char) → Nat → ParsedDotenv → Option ParsedDotenv
  | _, [], _, parsed => some parsed
  | 0, _ :: _, _, _ => none
  | rounds + 1, line :: rest, lineNo, parsed =>
    let read := readLine lineNo line rest parsed
    parseLines rounds read.2 (lineNo + (1 + rest.length - read.2.length)) read.1

def parseDotenv (content : List Char) : Option ParsedDotenv :=
  parseLines (splitLines content).length (splitLines content) 1 ⟨[], []⟩

theorem parseLines_cons (rounds : Nat) (line : List Char) (rest : List (List Char)) (lineNo : Nat) (parsed : ParsedDotenv) :
    parseLines (rounds + 1) (line :: rest) lineNo parsed =
      parseLines rounds (readLine lineNo line rest parsed).2
        (lineNo + (1 + rest.length - (readLine lineNo line rest parsed).2.length)) (readLine lineNo line rest parsed).1 := rfl

/-! ## Termination -/

theorem gather_rest (quote : Char) (segment : List Char) (rest collected : List (List Char)) :
    (gather quote segment rest collected).2.2.length ≤ rest.length := by
  induction rest generalizing segment collected with
  | nil =>
    unfold gather
    cases findClosingQuote segment quote <;> exact Nat.le_refl _
  | cons next rest ih =>
    unfold gather
    cases findClosingQuote segment quote with
    | some close => exact Nat.le_refl _
    | none => exact Nat.le_succ_of_le (ih next (collected ++ [segment]))

theorem readValue_rest (lineNo : Nat) (key valuePart : List Char) (rest : List (List Char)) (parsed : ParsedDotenv) :
    (readValue lineNo key valuePart rest parsed).2.length ≤ rest.length := by
  unfold readValue
  split
  · exact Nat.le_refl _
  · rename_i quote segment
    have hgather := gather_rest quote segment rest []
    split
    · split <;> rename_i h <;> rw [h] at hgather <;> exact hgather
    · exact Nat.le_refl _

/-- A round leaves no more lines than it was given. -/
theorem readLine_rest (lineNo : Nat) (line : List Char) (rest : List (List Char)) (parsed : ParsedDotenv) :
    (readLine lineNo line rest parsed).2.length ≤ rest.length := by
  unfold readLine
  dsimp only
  split
  · exact Nat.le_refl _
  · split
    · exact Nat.le_refl _
    · split
      · exact Nat.le_refl _
      · exact readValue_rest ..

/-- As many rounds as lines are enough, and more change nothing. -/
theorem parseLines_enough {rounds : Nat} {lines : List (List Char)} (h : lines.length ≤ rounds) (lineNo : Nat)
    (parsed : ParsedDotenv) :
    ∃ result, ∀ more, rounds ≤ more → parseLines more lines lineNo parsed = some result := by
  induction rounds generalizing lines lineNo parsed with
  | zero =>
    obtain rfl := List.length_eq_zero_iff.mp (Nat.le_zero.mp h)
    exact ⟨parsed, fun more _ => by cases more <;> rfl⟩
  | succ rounds ih =>
    cases lines with
    | nil => exact ⟨parsed, fun more _ => by cases more <;> rfl⟩
    | cons line rest =>
      have hrest := readLine_rest lineNo line rest parsed
      rw [List.length_cons] at h
      obtain ⟨result, hresult⟩ := ih (show (readLine lineNo line rest parsed).2.length ≤ rounds by omega)
        (lineNo + (1 + rest.length - (readLine lineNo line rest parsed).2.length)) (readLine lineNo line rest parsed).1
      refine ⟨result, fun more hmore => ?_⟩
      obtain ⟨more, rfl⟩ : ∃ n, more = n + 1 := ⟨more - 1, by omega⟩
      exact hresult more (by omega)

/-- Parsing is through after as many rounds as the text has lines. -/
theorem parse_terminates (content : List Char) :
    ∃ result, parseDotenv content = some result ∧
      ∀ rounds, (splitLines content).length ≤ rounds → parseLines rounds (splitLines content) 1 ⟨[], []⟩ = some result := by
  obtain ⟨result, h⟩ := parseLines_enough (Nat.le_refl (splitLines content).length) 1 ⟨[], []⟩
  exact ⟨result, h _ (Nat.le_refl _), h⟩

/-! ## Writing -/

/-- The escapes of double quotes: a character and what follows its backslash. -/
def escapes : List (Char × Char) := [('\n', 'n'), ('\r', 'r'), ('\t', 't'), ('"', '"'), ('\\', '\\')]

/-- A value written between double quotes. A line break may be escaped or left as it is;
    quotes, backslashes and CRs are escaped. -/
inductive Escapes : List Char → List Char → Prop
  | nil : Escapes [] []
  | escaped {c e : Char} {v body : List Char} : (c, e) ∈ escapes → Escapes v body → Escapes (c :: v) ('\\' :: e :: body)
  | raw {c : Char} {v body : List Char} : c ≠ '\\' → c ≠ '"' → c ≠ '\r' → c ≠ '\n' → Escapes v body → Escapes (c :: v) (c :: body)
  | lf {v body : List Char} : Escapes v body → Escapes ('\n' :: v) ('\n' :: body)
  | crlf {v body : List Char} : Escapes v body → Escapes ('\n' :: v) ('\r' :: '\n' :: body)

/-- A value with its quotes: the character, and what stands between. -/
inductive Quoted : List Char → Char → List Char → Prop
  | double {v body : List Char} : Escapes v body → Quoted v '"' body
  /-- Literally, each CR LF read as LF. -/
  | single {body : List Char} : '\'' ∉ body → Quoted (withLf body) '\'' body

/-- Without a CR LF single quotes are literal. -/
theorem Quoted.literal {body : List Char} (hquote : '\'' ∉ body) (hcrlf : ¬ ['\r', '\n'] <:+: body) : Quoted body '\'' body := by
  have h := Quoted.single hquote
  rwa [withLf_eq_self hcrlf] at h

/-- A blank line or a comment. -/
def Skipped (line : List Char) : Prop := '\n' ∉ line ∧ (trimStart line = [] ∨ (trimStart line).head? = some '#')

inductive LineEnd : List Char → Prop
  | lf : LineEnd ['\n']
  | crlf : LineEnd ['\r', '\n']

def assignment (key : String) (quote : Char) (body : List Char) : List Char := key.toList ++ '=' :: quote :: (body ++ [quote])

/-- A file with these keys and values, blank lines and comments in between. -/
inductive Renders : List (String × List Char) → List Char → Prop
  | nil : Renders [] []
  | lastSkipped {line : List Char} : Skipped line → Renders [] line
  | skipped {items : List (String × List Char)} {line sep text : List Char} :
      Skipped line → LineEnd sep → Renders items text → Renders items (line ++ (sep ++ text))
  | lastEntry {key : String} {v body : List Char} {quote : Char} :
      secretKeyMatches key = true → Quoted v quote body → Renders [(key, v)] (assignment key quote body)
  | entry {items : List (String × List Char)} {key : String} {v body sep text : List Char} {quote : Char} :
      secretKeyMatches key = true → Quoted v quote body → LineEnd sep → Renders items text →
        Renders ((key, v) :: items) (assignment key quote body ++ (sep ++ text))

/-- `\n`, `\r`, `\t`, `\\` and `\"` written as such. -/
def escapeDouble (v : List Char) : List Char :=
  v.flatMap fun c => match escapes.find? (·.1 = c) with
    | some (_, e) => ['\\', e]
    | none => [c]

/-- A value with every escape written out is one way to write it. -/
theorem escapes_escapeDouble (v : List Char) : Escapes v (escapeDouble v) := by
  induction v with
  | nil => exact .nil
  | cons c v ih =>
    unfold escapeDouble
    rw [List.flatMap_cons]
    cases h : escapes.find? (·.1 = c) with
    | some x =>
      obtain ⟨c', e⟩ := x
      have hc : c' = c := by simpa using List.find?_some h
      subst hc
      exact .escaped (List.mem_of_find?_eq_some h) ih
    | none =>
      have hnot : ∀ x ∈ escapes, x.1 ≠ c := fun x hx => by simpa using List.find?_eq_none.mp h x hx
      exact .raw (Ne.symm (hnot ('\\', '\\') (by decide))) (Ne.symm (hnot ('"', '"') (by decide)))
        (Ne.symm (hnot ('\r', 'r') (by decide))) (Ne.symm (hnot ('\n', 'n') (by decide))) ih

/-! ## The lines of a quoted value -/

/-- Every backslash is followed by what it escapes, and no quote is bare. -/
inductive Units : List Char → Prop
  | nil : Units []
  | plain {c : Char} {s : List Char} : c ≠ '\\' → c ≠ '"' → Units s → Units (c :: s)
  | pair {c : Char} {s : List Char} : Units s → Units ('\\' :: c :: s)

/-- No closing quote on the line, and one put after it is the first. -/
def Open (quote : Char) (s : List Char) : Prop :=
  findClosingQuote s quote = none ∧ findClosingQuote (s ++ [quote]) quote = some s.length

theorem Units.open {s : List Char} (h : Units s) : Open '"' s := by
  have hdouble : ∀ s, findClosingQuote s '"' = closingDouble s := fun s => if_neg (by decide)
  unfold Open
  rw [hdouble, hdouble]
  induction h with
  | nil => exact ⟨rfl, rfl⟩
  | plain hb hq _ ih =>
    rename_i c s _
    have hstep : ∀ t, closingDouble (c :: t) = (closingDouble t).map (· + 1) := by
      intro t
      rw [closingDouble.eq_4 _ _ (fun e _ => hb e) (fun _ _ e _ => hb e), if_neg hq]
    rw [List.cons_append, hstep, hstep, ih.1, ih.2]
    exact ⟨rfl, rfl⟩
  | pair _ ih =>
    rename_i c s _
    rw [List.cons_append, List.cons_append, closingDouble, closingDouble, ih.1, ih.2]
    exact ⟨rfl, rfl⟩

theorem single_open {s : List Char} (h : '\'' ∉ s) : Open '\'' s := by
  have hsingle : ∀ s, findClosingQuote s '\'' = s.findIdx? (· = '\'') := fun s => if_pos rfl
  have hnone : s.findIdx? (· = '\'') = none := by
    rw [List.findIdx?_eq_none_iff]
    intro c hc
    simpa using fun e : c = '\'' => h (e ▸ hc)
  unfold Open
  rw [hsingle, hsingle, List.findIdx?_append, hnone]
  exact ⟨rfl, by simp⟩

theorem splitLines_pair {e : Char} {body s : List Char} {ss : List (List Char)} (he : e ≠ '\n') (hr : e ≠ '\r')
    (h : splitLines body = s :: ss) : splitLines ('\\' :: e :: body) = ('\\' :: e :: s) :: ss := by
  rw [splitLines_plain (by decide) (by decide), splitLines_plain he hr, h]
  rfl

theorem escapes_plain {c e : Char} (h : (c, e) ∈ escapes) : e ≠ '\n' ∧ e ≠ '\r' ∧ unescaped e = some c := by
  simp only [escapes, List.mem_cons, Prod.mk.injEq, List.not_mem_nil, or_false] at h
  rcases h with ⟨rfl, rfl⟩ | ⟨rfl, rfl⟩ | ⟨rfl, rfl⟩ | ⟨rfl, rfl⟩ | ⟨rfl, rfl⟩ <;> exact ⟨by decide, by decide, rfl⟩

theorem unescapeDouble_plain {c : Char} (h : c ≠ '\\') (s : List Char) : unescapeDouble (c :: s) = c :: unescapeDouble s :=
  unescapeDouble.eq_3 _ _ fun _ _ e _ => h e

/-- What an escaped value is, line by line: no line has a bare quote or a backslash at its
    end, and joined and expanded they are the value. -/
theorem escapes_lines {v body : List Char} (h : Escapes v body) :
    ∃ s ss, splitLines body = s :: ss ∧ (∀ x ∈ s :: ss, Units x) ∧ unescapeDouble (joinLines (s :: ss)) = v := by
  induction h with
  | nil => exact ⟨[], [], rfl, by simp [Units.nil], rfl⟩
  | escaped he _ ih =>
    rename_i c e v body _
    obtain ⟨s, ss, hsplit, hunits, hv⟩ := ih
    obtain ⟨hn, hr, hc⟩ := escapes_plain he
    refine ⟨'\\' :: e :: s, ss, splitLines_pair hn hr hsplit, ?_, ?_⟩
    · rw [List.forall_mem_cons] at hunits ⊢
      exact ⟨.pair hunits.1, hunits.2⟩
    · have hjoin : joinLines (('\\' :: e :: s) :: ss) = '\\' :: e :: joinLines (s :: ss) := by cases ss <;> rfl
      rw [hjoin, unescapeDouble, hc, hv]
  | raw hb hq hr hn _ ih =>
    rename_i c v body _
    obtain ⟨s, ss, hsplit, hunits, hv⟩ := ih
    refine ⟨c :: s, ss, by rw [splitLines_plain hn hr, hsplit]; rfl, ?_, ?_⟩
    · rw [List.forall_mem_cons] at hunits ⊢
      exact ⟨.plain hb hq hunits.1, hunits.2⟩
    · have hjoin : joinLines ((c :: s) :: ss) = c :: joinLines (s :: ss) := by cases ss <;> rfl
      rw [hjoin, unescapeDouble_plain hb, hv]
  | lf _ ih =>
    obtain ⟨s, ss, hsplit, hunits, hv⟩ := ih
    refine ⟨[], s :: ss, by rw [splitLines_lf, hsplit], ?_, ?_⟩
    · rw [List.forall_mem_cons]
      exact ⟨.nil, hunits⟩
    · rw [joinLines_nil_cons (List.cons_ne_nil _ _), unescapeDouble_plain (by decide), hv]
  | crlf _ ih =>
    obtain ⟨s, ss, hsplit, hunits, hv⟩ := ih
    refine ⟨[], s :: ss, by rw [splitLines_crlf, hsplit], ?_, ?_⟩
    · rw [List.forall_mem_cons]
      exact ⟨.nil, hunits⟩
    · rw [joinLines_nil_cons (List.cons_ne_nil _ _), unescapeDouble_plain (by decide), hv]

/-- Of any quoted value: its lines are open, and joined they are read as the value. -/
theorem quoted_lines {v body : List Char} {quote : Char} (h : Quoted v quote body) :
    (quote = '"' ∨ quote = '\'') ∧ ∃ s ss, splitLines body = s :: ss ∧ (∀ x ∈ s :: ss, Open quote x) ∧
      (if quote = '"' then unescapeDouble (joinLines (s :: ss)) else joinLines (s :: ss)) = v := by
  cases h with
  | double h =>
    obtain ⟨s, ss, hsplit, hunits, hv⟩ := escapes_lines h
    exact ⟨.inl rfl, s, ss, hsplit, fun x hx => (hunits x hx).open, hv⟩
  | single h =>
    obtain ⟨s, ss, hsplit⟩ := List.exists_cons_of_ne_nil (splitLines_ne_nil body)
    refine ⟨.inr rfl, s, ss, hsplit, fun x hx => single_open fun hmem => ?_, ?_⟩
    · exact h (mem_of_mem_splitLines (hsplit ▸ hx) hmem)
    · rw [if_neg (by decide), ← hsplit, joinLines_splitLines]

/-- Over open lines the value is gathered up to the quote put after the last. -/
theorem gather_closed {quote : Char} (s : List Char) (ss more collected : List (List Char)) (h : ∀ x ∈ s :: ss, Open quote x)
    {first : List Char} {later : List (List Char)} (hlines : glue (s :: ss) ([quote] :: more) = first :: later) :
    gather quote first later collected = (collected ++ s :: ss, true, more) := by
  induction ss generalizing s collected first later with
  | nil =>
    cases hlines
    unfold gather
    rw [(h s (List.mem_cons_self ..)).2]
    simp
  | cons s' ss ih =>
    cases hlines
    obtain ⟨next, rest, hnext⟩ : ∃ n r, glue (s' :: ss) ([quote] :: more) = n :: r := by
      cases ss <;> exact ⟨_, _, rfl⟩
    have ih := ih s' (collected ++ [s]) (fun x hx => h x (List.mem_cons_of_mem _ hx)) hnext
    rw [hnext]
    unfold gather
    rw [(h s (List.mem_cons_self ..)).1]
    dsimp only
    rw [ih, List.append_assoc, List.singleton_append]

/-! ## One line of a file -/

/-- A key's characters are no space and end neither the key nor the line. -/
theorem key_plain {key : String} (h : secretKeyMatches key = true) {c : Char} (hc : c ∈ key.toList) :
    Cron.isSpace c = false ∧ c ≠ '=' ∧ c ≠ '\n' ∧ c ≠ '\r' := by
  have hrange : 48 ≤ c.toNat ∧ c.toNat ≤ 95 ∧ c.toNat ≠ 61 := by
    unfold secretKeyMatches at h
    cases hk : key.toList with
    | nil => rw [hk] at hc; cases hc
    | cons d ds =>
      rw [hk] at h hc
      simp only [Bool.and_eq_true, List.all_eq_true] at h
      have hclass : c.isUpper = true ∨ c.isDigit = true ∨ c = '_' := by
        rcases List.mem_cons.mp hc with rfl | hc
        · exact .inl h.1
        · have := h.2 c hc
          simpa [Bool.or_eq_true, or_assoc] using this
      rcases hclass with hupper | hdigit | rfl
      · have h1 : 65 ≤ c.toNat := (of_decide_eq_true hupper).1
        have h2 : c.toNat ≤ 90 := (of_decide_eq_true hupper).2
        omega
      · simp only [Char.isDigit, Bool.and_eq_true, decide_eq_true_eq] at hdigit
        have h1 : 48 ≤ c.toNat := hdigit.1
        have h2 : c.toNat ≤ 57 := hdigit.2
        omega
      · decide
  obtain ⟨hlow, hhigh, hne⟩ := hrange
  refine ⟨?_, ?_, ?_, ?_⟩
  · simp only [Cron.isSpace, Bool.or_eq_false_iff, Bool.and_eq_false_iff, decide_eq_false_iff_not, beq_eq_false_iff_ne]
    omega
  · rintro rfl
    exact hne rfl
  · rintro rfl
    exact absurd hlow (by decide)
  · rintro rfl
    exact absurd hlow (by decide)

theorem key_first {key : String} (h : secretKeyMatches key = true) :
    ∃ c cs, key.toList = c :: cs ∧ c ≠ '#' ∧ c ≠ 'e' ∧ Cron.isSpace c = false := by
  cases hk : key.toList with
  | nil => simp [secretKeyMatches, hk] at h
  | cons c cs =>
    refine ⟨c, cs, rfl, ?_, ?_, (key_plain h (hk ▸ List.mem_cons_self ..)).1⟩ <;>
      · rintro rfl
        simp [secretKeyMatches, hk] at h

theorem trimStart_plain {c : Char} (h : Cron.isSpace c = false) (s : List Char) : trimStart (c :: s) = c :: s := by
  simp [trimStart, h]

theorem mem_of_mem_trim {c : Char} {s : List Char} (h : c ∈ trim s) : c ∈ s := by
  have hstart : ∀ {t : List Char}, c ∈ trimStart t → c ∈ t := fun h => (List.dropWhile_sublist _).subset h
  exact hstart (List.mem_reverse.mp (hstart (List.mem_reverse.mp h)))

theorem trim_eq {s : List Char} (h : ∀ c ∈ s, Cron.isSpace c = false) : trim s = s := by
  have hall : ∀ {l : List Char}, (∀ c ∈ l, Cron.isSpace c = false) → trimStart l = l := by
    intro l hl
    cases l with
    | nil => rfl
    | cons c l => exact trimStart_plain (hl c (List.mem_cons_self ..)) l
  unfold trim trimEnd
  rw [hall h, hall fun c hc => h c (List.mem_reverse.mp hc), List.reverse_reverse]

theorem trim_key {key : String} (h : secretKeyMatches key = true) : trim key.toList = key.toList :=
  trim_eq fun _ hc => (key_plain h hc).1

theorem isSpace_quote {quote : Char} (h : quote = '"' ∨ quote = '\'') : Cron.isSpace quote = false := by
  rcases h with rfl | rfl <;> decide

/-- An assignment of a quoted value reads its key and what is gathered. -/
theorem readLine_assignment {key : String} {quote : Char} {first : List Char} {later collected more : List (List Char)}
    (hkey : secretKeyMatches key = true) (hquote : quote = '"' ∨ quote = '\'')
    (hgather : gather quote first later [] = (collected, true, more)) (lineNo : Nat) (parsed : ParsedDotenv) :
    readLine lineNo (key.toList ++ '=' :: quote :: first) later parsed =
      (parsed.push key.toList (if quote = '"' then unescapeDouble (joinLines collected) else joinLines collected) lineNo, more) := by
  obtain ⟨c, cs, hcs, hhash, he, hspace⟩ := key_first hkey
  have hstart : trimStart (key.toList ++ '=' :: quote :: first) = key.toList ++ '=' :: quote :: first := by
    rw [hcs]
    exact trimStart_plain hspace _
  have hcomment : ¬ (key.toList ++ '=' :: quote :: first = [] ∨ (key.toList ++ '=' :: quote :: first).head? = some '#') := by
    rw [hcs]
    simp [hhash]
  have hexport : dropExport (key.toList ++ '=' :: quote :: first) = key.toList ++ '=' :: quote :: first := by
    unfold dropExport
    rw [if_neg]
    rw [hcs]
    simp [he]
  have heq : (key.toList ++ '=' :: quote :: first).findIdx? (· = '=') = some key.toList.length := by
    have hnone : key.toList.findIdx? (· = '=') = none := by
      rw [List.findIdx?_eq_none_iff]
      intro x hx
      simpa using (key_plain hkey hx).2.1
    rw [List.findIdx?_append, hnone]
    simp [List.findIdx?_cons]
  have htake : (key.toList ++ '=' :: quote :: first).take key.toList.length = key.toList := List.take_left ..
  have hdrop : (key.toList ++ '=' :: quote :: first).drop (key.toList.length + 1) = quote :: first := by
    rw [List.drop_append]
    simp
  have hpos : key.toList.length = cs.length + 1 := by rw [hcs, List.length_cons]
  unfold readLine
  dsimp only
  rw [hstart, if_neg hcomment, hexport, heq]
  dsimp only
  rw [if_neg (by omega), htake, hdrop, trim_key hkey, trimStart_plain (isSpace_quote hquote)]
  unfold readValue
  dsimp only
  rw [if_pos hquote, hgather]

theorem readLine_skipped {line : List Char} (h : trimStart line = [] ∨ (trimStart line).head? = some '#') (lineNo : Nat)
    (rest : List (List Char)) (parsed : ParsedDotenv) : readLine lineNo line rest parsed = (parsed, rest) := if_pos h

/-- A blank line or a comment stays one without a CR at its end. -/
theorem skipped_dropLast {line : List Char} (h : trimStart line = [] ∨ (trimStart line).head? = some '#')
    (hlast : line.getLast? = some '\r') : trimStart line.dropLast = [] ∨ (trimStart line.dropLast).head? = some '#' := by
  obtain ⟨init, rfl⟩ := List.getLast?_eq_some_iff.mp hlast
  rw [List.dropLast_concat]
  have hcr : Cron.isSpace '\r' = true := rfl
  by_cases hinit : trimStart init = []
  · exact .inl hinit
  · have happend : trimStart (init ++ ['\r']) = trimStart init ++ ['\r'] := by
      unfold trimStart at hinit ⊢
      rw [List.dropWhile_append, if_neg (by simpa using hinit)]
    rw [happend] at h
    refine .inr ?_
    obtain ⟨c, cs, hcs⟩ := List.exists_cons_of_ne_nil hinit
    rw [hcs] at h ⊢
    simpa using h

/-! ## A file -/

theorem glue_length (s : List Char) (ss more : List (List Char)) (m : List Char) :
    (glue (s :: ss) (m :: more)).length = ss.length + 1 + more.length := by
  induction ss generalizing s with
  | nil =>
    simp only [glue, List.length_cons, List.length_nil]
    omega
  | cons s' ss ih =>
    rw [glue_cons (List.cons_ne_nil _ _), List.length_cons, ih, List.length_cons]
    omega

/-- An assignment and what follows its last quote, as lines: one round reads the
    assignment and leaves the rest. -/
theorem parse_assignment {key : String} {quote : Char} {v body tail : List Char} {more : List (List Char)}
    (hkey : secretKeyMatches key = true) (hvalue : Quoted v quote body) (htail : splitLines (quote :: tail) = [quote] :: more)
    {rounds : Nat} (hrounds : (splitLines (assignment key quote body ++ tail)).length ≤ rounds + 1) (lineNo : Nat)
    (parsed : ParsedDotenv) :
    more.length ≤ rounds ∧ ∃ next, parseLines (rounds + 1) (splitLines (assignment key quote body ++ tail)) lineNo parsed =
      parseLines rounds more next (parsed.push key.toList v lineNo) := by
  obtain ⟨hquote, s, ss, hsplit, hopen, hv⟩ := quoted_lines hvalue
  have hlf : quote ≠ '\n' := by rcases hquote with rfl | rfl <;> decide
  have hcr : quote ≠ '\r' := by rcases hquote with rfl | rfl <;> decide
  obtain ⟨first, later, hlines⟩ : ∃ first later, glue (s :: ss) ([quote] :: more) = first :: later := by
    cases ss <;> exact ⟨_, _, rfl⟩
  have hbody : splitLines (body ++ quote :: tail) = first :: later := by
    rw [splitLines_append hlf, hsplit, htail, hlines]
  have htext : splitLines (assignment key quote body ++ tail) = (key.toList ++ '=' :: quote :: first) :: later := by
    have hplain : ∀ c ∈ key.toList ++ ['=', quote], c ≠ '\n' ∧ c ≠ '\r' := by
      intro c hc
      rcases List.mem_append.mp hc with hc | hc
      · exact (key_plain hkey hc).2.2
      · rcases List.mem_cons.mp hc with rfl | hc
        · exact ⟨by decide, by decide⟩
        · obtain rfl := List.mem_singleton.mp hc
          exact ⟨hlf, hcr⟩
    have h := splitLines_prepend hplain hbody
    rw [List.append_assoc] at h
    unfold assignment
    rw [List.append_assoc, List.cons_append, List.cons_append, List.append_assoc]
    rw [List.append_assoc] at h
    exact h
  have hlater : more.length ≤ later.length := by
    have hlength := glue_length s ss more [quote]
    rw [hlines, List.length_cons] at hlength
    omega
  rw [htext] at hrounds ⊢
  rw [List.length_cons] at hrounds
  refine ⟨by omega, lineNo + (1 + later.length - more.length), ?_⟩
  have hread := readLine_assignment hkey hquote (gather_closed s ss more [] hopen hlines) lineNo parsed
  rw [List.nil_append, hv] at hread
  rw [parseLines_cons, hread]

/-- What a file of items adds to what is parsed already. -/
def Adds (items : List (String × List Char)) (parsed : ParsedDotenv) (result : Option ParsedDotenv) : Prop :=
  ∃ new : List DotenvEntry, result = some ⟨parsed.entries ++ new, parsed.malformed⟩ ∧
    new.map (fun e => (e.key, e.value)) = items.map fun i => (i.1.toList, i.2)

theorem Adds.push {items : List (String × List Char)} {parsed : ParsedDotenv} {result : Option ParsedDotenv} {key : String}
    {v : List Char} {line : Nat} (h : Adds items (parsed.push key.toList v line) result) :
    Adds ((key, v) :: items) parsed result := by
  obtain ⟨new, hresult, hnew⟩ := h
  refine ⟨⟨key.toList, v, line⟩ :: new, ?_, ?_⟩
  · rw [hresult]
    simp [ParsedDotenv.push]
  · rw [List.map_cons, List.map_cons, hnew]

theorem Adds.refl (parsed : ParsedDotenv) : Adds [] parsed (some parsed) := ⟨[], by simp, rfl⟩

theorem rounds_succ {line : List Char} {rest : List (List Char)} {rounds : Nat} (h : (line :: rest).length ≤ rounds) :
    ∃ n, rounds = n + 1 ∧ rest.length ≤ n := ⟨rounds - 1, by rw [List.length_cons] at h; omega, by rw [List.length_cons] at h; omega⟩

/-- A blank line or a comment adds nothing. -/
theorem parse_skipped {items : List (String × List Char)} {line : List Char} {rest : List (List Char)} {parsed : ParsedDotenv}
    (h : trimStart line = [] ∨ (trimStart line).head? = some '#') {rounds : Nat} (hrounds : (line :: rest).length ≤ rounds)
    (hrest : ∀ rounds lineNo, rest.length ≤ rounds → Adds items parsed (parseLines rounds rest lineNo parsed)) (lineNo : Nat) :
    Adds items parsed (parseLines rounds (line :: rest) lineNo parsed) := by
  obtain ⟨n, rfl, hn⟩ := rounds_succ hrounds
  rw [parseLines_cons, readLine_skipped h]
  exact hrest n _ hn

theorem adds_nothing (rounds lineNo : Nat) (parsed : ParsedDotenv) : Adds [] parsed (parseLines rounds [] lineNo parsed) := by
  cases rounds <;> exact .refl parsed

/-- The lines after a line end. -/
theorem splitLines_sep {line sep : List Char} (hline : Skipped line) (hsep : LineEnd sep) (text : List Char) :
    ∃ line', (trimStart line' = [] ∨ (trimStart line').head? = some '#') ∧
      splitLines (line ++ (sep ++ text)) = line' :: splitLines text := by
  cases hsep with
  | lf =>
    have hsplit := splitLines_line hline.1 text
    by_cases hlast : line.getLast? = some '\r'
    · rw [if_pos hlast] at hsplit
      exact ⟨line.dropLast, skipped_dropLast hline.2 hlast, hsplit⟩
    · rw [if_neg hlast] at hsplit
      exact ⟨line, hline.2, hsplit⟩
  | crlf =>
    have hcr : '\n' ∉ line ++ ['\r'] := by
      rw [List.mem_append, List.mem_singleton]
      exact not_or.mpr ⟨hline.1, by decide⟩
    have hsplit := splitLines_line hcr text
    rw [List.getLast?_concat, if_pos rfl, List.dropLast_concat, List.append_assoc] at hsplit
    exact ⟨line, hline.2, hsplit⟩

theorem splitLines_quote {quote : Char} (hlf : quote ≠ '\n') (hcr : quote ≠ '\r') {sep : List Char} (hsep : LineEnd sep)
    (text : List Char) : splitLines (quote :: (sep ++ text)) = [quote] :: splitLines text := by
  rw [splitLines_plain hlf hcr]
  cases hsep with
  | lf => rw [List.singleton_append, splitLines_lf]; rfl
  | crlf => rw [List.cons_append, List.singleton_append, splitLines_crlf]; rfl

theorem Quoted.plain {v body : List Char} {quote : Char} (h : Quoted v quote body) : quote ≠ '\n' ∧ quote ≠ '\r' := by
  cases h <;> exact ⟨by decide, by decide⟩

theorem parse_renders {items : List (String × List Char)} {text : List Char} (h : Renders items text) :
    ∀ rounds lineNo parsed, (splitLines text).length ≤ rounds →
      Adds items parsed (parseLines rounds (splitLines text) lineNo parsed) := by
  induction h with
  | nil =>
    intro rounds lineNo parsed hrounds
    exact parse_skipped (.inl rfl) hrounds (fun n l _ => adds_nothing n l parsed) lineNo
  | lastSkipped hline =>
    intro rounds lineNo parsed hrounds
    rw [splitLines_single hline.1] at hrounds ⊢
    exact parse_skipped hline.2 hrounds (fun n l _ => adds_nothing n l parsed) lineNo
  | skipped hline hsep _ ih =>
    intro rounds lineNo parsed hrounds
    obtain ⟨line', hline', hsplit⟩ := splitLines_sep hline hsep _
    rw [hsplit] at hrounds ⊢
    exact parse_skipped hline' hrounds (fun n l hn => ih n l parsed hn) lineNo
  | lastEntry hkey hvalue =>
    intro rounds lineNo parsed hrounds
    rename_i key v body quote
    obtain ⟨hlf, hcr⟩ := hvalue.plain
    have htail : splitLines [quote] = [quote] :: [] := by rw [splitLines_plain hlf hcr]; rfl
    rw [← List.append_nil (assignment key quote body)] at hrounds ⊢
    obtain ⟨line, rest, hlines⟩ := List.exists_cons_of_ne_nil (splitLines_ne_nil (assignment key quote body ++ []))
    obtain ⟨n, rfl, _⟩ := rounds_succ (hlines ▸ hrounds)
    obtain ⟨_, next, hparse⟩ := parse_assignment hkey hvalue htail hrounds lineNo parsed
    rw [hparse]
    exact (adds_nothing n next _).push
  | entry hkey hvalue hsep _ ih =>
    intro rounds lineNo parsed hrounds
    rename_i items key v body sep text quote _
    obtain ⟨hlf, hcr⟩ := hvalue.plain
    obtain ⟨line, rest, hlines⟩ := List.exists_cons_of_ne_nil (splitLines_ne_nil (assignment key quote body ++ (sep ++ text)))
    obtain ⟨n, rfl, _⟩ := rounds_succ (hlines ▸ hrounds)
    obtain ⟨hmore, next, hparse⟩ := parse_assignment hkey hvalue (splitLines_quote hlf hcr hsep text) hrounds lineNo parsed
    rw [hparse]
    exact (ih n next _ hmore).push

/-- Parsing gives back the keys and values a file was written from, in order, and flags no
    line; and it is through on every text. -/
theorem dotenv_inverts {items : List (String × List Char)} {text : List Char} (h : Renders items text) :
    (∃ parsed, parseDotenv text = some parsed ∧ parsed.malformed = [] ∧
      parsed.entries.map (fun e => (e.key, e.value)) = items.map fun i => (i.1.toList, i.2)) ∧
    ∀ content, ∃ parsed, parseDotenv content = some parsed := by
  obtain ⟨new, hparse, hnew⟩ := parse_renders h (splitLines text).length 1 ⟨[], []⟩ (Nat.le_refl _)
  refine ⟨⟨_, hparse, rfl, hnew⟩, fun content => ?_⟩
  obtain ⟨result, hresult, _⟩ := parse_terminates content
  exact ⟨result, hresult⟩

/-- A comment, and a value of two lines with a quote and a backslash in it. -/
theorem dotenv_inverts_two_lines :
    ∃ parsed, parseDotenv ("# key".toList ++ (['\r', '\n'] ++ assignment "KEY" '"' (escapeDouble "a\"\\\nb".toList))) = some parsed ∧
      parsed.entries.map (fun e => (e.key, e.value)) = [("KEY".toList, "a\"\\\nb".toList)] := by
  have hkey : secretKeyMatches "KEY" = true := rfl
  have hvalue : Quoted "a\"\\\nb".toList '"' (escapeDouble "a\"\\\nb".toList) := .double (escapes_escapeDouble _)
  have hcomment : Skipped "# key".toList := ⟨by decide, .inr (by decide)⟩
  obtain ⟨⟨parsed, hparse, _, hentries⟩, _⟩ := dotenv_inverts (.skipped hcomment .crlf (.lastEntry hkey hvalue))
  exact ⟨parsed, hparse, hentries⟩

/-- Between single quotes too a CR LF is read as LF. -/
theorem single_quoted_crlf :
    parseDotenv (assignment "KEY" '\'' "a\r\nb".toList) = some ⟨[⟨"KEY".toList, "a\nb".toList, 1⟩], []⟩ ∧
      "a\nb".toList ≠ "a\r\nb".toList := by
  constructor <;> decide

end LaunchPad.Dotenv
