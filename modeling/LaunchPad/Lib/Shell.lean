/-
  LaunchPad.Lib.Shell — shell scripts as a POSIX shell reads them: words with their quotes,
  comments, operators, and here-documents. What words expand to is left open: a character
  keeps how it was quoted, and a quoted one stands for itself (but for `$`, a backquote and
  a backslash between double quotes).

  The reader takes one character at a time, so a text put together of parts is read part by
  part. Left out: `<<-`, here-documents that begin within `$( )`, and NUL, which a shell drops.

  Proved:
  - `run_append`: a text is read as its parts are, one from where the other ended.
  - `read_quoted`: between single quotes, with each quote of its own written around, a text
    is one word that stands for itself, whatever it is.
  - `read_ended`: a here-document is its text, if no line of it is the delimiter.
  - `calm_quiet`: lines without quotes and `<` are read on their own, and write no file.
  - `read_parts`, `files_parts`, `shape_eq`: a script put together of given lines, lines with
    a quoted text and here-documents is read as these, writes their files, and its commands
    do not depend on the values.
-/
import LaunchPad.Lib.Split

namespace LaunchPad.Lib.Shell

/-! ## Reading -/

inductive Guard
  | bare
  | soft
  | hard
  deriving DecidableEq, Repr

/-- A character of a word, and how it is quoted. -/
structure Glyph where
  char : Char
  guard : Guard
  deriving DecidableEq, Repr

abbrev Word := List Glyph

inductive Token
  | word (w : Word)
  /-- A character of an operator. -/
  | op (c : Char)
  | newline
  /-- A here-document; one whose delimiter is not quoted is expanded. -/
  | doc (quoted : Bool) (body : List Char)
  deriving DecidableEq, Repr

inductive Mode
  | gap
  | comment
  | bare (w : Word)
  | single (w : Word)
  | double (w : Word)
  | escape (w : Word)
  | softEscape (w : Word)
  | doc (quoted : Bool) (delimiter body line : List Char)
  deriving DecidableEq, Repr

/-- Where the reader is, with the `<` just before and the here-documents that follow the line. -/
structure Reader where
  mode : Mode := .gap
  angles : Nat := 0
  docs : List (Bool × List Char) := []
  deriving DecidableEq, Repr

def isOperator (c : Char) : Bool := c == ';' || c == '&' || c == '|' || c == '<' || c == '>' || c == '(' || c == ')'

def isBlank (c : Char) : Bool := c == ' ' || c == '\t'

def chars (w : Word) : List Char := w.map (·.char)

/-- The word is done. After `<<` it is the delimiter of a here-document. -/
def Reader.finish (r : Reader) (w : Word) : Reader × List Token :=
  (⟨.gap, 0, if r.angles = 2 then r.docs ++ [(w.any (·.guard != .bare), chars w)] else r.docs⟩, [.word w])

/-- The next here-document, or the next line. -/
def Reader.nextDoc (r : Reader) : Reader :=
  match r.docs with
  | [] => ⟨.gap, 0, []⟩
  | (quoted, delimiter) :: docs => ⟨.doc quoted delimiter [] [], 0, docs⟩

/-- A character outside of words. -/
def Reader.outside (r : Reader) (c : Char) : Reader × List Token :=
  if isBlank c then ({ r with mode := .gap }, [])
  else if c = '\n' then (r.nextDoc, [.newline])
  else if isOperator c then (⟨.gap, if c = '<' then r.angles + 1 else 0, r.docs⟩, [.op c])
  else if c = '#' then ({ r with mode := .comment }, [])
  else if c = '\'' then ({ r with mode := .single [] }, [])
  else if c = '"' then ({ r with mode := .double [] }, [])
  else if c = '\\' then ({ r with mode := .escape [] }, [])
  else ({ r with mode := .bare [⟨c, .bare⟩] }, [])

def isSoftEscaped (c : Char) : Bool := c == '$' || c == '\x60' || c == '"' || c == '\\'

def Reader.step (r : Reader) (c : Char) : Reader × List Token :=
  match r.mode with
  | .gap => r.outside c
  | .comment => if c = '\n' then r.outside c else (r, [])
  | .bare w =>
    if isBlank c || c = '\n' || isOperator c then
      let (r', done) := r.finish w
      let (r'', more) := r'.outside c
      (r'', done ++ more)
    else if c = '\'' then ({ r with mode := .single w }, [])
    else if c = '"' then ({ r with mode := .double w }, [])
    else if c = '\\' then ({ r with mode := .escape w }, [])
    else ({ r with mode := .bare (w ++ [⟨c, .bare⟩]) }, [])
  | .single w => if c = '\'' then ({ r with mode := .bare w }, []) else ({ r with mode := .single (w ++ [⟨c, .hard⟩]) }, [])
  | .double w =>
    if c = '"' then ({ r with mode := .bare w }, [])
    else if c = '\\' then ({ r with mode := .softEscape w }, [])
    else ({ r with mode := .double (w ++ [⟨c, .soft⟩]) }, [])
  | .escape w =>
    if c = '\n' then ({ r with mode := if w = [] then .gap else .bare w }, [])
    else ({ r with mode := .bare (w ++ [⟨c, .hard⟩]) }, [])
  | .softEscape w =>
    if c = '\n' then ({ r with mode := .double w }, [])
    else if isSoftEscaped c then ({ r with mode := .double (w ++ [⟨c, .hard⟩]) }, [])
    else ({ r with mode := .double (w ++ [⟨'\\', .soft⟩, ⟨c, .soft⟩]) }, [])
  | .doc quoted delimiter body line =>
    if c = '\n' then
      if line = delimiter then (r.nextDoc, [.doc quoted body])
      else ({ r with mode := .doc quoted delimiter (body ++ line ++ ['\n']) [] }, [])
    else ({ r with mode := .doc quoted delimiter body (line ++ [c]) }, [])

/-- A text is read, from where the reader is. -/
def Reader.run (r : Reader) : List Char → Reader × List Token
  | [] => (r, [])
  | c :: cs =>
    let (r', done) := r.step c
    let (r'', more) := r'.run cs
    (r'', done ++ more)

/-- The tokens of a script that is whole. -/
def read (script : List Char) : Option (List Token) :=
  match Reader.run {} script with
  | (⟨.gap, _, []⟩, tokens) => some tokens
  | _ => none

/-! ## Parts -/

variable {r r' r'' : Reader} {c : Char} {xs ys : List Char} {w : Word} {docs : List (Bool × List Char)} {angles : Nat}

theorem run_append (r : Reader) (xs ys : List Char) :
    r.run (xs ++ ys) = (((r.run xs).1.run ys).1, (r.run xs).2 ++ ((r.run xs).1.run ys).2) := by
  induction xs generalizing r with
  | nil => rfl
  | cons c xs ih =>
    simp only [List.cons_append, Reader.run, ih, List.append_assoc]

/-- The reader goes through the text and says those tokens. -/
def Reads (r : Reader) (text : List Char) (r' : Reader) (tokens : List Token) : Prop := r.run text = (r', tokens)

theorem Reads.nil (r : Reader) : Reads r [] r [] := rfl

theorem Reads.trans {ts us : List Token} (h : Reads r xs r' ts) (h' : Reads r' ys r'' us) : Reads r (xs ++ ys) r'' (ts ++ us) := by
  unfold Reads at h h' ⊢
  rw [run_append, h, h']

theorem Reads.step {ts us : List Token} (h : r.step c = (r', ts)) (h' : Reads r' xs r'' us) : Reads r (c :: xs) r'' (ts ++ us) := by
  unfold Reads at h' ⊢
  rw [Reader.run, h]
  dsimp only
  rw [h']

theorem Reads.one {ts : List Token} (h : r.step c = (r', ts)) : Reads r [c] r' ts := by
  have := Reads.step h (Reads.nil r')
  rwa [List.append_nil] at this

theorem read_of {script : List Char} {ts : List Token} (h : Reads {} script {} ts) : read script = some ts := by
  unfold read
  rw [h]

/-! ## Quotes -/

/-- The character stands for itself. -/
def Glyph.literal (g : Glyph) : Bool :=
  match g.guard with
  | .hard => true
  | .soft => !isSoftEscaped g.char
  | .bare => false

/-- The word stands for the text, whatever the shell expands. -/
def Literal (w : Word) (text : List Char) : Prop := chars w = text ∧ ∀ g ∈ w, g.literal = true

theorem Literal.append {v : Word} (hw : Literal w xs) (hv : Literal v ys) : Literal (w ++ v) (xs ++ ys) := by
  refine ⟨?_, fun g hg => ?_⟩
  · rw [← hw.1, ← hv.1]
    exact List.map_append
  · rcases List.mem_append.mp hg with hg | hg
    · exact hw.2 g hg
    · exact hv.2 g hg

/-- How a single quote is written within single quotes: by leaving them. -/
def Leaves (around : List Char) (g : Glyph) : Prop :=
  ∀ (w : Word) (angles : Nat) (docs : List (Bool × List Char)), Reads ⟨.single w, angles, docs⟩ around ⟨.single (w ++ [g]), angles, docs⟩ []

/-- The text between single quotes. -/
def quoted (around : List Char) (text : List Char) : List Char :=
  '\'' :: (text.flatMap fun c => if c = '\'' then around else [c]) ++ ['\'']

/-- What is read of it. -/
def glyphs (g : Glyph) (text : List Char) : Word := text.map fun c => if c = '\'' then g else ⟨c, .hard⟩

theorem glyphs_literal {g : Glyph} (hg : g.literal = true) (hc : g.char = '\'') (text : List Char) : Literal (glyphs g text) text := by
  refine ⟨?_, fun h hmem => ?_⟩
  · unfold chars glyphs
    rw [List.map_map]
    conv => rhs; rw [← List.map_id text]
    refine List.map_congr_left fun c _ => ?_
    dsimp only [Function.comp]
    split
    · rename_i hq
      rw [hq]
      exact hc
    · rfl
  · obtain ⟨c, -, rfl⟩ := List.mem_map.mp hmem
    split
    · exact hg
    · rfl

variable {around : List Char} {g : Glyph}

theorem read_inner (ha : Leaves around g) (text : List Char) (w : Word) :
    Reads ⟨.single w, angles, docs⟩ (text.flatMap fun c => if c = '\'' then around else [c])
      ⟨.single (w ++ glyphs g text), angles, docs⟩ [] := by
  induction text generalizing w with
  | nil =>
    rw [show glyphs g [] = [] from rfl, List.append_nil]
    exact Reads.nil _
  | cons c text ih =>
    rw [List.flatMap_cons]
    have hrest := ih (w ++ glyphs g [c])
    rw [List.append_assoc] at hrest
    have hfirst : Reads ⟨.single w, angles, docs⟩ (if c = '\'' then around else [c]) ⟨.single (w ++ glyphs g [c]), angles, docs⟩ [] := by
      by_cases hc : c = '\''
      · rw [if_pos hc, show glyphs g [c] = [g] by simp [glyphs, hc]]
        exact ha w angles docs
      · rw [if_neg hc, show glyphs g [c] = [⟨c, .hard⟩] by simp [glyphs, hc]]
        refine Reads.one ?_
        simp [Reader.step, hc]
    exact hfirst.trans hrest

/-- A quoted text goes on the word before it. -/
theorem read_quoted_bare (ha : Leaves around g) (text : List Char) (w : Word) :
    Reads ⟨.bare w, angles, docs⟩ (quoted around text) ⟨.bare (w ++ glyphs g text), angles, docs⟩ [] := by
  unfold quoted
  have hopen : Reader.step ⟨.bare w, angles, docs⟩ '\'' = (⟨.single w, angles, docs⟩, []) := rfl
  have hclose : Reader.step ⟨.single (w ++ glyphs g text), angles, docs⟩ '\'' = (⟨.bare (w ++ glyphs g text), angles, docs⟩, []) := rfl
  exact Reads.step hopen ((read_inner ha text w).trans (Reads.one hclose))

/-- Or is a word of its own. -/
theorem read_quoted (ha : Leaves around g) (text : List Char) :
    Reads ⟨.gap, angles, docs⟩ (quoted around text) ⟨.bare (glyphs g text), angles, docs⟩ [] := by
  unfold quoted
  have hopen : Reader.step ⟨.gap, angles, docs⟩ '\'' = (⟨.single [], angles, docs⟩, []) := rfl
  have hclose : Reader.step ⟨.single (glyphs g text), angles, docs⟩ '\'' = (⟨.bare (glyphs g text), angles, docs⟩, []) := rfl
  exact Reads.step hopen ((read_inner ha text []).trans (Reads.one hclose))

/-! ## Here-documents -/

/-- The lines, each ended by a line feed. -/
def unlines (lines : List (List Char)) : List Char := lines.flatMap (· ++ ['\n'])

variable {q : Bool} {d body : List Char}

theorem read_line {l : List Char} (hl : '\n' ∉ l) (line : List Char) :
    Reads ⟨.doc q d body line, angles, docs⟩ l ⟨.doc q d body (line ++ l), angles, docs⟩ [] := by
  induction l generalizing line with
  | nil =>
    rw [List.append_nil]
    exact Reads.nil _
  | cons c l ih =>
    have hc : c ≠ '\n' := fun h => hl (h ▸ List.mem_cons_self ..)
    have hrest := ih (fun h => hl (List.mem_cons_of_mem _ h)) (line ++ [c])
    rw [List.append_assoc] at hrest
    have hfirst : Reader.step ⟨.doc q d body line, angles, docs⟩ c = (⟨.doc q d body (line ++ [c]), angles, docs⟩, []) := by
      simp [Reader.step, hc]
    exact Reads.step hfirst hrest

theorem read_lines {lines : List (List Char)} (hlf : ∀ l ∈ lines, '\n' ∉ l) (hd : d ∉ lines) (body : List Char) :
    Reads ⟨.doc q d body [], angles, docs⟩ (unlines lines) ⟨.doc q d (body ++ unlines lines) [], angles, docs⟩ [] := by
  induction lines generalizing body with
  | nil =>
    rw [show unlines [] = [] from rfl, List.append_nil]
    exact Reads.nil _
  | cons l lines ih =>
    have hne : l ≠ d := fun h => hd (h ▸ List.mem_cons_self ..)
    have hrest := ih (fun l hl => hlf l (List.mem_cons_of_mem _ hl)) (fun h => hd (List.mem_cons_of_mem _ h)) (body ++ (l ++ ['\n']))
    rw [List.append_assoc] at hrest
    have hend : Reader.step ⟨.doc q d body l, angles, docs⟩ '\n' = (⟨.doc q d (body ++ (l ++ ['\n'])) [], angles, docs⟩, []) := by
      simp [Reader.step, hne]
    exact ((read_line (hlf l (List.mem_cons_self ..)) []).trans (Reads.one hend)).trans hrest

/-- The here-document is its lines. -/
theorem read_doc {lines : List (List Char)} (hlf : ∀ l ∈ lines, '\n' ∉ l) (hd : d ∉ lines) (hdlf : '\n' ∉ d) :
    Reads ⟨.doc q d [] [], 0, docs⟩ (unlines lines ++ (d ++ ['\n'])) (Reader.nextDoc ⟨.gap, 0, docs⟩) [.doc q (unlines lines)] := by
  have hend : Reader.step ⟨.doc q d (unlines lines) d, 0, docs⟩ '\n' = (Reader.nextDoc ⟨.gap, 0, docs⟩, [.doc q (unlines lines)]) := by
    simp [Reader.step, Reader.nextDoc]
  exact (read_lines hlf hd []).trans ((read_line hdlf []).trans (Reads.one hend))

theorem unlines_eq {lines : List (List Char)} (h : lines ≠ []) : unlines lines = ['\n'].intercalate lines ++ ['\n'] := by
  induction lines with
  | nil => exact absurd rfl h
  | cons l lines ih =>
    cases lines with
    | nil => simp [unlines]
    | cons l' lines =>
      have hrest := ih (List.cons_ne_nil _ _)
      rw [show unlines (l :: l' :: lines) = (l ++ ['\n']) ++ unlines (l' :: lines) from rfl, hrest, List.intercalate_cons_cons]
      simp

theorem unlines_splitOn (body : List Char) : unlines (body.splitOn '\n') = body ++ ['\n'] := by
  rw [unlines_eq (List.splitOn_ne_nil _ _), List.intercalate_splitOn]

/-- The text is whole lines, none of them the delimiter. -/
def EndedBy (d text : List Char) : Prop := text = text.dropLast ++ ['\n'] ∧ d ∉ text.dropLast.splitOn '\n'

instance (d text : List Char) : Decidable (EndedBy d text) := inferInstanceAs (Decidable (_ ∧ _))

theorem ended_line {body : List Char} (h : d ∉ body.splitOn '\n') : EndedBy d (body ++ ['\n']) := by
  unfold EndedBy
  rw [List.dropLast_concat]
  exact ⟨rfl, h⟩

theorem ended_lines {lines : List (List Char)} (hne : lines ≠ []) (hlf : ∀ l ∈ lines, '\n' ∉ l) (hd : d ∉ lines) :
    EndedBy d (unlines lines) := by
  rw [unlines_eq hne]
  refine ended_line ?_
  rwa [List.splitOn_intercalate '\n' hlf hne]

theorem read_ended {text : List Char} (h : EndedBy d text) (hdlf : '\n' ∉ d) :
    Reads ⟨.doc q d [] [], 0, docs⟩ (text ++ (d ++ ['\n'])) (Reader.nextDoc ⟨.gap, 0, docs⟩) [.doc q text] := by
  rw [h.1, ← unlines_splitOn]
  exact read_doc (fun l hl => not_mem_of_mem_splitOn hl) h.2 hdlf

/-! ## PlainWord words -/

/-- A character that a word has without quotes, and that nothing expands. -/
def isPlain (c : Char) : Bool := c.isAlphanum || c == '/' || c == '.' || c == '_' || c == '-'

def PlainWord (text : List Char) : Prop := text ≠ [] ∧ ∀ c ∈ text, isPlain c = true

instance (text : List Char) : Decidable (PlainWord text) := @instDecidableAnd _ _ inferInstance (List.decidableBAll _ text)

/-- The word without quotes. -/
def bareWord (text : List Char) : Word := text.map fun c => ⟨c, .bare⟩

theorem isPlain_ne {c d : Char} (h : isPlain c = true) (hd : isPlain d = false) : c ≠ d := fun he => by
  rw [he, hd] at h
  cases h

theorem plain_special (h : isPlain c = true) :
    isBlank c = false ∧ isOperator c = false ∧ c ≠ '\n' ∧ c ≠ '#' ∧ c ≠ '\'' ∧ c ≠ '"' ∧ c ≠ '\\' := by
  have hne (d : Char) (hd : isPlain d = false) : (c == d) = false := beq_false_of_ne (isPlain_ne h hd)
  refine ⟨?_, ?_, isPlain_ne h rfl, isPlain_ne h rfl, isPlain_ne h rfl, isPlain_ne h rfl, isPlain_ne h rfl⟩
  · simp only [isBlank, hne ' ' rfl, hne '\t' rfl, Bool.or_self]
  · simp only [isOperator, hne ';' rfl, hne '&' rfl, hne '|' rfl, hne '<' rfl, hne '>' rfl, hne '(' rfl, hne ')' rfl, Bool.or_self]

theorem step_plain (h : isPlain c = true) (w : Word) :
    Reader.step ⟨.bare w, angles, docs⟩ c = (⟨.bare (w ++ [⟨c, .bare⟩]), angles, docs⟩, []) := by
  obtain ⟨hblank, hop, hline, -, hsingle, hdouble, hslash⟩ := plain_special h
  simp [Reader.step, hblank, hop, hline, hsingle, hdouble, hslash]

theorem outside_plain (h : isPlain c = true) :
    Reader.step ⟨.gap, angles, docs⟩ c = (⟨.bare [⟨c, .bare⟩], angles, docs⟩, []) := by
  obtain ⟨hblank, hop, hline, hhash, hsingle, hdouble, hslash⟩ := plain_special h
  simp [Reader.step, Reader.outside, hblank, hop, hline, hhash, hsingle, hdouble, hslash]

theorem read_bare {text : List Char} (h : ∀ c ∈ text, isPlain c = true) (w : Word) :
    Reads ⟨.bare w, angles, docs⟩ text ⟨.bare (w ++ bareWord text), angles, docs⟩ [] := by
  induction text generalizing w with
  | nil =>
    rw [show bareWord [] = [] from rfl, List.append_nil]
    exact Reads.nil _
  | cons c text ih =>
    have hrest := ih (fun c hc => h c (List.mem_cons_of_mem _ hc)) (w ++ [⟨c, .bare⟩])
    rw [List.append_assoc] at hrest
    exact Reads.step (step_plain (h c (List.mem_cons_self ..)) w) hrest

theorem read_plain {text : List Char} (h : PlainWord text) :
    Reads ⟨.gap, angles, docs⟩ text ⟨.bare (bareWord text), angles, docs⟩ [] := by
  obtain ⟨hne, hall⟩ := h
  cases text with
  | nil => exact absurd rfl hne
  | cons c text =>
    obtain ⟨hc, htext⟩ := List.forall_mem_cons.mp hall
    exact Reads.step (outside_plain hc) (read_bare htext [⟨c, .bare⟩])

/-! ## What is written -/

def Token.ends : Token → Bool
  | .newline => true
  | .doc _ _ => true
  | _ => false

def Token.isDoc : Token → Bool
  | .doc _ _ => true
  | _ => false

/-- The file of a line `cat > FILE <<DELIMITER`. -/
def target : List Token → Option (List Char)
  | [.word command, .op '>', .word path, .op '<', .op '<', .word _] =>
    if chars command = ['c', 'a', 't'] then some (chars path) else none
  | _ => none

/-- The files that the lines write from their here-documents, the first of which goes on with `line`. -/
def files (line : List Token) : List Token → List (List Char × List Char)
  | [] => []
  | .newline :: .doc _ body :: ts => ((target line).map fun path => (path, body)).toList ++ files [] ts
  | .newline :: ts => files [] ts
  | .doc _ _ :: ts => files [] ts
  | t :: ts => files (line ++ [t]) ts

/-- The tokens are whole lines. -/
def Whole (ts : List Token) : Prop := (∀ t ∈ ts.head?, t.isDoc = false) ∧ ∀ t ∈ ts.getLast?, t.ends = true

/-- The tokens are on one line. -/
def Inline (ts : List Token) : Prop := ∀ t ∈ ts, t.ends = false

instance (ts : List Token) : Decidable (Whole ts) := inferInstanceAs (Decidable (_ ∧ _))
instance (ts : List Token) : Decidable (Inline ts) := inferInstanceAs (Decidable (∀ _ ∈ _, _))

variable {line ts us : List Token} {t : Token}

theorem files_cons (h : t.ends = false) : files line (t :: ts) = files (line ++ [t]) ts := by
  cases t with
  | word w => rw [files] <;> simp
  | op c => rw [files] <;> simp
  | newline => cases h
  | doc quoted body => cases h

theorem files_inline (h : Inline ts) : files line (ts ++ us) = files (line ++ ts) us := by
  induction ts generalizing line with
  | nil => simp
  | cons t ts ih =>
    rw [List.cons_append, files_cons (h t (List.mem_cons_self ..)), ih fun t ht => h t (List.mem_cons_of_mem _ ht)]
    simp

theorem files_newline (h : ∀ t ∈ ts.head?, t.isDoc = false) : files line (.newline :: ts) = files [] ts := by
  rw [files]
  intro q body ts' hdoc
  subst hdoc
  cases h _ rfl

theorem last_tail (h : ∀ u ∈ (t :: ts).getLast?, u.ends = true) : ∀ u ∈ ts.getLast?, u.ends = true := by
  cases ts with
  | nil => exact fun _ hu => by cases hu
  | cons u ts =>
    rw [List.getLast?_cons_cons] at h
    exact h

/-- After whole lines there are new ones. -/
theorem files_append (hts : ∀ t ∈ ts.getLast?, t.ends = true) (hline : ts = [] → line = []) (hus : ∀ t ∈ us.head?, t.isDoc = false) :
    files line (ts ++ us) = files line ts ++ files [] us := by
  fun_induction files line ts with
  | case1 line =>
    rw [hline rfl]
    rfl
  | case2 line q body ts ih =>
    rw [List.cons_append, List.cons_append, files, ih (last_tail (last_tail hts)) fun _ => rfl, List.append_assoc]
  | case3 line ts hnone ih =>
    have hhead : ∀ t ∈ (ts ++ us).head?, t.isDoc = false := by
      intro t ht
      cases ts with
      | nil => exact hus t ht
      | cons u ts =>
        obtain rfl : u = t := Option.some.inj ht
        cases u with
        | doc q body => exact (hnone q body ts rfl).elim
        | _ => rfl
    rw [List.cons_append, files_newline hhead, ih (last_tail hts) fun _ => rfl]
  | case4 line q body ts ih => rw [List.cons_append, files, ih (last_tail hts) fun _ => rfl]
  | case5 line t ts h1 h2 h3 ih =>
    have hends : t.ends = false := by
      cases t with
      | newline => exact (h2 rfl).elim
      | doc q body => exact (h3 q body rfl).elim
      | _ => rfl
    have hnext : ts = [] → line ++ [t] = [] := by
      intro h
      rw [h] at hts
      rw [hts t rfl] at hends
      cases hends
    rw [List.cons_append, files_cons hends, ih (last_tail hts) hnext]

/-! ## Scripts -/

/-- A script in parts: lines that are read on their own and write no file, a line with a text in
    it as one word, and a file written from a here-document. -/
inductive Part
  | plain (t : List Char)
  | line (before t after : List Char)
  | file (path delimiter body : List Char)
  deriving DecidableEq, Repr

/-- `cat > PATH <<'DELIMITER'`. -/
def header (path delimiter : List Char) : List Char :=
  ['c', 'a', 't', ' ', '>', ' '] ++ (path ++ ([' ', '<', '<', '\''] ++ (delimiter ++ ['\'', '\n'])))

def Part.render (around : List Char) : Part → List Char
  | .plain t => t
  | .line before t after => before ++ (quoted around t ++ after)
  | .file path delimiter body => header path delimiter ++ (body ++ (delimiter ++ ['\n']))

def given (t : List Char) : List Token := (Reader.run {} t).2

/-- The tokens of the line that a here-document follows. -/
def headerTokens (path delimiter : List Char) : List Token :=
  [.word (bareWord ['c', 'a', 't']), .op '>', .word (bareWord path), .op '<', .op '<', .word (delimiter.map fun c => ⟨c, .hard⟩)]

/-- What a part is read as. -/
def Part.tokens (g : Glyph) : Part → List Token
  | .plain t => given t
  | .line before t after => given before ++ .word (glyphs g t) :: given after
  | .file path delimiter body => headerTokens path delimiter ++ [.newline, .doc true body]

/-- The reader is where it was after the text. -/
def Balanced (t : List Char) : Prop := (Reader.run {} t).1 = {}

/-- The text is lines without a file. -/
def Quiet (t : List Char) : Prop := Balanced t ∧ Whole (given t) ∧ files [] (given t) = []

/-- The text ends a line, after a blank. -/
def Closes (after : List Char) : Prop :=
  after.head? = some ' ' ∧ Balanced after ∧ given after = (given after).dropLast ++ [.newline] ∧ Inline (given after).dropLast

instance (t : List Char) : Decidable (Balanced t) := inferInstanceAs (Decidable (_ = _))
instance (t : List Char) : Decidable (Quiet t) := inferInstanceAs (Decidable (_ ∧ _ ∧ _))
instance (after : List Char) : Decidable (Closes after) := inferInstanceAs (Decidable (_ ∧ _ ∧ _ ∧ _))

def Part.Sound : Part → Prop
  | .plain t => Quiet t
  | .line before _ after => (Balanced before ∧ Inline (given before)) ∧ Closes after
  | .file path delimiter body => PlainWord path ∧ PlainWord delimiter ∧ EndedBy delimiter body

variable {p : Part} {parts : List Part}

theorem read_hard {text : List Char} (h : '\'' ∉ text) (w : Word) :
    Reads ⟨.single w, angles, docs⟩ text ⟨.single (w ++ text.map fun c => ⟨c, .hard⟩), angles, docs⟩ [] := by
  induction text generalizing w with
  | nil =>
    rw [List.map_nil, List.append_nil]
    exact Reads.nil _
  | cons c text ih =>
    obtain ⟨hc, htext⟩ := not_or.mp (mt List.mem_cons.mpr h)
    have hrest := ih htext (w ++ [⟨c, .hard⟩])
    rw [List.append_assoc] at hrest
    have hfirst : Reader.step ⟨.single w, angles, docs⟩ c = (⟨.single (w ++ [⟨c, .hard⟩]), angles, docs⟩, []) := by
      simp [Reader.step, Ne.symm hc]
    exact Reads.step hfirst hrest

theorem read_header {path delimiter : List Char} (hpath : PlainWord path) (hdel : PlainWord delimiter) :
    Reads {} (header path delimiter) { mode := .doc true delimiter [] [] } (headerTokens path delimiter ++ [.newline]) := by
  have hcat : Reads {} ['c', 'a', 't'] ⟨.bare (bareWord ['c', 'a', 't']), 0, []⟩ [] :=
    read_plain ⟨by simp, List.all_eq_true.mp rfl⟩
  have hto : Reads ⟨.bare (bareWord ['c', 'a', 't']), 0, []⟩ [' ', '>', ' '] {} [.word (bareWord ['c', 'a', 't']), .op '>'] := rfl
  have hfrom : Reads ⟨.bare (bareWord path), 0, []⟩ [' ', '<', '<', '\''] ⟨.single [], 2, []⟩
      [.word (bareWord path), .op '<', .op '<'] := rfl
  have hname : Reads ⟨.single [], 2, []⟩ delimiter ⟨.single (delimiter.map fun c => ⟨c, .hard⟩), 2, []⟩ [] :=
    read_hard (fun h => by cases hdel.2 _ h) []
  have hend : Reads ⟨.single (delimiter.map fun c => ⟨c, .hard⟩), 2, []⟩ ['\'', '\n'] { mode := .doc true delimiter [] [] }
      [.word (delimiter.map fun c => ⟨c, .hard⟩), .newline] := by
    have hquoted : (delimiter.map fun c => (⟨c, .hard⟩ : Glyph)).any (·.guard != .bare) = true := by
      cases delimiter with
      | nil => exact absurd rfl hdel.1
      | cons c delimiter => rfl
    have hchars : chars (delimiter.map fun c => ⟨c, .hard⟩) = delimiter := by
      unfold chars
      rw [List.map_map]
      exact List.map_id delimiter
    have hstep (w : Word) : Reader.step ⟨.bare w, 2, []⟩ '\n' =
        ({ mode := .doc (w.any (·.guard != .bare)) (chars w) [] [] }, [.word w, .newline]) := rfl
    have hline := hstep (delimiter.map fun c => ⟨c, .hard⟩)
    rw [hquoted, hchars] at hline
    have hclose : Reader.step ⟨.single (delimiter.map fun c => ⟨c, .hard⟩), 2, []⟩ '\'' =
        (⟨.bare (delimiter.map fun c => ⟨c, .hard⟩), 2, []⟩, []) := rfl
    exact Reads.step hclose (Reads.one hline)
  exact hcat.trans (hto.trans ((read_plain hpath).trans (hfrom.trans (hname.trans hend))))

theorem read_part (ha : Leaves around g) (h : p.Sound) : Reads {} (p.render around) {} (p.tokens g) := by
  cases p with
  | plain t =>
    show Reader.run {} t = _
    exact Prod.ext h.1 rfl
  | line before t after =>
    obtain ⟨⟨hbefore, -⟩, hhead, hafter, -⟩ := h
    have hfirst : Reads {} before {} (given before) := Prod.ext hbefore rfl
    have hlast : Reads {} after {} (given after) := Prod.ext hafter rfl
    have hblank : Reader.step ⟨.bare (glyphs g t), 0, []⟩ ' ' = ({}, [.word (glyphs g t)]) := rfl
    cases after with
    | nil => cases hhead
    | cons c after =>
      obtain rfl : c = ' ' := Option.some.inj hhead
      exact hfirst.trans ((read_quoted ha t).trans (Reads.step hblank hlast))
  | file path delimiter body =>
    obtain ⟨hpath, hdel, hend⟩ := h
    have hline : '\n' ∉ delimiter := fun h => by cases hdel.2 _ h
    exact (read_header hpath hdel).trans (read_ended hend hline)

/-- A script of sound parts is read part by part. -/
theorem read_parts (ha : Leaves around g) (h : ∀ p ∈ parts, p.Sound) :
    read (parts.flatMap (·.render around)) = some (parts.flatMap (·.tokens g)) := by
  apply read_of
  induction parts with
  | nil => exact Reads.nil _
  | cons p parts ih =>
    exact (read_part ha (h p (List.mem_cons_self ..))).trans (ih fun p hp => h p (List.mem_cons_of_mem _ hp))

/-! ### Their files -/

/-- The files that a part writes. -/
def Part.written : Part → List (List Char × List Char)
  | .plain _ => []
  | .line _ _ _ => []
  | .file path _ body => [(path, body)]

theorem Inline.head (h : Inline ts) : ∀ t ∈ ts.head?, t.isDoc = false := by
  intro t ht
  have := h t (List.mem_of_mem_head? ht)
  cases t with
  | doc q body => cases this
  | _ => rfl

theorem Inline.append (hts : Inline ts) (hus : Inline us) : Inline (ts ++ us) := by
  intro t ht
  rcases List.mem_append.mp ht with ht | ht
  · exact hts t ht
  · exact hus t ht

theorem inline_word (w : Word) : Inline [.word w] := by
  intro t ht
  rw [List.mem_singleton.mp ht]
  rfl

theorem inline_header (path delimiter : List Char) : Inline (headerTokens path delimiter) := by
  intro t ht
  simp only [headerTokens, List.mem_cons, List.not_mem_nil, or_false] at ht
  rcases ht with rfl | rfl | rfl | rfl | rfl | rfl
  all_goals rfl

theorem target_header (path delimiter : List Char) : target (headerTokens path delimiter) = some path := by
  show some (chars (bareWord path)) = some path
  unfold chars bareWord
  rw [List.map_map]
  exact congrArg some (List.map_id path)

/-- A line, and what follows on it. -/
theorem whole_of (hts : Inline ts) (hne : ts ≠ []) (ht : t.ends = true) : Whole (ts ++ us ++ [t]) := by
  refine ⟨fun u hu => ?_, fun u hu => ?_⟩
  · rw [List.append_assoc, List.head?_append_of_ne_nil _ hne] at hu
    exact hts.head u hu
  · rw [List.getLast?_concat] at hu
    rwa [← Option.some.inj hu]

theorem tokens_whole (h : p.Sound) : Whole (p.tokens g) := by
  cases p with
  | plain t => exact h.2.1
  | line before t after =>
    obtain ⟨⟨-, hbefore⟩, -, -, hafter, -⟩ := h
    have hwhole : Whole (given before ++ [.word (glyphs g t)] ++ (given after).dropLast ++ [.newline]) :=
      whole_of (hbefore.append (inline_word _)) (by simp) rfl
    show Whole (given before ++ .word (glyphs g t) :: given after)
    rw [hafter]
    simpa using hwhole
  | file path delimiter body =>
    have hwhole : Whole (headerTokens path delimiter ++ [.newline] ++ [.doc true body]) :=
      whole_of (inline_header path delimiter) (by simp [headerTokens]) rfl
    show Whole (headerTokens path delimiter ++ [.newline, .doc true body])
    simpa using hwhole

theorem files_tokens (h : p.Sound) : files [] (p.tokens g) = p.written := by
  cases p with
  | plain t => exact h.2.2
  | line before t after =>
    obtain ⟨⟨-, hbefore⟩, -, -, hafter, hline⟩ := h
    show files [] (given before ++ .word (glyphs g t) :: given after) = []
    rw [files_inline hbefore, files_cons rfl, hafter, files_inline hline, files_newline (by simp)]
    rfl
  | file path delimiter body =>
    show files [] (headerTokens path delimiter ++ [.newline, .doc true body]) = [(path, body)]
    rw [files_inline (inline_header path delimiter), files, List.nil_append, target_header]
    rfl

theorem files_parts (h : ∀ p ∈ parts, p.Sound) : files [] (parts.flatMap (·.tokens g)) = parts.flatMap (·.written) := by
  have hhead (ps : List Part) (hps : ∀ p ∈ ps, p.Sound) : ∀ t ∈ (ps.flatMap (·.tokens g)).head?, t.isDoc = false := by
    induction ps with
    | nil => exact fun _ ht => by cases ht
    | cons p ps ih =>
      intro t ht
      rw [List.flatMap_cons, List.head?_append] at ht
      cases hp : (p.tokens g).head? with
      | none =>
        rw [hp] at ht
        exact ih (fun p hp => hps p (List.mem_cons_of_mem _ hp)) t ht
      | some u =>
        rw [hp] at ht
        exact (tokens_whole (hps p (List.mem_cons_self ..))).1 t (hp.trans ht)
  induction parts with
  | nil => rfl
  | cons p parts ih =>
    have hp := h p (List.mem_cons_self ..)
    have hparts : ∀ p ∈ parts, p.Sound := fun p hp => h p (List.mem_cons_of_mem _ hp)
    rw [List.flatMap_cons, files_append (tokens_whole hp).2 (fun _ => rfl) (hhead parts hparts), files_tokens hp, ih hparts,
      List.flatMap_cons]

/-! ### Their commands -/

/-- What of a part is not a value. -/
def Part.shape : Part → Part
  | .plain t => .plain t
  | .line before _ after => .line before [] after
  | .file path delimiter _ => .file path delimiter []

/-- A token without what is literal in it. -/
def Token.shape : Token → Token
  | .word w => .word (if w.all (·.literal) then [] else w)
  | .doc quoted body => .doc quoted (if quoted then [] else body)
  | t => t

/-- Only the shapes of its parts say which commands a script has. -/
theorem shape_tokens (hg : g.literal = true) (hc : g.char = '\'') (p : Part) :
    (p.tokens g).map Token.shape = (p.shape.tokens g).map Token.shape := by
  cases p with
  | plain t => rfl
  | line before t after =>
    have hall : (glyphs g t).all (·.literal) = true := List.all_eq_true.mpr (glyphs_literal hg hc t).2
    have hword : Token.shape (.word (glyphs g t)) = .word [] := congrArg Token.word (if_pos hall)
    show (given before ++ .word (glyphs g t) :: given after).map _ = (given before ++ .word [] :: given after).map _
    rw [List.map_append, List.map_append, List.map_cons, List.map_cons, hword]
    rfl
  | file path delimiter body => simp [Part.tokens, Part.shape, Token.shape]

theorem shape_eq (hg : g.literal = true) (hc : g.char = '\'') {parts' : List Part} (h : parts.map Part.shape = parts'.map Part.shape) :
    (parts.flatMap (·.tokens g)).map Token.shape = (parts'.flatMap (·.tokens g)).map Token.shape := by
  have hshape (ps : List Part) :
      (ps.flatMap (·.tokens g)).map Token.shape = (ps.map Part.shape).flatMap fun p => (p.tokens g).map Token.shape := by
    induction ps with
    | nil => rfl
    | cons p ps ih =>
      rw [List.flatMap_cons, List.map_append, ih, List.map_cons, List.flatMap_cons, shape_tokens hg hc]
  rw [hshape, hshape, h]

/-! ## Lines without quotes -/

/-- A character that neither quotes nor begins a here-document. -/
def isCalm (c : Char) : Bool := c != '\'' && c != '"' && c != '\\' && c != '<'

/-- Lines of such characters. -/
def calm (t : List Char) : Bool := t.all isCalm && t.getLast?.all (· == '\n')

/-- The reader is not in quotes, and no here-document is due. -/
structure Idle (r : Reader) : Prop where
  mode : r.mode = .gap ∨ r.mode = .comment ∨ ∃ w, r.mode = .bare w
  angles : r.angles = 0
  docs : r.docs = []

theorem calm_ne (h : isCalm c = true) : c ≠ '\'' ∧ c ≠ '"' ∧ c ≠ '\\' ∧ c ≠ '<' := by
  simpa [isCalm, and_assoc] using h

/-- What such a character comes to: a line that ends leaves the reader where it began. -/
structure Still (c : Char) (p : Reader × List Token) : Prop where
  idle : Idle p.1
  doc : ∀ t ∈ p.2, t.isDoc = false
  line : c = '\n' → p.1 = {} ∧ p.2.getLast? = some .newline

theorem idle_start : Idle {} := ⟨Or.inl rfl, rfl, rfl⟩

theorem outside_still (h : Idle r) (hc : isCalm c = true) : Still c (r.outside c) := by
  obtain ⟨hsingle, hdouble, hslash, hangle⟩ := calm_ne hc
  have hnext : r.nextDoc = {} := by
    unfold Reader.nextDoc
    rw [h.docs]
  unfold Reader.outside
  split
  · rename_i hblank
    refine ⟨⟨Or.inl rfl, h.angles, h.docs⟩, by simp, fun hline => ?_⟩
    rw [hline] at hblank
    cases hblank
  split
  · rw [hnext]
    exact ⟨idle_start, by simp [Token.isDoc], fun _ => ⟨rfl, rfl⟩⟩
  · rename_i hline
    split
    · exact ⟨⟨Or.inl rfl, rfl, h.docs⟩, by simp [Token.isDoc], fun h => absurd h hline⟩
    split
    · exact ⟨⟨Or.inr (Or.inl rfl), h.angles, h.docs⟩, by simp, fun h => absurd h hline⟩
    · exact ⟨⟨Or.inr (Or.inr ⟨_, rfl⟩), h.angles, h.docs⟩, by simp, fun h => absurd h hline⟩

theorem step_comment (h : r.mode = .comment) : r.step c = if c = '\n' then r.outside c else (r, []) := by
  unfold Reader.step
  rw [h]

theorem step_ends (h : Idle r) (hmode : r.mode = .bare w) (hends : (isBlank c || c = '\n' || isOperator c) = true) :
    r.step c = ((Reader.outside {} c).1, .word w :: (Reader.outside {} c).2) := by
  have hfinish : r.finish w = ({}, [.word w]) := by
    unfold Reader.finish
    rw [h.angles, h.docs]
    rfl
  unfold Reader.step
  rw [hmode]
  dsimp only
  rw [if_pos hends, hfinish]
  rfl

theorem step_bare (hmode : r.mode = .bare w) (hends : ¬(isBlank c || c = '\n' || isOperator c) = true) (hc : isCalm c = true) :
    r.step c = ({ r with mode := .bare (w ++ [⟨c, .bare⟩]) }, []) := by
  obtain ⟨hsingle, hdouble, hslash, -⟩ := calm_ne hc
  unfold Reader.step
  rw [hmode]
  dsimp only
  rw [if_neg hends, if_neg hsingle, if_neg hdouble, if_neg hslash]

theorem step_still (h : Idle r) (hc : isCalm c = true) : Still c (r.step c) := by
  rcases h.mode with hmode | hmode | ⟨w, hmode⟩
  · have hstep : r.step c = r.outside c := by
      unfold Reader.step
      rw [hmode]
    rw [hstep]
    exact outside_still h hc
  · rw [step_comment hmode]
    split
    · exact outside_still h hc
    · rename_i hline
      exact ⟨h, by simp, fun h => absurd h hline⟩
  · by_cases hends : (isBlank c || c = '\n' || isOperator c) = true
    · have hout := outside_still idle_start hc
      rw [step_ends h hmode hends]
      refine ⟨hout.idle, List.forall_mem_cons.mpr ⟨rfl, hout.doc⟩, fun hline => ?_⟩
      obtain ⟨hstart, hlast⟩ := hout.line hline
      refine ⟨hstart, ?_⟩
      rw [List.getLast?_cons, hlast]
      rfl
    · rw [step_bare hmode hends hc]
      exact ⟨⟨Or.inr (Or.inr ⟨_, rfl⟩), h.angles, h.docs⟩, by simp, fun hline => by simp [hline] at hends⟩

theorem run_idle (h : Idle r) (hxs : ∀ c ∈ xs, isCalm c = true) : Idle (r.run xs).1 ∧ ∀ t ∈ (r.run xs).2, t.isDoc = false := by
  induction xs generalizing r with
  | nil => exact ⟨h, fun t ht => by cases ht⟩
  | cons c xs ih =>
    have hstep := step_still h (hxs c (List.mem_cons_self ..))
    obtain ⟨hrest, hmore⟩ := ih hstep.idle fun c hc => hxs c (List.mem_cons_of_mem _ hc)
    refine ⟨hrest, fun t ht => ?_⟩
    rcases List.mem_append.mp ht with ht | ht
    · exact hstep.doc t ht
    · exact hmore t ht

theorem files_undocumented (h : ∀ t ∈ ts, t.isDoc = false) : files line ts = [] := by
  fun_induction files line ts with
  | case1 line => rfl
  | case2 line q body ts ih => cases h (.doc q body) (by simp)
  | case3 line ts hnone ih => exact ih fun t ht => h t (List.mem_cons_of_mem _ ht)
  | case4 line q body ts ih => cases h (.doc q body) (by simp)
  | case5 line t ts h1 h2 h3 ih => exact ih fun t ht => h t (List.mem_cons_of_mem _ ht)

/-- Lines without quotes are read on their own, and write no file. -/
theorem calm_quiet {t : List Char} (h : calm t = true) : Quiet t := by
  obtain ⟨hall, hlast⟩ := Bool.and_eq_true_iff.mp h
  rcases List.eq_nil_or_concat t with rfl | ⟨init, c, rfl⟩
  · exact ⟨rfl, ⟨fun t ht => (by cases ht), fun t ht => (by cases ht)⟩, rfl⟩
  rw [List.concat_eq_append] at *
  have hline : c = '\n' := by
    rw [List.getLast?_concat] at hlast
    simpa using hlast
  have hcalm := List.all_eq_true.mp hall
  obtain ⟨hidle, -⟩ := run_idle idle_start fun c hc => hcalm c (List.mem_append_left _ hc)
  obtain ⟨-, hdoc⟩ := run_idle idle_start hcalm
  obtain ⟨hdone, hnewline⟩ := (step_still hidle (hcalm c (by simp))).line hline
  have hone (r : Reader) : r.run [c] = r.step c := by
    show ((r.step c).1, (r.step c).2 ++ []) = _
    rw [List.append_nil]
  refine ⟨?_, ⟨fun t ht => hdoc t (List.mem_of_mem_head? ht), fun t ht => ?_⟩, files_undocumented hdoc⟩
  · unfold Balanced
    rw [run_append, hone]
    exact hdone
  · unfold given at ht
    rw [run_append, hone, List.getLast?_append, hnewline] at ht
    obtain rfl : Token.newline = t := Option.some.inj ht
    rfl

/-! ## Texts that are given -/

/-- The characters of a text. -/
def Spelled (s : String) (l : List Char) : Prop := s.toList = l

theorem Spelled.lit {s : String} {l : List Char} (h : s = String.ofList l) : Spelled s l := by
  rw [h]
  exact String.toList_ofList

theorem Spelled.append {s t : String} {l m : List Char} (hs : Spelled s l) (ht : Spelled t m) : Spelled (s ++ t) (l ++ m) := by
  unfold Spelled at hs ht ⊢
  rw [String.toList_append, hs, ht]

theorem Spelled.quiet {s : String} {l : List Char} (h : Spelled s l) (hl : calm l = true) : Quiet s.toList := by
  rw [h]
  exact calm_quiet hl

end LaunchPad.Lib.Shell
