/-
  LaunchPad.Agent.CronAgree — the agent's cron engine (`agent-rust/src/cron.rs`) against the
  CLI's (`shared/src/cron.ts`), which it is a port of.

  Both read the language of `Lib.Crontab`, but not in the same way everywhere. Rust's
  whitespace has U+0085 and not U+FEFF, JavaScript's the other way round; a step is any
  number to the one, and an `i64` to the other; and the agent's loop may wrap (`Wraps`).

  As built:
  - `huge_step_accepted`: a step of 2^63 passes the CLI's check and is refused by the node.

  Proved, of every expression:
  - `engines_agree_iff`: the engines accept it alike, and find the same due fire whenever
    chrono's calendar has the instants looked at, exactly when neither white space tells them
    apart, no step is beyond 64 bits, and no wrapped value adds a minute.
-/
import LaunchPad.Agent.CronFields
import LaunchPad.Shared.Cron

namespace LaunchPad.Agent

open Lib

/-! ## What the agent accepts -/

/-- No step of the field is beyond 64 bits. -/
def Narrow (F : Crontab.Field) (field : List Char) : Prop :=
  ∀ text ∈ field.splitOn ',', ∀ lo hi step, Crontab.Item F text lo hi step → (step : Int) ≤ i64Max

def NarrowSteps (f : Crontab.Fields) : Prop := ∀ e ∈ f.all, Narrow e.1 e.2

theorem parseField_accepts {spec : FieldSpec} {F : Crontab.Field} {field : List Char} (hF : SpecOf spec F) :
    (∃ p, parseField field spec = .ok p) ↔ Crontab.WellFormed F field ∧ Narrow F field := by
  rw [parseField_ok_iff hF]
  constructor
  · intro h
    refine ⟨fun text htext => ?_, fun text htext lo hi step hI => ?_⟩
    · obtain ⟨l, hl⟩ := h text htext
      obtain ⟨lo, hi, step, hI, _⟩ := (loopOf_eq_some hF).mp hl
      exact ⟨lo, hi, step, hI⟩
    · obtain ⟨l, hl⟩ := h text htext
      obtain ⟨lo', hi', step', hI', hstep, _⟩ := (loopOf_eq_some hF).mp hl
      obtain ⟨_, _, rfl⟩ := hI.unique hI'
      exact hstep
  · rintro ⟨hwf, hnarrow⟩ text htext
    obtain ⟨lo, hi, step, hI⟩ := hwf text htext
    exact ⟨_, (loopOf_eq_some hF).mpr ⟨lo, hi, step, hI, hnarrow text htext lo hi step hI, rfl⟩⟩

/-- The agent accepts five well-formed fields whose steps have 64 bits. -/
theorem accepts_iff {expr : String} :
    (∃ s, parseCronExpression expr = .ok s) ↔ ∃ f, fieldsOf expr = some f ∧ f.WellFormed ∧ NarrowSteps f := by
  constructor
  · rintro ⟨s, h⟩
    obtain ⟨f, hf, hp⟩ := parseCronExpression_ok h
    have hparse := hp.parses
    simp only [specFields, List.forall_mem_cons, parseField_accepts minute_spec, parseField_accepts hour_spec,
      parseField_accepts dom_spec, parseField_accepts month_spec, parseField_accepts dow_spec] at hparse
    obtain ⟨⟨w₁, n₁⟩, ⟨w₂, n₂⟩, ⟨w₃, n₃⟩, ⟨w₄, n₄⟩, ⟨w₅, n₅⟩, _⟩ := hparse
    refine ⟨f, hf, ⟨w₁, w₂, w₃, w₄, w₅⟩, ?_⟩
    simp only [NarrowSteps, Crontab.Fields.all, List.forall_mem_cons]
    exact ⟨n₁, n₂, n₃, n₄, n₅, fun e he => absurd he List.not_mem_nil⟩
  · rintro ⟨f, hf, hwf, hnarrow⟩
    simp only [NarrowSteps, Crontab.Fields.all, List.forall_mem_cons] at hnarrow
    obtain ⟨n₁, n₂, n₃, n₄, n₅, _⟩ := hnarrow
    obtain ⟨p₁, h₁⟩ := (parseField_accepts minute_spec).mpr ⟨hwf.minute, n₁⟩
    obtain ⟨p₂, h₂⟩ := (parseField_accepts hour_spec).mpr ⟨hwf.hour, n₂⟩
    obtain ⟨p₃, h₃⟩ := (parseField_accepts dom_spec).mpr ⟨hwf.dayOfMonth, n₃⟩
    obtain ⟨p₄, h₄⟩ := (parseField_accepts month_spec).mpr ⟨hwf.month, n₄⟩
    obtain ⟨p₅, h₅⟩ := (parseField_accepts dow_spec).mpr ⟨hwf.dayOfWeek, n₅⟩
    rw [parseCronExpression_of_fields hf]
    simp only [h₁, h₂, h₃, h₄, h₅, bind, Except.bind]
    exact ⟨_, rfl⟩

/-! ## White space -/

theorem isSpace_eq {c : Char} (h85 : c ≠ '\u0085') (hbom : c ≠ '\uFEFF') : isWhiteSpace c = Cron.isSpace c := by
  have hnext : (c.toNat == 0x85) = false := by
    rw [beq_eq_false_iff_ne]
    exact fun h => h85 (Char.toNat_inj.mp h)
  have hmark : (c.toNat == 0xFEFF) = false := by
    rw [beq_eq_false_iff_ne]
    exact fun h => hbom (Char.toNat_inj.mp h)
  unfold isWhiteSpace Cron.isSpace
  simp only [hnext, hmark, Bool.or_false]

theorem fieldsOf_eq {expr : String} (h85 : '\u0085' ∉ expr.toList) (hbom : '\uFEFF' ∉ expr.toList) :
    fieldsOf expr = Cron.fieldsOf expr := by
  have hsplit : splitWhitespace expr = Cron.splitFields expr := by
    unfold splitWhitespace Cron.splitFields
    rw [splitOnP_congr fun c hc => isSpace_eq (fun h => h85 (h ▸ hc)) fun h => hbom (h ▸ hc)]
  unfold fieldsOf Cron.fieldsOf
  rw [hsplit]

/-- What is not white space is in a field. -/
theorem mem_fieldsOf {expr : String} {f : Crontab.Fields} (h : fieldsOf expr = some f) {c : Char} (hc : c ∈ expr.toList)
    (hspace : isWhiteSpace c = false) : ∃ e ∈ f.all, c ∈ e.2 := by
  obtain ⟨piece, hpiece, hmem⟩ := mem_splitOnP hc hspace
  have hin : piece ∈ splitWhitespace expr :=
    List.mem_filter.mpr ⟨hpiece, by simpa using List.ne_nil_of_mem hmem⟩
  rw [Crontab.Fields.ofList_eq_some.mp h] at hin
  obtain ⟨e, he, rfl⟩ := List.mem_map.mp hin
  exact ⟨e, he, hmem⟩

theorem mem_cliFieldsOf {expr : String} {f : Crontab.Fields} (h : Cron.fieldsOf expr = some f) {c : Char}
    (hc : c ∈ expr.toList) (hspace : Cron.isSpace c = false) : ∃ e ∈ f.all, c ∈ e.2 := by
  obtain ⟨piece, hpiece, hmem⟩ := mem_splitOnP hc hspace
  have hin : piece ∈ Cron.splitFields expr :=
    List.mem_filter.mpr ⟨hpiece, by simpa using List.ne_nil_of_mem hmem⟩
  rw [Crontab.Fields.ofList_eq_some.mp h] at hin
  obtain ⟨e, he, rfl⟩ := List.mem_map.mp hin
  exact ⟨e, he, hmem⟩

/-- The agent accepts no byte order mark, and the CLI no next-line control. -/
theorem no_mark {expr : String} {f : Crontab.Fields} (h : fieldsOf expr = some f) (hwf : f.WellFormed) :
    '\uFEFF' ∉ expr.toList := by
  intro hc
  obtain ⟨e, he, hmem⟩ := mem_fieldsOf h hc (by decide)
  rcases hwf.chars he hmem with hitem | hcomma
  · exact absurd hitem (by decide)
  · exact absurd hcomma (by decide)

theorem no_nextLine {expr : String} {f : Crontab.Fields} (h : Cron.fieldsOf expr = some f) (hwf : f.WellFormed) :
    '\u0085' ∉ expr.toList := by
  intro hc
  obtain ⟨e, he, hmem⟩ := mem_cliFieldsOf h hc (by decide)
  rcases hwf.chars he hmem with hitem | hcomma
  · exact absurd hitem (by decide)
  · exact absurd hcomma (by decide)

/-! ## Fires -/

/-- chrono's calendar has every instant that the search may look at. -/
def Searchable (last now : Int) : Prop := ∀ t, max last (now - horizonMs) < t → t ≤ now → InCalendar t

/-- A `Date` reaches further than chrono's calendar. -/
theorem InCalendar.inTime {ms : Int} (h : InCalendar ms) : Cron.InTime ms := by
  obtain ⟨h1, h2⟩ := h
  unfold dayOf dayMs chronoFirstDay chronoLastDay at *
  unfold Cron.InTime Cron.maxTime
  omega

/-- Both engines match whole minutes. -/
theorem matchAt_floor {D : Crontab.Reading} {f : Crontab.Fields} (ms : Int) :
    f.MatchAt D (floorToMinute ms) ↔ f.MatchAt D ms := by
  have hmin : floorToMinute ms / 60000 = ms / 60000 := by unfold floorToMinute minuteMs; omega
  have hhour : floorToMinute ms / 3600000 = ms / 3600000 := by unfold floorToMinute minuteMs; omega
  have hday : floorToMinute ms / 86400000 = ms / 86400000 := by unfold floorToMinute minuteMs; omega
  unfold Crontab.Fields.MatchAt
  rw [hmin, hhour, hday]

theorem reaches_of_denotes {F : Crontab.Field} {field : List Char} {v : Nat} (h : Crontab.Denotes F field v) :
    Reaches F field v := by
  obtain ⟨text, htext, lo, hi, step, hI, hs⟩ := h
  exact ⟨text, htext, lo, hi, step, hI, .inl hs⟩

section Due

variable {s : CronSchedule} {s' : Cron.CronSchedule} {last now t : Int}

theorem due_eq_down : dueCronFire s last now =
    Scan.down (cronMatchesMinute s) minuteMs (max last (now - horizonMs)) scanHorizonMinutes (now / minuteMs * minuteMs) := by
  unfold dueCronFire
  rw [dueFrom_eq]
  rfl

theorem cliDue_eq_down : Cron.dueCronFire s' last now =
    Scan.down (Cron.cronMatchesMinute s') minuteMs (max last (now - horizonMs)) scanHorizonMinutes
      (now / minuteMs * minuteMs) := rfl

/-- The searches agree where the two match alike. -/
theorem due_congr (h : ∀ t, max last (now - horizonMs) < t → t ≤ now → cronMatchesMinute s t = Cron.cronMatchesMinute s' t) :
    dueCronFire s last now = Cron.dueCronFire s' last now := by
  rw [due_eq_down, cliDue_eq_down]
  exact Scan.down_congr (by decide) fun u hlow hhigh => h u hlow (Int.le_trans hhigh (Scan.floor_le minuteMs_pos now).1)

/-- Looking at one minute only shows whether it is matched. -/
theorem due_one (s : CronSchedule) (s' : Cron.CronSchedule) (hd : minuteMs ∣ t) :
    (dueCronFire s (t - 1) t = some t ↔ cronMatchesMinute s t = true) ∧
      (Cron.dueCronFire s' (t - 1) t = some t ↔ Cron.cronMatchesMinute s' t = true) := by
  have hhorizon : horizonMs = 31622400000 := rfl
  have hfuel : t ≤ max (t - 1) (t - horizonMs) + (scanHorizonMinutes : Int) * minuteMs := by
    have : (scanHorizonMinutes : Int) * minuteMs = horizonMs := rfl
    omega
  have hone : ∀ {p : Int → Bool},
      IsGreatest (Scan.hits p minuteMs (max (t - 1) (t - horizonMs)) t) t ↔ p t = true := by
    intro p
    constructor
    · rintro ⟨⟨_, hp, _⟩, _⟩
      exact hp
    · intro hp
      exact ⟨⟨hd, hp, by omega, Int.le_refl _⟩, fun u hu => hu.2.2.2⟩
  rw [due_eq_down, cliDue_eq_down, Scan.down_eq_some minuteMs_pos hfuel, Scan.down_eq_some minuteMs_pos hfuel]
  exact ⟨hone, hone⟩

end Due

/-! ## The engines -/

structure EnginesAgree (expr : String) : Prop where
  accept : (∃ s, parseCronExpression expr = .ok s) ↔ ∃ s, Cron.parseCronExpression expr = .ok s
  due : ∀ s s', parseCronExpression expr = .ok s → Cron.parseCronExpression expr = .ok s' →
    ∀ last now, Searchable last now → dueCronFire s last now = Cron.dueCronFire s' last now

/-- Nothing in the expression tells the engines apart: no byte order mark or wide step in
    what JavaScript's white space makes a well-formed expression, no next-line control in
    what Rust's does, and no minute that only a wrapped value matches. -/
structure Alike (expr : String) : Prop where
  cli : ∀ f, Cron.fieldsOf expr = some f → f.WellFormed → '\uFEFF' ∉ expr.toList ∧ NarrowSteps f
  agent : ∀ f, fieldsOf expr = some f → f.WellFormed → NarrowSteps f → '\u0085' ∉ expr.toList
  minutes : ∀ f, fieldsOf expr = some f → f.WellFormed → NarrowSteps f →
    ∀ ms, InCalendar ms → f.MatchAt Reaches ms → f.MatchAt Crontab.Denotes ms

section Engines

variable {expr : String}

/-- An expression that both accept has the same fields in both. -/
theorem both_fields {s : CronSchedule} {s' : Cron.CronSchedule} (hs : parseCronExpression expr = .ok s)
    (hs' : Cron.parseCronExpression expr = .ok s') :
    ∃ f, fieldsOf expr = some f ∧ f.WellFormed ∧ NarrowSteps f ∧ ParsedAs f s ∧ Cron.ParsedAs f s' := by
  obtain ⟨f, hf, hwf, hnarrow⟩ := accepts_iff.mp ⟨s, hs⟩
  obtain ⟨f₁, hf₁, hp⟩ := parseCronExpression_ok hs
  obtain ⟨f₂, hf₂, hwf₂, hp'⟩ := Cron.parseCronExpression_ok hs'
  rw [← fieldsOf_eq (no_nextLine hf₂ hwf₂) (no_mark hf hwf)] at hf₂
  obtain rfl := Option.some.inj (hf.symm.trans hf₁)
  obtain rfl := Option.some.inj (hf.symm.trans hf₂)
  exact ⟨f, hf, hwf, hnarrow, hp, hp'⟩

theorem EnginesAgree.alike (h : EnginesAgree expr) : Alike expr := by
  refine ⟨fun f hf hwf => ?_, fun f hf hwf hnarrow => ?_, fun f hf hwf hnarrow ms hin hm => ?_⟩
  · obtain ⟨f', hf', hwf', hnarrow⟩ := accepts_iff.mp (h.accept.mpr (Cron.parseCronExpression_ok_iff.mpr ⟨f, hf, hwf⟩))
    have hbom := no_mark hf' hwf'
    rw [← fieldsOf_eq (no_nextLine hf hwf) hbom] at hf
    obtain rfl := Option.some.inj (hf.symm.trans hf')
    exact ⟨hbom, hnarrow⟩
  · obtain ⟨f', hf', hwf'⟩ := Cron.parseCronExpression_ok_iff.mp (h.accept.mp (accepts_iff.mpr ⟨f, hf, hwf, hnarrow⟩))
    exact no_nextLine hf' hwf'
  · obtain ⟨s, hs⟩ := accepts_iff.mpr ⟨f, hf, hwf, hnarrow⟩
    obtain ⟨s', hs'⟩ := h.accept.mp ⟨s, hs⟩
    obtain ⟨f', hf', _, _, hp, hp'⟩ := both_fields hs hs'
    obtain rfl := Option.some.inj (hf.symm.trans hf')
    -- The minute of the instant, looked at alone.
    have hfloor : InCalendar (floorToMinute ms) := by
      unfold InCalendar dayOf dayMs floorToMinute minuteMs at *
      omega
    have hone : Searchable (floorToMinute ms - 1) (floorToMinute ms) := by
      intro t hlow hhigh
      obtain rfl : t = floorToMinute ms := by omega
      exact hfloor
    have hdvd : minuteMs ∣ floorToMinute ms := Int.dvd_mul_left _ _
    have hagent := (due_one s s' hdvd).1.mpr (hp.matches_iff.mpr ⟨hfloor, (matchAt_floor ms).mpr hm⟩)
    rw [h.due s s' hs hs' _ _ hone] at hagent
    exact (matchAt_floor ms).mp (hp'.matches_iff.mp ((due_one s s' hdvd).2.mp hagent)).2

theorem Alike.agree (h : Alike expr) : EnginesAgree expr := by
  refine ⟨⟨fun hs => ?_, fun hs => ?_⟩, fun s s' hs hs' last now hcal => ?_⟩
  · obtain ⟨f, hf, hwf, hnarrow⟩ := accepts_iff.mp hs
    rw [fieldsOf_eq (h.agent f hf hwf hnarrow) (no_mark hf hwf)] at hf
    exact Cron.parseCronExpression_ok_iff.mpr ⟨f, hf, hwf⟩
  · obtain ⟨f, hf, hwf⟩ := Cron.parseCronExpression_ok_iff.mp hs
    obtain ⟨hbom, hnarrow⟩ := h.cli f hf hwf
    rw [← fieldsOf_eq (no_nextLine hf hwf) hbom] at hf
    exact accepts_iff.mpr ⟨f, hf, hwf, hnarrow⟩
  · obtain ⟨f, hf, hwf, hnarrow, hp, hp'⟩ := both_fields hs hs'
    refine due_congr fun t hlow hhigh => ?_
    have hin := hcal t hlow hhigh
    rw [Bool.eq_iff_iff, hp.matches_iff, hp'.matches_iff]
    constructor
    · rintro ⟨_, hm⟩
      exact ⟨hin.inTime, h.minutes f hf hwf hnarrow t hin hm⟩
    · rintro ⟨_, hm⟩
      exact ⟨hin, hm.mono fun _ _ => reaches_of_denotes⟩

end Engines

/-- The engines agree exactly on the expressions that nothing tells them apart by. -/
theorem engines_agree_iff (expr : String) : EnginesAgree expr ↔ Alike expr := ⟨fun h => h.alike, fun h => h.agree⟩

/-! ## A step of 2^63 -/

def hugeStep : String := "*/9223372036854775808 * * * *"

def hugeFields : Crontab.Fields := ⟨"*/9223372036854775808".toList, ['*'], ['*'], ['*'], ['*']⟩

theorem hugeStep_item :
    Crontab.Item Crontab.minute "*/9223372036854775808".toList 0 59 9223372036854775808 :=
  @Crontab.Item.stepped Crontab.minute ['*'] "9223372036854775808".toList _ _ .star (Cron.allDigits_iff.mp rfl) (by decide)

theorem hugeStep_split : "*/9223372036854775808".toList.splitOn ',' = ["*/9223372036854775808".toList] :=
  List.splitOn_eq_singleton (by decide)

/-- The CLI's check accepts it, and the node does not. -/
theorem huge_step_accepted :
    ¬ EnginesAgree hugeStep ∧ (∃ s, Cron.parseCronExpression hugeStep = .ok s) ∧
      ¬ ∃ s, parseCronExpression hugeStep = .ok s := by
  have hcli : ∃ s, Cron.parseCronExpression hugeStep = .ok s := by
    refine Cron.parseCronExpression_ok_iff.mpr ⟨hugeFields, rfl, ?_, Crontab.wellFormed_star _, Crontab.wellFormed_star _,
      Crontab.wellFormed_star _, Crontab.wellFormed_star _⟩
    intro text htext
    have hmem : text ∈ "*/9223372036854775808".toList.splitOn ',' := htext
    rw [hugeStep_split, List.mem_singleton] at hmem
    rw [hmem]
    exact ⟨_, _, _, hugeStep_item⟩
  have hagent : ¬ ∃ s, parseCronExpression hugeStep = .ok s := by
    rw [accepts_iff]
    rintro ⟨f, hf, _, hnarrow⟩
    have hfields : fieldsOf hugeStep = some hugeFields := rfl
    obtain rfl := Option.some.inj (hfields.symm.trans hf)
    have hmem : "*/9223372036854775808".toList ∈ "*/9223372036854775808".toList.splitOn ',' := by
      rw [hugeStep_split]
      exact List.mem_singleton_self _
    have := hnarrow (Crontab.minute, hugeFields.minute) (List.mem_cons_self ..) _ hmem _ _ _ hugeStep_item
    exact absurd this (by decide)
  exact ⟨fun h => hagent (h.accept.mpr hcli), hcli, hagent⟩

end LaunchPad.Agent
