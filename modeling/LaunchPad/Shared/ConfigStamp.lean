/-
  LaunchPad.Shared.ConfigStamp — the config stamp on the CLI's side (`shared/src/secrets.ts`
  `stableJson`, `serviceConfigStamp`), beside the agent's (`Agent.Stamp`).

  `stableJson` sorts the entries of every object with `localeCompare`, a parameter here, and
  makes a new object of them. An object of JavaScript does not keep that order: its keys that
  are array indices come first, in numeric order (`OrdinaryOwnPropertyKeys`).

  As built the env keys 10 and 9 are in this order for both comparisons, and the CLI writes
  them the other way.

  Proved:
  - `quoteChar_eq`: both sides escape every character alike.
  - `ownKeys_eq_iff`: when an object keeps the order its entries were given in.
  - `stamps_agree_iff`: exactly when the two stamps are the same text.
-/
import LaunchPad.Agent.Stamp

namespace LaunchPad.Secrets

open Lib Agent

/-! ## Objects of JavaScript -/

def decimalValue (digits : List Char) : Nat := digits.foldl (fun n c => 10 * n + (c.toNat - '0'.toNat)) 0

/-- An array index: the shortest numeral of a number below 2^32 - 1. -/
def isArrayIndex (key : String) : Bool :=
  let digits := key.toList
  !digits.isEmpty && digits.all Char.isDigit && (digits.head? != some '0' || digits.length == 1)
    && decide (decimalValue digits < 4294967295)

def indexValue (key : String) : Nat := decimalValue key.toList

/-- The order of an object's keys, from the order they were added in. -/
def ownKeys (fields : List (String × String)) : List (String × String) :=
  ((fields.filter fun f => isArrayIndex f.1).mergeSort fun a b => decide (indexValue a.1 ≤ indexValue b.1))
    ++ fields.filter fun f => !isArrayIndex f.1

/-! ## `JSON.stringify` -/

/-- `UnicodeEscape`. -/
def unicodeEscape (n : Nat) : List Char :=
  ['\\', 'u', hexDigit (n / 4096), hexDigit (n / 256 % 16), hexDigit (n / 16 % 16), hexDigit (n % 16)]

/-- `QuoteJSONString`, a character. -/
def quoteChar (c : Char) : List Char :=
  match c.toNat with
  | 0x08 => ['\\', 'b']
  | 0x09 => ['\\', 't']
  | 0x0a => ['\\', 'n']
  | 0x0c => ['\\', 'f']
  | 0x0d => ['\\', 'r']
  | 0x22 => ['\\', '"']
  | 0x5c => ['\\', '\\']
  | n => if n < 0x20 then unicodeEscape n else [c]

def quote (s : String) : String := "\"" ++ String.ofList (s.toList.flatMap quoteChar) ++ "\""

/-- An object, its values already texts. -/
def objectText (fields : List (String × String)) : String :=
  "\x7b" ++ String.intercalate "," (fields.map fun f => quote f.1 ++ ":" ++ f.2) ++ "\x7d"

def arrayText (items : List String) : String := "[" ++ String.intercalate "," items ++ "]"

section Stamp

variable (localeCompare : String → String → Int)

/-- `stableJson` of an object: the replacer's `Object.fromEntries` of the sorted entries. -/
def stableObject (fields : List (String × String)) : String :=
  objectText (ownKeys (fields.mergeSort fun a b => decide (localeCompare a.1 b.1 ≤ 0)))

def serviceConfigStamp (config : ServiceConfig) : String :=
  let refs := config.secretRefs.mergeSort fun a b => decide (localeCompare a.name b.name ≤ 0)
  let volumes := config.volumes.mergeSort fun a b => decide (localeCompare a.name b.name ≤ 0)
  stableObject localeCompare <|
    [("env", stableObject localeCompare (config.env.map fun e => (e.1, quote e.2))),
     ("secretRefs", arrayText (refs.map fun r =>
        stableObject localeCompare [("name", quote r.name), ("ssm", quote r.ssm)])),
     ("restartAt", match config.restartAt with | some s => quote s | none => "null")]
    -- Omitted when empty: a service without volumes keeps the stamp it had before them.
    ++ if volumes.length > 0 then [("volumes", arrayText (volumes.map fun v =>
          stableObject localeCompare [("name", quote v.name), ("path", quote v.path)]))]
       else []

end Stamp

/-! ## The same texts -/

/-- Each character is escaped as the agent does. -/
theorem quoteChar_eq (c : Char) : quoteChar c = jsonChar c := by
  by_cases hascii : c.toNat < 128
  · have hall : ∀ n < 128, quoteChar (Char.ofNat n) = jsonChar (Char.ofNat n) := by decide +kernel
    have := hall c.toNat hascii
    rwa [Char.ofNat_toNat] at this
  · have hquote : quoteChar c = [c] := by
      unfold quoteChar
      split
      all_goals first | omega | rfl | skip
      rw [if_neg (by omega)]
    have hother : ∀ d : Char, d.toNat < 128 → c ≠ d := fun d hd h => hascii (h ▸ hd)
    rw [hquote]
    unfold jsonChar
    rw [if_neg (hother _ (by decide)), if_neg (hother _ (by decide))]
    repeat rw [if_neg (by omega)]

theorem quote_eq (s : String) : quote s = jsonString s := by
  unfold quote jsonString
  rw [show quoteChar = jsonChar from funext quoteChar_eq]

theorem objectText_eq (fields : List (String × String)) : objectText fields = jsonObject fields := by
  unfold objectText jsonObject
  simp only [quote_eq]

/-! ## The order of the keys -/

/-- Before an array index stand only smaller ones. -/
def IndexOrder (a b : String) : Prop := isArrayIndex b = true → isArrayIndex a = true ∧ indexValue a ≤ indexValue b

instance : DecidableRel IndexOrder := fun _ _ => inferInstanceAs (Decidable (_ → _))

/-- The array indices among the keys come first, in numeric order. -/
def IndicesFirst (keys : List String) : Prop := keys.Pairwise IndexOrder

instance (keys : List String) : Decidable (IndicesFirst keys) := inferInstanceAs (Decidable (List.Pairwise _ _))

theorem ownKeys_ordered (fields : List (String × String)) :
    (ownKeys fields).Pairwise fun a b => IndexOrder a.1 b.1 := by
  unfold ownKeys
  refine List.pairwise_append.mpr ⟨?_, ?_, fun a ha b hb hindex => ?_⟩
  · refine (SortBy.pairwise_sort (fun f : String × String => indexValue f.1) _).imp_of_mem fun ha _ hle _ => ⟨?_, hle⟩
    exact (List.mem_filter.mp ((List.mergeSort_perm _ _).mem_iff.mp ha)).2
  · refine List.Pairwise.imp_of_mem (R := fun _ _ => True) (fun _ hb _ hindex => ?_) (List.pairwise_of_forall fun _ _ => trivial)
    have := (List.mem_filter.mp hb).2
    rw [hindex] at this
    cases this
  · have := (List.mem_filter.mp hb).2
    rw [hindex] at this
    cases this

/-- An object keeps the order it was given exactly when its array indices came first. -/
theorem ownKeys_eq_iff {fields : List (String × String)} : ownKeys fields = fields ↔ IndicesFirst (fields.map (·.1)) := by
  unfold IndicesFirst
  rw [List.pairwise_map]
  constructor
  · intro h
    rw [← h]
    exact ownKeys_ordered fields
  · intro h
    have hparts : fields = (fields.filter fun f => isArrayIndex f.1) ++ fields.filter fun f => !isArrayIndex f.1 := by
      induction fields with
      | nil => rfl
      | cons f fields ih =>
        obtain ⟨hf, hrest⟩ := List.pairwise_cons.mp h
        by_cases hindex : isArrayIndex f.1 = true
        · rw [List.filter_cons, List.filter_cons, if_pos hindex, if_neg (by simp [hindex]), List.cons_append, ← ih hrest]
        · -- After another key no array index stands.
          have hnone : ∀ g ∈ fields, isArrayIndex g.1 = false := by
            intro g hg
            rw [← Bool.not_eq_true]
            exact fun hg' => hindex (hf g hg hg').1
          rw [List.filter_cons, List.filter_cons, if_neg hindex, if_pos (by simp [hindex])]
          rw [List.filter_eq_nil_iff.mpr fun g hg => by simp [hnone g hg]]
          rw [List.filter_eq_self.mpr fun g hg => by simp [hnone g hg], List.nil_append]
    have hsorted : ((fields.filter fun f => isArrayIndex f.1).mergeSort fun a b => decide (indexValue a.1 ≤ indexValue b.1)) =
        fields.filter fun f => isArrayIndex f.1 := by
      refine List.mergeSort_of_pairwise ?_
      refine (h.filter _).imp_of_mem fun _ hb horder => ?_
      exact decide_eq_true (horder (List.mem_filter.mp hb).2).2
    unfold ownKeys
    rw [hsorted, ← hparts]

/-! ## The two stamps -/

section Agree

variable {localeCompare : String → String → Int}

/-- The comparison orders these texts as their bytes do. -/
def OrdersAlike (localeCompare : String → String → Int) (keys : List String) : Prop :=
  ∀ a ∈ keys, ∀ b ∈ keys, localeCompare a b ≤ 0 ↔ a ≤ b

/-- The comparison on the field names of the stamp's own objects. -/
structure FieldOrder (localeCompare : String → String → Int) : Prop where
  stamp : OrdersAlike localeCompare ["env", "restartAt", "secretRefs", "volumes"]
  secretRef : OrdersAlike localeCompare ["name", "ssm"]
  volume : OrdersAlike localeCompare ["name", "path"]

/-- The names of a service stand in the same order for both comparisons. -/
structure SameOrder (localeCompare : String → String → Int) (c : ServiceConfig) : Prop where
  env : OrdersAlike localeCompare (c.env.map (·.1))
  secretRefs : OrdersAlike localeCompare (c.secretRefs.map (·.name))
  volumes : OrdersAlike localeCompare (c.volumes.map (·.name))

theorem sort_alike {α : Type} {name : α → String} {l : List α} (h : OrdersAlike localeCompare (l.map name)) :
    (l.mergeSort fun a b => decide (localeCompare (name a) (name b) ≤ 0)) =
      l.mergeSort fun a b => decide (name a ≤ name b) := by
  refine SortBy.sort_of_agree fun a ha b hb => ?_
  exact decide_eq_decide.mpr (h _ (List.mem_map_of_mem ha) _ (List.mem_map_of_mem hb))

/-- The text of an object, from its fields in the order of their names. -/
theorem stableObject_eq {fields m : List (String × String)} (h : OrdersAlike localeCompare (fields.map (·.1)))
    (hperm : fields.Perm m) (hsorted : SortedMap.Sorted m) : stableObject localeCompare fields = jsonObject (ownKeys m) := by
  have hkeys : (fields.map (·.1)).Nodup := (hperm.map _).nodup_iff.mpr hsorted.nodup
  have hm : (m.mergeSort fun a b => decide (a.1 ≤ b.1)) = m :=
    List.mergeSort_of_pairwise (hsorted.imp fun h => decide_eq_true (le_of_lt h))
  unfold stableObject
  rw [sort_alike h, SortBy.sort_congr hperm hkeys, hm, objectText_eq]

/-- No field of the stamp's own objects is an array index. -/
theorem stableObject_fields {fields m : List (String × String)} (h : OrdersAlike localeCompare (fields.map (·.1)))
    (hperm : fields.Perm m) (hsorted : SortedMap.Sorted m) (hindices : IndicesFirst (m.map (·.1))) :
    stableObject localeCompare fields = jsonObject m := by
  rw [stableObject_eq h hperm hsorted, ownKeys_eq_iff.mpr hindices]

/-- Only the keys decide the order. -/
theorem ownKeys_map (g : String → String) (fields : List (String × String)) :
    ownKeys (fields.map fun e => (e.1, g e.2)) = (ownKeys fields).map fun e => (e.1, g e.2) := by
  unfold ownKeys
  rw [List.filter_map, List.filter_map, List.map_append]
  congr 1
  exact (List.map_mergeSort (f := fun e : String × String => (e.1, g e.2))
    (s := fun a b => decide (indexValue a.1 ≤ indexValue b.1)) fun _ _ _ _ => rfl).symm

/-- A reference or a volume. -/
theorem record_text {first second : String} (a b : String) (h : OrdersAlike localeCompare [first, second])
    (hlt : first < second) (hindices : IndicesFirst [first, second]) :
    stableObject localeCompare [(first, quote a), (second, quote b)] =
      jsonObject [(first, jsonString a), (second, jsonString b)] := by
  rw [quote_eq, quote_eq]
  exact stableObject_fields h (List.Perm.refl _) (List.pairwise_pair.mpr hlt) hindices

theorem refs_text (hfields : FieldOrder localeCompare) (refs : List SecretRef) :
    arrayText (refs.map fun r => stableObject localeCompare [("name", quote r.name), ("ssm", quote r.ssm)]) =
      refsJson refs := by
  have hrecord : ∀ r : SecretRef, stableObject localeCompare [("name", quote r.name), ("ssm", quote r.ssm)] =
      jsonObject [("name", jsonString r.name), ("ssm", jsonString r.ssm)] :=
    fun r => record_text r.name r.ssm hfields.secretRef (by decide) (by decide)
  simp only [hrecord]
  rfl

theorem volumes_text (hfields : FieldOrder localeCompare) (volumes : List VolumeDecl) :
    arrayText (volumes.map fun v => stableObject localeCompare [("name", quote v.name), ("path", quote v.path)]) =
      volumesJson volumes := by
  have hrecord : ∀ v : VolumeDecl, stableObject localeCompare [("name", quote v.name), ("path", quote v.path)] =
      jsonObject [("name", jsonString v.name), ("path", jsonString v.path)] :=
    fun v => record_text v.name v.path hfields.volume (by decide) (by decide)
  simp only [hrecord]
  rfl

theorem env_text {c : ServiceConfig} (henv : SortedMap.Sorted c.env) (hsame : OrdersAlike localeCompare (c.env.map (·.1))) :
    stableObject localeCompare (c.env.map fun e => (e.1, quote e.2)) =
      jsonObject ((ownKeys c.env).map fun e => (e.1, jsonString e.2)) := by
  have hquote : (c.env.map fun e => (e.1, quote e.2)) = c.env.map fun e => (e.1, jsonString e.2) := by
    simp only [quote_eq]
  have hkeys : (c.env.map fun e => (e.1, jsonString e.2)).map (·.1) = c.env.map (·.1) := by
    rw [List.map_map]
    rfl
  rw [hquote, stableObject_eq (by rw [hkeys]; exact hsame) (List.Perm.refl _) (henv.mapValues fun _ => jsonString),
    ownKeys_map jsonString]

theorem OrdersAlike.subset {keys keys' : List String} (h : OrdersAlike localeCompare keys) (hsub : keys' ⊆ keys) :
    OrdersAlike localeCompare keys' := fun a ha b hb => h a (hsub ha) b (hsub hb)

/-- The stamp's own fields, of which the last is there with volumes only. -/
theorem stamp_fields (hfields : FieldOrder localeCompare) (env refs restartAt : String) (volumes : Option String) :
    stableObject localeCompare
        ([("env", env), ("secretRefs", refs), ("restartAt", restartAt)] ++ volumes.toList.map fun v => ("volumes", v)) =
      jsonObject (("env", env) :: ("restartAt", restartAt) :: ("secretRefs", refs) ::
        volumes.toList.map fun v => ("volumes", v)) := by
  have hswap : ∀ tail : List (String × String),
      ([("env", env), ("secretRefs", refs), ("restartAt", restartAt)] ++ tail).Perm
        (("env", env) :: ("restartAt", restartAt) :: ("secretRefs", refs) :: tail) :=
    fun tail => (List.Perm.swap _ _ tail).cons _
  cases volumes with
  | none =>
    have hlt : (["env", "restartAt", "secretRefs"] : List String).Pairwise (· < ·) := by decide
    have hindices : IndicesFirst ["env", "restartAt", "secretRefs"] := by decide
    have hsub : ["env", "secretRefs", "restartAt"] ⊆ ["env", "restartAt", "secretRefs", "volumes"] := by decide
    exact stableObject_fields (hfields.stamp.subset hsub) (hswap []) (List.pairwise_map.mp hlt) hindices
  | some v =>
    have hlt : (["env", "restartAt", "secretRefs", "volumes"] : List String).Pairwise (· < ·) := by decide
    have hindices : IndicesFirst ["env", "restartAt", "secretRefs", "volumes"] := by decide
    have hsub : ["env", "secretRefs", "restartAt", "volumes"] ⊆ ["env", "restartAt", "secretRefs", "volumes"] := by decide
    exact stableObject_fields (hfields.stamp.subset hsub) (hswap [("volumes", v)]) (List.pairwise_map.mp hlt) hindices

/-- What both stamps list after the env. -/
def stampRest (c : ServiceConfig) : List (String × String) :=
  ("restartAt", c.restartAt.elim "null" jsonString) :: ("secretRefs", refsJson (stampedRefs c)) ::
    if (stampedVolumes c).isEmpty then [] else [("volumes", volumesJson (stampedVolumes c))]

theorem agentStamp_eq (c : ServiceConfig) : Agent.serviceConfigStamp c =
    jsonObject (("env", jsonObject (c.env.map fun e => (e.1, jsonString e.2))) :: stampRest c) := by
  unfold Agent.serviceConfigStamp stampRest
  cases c.restartAt <;> rfl

theorem cliStamp_eq (hfields : FieldOrder localeCompare) {c : ServiceConfig} (henv : SortedMap.Sorted c.env)
    (hsame : SameOrder localeCompare c) : serviceConfigStamp localeCompare c =
      jsonObject (("env", jsonObject ((ownKeys c.env).map fun e => (e.1, jsonString e.2))) :: stampRest c) := by
  have hrestart : (match c.restartAt with | some s => quote s | none => "null") = c.restartAt.elim "null" jsonString := by
    cases c.restartAt with
    | none => rfl
    | some s => exact quote_eq s
  have hrefs : (c.secretRefs.mergeSort fun a b => decide (localeCompare a.name b.name ≤ 0)) = stampedRefs c :=
    sort_alike hsame.secretRefs
  have hvolumes : (c.volumes.mergeSort fun a b => decide (localeCompare a.name b.name ≤ 0)) = stampedVolumes c :=
    sort_alike hsame.volumes
  unfold serviceConfigStamp stampRest
  simp only [env_text henv hsame.env, hrefs, refs_text hfields, hvolumes, volumes_text hfields, hrestart]
  by_cases hnone : (stampedVolumes c).isEmpty = true
  · rw [if_pos hnone, if_neg (by simpa using hnone)]
    exact stamp_fields hfields _ _ _ none
  · rw [if_neg hnone, if_pos (List.length_pos_iff.mpr fun h => hnone (List.isEmpty_iff.mpr h))]
    exact stamp_fields hfields _ _ _ (some _)

/-- The same stamp is of the same env text, and that of the same order. -/
theorem ownKeys_of_agree (hfields : FieldOrder localeCompare) {c : ServiceConfig} (henv : SortedMap.Sorted c.env)
    (hsame : SameOrder localeCompare c) (h : Agent.serviceConfigStamp c = serviceConfigStamp localeCompare c) :
    ownKeys c.env = c.env := by
  rw [agentStamp_eq, cliStamp_eq hfields henv hsame] at h
  have htext := congrArg String.toList h
  have hname : (jsonString "env").toList = "\"env\"".toList := by decide
  rw [jsonObject_cons, jsonObject_cons] at htext
  unfold fieldText at htext
  simp only [hname, List.cons_append, List.append_assoc, List.cons.injEq, true_and, List.append_cancel_left_eq] at htext
  exact (env_delimited _ _ _ _ htext).1.symm

/-- For every comparison that orders the names of a service as their bytes, the two stamps
    are the same text exactly when its env keys that are array indices come first, in
    numeric order. -/
theorem stamps_agree_iff (hfields : FieldOrder localeCompare) {c : ServiceConfig} (henv : SortedMap.Sorted c.env)
    (hsame : SameOrder localeCompare c) :
    Agent.serviceConfigStamp c = serviceConfigStamp localeCompare c ↔ IndicesFirst (c.env.map (·.1)) := by
  rw [← ownKeys_eq_iff]
  refine ⟨ownKeys_of_agree hfields henv hsame, fun h => ?_⟩
  rw [agentStamp_eq, cliStamp_eq hfields henv hsame, h]

end Agree

/-! ### Two ports -/

/-- The order of bytes as a comparison. -/
def compareBytes (a b : String) : Int := if a ≤ b then (if b ≤ a then 0 else -1) else 1

theorem compareBytes_alike (keys : List String) : OrdersAlike compareBytes keys := by
  intro a _ b _
  unfold compareBytes
  by_cases hab : a ≤ b
  · rw [if_pos hab]
    refine ⟨fun _ => hab, fun _ => ?_⟩
    split <;> decide
  · rw [if_neg hab]
    exact ⟨fun h => absurd h (by decide), fun h => absurd h hab⟩

theorem compareBytes_fields : FieldOrder compareBytes :=
  ⟨compareBytes_alike _, compareBytes_alike _, compareBytes_alike _⟩

theorem compareBytes_same (c : ServiceConfig) : SameOrder compareBytes c :=
  ⟨compareBytes_alike _, compareBytes_alike _, compareBytes_alike _⟩

def relay (env : List (String × String)) : ServiceConfig :=
  { project := "shop", service := "relay", image := "relay:1", cpu := 256, memory := 512, ingress := none, env }

/-- Keys of letters. -/
theorem stamps_agree_letters :
    Agent.serviceConfigStamp (relay [("A_VAR", "1"), ("B_VAR", "2")]) =
      serviceConfigStamp compareBytes (relay [("A_VAR", "1"), ("B_VAR", "2")]) := by
  have hsorted : SortedMap.Sorted [("A_VAR", "1"), ("B_VAR", "2")] := List.pairwise_pair.mpr (by decide)
  exact (stamps_agree_iff compareBytes_fields hsorted (compareBytes_same _)).mpr (by decide)

/-- The port 10 comes before the port 9 for both comparisons, and after it in an object. -/
theorem port_keys_reordered : SortedMap.Sorted (relay [("10", "x"), ("9", "y")]).env ∧
    SameOrder compareBytes (relay [("10", "x"), ("9", "y")]) ∧
    Agent.serviceConfigStamp (relay [("10", "x"), ("9", "y")]) ≠
      serviceConfigStamp compareBytes (relay [("10", "x"), ("9", "y")]) := by
  have hsorted : SortedMap.Sorted (relay [("10", "x"), ("9", "y")]).env := List.pairwise_pair.mpr (by decide)
  refine ⟨hsorted, compareBytes_same _, fun h => ?_⟩
  have hkept := ownKeys_eq_iff.mp (ownKeys_of_agree compareBytes_fields hsorted (compareBytes_same _) h)
  exact absurd hkept (by decide)

end LaunchPad.Secrets
