/-
  LaunchPad.Agent.Stamp — the config stamp as a text that determines what goes into it
  (`types.rs` `service_config_stamp`): a JSON object of the env, the restart time, the secret
  references and the volumes, both lists by name.

  Every part of the text marks its own end: strings by their quotes, with the quotes inside
  escaped, records and lists by their brackets.

  Proved:
  - `unescape_jsonChar`: a character is read back from its escaped text.
  - `serviceConfigStamp_inj`: two services have the same stamp exactly when their env,
    restart time, secret references and volumes are the same, the lists up to their order.
  - `stamp_identifies_config`: with distinct names in both lists, the order is no matter at all.
-/
import LaunchPad.Agent.Docker
import LaunchPad.Lib.Delimited
import LaunchPad.Lib.SortBy
import Mathlib.Data.String.Basic

namespace LaunchPad.Agent

open Lib

/-! ## Escaped characters -/

def hexValue (c : Char) : Nat := "0123456789abcdef".toList.idxOf c

/-- The character that an escaped text starts with, and the rest. -/
def unescape : List Char → Option (Char × List Char)
  | '\\' :: 'b' :: rest => some (Char.ofNat 8, rest)
  | '\\' :: 't' :: rest => some (Char.ofNat 9, rest)
  | '\\' :: 'n' :: rest => some (Char.ofNat 10, rest)
  | '\\' :: 'f' :: rest => some (Char.ofNat 12, rest)
  | '\\' :: 'r' :: rest => some (Char.ofNat 13, rest)
  | '\\' :: 'u' :: _ :: _ :: high :: low :: rest => some (Char.ofNat (16 * hexValue high + hexValue low), rest)
  | '\\' :: c :: rest => some (c, rest)
  | c :: rest => some (c, rest)
  | [] => none

theorem unescape_plain {c : Char} (h : c ≠ '\\') (rest : List Char) : unescape (c :: rest) = some (c, rest) := by
  unfold unescape
  split
  all_goals simp_all

theorem unescape_jsonChar (c : Char) (rest : List Char) : unescape (jsonChar c ++ rest) = some (c, rest) := by
  have hnat : ∀ n, c.toNat = n → Char.ofNat n = c := by
    rintro n rfl
    exact Char.ofNat_toNat c
  unfold jsonChar
  split
  · rename_i h
    subst h
    rfl
  split
  · rename_i h
    subst h
    rfl
  split
  · rename_i h
    exact congrArg (fun c => some (c, rest)) (hnat 8 h)
  split
  · rename_i h
    exact congrArg (fun c => some (c, rest)) (hnat 9 h)
  split
  · rename_i h
    exact congrArg (fun c => some (c, rest)) (hnat 10 h)
  split
  · rename_i h
    exact congrArg (fun c => some (c, rest)) (hnat 12 h)
  split
  · rename_i h
    exact congrArg (fun c => some (c, rest)) (hnat 13 h)
  split
  · have hhex : ∀ n < 32, 16 * hexValue (hexDigit (n / 16)) + hexValue (hexDigit (n % 16)) = n := by decide
    rename_i h
    exact congrArg (fun c => some (c, rest)) (hnat _ (hhex _ h).symm)
  · rename_i hplain _ _ _ _ _ _
    exact unescape_plain hplain rest

theorem jsonChar_delimited : Delimited jsonChar := Delimited.of_reader unescape_jsonChar

theorem jsonChar_avoids : Delimited.Avoids jsonChar '"' := by
  intro c
  unfold jsonChar
  split
  · exact ⟨_, _, rfl, by decide⟩
  repeat
    split
    · exact ⟨_, _, rfl, by decide⟩
  rename_i hquote _ _ _ _ _ _ _
  exact ⟨c, [], rfl, hquote⟩

/-! ## Strings, records and lists -/

theorem jsonString_toList (s : String) : (jsonString s).toList = ['"'] ++ (s.toList.flatMap jsonChar ++ ['"']) := by
  have hbody : (String.ofList (s.toList.flatMap jsonChar)).toList = s.toList.flatMap jsonChar := String.toList_ofList
  unfold jsonString
  rw [String.toList_append, String.toList_append, hbody, List.append_assoc]
  rfl

theorem jsonString_delimited : Delimited fun s : String => (jsonString s).toList := by
  have hbody : Delimited fun s : String => s.toList.flatMap jsonChar ++ ['"'] :=
    (Delimited.terminated jsonChar_delimited jsonChar_avoids).comap fun _ _ => String.toList_injective
  intro s t x y h
  simp only [jsonString_toList, List.append_assoc] at h
  have := hbody s t x y
  simp only [List.append_assoc] at this
  exact this (List.append_cancel_left h)

/-- A key, a fixed text and a value, each a JSON string. -/
theorem jsonPair_delimited (before between after : List Char) : Delimited fun e : String × String =>
    before ++ ((jsonString e.1).toList ++ (between ++ (jsonString e.2).toList)) ++ after := by
  have hvalue : Delimited fun s : String => between ++ (jsonString s).toList := by
    have := jsonString_delimited.closed between []
    simpa using this
  exact (jsonString_delimited.pair hvalue).closed before after

theorem jsonObject_toList (fields : List (String × String)) : (jsonObject fields).toList =
    ['{'] ++ [','].intercalate (fields.map fun f => (jsonString f.1 ++ ":" ++ f.2).toList) ++ ['}'] := by
  unfold jsonObject
  rw [String.toList_append, String.toList_append, String.toList_intercalate, List.map_map]
  rfl

/-- A field of an object. -/
def fieldText (f : String × String) : List Char := (jsonString f.1).toList ++ (':' :: f.2.toList)

theorem jsonObject_cons (f : String × String) (fields : List (String × String)) : (jsonObject (f :: fields)).toList =
    '{' :: (fieldText f ++ ((fields.flatMap fun g => ',' :: fieldText g) ++ ['}'])) := by
  have hfield : ∀ g : String × String, (jsonString g.1 ++ ":" ++ g.2).toList = fieldText g := by
    intro g
    rw [String.toList_append, String.toList_append, List.append_assoc]
    rfl
  rw [jsonObject_toList, List.map_cons, Delimited.intercalate_cons, List.flatMap_map]
  simp only [hfield, List.cons_append, List.nil_append, List.append_assoc]

theorem jsonArray_toList (items : List String) : (jsonArray items).toList =
    ['['] ++ [','].intercalate (items.map String.toList) ++ [']'] := by
  unfold jsonArray
  rw [String.toList_append, String.toList_append, String.toList_intercalate]
  rfl

/-- The env of a stamp. -/
theorem env_delimited : Delimited fun env : List (String × String) =>
    (jsonObject (env.map fun e => (e.1, jsonString e.2))).toList := by
  have hitem := jsonPair_delimited [] [':'] []
  have havoid : Delimited.Avoids (fun e : String × String =>
      [] ++ ((jsonString e.1).toList ++ ([':'] ++ (jsonString e.2).toList)) ++ []) '}' := by
    intro e
    dsimp only
    rw [jsonString_toList]
    exact ⟨'"', _, rfl, by decide⟩
  have hobject := Delimited.bracketed hitem havoid (by decide : ',' ≠ '}') ['{']
  intro env env' x y h
  refine hobject env env' x y ?_
  simpa [jsonObject_toList, List.map_map, Function.comp_def] using h

/-- A list of records of a stamp, each an object with two keys. -/
theorem records_delimited {α : Type} (first second : String) {fields : α → String × String}
    (hfields : Function.Injective fields) : Delimited fun l : List α =>
      (jsonArray (l.map fun a => jsonObject [(first, jsonString (fields a).1), (second, jsonString (fields a).2)])).toList := by
  have hpair := jsonPair_delimited (['{'] ++ (jsonString first).toList ++ [':'])
    ([','] ++ (jsonString second).toList ++ [':']) ['}']
  have hitem := hpair.comap fun _ _ h => hfields h
  have hlist := Delimited.bracketed hitem (fun a => ⟨'{', _, rfl, by decide⟩) (by decide : ',' ≠ ']') ['[']
  intro l m x y h
  refine hlist l m x y ?_
  simpa [jsonArray_toList, jsonObject_toList, List.map_map, Function.comp_def, List.intercalate_cons_cons] using h

theorem restartAt_delimited : Delimited fun o : Option String => (o.elim "null" jsonString).toList := by
  rintro (_ | s) (_ | t) x y h
  · exact ⟨rfl, List.append_cancel_left h⟩
  · simp only [Option.elim, jsonString_toList] at h
    exact absurd (List.cons.inj h).1 (by decide)
  · simp only [Option.elim, jsonString_toList] at h
    exact absurd (List.cons.inj h).1 (by decide)
  · obtain ⟨rfl, hxy⟩ := jsonString_delimited s t x y h
    exact ⟨rfl, hxy⟩

/-! ## The stamp -/

/-- The lists of a stamp, by name. -/
def stampedRefs (c : ServiceConfig) : List SecretRef := c.secretRefs.mergeSort fun a b => decide (a.name ≤ b.name)
def stampedVolumes (c : ServiceConfig) : List VolumeDecl := c.volumes.mergeSort fun a b => decide (a.name ≤ b.name)

theorem stampedRefs_perm (c : ServiceConfig) : (stampedRefs c).Perm c.secretRefs := List.mergeSort_perm _ _
theorem stampedVolumes_perm (c : ServiceConfig) : (stampedVolumes c).Perm c.volumes := List.mergeSort_perm _ _

def refsJson (refs : List SecretRef) : String :=
  jsonArray (refs.map fun r => jsonObject [("name", jsonString r.name), ("ssm", jsonString r.ssm)])

def volumesJson (volumes : List VolumeDecl) : String :=
  jsonArray (volumes.map fun v => jsonObject [("name", jsonString v.name), ("path", jsonString v.path)])

theorem secretRef_fields : Function.Injective fun r : SecretRef => (r.name, r.ssm) := by
  intro r r' h
  obtain ⟨hname, hssm⟩ := Prod.mk.inj h
  cases r
  cases r'
  simp_all

theorem volumeDecl_fields : Function.Injective fun v : VolumeDecl => (v.name, v.path) := by
  intro v v' h
  obtain ⟨hname, hpath⟩ := Prod.mk.inj h
  cases v
  cases v'
  simp_all

theorem refsJson_delimited : Delimited fun refs => (refsJson refs).toList := by
  have h := records_delimited "name" "ssm" secretRef_fields
  dsimp only at h
  exact h

theorem volumesJson_delimited : Delimited fun volumes => (volumesJson volumes).toList := by
  have h := records_delimited "name" "path" volumeDecl_fields
  dsimp only at h
  exact h

/-- The end of a stamp. -/
def volumesTail (volumes : List VolumeDecl) : List Char :=
  if volumes.isEmpty then ['}'] else ",\"volumes\":".toList ++ (volumesJson volumes).toList ++ ['}']

theorem serviceConfigStamp_toList (c : ServiceConfig) : (serviceConfigStamp c).toList =
    "\x7b\"env\":".toList ++ ((jsonObject (c.env.map fun e => (e.1, jsonString e.2))).toList ++
      (",\"restartAt\":".toList ++ ((c.restartAt.elim "null" jsonString).toList ++
        (",\"secretRefs\":".toList ++ ((refsJson (stampedRefs c)).toList ++ volumesTail (stampedVolumes c)))))) := by
  have henv : (jsonString "env").toList = "\"env\"".toList := by decide
  have hrestart : (jsonString "restartAt").toList = "\"restartAt\"".toList := by decide
  have hrefs : (jsonString "secretRefs").toList = "\"secretRefs\"".toList := by decide
  have hvolumes : (jsonString "volumes").toList = "\"volumes\"".toList := by decide
  have hfields : serviceConfigStamp c = jsonObject (("env", jsonObject (c.env.map fun e => (e.1, jsonString e.2))) ::
      ("restartAt", c.restartAt.elim "null" jsonString) :: ("secretRefs", refsJson (stampedRefs c)) ::
        if (stampedVolumes c).isEmpty then [] else [("volumes", volumesJson (stampedVolumes c))]) := by
    unfold serviceConfigStamp
    cases c.restartAt <;> rfl
  rw [hfields, jsonObject_cons]
  unfold volumesTail
  by_cases hempty : (stampedVolumes c).isEmpty
  · rw [if_pos hempty, if_pos hempty]
    simp [fieldText, henv, hrestart, hrefs]
  · rw [if_neg hempty, if_neg hempty]
    simp [fieldText, henv, hrestart, hrefs, hvolumes]

/-- Two services with the same stamp: the lists may stand in another order. -/
structure StampedAlike (a b : ServiceConfig) : Prop where
  env : a.env = b.env
  restartAt : a.restartAt = b.restartAt
  secretRefs : stampedRefs a = stampedRefs b
  volumes : stampedVolumes a = stampedVolumes b

theorem volumesTail_inj {l m : List VolumeDecl} (h : volumesTail l = volumesTail m) : l = m := by
  unfold volumesTail at h
  split at h
  · rename_i hl
    split at h
    · rename_i hm
      rw [List.isEmpty_iff.mp hl, List.isEmpty_iff.mp hm]
    · exact absurd (List.cons.inj h).1 (by decide)
  · split at h
    · exact absurd (List.cons.inj h).1 (by decide)
    · simp only [List.append_assoc] at h
      exact (volumesJson_delimited l m _ _ (List.append_cancel_left h)).1

/-- The stamp determines what goes into it. -/
theorem serviceConfigStamp_inj {a b : ServiceConfig} : serviceConfigStamp a = serviceConfigStamp b ↔ StampedAlike a b := by
  constructor
  · intro h
    have h := congrArg String.toList h
    rw [serviceConfigStamp_toList, serviceConfigStamp_toList] at h
    obtain ⟨henv, h⟩ := env_delimited _ _ _ _ (List.append_cancel_left h)
    obtain ⟨hrestart, h⟩ := restartAt_delimited _ _ _ _ (List.append_cancel_left h)
    obtain ⟨hrefs, h⟩ := refsJson_delimited _ _ _ _ (List.append_cancel_left h)
    exact ⟨henv, hrestart, hrefs, volumesTail_inj h⟩
  · intro ⟨henv, hrestart, hrefs, hvolumes⟩
    rw [← String.toList_inj, serviceConfigStamp_toList, serviceConfigStamp_toList, henv, hrestart, hrefs, hvolumes]

/-- No secret reference and no volume is declared under a name twice. -/
structure DistinctNames (c : ServiceConfig) : Prop where
  secretRefs : (c.secretRefs.map (·.name)).Nodup
  volumes : (c.volumes.map (·.name)).Nodup

/-- Two services have the same stamp exactly when they have the same env and restart time,
    and the same references and volumes, in whatever order they are listed. -/
theorem stamp_identifies_config {a b : ServiceConfig} (ha : DistinctNames a) (hb : DistinctNames b) :
    serviceConfigStamp a = serviceConfigStamp b ↔ a.env = b.env ∧ a.restartAt = b.restartAt ∧
      (∀ r : SecretRef, r ∈ a.secretRefs ↔ r ∈ b.secretRefs) ∧ ∀ v : VolumeDecl, v ∈ a.volumes ↔ v ∈ b.volumes := by
  have hrefs : stampedRefs a = stampedRefs b ↔ ∀ r, r ∈ a.secretRefs ↔ r ∈ b.secretRefs :=
    SortBy.sort_eq_iff ha.secretRefs hb.secretRefs
  have hvolumes : stampedVolumes a = stampedVolumes b ↔ ∀ v, v ∈ a.volumes ↔ v ∈ b.volumes :=
    SortBy.sort_eq_iff ha.volumes hb.volumes
  rw [serviceConfigStamp_inj, ← hrefs, ← hvolumes]
  exact ⟨fun h => ⟨h.env, h.restartAt, h.secretRefs, h.volumes⟩, fun ⟨henv, hrestart, hr, hv⟩ => ⟨henv, hrestart, hr, hv⟩⟩

/-- A service with two references, listed either way. -/
def shopService (secretRefs : List SecretRef) : ServiceConfig :=
  { project := "shop", service := "web", image := "web:1", cpu := 256, memory := 512, ingress := none
    env := [("GREETING", "say \"hi\"")], secretRefs, volumes := [⟨"data", "/data"⟩] }

theorem stamp_identifies_config_shop :
    serviceConfigStamp (shopService [⟨"TOKEN", "/t"⟩, ⟨"KEY", "/k"⟩]) =
      serviceConfigStamp (shopService [⟨"KEY", "/k"⟩, ⟨"TOKEN", "/t"⟩]) ∧
    serviceConfigStamp (shopService [⟨"KEY", "/k"⟩]) ≠ serviceConfigStamp (shopService [⟨"KEY", "/other"⟩]) := by
  constructor
  · refine (stamp_identifies_config ⟨by decide, by decide⟩ ⟨by decide, by decide⟩).mpr
      ⟨rfl, rfl, fun r => ?_, fun v => Iff.rfl⟩
    simp only [shopService, List.mem_cons, List.not_mem_nil, or_false]
    exact Or.comm
  · intro h
    obtain ⟨-, -, hrefs, -⟩ := (stamp_identifies_config ⟨by decide, by decide⟩ ⟨by decide, by decide⟩).mp h
    have hmem := (hrefs ⟨"KEY", "/k"⟩).mp (List.mem_singleton.mpr rfl)
    exact absurd hmem (by decide)

end LaunchPad.Agent
