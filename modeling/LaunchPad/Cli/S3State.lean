/-
  LaunchPad.Cli.S3State — the state bucket as its clients use it (`aws/s3-state.ts`): reads
  that return a body with its ETag, and writes and deletions on a condition.

  The bucket is the journal of its writes. An ETag is the text of a version; that it is
  never empty matters, since `putJson` and `deleteObject` drop a condition that is.

  Proved:
  - `admits_current`: what a conditional write replaces is what its client read.
  - `s3Sem_grows`: a command adds one write to the journal, or none.
-/
import LaunchPad.Lib.Journal
import LaunchPad.Lib.Crew

namespace LaunchPad.Cli

open Lib

/-- The ETags of a store: one for each version. -/
structure Etags where
  of : Nat → String
  inj : Function.Injective of
  ne : ∀ v, of v ≠ ""

/-- A store that counts in strokes. -/
def strokes : Etags where
  of v := String.ofList (List.replicate (v + 1) '|')
  inj := by
    intro a b h
    have hlen := congrArg String.length h
    simpa using hlen
  ne := by
    intro v h
    have hlen := congrArg String.length h
    simp at hlen

/-- What a key holds: JSON, or a text `JSON.parse` refuses. -/
inductive Body (β : Type) where
  | parsed (raw : β)
  | garbled (text : String)
  deriving DecidableEq, Repr

structure S3Json (β : Type) where
  raw : β
  etag : String
  deriving DecidableEq, Repr

inductive S3Error where
  | preconditionFailed
  | noSuchKey
  | syntaxError
  deriving DecidableEq, Repr

structure PutJsonOptions where
  ifMatch : Option String := none
  ifNoneMatch : Option String := none
  deriving DecidableEq, Repr

inductive S3Op (κ β : Type) where
  | getJson (key : κ)
  | putJson (key : κ) (value : β) (options : PutJsonOptions)
  | deleteObject (key : κ) (ifMatch : Option String)
  /-- The client's clock. -/
  | nowIso

abbrev S3Resp {κ β : Type} : S3Op κ β → Type
  | .getJson _ => Except S3Error (Option (S3Json β))
  | .putJson _ _ _ => Except S3Error String
  | .deleteObject _ _ => Except S3Error Unit
  | .nowIso => String

/-- The bucket, with the client of each write; `none` for what was there before. -/
abbrev Bucketed (ι κ β : Type) := Journal (Option ι) κ (Body β)

section Store

variable {ι κ β : Type} [DecidableEq κ] (E : Etags)

def getJson (key : κ) (j : Bucketed ι κ β) : Except S3Error (Option (S3Json β)) :=
  match Journal.current key j with
  | none => .ok none
  | some (v, .parsed raw) => .ok (some ⟨raw, E.of v⟩)
  | some (_, .garbled _) => .error .syntaxError

/-- A condition is sent when it is not empty. -/
def sent : Option String → Option String
  | some e => if e = "" then none else some e
  | none => none

theorem sent_some {e : String} (h : e ≠ "") : sent (some e) = some e := if_neg h

/-- Whether a conditional request goes through. -/
def admits (ifMatch ifNoneMatch : Option String) (key : κ) (j : Bucketed ι κ β) : Except S3Error Unit :=
  match sent ifMatch, sent ifNoneMatch, Journal.current key j with
  | some _, _, none => .error .noSuchKey
  | some etag, _, some (v, _) => if E.of v = etag then .ok () else .error .preconditionFailed
  | none, some _, some _ => .error .preconditionFailed
  | none, _, _ => .ok ()

/-- What client `i`'s request does to the bucket, and its answer. -/
def s3Sem (i : ι) : (o : S3Op κ β) → Bucketed ι κ β → S3Resp o → Bucketed ι κ β → Prop
  | .getJson key, j, r, j' => r = getJson E key j ∧ j' = j
  | .putJson key value options, j, r, j' =>
    match admits E options.ifMatch options.ifNoneMatch key j with
    | .ok () => r = .ok (E.of j.length) ∧ j' = ⟨some i, key, some (.parsed value)⟩ :: j
    | .error e => r = .error e ∧ j' = j
  | .deleteObject key ifMatch, j, r, j' =>
    match admits E ifMatch none key j with
    | .ok () => r = .ok () ∧ j' = ⟨some i, key, none⟩ :: j
    | .error e => r = .error e ∧ j' = j
  | .nowIso, j, _, j' => j' = j

/-- The same, as a server that answers, at that time. -/
def s3Serve (now : String) (i : ι) : (o : S3Op κ β) → Bucketed ι κ β → S3Resp o × Bucketed ι κ β
  | .getJson key, j => (getJson E key j, j)
  | .putJson key value options, j =>
    match admits E options.ifMatch options.ifNoneMatch key j with
    | .ok () => (.ok (E.of j.length), ⟨some i, key, some (.parsed value)⟩ :: j)
    | .error e => (.error e, j)
  | .deleteObject key ifMatch, j =>
    match admits E ifMatch none key j with
    | .ok () => (.ok (), ⟨some i, key, none⟩ :: j)
    | .error e => (.error e, j)
  | .nowIso, j => (now, j)

theorem s3Serve_sem (now : String) (i : ι) (o : S3Op κ β) (j : Bucketed ι κ β) :
    s3Sem E i o j (s3Serve E now i o j).1 (s3Serve E now i o j).2 := by
  cases o with
  | getJson key => exact ⟨rfl, rfl⟩
  | putJson key value options =>
    simp only [s3Sem, s3Serve]
    cases admits E options.ifMatch options.ifNoneMatch key j <;> exact ⟨rfl, rfl⟩
  | deleteObject key ifMatch =>
    simp only [s3Sem, s3Serve]
    cases admits E ifMatch none key j <;> exact ⟨rfl, rfl⟩
  | nowIso => rfl

variable {E} {i : ι} {key : κ} {j j' : Bucketed ι κ β}

theorem s3Sem_put {value : β} {options : PutJsonOptions} {r : Except S3Error String}
    (h : s3Sem E i (.putJson key value options) j r j') :
    (admits E options.ifMatch options.ifNoneMatch key j = .ok () ∧ r = .ok (E.of j.length) ∧
        j' = ⟨some i, key, some (.parsed value)⟩ :: j) ∨
      (∃ e, r = .error e ∧ j' = j) := by
  simp only [s3Sem] at h
  split at h
  · rename_i ha
    exact .inl ⟨ha, h.1, h.2⟩
  · exact .inr ⟨_, h.1, h.2⟩

theorem s3Sem_delete {ifMatch : Option String} {r : Except S3Error Unit}
    (h : s3Sem E i (.deleteObject (β := β) key ifMatch) j r j') :
    (admits E ifMatch none key j = .ok () ∧ r = .ok () ∧ j' = ⟨some i, key, none⟩ :: j) ∨
      (∃ e, r = .error e ∧ j' = j) := by
  simp only [s3Sem] at h
  split at h
  · rename_i ha
    exact .inl ⟨ha, h.1, h.2⟩
  · exact .inr ⟨_, h.1, h.2⟩

/-- A request adds one write of its client, or none. -/
theorem s3Sem_grows {o : S3Op κ β} {r : S3Resp o} (h : s3Sem E i o j r j') :
    j' = j ∨ ∃ w, w.writer = some i ∧ j' = w :: j := by
  cases o with
  | getJson key => exact .inl h.2
  | putJson key value options =>
    rcases s3Sem_put h with ⟨_, _, he⟩ | ⟨_, _, he⟩
    · exact .inr ⟨_, rfl, he⟩
    · exact .inl he
  | deleteObject key ifMatch =>
    rcases s3Sem_delete h with ⟨_, _, he⟩ | ⟨_, _, he⟩
    · exact .inr ⟨_, rfl, he⟩
    · exact .inl he
  | nowIso => exact .inl h

/-! ## A read, held while the bucket changes -/

/-- The client has read this under that ETag, at some time. -/
def Held (E : Etags) (key : κ) (existing : Option (S3Json β)) (j : Bucketed ι κ β) : Prop :=
  ∀ o, existing = some o → ∃ v writer, o.etag = E.of v ∧ Journal.at? v j = some ⟨writer, key, some (.parsed o.raw)⟩

theorem Held.ofRead {existing : Option (S3Json β)} (h : getJson E key j = .ok existing) : Held E key existing j := by
  intro o ho
  subst ho
  unfold getJson at h
  split at h
  · cases h
  · rename_i v raw hcur
    cases h
    obtain ⟨writer, hat⟩ := Journal.at?_current hcur
    exact ⟨v, writer, rfl, hat⟩
  · cases h

omit [DecidableEq κ] in
theorem Held.grows {existing : Option (S3Json β)} (h : Held E key existing j) (newer : Bucketed ι κ β) :
    Held E key existing (newer ++ j) := by
  intro o ho
  obtain ⟨v, writer, he, hat⟩ := h o ho
  exact ⟨v, writer, he, Journal.at?_append hat newer⟩

/-- The options of a write on what was read. -/
def putOptions (existing : Option (S3Json β)) : PutJsonOptions :=
  match existing with
  | some o => { ifMatch := some o.etag }
  | none => { ifNoneMatch := some "*" }

/-- A write on what was read replaces exactly that. -/
theorem admits_current {existing : Option (S3Json β)} (hheld : Held E key existing j)
    (h : admits E (putOptions existing).ifMatch (putOptions existing).ifNoneMatch key j = .ok ()) :
    (Journal.current key j).map (·.2) = existing.map fun o => .parsed o.raw := by
  cases existing with
  | none =>
    cases hcur : Journal.current key j with
    | none => rfl
    | some c =>
      simp only [admits, putOptions, hcur, sent_some (show "*" ≠ "" by decide)] at h
      cases h
  | some o =>
    obtain ⟨v, writer, hetag, hat⟩ := hheld o rfl
    have hne : o.etag ≠ "" := by rw [hetag]; exact E.ne v
    cases hcur : Journal.current key j with
    | none =>
      simp only [admits, putOptions, hcur, sent_some hne] at h
      cases h
    | some c =>
      obtain ⟨v', b⟩ := c
      simp only [admits, putOptions, hcur, sent_some hne] at h
      split at h
      · rename_i hv
        obtain rfl := E.inj (hv.trans hetag)
        rw [Journal.version_body hat hcur]
        rfl
      · cases h

/-- What a read answers is what the object holds. -/
theorem getJson_current {existing : Option (S3Json β)} (h : getJson E key j = .ok existing) :
    (Journal.current key j).map (·.2) = (existing.map (·.raw)).map Body.parsed := by
  unfold getJson at h
  split at h
  · rename_i hcur
    cases h
    rw [hcur]
    rfl
  · rename_i v raw hcur
    cases h
    rw [hcur]
    rfl
  · cases h

/-- What a read answers is the object's version and body. -/
theorem getJson_version {o : S3Json β} (h : getJson E key j = .ok (some o)) :
    ∃ v, o.etag = E.of v ∧ Journal.current key j = some (v, .parsed o.raw) := by
  unfold getJson at h
  split at h
  · cases h
  · rename_i v raw hcur
    cases h
    exact ⟨v, rfl, hcur⟩
  · cases h

/-- A write on a version goes through while the object has it. -/
theorem admits_version {v : Nat} {ifNoneMatch : Option String} (h : admits E (some (E.of v)) ifNoneMatch key j = .ok ()) :
    ∃ body, Journal.current key j = some (v, body) := by
  cases hcur : Journal.current key j with
  | none =>
    simp only [admits, sent_some (E.ne v), hcur] at h
    cases h
  | some c =>
    obtain ⟨v', body⟩ := c
    simp only [admits, sent_some (E.ne v), hcur] at h
    split at h
    · rename_i hv
      exact ⟨body, by rw [E.inj hv]⟩
    · cases h

/-! ## Amid other clients -/

/-- The client has not written. -/
def Silent (i : ι) (j : Bucketed ι κ β) : Prop := ∀ w ∈ j, w.writer ≠ some i

/-- What a write of another client keeps, the other clients keep. -/
theorem amidst_stable [DecidableEq ι] {G : ι → S3Op κ β → Bucketed ι κ β → Prop} {P : Bucketed ι κ β → Prop}
    (h : ∀ j w, w.writer ≠ some i → P j → P (w :: j)) : (amidst (s3Sem E) G i).Stable P := by
  intro j j' hP ⟨i', hi', o, r, _, hsem⟩
  rcases s3Sem_grows hsem with rfl | ⟨w, hw, rfl⟩
  · exact hP
  · apply h j w _ hP
    rw [hw]
    intro e
    exact hi' (Option.some.inj e)

omit [DecidableEq κ] in
theorem Silent.cons {w : Write (Option ι) κ (Body β)} (h : Silent i j) (hw : w.writer ≠ some i) : Silent i (w :: j) := by
  intro x hx
  rcases List.mem_cons.mp hx with rfl | hx
  · exact hw
  · exact h x hx

/-- Over a run the journal grows by writes of its clients. -/
theorem run_grows [DecidableEq ι] {α : Type} {s t : Crew ι (S3Resp (κ := κ) (β := β)) α (Bucketed ι κ β)}
    (h : CrewRun (s3Sem E) s t) : ∃ done, t.world = done ++ s.world ∧ ∀ w ∈ done, w.writer ≠ none := by
  induction h with
  | refl => exact ⟨[], rfl, fun w hw => by cases hw⟩
  | tail _ hs ih =>
    obtain ⟨done, hdone, hwriters⟩ := ih
    obtain ⟨_, hsem⟩ := hs
    rcases s3Sem_grows hsem with he | ⟨w, hw, he⟩
    · exact ⟨done, he.trans hdone, hwriters⟩
    · refine ⟨w :: done, by simp only [he, hdone, List.cons_append], fun x hx => ?_⟩
      rcases List.mem_cons.mp hx with rfl | hx
      · rw [hw]; exact fun e => by cases e
      · exact hwriters x hx

end Store

end LaunchPad.Cli
