/-
  LaunchPad.Cli.Auth — who may see the dashboard (packages/cli/src/dashboard/auth.ts).

  A request shows the token as a cookie, as `Authorization: Bearer`, in the body of the
  login form or as `?token=`. Mismatches, other than of a cookie, are counted by address in
  windows of `failWindowMs`; an address with `maxFails` of them in the current window is
  turned away before anything it shows is looked at. The count is looked at when the headers
  are there, and a login form's body comes after that: the forms that an address has on the
  way are not turned away again.

  The rule: no address has many guesses in a stretch of time, and none is turned away for the
  guesses of another.

  Proved, for every sequence of requests whose clock does not go back:
  - `guarded`: in `n` windows of time an address has at most `(maxFails + m) * (n + 1)`
    counted guesses, if it has never more than `m` forms on the way; an address that is
    turned away made `maxFails` of them in the last `failWindowMs`; and who is let in, or
    given the cookie, showed the token.
  - `recordFailure_swept`: that expired entries are swept changes no decision.

  As built, a wrong cookie is not counted: every page of a browser with an old cookie sends it.
-/
import LaunchPad.Lib.Window
import Mathlib.Data.List.AList

namespace LaunchPad.Cli.Auth

open LaunchPad.Lib (Windowed)
open LaunchPad.Lib.Windowed (within mem_within)

def maxFails : Nat := 10

def failWindowMs : Nat := 60000

/-! ## The count -/

structure Entry where
  count : Nat
  resetAt : Nat
  deriving DecidableEq, Repr

abbrev Fails := AList fun _ : String => Entry

def rateLimited (now : Nat) (key : String) (fails : Fails) : Bool :=
  match fails.lookup key with
  | none => false
  | some entry => if entry.resetAt ≤ now then false else decide (entry.count ≥ maxFails)

/-- The loop over the expired entries. -/
def sweep (now : Nat) (fails : Fails) : Fails :=
  fails.entries.foldl (fun fails e => if e.2.resetAt ≤ now then fails.erase e.1 else fails) fails

def recordFailure (now : Nat) (key : String) (fails : Fails) : Fails :=
  let fails := if fails.entries.length > 10000 then sweep now fails else fails
  match fails.lookup key with
  | none => fails.insert key ⟨1, now + failWindowMs⟩
  | some entry =>
    if entry.resetAt ≤ now then fails.insert key ⟨1, now + failWindowMs⟩
    else fails.insert key { entry with count := entry.count + 1 }

/-! ## The middleware -/

section Middleware

variable {D : Type} [DecidableEq D] (digest : String → D) (token : String)

/-- `digest` is sha256; the comparison takes the same time for all digests. -/
def tokenMatches (candidate : String) : Bool := digest candidate == digest token

structure Request where
  path : String
  remoteAddress : Option String
  cookie : Option String
  authorization : Option String
  post : Bool
  query : Option String
  deriving DecidableEq, Repr

def clientKey (r : Request) : String := r.remoteAddress.getD "unknown"

inductive Reply
  | next
  | tooMany
  | unauthorized (message : String)
  /-- With the session cookie; the token is gone from the address. -/
  | redirect (cookie : String)
  deriving DecidableEq, Repr

/-- `clears` is whether the cookie is deleted, `failed` whether a failure is recorded. -/
structure Outcome where
  reply : Reply
  clears : Bool
  failed : Bool
  deriving DecidableEq, Repr

/-- A string that counts as true. -/
def given (s : Option String) : Option String := s.filter (· != "")

def mismatch : String := "That token didn't match. Check LAUNCH_PAD_DASHBOARD_TOKEN on the server."

/-- A credential other than the cookie. -/
def judge (clears : Bool) (candidate : String) (granted : Reply) : Outcome :=
  if tokenMatches digest token candidate then ⟨granted, clears, false⟩ else ⟨.unauthorized mismatch, clears, true⟩

def withQuery (r : Request) (clears : Bool) : Outcome :=
  match given r.query with
  | some query => judge digest token clears query (.redirect query)
  | none => ⟨.unauthorized "This dashboard requires an access token.", clears, false⟩

/-- Once the body is parsed. -/
def withBody (r : Request) (clears : Bool) (body : Option String) : Outcome :=
  match given body with
  | some bodyToken => judge digest token clears bodyToken (.redirect bodyToken)
  | none => withQuery digest token r clears

def bearer (r : Request) : Option String :=
  match r.authorization with
  | none => none
  | some header => if "Bearer ".toList.isPrefixOf header.toList then some (String.ofList (header.toList.drop 7)) else none

/-- What the middleware does until it ends or waits for the body. -/
inductive Phase
  | done (o : Outcome)
  | body (clears : Bool)
  deriving DecidableEq, Repr

def afterCookie (r : Request) (clears : Bool) : Phase :=
  match bearer r with
  | some header => .done (judge digest token clears header .next)
  | none => if r.post then .body clears else .done (withQuery digest token r clears)

def authMiddleware (limited : Bool) (r : Request) : Phase :=
  if r.path == "/healthz" || r.path == "/dashboard.css" then .done ⟨.next, false, false⟩
  else if limited then .done ⟨.tooMany, false, false⟩
  else
    match given r.cookie with
    | some cookie => if tokenMatches digest token cookie then .done ⟨.next, false, false⟩ else afterCookie digest token r true
    | none => afterCookie digest token r false

/-! ## The server -/

/-- A mismatch that was counted, and the end of the window it was counted in. -/
structure Attempt where
  key : String
  time : Nat
  resetAt : Nat
  deriving DecidableEq, Repr

/-- `waiting` are the requests whose body is on the way; no function reads `log`. -/
structure Server where
  fails : Fails
  waiting : List (Request × Bool)
  log : List Attempt

def Server.new : Server := ⟨∅, [], []⟩

def Server.settle (now : Nat) (key : String) (o : Outcome) (s : Server) : Server :=
  if o.failed then
    let fails := recordFailure now key s.fails
    { s with fails := fails, log := ⟨key, now, ((fails.lookup key).map (·.resetAt)).getD 0⟩ :: s.log }
  else s

inductive Event
  /-- With its body, if it has one. -/
  | request (now : Nat) (r : Request) (body : Option String)
  /-- Its body comes later. -/
  | headers (now : Nat) (r : Request)
  | body (now : Nat) (i : Nat) (body : Option String)
  deriving DecidableEq, Repr

def Event.now : Event → Nat
  | .request now _ _ | .headers now _ | .body now _ _ => now

/-- One event, and what was answered. -/
def Server.step (s : Server) : Event → Server × Option (Request × Outcome)
  | .request now r body =>
    let o :=
      match authMiddleware digest token (rateLimited now (clientKey r) s.fails) r with
      | .done o => o
      | .body clears => withBody digest token r clears body
    (s.settle now (clientKey r) o, some (r, o))
  | .headers now r =>
    match authMiddleware digest token (rateLimited now (clientKey r) s.fails) r with
    | .done o => (s.settle now (clientKey r) o, some (r, o))
    | .body clears => ({ s with waiting := s.waiting ++ [(r, clears)] }, none)
  | .body now i body =>
    match s.waiting[i]? with
    | none => (s, none)
    | some (r, clears) =>
      let o := withBody digest token r clears body
      ({ s.settle now (clientKey r) o with waiting := s.waiting.eraseIdx i }, some (r, o))

def run (events : List Event) : Server := events.foldl (fun s e => (s.step digest token e).1) Server.new

end Middleware

/-! ## What a failure leaves -/

theorem lookup_foldl_erase (now : Nat) (key : String) (es : List (Sigma fun _ : String => Entry)) (fails : Fails) :
    (es.foldl (fun fails e => if e.2.resetAt ≤ now then fails.erase e.1 else fails) fails).lookup key =
      if ∃ e ∈ es, e.1 = key ∧ e.2.resetAt ≤ now then none else fails.lookup key := by
  induction es generalizing fails with
  | nil => simp
  | cons e es ih =>
    rw [List.foldl_cons, ih]
    by_cases hes : ∃ e ∈ es, e.1 = key ∧ e.2.resetAt ≤ now
    · obtain ⟨e', he', hk⟩ := hes
      rw [if_pos ⟨e', he', hk⟩, if_pos ⟨e', List.mem_cons_of_mem _ he', hk⟩]
    · rw [if_neg hes]
      by_cases hexp : e.2.resetAt ≤ now
      · rw [if_pos hexp]
        by_cases hk : e.1 = key
        · rw [if_pos ⟨e, List.mem_cons_self .., hk, hexp⟩, ← hk]
          exact AList.lookup_erase ..
        · rw [AList.lookup_erase_ne (Ne.symm hk), if_neg]
          rintro ⟨e', he', hk'⟩
          rcases List.mem_cons.mp he' with rfl | he'
          · exact hk hk'.1
          · exact hes ⟨e', he', hk'⟩
      · rw [if_neg hexp, if_neg]
        rintro ⟨e', he', hk'⟩
        rcases List.mem_cons.mp he' with rfl | he'
        · exact hexp hk'.2
        · exact hes ⟨e', he', hk'⟩

/-- What the map says of an address, but for an expired entry. -/
def view (now : Nat) (key : String) (fails : Fails) : Option Entry :=
  match fails.lookup key with
  | none => none
  | some entry => if entry.resetAt ≤ now then none else some entry

theorem view_none {now : Nat} {key : String} {fails : Fails} (h : fails.lookup key = none) : view now key fails = none := by
  rw [view, h]

theorem view_some {now : Nat} {key : String} {fails : Fails} {entry : Entry} (h : fails.lookup key = some entry) :
    view now key fails = if entry.resetAt ≤ now then none else some entry := by
  rw [view, h]

theorem view_eq_some {now : Nat} {key : String} {fails : Fails} {entry : Entry} :
    view now key fails = some entry ↔ fails.lookup key = some entry ∧ now < entry.resetAt := by
  cases hl : fails.lookup key with
  | none =>
    rw [view_none hl]
    simp
  | some entry' =>
    rw [view_some hl]
    constructor
    · intro h
      split at h
      · cases h
      · rename_i hcur
        obtain rfl := Option.some.inj h
        exact ⟨rfl, Nat.lt_of_not_le hcur⟩
    · rintro ⟨h, hcur⟩
      obtain rfl : entry' = entry := Option.some.inj h
      rw [if_neg (Nat.not_le.mpr hcur)]

theorem lookup_sweep (now : Nat) (key : String) (fails : Fails) : (sweep now fails).lookup key = view now key fails := by
  rw [sweep, lookup_foldl_erase]
  cases hl : fails.lookup key with
  | none =>
    rw [view_none hl]
    split <;> rfl
  | some entry =>
    have hiff : (∃ e ∈ fails.entries, e.1 = key ∧ e.2.resetAt ≤ now) ↔ entry.resetAt ≤ now := by
      constructor
      · rintro ⟨⟨key', entry'⟩, he, rfl, hexp⟩
        have hsame := AList.mem_lookup_iff.mpr he
        rw [hl] at hsame
        obtain rfl : entry = entry' := Option.some.inj hsame
        exact hexp
      · exact fun hexp => ⟨⟨key, entry⟩, AList.mem_lookup_iff.mp hl, rfl, hexp⟩
    rw [view_some hl]
    by_cases hexp : entry.resetAt ≤ now
    · rw [if_pos (hiff.mpr hexp), if_pos hexp]
    · rw [if_neg fun h => hexp (hiff.mp h), if_neg hexp]

/-- Sweeping takes away what counts for nothing. -/
theorem view_sweep (now : Nat) (key : String) (fails : Fails) : view now key (sweep now fails) = view now key fails := by
  have hl := lookup_sweep now key fails
  cases hv : view now key fails with
  | none =>
    rw [hv] at hl
    exact view_none hl
  | some entry =>
    rw [hv] at hl
    exact view_eq_some.mpr ⟨hl, (view_eq_some.mp hv).2⟩

theorem rateLimited_view (now : Nat) (key : String) (fails : Fails) :
    rateLimited now key fails = (view now key fails).any fun entry => decide (entry.count ≥ maxFails) := by
  unfold rateLimited view
  cases fails.lookup key with
  | none => rfl
  | some entry =>
    show (if entry.resetAt ≤ now then false else decide (entry.count ≥ maxFails)) =
      Option.any _ (if entry.resetAt ≤ now then none else some entry)
    split <;> rfl

/-- The entry of an address after a failure. -/
def failed (now : Nat) : Option Entry → Entry
  | none => ⟨1, now + failWindowMs⟩
  | some entry => { entry with count := entry.count + 1 }

/-- The map of which the failure is recorded. -/
def swept (now : Nat) (fails : Fails) : Fails := if fails.entries.length > 10000 then sweep now fails else fails

theorem recordFailure_eq (now : Nat) (key : String) (fails : Fails) :
    recordFailure now key fails = (swept now fails).insert key (failed now (view now key (swept now fails))) := by
  show (match (swept now fails).lookup key with
    | none => (swept now fails).insert key (⟨1, now + failWindowMs⟩ : Entry)
    | some entry => if entry.resetAt ≤ now then (swept now fails).insert key (⟨1, now + failWindowMs⟩ : Entry)
      else (swept now fails).insert key ({ entry with count := entry.count + 1 } : Entry)) = _
  cases hl : (swept now fails).lookup key with
  | none =>
    rw [view_none hl]
    rfl
  | some entry =>
    rw [view_some hl]
    show (if entry.resetAt ≤ now then _ else _) = _
    split <;> rfl

theorem view_swept (now : Nat) (key : String) (fails : Fails) : view now key (swept now fails) = view now key fails := by
  unfold swept
  split
  · exact view_sweep now key fails
  · rfl

theorem recordFailure_self (now : Nat) (key : String) (fails : Fails) :
    (recordFailure now key fails).lookup key = some (failed now (view now key fails)) := by
  rw [recordFailure_eq, view_swept]
  exact AList.lookup_insert _

/-- Another address's entry is as it was, or was swept. -/
theorem recordFailure_ne (now : Nat) {key key' : String} (hne : key' ≠ key) (fails : Fails) :
    (recordFailure now key fails).lookup key' = fails.lookup key' ∨
      ((recordFailure now key fails).lookup key' = none ∧ view now key' fails = none) := by
  have hl : (recordFailure now key fails).lookup key' = (swept now fails).lookup key' := by
    rw [recordFailure_eq]
    exact AList.lookup_insert_ne hne
  rw [hl, swept]
  split
  · rw [lookup_sweep]
    cases hv : view now key' fails with
    | none =>
      right
      exact ⟨rfl, rfl⟩
    | some entry =>
      left
      exact (view_eq_some.mp hv).1.symm
  · exact .inl rfl

/-- The limiter that never sweeps. -/
def recordUnswept (now : Nat) (key : String) (fails : Fails) : Fails := fails.insert key (failed now (view now key fails))

/-- Sweeping changes no decision, now or later. -/
theorem recordFailure_swept (now later : Nat) (hle : now ≤ later) (key key' : String) (fails : Fails) :
    rateLimited later key' (recordFailure now key fails) = rateLimited later key' (recordUnswept now key fails) := by
  rw [rateLimited_view, rateLimited_view]
  congr 1
  by_cases hk : key' = key
  · subst hk
    have h := recordFailure_self now key' fails
    have h' : (recordUnswept now key' fails).lookup key' = some (failed now (view now key' fails)) := AList.lookup_insert _
    rw [view_some h, view_some h']
  · have h' : (recordUnswept now key fails).lookup key' = fails.lookup key' := AList.lookup_insert_ne hk
    rcases recordFailure_ne now hk fails with h | ⟨h, hv⟩
    · unfold view
      rw [h, h']
    · rw [view_none h]
      cases hl : fails.lookup key' with
      | none => rw [view_none (h'.trans hl)]
      | some entry =>
        rw [view_some (h'.trans hl)]
        rw [view_some hl] at hv
        split at hv
        · rename_i hexp
          rw [if_pos (Nat.le_trans hexp hle)]
        · cases hv

/-! ## Every run -/

section Runs

variable {D : Type} [DecidableEq D] {digest : String → D} {token : String}

/-- The counted mismatches of an address, newest first. -/
def attempts (key : String) (s : Server) : List (Nat × Nat) :=
  (s.log.filter fun a => a.key == key).map fun a => (a.time, a.resetAt)

/-- The login forms of an address that are on the way. -/
def waitingOf (key : String) (s : Server) : Nat := s.waiting.countP fun w => clientKey w.1 == key

/-- An entry that the map has, and the mismatches of its address. -/
structure Entered (m clock : Nat) (key : String) (s : Server) (entry : Entry) : Prop where
  count : entry.count = ((attempts key s).map (·.2)).count entry.resetAt
  apart : ∀ r ∈ attempts key s, r.2 = entry.resetAt ∨ r.2 + failWindowMs ≤ entry.resetAt
  ahead : entry.resetAt ≤ clock + failWindowMs
  /-- Only forms on the way take a window past `maxFails`. -/
  room : entry.resetAt ≤ clock ∨ entry.count ≤ maxFails ∨ entry.count + waitingOf key s ≤ maxFails + m

/-- The map and the log agree about an address, at a time after all that happened. -/
structure Counted (m clock : Nat) (key : String) (s : Server) : Prop where
  windows : Windowed failWindowMs (maxFails + m) (attempts key s)
  past : ∀ r ∈ attempts key s, r.1 ≤ clock
  /-- A window that the map no longer has is over. -/
  open_ : s.fails.lookup key = none → ∀ r ∈ attempts key s, r.2 ≤ clock
  last : ∀ entry, s.fails.lookup key = some entry → Entered m clock key s entry

variable {m clock now : Nat} {key : String} {s : Server}

theorem Counted.later (h : Counted m clock key s) (hle : clock ≤ now) : Counted m now key s :=
  ⟨h.windows, fun r hr => Nat.le_trans (h.past r hr) hle, fun hl r hr => Nat.le_trans (h.open_ hl r hr) hle,
    fun entry hl => ⟨(h.last entry hl).count, (h.last entry hl).apart, Nat.le_trans (h.last entry hl).ahead (by omega),
      (h.last entry hl).room.imp_left (Nat.le_trans · hle)⟩⟩

/-- A turned away address has its mismatches in the current window. -/
theorem Counted.limited (h : Counted m clock key s) (hle : clock ≤ now) (hlim : rateLimited now key s.fails = true) :
    maxFails ≤ (within (now + 1 - failWindowMs) (now + 1) (attempts key s)).length := by
  rw [rateLimited_view] at hlim
  cases hl : s.fails.lookup key with
  | none =>
    rw [view_none hl] at hlim
    cases hlim
  | some entry =>
    rw [view_some hl] at hlim
    split at hlim
    · cases hlim
    · rename_i hcur
      have hmax : maxFails ≤ entry.count := by simpa using hlim
      rw [(h.last entry hl).count, List.count, List.countP_map] at hmax
      rw [within, ← List.countP_eq_length_filter]
      refine Nat.le_trans hmax (List.countP_mono_left fun r hr hin => ?_)
      have hend : r.2 = entry.resetAt := by simpa using hin
      have hinside := h.windows.inside r hr
      have hpast := Nat.le_trans (h.past r hr) hle
      simp only [Bool.and_eq_true, decide_eq_true_eq]
      omega

/-- The forms on the way may become fewer, and more while the address is not turned away. -/
theorem Counted.waiting (h : Counted m clock key s) (w : List (Request × Bool))
    (hw : w.countP (fun x => clientKey x.1 == key) ≤ waitingOf key s ∨ rateLimited clock key s.fails = false) :
    Counted m clock key { s with waiting := w } := by
  refine ⟨h.windows, h.past, h.open_, fun entry hl => ?_⟩
  have he := h.last entry hl
  have hroom := he.room
  refine ⟨he.count, he.apart, he.ahead, ?_⟩
  show entry.resetAt ≤ clock ∨ entry.count ≤ maxFails ∨ entry.count + w.countP (fun x => clientKey x.1 == key) ≤ maxFails + m
  rcases hw with hw | hfree
  · omega
  · rw [rateLimited_view, view_some hl] at hfree
    split at hfree
    · rename_i hexp
      exact .inl hexp
    · have hlt : entry.count < maxFails := by simpa using hfree
      omega

theorem attempts_cons (key : String) (a : Attempt) (s : Server) (fails : Fails) :
    attempts key { s with fails := fails, log := a :: s.log } =
      if a.key = key then (a.time, a.resetAt) :: attempts key s else attempts key s := by
  unfold attempts
  by_cases hk : a.key = key
  · simp [hk]
  · simp [hk]

/-- A failure of the address, in its current window or in a new one. -/
theorem Counted.fail (h : Counted m now key s)
    (hroom : ∀ entry, view now key s.fails = some entry → entry.count < maxFails ∨ entry.count + 1 + waitingOf key s ≤ maxFails + m) :
    Counted m now key { s with
      fails := recordFailure now key s.fails
      log := ⟨key, now, (failed now (view now key s.fails)).resetAt⟩ :: s.log } := by
  have hlog := attempts_cons key ⟨key, now, (failed now (view now key s.fails)).resetAt⟩ s (recordFailure now key s.fails)
  rw [if_pos rfl] at hlog
  have hl := recordFailure_self now key s.fails
  -- the entry, and where its window lies
  have hentry : ∀ r ∈ attempts key s, r.2 = (failed now (view now key s.fails)).resetAt ∨
      r.2 + failWindowMs ≤ (failed now (view now key s.fails)).resetAt := by
    intro r hr
    cases hl' : s.fails.lookup key with
    | none =>
      rw [view_none hl']
      exact .inr (Nat.add_le_add_right (h.open_ hl' r hr) _)
    | some entry =>
      have hapart := (h.last entry hl').apart r hr
      rw [view_some hl']
      split
      · rename_i hexp
        right
        show r.2 + failWindowMs ≤ now + failWindowMs
        omega
      · exact hapart
  have hcount : (failed now (view now key s.fails)).count =
      ((attempts key s).map (·.2)).count (failed now (view now key s.fails)).resetAt + 1 := by
    have hnew : (∀ r ∈ attempts key s, r.2 ≤ now) → ((attempts key s).map (·.2)).count (now + failWindowMs) = 0 := by
      intro hpast
      refine List.count_eq_zero.mpr fun hin => ?_
      obtain ⟨r, hr, he⟩ := List.mem_map.mp hin
      have hle := hpast r hr
      have hpos : 0 < failWindowMs := by decide
      omega
    cases hl' : s.fails.lookup key with
    | none =>
      rw [view_none hl']
      show 1 = ((attempts key s).map (·.2)).count (now + failWindowMs) + 1
      rw [hnew (h.open_ hl')]
    | some entry =>
      have he := h.last entry hl'
      rw [view_some hl']
      split
      · rename_i hexp
        show 1 = ((attempts key s).map (·.2)).count (now + failWindowMs) + 1
        rw [hnew fun r hr => ?_]
        have := he.apart r hr
        omega
      · show entry.count + 1 = ((attempts key s).map (·.2)).count entry.resetAt + 1
        rw [he.count]
  have hinside : now < (failed now (view now key s.fails)).resetAt ∧
      (failed now (view now key s.fails)).resetAt ≤ now + failWindowMs := by
    have hpos : now < now + failWindowMs := Nat.lt_add_of_pos_right (by decide)
    cases hl' : s.fails.lookup key with
    | none =>
      rw [view_none hl']
      exact ⟨hpos, Nat.le_refl _⟩
    | some entry =>
      rw [view_some hl']
      split
      · exact ⟨hpos, Nat.le_refl _⟩
      · rename_i hcur
        exact ⟨Nat.lt_of_not_le hcur, (h.last entry hl').ahead⟩
  have hfew : (failed now (view now key s.fails)).count ≤ maxFails ∨
      (failed now (view now key s.fails)).count + waitingOf key s ≤ maxFails + m := by
    cases hv : view now key s.fails with
    | none =>
      left
      show 1 ≤ maxFails
      decide
    | some entry => exact hroom entry hv
  refine ⟨?_, ?_, ?_, ?_⟩
  · rw [hlog]
    refine h.windows.push hinside hentry ?_
    rw [← hcount]
    omega
  · rw [hlog]
    intro r hr
    rcases List.mem_cons.mp hr with rfl | hr
    · exact Nat.le_refl _
    · exact h.past r hr
  · intro hnone
    rw [hl] at hnone
    cases hnone
  · intro entry hsome
    rw [hl] at hsome
    obtain rfl := Option.some.inj hsome
    refine ⟨?_, ?_, hinside.2, .inr hfew⟩
    · rw [hlog, List.map_cons, List.count_cons_self]
      exact hcount
    · rw [hlog]
      intro r hr
      rcases List.mem_cons.mp hr with rfl | hr
      · exact .inl rfl
      · exact hentry r hr

/-- A failure of another address. -/
theorem Counted.other {key' : String} (h : Counted m now key s) (hne : key ≠ key') :
    Counted m now key { s with
      fails := recordFailure now key' s.fails
      log := ⟨key', now, (failed now (view now key' s.fails)).resetAt⟩ :: s.log } := by
  have hlog := attempts_cons key ⟨key', now, (failed now (view now key' s.fails)).resetAt⟩ s (recordFailure now key' s.fails)
  rw [if_neg (Ne.symm hne)] at hlog
  refine ⟨hlog ▸ h.windows, hlog ▸ h.past, fun hl => ?_, fun entry hl => ?_⟩
  · rw [hlog]
    rcases recordFailure_ne now hne s.fails with hsame | ⟨-, hv⟩
    · exact h.open_ (hsame.symm.trans hl)
    · intro r hr
      cases hl' : s.fails.lookup key with
      | none => exact h.open_ hl' r hr
      | some entry =>
        have hapart := (h.last entry hl').apart r hr
        rw [view_some hl'] at hv
        split at hv
        · omega
        · cases hv
  · rcases recordFailure_ne now hne s.fails with hsame | ⟨hnone, -⟩
    · have he := h.last entry (hsame.symm.trans hl)
      exact ⟨hlog ▸ he.count, hlog ▸ he.apart, he.ahead, he.room⟩
    · have hl : (recordFailure now key' s.fails).lookup key = some entry := hl
      rw [hnone] at hl
      cases hl

theorem settle_failed (now : Nat) (key : String) {o : Outcome} (s : Server) (hf : o.failed = true) :
    s.settle now key o = { s with
      fails := recordFailure now key s.fails
      log := ⟨key, now, (failed now (view now key s.fails)).resetAt⟩ :: s.log } := by
  have hl : ((recordFailure now key s.fails).lookup key).map (·.resetAt) =
      some (failed now (view now key s.fails)).resetAt := by
    rw [recordFailure_self]
    rfl
  rw [Server.settle, if_pos hf]
  show Server.mk _ _ (⟨key, now, (((recordFailure now key s.fails).lookup key).map (·.resetAt)).getD 0⟩ :: s.log) = _
  rw [hl]
  rfl

theorem Counted.settle {key' : String} {o : Outcome} (h : Counted m now key s)
    (hroom : o.failed = true → key' = key → ∀ entry, view now key s.fails = some entry →
      entry.count < maxFails ∨ entry.count + 1 + waitingOf key s ≤ maxFails + m) :
    Counted m now key (s.settle now key' o) := by
  cases hf : o.failed with
  | false =>
    rw [Server.settle, hf, if_neg Bool.false_ne_true]
    exact h
  | true =>
    rw [settle_failed now key' s hf]
    by_cases hk : key' = key
    · subst hk
      exact h.fail (hroom hf rfl)
    · exact h.other (Ne.symm hk)

/-- An address that was not turned away has room for one more. -/
theorem Counted.room {entry : Entry} (h : rateLimited now key s.fails = false) (hv : view now key s.fails = some entry) :
    entry.count < maxFails := by
  rw [rateLimited_view, hv] at h
  simpa using h

theorem done_failed {r : Request} {limited : Bool} {o : Outcome} (h : authMiddleware digest token limited r = .done o)
    (hf : o.failed = true) : limited = false := by
  cases limited with
  | false => rfl
  | true =>
    unfold authMiddleware at h
    split at h
    · cases h
      cases hf
    · cases h
      cases hf

theorem body_free {r : Request} {limited clears : Bool} (h : authMiddleware digest token limited r = .body clears) :
    limited = false := by
  cases limited with
  | false => rfl
  | true =>
    unfold authMiddleware at h
    split at h
    · cases h
    · cases h

variable (digest token) in
theorem Counted.step (h : Counted m clock key s) (hm : waitingOf key s ≤ m) (e : Event) (hle : clock ≤ e.now) :
    Counted m e.now key (s.step digest token e).1 := by
  have h := h.later hle
  cases e with
  | request now r body =>
    refine h.settle fun hf hk entry hv => .inl ?_
    have hfree : rateLimited now (clientKey r) s.fails = false := by
      split at hf
      · rename_i o ho
        exact done_failed ho hf
      · rename_i clears ho
        exact body_free ho
    rw [hk] at hfree
    exact Counted.room hfree hv
  | headers now r =>
    show Counted m now key (match authMiddleware digest token (rateLimited now (clientKey r) s.fails) r with
      | .done o => (s.settle now (clientKey r) o, some (r, o))
      | .body clears => ({ s with waiting := s.waiting ++ [(r, clears)] }, none)).1
    split
    · rename_i o ho
      refine h.settle fun hf hk entry hv => .inl ?_
      have hfree := done_failed ho hf
      rw [hk] at hfree
      exact Counted.room hfree hv
    · rename_i clears ho
      refine h.waiting _ ?_
      by_cases hk : clientKey r = key
      · right
        rw [← hk]
        exact body_free ho
      · left
        rw [waitingOf, List.countP_append]
        simp [hk]
  | body now i body =>
    show Counted m now key (match s.waiting[i]? with
      | none => (s, none)
      | some (r, clears) => ({ s.settle now (clientKey r) (withBody digest token r clears body) with
          waiting := s.waiting.eraseIdx i }, some (r, withBody digest token r clears body))).1
    split
    · exact h
    · rename_i r clears hi
      -- the form is no longer on the way
      have hlt : i < s.waiting.length := (List.getElem?_eq_some_iff.mp hi).1
      have hget : s.waiting[i] = (r, clears) := (List.getElem?_eq_some_iff.mp hi).2
      have hcount : waitingOf key s = (s.waiting.eraseIdx i).countP (fun x => clientKey x.1 == key) +
          if clientKey r == key then 1 else 0 := by
        have hperm := (List.getElem_cons_eraseIdx_perm hlt).countP_eq fun x => clientKey x.1 == key
        rw [hget, List.countP_cons] at hperm
        exact hperm.symm
      have hsame : ({ s.settle now (clientKey r) (withBody digest token r clears body) with waiting := s.waiting.eraseIdx i } : Server) =
          Server.settle now (clientKey r) (withBody digest token r clears body) { s with waiting := s.waiting.eraseIdx i } := by
        unfold Server.settle
        split <;> rfl
      show Counted m now key { s.settle now (clientKey r) (withBody digest token r clears body) with waiting := s.waiting.eraseIdx i }
      rw [hsame]
      refine (h.waiting _ (.inl ?_)).settle fun hf hk entry hv => ?_
      · omega
      · rw [hk, if_pos (beq_self_eq_true key)] at hcount
        show entry.count < maxFails ∨ entry.count + 1 + (s.waiting.eraseIdx i).countP (fun x => clientKey x.1 == key) ≤ maxFails + m
        obtain ⟨hl, hcur⟩ := view_eq_some.mp hv
        rcases (h.last entry hl).room with hexp | hroom
        · exact absurd hcur (Nat.not_lt.mpr hexp)
        · omega

theorem counted_new (m clock : Nat) (key : String) : Counted m clock key Server.new where
  windows := Windowed.nil ..
  past r hr := by cases hr
  open_ _ r hr := by cases hr
  last entry hl := by cases hl

variable {events : List Event}

theorem run_counted (hclock : (events.map Event.now).Pairwise (· ≤ ·))
    (hm : ∀ evs, evs <+: events → waitingOf key (run digest token evs) ≤ m) :
    ∀ clock, (∀ e ∈ events, e.now ≤ clock) → Counted m clock key (run digest token events) := by
  induction events using List.reverseRecOn with
  | nil => exact fun clock _ => counted_new m clock key
  | append_singleton evs e ih =>
    intro clock hle
    rw [List.map_append, List.pairwise_append] at hclock
    obtain ⟨hevs, -, hlast⟩ := hclock
    have hbefore : ∀ e' ∈ evs, e'.now ≤ e.now :=
      fun e' he' => hlast _ (List.mem_map.mpr ⟨e', he', rfl⟩) _ (by simp)
    have hc := ih hevs (fun l hl => hm l (hl.trans (List.prefix_append ..))) e.now hbefore
    have hstep := hc.step digest token (hm evs (List.prefix_append ..)) e (Nat.le_refl _)
    have hrun : run digest token (evs ++ [e]) = ((run digest token evs).step digest token e).1 := by
      rw [run, List.foldl_append]
      rfl
    rw [hrun]
    exact hstep.later (hle e (by simp))

/-- What was shown with a request. -/
def shown (r : Request) : Event → List String
  | .request _ _ body | .body _ _ body =>
    (given r.cookie).toList ++ (bearer r).toList ++ (given body).toList ++ (given r.query).toList
  | .headers _ _ => (given r.cookie).toList ++ (bearer r).toList ++ (given r.query).toList

/-- A reply that lets in has a token behind it, among what was shown. -/
structure Backed (digest : String → D) (token : String) (credentials : List String) (reply : Reply) : Prop where
  next : reply = .next → ∃ c ∈ credentials, tokenMatches digest token c = true
  redirect : ∀ c, reply = .redirect c → c ∈ credentials ∧ tokenMatches digest token c = true

theorem Backed.mono {cs cs' : List String} {reply : Reply} (h : Backed digest token cs reply) (hsub : cs ⊆ cs') :
    Backed digest token cs' reply :=
  ⟨fun hr => (h.next hr).imp fun _ hc => ⟨hsub hc.1, hc.2⟩, fun c hr => ⟨hsub (h.redirect c hr).1, (h.redirect c hr).2⟩⟩

theorem backed_judge (clears : Bool) (candidate : String) {granted : Reply} (hg : granted = .next ∨ granted = .redirect candidate) :
    Backed digest token [candidate] (judge digest token clears candidate granted).reply := by
  unfold judge
  split
  · rename_i hmatch
    refine ⟨fun _ => ⟨candidate, List.mem_singleton_self _, hmatch⟩, fun c hr => ?_⟩
    replace hr : granted = .redirect c := hr
    rcases hg with rfl | rfl
    · cases hr
    · cases hr
      exact ⟨List.mem_singleton_self _, hmatch⟩
  · exact ⟨nofun, nofun⟩

theorem backed_withQuery (r : Request) (clears : Bool) :
    Backed digest token (given r.query).toList (withQuery digest token r clears).reply := by
  unfold withQuery
  split
  · rename_i query hq
    rw [hq]
    exact backed_judge clears query (.inr rfl)
  · exact ⟨nofun, nofun⟩

theorem backed_withBody (r : Request) (clears : Bool) (body : Option String) :
    Backed digest token ((given body).toList ++ (given r.query).toList) (withBody digest token r clears body).reply := by
  unfold withBody
  split
  · rename_i bodyToken hb
    rw [hb]
    exact (backed_judge clears bodyToken (.inr rfl)).mono (List.subset_append_left ..)
  · exact (backed_withQuery r clears).mono (List.subset_append_right ..)

theorem backed_afterCookie {r : Request} {clears : Bool} {o : Outcome} (h : afterCookie digest token r clears = .done o) :
    Backed digest token ((bearer r).toList ++ (given r.query).toList) o.reply := by
  unfold afterCookie at h
  split at h
  · rename_i header hb
    cases h
    rw [hb]
    exact (backed_judge clears header (.inl rfl)).mono (List.subset_append_left ..)
  · split at h
    · cases h
    · cases h
      exact (backed_withQuery r clears).mono (List.subset_append_right ..)

/-- The pages that need no token. -/
def exempt (r : Request) : Prop := r.path = "/healthz" ∨ r.path = "/dashboard.css"

theorem backed_done {r : Request} {limited : Bool} {o : Outcome} (h : authMiddleware digest token limited r = .done o)
    (hcovered : ¬ exempt r) :
    Backed digest token ((given r.cookie).toList ++ (bearer r).toList ++ (given r.query).toList) o.reply := by
  unfold authMiddleware at h
  have hpath : (r.path == "/healthz" || r.path == "/dashboard.css") = false := by simpa [exempt] using hcovered
  rw [hpath, if_neg Bool.false_ne_true] at h
  split at h
  · cases h
    exact ⟨nofun, nofun⟩
  · have hlater : ∀ clears, afterCookie digest token r clears = .done o → Backed digest token
        ((given r.cookie).toList ++ (bearer r).toList ++ (given r.query).toList) o.reply := by
      intro clears ho
      refine (backed_afterCookie ho).mono ?_
      rw [List.append_assoc]
      exact List.subset_append_right ..
    split at h
    · rename_i cookie hcookie
      split at h
      · rename_i hmatch
        cases h
        have hin : cookie ∈ (given r.cookie).toList ++ (bearer r).toList ++ (given r.query).toList := by simp [hcookie]
        exact ⟨fun _ => ⟨cookie, hin, hmatch⟩, nofun⟩
      · exact hlater true h
    · exact hlater false h

/-- The address is guarded. -/
structure Guarded (digest : String → D) (token : String) (events : List Event) (key : String) (m : Nat) : Prop where
  bounded : ∀ a n, (within a (a + n * failWindowMs) (attempts key (run digest token events))).length ≤ (maxFails + m) * (n + 1)
  limited : ∀ now, (∀ e ∈ events, e.now ≤ now) → rateLimited now key (run digest token events).fails = true →
    maxFails ≤ (within (now + 1 - failWindowMs) (now + 1) (attempts key (run digest token events))).length
  admitted : ∀ e r o, ((run digest token events).step digest token e).2 = some (r, o) → ¬ exempt r →
    Backed digest token (shown r e) o.reply

theorem step_backed {e : Event} {r : Request} {o : Outcome} (h : (s.step digest token e).2 = some (r, o)) (hcovered : ¬ exempt r) :
    Backed digest token (shown r e) o.reply := by
  cases e with
  | request now r' body =>
    replace h : some (r', (match authMiddleware digest token (rateLimited now (clientKey r') s.fails) r' with
      | .done o => o
      | .body clears => withBody digest token r' clears body)) = some (r, o) := h
    obtain ⟨rfl, rfl⟩ := Prod.mk.inj (Option.some.inj h)
    split
    · rename_i o ho
      refine (backed_done ho hcovered).mono fun c hc => ?_
      simp only [shown, List.mem_append] at hc ⊢
      tauto
    · refine (backed_withBody r' _ body).mono fun c hc => ?_
      simp only [shown, List.mem_append] at hc ⊢
      tauto
  | headers now r' =>
    replace h : (match authMiddleware digest token (rateLimited now (clientKey r') s.fails) r' with
      | .done o => (s.settle now (clientKey r') o, some (r', o))
      | .body clears => ({ s with waiting := s.waiting ++ [(r', clears)] }, none)).2 = some (r, o) := h
    split at h
    · rename_i o' ho
      obtain ⟨rfl, rfl⟩ := Prod.mk.inj (Option.some.inj h)
      exact backed_done ho hcovered
    · cases h
  | body now i body =>
    replace h : (match s.waiting[i]? with
      | none => (s, none)
      | some (r, clears) => ({ s.settle now (clientKey r) (withBody digest token r clears body) with
          waiting := s.waiting.eraseIdx i }, some (r, withBody digest token r clears body))).2 = some (r, o) := h
    split at h
    · cases h
    · obtain ⟨rfl, rfl⟩ := Prod.mk.inj (Option.some.inj h)
      refine (backed_withBody _ _ body).mono fun c hc => ?_
      simp only [shown, List.mem_append] at hc ⊢
      tauto

/-- The rule. -/
theorem guarded (hclock : (events.map Event.now).Pairwise (· ≤ ·))
    (hm : ∀ evs, evs <+: events → waitingOf key (run digest token evs) ≤ m) : Guarded digest token events key m := by
  refine ⟨fun a n => ?_, fun now hle hlim => ?_, fun e r o h hcovered => step_backed h hcovered⟩
  · obtain ⟨clock, hle⟩ : ∃ clock, ∀ e ∈ events, e.now ≤ clock :=
      ⟨(events.map Event.now).sum, fun e he => List.single_le_sum (fun _ _ => Nat.zero_le _) _ (List.mem_map.mpr ⟨e, he, rfl⟩)⟩
    exact (run_counted hclock hm clock hle).windows.bound (by decide) a n
  · exact (run_counted hclock hm now hle).limited (Nat.le_refl _) hlim

end Runs

/-- A form on the way, and a guess that is counted. -/
def guesses : List Event :=
  [.headers 0 ⟨"/", some "10.0.0.7", none, none, true, none⟩,
    .request 5 ⟨"/", some "10.0.0.7", none, none, false, some "letmein"⟩ none,
    .body 9 0 (some "hunter2")]

theorem guarded_guesses : Guarded id "correct horse battery" guesses "10.0.0.7" 1 := by
  refine guarded (by decide) fun evs hevs => ?_
  have hall : ∀ evs ∈ guesses.inits, waitingOf "10.0.0.7" (run id "correct horse battery" evs) ≤ 1 := by decide
  exact hall evs ((List.mem_inits ..).mpr hevs)

end LaunchPad.Cli.Auth
