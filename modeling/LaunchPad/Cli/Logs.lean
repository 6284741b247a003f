/-
  LaunchPad.Cli.Logs — `launchpad logs --follow` (`commands/logs.ts`, `streamFollow`;
  `aws/cloudwatch-logs.ts`, `filterAllLogEvents`): poll the log group from the latest
  timestamp printed on, skip the event ids seen, print the rest in order of time.

  CloudWatch answers a poll with the events visible so far from that time on, page by page;
  events of several streams become visible in any order. A poll of a group that does not
  exist yet changes nothing, and is not a step here.

  As built:
  - `late_event_vanishes`: an event that becomes visible after a later one was printed is
    never printed.

  Proved:
  - `follow_exactly_once_iff`: while no drain is cut off, each visible event of the window
    has been printed exactly once exactly when no poll found one behind the cursor, and no
    more than the cache holds were printed before a poll.

  The set of seen ids is dropped once it is over its limit, though the last event printed
  is still in the next window: `Spoiled` is what a run does not recover from.
-/
import Mathlib.Data.List.Sort
import Mathlib.Data.List.Perm.Basic
import Mathlib.Data.List.Nodup
import Mathlib.Order.Basic
import Mathlib.Algebra.Order.Ring.Int

namespace LaunchPad.Cli

/-! ## The model -/

structure LogEvent where
  timestamp : Int
  message : String
  logStreamName : String
  eventId : String
  deriving DecidableEq, Repr

/-- `FOLLOW_DEDUP_CACHE_MAX`. -/
def followDedupCacheMax : Nat := 50000

/-- The default `maxEvents`. -/
def maxLogEvents : Nat := 5000

/-- `filterAllLogEvents` over the pages the service has: a page more while there is one and
    fewer than `maxEvents` are there. -/
def drainPages (maxEvents : Nat) (all : List LogEvent) : List (List LogEvent) → List LogEvent
  | [] => all
  | page :: rest =>
    if !rest.isEmpty && (all ++ page).length < maxEvents then drainPages maxEvents (all ++ page) rest else all ++ page

/-- `sort` by timestamp, which is stable. -/
def byTimestamp (events : List LogEvent) : List LogEvent := events.insertionSort fun a b => a.timestamp ≤ b.timestamp

/-- The locals of `streamFollow`, and what it has printed, in order. -/
structure Follow where
  seen : List String
  cursor : Int
  printed : List LogEvent
  deriving DecidableEq, Repr

/-- The body of the inner loop. -/
def Follow.event (s : Follow) (e : LogEvent) : Follow :=
  if e.eventId ≠ "" ∧ e.eventId ∈ s.seen then s
  else
    { seen := if e.eventId ≠ "" then e.eventId :: s.seen else s.seen
      cursor := if e.timestamp > s.cursor then e.timestamp else s.cursor
      printed := s.printed ++ [e] }

/-- One poll that is answered with those pages. -/
def Follow.poll (s : Follow) (pages : List (List LogEvent)) : Follow :=
  let s := (byTimestamp (drainPages maxLogEvents [] pages)).foldl Follow.event s
  if s.seen.length > followDedupCacheMax then { s with seen := [] } else s

/-! ## The sessions -/

/-- The pages hold every visible event of the window. -/
def Answers (visible : List LogEvent) (startTime : Int) (pages : List (List LogEvent)) : Prop :=
  pages.flatten.Perm (visible.filter fun e => startTime ≤ e.timestamp)

/-- A poll: what was visible, the state before it, and the answer. -/
structure Polled where
  visible : List LogEvent
  before : Follow
  pages : List (List LogEvent)

/-- The sessions, with their polls, newest first, and the events visible so far: ids are
    distinct and not empty. -/
inductive Following (start : Int) : List Polled → List LogEvent → Follow → Prop
  | begin : Following start [] [] ⟨[], start, []⟩
  | appear {polls : List Polled} {visible : List LogEvent} {s : Follow} (events : List LogEvent) :
      Following start polls visible s → ((events ++ visible).map (·.eventId)).Nodup → (∀ e ∈ events, e.eventId ≠ "") →
      Following start polls (events ++ visible) s
  | poll {polls : List Polled} {visible : List LogEvent} {s : Follow} (pages : List (List LogEvent)) :
      Following start polls visible s → Answers visible s.cursor pages →
      Following start (⟨visible, s, pages⟩ :: polls) visible (s.poll pages)

/-- The drain was not cut off. -/
def Polled.Whole (p : Polled) : Prop := drainPages maxLogEvents [] p.pages = p.pages.flatten

/-- No visible event of the window that is not printed lies behind the cursor. -/
def Polled.InTime (start : Int) (p : Polled) : Prop :=
  ∀ e ∈ p.visible, start ≤ e.timestamp → e ∉ p.before.printed → p.before.cursor ≤ e.timestamp

/-- As many as the cache holds were printed before, at most. -/
def Polled.Kept (p : Polled) : Prop := p.before.printed.length ≤ followDedupCacheMax

/-! ## One poll -/

section Poll

variable {s : Follow} {events : List LogEvent}

/-- The events of a window that were not seen. -/
def Follow.fresh (s : Follow) (events : List LogEvent) : List LogEvent := events.filter fun e => e.eventId ∉ s.seen

/-- What the inner loop does: it prints the fresh events, and moves the cursor to the
    latest of them. -/
theorem foldl_event (hids : (events.map (·.eventId)).Nodup) (hne : ∀ e ∈ events, e.eventId ≠ "") :
    events.foldl Follow.event s =
      { seen := ((s.fresh events).map (·.eventId)).reverse ++ s.seen
        cursor := (s.fresh events).foldl (fun c e => max c e.timestamp) s.cursor
        printed := s.printed ++ s.fresh events } := by
  induction events generalizing s with
  | nil => simp [Follow.fresh]
  | cons e events ih =>
    rw [List.map_cons, List.nodup_cons] at hids
    have hrest : ∀ x ∈ events, x.eventId ≠ "" := fun x hx => hne x (List.mem_cons_of_mem _ hx)
    rw [List.foldl_cons, ih hids.2 hrest]
    by_cases hseen : e.eventId ∈ s.seen
    · have hskip : s.event e = s := if_pos ⟨hne e (List.mem_cons_self ..), hseen⟩
      rw [hskip]
      simp [Follow.fresh, hseen]
    · have hprint : s.event e = ⟨e.eventId :: s.seen, max s.cursor e.timestamp, s.printed ++ [e]⟩ := by
        have hid := hne e (List.mem_cons_self ..)
        simp only [Follow.event, hseen, and_false, if_false, ne_eq, hid, not_false_eq_true, if_true, Follow.mk.injEq,
          true_and, and_true]
        split <;> omega
      -- the ids of the rest are others
      have hfresh : (s.event e).fresh events = s.fresh events := by
        rw [hprint]
        refine List.filter_congr fun x hx => ?_
        have hother : x.eventId ≠ e.eventId := fun he => hids.1 (List.mem_map.mpr ⟨x, hx, he⟩)
        simp [hother]
      rw [hfresh, hprint]
      simp [Follow.fresh, hseen]

theorem le_foldl_max (events : List LogEvent) (c : Int) :
    c ≤ events.foldl (fun c e => max c e.timestamp) c ∧
      ∀ e ∈ events, e.timestamp ≤ events.foldl (fun c e => max c e.timestamp) c := by
  induction events generalizing c with
  | nil => exact ⟨Int.le_refl _, nofun⟩
  | cons e events ih =>
    obtain ⟨hc, hmem⟩ := ih (max c e.timestamp)
    refine ⟨by rw [List.foldl_cons]; omega, fun x hx => ?_⟩
    rcases List.mem_cons.mp hx with rfl | hx
    · rw [List.foldl_cons]
      omega
    · exact hmem x hx

/-- The latest of them is one of them, or none is later. -/
theorem foldl_max_mem (events : List LogEvent) (c : Int) :
    events.foldl (fun c e => max c e.timestamp) c = c ∨
      ∃ e ∈ events, e.timestamp = events.foldl (fun c e => max c e.timestamp) c := by
  induction events generalizing c with
  | nil => exact .inl rfl
  | cons e events ih =>
    rw [List.foldl_cons]
    rcases ih (max c e.timestamp) with h | ⟨x, hx, h⟩
    · rcases Int.le_total c e.timestamp with hle | hle
      · refine .inr ⟨e, List.mem_cons_self .., ?_⟩
        rw [h]
        omega
      · refine .inl ?_
        rw [h]
        omega
    · exact .inr ⟨x, List.mem_cons_of_mem _ hx, h⟩

/-- What a poll prints. -/
def Follow.news (s : Follow) (pages : List (List LogEvent)) : List LogEvent :=
  s.fresh (byTimestamp (drainPages maxLogEvents [] pages))

/-- What a drain returns is in its pages. -/
theorem drainPages_sublist (maxEvents : Nat) (all : List LogEvent) (pages : List (List LogEvent)) :
    (drainPages maxEvents all pages).Sublist (all ++ pages.flatten) := by
  induction pages generalizing all with
  | nil => simp [drainPages]
  | cons page rest ih =>
    rw [drainPages, List.flatten_cons, ← List.append_assoc]
    split
    · exact ih (all ++ page)
    · exact List.sublist_append_left _ _

variable {start : Int} {visible : List LogEvent} {pages : List (List LogEvent)}

/-- The visible events have distinct ids, none empty. -/
def Identified (visible : List LogEvent) : Prop :=
  (visible.map (·.eventId)).Nodup ∧ ∀ e ∈ visible, e.eventId ≠ ""

/-- What an answer brings is visible and in the window. -/
theorem Answers.mem (h : Answers visible s.cursor pages) {e : LogEvent}
    (he : e ∈ byTimestamp (drainPages maxLogEvents [] pages)) : e ∈ visible ∧ s.cursor ≤ e.timestamp := by
  have hdrained := (List.perm_insertionSort _ _).mem_iff.mp he
  have hpage := (drainPages_sublist maxLogEvents [] pages).subset hdrained
  rw [List.nil_append] at hpage
  have hvisible := List.mem_filter.mp (h.mem_iff.mp hpage)
  exact ⟨hvisible.1, of_decide_eq_true hvisible.2⟩

theorem Answers.identified (hid : Identified visible) (h : Answers visible s.cursor pages) :
    Identified (byTimestamp (drainPages maxLogEvents [] pages)) := by
  refine ⟨?_, fun e he => hid.2 e (h.mem he).1⟩
  have hpages : (pages.flatten.map (·.eventId)).Nodup :=
    (h.map _).nodup_iff.mpr (hid.1.sublist (List.filter_sublist.map _))
  have hdrained := hpages.sublist ((drainPages_sublist maxLogEvents [] pages).map _)
  exact ((List.perm_insertionSort _ _).map _).nodup_iff.mpr hdrained

/-- One poll: it prints its news, and the seen ids are dropped when they are too many. -/
theorem poll_eq (hid : Identified visible) (h : Answers visible s.cursor pages) :
    s.poll pages =
      { seen := if ((s.news pages).map (·.eventId)).length + s.seen.length > followDedupCacheMax then []
          else ((s.news pages).map (·.eventId)).reverse ++ s.seen
        cursor := (s.news pages).foldl (fun c e => max c e.timestamp) s.cursor
        printed := s.printed ++ s.news pages } := by
  obtain ⟨hids, hne⟩ := h.identified hid
  unfold Follow.poll
  rw [foldl_event hids hne]
  by_cases hmany : ((s.news pages).map (·.eventId)).length + s.seen.length > followDedupCacheMax
  · rw [if_pos hmany, ← List.length_reverse, ← List.length_append] at *
    exact if_pos hmany
  · rw [if_neg hmany]
    rw [← List.length_reverse, ← List.length_append] at hmany
    exact if_neg hmany

theorem poll_printed (hid : Identified visible) (h : Answers visible s.cursor pages) :
    (s.poll pages).printed = s.printed ++ s.news pages := by rw [poll_eq hid h]

theorem poll_cursor (hid : Identified visible) (h : Answers visible s.cursor pages) : s.cursor ≤ (s.poll pages).cursor := by
  rw [poll_eq hid h]
  exact (le_foldl_max _ _).1

theorem mem_news (h : Answers visible s.cursor pages) {e : LogEvent} (he : e ∈ s.news pages) :
    e ∈ visible ∧ s.cursor ≤ e.timestamp ∧ e.eventId ∉ s.seen := by
  obtain ⟨hmem, hnew⟩ := List.mem_filter.mp he
  obtain ⟨hvisible, hcursor⟩ := h.mem hmem
  exact ⟨hvisible, hcursor, of_decide_eq_true hnew⟩

/-- A whole drain leaves out nothing of the window. -/
theorem news_of_whole (h : Answers visible s.cursor pages) (hwhole : drainPages maxLogEvents [] pages = pages.flatten)
    {e : LogEvent} (he : e ∈ visible) (hcursor : s.cursor ≤ e.timestamp) (hnew : e.eventId ∉ s.seen) :
    e ∈ s.news pages := by
  refine List.mem_filter.mpr ⟨(List.perm_insertionSort _ _).mem_iff.mpr ?_, decide_eq_true hnew⟩
  rw [hwhole]
  exact h.mem_iff.mpr (List.mem_filter.mpr ⟨he, decide_eq_true hcursor⟩)

end Poll

/-! ## What every session keeps -/

section Session

variable {start : Int} {polls : List Polled} {visible : List LogEvent} {s : Follow} {pages : List (List LogEvent)}

/-- What is printed is visible, in the window and not behind the cursor, which stands at
    the latest of it. -/
structure FollowInv (start : Int) (visible : List LogEvent) (s : Follow) : Prop where
  identified : Identified visible
  printed : ∀ e ∈ s.printed, e ∈ visible ∧ start ≤ e.timestamp ∧ e.timestamp ≤ s.cursor
  cursor : start ≤ s.cursor
  latest : s.printed ≠ [] → ∃ e ∈ s.printed, e.timestamp = s.cursor

theorem FollowInv.poll (h : FollowInv start visible s) (ha : Answers visible s.cursor pages) :
    FollowInv start visible (s.poll pages) := by
  have hcursor := poll_cursor h.identified ha
  rw [poll_eq h.identified ha] at hcursor ⊢
  obtain ⟨-, hle⟩ := le_foldl_max (s.news pages) s.cursor
  refine ⟨h.identified, fun e he => ?_, Int.le_trans h.cursor hcursor, fun hne => ?_⟩
  · rcases List.mem_append.mp he with he | he
    · obtain ⟨hvisible, hstart, hc⟩ := h.printed e he
      exact ⟨hvisible, hstart, Int.le_trans hc hcursor⟩
    · obtain ⟨hvisible, hc, -⟩ := mem_news ha he
      exact ⟨hvisible, Int.le_trans h.cursor hc, hle e he⟩
  · rcases foldl_max_mem (s.news pages) s.cursor with heq | ⟨e, he, heq⟩
    · by_cases hold : s.printed = []
      · -- the first news stands at the cursor
        have hnews : s.news pages ≠ [] := by
          intro hnil
          rw [hold, hnil] at hne
          exact hne rfl
        obtain ⟨e, he⟩ := List.exists_mem_of_ne_nil _ hnews
        have hc := (mem_news ha he).2.1
        have hl := hle e he
        refine ⟨e, List.mem_append_right _ he, ?_⟩
        show e.timestamp = (s.news pages).foldl (fun c e => max c e.timestamp) s.cursor
        omega
      · obtain ⟨e, he, hc⟩ := h.latest hold
        exact ⟨e, List.mem_append_left _ he, hc.trans heq.symm⟩
    · exact ⟨e, List.mem_append_right _ he, heq⟩

theorem followInv (h : Following start polls visible s) : FollowInv start visible s := by
  induction h with
  | begin => exact ⟨⟨List.nodup_nil, nofun⟩, nofun, Int.le_refl _, fun hne => absurd rfl hne⟩
  | appear events _ hids hne ih =>
    refine ⟨⟨hids, fun e he => ?_⟩, fun e he => ?_, ih.cursor, ih.latest⟩
    · rcases List.mem_append.mp he with he | he
      · exact hne e he
      · exact ih.identified.2 e he
    · obtain ⟨hvisible, hrest⟩ := ih.printed e he
      exact ⟨List.mem_append_right _ hvisible, hrest⟩
  | poll pages _ ha ih => exact ih.poll ha

/-! ## Runs that stay in time -/

/-- Nothing was printed twice, and the seen ids are those printed, or were dropped. -/
structure Sound (s : Follow) : Prop where
  once : s.printed.Nodup
  kept : s.printed.length ≤ followDedupCacheMax → s.seen = (s.printed.map (·.eventId)).reverse
  dropped : followDedupCacheMax < s.printed.length → s.seen = []

/-- What a session does not recover from. -/
def Spoiled (start : Int) (visible : List LogEvent) (s : Follow) : Prop :=
  (∃ e ∈ visible, start ≤ e.timestamp ∧ e ∉ s.printed ∧ e.timestamp < s.cursor) ∨ ¬ s.printed.Nodup

theorem Spoiled.poll (hinv : FollowInv start visible s) (h : Spoiled start visible s) (ha : Answers visible s.cursor pages) :
    Spoiled start visible (s.poll pages) := by
  rcases h with ⟨e, he, hstart, hnot, hbehind⟩ | htwice
  · refine .inl ⟨e, he, hstart, ?_, Int.lt_of_lt_of_le hbehind (poll_cursor hinv.identified ha)⟩
    rw [poll_printed hinv.identified ha]
    intro hmem
    rcases List.mem_append.mp hmem with hmem | hmem
    · exact hnot hmem
    · have := (mem_news ha hmem).2.1
      omega
  · refine .inr fun honce => htwice ?_
    rw [poll_printed hinv.identified ha] at honce
    exact honce.sublist (List.sublist_append_left _ _)

/-- An id names one visible event. -/
theorem FollowInv.id_inj (h : FollowInv start visible s) {e e' : LogEvent} (he : e ∈ visible) (he' : e' ∈ visible)
    (heq : e.eventId = e'.eventId) : e = e' := List.inj_on_of_nodup_map h.identified.1 he he' heq

/-- A poll in time, of a cache that was not dropped, prints what was left, once. -/
theorem Sound.poll (hinv : FollowInv start visible s) (h : Sound s) (ha : Answers visible s.cursor pages)
    (hkept : s.printed.length ≤ followDedupCacheMax) : Sound (s.poll pages) := by
  have hseen := h.kept hkept
  have hnews : (s.news pages).Nodup :=
    (List.Nodup.of_map _ (ha.identified hinv.identified).1).sublist List.filter_sublist
  have honce : (s.printed ++ s.news pages).Nodup := by
    refine List.nodup_append.mpr ⟨h.once, hnews, fun a hp b hn hab => (mem_news ha hn).2.2 ?_⟩
    rw [hseen, ← hab]
    exact List.mem_reverse.mpr (List.mem_map.mpr ⟨a, hp, rfl⟩)
  rw [poll_eq hinv.identified ha]
  have hlen : ((s.news pages).map (·.eventId)).length + s.seen.length = (s.printed ++ s.news pages).length := by
    rw [hseen, List.length_reverse, List.length_map, List.length_map, List.length_append, Nat.add_comm]
  refine ⟨honce, fun hle => ?_, fun hlt => ?_⟩
  · dsimp only at hle ⊢
    rw [if_neg (by omega), hseen, ← List.reverse_append, ← List.map_append]
  · dsimp only at hlt ⊢
    rw [if_pos (by omega)]

theorem sound_start : Sound ⟨[], start, []⟩ :=
  ⟨List.nodup_nil, fun _ => rfl, fun h => absurd h (Nat.not_lt_zero _)⟩

/-- While the cache is large enough, nothing is printed twice. -/
theorem following_sound (h : Following start polls visible s) (hpolls : ∀ p ∈ polls, p.Kept) : Sound s := by
  induction h with
  | begin => exact sound_start
  | appear events _ _ _ ih => exact ih hpolls
  | poll pages hf ha ih =>
    have hsound := ih fun p hp => hpolls p (List.mem_cons_of_mem _ hp)
    exact hsound.poll (followInv hf) ha (hpolls _ (List.mem_cons_self ..))

/-- What is printed already, and whose id was dropped, is printed again. -/
theorem Sound.spoiled (hinv : FollowInv start visible s) (h : Sound s) (ha : Answers visible s.cursor pages)
    (hwhole : drainPages maxLogEvents [] pages = pages.flatten) (hmany : followDedupCacheMax < s.printed.length) :
    Spoiled start visible (s.poll pages) := by
  have hne : s.printed ≠ [] := by
    intro he
    rw [he] at hmany
    exact absurd hmany (Nat.not_lt_zero _)
  obtain ⟨e, he, hcursor⟩ := hinv.latest hne
  have hseen : e.eventId ∉ s.seen := by
    rw [h.dropped hmany]
    exact List.not_mem_nil
  have hagain := news_of_whole ha hwhole (hinv.printed e he).1 (Int.le_of_eq hcursor.symm) hseen
  refine .inr fun honce => ?_
  rw [poll_printed hinv.identified ha] at honce
  exact (List.nodup_append.mp honce).2.2 e he e hagain rfl

/-- A session whose drains are whole is sound and its polls in time, or it is spoiled. -/
theorem sound_or_spoiled (h : Following start polls visible s) (hwhole : ∀ p ∈ polls, p.Whole) :
    (Sound s ∧ ∀ p ∈ polls, p.InTime start ∧ p.Kept) ∨ Spoiled start visible s := by
  induction h with
  | begin => exact .inl ⟨sound_start, nofun⟩
  | appear events hf hids hne ih =>
    rcases ih hwhole with hsound | ⟨e, he, hrest⟩ | htwice
    · exact .inl hsound
    · exact .inr (.inl ⟨e, List.mem_append_right _ he, hrest⟩)
    · exact .inr (.inr htwice)
  | poll pages hf ha ih =>
    rename_i polls visible s
    have hinv := followInv hf
    rcases ih fun p hp => hwhole p (List.mem_cons_of_mem _ hp) with ⟨hsound, hpolls⟩ | hspoiled
    · by_cases hkept : s.printed.length ≤ followDedupCacheMax
      · by_cases htime : (⟨visible, s, pages⟩ : Polled).InTime start
        · refine .inl ⟨hsound.poll hinv ha hkept, fun p hp => ?_⟩
          rcases List.mem_cons.mp hp with rfl | hp
          · exact ⟨htime, hkept⟩
          · exact hpolls p hp
        · -- an event behind the cursor stays behind
          refine .inr (Spoiled.poll hinv (.inl ?_) ha)
          unfold Polled.InTime at htime
          push Not at htime
          obtain ⟨e, he, hstart, hnot, hbehind⟩ := htime
          exact ⟨e, he, hstart, hnot, hbehind⟩
      · exact .inr (hsound.spoiled hinv ha (hwhole _ (List.mem_cons_self ..)) (Nat.lt_of_not_le hkept))
    · exact .inr (hspoiled.poll hinv ha)

/-- At every poll of a session whose drains are whole: each visible event of the window has
    been printed exactly once, exactly when no poll so far found one that was behind the
    cursor and not printed, nor more lines printed than the cache holds. -/
theorem follow_exactly_once_iff (start : Int) (polls : List Polled) (visible : List LogEvent) (s : Follow)
    (pages : List (List LogEvent)) (h : Following start polls visible s) (ha : Answers visible s.cursor pages)
    (hwhole : ∀ p ∈ ⟨visible, s, pages⟩ :: polls, p.Whole) :
    (∀ e ∈ visible, start ≤ e.timestamp → (s.poll pages).printed.count e = 1) ↔
      ∀ p ∈ ⟨visible, s, pages⟩ :: polls, p.InTime start ∧ p.Kept := by
  have hinv := followInv h
  have hinv' := hinv.poll ha
  have hlast : Following start (⟨visible, s, pages⟩ :: polls) visible (s.poll pages) := .poll pages h ha
  constructor
  · intro hcount
    rcases sound_or_spoiled hlast hwhole with ⟨-, hpolls⟩ | ⟨e, he, hstart, hnot, -⟩ | htwice
    · exact hpolls
    · have := hcount e he hstart
      rw [List.count_eq_zero_of_not_mem hnot] at this
      cases this
    · refine absurd (List.nodup_iff_count_le_one.mpr fun e => ?_) htwice
      by_cases he : e ∈ (s.poll pages).printed
      · obtain ⟨hvisible, hstart, -⟩ := hinv'.printed e he
        exact Nat.le_of_eq (hcount e hvisible hstart)
      · rw [List.count_eq_zero_of_not_mem he]
        exact Nat.zero_le _
  · intro hpolls e he hstart
    obtain ⟨htime, hkept⟩ := hpolls _ (List.mem_cons_self ..)
    have hsound := following_sound h fun p hp => (hpolls p (List.mem_cons_of_mem _ hp)).2
    refine List.count_eq_one_of_mem (hsound.poll hinv ha hkept).once ?_
    rw [poll_printed hinv.identified ha]
    by_cases hprinted : e ∈ s.printed
    · exact List.mem_append_left _ hprinted
    · have hnew : e.eventId ∉ s.seen := by
        rw [hsound.kept hkept, List.mem_reverse]
        intro hm
        obtain ⟨e', he', heq⟩ := List.mem_map.mp hm
        obtain rfl := hinv.id_inj (hinv.printed e' he').1 he heq
        exact hprinted he'
      have hwindow : s.cursor ≤ e.timestamp := htime e he hstart hprinted
      exact List.mem_append_right _ (news_of_whole ha (hwhole _ (List.mem_cons_self ..)) he hwindow hnew)

end Session

/-! ### A late event -/

/-- A line of one replica, and an earlier one of another, which its agent ships later. -/
def promptLine : LogEvent := ⟨10, "ready", "n1/0", "e1"⟩
def lateLine : LogEvent := ⟨5, "starting", "n2/0", "e2"⟩

/-- The state after the first line. -/
def promptFollow : Follow := ⟨["e1"], 10, [promptLine]⟩

theorem prompt_following : Following 0 [⟨[promptLine], ⟨[], 0, []⟩, [[promptLine]]⟩] [promptLine] promptFollow := by
  have hvisible : Following 0 [] [promptLine] ⟨[], 0, []⟩ :=
    .appear [promptLine] .begin (by decide) (fun e he => by rw [List.mem_singleton.mp he]; decide)
  have ha : Answers [promptLine] 0 [[promptLine]] := List.Perm.refl _
  exact .poll [[promptLine]] hvisible ha

/-- The second poll, of both lines, brings the first again and prints nothing; so does
    every later one. -/
theorem late_event_vanishes : ∃ polls s, Following 0 polls [lateLine, promptLine] s ∧ polls.length = 2 ∧
    0 ≤ lateLine.timestamp ∧ lateLine ∉ s.printed ∧
    ∀ pages, Answers [lateLine, promptLine] s.cursor pages → lateLine ∉ (s.poll pages).printed := by
  have hboth : Following 0 [⟨[promptLine], ⟨[], 0, []⟩, [[promptLine]]⟩] [lateLine, promptLine] promptFollow :=
    .appear [lateLine] prompt_following (by decide) (fun e he => by rw [List.mem_singleton.mp he]; decide)
  have ha : Answers [lateLine, promptLine] 10 [[promptLine]] := List.Perm.refl _
  have hsecond := Following.poll [[promptLine]] hboth ha
  have hsame : promptFollow.poll [[promptLine]] = promptFollow := by decide
  rw [hsame] at hsecond
  refine ⟨_, _, hsecond, rfl, by decide, by decide, fun pages hpages hmem => ?_⟩
  rw [poll_printed (followInv hsecond).identified hpages] at hmem
  rcases List.mem_append.mp hmem with hmem | hmem
  · exact absurd hmem (by decide)
  · exact absurd (mem_news hpages hmem).2.1 (by decide)

/-- The guarantee at the first poll. -/
theorem follow_exactly_once_prompt : promptFollow.printed.count promptLine = 1 := by
  have hvisible : Following 0 [] [promptLine] ⟨[], 0, []⟩ :=
    .appear [promptLine] .begin (by decide) (fun e he => by rw [List.mem_singleton.mp he]; decide)
  have ha : Answers [promptLine] 0 [[promptLine]] := List.Perm.refl _
  refine (follow_exactly_once_iff 0 [] [promptLine] ⟨[], 0, []⟩ [[promptLine]] hvisible ha (fun p hp => ?_)).mpr
    (fun p hp => ?_) promptLine (List.mem_singleton.mpr rfl) (by decide)
  · rw [List.mem_singleton.mp hp]
    show drainPages maxLogEvents [] [[promptLine]] = _
    decide
  · rw [List.mem_singleton.mp hp]
    refine ⟨fun e _ hstart _ => hstart, ?_⟩
    show 0 ≤ followDedupCacheMax
    exact Nat.zero_le _

end LaunchPad.Cli
