/-
  LaunchPad.Agent.LocalState — the agent's own record (`agent-rust/src/state.rs`): the
  host ports it has allocated and, per schedule, the last fire or first-sight anchor;
  and what a tick does to it (`agent-app.rs`, `tick_inner`, `record_cron_fire`).

  The record lives in memory and in `state.json`. `save_state` writes the whole record to
  a temporary file and renames it, so a save either replaces the stored record or leaves
  it; `saved` is that outcome. `now_millis` is read anew for each anchor: `now` gives the
  reading for each key.

  Proved:
  - `get_seedFires`: after the bookkeeping exactly the scheduled keys have a record; one
    that existed is kept.
  - `recordCronFire_err`: a fire that cannot be stored leaves every record as it was, in
    memory and on disk.
-/
import LaunchPad.Agent.Plan

namespace LaunchPad.Agent

open Lib

structure LocalState where
  ports : SortedMap String Int := []
  cronFires : SortedMap String Int := []
  deriving DecidableEq, Repr

/-- The record in memory and the one on disk; no file reads back as the empty record. -/
structure Records where
  mem : LocalState
  file : Option LocalState
  deriving DecidableEq, Repr

/-- `load_state`: the agent comes up with what the file holds. -/
def Records.loaded (r : Records) : Records := { r with mem := r.file.getD {} }

/-- `save_state`. -/
def Records.save (r : Records) (saved : Bool) : Records := if saved then { r with file := some r.mem } else r

/-! ## Host ports -/

/-- `hash`: 31-multiplier over the characters, in `u32`. -/
def portHash (input : String) : Nat := input.toList.foldl (fun h ch => (h * 31 + ch.toNat) % 0x100000000) 0

def portKey (key : String) (index : Int) : String := key ++ "#" ++ toString index

/-- `while used.contains(&port)`: one pass over the window. -/
def probePort (used : List Int) : Nat → Int → Int
  | 0, port => port
  | fuel + 1, port =>
    if used.contains port then probePort used fuel (hostPortMin + (port + 1 - hostPortMin) % hostPortCount) else port

/-- `allocate_port` of `state.rs`: the port, and the ports after it. With the whole window
    taken the source would not return; here the search ends where it began. -/
def allocatePort (ports : SortedMap String Int) (key : String) (index : Int) : Int × SortedMap String Int :=
  match SortedMap.get (portKey key index) ports with
  | some existing => (existing, ports)
  | none =>
    let start := hostPortMin + (portHash (portKey key index) : Int) % hostPortCount
    let port := probePort (ports.map (·.2)) hostPortCount start
    (port, SortedMap.insert (portKey key index) port ports)

def releasePort (ports : SortedMap String Int) (key : String) (index : Int) : SortedMap String Int :=
  SortedMap.erase (portKey key index) ports

/-! ## Cron bookkeeping -/

def cronKeys (d : DesiredState) : List String := (d.services.filter (·.cron.isSome)).map (·.key)

def backupKeys (d : DesiredState) : List String :=
  (d.services.filter (·.backup.isSome)).map fun c => backupStateKey c.key

/-- The first-sight anchor of a cron key: the fire label of a run in progress, else now. -/
def anchorOf (live : Live) (key : String) (now : Int) : Int :=
  let label := labelFire ((replicasOf live key).filter (·.running))
  if label > 0 then label else now

/-- Seed the schedules seen for the first time, and drop those that are gone. -/
def seedFires (d : DesiredState) (live : Live) (now : String → Int) (fires : SortedMap String Int) :
    SortedMap String Int :=
  let crons := (cronKeys d).foldl (fun m k => SortedMap.insertNew k (anchorOf live k (now k)) m) fires
  let backups := (backupKeys d).foldl (fun m k => SortedMap.insertNew k (now k) m) crons
  SortedMap.filterKeys (fun k => (cronKeys d).contains k || (backupKeys d).contains k) backups

/-- The bookkeeping of one tick: saved only when it changed something. -/
def Records.seed (r : Records) (d : DesiredState) (live : Live) (now : String → Int) (saved : Bool) : Records :=
  let fires := seedFires d live now r.mem.cronFires
  if fires = r.mem.cronFires then r
  else { r with mem := { r.mem with cronFires := fires } }.save saved

def recordError : String := "could not persist the cron fire record — refusing to start the run"

/-- `record_cron_fire`: in memory, then on disk; rolled back when it cannot be stored. -/
def Records.recordCronFire (r : Records) (key : String) (fireMs : Int) (saved : Bool) :
    Except String Unit × Records :=
  let previous := SortedMap.get key r.mem.cronFires
  let inserted : Records := { r with mem := { r.mem with cronFires := SortedMap.insert key fireMs r.mem.cronFires } }
  if saved then (.ok (), inserted.save true)
  else
    let fires := match previous with
      | some prev => SortedMap.insert key prev inserted.mem.cronFires
      | none => SortedMap.erase key inserted.mem.cronFires
    (.error recordError, { inserted with mem := { inserted.mem with cronFires := fires } })

/-! ## What the bookkeeping keeps -/

/-- The recorded fire or anchor of a key. -/
def LocalState.fire (s : LocalState) (key : String) : Option Int := SortedMap.get key s.cronFires

theorem get_foldl_insertNew (f : String → Int) (key : String) (ks : List String) (m : SortedMap String Int) :
    SortedMap.get key (ks.foldl (fun m k => SortedMap.insertNew k (f k) m) m) =
      if key ∈ ks then some ((SortedMap.get key m).getD (f key)) else SortedMap.get key m := by
  induction ks generalizing m with
  | nil => simp
  | cons k ks ih =>
    rw [List.foldl_cons, ih, SortedMap.get_insertNew]
    by_cases hk : key = k
    · subst hk
      by_cases hm : key ∈ ks <;> simp [hm]
    · simp [hk]

theorem get_seedFires (d : DesiredState) (live : Live) (now : String → Int) (fires : SortedMap String Int)
    (key : String) :
    SortedMap.get key (seedFires d live now fires) =
      if key ∈ cronKeys d then some ((SortedMap.get key fires).getD (anchorOf live key (now key)))
      else if key ∈ backupKeys d then some ((SortedMap.get key fires).getD (now key))
      else none := by
  unfold seedFires
  rw [SortedMap.get_filterKeys, get_foldl_insertNew, get_foldl_insertNew]
  by_cases hc : key ∈ cronKeys d
  · by_cases hb : key ∈ backupKeys d <;> simp [hc, hb]
  · by_cases hb : key ∈ backupKeys d <;> simp [hc, hb]

/-- Whatever a refused fire did in memory is undone, and nothing was stored. -/
theorem recordCronFire_err (r : Records) (key : String) (fireMs : Int) :
    (r.recordCronFire key fireMs false).2.file = r.file ∧
      ∀ k, (r.recordCronFire key fireMs false).2.mem.fire k = r.mem.fire k := by
  refine ⟨rfl, fun k => ?_⟩
  simp only [Records.recordCronFire, LocalState.fire, Bool.false_eq_true, if_false]
  cases hp : SortedMap.get key r.mem.cronFires with
  | none =>
    show SortedMap.get k (SortedMap.erase key _) = _
    rw [SortedMap.get_erase]
    split
    · rename_i hk; subst hk; exact hp.symm
    · rename_i hk; exact SortedMap.get_insert_ne hk _ _
  | some prev =>
    show SortedMap.get k (SortedMap.insert key prev _) = _
    rw [SortedMap.get_insert]
    split
    · rename_i hk; subst hk; exact hp.symm
    · rename_i hk; exact SortedMap.get_insert_ne hk _ _

theorem recordCronFire_ok (r : Records) (key : String) (fireMs : Int) :
    (r.recordCronFire key fireMs true).2.file = some (r.recordCronFire key fireMs true).2.mem ∧
      ∀ k, (r.recordCronFire key fireMs true).2.mem.fire k = if k = key then some fireMs else r.mem.fire k :=
  ⟨rfl, fun k => SortedMap.get_insert key k fireMs r.mem.cronFires⟩

end LaunchPad.Agent
