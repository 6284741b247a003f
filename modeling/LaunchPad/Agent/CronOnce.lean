/-
  LaunchPad.Agent.CronOnce — a cron service fires each minute at most once. The guarantee
  is spread over the planner (fire labels, recorded fire), the record written before the
  run, and the seeding and pruning of anchors at the start of a tick.

  Followed for one key that is only ever published as a cron service. The runs are all
  runs of `Agent.Node`: ticks at any nondecreasing times, saves that fail, the state file
  lost, crashes between any two commands, the service removed and added again.

  Proved:
  - `cron_fires_at_most_once`: the started minutes are strictly increasing; a start lies
    after the anchor the key was first seen with, finds no run of the key in progress, and
    was recorded before; a fire that cannot be stored leaves the records alone.

  The invariant (`CronInv`) is that nothing started lies above any record of the key, the
  clock, or the label of a run in progress. `Pending` adds what the plan knows of a due
  fire; it is lost at the record and becomes `Recorded`.
-/
import LaunchPad.Agent.Node

namespace LaunchPad.Agent

open Lib Reconciler

/-- The minutes for which a run of the key was started, newest first. -/
def startsOf (key : String) (h : History) : List Int := (h.starts.filter (·.1 == key)).map (·.2)

/-- The anchor the key was first seen with since the agent last came up without a file. -/
def sightOf (key : String) (h : History) : Option Int := SortedMap.get key h.sights

/-- A running container of the key that carries a fire label, as docker reports it. -/
structure FireOf (key : String) (w : Node) (x : Container) (fire : Int) : Prop where
  mem : x ∈ w.docker
  reported : labelled x.replica = true
  key : x.replica.key = key
  running : x.replica.running = true
  label : x.replica.cronFireMs = some fire

/-- The documents of the claim: distinct service keys, and the key only ever published as
    a cron service. Its name is not that of a backup record. -/
def CronOnly (key : String) (d : DesiredState) : Prop :=
  (d.services.map (·.key)).Nodup ∧
  ∀ c ∈ d.services, (c.key = key → c.cron.isSome = true ∧ c.jobRun = none) ∧ backupStateKey c.key ≠ key

def cronRuns (key : String) : Admits := { tick := fun d _ => CronOnly key d }

/-- Nothing started, and no first sight, lies above `a`. -/
structure Floor (key : String) (h : History) (a : Int) : Prop where
  starts : ∀ m ∈ startsOf key h, m ≤ a
  sight : ∀ s, sightOf key h = some s → s ≤ a

theorem Floor.mono {key : String} {h : History} {a b : Int} (hf : Floor key h a) (hab : a ≤ b) : Floor key h b :=
  ⟨fun m hm => Int.le_trans (hf.starts m hm) hab, fun s hs => Int.le_trans (hf.sight s hs) hab⟩

structure CronInv (key : String) (w : Node) : Prop where
  docker : DockerOk w
  /-- Docker never restarts a fire-labelled container. -/
  once : ∀ x ∈ w.docker, x.replica.cronFireMs.isSome = true → x.restarts = false
  sorted : (startsOf key w.history).Pairwise (· > ·)
  minutes : ∀ m ∈ startsOf key w.history, 0 < m ∧ minuteMs ∣ m
  clock : Floor key w.history w.clock
  mem : ∀ a, w.records.mem.fire key = some a → Floor key w.history a
  file : ∀ s a, w.records.file = some s → s.fire key = some a → Floor key w.history a
  unseen : sightOf key w.history = none →
    w.records.mem.fire key = none ∧ ∀ s, w.records.file = some s → s.fire key = none
  label : ∀ x f, FireOf key w x f → f ∈ startsOf key w.history ∧ Floor key w.history f

/-! ## What the other commands leave alone -/

/-- A step that starts nothing of the key and records nothing of it. -/
structure CronFrame (key : String) (w w' : Node) : Prop where
  docker : DockerOk w'
  once : ∀ x ∈ w'.docker, x.replica.cronFireMs.isSome = true → x.restarts = false
  starts : startsOf key w'.history = startsOf key w.history
  sight : sightOf key w'.history = sightOf key w.history
  clock : w.clock ≤ w'.clock
  mem : w'.records.mem.fire key = w.records.mem.fire key
  file : ∀ s, w'.records.file = some s → w.records.file = some s ∨ s.fire key = w.records.mem.fire key
  label : ∀ x f, FireOf key w' x f → ∃ y, FireOf key w y f

theorem Floor.of_eq {key : String} {h h' : History} {a : Int} (hf : Floor key h a)
    (hs : startsOf key h' = startsOf key h) (hk : sightOf key h' = sightOf key h) : Floor key h' a :=
  ⟨by rw [hs]; exact hf.starts, by rw [hk]; exact hf.sight⟩

theorem CronInv.frame {key : String} {w w' : Node} (h : CronInv key w) (hf : CronFrame key w w') : CronInv key w' := by
  have hfloor : ∀ {a}, Floor key w.history a → Floor key w'.history a := fun h => h.of_eq hf.starts hf.sight
  refine ⟨hf.docker, hf.once, ?_, ?_, ?_, ?_, ?_, ?_, ?_⟩
  · rw [hf.starts]; exact h.sorted
  · rw [hf.starts]; exact h.minutes
  · exact hfloor (h.clock.mono hf.clock)
  · intro a ha
    rw [hf.mem] at ha
    exact hfloor (h.mem a ha)
  · intro s a hs ha
    rcases hf.file s hs with hs | hs
    · exact hfloor (h.file s a hs ha)
    · rw [hs] at ha
      exact hfloor (h.mem a ha)
  · intro hnone
    rw [hf.sight] at hnone
    obtain ⟨hmem, hfile⟩ := h.unseen hnone
    refine ⟨by rw [hf.mem]; exact hmem, fun s hs => ?_⟩
    rcases hf.file s hs with hs | hs
    · exact hfile s hs
    · rw [hs]; exact hmem
  · intro x f hx
    obtain ⟨y, hy⟩ := hf.label x f hx
    obtain ⟨hm, hfl⟩ := h.label y f hy
    exact ⟨by rw [hf.starts]; exact hm, hfloor hfl⟩

/-- A command of another service. -/
def OffKey (key : String) (ids : List String) : Op → Prop
  | .runContainer c .. => c.key ≠ key
  | .startContainer id => id ∈ ids
  | .recordCronFire k _ => k ≠ key
  | .runBackup c _ => backupStateKey c.key ≠ key
  | _ => True

section Frame

variable {nodeId key : String} {ids : List String}

/-- Starts and stops of other containers leave the runs of the key as they are. -/
theorem shuffle_label {may : Container → Prop} {w w' : Node} (hs : Shuffle may w.docker w'.docker)
    (hmay : ∀ z ∈ w.docker, may z → ∀ y ∈ w.docker, y.replica.id = z.replica.id → y.replica.key = key →
      y.replica.cronFireMs = none) :
    ∀ x f, FireOf key w' x f → ∃ y, FireOf key w y f := by
  intro x f hx
  obtain ⟨y, hy, hfix, hsame | ⟨z, hz, hz', hid⟩⟩ := hs.running hx.mem hx.running
  · subst hsame
    exact ⟨y, hy, hx.reported, hx.key, hx.running, hx.label⟩
  · have hlabel := (Container.fixed_congr hfix).2.2.2.2.2.1
    have := hmay z hz hz' y hy hid.symm ((fixed_key hfix).trans hx.key)
    rw [hlabel, hx.label] at this
    cases this

theorem shuffle_once {may : Container → Prop} {docker docker' : List Container} (hs : Shuffle may docker docker')
    (h : ∀ x ∈ docker, x.replica.cronFireMs.isSome = true → x.restarts = false) :
    ∀ x ∈ docker', x.replica.cronFireMs.isSome = true → x.restarts = false := by
  intro x hx hlabel
  obtain ⟨y, hy, hfix⟩ := hs.origin hx
  obtain ⟨-, -, -, -, -, hcron, -, hrestarts⟩ := Container.fixed_congr hfix
  rw [← hcron] at hlabel
  exact hrestarts ▸ h y hy hlabel

theorem rely_frame {w w' : Node} (h : CronInv key w) (hr : Rely w w') : CronFrame key w w' := by
  have hshuffle := rely_shuffle hr
  have hlabel : ∀ x f, FireOf key w' x f → ∃ y, FireOf key w y f := shuffle_label hshuffle.1 fun z hz hmay y hy hid _ => by
    have hsame := List.inj_on_of_nodup_map h.docker.ids hy hz hid
    subst hsame
    by_contra hsome
    have := h.once y hy (Option.isSome_iff_ne_none.mpr hsome)
    rw [hmay.1] at this
    cases this
  refine ⟨h.docker.shuffle hshuffle, shuffle_once hshuffle.1 h.once, ?_, ?_, ?_, ?_, ?_, hlabel⟩
  all_goals cases hr
  all_goals first | rfl | exact Int.le_refl _ | assumption | (intro s hs; exact .inl hs) | (intro s hs; cases hs)

theorem startsOf_started {c : ServiceConfig} (h : History) (fire : Option Int) (r : Except String Unit)
    (hc : c.key ≠ key) : startsOf key (h.started c.key fire r) = startsOf key h := by
  unfold History.started
  split
  · simp [startsOf, hc]
  · rfl

theorem sightOf_started (h : History) (k : String) (fire : Option Int) (r : Except String Unit) :
    sightOf key (h.started k fire r) = sightOf key h := by
  unfold History.started
  split <;> rfl

/-- A record of another key leaves this key's record alone. -/
theorem recordCronFire_other (r : Records) {k : String} (fire : Int) (saved : Bool) (hk : k ≠ key) :
    (r.recordCronFire k fire saved).2.mem.fire key = r.mem.fire key ∧
      ∀ s, (r.recordCronFire k fire saved).2.file = some s → r.file = some s ∨ s.fire key = r.mem.fire key := by
  cases saved with
  | false => exact ⟨(recordCronFire_err r k fire).2 key, fun s hs => .inl hs⟩
  | true =>
    obtain ⟨hfile, hmem⟩ := recordCronFire_ok r k fire
    have hkey : (r.recordCronFire k fire true).2.mem.fire key = r.mem.fire key := by
      rw [hmem, if_neg (Ne.symm hk)]
    refine ⟨hkey, fun s hs => .inr ?_⟩
    rw [hfile] at hs
    cases hs
    exact hkey

/-- A run of another service's container. -/
theorem launch_frame {w w' : Node} {c : ServiceConfig} {i : Int} {p : Option Int} {b : String} {f : Option Int}
    {j : Option String} {r : Except String Unit} (h : CronInv key w) (hoff : Elsewhere key ids w) (hc : c.key ≠ key)
    (hs : sem nodeId (.runContainer c i p b f j) w r w') : CronFrame key w w' ∧ Elsewhere key ids w' := by
  have hdocker := dockerOk_sem h.docker hs
  obtain ⟨docker, issued, hl, rfl⟩ := hs
  refine ⟨⟨hdocker, fun x hx hlabel => ?_, startsOf_started _ _ _ hc, sightOf_started _ _ _ _, Int.le_refl _, rfl,
    fun s hs => .inl hs, fun x f hx => ?_⟩, hoff.launch hl (fun _ _ => rfl) rfl rfl⟩
  · rcases mem_launch hl hx with hx | ⟨id, s, -, rfl⟩
    · exact h.once x hx hlabel
    · simp only [launched, Option.isSome_filter] at hlabel
      cases f with
      | none => simp at hlabel
      | some f => rfl
  · rcases mem_launch hl hx.mem with hm | ⟨id, s, -, rfl⟩
    · exact ⟨x, hm, hx.reported, hx.key, hx.running, hx.label⟩
    · exact absurd hx.key hc

/-- A record moves only by a record under its own name. -/
theorem sem_fire_kept {o : Op} {w w' : Node} {r : Resp o} (hcron : ∀ fire, o ≠ .recordCronFire key fire)
    (hbackup : ∀ c fire, o = .runBackup c fire → backupStateKey c.key ≠ key) (hs : sem nodeId o w r w') :
    w'.records.mem.fire key = w.records.mem.fire key ∧
      ∀ s, w'.records.file = some s → w.records.file = some s ∨ s.fire key = w.records.mem.fire key := by
  rcases sem_fires hs with ⟨hmem, hfile⟩ | ⟨k, fire, saved, hr, hop⟩
  · have hkey : w'.records.mem.fire key = w.records.mem.fire key := by unfold LocalState.fire; rw [hmem]
    refine ⟨hkey, fun s hsome => ?_⟩
    rcases hfile with hfile | hfile
    · exact .inl (hfile ▸ hsome)
    · rw [hfile] at hsome
      cases hsome
      exact .inr hkey
  · have hk : k ≠ key := by
      rcases hop with ⟨f, rfl, -⟩ | ⟨c, rfl, rfl⟩
      · rintro rfl
        exact hcron f rfl
      · exact hbackup c fire rfl
    rw [← hr]
    exact recordCronFire_other _ fire saved hk

/-- Commands of other services leave the key's record alone. -/
theorem sem_record {o : Op} {w w' : Node} {r : Resp o} (ho : OffKey key ids o) (hs : sem nodeId o w r w') :
    w'.records.mem.fire key = w.records.mem.fire key ∧
      ∀ s, w'.records.file = some s → w.records.file = some s ∨ s.fire key = w.records.mem.fire key := by
  refine sem_fire_kept (fun fire he => ?_) (fun c fire he => ?_) hs
  · subst he
    exact ho rfl
  · subst he
    exact ho

theorem sem_frame {o : Op} {w w' : Node} {r : Resp o} (h : CronInv key w) (hoff : Elsewhere key ids w)
    (ho : OffKey key ids o) (hs : sem nodeId o w r w') : CronFrame key w w' ∧ Elsewhere key ids w' := by
  by_cases hrun : ∀ c i p b f j, o ≠ .runContainer c i p b f j
  · have hshuffle := sem_shuffle hs hrun
    have hlabel : ∀ x f, FireOf key w' x f → ∃ y, FireOf key w y f := shuffle_label hshuffle.1 fun z hz hmay y hy hid hkey => by
      subst hmay
      have hz' : z.replica.id ∈ ids := ho
      exact absurd hkey ((hoff _ hz').2 y hy hid)
    obtain ⟨hstarts, hsights, hclock⟩ := sem_history hs hrun
    obtain ⟨hmem, hfile⟩ := sem_record ho hs
    refine ⟨⟨h.docker.shuffle hshuffle, shuffle_once hshuffle.1 h.once, ?_, ?_, hclock, hmem, hfile, hlabel⟩,
      hoff.shuffle hshuffle⟩
    · unfold startsOf; rw [hstarts]
    · unfold sightOf; rw [hsights]
  · simp only [not_forall, not_not] at hrun
    obtain ⟨c, i, p, b, f, j, rfl⟩ := hrun
    exact launch_frame h hoff ho hs

/-! ## A due fire, up to its start -/

/-- What the planner found out: the fire is past, and after the recorded one. -/
structure Due (key : String) (fire : Int) (w : Node) : Prop where
  pos : 0 < fire
  minute : minuteMs ∣ fire
  past : fire ≤ w.clock
  record : ∃ last, w.records.mem.fire key = some last ∧ last < fire

/-- The plan's knowledge of the key: the fire that is due, and whether a run is in progress. -/
structure Pending (key : String) (ids : List String) (due : Option Int) (quiet : Bool) (w : Node) : Prop where
  inv : CronInv key w
  off : Elsewhere key ids w
  due : ∀ fire, due = some fire → Due key fire w
  quiet : quiet = true → ∀ x f, ¬ FireOf key w x f

/-- The fire is recorded and may start. -/
structure Recorded (key : String) (ids : List String) (fire : Int) (w : Node) : Prop where
  inv : CronInv key w
  off : Elsewhere key ids w
  quiet : ∀ x f, ¬ FireOf key w x f
  pos : 0 < fire
  minute : minuteMs ∣ fire
  past : fire ≤ w.clock
  mem : w.records.mem.fire key = some fire
  file : ∀ s, w.records.file = some s → s.fire key = some fire
  fresh : ∀ m ∈ startsOf key w.history, m < fire
  sight : ∃ s, sightOf key w.history = some s ∧ s < fire

/-- What holds where a run of the key is started. -/
structure StartOk (key : String) (fire : Int) (w : Node) : Prop where
  fresh : ∀ m ∈ startsOf key w.history, m < fire
  minute : minuteMs ∣ fire
  sight : ∃ s, sightOf key w.history = some s ∧ s < fire
  idle : ∀ x f, ¬ FireOf key w x f
  mem : w.records.mem.fire key = some fire
  file : ∀ s, w.records.file = some s → s.fire key = some fire

def CronStart (key : String) (o : Op) (w : Node) : Prop :=
  CronInv key w ∧ ∀ c i p b f j, o = .runContainer c i p b (some f) j → c.key = key → StartOk key f w

theorem Due.frame {fire : Int} {w w' : Node} (h : Due key fire w) (hf : CronFrame key w w') : Due key fire w' :=
  ⟨h.pos, h.minute, Int.le_trans h.past hf.clock, by rw [hf.mem]; exact h.record⟩

theorem Pending.frame {due : Option Int} {quiet : Bool} {w w' : Node} (h : Pending key ids due quiet w)
    (hf : CronFrame key w w') (hoff : Elsewhere key ids w') : Pending key ids due quiet w' := by
  refine ⟨h.inv.frame hf, hoff, fun fire hfire => (h.due fire hfire).frame hf, fun hq x f hx => ?_⟩
  obtain ⟨y, hy⟩ := hf.label x f hx
  exact h.quiet hq y f hy

/-- No fire is pending. -/
theorem CronInv.pending {w : Node} (h : CronInv key w) (hoff : Elsewhere key ids w) : Pending key ids none false w :=
  ⟨h, hoff, fun _ h => (by cases h), fun h => (by cases h)⟩

theorem Pending.forget {due : Option Int} {quiet : Bool} {w : Node} (h : Pending key ids due quiet w) :
    Pending key ids none false w := h.inv.pending h.off

theorem Recorded.frame {fire : Int} {w w' : Node} (h : Recorded key ids fire w)
    (hf : CronFrame key w w') (hoff : Elsewhere key ids w') : Recorded key ids fire w' := by
  refine ⟨h.inv.frame hf, hoff, fun x f hx => ?_, h.pos, h.minute, Int.le_trans h.past hf.clock, ?_, fun s hs => ?_, ?_, ?_⟩
  · obtain ⟨y, hy⟩ := hf.label x f hx
    exact h.quiet y f hy
  · rw [hf.mem]; exact h.mem
  · rcases hf.file s hs with hs | hs
    · exact h.file s hs
    · rw [hs]; exact h.mem
  · rw [hf.starts]; exact h.fresh
  · rw [hf.sight]; exact h.sight

theorem pending_rely {due : Option Int} {quiet : Bool} {w w' : Node} (h : Pending key ids due quiet w)
    (hr : Rely w w') : Pending key ids due quiet w' :=
  h.frame (rely_frame h.inv hr) (h.off.shuffle (rely_shuffle hr))

theorem recorded_rely {fire : Int} {w w' : Node} (h : Recorded key ids fire w) (hr : Rely w w') :
    Recorded key ids fire w' :=
  h.frame (rely_frame h.inv hr) (h.off.shuffle (rely_shuffle hr))

variable {A : Admits}

theorem pending_keeps {due : Option Int} {quiet : Bool} {o : Op} (ho : OffKey key ids o) :
    (agent nodeId A).Keeps (Pending key ids due quiet) o := by
  rintro w r w' h ⟨hs, -⟩
  obtain ⟨hf, hoff⟩ := sem_frame h.inv h.off ho hs
  exact h.frame hf hoff

/-- Commands of other services start nothing of the key. -/
theorem cronStart_off {o : Op} {w : Node} (ho : OffKey key ids o) (h : CronInv key w) : CronStart key o w := by
  refine ⟨h, fun c i p b f j he hc => ?_⟩
  subst he
  exact absurd hc ho

/-! ## One action -/

/-- The record that precedes a start, or replaces it. -/
theorem record_due {fire : Int} {quiet : Bool} {w w' : Node} {r : Except String Unit}
    (h : Pending key ids (some fire) quiet w) (hs : sem nodeId (.recordCronFire key fire) w r w') :
    Pending key ids none false w' ∧ (r = .ok () → quiet = true → Recorded key ids fire w') := by
  obtain ⟨last, hlast, hlt⟩ := (h.due fire rfl).record
  have hfloor := h.inv.mem last hlast
  obtain ⟨saved, records, hr, rfl⟩ := hs
  have hr' : (w.records.recordCronFire key fire saved).2 = records := by rw [hr]
  have hr1 : (w.records.recordCronFire key fire saved).1 = r := by rw [hr]
  subst hr'
  cases saved with
  | false =>
    obtain ⟨hfile, hmem⟩ := recordCronFire_err w.records key fire
    have hframe : CronFrame key w { w with records := (w.records.recordCronFire key fire false).2 } :=
      ⟨h.inv.docker.congr rfl rfl, h.inv.once, rfl, rfl, Int.le_refl _, hmem key,
        fun s hs => .inl hs, fun x f hx => ⟨x, hx.mem, hx.reported, hx.key, hx.running, hx.label⟩⟩
    refine ⟨(h.frame hframe h.off).forget, fun hok => ?_⟩
    subst hok
    cases hr1
  | true =>
    obtain ⟨hfile, hmem⟩ := recordCronFire_ok w.records key fire
    have hkey : (w.records.recordCronFire key fire true).2.mem.fire key = some fire := by rw [hmem, if_pos rfl]
    have hnew : Floor key w.history fire := hfloor.mono (by omega)
    have hsight : sightOf key w.history ≠ none := fun hnone => by
      rw [(h.inv.unseen hnone).1] at hlast
      cases hlast
    have hinv : CronInv key { w with records := (w.records.recordCronFire key fire true).2 } := by
      refine ⟨h.inv.docker.congr rfl rfl, h.inv.once, h.inv.sorted, h.inv.minutes,
        h.inv.clock, ?_, ?_, fun hnone => absurd hnone hsight, ?_⟩
      · intro a ha
        cases hkey.symm.trans ha
        exact hnew
      · intro s a hs ha
        cases hfile.symm.trans hs
        cases hkey.symm.trans ha
        exact hnew
      · exact fun x f hx => h.inv.label x f ⟨hx.mem, hx.reported, hx.key, hx.running, hx.label⟩
    refine ⟨hinv.pending h.off, fun _ hq => ?_⟩
    have hdue := h.due fire rfl
    obtain ⟨s, hs⟩ := Option.ne_none_iff_exists'.mp hsight
    refine ⟨hinv, h.off, fun x f hx => ?_, hdue.pos, hdue.minute, hdue.past, hkey, fun s hs => ?_, fun m hm => ?_, s, hs, ?_⟩
    · exact h.quiet hq x f ⟨hx.mem, hx.reported, hx.key, hx.running, hx.label⟩
    · cases hfile.symm.trans hs
      exact hkey
    · have := hfloor.starts m hm
      omega
    · have := hfloor.sight s hs
      omega

theorem Recorded.startOk {fire : Int} {w : Node} (h : Recorded key ids fire w) : StartOk key fire w :=
  ⟨h.fresh, h.minute, h.sight, h.quiet, h.mem, h.file⟩

/-- The start: whether or not docker manages it, the invariant holds again. -/
theorem start_recorded {c : ServiceConfig} {i : Int} {p : Option Int} {b : String} {j : Option String} {fire : Int}
    {w w' : Node} {r : Except String Unit} (h : Recorded key ids fire w) (hc : c.key = key)
    (hs : sem nodeId (.runContainer c i p b (some fire) j) w r w') : Pending key ids none false w' := by
  have hdocker := dockerOk_sem h.inv.docker hs
  obtain ⟨docker, issued, hl, rfl⟩ := hs
  have honce : ∀ x ∈ docker, x.replica.cronFireMs.isSome = true → x.restarts = false := by
    intro x hx hlabel
    rcases mem_launch hl hx with hx | ⟨id, s, -, rfl⟩
    · exact h.inv.once x hx hlabel
    · rfl
  refine CronInv.pending ?_ (h.off.launch hl (fun _ _ => rfl) rfl rfl)
  cases r with
  | error e =>
    -- Nothing started: the new container, if there is one, does not run.
    refine ⟨hdocker, honce, h.inv.sorted, h.inv.minutes, h.inv.clock, h.inv.mem, h.inv.file, h.inv.unseen, ?_⟩
    intro x f hx
    refine absurd ⟨?_, hx.reported, hx.key, hx.running, hx.label⟩ (h.quiet x f)
    cases hl with
    | refused e => exact hx.mem
    | created e id _ _ =>
      rcases List.mem_append.mp hx.mem with hm | hm
      · exact hm
      · rw [List.mem_singleton.mp hm] at hx
        cases hx.running
  | ok u =>
    have hstarts : startsOf key (w.history.started c.key (some fire) (.ok u)) = fire :: startsOf key w.history := by
      simp [startsOf, History.started, hc]
    obtain ⟨s, hs, hslt⟩ := h.sight
    have hfloor : ∀ a, fire ≤ a → Floor key (w.history.started c.key (some fire) (.ok u)) a := by
      intro a ha
      refine ⟨fun m hm => ?_, fun s' hs' => ?_⟩
      · rw [hstarts] at hm
        rcases List.mem_cons.mp hm with rfl | hm
        · exact ha
        · have := h.fresh m hm
          omega
      · cases hs.symm.trans hs'
        omega
    refine ⟨hdocker, honce, ?_, ?_, hfloor _ h.past, fun a ha => ?_, fun s' a hs' ha => ?_, fun hnone => ?_, ?_⟩
    · show (startsOf key _).Pairwise _
      rw [hstarts]
      exact List.Pairwise.cons h.fresh h.inv.sorted
    · intro m hm
      replace hm : m ∈ startsOf key (w.history.started c.key (some fire) (.ok u)) := hm
      rw [hstarts] at hm
      rcases List.mem_cons.mp hm with rfl | hm
      · exact ⟨h.pos, h.minute⟩
      · exact h.inv.minutes m hm
    · cases h.mem.symm.trans ha
      exact hfloor _ (Int.le_refl _)
    · cases (h.file s' hs').symm.trans ha
      exact hfloor _ (Int.le_refl _)
    · cases hs.symm.trans hnone
    · intro x f hx
      cases hl with
      | running id _ _ _ =>
        rcases List.mem_append.mp hx.mem with hm | hm
        · exact absurd ⟨hm, hx.reported, hx.key, hx.running, hx.label⟩ (h.quiet x f)
        · have hlabel := hx.label
          rw [List.mem_singleton.mp hm] at hlabel
          have hf : f = fire := by
            simp only [launched, Option.filter_eq_some_iff] at hlabel
            exact (Option.some.inj hlabel.1).symm
          subst hf
          refine ⟨?_, hfloor _ (Int.le_refl _)⟩
          show f ∈ startsOf key _
          rw [hstarts]
          exact List.mem_cons_self ..

/-! ## A whole plan -/

/-- A command of another service, in a program. -/
theorem sat_off {due : Option Int} {quiet : Bool} {α : Type} {p : Prog Resp (Except String α)} {w : Node}
    (hp : Uses (OffKey key ids) p) (h : Pending key ids due quiet w) :
    Sat (agent nodeId A) (CronStart key) (onResult (fun _ => Pending key ids due quiet) fun _ => Pending key ids due quiet)
      p w := by
  have hsat := Sat.ofUses (M := agent nodeId A) (G := CronStart key) (fun w w' h hr => pending_rely h hr)
    (fun o ho => pending_keeps ho) (fun o w ho hw => cronStart_off ho hw.inv) hp h
  refine hsat.mono (fun _ _ h => h) fun r w hw => ?_
  cases r <;> exact hw

theorem sat_record {fire : Int} {quiet : Bool} {w : Node} (h : Pending key ids (some fire) quiet w) :
    Sat (agent nodeId A) (CronStart key)
      (onResult (fun _ w => Pending key ids none false w ∧ (quiet = true → Recorded key ids fire w))
        fun _ => Pending key ids none false) (recordCronFire key fire).run w := by
  refine Sat.act (P := Pending key ids (some fire) quiet) (fun w w' h hr => pending_rely h hr) h (fun w hw => ⟨hw.inv, fun c i p b f j he => by cases he⟩) ?_
  rintro w r w' hw ⟨hs, -⟩
  obtain ⟨hpend, hrec⟩ := record_due hw hs
  rcases r with e | u
  · exact Sat.ret (P := Pending key ids none false) (fun w w' h hr => pending_rely h hr) hpend fun _ h => h
  · have hboth : ∀ w w', (Pending key ids none false w ∧ (quiet = true → Recorded key ids fire w)) → Rely w w' →
        Pending key ids none false w' ∧ (quiet = true → Recorded key ids fire w') :=
      fun w w' h hr => ⟨pending_rely h.1 hr, fun hq => recorded_rely (h.2 hq) hr⟩
    exact Sat.ret (M := agent nodeId A) hboth ⟨hpend, fun hq => hrec rfl hq⟩ fun _ h => h

/-- The run of a due fire: pull, clear the name, record, start. -/
theorem sat_cronRun {c : ServiceConfig} {fire : Int} {previous : List ManagedReplica} {w : Node}
    (hc : c.key = key) (h : Pending key ids (some fire) true w) :
    Sat (agent nodeId A) (CronStart key)
      (onResult (fun _ => Pending key ids none false) fun _ => Pending key ids none false)
      (applyOne (.cronRun c fire previous)).run w := by
  have hstable : ∀ due quiet, (agent nodeId A).Stable (Pending key ids due quiet) :=
    fun _ _ w w' h hr => pending_rely h hr
  have hweak : ∀ {p : Eff Unit} {w : Node},
      Sat (agent nodeId A) (CronStart key)
        (onResult (fun _ => Pending key ids (some fire) true) fun _ => Pending key ids (some fire) true) p.run w →
      Sat (agent nodeId A) (CronStart key)
        (onResult (fun _ => Pending key ids (some fire) true) fun _ => Pending key ids none false) p.run w := by
    intro p w hp
    refine hp.mono (fun _ _ h => h) fun r w hw => ?_
    cases r with
    | error e => exact Pending.forget hw
    | ok u => exact hw
  refine Sat.bindE (hweak (sat_off ⟨trivial, fun _ => trivial⟩ h)) (fun _ => hstable _ _) fun _ w hw => ?_
  refine Sat.bindE (hweak (sat_off (Uses.forM _ _ fun r _ => ⟨trivial, fun _ => trivial⟩) hw)) (fun _ => hstable _ _)
    fun _ w hw => ?_
  rw [hc]
  refine Sat.bindE (sat_record hw) (fun _ => hstable _ _) fun _ w hw => ?_
  refine Sat.act (P := Recorded key ids fire) (fun w w' h hr => recorded_rely h hr) (hw.2 rfl) (fun w hw => ?_) ?_
  · refine ⟨hw.inv, fun c' i p b f j he _ => ?_⟩
    cases he
    exact hw.startOk
  · rintro w r w' hw ⟨hs, -⟩
    have hpend := start_recorded hw hc hs
    rcases r with e | u
    · exact Sat.ret (hstable none false) hpend fun _ h => h
    · exact Sat.ret (hstable none false) hpend fun _ h => h

/-- The handler of a failed action only records its error. -/
theorem sat_isolated {due : Option Int} {quiet : Bool} {a : Action} {w : Node}
    (h : Sat (agent nodeId A) (CronStart key)
      (onResult (fun _ => Pending key ids due quiet) fun _ => Pending key ids due quiet) (applyOne a).run w) :
    Sat (agent nodeId A) (CronStart key)
      (onResult (fun _ => Pending key ids due quiet) fun _ => Pending key ids due quiet) (applyIsolated a).run w := by
  refine Sat.tryCatch h (fun _ w w' h hr => pending_rely h hr) fun e w hw => sat_off ?_ hw
  split
  · exact ⟨trivial, fun _ => trivial⟩
  · trivial

/-- A plan with at most one action for a fire of the key, the rest of other services. -/
inductive KeyPlan (key : String) (ids : List String) : Option Int → Bool → List Action → Prop
  | nil (due : Option Int) (quiet : Bool) : KeyPlan key ids due quiet []
  | off {due : Option Int} {quiet : Bool} {a : Action} {l : List Action} :
      (∀ o, a.Issues o → OffKey key ids o) → KeyPlan key ids due quiet l → KeyPlan key ids due quiet (a :: l)
  | skip {fire : Int} {quiet : Bool} {c : ServiceConfig} {l : List Action} : c.key = key →
      KeyPlan key ids none false l → KeyPlan key ids (some fire) quiet (.cronSkip c fire :: l)
  | run {fire : Int} {c : ServiceConfig} {previous : List ManagedReplica} {l : List Action} : c.key = key →
      KeyPlan key ids none false l → KeyPlan key ids (some fire) true (.cronRun c fire previous :: l)

theorem sat_keyPlan {due : Option Int} {quiet : Bool} {l : List Action} (hl : KeyPlan key ids due quiet l) :
    ∀ w, Pending key ids due quiet w →
      Sat (agent nodeId A) (CronStart key) (fun _ => CronInv key) (applyActions l).run w := by
  have hstable : ∀ due quiet, (agent nodeId A).Stable (Pending key ids due quiet) :=
    fun _ _ w w' h hr => pending_rely h hr
  have hdone : ∀ {due quiet} {p : Eff Unit} {w : Node},
      Sat (agent nodeId A) (CronStart key)
        (onResult (fun _ => Pending key ids due quiet) fun _ => Pending key ids due quiet) p.run w →
      ∀ {l}, (∀ w, Pending key ids due quiet w →
        Sat (agent nodeId A) (CronStart key) (fun _ => CronInv key) (applyActions l).run w) →
      Sat (agent nodeId A) (CronStart key) (fun _ => CronInv key) (p >>= fun _ => applyActions l).run w := by
    intro due quiet p w hp l hl
    rw [ExceptT.run_bind]
    refine Sat.bind hp ?_
    rintro (e | u) w hw
    · exact Sat.ret (hstable due quiet) hw fun _ h => h.inv
    · exact hl w hw
  induction hl with
  | nil due quiet =>
    exact fun w h => Sat.ret (hstable due quiet) h fun _ h => h.inv
  | off ha _ ih =>
    intro w h
    exact hdone (sat_isolated (sat_off ((uses_applyOne _).mono ha) h)) ih
  | skip hc _ ih =>
    intro w h
    refine hdone (sat_isolated ?_) ih
    show Sat _ _ _ (recordCronFire _ _).run w
    rw [hc]
    refine (sat_record h).mono (fun _ _ h => h) fun r w hw => ?_
    cases r with
    | error e => exact hw
    | ok u => exact hw.1
  | run hc _ ih =>
    intro w h
    exact hdone (sat_isolated (sat_cronRun hc h)) ih

/-! ## The start of a tick -/

theorem mem_live_fireOf {w : Node} {r : ManagedReplica} (hr : r ∈ replicasOf w.liveNow key) (hrun : r.running = true)
    {f : Int} (hf : r.cronFireMs = some f) : ∃ x, FireOf key w x f := by
  obtain ⟨⟨x, hx, rfl⟩, hlab, hkey⟩ := mem_replicasOf.mp hr
  exact ⟨x, hx, hlab, hkey, hrun, hf⟩

theorem FireOf.mem_live {w : Node} {x : Container} {f : Int} (h : FireOf key w x f) :
    x.replica ∈ replicasOf w.liveNow key :=
  mem_replicasOf.mpr ⟨⟨x, h.mem, rfl⟩, h.reported, h.key⟩

/-- The anchor a key is seeded with is no lower than anything known of it. -/
theorem anchor_floor {w : Node} (h : CronInv key w) {now planNow : Int} (h1 : w.clock ≤ now) (h2 : now ≤ planNow) :
    Floor key w.history (anchorOf w.liveNow key now) ∧ anchorOf w.liveNow key now ≤ planNow ∧
      ∀ x f, FireOf key w x f → anchorOf w.liveNow key now ≤ f := by
  obtain ⟨_, hle, hex⟩ := labelFire_spec ((replicasOf w.liveNow key).filter (·.running))
  unfold anchorOf
  simp only
  split
  · rename_i hpos
    -- A run in progress: the anchor is its label.
    rcases hex with hex | ⟨r, hr, hex⟩
    · omega
    · obtain ⟨hr, hrun⟩ := List.mem_filter.mp hr
      cases hf : r.cronFireMs with
      | none => rw [hf, Option.getD_none] at hex; omega
      | some f =>
        obtain ⟨x, hx⟩ := mem_live_fireOf hr hrun hf
        obtain ⟨hmem, hfloor⟩ := h.label x f hx
        rw [hf, Option.getD_some] at hex
        rw [hex]
        refine ⟨hfloor, ?_, fun y g hy => (h.label y g hy).2.starts f hmem⟩
        have := h.clock.starts f hmem
        omega
  · rename_i hpos
    -- No run in progress: the anchor is now.
    refine ⟨h.clock.mono h1, h2, fun x f hx => ?_⟩
    exfalso
    have hrun : x.replica ∈ (replicasOf w.liveNow key).filter (·.running) :=
      List.mem_filter.mpr ⟨hx.mem_live, hx.running⟩
    have := hle x.replica hrun
    rw [hx.label, Option.getD_some] at this
    have hmin := (h.minutes f (h.label x f hx).1).1
    omega

/-- The records after the bookkeeping of a tick, stored or not. -/
theorem seed_records (r : Records) (d : DesiredState) (live : Live) (now : String → Int) (saved : Bool) (key : String) :
    (r.seed d live now saved).mem.fire key = SortedMap.get key (seedFires d live now r.mem.cronFires) ∧
      ((r.seed d live now saved).file = r.file ∨ (r.seed d live now saved).file = some (r.seed d live now saved).mem) := by
  unfold Records.seed
  simp only
  split
  · rename_i hsame
    rw [hsame]
    exact ⟨rfl, .inl rfl⟩
  · cases saved with
    | false => exact ⟨rfl, .inl rfl⟩
    | true => exact ⟨rfl, .inr rfl⟩

/-- The bookkeeping of a tick, for the key: kept or seeded when it is scheduled, else
    dropped. -/
theorem seed_fire (r : Records) (d : DesiredState) (live : Live) (now : String → Int) (saved : Bool)
    (hback : key ∉ backupKeys d) :
    (r.seed d live now saved).mem.fire key =
        (if key ∈ cronKeys d then some ((r.mem.fire key).getD (anchorOf live key (now key))) else none) ∧
      ((r.seed d live now saved).file = r.file ∨ (r.seed d live now saved).file = some (r.seed d live now saved).mem) := by
  obtain ⟨hmem, hfile⟩ := seed_records r d live now saved key
  refine ⟨?_, hfile⟩
  rw [hmem, get_seedFires, if_neg hback]
  rfl

theorem sight_sighted (key : String) (h : History) (d : DesiredState) (mem : LocalState) :
    sightOf key (h.sighted d mem) =
      if key ∈ cronKeys d then some ((sightOf key h).getD ((mem.fire key).getD 0)) else sightOf key h :=
  get_foldl_insertNew (fun k => (mem.fire k).getD 0) key (cronKeys d) h.sights

theorem cronInv_began {w : Node} {i : TickInput} (h : CronInv key w) (ht : i.Timed w)
    (hback : key ∉ backupKeys i.desired) : CronInv key (w.began i) := by
  obtain ⟨hmem, hfile⟩ := seed_fire w.records i.desired w.liveNow i.now i.saved hback
  have hsight := sight_sighted key w.history i.desired (w.began i).records.mem
  obtain ⟨hanchor, hpast, hlow⟩ := anchor_floor h (ht.2 key).1 (ht.2 key).2
  have hlabel : ∀ x f, FireOf key (w.began i) x f → FireOf key w x f :=
    fun x f hx => ⟨hx.mem, hx.reported, hx.key, hx.running, hx.label⟩
  by_cases hk : key ∈ cronKeys i.desired
  · rw [if_pos hk] at hmem hsight
    replace hmem : (w.began i).records.mem.fire key =
        some ((w.records.mem.fire key).getD (anchorOf w.liveNow key (i.now key))) := hmem
    rw [hmem, Option.getD_some] at hsight
    generalize ha' : (w.records.mem.fire key).getD (anchorOf w.liveNow key (i.now key)) = a' at hmem hsight
    have hfresh : sightOf key w.history = none → a' = anchorOf w.liveNow key (i.now key) := fun hnone => by
      rw [← ha', (h.unseen hnone).1, Option.getD_none]
    have hfl : Floor key w.history a' := by
      cases hm : w.records.mem.fire key with
      | none => rw [hm, Option.getD_none] at ha'; exact ha' ▸ hanchor
      | some a => rw [hm, Option.getD_some] at ha'; exact ha' ▸ h.mem a hm
    have hfloor : ∀ {a}, Floor key w.history a → (sightOf key w.history = none → a' ≤ a) →
        Floor key (w.began i).history a := by
      intro a hf hle
      refine ⟨hf.starts, fun s hs => ?_⟩
      replace hs := hsight.symm.trans hs
      cases hw : sightOf key w.history with
      | none => rw [hw, Option.getD_none] at hs; cases hs; exact hle hw
      | some s' => rw [hw, Option.getD_some] at hs; cases hs; exact hf.sight s hw
    refine ⟨h.docker.congr rfl rfl, h.once, h.sorted, h.minutes,
      hfloor (h.clock.mono ht.1) fun hnone => ?_, fun a ha => ?_, fun s a hs ha => ?_, fun hnone => ?_, fun x f hx => ?_⟩
    · rw [hfresh hnone]
      exact hpast
    · cases hmem.symm.trans ha
      exact hfloor hfl fun _ => Int.le_refl _
    · rcases hfile with hf | hf
      · refine hfloor (h.file s a (hf.symm.trans hs) ha) fun hnone => ?_
        cases ((h.unseen hnone).2 s (hf.symm.trans hs)).symm.trans ha
      · cases hf.symm.trans hs
        cases hmem.symm.trans ha
        exact hfloor hfl fun _ => Int.le_refl _
    · cases hsight.symm.trans hnone
    · obtain ⟨hm, hf⟩ := h.label x f (hlabel x f hx)
      refine ⟨hm, hfloor hf fun hnone => ?_⟩
      rw [hfresh hnone]
      exact hlow x f (hlabel x f hx)
  · rw [if_neg hk] at hmem hsight
    have hfloor : ∀ {a}, Floor key w.history a → Floor key (w.began i).history a := fun hf => hf.of_eq rfl hsight
    refine ⟨h.docker.congr rfl rfl, h.once, h.sorted, h.minutes,
      hfloor (h.clock.mono ht.1), fun a ha => ?_, fun s a hs ha => ?_, fun hnone => ⟨hmem, fun s hs => ?_⟩,
      fun x f hx => ?_⟩
    · cases hmem.symm.trans ha
    · rcases hfile with hf | hf
      · exact hfloor (h.file s a (hf.symm.trans hs) ha)
      · cases hf.symm.trans hs
        cases hmem.symm.trans ha
    · rcases hfile with hf | hf
      · exact (h.unseen (hsight.symm.trans hnone)).2 s (hf.symm.trans hs)
      · cases hf.symm.trans hs
        exact hmem
    · obtain ⟨hm, hf⟩ := h.label x f (hlabel x f hx)
      exact ⟨hm, hfloor hf⟩

/-! ## The plan of a tick -/

/-- An action of another service's config starts nothing of the key. -/
theorem issues_off {a : Action} {c : ServiceConfig} (ha : a.config = some c) (hkey : c.key ≠ key)
    (hback : backupStateKey c.key ≠ key) (hstart : ∀ c' i id, a = .start c' i id → id ∈ ids) :
    ∀ o, a.Issues o → OffKey key ids o := by
  intro o ho
  cases a with
  | noop => exact ho.elim
  | remove => cases ha
  | scaleDown c' rs => cases ha; obtain ⟨r, -, rfl | rfl⟩ := ho <;> trivial
  | start c' i id => cases ho; exact hstart c' i id rfl
  | create c' i => cases ha; rcases ho with rfl | rfl | ⟨p, rfl⟩ <;> first | exact hkey | trivial
  | rollout c' rs => cases ha; cases ho <;> first | exact hkey | trivial
  | cronRun c' fire rs => cases ha; rcases ho with rfl | ⟨r, -, rfl⟩ | rfl | rfl <;> first | exact hkey | trivial
  | jobRun c' rs => cases ha; rcases ho with rfl | ⟨r, -, rfl⟩ | ⟨req, -, rfl⟩ <;> first | exact hkey | trivial
  | cronSkip c' fire => cases ha; cases ho; exact hkey
  | backupRun c' fire => cases ha; cases ho; exact hback

theorem remove_off (k : String) (rs : List ManagedReplica) : ∀ o, (Action.remove k rs).Issues o → OffKey key ids o := by
  rintro o ⟨r, -, rfl⟩
  trivial

theorem planService_off {w : Node} {d : DesiredState} {c : ServiceConfig} {cron : Option CronPlanContext}
    (hd : CronOnly key d) (hc : c ∈ d.services) (hkey : c.key ≠ key) {a : Action}
    (ha : a ∈ planService c (replicasOf w.liveNow c.key) c.key cron) :
    ∀ o, a.Issues o → OffKey key (otherIds key w) o := by
  rcases planService_config ha with hconf | ⟨rs, rfl⟩
  · refine issues_off hconf hkey (hd.2 c hc).2 fun c' i id he => ?_
    obtain ⟨r, hr, rfl⟩ := (planService_replicas ha).2 c' i id he
    exact mem_otherIds hr hkey
  · exact remove_off _ rs

theorem KeyPlan.append {due : Option Int} {quiet : Bool} {l₁ l₂ : List Action}
    (h₁ : ∀ a ∈ l₁, ∀ o, a.Issues o → OffKey key ids o) (h₂ : KeyPlan key ids due quiet l₂) :
    KeyPlan key ids due quiet (l₁ ++ l₂) := by
  induction l₁ with
  | nil => exact h₂
  | cons a l ih => exact .off (h₁ a (List.mem_cons_self ..)) (ih fun b hb => h₁ b (List.mem_cons_of_mem _ hb))

theorem keyPlan_off {due : Option Int} {quiet : Bool} {l : List Action}
    (h : ∀ a ∈ l, ∀ o, a.Issues o → OffKey key ids o) : KeyPlan key ids due quiet l := by
  rw [← List.append_nil l]
  exact .append h (.nil due quiet)

theorem mem_cronKeys {d : DesiredState} {c : ServiceConfig} (hc : c ∈ d.services) (hcron : c.cron.isSome = true) :
    c.key ∈ cronKeys d := List.mem_map.mpr ⟨c, List.mem_filter.mpr ⟨hc, hcron⟩, rfl⟩

/-- A fire that is due at planning is due of the node the plan starts from. -/
theorem due_began {w : Node} {i : TickInput} {c : ServiceConfig} {runs : List ManagedReplica} {fire : Int}
    (hback : key ∉ backupKeys i.desired) (hk : key ∈ cronKeys i.desired)
    (h : dueRun c runs key (some ⟨i.planNow, (w.began i).records.mem.cronFires⟩) = some fire) :
    Due key fire (w.began i) := by
  obtain ⟨hlast, hpos, hpast, hminute⟩ := dueRun_spec h
  obtain ⟨hmem, -⟩ := seed_fire w.records i.desired w.liveNow i.now i.saved hback
  rw [if_pos hk] at hmem
  exact ⟨hpos, hminute, hpast, _, hmem, hlast _ hmem⟩

/-- The actions for the key, if it is desired: its leftovers are removed, and at most one
    action is for a fire. -/
theorem key_pending {w : Node} {i : TickInput} {c : ServiceConfig} (hinv : CronInv key (w.began i))
    (hoff : Elsewhere key (otherIds key w) (w.began i)) (hback : key ∉ backupKeys i.desired)
    (hk : key ∈ cronKeys i.desired) (hc : c.key = key) {l : List Action}
    (hl : ∀ a ∈ l, ∀ o, a.Issues o → OffKey key (otherIds key w) o) :
    ∃ due quiet, KeyPlan key (otherIds key w) due quiet
        (planCronService c (replicasOf w.liveNow key) key
          (some ⟨i.planNow, (w.began i).records.mem.cronFires⟩) ++ l) ∧
      Pending key (otherIds key w) due quiet (w.began i) := by
  have hstale : ∀ stale : List ManagedReplica, ∀ a ∈ (if stale.isEmpty then [] else [Action.remove key stale]),
      ∀ o, a.Issues o → OffKey key (otherIds key w) o := by
    intro stale a ha
    split at ha
    · cases ha
    · rw [List.mem_singleton.mp ha]
      exact remove_off _ _
  unfold planCronService
  simp only
  rcases planCronRuns_cases c ((replicasOf w.liveNow key).filter (·.cronFireMs.isSome)) key
    (some ⟨i.planNow, (w.began i).records.mem.cronFires⟩) with hrun | ⟨fire, hdue, hrun⟩ | ⟨fire, hdue, hidle, hrun⟩
  · refine ⟨none, false, ?_, hinv.pending hoff⟩
    rw [hrun, List.append_assoc]
    exact .append (hstale _) (.off (fun o ho => ho.elim) (keyPlan_off hl))
  · refine ⟨some fire, false, ?_, hinv, hoff, fun f hf => ?_, fun h => by cases h⟩
    · rw [hrun, List.append_assoc]
      exact .append (hstale _) (.skip hc (keyPlan_off hl))
    · cases hf
      exact due_began hback hk hdue
  · refine ⟨some fire, true, ?_, hinv, hoff, fun f hf => ?_, fun _ x f hx => ?_⟩
    · rw [hrun, List.append_assoc]
      exact .append (hstale _) (.run hc (keyPlan_off hl))
    · cases hf
      exact due_began hback hk hdue
    · have hx' : FireOf key w x f := ⟨hx.mem, hx.reported, hx.key, hx.running, hx.label⟩
      have := hidle x.replica (List.mem_filter.mpr ⟨hx'.mem_live, by rw [hx.label]; rfl⟩)
      rw [hx.running] at this
      cases this

/-- A whole plan: the actions for the key stand in one place. -/
theorem plan_pending {w : Node} {i : TickInput} (h : CronInv key w) (ht : i.Timed w) (hd : CronOnly key i.desired) :
    ∃ due quiet, KeyPlan key (otherIds key w) due quiet (w.plan i) ∧
      Pending key (otherIds key w) due quiet (w.began i) := by
  have hback : key ∉ backupKeys i.desired := by
    intro hm
    obtain ⟨c, hc, hkey⟩ := List.mem_map.mp hm
    exact (hd.2 c (List.mem_filter.mp hc).1).2 hkey
  have hinv := cronInv_began h ht hback
  have hoff : Elsewhere key (otherIds key w) (w.began i) := elsewhere_otherIds h.docker
  have hremoves : ∀ a ∈ (w.liveNow.filter fun e => !(i.desired.services.map (·.key)).contains e.1).map
      (fun e => Action.remove e.1 e.2), ∀ o, a.Issues o → OffKey key (otherIds key w) o := by
    intro a ha
    obtain ⟨e, -, rfl⟩ := List.mem_map.mp ha
    exact remove_off _ _
  have hothers : ∀ s : List ServiceConfig, (∀ c ∈ s, c ∈ i.desired.services ∧ c.key ≠ key) →
      ∀ a ∈ s.flatMap (fun c => planService c (replicasOf w.liveNow c.key) c.key
        (some ⟨i.planNow, (w.began i).records.mem.cronFires⟩)), ∀ o, a.Issues o → OffKey key (otherIds key w) o := by
    intro s hs a ha
    obtain ⟨c, hc, ha⟩ := List.mem_flatMap.mp ha
    exact planService_off hd (hs c hc).1 (hs c hc).2 ha
  unfold Node.plan planReconcile
  by_cases hex : ∃ c ∈ i.desired.services, c.key = key
  · obtain ⟨c, hc, hkey⟩ := hex
    obtain ⟨s₁, s₂, hsplit⟩ := List.append_of_mem hc
    have hnodup := hd.1
    rw [hsplit, List.map_append, List.map_cons, List.nodup_middle, List.nodup_cons, ← List.map_append] at hnodup
    have hother : ∀ c' ∈ s₁ ++ s₂, c' ∈ i.desired.services ∧ c'.key ≠ key := by
      intro c' hc'
      refine ⟨?_, fun hk => hnodup.1 (List.mem_map.mpr ⟨c', hc', hk.trans hkey.symm⟩)⟩
      rw [hsplit]
      rcases List.mem_append.mp hc' with h | h
      · exact List.mem_append_left _ h
      · exact List.mem_append_right _ (List.mem_cons_of_mem _ h)
    obtain ⟨hcron, hjob⟩ := (hd.2 c hc).1 hkey
    have hservice : ∀ cron, planService c (replicasOf w.liveNow c.key) c.key cron
        = planCronService c (replicasOf w.liveNow key) key cron := by
      intro cron
      simp [planService, hcron, hjob, hkey]
    obtain ⟨due, quiet, hplan, hpend⟩ := key_pending (c := c) (l := s₂.flatMap (fun c => planService c
        (replicasOf w.liveNow c.key) c.key (some ⟨i.planNow, (w.began i).records.mem.cronFires⟩)) ++
        (w.liveNow.filter fun e => !(i.desired.services.map (·.key)).contains e.1).map fun e => Action.remove e.1 e.2)
      hinv hoff hback (hkey ▸ mem_cronKeys hc hcron) hkey fun a ha => by
        rcases List.mem_append.mp ha with ha | ha
        · exact hothers s₂ (fun c' hc' => hother c' (List.mem_append_right _ hc')) a ha
        · exact hremoves a ha
    refine ⟨due, quiet, ?_, hpend⟩
    rw [← hservice] at hplan
    have hflat := KeyPlan.append (hothers s₁ fun c' hc' => hother c' (List.mem_append_left _ hc')) hplan
    rw [show i.desired.services.flatMap _ = _ from congrArg (List.flatMap _) hsplit, List.flatMap_append,
      List.flatMap_cons, List.append_assoc, List.append_assoc]
    exact hflat
  · refine ⟨none, false, ?_, hinv.pending hoff⟩
    exact .append (hothers _ fun c hc => ⟨hc, fun hkey => hex ⟨c, hc, hkey⟩⟩) (keyPlan_off hremoves)

/-- The agent comes up with what the file holds; without a file, nothing was seen yet. -/
theorem cronInv_boot {w : Node} (h : CronInv key w) : CronInv key w.boot := by
  have hlabel : ∀ x f, FireOf key w.boot x f → FireOf key w x f :=
    fun x f hx => ⟨hx.mem, hx.reported, hx.key, hx.running, hx.label⟩
  have hstarts : ∀ {a}, Floor key w.history a → Floor key w.boot.history a := by
    refine fun hf => ⟨hf.starts, fun s hs => hf.sight s ?_⟩
    simp only [Node.boot, sightOf] at hs
    split at hs
    · exact hs
    · cases hs
  have hmem : w.boot.records.mem = w.records.file.getD {} := rfl
  have hfile : w.boot.records.file = w.records.file := rfl
  refine ⟨h.docker.congr rfl rfl, h.once, h.sorted, h.minutes, hstarts h.clock,
    fun a ha => ?_, fun s a hs ha => hstarts (h.file s a hs ha), fun hnone => ?_, fun x f hx => ?_⟩
  · rw [hmem] at ha
    cases hf : w.records.file with
    | none => rw [hf] at ha; cases ha
    | some s => rw [hf] at ha; exact hstarts (h.file s a hf ha)
  · rw [hmem, hfile]
    cases hf : w.records.file with
    | none => exact ⟨rfl, fun s hs => by cases hs⟩
    | some s =>
      simp only [Node.boot, sightOf, hf, Option.isSome_some, if_true] at hnone
      have := (h.unseen hnone).2 s hf
      exact ⟨this, fun s' hs' => by cases hs'; exact this⟩
  · obtain ⟨hm, hf⟩ := h.label x f (hlabel x f hx)
    exact ⟨hm, hstarts hf⟩

theorem cronInv_kept : Kept nodeId (cronRuns key) (CronInv key) (CronInv key) (CronStart key) where
  fresh clock := by
    refine ⟨dockerOk_fresh clock, fun x hx => (by cases hx), List.Pairwise.nil, fun m hm => (by cases hm),
      ⟨fun m hm => (by cases hm), fun s hs => by cases hs⟩, fun a ha => (by cases ha), fun s a hs => (by cases hs),
      fun _ => ⟨rfl, fun s hs => by cases hs⟩, fun x f hx => ?_⟩
    cases hx.mem
  stable w w' h hr := h.frame (rely_frame h hr)
  boot w h := cronInv_boot h
  noDesired w h := ⟨h.docker.congr rfl rfl, h.once, h.sorted, h.minutes, h.clock, h.mem, h.file,
    h.unseen, fun x f hx => h.label x f ⟨hx.mem, hx.reported, hx.key, hx.running, hx.label⟩⟩
  noLogin w d h := ⟨h.docker.congr rfl rfl, h.once, h.sorted, h.minutes, h.clock, h.mem, h.file,
    h.unseen, fun x f hx => h.label x f ⟨hx.mem, hx.reported, hx.key, hx.running, hx.label⟩⟩
  noInspect w d h := ⟨h.docker.congr rfl rfl, h.once, h.sorted, h.minutes, h.clock, h.mem, h.file,
    h.unseen, fun x f hx => h.label x f ⟨hx.mem, hx.reported, hx.key, hx.running, hx.label⟩⟩
  command o w h := h.1
  planned w h := h
  finish w r w' h hs := by
    have hoff : Elsewhere key [] w := fun id hid => by cases hid
    have ho : OffKey key [] (.refreshRouting []) := trivial
    exact h.frame (sem_frame h hoff ho hs).1
  begin w i h ht hd := by
    obtain ⟨due, quiet, hplan, hpend⟩ := plan_pending h ht hd
    exact sat_keyPlan hplan _ hpend

end Frame

/-! ## The guarantee -/

/-- Whether the fire has been recorded. -/
def sawRecord (key : String) (fire : Int) : Bool → (o : Op) → Resp o → Bool
  | seen, .recordCronFire k f, .ok _ => seen || (k == key && f == fire)
  | seen, _, _ => seen

/-- A container is run only after the record. -/
def RunsRecorded : Op → Bool → Prop
  | .runContainer .., seen => seen = true
  | _, _ => True

/-- In every trace of a cron run, a record that fails is followed by no start. -/
theorem record_before_start (c : ServiceConfig) (fire : Int) (previous : List ManagedReplica) :
    ∀ t, Trace (applyOne (.cronRun c fire previous)).run t → Checked (sawRecord c.key fire) RunsRecorded false t := by
  rw [← sat_tracker_iff]
  have hstable : ∀ P : Bool → Prop, (tracker (sawRecord c.key fire) : Machine Resp Bool).Stable P :=
    fun P => tracker_stable P
  have hsat : Sat (tracker (sawRecord c.key fire)) RunsRecorded (onResult (fun _ _ => True) fun _ _ => True)
      (applyOne (.cronRun c fire previous)).run false := by
    refine Sat.bindE (R := fun _ _ => True) (Sat.watch trivial fun r => ?_) (fun _ => hstable _) fun _ seen _ => ?_
    · rcases r with e | u <;> exact Sat.watchRet trivial
    refine Sat.bindE (R := fun _ _ => True) ?_ (fun _ => hstable _) fun _ seen _ => ?_
    · refine Sat.forM (I := fun _ => True) (hstable _) (fun _ => hstable _) _ _ (fun r _ seen _ => ?_) trivial
      refine Sat.watch trivial fun r => ?_
      rcases r with e | u <;> exact Sat.watchRet trivial
    refine Sat.bindE (R := fun _ seen => seen = true) (Sat.watch trivial fun r => ?_) (fun _ => hstable _)
      fun _ seen hseen => ?_
    · rcases r with e | u
      · exact Sat.watchRet trivial
      · exact Sat.watchRet (show sawRecord c.key fire seen (.recordCronFire c.key fire) (.ok u) = true by
          simp [sawRecord])
    refine Sat.watch hseen fun r => ?_
    rcases r with e | u <;> exact Sat.watchRet trivial
  exact hsat.mono (fun _ _ h => h) fun _ _ _ => trivial

/-- Multiples of a minute keep their order as minutes. -/
theorem minute_lt {a b : Int} (ha : minuteMs ∣ a) (hb : minuteMs ∣ b) (h : a < b) : a / minuteMs < b / minuteMs := by
  obtain ⟨x, rfl⟩ := ha
  obtain ⟨y, rfl⟩ := hb
  unfold minuteMs at h ⊢
  omega

/-- For a key that is only ever published as a cron service, over every run of the agent:
    the minutes started are strictly increasing; a start finds its fire recorded, after
    every earlier one and after the anchor of first sight, with no run of the key in
    progress; and a fire that cannot be stored leaves the records as they were and is
    followed by no start. -/
theorem cron_fires_at_most_once (nodeId key : String) :
    (∀ c, Reach nodeId (cronRuns key) c →
      ((startsOf key c.2.history).reverse.map (· / minuteMs)).Pairwise (· < ·)) ∧
    (∀ c i p b fire j k w, Reach nodeId (cronRuns key) (.applying (.act (.runContainer c i p b (some fire) j) k), w) →
      c.key = key → StartOk key fire w) ∧
    (∀ k fire w e w', sem nodeId (.recordCronFire k fire) w (.error e) w' →
      w'.docker = w.docker ∧ w'.records.file = w.records.file ∧
        ∀ k', w'.records.mem.fire k' = w.records.mem.fire k') ∧
    ∀ c fire previous t, Trace (applyOne (.cronRun c fire previous)).run t →
      Checked (sawRecord c.key fire) RunsRecorded false t := by
  refine ⟨fun c h => ?_, fun c i p b fire j k w h hc => ?_, fun k fire w e w' hs => ?_, record_before_start⟩
  · have hinv := reach_invariant cronInv_kept h
    rw [List.pairwise_map, List.pairwise_reverse]
    refine hinv.sorted.imp_of_mem fun ha hb hlt => ?_
    exact minute_lt (hinv.minutes _ hb).2 (hinv.minutes _ ha).2 hlt
  · exact (reach_command cronInv_kept h).2 c i p b fire j rfl hc
  · obtain ⟨saved, records, hr, rfl⟩ := hs
    cases saved with
    | true => cases hr
    | false =>
      have hrec : (w.records.recordCronFire k fire false).2 = records := by rw [hr]
      obtain ⟨hfile, hmem⟩ := recordCronFire_err w.records k fire
      subst hrec
      exact ⟨rfl, hfile, hmem⟩

end LaunchPad.Agent
