/-
  LaunchPad.Agent.BackupFires — the scheduled backups of a database that is desired all
  along, over every run of `Agent.BackupLog`: ticks at any nondecreasing times, saves that
  fail, the state file lost, crashes between any two commands and in the middle of an attempt.

  The fire is recorded after the attempt, so a crash in between repeats it. A database that
  is down, or that the plan replaces, leaves its fire unrecorded, and a later tick takes the
  latest of those that were missed.

  As built the search for a missed fire looks back 366 days: a schedule of leap days whose
  database was down for longer has its backup skipped (`leap_backup_skipped`).

  Proved:
  - `backups_after_attempts`: what each mark of the log says of the older ones; that what
    stands in memory and on disk is the newest of them; that nothing is recorded while the
    database is down; that the plan of a tick that finds a fire of the last 366 days missed,
    the database up and no replacement planned does not end without an attempt at the latest
    missed fire; and that attempts at one fire write the same keys.
-/
import LaunchPad.Agent.BackupLog

namespace LaunchPad.Agent.BackupFires

open Lib Reconciler BackupLog

variable {parseFromStr : String → Option NaiveDateTime} {nodeId key : String}

/-! ## The due fire -/

/-- The fire that the planner finds due. -/
def due (f : Finding) : Option Int :=
  match f.config.backup, f.last with
  | some b, some last =>
    match parseCronExpression b.schedule with
    | .ok s => dueCronFire s last f.now
    | .error _ => none
  | _, _ => none

/-- The search stops at the horizon, but finds the latest of all that were missed. -/
theorem due_greatest {f : Finding} {t : Int} (h : due f = some t) :
    IsGreatest f.missed t ∧ ∃ last, f.last = some last ∧ last < t ∧ t ≤ f.now := by
  unfold due at h
  split at h
  · rename_i b last hb hlast
    split at h
    · rename_i s hs
      obtain ⟨⟨hfires, hlt, hle, hyoung⟩, hmax⟩ := due_eq_some.mp h
      refine ⟨⟨⟨b, s, last, hb, hs, hlast, hfires, hlt, hle⟩, ?_⟩, last, hlast, hlt, hle⟩
      rintro u ⟨b', s', last', hb', hs', hlast', hfires', hlt', hle'⟩
      cases hb.symm.trans hb'
      cases hs.symm.trans hs'
      cases hlast.symm.trans hlast'
      by_cases hu : f.now - horizonMs < u
      · exact hmax ⟨hfires', hlt', hle', hu⟩
      · omega
    · cases h
  · cases h

theorem due_of_young {f : Finding} {t : Int} (h : t ∈ f.missed) (hyoung : f.now - horizonMs < t) : ∃ u, due f = some u := by
  obtain ⟨b, s, last, hb, hs, hlast, hfires, hlt, hle⟩ := h
  unfold due
  rw [hb, hlast]
  simp only [hs]
  cases hd : dueCronFire s last f.now with
  | some u => exact ⟨u, rfl⟩
  | none =>
    have hmem : t ∈ dueWindow s last f.now := ⟨hfires, hlt, hle, hyoung⟩
    rw [due_eq_none.mp hd] at hmem
    exact hmem.elim

/-- What is planned of the backup: the due fire, if a container runs. -/
theorem planBackupService_eq (f : Finding) {have_ : List ManagedReplica} {fires : SortedMap String Int}
    (hlast : f.last = SortedMap.get (backupStateKey key) fires) (hup : f.up = have_.any (·.running)) :
    planBackupService f.config have_ key (some ⟨f.now, fires⟩) =
      if f.up then (due f).toList.map (Action.backupRun f.config) else [] := by
  unfold planBackupService due
  rw [hlast, hup]
  cases f.config.backup with
  | none => simp
  | some b =>
    dsimp only
    cases SortedMap.get (backupStateKey key) fires with
    | none => simp
    | some last =>
      dsimp only
      cases parseCronExpression b.schedule with
      | error e => simp
      | ok s =>
        dsimp only
        cases dueCronFire s last f.now <;> simp

/-! ## Up to the attempt -/

/-- The fire may be attempted. -/
structure Ready (key : String) (e : ServiceConfig) (fireMs : Int) (c : Node × List (Mark parseFromStr)) : Prop where
  tick : ∃ f, tickOf c.2 = some f ∧ f.up = true ∧ f.rolling = false ∧ e = f.config ∧ IsGreatest f.missed fireMs
  fresh : ∀ x, Mark.attempted x ∉ thisTick c.2
  last : ∃ last, fireOf key c.1 = some last ∧ last < fireMs
  past : fireMs ≤ c.1.clock

/-- What the tick found due has been attempted. -/
def Settled (log : List (Mark parseFromStr)) : Prop :=
  ∀ f, tickOf log = some f → f.up = true → f.rolling = false → ∀ t, due f = some t →
    ∃ x, Mark.attempted x ∈ thisTick log ∧ x.fireMs = t

/-- The fire still to be attempted, or none. -/
def Pending (key : String) : Option (ServiceConfig × Int) → Node × List (Mark parseFromStr) → Prop
  | some (e, fireMs), c => LogInv key c ∧ Ready key e fireMs c
  | none, c => LogInv key c ∧ Settled c.2

variable {next : Option (ServiceConfig × Int)} {c c' : Node × List (Mark parseFromStr)}

theorem Pending.inv (h : Pending key next c) : LogInv key c := by
  cases next with
  | none => exact h.1
  | some e => exact h.1

theorem Pending.frame {w w' : Node} {log : List (Mark parseFromStr)} (h : Pending key next (w, log)) (hu : Untouched key w w') :
    Pending key next (w', log) := by
  cases next with
  | none => exact ⟨h.1.frame hu, h.2⟩
  | some e =>
    obtain ⟨e, fireMs⟩ := e
    obtain ⟨hinv, hready⟩ := h
    refine ⟨hinv.frame hu, hready.tick, hready.fresh, ?_, Int.le_trans hready.past hu.clock⟩
    rw [hu.mem]
    exact hready.last

theorem pending_stable : (watcher nodeId (backupLog parseFromStr key)).Stable (Pending key next) := by
  rintro ⟨w, log⟩ ⟨w', log'⟩ h ⟨hr, hlog⟩
  obtain rfl : log' = log := hlog
  exact h.frame (rely_untouched hr)

theorem pending_off {o : Op} {r : Resp o} (ho : Off key o) (h : Pending key next c)
    (hs : (watcher nodeId (backupLog parseFromStr key)).sem o c r c') : Pending key next c' := by
  obtain ⟨w, log⟩ := c
  obtain ⟨w', log'⟩ := c'
  obtain ⟨hu, hlog⟩ := command_untouched ho hs
  obtain rfl : log' = log := hlog
  exact h.frame hu

/-- The attempt follows from what the tick found. -/
theorem Ready.follows {e : ServiceConfig} {fireMs : Int} (h : Ready key e fireMs c) {x : Tried parseFromStr}
    (hconfig : x.config = e) (hfire : x.fireMs = fireMs) : (Mark.attempted x).Follows c.2 := by
  obtain ⟨f, htick, hup, hrolling, he, hmax⟩ := h.tick
  exact ⟨h.fresh, f, htick, hup, hrolling, hconfig.trans he, hfire ▸ hmax⟩

/-- The attempt at the due fire, recorded or not. -/
theorem attempt_made {e : ServiceConfig} {fireMs : Int} {r : Resp (.runBackup e fireMs)} (he : e.key = key)
    (h : Pending key (some (e, fireMs)) c)
    (hs : (watcher nodeId (backupLog parseFromStr key)).sem (.runBackup e fireMs) c r c') : Pending key none c' := by
  obtain ⟨w, log⟩ := c
  obtain ⟨w', log'⟩ := c'
  obtain ⟨hinv, hready⟩ := h
  obtain ⟨⟨saved, records, errors, hr, -, rfl⟩, marks, htries, hlog⟩ := hs
  replace hlog : log' = _ := hlog
  simp only [Tries, if_pos he] at htries
  obtain ⟨x, hconfig, hfire, -, rfl⟩ := htries
  have hfollows : (Mark.attempted x).Follows log := hready.follows hconfig hfire
  obtain ⟨last, hlast, hlt⟩ := hready.last
  replace hlast : fireOf key w = some last := hlast
  obtain ⟨f, htick, -, -, -, hmax⟩ := hready.tick
  have hsettled : ∀ log', tickOf log' = tickOf log → Mark.attempted x ∈ thisTick log' → Settled log' := by
    intro log' hsame hmem f' htick' hup' hrolling' t ht
    cases htick.symm.trans (hsame.symm.trans htick')
    exact ⟨x, hmem, hfire.trans (hmax.unique (due_greatest ht).1)⟩
  rw [he] at hr
  have hrecords : (w.records.recordCronFire (backupStateKey key) fireMs saved).2 = records := by rw [hr]
  subst hrecords
  cases saved with
  | false =>
    obtain ⟨hfile, hmem⟩ := recordCronFire_err w.records (backupStateKey key) fireMs
    have hu : Untouched key w { w with records := (w.records.recordCronFire (backupStateKey key) fireMs false).2, errors } :=
      ⟨Int.le_refl _, hmem _, fun s hs => .inl hs⟩
    rw [moved, if_pos hu.mem] at hlog
    subst hlog
    exact ⟨(hinv.frame hu).mark hfollows rfl, hsettled _ rfl (List.mem_cons_self ..)⟩
  | true =>
    obtain ⟨hfile, hmem⟩ := recordCronFire_ok w.records (backupStateKey key) fireMs
    generalize hw' : ({ w with records := (w.records.recordCronFire (backupStateKey key) fireMs true).2, errors } : Node) = w' at *
    have hnow : fireOf key w' = some fireMs := by
      rw [← hw']
      exact (hmem _).trans (if_pos rfl)
    have hstored : ∀ s, w'.records.file = some s → s.fire (backupStateKey key) = some fireMs := by
      intro s hs
      rw [← hw'] at hs
      cases hfile.symm.trans hs
      exact (hmem _).trans (if_pos rfl)
    have hmoved : moved (fireOf key w) (fireOf key w') = [fireMs] := by
      rw [hlast, hnow, moved, if_neg (by simp; omega)]
      rfl
    rw [hmoved] at hlog
    subst hlog
    refine ⟨?_, hsettled _ rfl (List.mem_cons_of_mem _ (List.mem_cons_self ..))⟩
    have hattempted := (hinv.mark hfollows rfl).told
    have hbelow : ∀ v ∈ values (Mark.attempted x :: log), v < fireMs := fun v hv =>
      Int.lt_of_le_of_lt (le_newest hinv.told (hinv.mem last hlast) v hv) hlt
    refine ⟨hattempted.cons ⟨hbelow, x, log, rfl, hfire⟩, fun v hv => ?_, fun a ha => ?_, fun s a hs ha => ?_, fun hnone => ?_⟩
    · have hclock : w'.clock = w.clock := by rw [← hw']
      rw [hclock]
      rcases List.mem_cons.mp hv with rfl | hv
      · exact hready.past
      · exact Int.le_trans (Int.le_of_lt (hbelow v hv)) hready.past
    · exact hnow.symm.trans ha
    · exact (hstored s hs).symm.trans ha
    · cases hnow.symm.trans hnone

/-- A plan with the attempt that is still to be made, if there is one. -/
inductive DbPlan (key : String) : Option (ServiceConfig × Int) → List Action → Prop
  | nil : DbPlan key none []
  | off {next : Option (ServiceConfig × Int)} {a : Action} {l : List Action} :
      (∀ o, a.Issues o → Off key o) → DbPlan key next l → DbPlan key next (a :: l)
  | run {e : ServiceConfig} {fireMs : Int} {l : List Action} : e.key = key →
      DbPlan key none l → DbPlan key (some (e, fireMs)) (.backupRun e fireMs :: l)

/-- A command of a plan is about something else, or is the attempt at the fire that is due. -/
def AtAttempt (key : String) (o : Op) (c : Node × List (Mark parseFromStr)) : Prop :=
  LogInv key c ∧ (Off key o ∨ ∃ e fireMs, o = .runBackup e fireMs ∧ e.key = key ∧ Ready key e fireMs c)

theorem atAttempt_off {o : Op} (ho : Off key o) (h : LogInv key c) : AtAttempt key o c := ⟨h, .inl ho⟩

/-- An action with its error recorded ends well. -/
theorem sat_isolated {a : Action}
    (h : Sat (watcher nodeId (backupLog parseFromStr key)) (AtAttempt key)
      (onResult (fun _ => Pending key next) fun _ => Pending key next) (applyOne a).run c) :
    Sat (watcher nodeId (backupLog parseFromStr key)) (AtAttempt key)
      (onResult (fun _ => Pending key next) fun _ _ => False) (applyIsolated a).run c := by
  refine Sat.tryCatch h (fun _ => pending_stable) fun e c hc => ?_
  split
  · refine Sat.act pending_stable hc (fun c hc => atAttempt_off trivial hc.inv) fun c r c' hc hs => ?_
    exact Sat.ret pending_stable (pending_off (o := .setError _ _) trivial hc hs) fun _ h => h
  · exact Sat.ret pending_stable hc fun _ h => h

/-- An action of another kind, or of another service. -/
theorem sat_off {a : Action} (ha : ∀ o, a.Issues o → Off key o) (h : Pending key next c) :
    Sat (watcher nodeId (backupLog parseFromStr key)) (AtAttempt key)
      (onResult (fun _ => Pending key next) fun _ _ => False) (applyIsolated a).run c := by
  have hone := Sat.ofUses (M := watcher nodeId (backupLog parseFromStr key)) pending_stable
    (fun o ho c r c' hc hs => pending_off ho hc hs) (fun o c ho hc => atAttempt_off ho hc.inv)
    ((uses_applyOne a).mono ha) h
  refine sat_isolated (hone.mono (fun _ _ h => h) fun res c hc => ?_)
  cases res <;> exact hc

theorem sat_attempt {e : ServiceConfig} {fireMs : Int} (he : e.key = key) (h : Pending key (some (e, fireMs)) c) :
    Sat (watcher nodeId (backupLog parseFromStr key)) (AtAttempt key)
      (onResult (fun _ => Pending key none) fun _ _ => False) (applyIsolated (.backupRun e fireMs)).run c := by
  refine sat_isolated (Sat.act pending_stable h (fun c hc => ⟨hc.inv, .inr ⟨e, fireMs, rfl, he, hc.2⟩⟩) fun c r c' hc hs => ?_)
  · have hdone := attempt_made he hc hs
    rcases r with err | u
    · exact Sat.ret pending_stable hdone fun _ h => h
    · exact Sat.ret pending_stable hdone fun _ h => h

theorem sat_plan {l : List Action} (hl : DbPlan key next l) (h : Pending key next c) :
    Sat (watcher nodeId (backupLog parseFromStr key)) (AtAttempt key) (fun _ => Pending key none) (applyActions l).run c := by
  have hstable : ∀ l', (watcher nodeId (backupLog parseFromStr key)).Stable
      fun c => ∃ next, DbPlan key next l' ∧ Pending key next c := by
    rintro l' c c' ⟨next, hl, hc⟩ hr
    exact ⟨next, hl, pending_stable c c' hc hr⟩
  refine (Sat.forM_rest (I := fun l' c => ∃ next, DbPlan key next l' ∧ Pending key next c) (E := fun _ _ => False)
    (hstable []) (fun _ _ _ h => h.elim) (fun a l' c hc => ?_) ⟨next, hl, h⟩).mono (fun _ _ h => h) fun res c hres => ?_
  · obtain ⟨next, hplan, hpend⟩ := hc
    have hgo : ∀ next', DbPlan key next' l' →
        Sat (watcher nodeId (backupLog parseFromStr key)) (AtAttempt key)
          (onResult (fun _ => Pending key next') fun _ _ => False) (applyIsolated a).run c →
        Sat (watcher nodeId (backupLog parseFromStr key)) (AtAttempt key)
          (onResult (fun _ c => ∃ next, DbPlan key next l' ∧ Pending key next c) fun _ _ => False) (applyIsolated a).run c := by
      intro next' hl' hsat
      refine hsat.mono (fun _ _ h => h) fun res c hres => ?_
      cases res with
      | error e => exact hres
      | ok u => exact ⟨next', hl', hres⟩
    cases hplan with
    | off ha hl' => exact hgo _ hl' (sat_off ha hpend)
    | run he hl' => exact hgo _ hl' (sat_attempt he hpend)
  · cases res with
    | error e => exact hres.elim
    | ok u =>
      obtain ⟨next, hplan, hpend⟩ := hres
      cases hplan
      exact hpend

/-! ## The plan of a tick -/

theorem DbPlan.append {l₁ l₂ : List Action} (h₁ : ∀ a ∈ l₁, ∀ o, a.Issues o → Off key o) (h₂ : DbPlan key next l₂) :
    DbPlan key next (l₁ ++ l₂) := by
  induction l₁ with
  | nil => exact h₂
  | cons a l ih => exact .off (h₁ a (List.mem_cons_self ..)) (ih fun b hb => h₁ b (List.mem_cons_of_mem _ hb))

theorem dbPlan_off {l : List Action} (h : ∀ a ∈ l, ∀ o, a.Issues o → Off key o) : DbPlan key none l := by
  rw [← List.append_nil l]
  exact .append h .nil

/-- The action is of no schedule. -/
def unscheduled : Action → Bool
  | .cronRun .. | .cronSkip .. | .backupRun .. => false
  | _ => true

theorem unscheduled_off {a : Action} (ha : unscheduled a = true) : ∀ o, a.Issues o → Off key o := by
  intro o ho
  cases a with
  | noop => exact ho.elim
  | remove k rs => obtain ⟨r, -, rfl⟩ := ho; trivial
  | scaleDown e rs => obtain ⟨r, -, rfl | rfl⟩ := ho <;> trivial
  | start e i id => cases ho; trivial
  | create e i => rcases ho with rfl | rfl | ⟨p, rfl⟩ <;> trivial
  | rollout e rs => cases ho <;> trivial
  | jobRun e rs => rcases ho with rfl | ⟨r, -, rfl⟩ | ⟨req, -, rfl⟩ <;> trivial
  | cronRun | cronSkip | backupRun => cases ha

/-- Nor is one of another service about the key's record. -/
theorem foreign_off {a : Action} {e : ServiceConfig} (ha : a.config = some e) (hkey : e.key ≠ key)
    (hname : e.key ≠ backupStateKey key) : ∀ o, a.Issues o → Off key o := by
  cases h : unscheduled a with
  | true => exact unscheduled_off h
  | false =>
    intro o ho
    cases a with
    | cronRun e' fireMs rs =>
      cases ha
      rcases ho with rfl | ⟨r, -, rfl⟩ | rfl | rfl
      · trivial
      · trivial
      · exact hname
      · trivial
    | cronSkip e' fireMs => cases ha; cases ho; exact hname
    | backupRun e' fireMs => cases ha; cases ho; exact hkey
    | _ => cases h

/-- A worker's plan: what it does to containers, then the backup. -/
theorem planWorker_split (key : String) (e : ServiceConfig) (have_ : List ManagedReplica) (cron : Option CronPlanContext) :
    ∃ l, (∀ a ∈ l, unscheduled a = true) ∧ planWorker e have_ key cron =
        l ++ if have_.any (replicaNeedsReplace · e) then [] else planBackupService e have_ key cron := by
  unfold planWorker
  by_cases hany : have_.any (replicaNeedsReplace · e) = true
  · rw [if_pos hany, if_pos hany]
    exact ⟨[.rollout e have_], by simp [unscheduled], rfl⟩
  rw [if_neg hany, if_neg hany]
  dsimp only
  have hstarts : ∀ a ∈ (have_.filter (!·.running)).map (fun r => Action.start e r.index r.id), unscheduled a = true := by
    intro a ha
    obtain ⟨r, -, rfl⟩ := List.mem_map.mp ha
    rfl
  have hsized : ∀ converged : Bool, ∀ a ∈ (if (have_.length : Int) < e.replicas then
        (freeIndices (e.replicas - have_.length).toNat (have_.map (·.index)) 0).map (Action.create e)
      else if (have_.length : Int) > e.replicas then [.scaleDown e (extras have_ e.replicas)]
      else if converged && e.backup.isNone then [.noop e] else []), unscheduled a = true := by
    intro converged a ha
    split at ha
    · obtain ⟨i, -, rfl⟩ := List.mem_map.mp ha
      rfl
    · split at ha
      · obtain rfl := List.mem_singleton.mp ha
        rfl
      · split at ha
        · obtain rfl := List.mem_singleton.mp ha
          rfl
        · cases ha
  by_cases hnoop : (e.backup.isSome && (planBackupService e have_ key cron).isEmpty &&
      ((have_.filter (!·.running)).isEmpty && (have_.length : Int) == e.replicas)) = true
  · have hempty : planBackupService e have_ key cron = [] := by
      simp only [Bool.and_eq_true, List.isEmpty_iff] at hnoop
      exact hnoop.1.2
    refine ⟨_ ++ _ ++ [.noop e], fun a ha => ?_, by rw [if_pos hnoop, hempty, List.append_nil]⟩
    rcases List.mem_append.mp ha with ha | ha
    · exact (List.mem_append.mp ha).elim (hstarts a) (hsized _ a)
    · obtain rfl := List.mem_singleton.mp ha
      rfl
  · exact ⟨_, fun a ha => (List.mem_append.mp ha).elim (hstarts a) (hsized _ a), by rw [if_neg hnoop]⟩

section Tick

variable {w : Node} {i : TickInput} {e : ServiceConfig} {log : List (Mark parseFromStr)}

theorem planService_worker (hd : Desires key i.desired e) (have_ : List ManagedReplica) (cron : Option CronPlanContext) :
    planService e have_ e.key cron = planWorker e have_ key cron := by
  unfold planService
  rw [hd.jobRun, hd.cron, hd.key_eq]
  rfl

/-- The plan replaces the containers exactly when one of them must be replaced. -/
theorem rolling_eq (hd : Desires key i.desired e) :
    (found key w i e).rolling = (replicasOf w.liveNow key).any (replicaNeedsReplace · e) := by
  rw [Bool.eq_iff_iff]
  show (w.plan i).any (rollsOut key) = true ↔ _
  constructor
  · intro h
    obtain ⟨a, ha, hroll⟩ := List.any_eq_true.mp h
    cases a with
    | rollout e' rs =>
      have hkey : e'.key = key := beq_iff_eq.mp hroll
      rcases mem_planReconcile.mp ha with ⟨e₂, he₂, ha⟩ | ⟨k, rs', -, -, h⟩
      · rcases planService_config ha with hconf | ⟨rs', h⟩
        · cases hconf
          obtain rfl := List.inj_on_of_nodup_map hd.keys he₂ hd.listed (hkey.trans hd.key_eq.symm)
          rw [planService_worker hd, hkey] at ha
          rcases mem_planWorker ha with ⟨-, hany⟩ | ⟨r, -, h, -⟩ | ⟨i, h, -⟩ | ⟨h, -⟩ | ⟨fire, h⟩ | h
          · exact List.any_eq_true.mpr hany
          all_goals cases h
        · cases h
      · cases h
    | _ => cases hroll
  · intro h
    refine List.any_eq_true.mpr ⟨.rollout e (replicasOf w.liveNow key), ?_, beq_iff_eq.mpr hd.key_eq⟩
    refine mem_planReconcile.mpr (.inl ⟨e, hd.listed, ?_⟩)
    rw [planService_worker hd, hd.key_eq]
    unfold planWorker
    rw [if_pos h]
    exact List.mem_singleton.mpr rfl

/-- The attempt that a tick plans. -/
def planned (f : Finding) : Option (ServiceConfig × Int) :=
  if f.up && !f.rolling then (due f).map fun t => (f.config, t) else none

theorem dbPlan_tick (hd : Desires key i.desired e) : DbPlan key (planned (found key w i e)) (w.plan i) := by
  have hother : ∀ s : List ServiceConfig, (∀ e' ∈ s, e' ∈ i.desired.services ∧ e'.key ≠ key) →
      ∀ a ∈ s.flatMap (fun e' => planService e' (replicasOf w.liveNow e'.key) e'.key
        (some ⟨i.planNow, (w.began i).records.mem.cronFires⟩)), ∀ o, a.Issues o → Off key o := by
    intro s hs a ha
    obtain ⟨e', he', ha⟩ := List.mem_flatMap.mp ha
    obtain ⟨hlisted, hkey⟩ := hs e' he'
    rcases planService_config ha with hconf | ⟨rs, rfl⟩
    · exact foreign_off hconf hkey (hd.named e' hlisted)
    · exact unscheduled_off rfl
  have hremoves : ∀ a ∈ (w.liveNow.filter fun g => !(i.desired.services.map (·.key)).contains g.1).map
      (fun g => Action.remove g.1 g.2), ∀ o, a.Issues o → Off key o := by
    intro a ha
    obtain ⟨g, -, rfl⟩ := List.mem_map.mp ha
    exact unscheduled_off rfl
  obtain ⟨s₁, s₂, hsplit⟩ := List.append_of_mem hd.listed
  have hnodup := hd.keys
  rw [hsplit, List.map_append, List.map_cons, List.nodup_middle, List.nodup_cons, ← List.map_append] at hnodup
  have haround : ∀ e' ∈ s₁ ++ s₂, e' ∈ i.desired.services ∧ e'.key ≠ key := by
    intro e' he'
    refine ⟨?_, fun hk => hnodup.1 (List.mem_map.mpr ⟨e', he', hk.trans hd.key_eq.symm⟩)⟩
    rw [hsplit]
    rcases List.mem_append.mp he' with h | h
    · exact List.mem_append_left _ h
    · exact List.mem_append_right _ (List.mem_cons_of_mem _ h)
  -- The key's own actions: on containers, then the backup.
  obtain ⟨l, hl, hworker⟩ := planWorker_split key e (replicasOf w.liveNow key)
    (some ⟨i.planNow, (w.began i).records.mem.cronFires⟩)
  have hbackup : planBackupService e (replicasOf w.liveNow key) key
      (some ⟨i.planNow, (w.began i).records.mem.cronFires⟩) =
        if (found key w i e).up then (due (found key w i e)).toList.map (Action.backupRun e) else [] :=
    planBackupService_eq (found key w i e) rfl rfl
  rw [hbackup, ← rolling_eq hd] at hworker
  have htail : ∀ rest, (∀ a ∈ rest, ∀ o, a.Issues o → Off key o) → DbPlan key (planned (found key w i e))
      ((if (found key w i e).rolling then [] else
        if (found key w i e).up then (due (found key w i e)).toList.map (Action.backupRun e) else []) ++ rest) := by
    intro rest hrest
    unfold planned
    cases (found key w i e).rolling with
    | true =>
      rw [Bool.not_true, Bool.and_false]
      exact dbPlan_off hrest
    | false =>
      cases (found key w i e).up with
      | false => exact dbPlan_off hrest
      | true =>
        cases due (found key w i e) with
        | none => exact dbPlan_off hrest
        | some t => exact .run hd.key_eq (dbPlan_off hrest)
  unfold Node.plan planReconcile
  rw [show i.desired.services.flatMap _ = _ from congrArg (List.flatMap _) hsplit, List.flatMap_append,
    List.flatMap_cons, planService_worker hd, hd.key_eq, hworker, List.append_assoc, List.append_assoc, List.append_assoc]
  refine .append (hother s₁ fun e' he' => haround e' (List.mem_append_left _ he')) ?_
  refine .append (fun a ha => unscheduled_off (hl a ha)) (htail _ fun a ha => ?_)
  rcases List.mem_append.mp ha with ha | ha
  · exact hother s₂ (fun e' he' => haround e' (List.mem_append_right _ he')) a ha
  · exact hremoves a ha

/-- A tick that has planned is ready for its attempt. -/
theorem pending_began (h : LogInv key (w, log)) (ht : i.Timed w) (hd : Desires key i.desired e) :
    Pending key (planned (found key w i e)) (w.began i, .planned (found key w i e) ::
      ((moved (fireOf key w) (fireOf key (w.began i))).map Mark.seeded ++ log)) := by
  obtain ⟨hinv, hnewest⟩ := h.began ht hd
  have hmarked := hinv.mark (m := .planned (found key w i e)) hnewest rfl
  have hsettled : planned (found key w i e) = none → Settled (.planned (found key w i e) ::
      ((moved (fireOf key w) (fireOf key (w.began i))).map Mark.seeded ++ log)) := by
    intro hnone f htick hup hrolling t hdue
    cases htick
    rw [planned, hup, hrolling, hdue] at hnone
    cases hnone
  cases hp : planned (found key w i e) with
  | none => exact ⟨hmarked, hsettled hp⟩
  | some next =>
    unfold planned at hp
    split at hp
    · rename_i hgo
      rw [Bool.and_eq_true, Bool.not_eq_true'] at hgo
      obtain ⟨t, hdue, rfl⟩ := Option.map_eq_some_iff.mp hp
      obtain ⟨hmax, last, hlast, hlt, hle⟩ := due_greatest hdue
      refine ⟨hmarked, ⟨⟨_, rfl, hgo.1, hgo.2, rfl, hmax⟩, fun x hx => (by cases hx), ⟨last, hlast, hlt⟩, hle⟩⟩
    · cases hp

end Tick

/-! ## Every run -/

theorem logInv_upheld : Upheld nodeId (backupLog parseFromStr key) (LogInv key) (Pending key none) (AtAttempt key) where
  fresh clock := ⟨.nil, fun v hv => (by cases hv), fun a ha => (by cases ha), fun s a hs => (by cases hs),
    fun _ s hs => by cases hs⟩
  stable := by
    rintro ⟨w, log⟩ ⟨w', log'⟩ h ⟨hr, hlog⟩
    obtain rfl : log' = log := hlog
    exact h.frame (rely_untouched hr)
  boot w log h := by
    have hmem : fireOf key w.boot = (w.records.file.getD {}).fire (backupStateKey key) := rfl
    refine ⟨h.told, h.clock, fun a ha => ?_, h.file, fun hnone s hs => ?_⟩
    · rw [hmem] at ha
      cases hf : w.records.file with
      | none => rw [hf] at ha; cases ha
      | some s => rw [hf] at ha; exact h.file s a hf ha
    · replace hs : w.records.file = some s := hs
      rw [hmem, hs] at hnone
      exact hnone
  failed w w' log log' h hf hlog := by
    obtain rfl : log' = log := hlog
    cases hf with
    | noDesired => exact h.frame ⟨Int.le_refl _, rfl, fun s hs => .inl hs⟩
    | noLogin d => exact h.frame ⟨Int.le_refl _, rfl, fun s hs => .inl hs⟩
    | noInspect d => exact h.frame ⟨Int.le_refl _, rfl, fun s hs => .inl hs⟩
  command o c h := h.1
  planned c h := h.1
  finish w log r w' log' h hs hlog := by
    obtain rfl : log' = log := hlog
    exact h.1.frame (sem_untouched (o := .refreshRouting []) trivial hs)
  begin w log i log' h ht hbegin := by
    obtain ⟨e, hd, rfl⟩ := hbegin
    exact sat_plan (dbPlan_tick hd) (pending_began h ht hd)

/-- Wherever a run stands, also one cut short in the middle of an attempt. -/
theorem backupReach_watching {c : Phase × Node × List (Mark parseFromStr)} (h : BackupReach parseFromStr nodeId key c) :
    Watching nodeId (backupLog parseFromStr key) (LogInv key) (Pending key none) (AtAttempt key) c := by
  have hU : Upheld nodeId (backupLog parseFromStr key) (LogInv key) (Pending key none) (AtAttempt key) := logInv_upheld
  induction h with
  | fresh clock => exact hU.fresh clock
  | step _ hs ih => exact watch_watching hU ih hs
  | @cut e fireMs k w log x _ hkey hconfig hfire _ ih =>
    have hsat : Sat (watcher nodeId (backupLog parseFromStr key)) (AtAttempt key) (fun _ => Pending key none)
      (.act (.runBackup e fireMs) k) (w, log) := ih
    obtain ⟨hinv, hoff | ⟨e', fireMs', heq, -, hready⟩⟩ := hsat.atAct
    · exact absurd hkey hoff
    · cases heq
      exact hinv.mark (hready.follows hconfig hfire) rfl

/-- While the database is down or replaced, a command leaves its record alone. -/
theorem down_untouched {o : Op} {k : Resp o → Prog Resp (Except String Unit)} {r : Resp o}
    (h : BackupReach parseFromStr nodeId key (.applying (.act o k), c))
    (hs : (watcher nodeId (backupLog parseFromStr key)).sem o c r c') {f : Finding} (htick : tickOf c.2 = some f)
    (hdown : f.up = false ∨ f.rolling = true) : Untouched key c.1 c'.1 := by
  have hsat : Sat (watcher nodeId (backupLog parseFromStr key)) (AtAttempt key) (fun _ => Pending key none) (.act o k) c :=
    backupReach_watching h
  obtain ⟨-, hoff | ⟨e, fireMs, -, -, hready⟩⟩ := hsat.atAct
  · exact (command_untouched hoff hs).1
  · obtain ⟨f', htick', hup, hrolling, -⟩ := hready.tick
    cases htick.symm.trans htick'
    rcases hdown with hdown | hdown
    · cases hup.symm.trans hdown
    · cases hrolling.symm.trans hdown

/-- Of two attempts at one fire, the later that is not cut short writes every key the other
    wrote, as long as it dumps the same databases. -/
theorem same_keys {x y : Tried parseFromStr} (hfire : x.fireMs = y.fireMs) (hbackup : x.config.backup = y.config.backup)
    (hdumped : dumped x.config x.answers ⊆ dumped y.config y.answers) (hwhole : y.whole = true) :
    putKeys x.requests ⊆ putKeys y.requests := by
  obtain ⟨bucket, hpart, -⟩ := x.asked
  obtain ⟨bucket', -, hall⟩ := y.asked
  rw [hall hwhole]
  intro k hk
  replace hk : k ∈ putKeys (performBackup parseFromStr x.config x.fireMs x.answers bucket).2 :=
    (hpart.filterMap _).subset hk
  cases hb : x.config.backup with
  | none =>
    rw [performBackup, hb] at hk
    cases hk
  | some b =>
    rw [putKeys_performBackup parseFromStr hb] at hk
    rw [putKeys_performBackup parseFromStr (hbackup ▸ hb), ← hfire]
    obtain ⟨db, hdb, rfl⟩ := List.mem_map.mp hk
    exact List.mem_map.mpr ⟨db, hdumped hdb, rfl⟩

/-- For a database that every document desires with its backup: every mark of the log follows
    from the older ones, and what stands in memory and on disk is the newest of them; while it
    is down or replaced, its record stays; a plan of a tick that finds it up, plans no
    replacement and finds a fire of the last 366 days missed does not end without an attempt at
    the latest missed fire; and attempts at one fire write the same keys. -/
theorem backups_after_attempts (parseFromStr : String → Option NaiveDateTime) (nodeId key : String) :
    (∀ p w log, BackupReach parseFromStr nodeId key (p, w, log) →
      Told log ∧ (∀ a, fireOf key w = some a → newest log = some a) ∧
        ∀ s a, w.records.file = some s → s.fire (backupStateKey key) = some a → newest log = some a) ∧
    (∀ o k c r c', BackupReach parseFromStr nodeId key (.applying (.act o k), c) →
      (watcher nodeId (backupLog parseFromStr key)).sem o c r c' →
      ∀ f, tickOf c.2 = some f → f.up = false ∨ f.rolling = true → Untouched key c.1 c'.1) ∧
    (∀ res w log, BackupReach parseFromStr nodeId key (.applying (.ret res), w, log) →
      ∀ f t, tickOf log = some f → f.up = true → f.rolling = false → t ∈ f.missed → f.now - horizonMs < t →
      ∃ x, Mark.attempted x ∈ thisTick log ∧ IsGreatest f.missed x.fireMs) ∧
    ∀ x y : Tried parseFromStr, x.fireMs = y.fireMs → x.config.backup = y.config.backup →
      dumped x.config x.answers ⊆ dumped y.config y.answers → y.whole = true →
      putKeys x.requests ⊆ putKeys y.requests := by
  have hU : Upheld nodeId (backupLog parseFromStr key) (LogInv key) (Pending key none) (AtAttempt key) := logInv_upheld
  refine ⟨fun p w log h => ?_, fun o k c r c' h hs f htick hdown => down_untouched h hs htick hdown,
    fun res w log h f t htick hup hrolling ht hyoung => ?_, fun x y hfire hb hdb hwhole => same_keys hfire hb hdb hwhole⟩
  · have hinv : LogInv key (w, log) := (backupReach_watching h).invariant hU
    exact ⟨hinv.told, hinv.mem, hinv.file⟩
  · obtain ⟨-, hsettled⟩ := (backupReach_watching h).planned
    obtain ⟨u, hu⟩ := due_of_young ht hyoung
    obtain ⟨x, hx, hfire⟩ := hsettled f htick hup hrolling u hu
    exact ⟨x, hx, hfire ▸ (due_greatest hu).1⟩

/-! ### A leap day -/

/-- A database that is backed up on leap days. -/
def leapDatabase : ServiceConfig := { weeklyDatabase with backup := some { weeklyBackup with schedule := "0 0 29 2 *" } }

/-- The day before the leap day. -/
def february28 : Int := 1709078400000

def leapTick (now : Int) : TickInput where
  desired := ⟨protocolVersion, "n1", "2024-02-28T00:00:00.000Z", [leapDatabase]⟩
  now _ := now
  planNow := now
  saved := true

def leapContainer : Container := launched leapDatabase 0 none none none "c0" .running

/-- The node before its first tick, when that tick has begun, with the database running, and a
    year later. -/
def leapFresh : Node := (Node.fresh february28).boot
def leapBegan : Node := leapFresh.began (leapTick february28)
def leapRunning : Node := { leapBegan with docker := [leapContainer], issued := ["c0"] }
def leapLater : Node := { leapRunning with clock := marchFirst2025 }

theorem leap_desires (now : Int) : Desires "blog/db" (leapTick now).desired leapDatabase where
  keys := List.nodup_singleton _
  named e he := by
    obtain rfl := List.mem_singleton.mp he
    decide
  listed := List.mem_singleton.mpr rfl
  key_eq := rfl
  backup := rfl
  cron := rfl
  jobRun := rfl

/-- Nothing is due on the day before, nor on the first of March a year later. -/
theorem leap_due {f : Finding} (hconfig : f.config = leapDatabase) (hlast : f.last = some february28)
    (hnow : f.now = february28 ∨ f.now = marchFirst2025) : due f = none := by
  have hb : f.config.backup = some { weeklyBackup with schedule := "0 0 29 2 *" } := by rw [hconfig]; rfl
  unfold due
  rw [hb, hlast]
  simp only [leapDays_parsed]
  rw [due_eq_none, Set.eq_empty_iff_forall_notMem]
  rintro t ⟨hfires, hlt, hle, hyoung⟩
  rcases hnow with hnow | hnow
  · rw [hnow] at hle
    omega
  · rw [hnow] at hle hyoung
    exact leapDays_silent hfires hyoung hle

/-- The plan over such a database: its worker's, without a backup. -/
theorem leap_plan {w : Node} {now : Int} (hlive : w.liveNow = [] ∨ ∃ rs, w.liveNow = [("blog/db", rs)])
    (hlast : fireOf "blog/db" (w.began (leapTick now)) = some february28)
    (hnow : now = february28 ∨ now = marchFirst2025) :
    w.plan (leapTick now) = planWorker leapDatabase (replicasOf w.liveNow "blog/db") "blog/db" none := by
  have hdue : due (found "blog/db" w (leapTick now) leapDatabase) = none := leap_due rfl hlast hnow
  have hbackup : planBackupService leapDatabase (replicasOf w.liveNow "blog/db") "blog/db"
      (some ⟨now, (w.began (leapTick now)).records.mem.cronFires⟩) = [] := by
    have h : planBackupService leapDatabase (replicasOf w.liveNow "blog/db") "blog/db"
        (some ⟨now, (w.began (leapTick now)).records.mem.cronFires⟩) =
          if (found "blog/db" w (leapTick now) leapDatabase).up then
            (due (found "blog/db" w (leapTick now) leapDatabase)).toList.map (Action.backupRun leapDatabase) else [] :=
      planBackupService_eq (found "blog/db" w (leapTick now) leapDatabase) rfl rfl
    rw [h, hdue, Option.toList_none, List.map_nil, ite_self]
  have hnone : planBackupService leapDatabase (replicasOf w.liveNow "blog/db") "blog/db" none = [] := rfl
  have hworker : planWorker leapDatabase (replicasOf w.liveNow "blog/db") "blog/db"
      (some ⟨now, (w.began (leapTick now)).records.mem.cronFires⟩) =
        planWorker leapDatabase (replicasOf w.liveNow "blog/db") "blog/db" none := by
    unfold planWorker
    rw [hbackup, hnone]
  have hremoves : (w.liveNow.filter fun g => !((leapTick now).desired.services.map (·.key)).contains g.1) = [] := by
    rcases hlive with h | ⟨rs, h⟩
    · rw [h]
      rfl
    · rw [h, List.filter_eq_nil_iff]
      intro g hg
      obtain rfl := List.mem_singleton.mp hg
      show ¬ (!(List.contains ["blog/db"] "blog/db")) = true
      decide
  unfold Node.plan planReconcile
  rw [hremoves, List.map_nil, List.append_nil, ← hworker]
  exact List.append_nil _

theorem leap_fire : fireOf "blog/db" leapBegan = some february28 := (fireOf_began (leap_desires _)).1

theorem leap_fire_later : fireOf "blog/db" (leapLater.began (leapTick marchFirst2025)) = some february28 := by
  rw [(fireOf_began (leap_desires _)).1]
  have : fireOf "blog/db" leapLater = some february28 := leap_fire
  rw [this]
  rfl

theorem leap_live : leapLater.liveNow = [("blog/db", [leapContainer.replica])] := inspectManaged_singleton (by decide)

theorem leap_create : leapFresh.plan (leapTick february28) = [.create leapDatabase 0] := by
  rw [leap_plan (.inl rfl) leap_fire (.inl rfl)]
  rfl

theorem leap_noop : leapLater.plan (leapTick marchFirst2025) = [.noop leapDatabase] := by
  rw [leap_plan (.inr ⟨_, leap_live⟩) leap_fire_later (.inr rfl), leap_live]
  have hsame : replicaNeedsReplace leapContainer.replica leapDatabase = false := by
    simp [replicaNeedsReplace, leapContainer, launched]
  have hany : [leapContainer.replica].any (replicaNeedsReplace · leapDatabase) = false := by
    rw [List.any_cons, hsame]
    rfl
  show planWorker leapDatabase [leapContainer.replica] "blog/db" none = _
  unfold planWorker
  rw [hany]
  rfl

/-- The first tick seeds the anchor and starts the database. -/
theorem leap_started : BackupReach strictReader "n1" "blog/db" (.idle, leapRunning,
    [.planned (found "blog/db" leapFresh (leapTick february28) leapDatabase), .seeded february28]) := by
  have hboot : BackupReach strictReader "n1" "blog/db" (.idle, leapFresh, []) :=
    .step (.fresh february28) (.boot _ _)
  have htimed : (leapTick february28).Timed leapFresh := ⟨Int.le_refl _, fun _ => ⟨Int.le_refl _, Int.le_refl _⟩⟩
  have hseed : moved (fireOf "blog/db" leapFresh) (fireOf "blog/db" leapBegan) = [february28] := by
    rw [leap_fire]
    rfl
  have hbegin := BackupReach.step hboot
    (.begin _ _ (leapTick february28) _ htimed ⟨leapDatabase, leap_desires _, rfl⟩)
  rw [show leapFresh.began (leapTick february28) = leapBegan from rfl, hseed, leap_create] at hbegin
  have hpull := BackupReach.step hbegin
    (.command (.pull "postgres:16") _ _ (Except.ok ()) (leapBegan, _) ⟨rfl, [], rfl, rfl⟩)
  have hrun : sem "n1" (.runContainer leapDatabase 0 none (bindHost leapDatabase) none none) leapBegan (.ok ()) leapRunning :=
    ⟨[leapContainer], ["c0"],
      Launch.running "c0" List.not_mem_nil (fun _ h => by cases h) (fun _ h => by cases h), rfl⟩
  have hstarted := BackupReach.step hpull
    (.command (.runContainer leapDatabase 0 none (bindHost leapDatabase) none none) _ _ (Except.ok ()) (leapRunning, _)
      ⟨hrun, [], rfl, rfl⟩)
  exact .step hstarted (.finish (.ok ()) leapRunning _ (.ok ()) leapRunning _ ⟨rfl, rfl⟩ rfl)

/-- The agent does nothing for a year and a day. Its next tick finds the database up and the
    leap day's backup missed, and plans nothing. -/
theorem leap_backup_skipped :
    ¬ ∀ (res : Except String Unit) (w : Node) (log : List (Mark strictReader)),
      BackupReach strictReader "n1" "blog/db" (.applying (.ret res), w, log) →
        ∀ f t, tickOf log = some f → f.up = true → f.rolling = false → t ∈ f.missed →
          ∃ x, Mark.attempted x ∈ thisTick log ∧ IsGreatest f.missed x.fireMs := by
  intro h
  have hlater : BackupReach strictReader "n1" "blog/db" (.idle, leapLater, _) :=
    .step leap_started (.env _ _ (leapLater, _) ⟨.tick _ marchFirst2025 (by decide), rfl⟩)
  have htimed : (leapTick marchFirst2025).Timed leapLater := ⟨Int.le_refl _, fun _ => ⟨Int.le_refl _, Int.le_refl _⟩⟩
  have hbegin := BackupReach.step hlater
    (.begin _ _ (leapTick marchFirst2025) _ htimed ⟨leapDatabase, leap_desires _, rfl⟩)
  rw [leap_noop] at hbegin
  have hup : (found "blog/db" leapLater (leapTick marchFirst2025) leapDatabase).up = true := by
    show (replicasOf leapLater.liveNow "blog/db").any (·.running) = true
    rw [leap_live]
    rfl
  have hrolling : (found "blog/db" leapLater (leapTick marchFirst2025) leapDatabase).rolling = false := by
    show (leapLater.plan (leapTick marchFirst2025)).any (rollsOut "blog/db") = false
    rw [leap_noop]
    rfl
  have hmissed : leapDay2024 ∈ (found "blog/db" leapLater (leapTick marchFirst2025) leapDatabase).missed :=
    ⟨_, leapDays, february28, rfl, leapDays_parsed, leap_fire_later, ⟨by decide, by decide +kernel⟩, by decide, by decide⟩
  obtain ⟨x, hx, -⟩ := h (.ok ()) _ _ hbegin _ _ rfl hup hrolling hmissed
  cases hx

end LaunchPad.Agent.BackupFires
