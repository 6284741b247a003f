/-
  LaunchPad.Agent.StatusWrite — when a status is written (`agent-rust/src/status_write.rs`
  `fingerprint_status`, `decide_status_write`; `bin/agent-app.rs` `write_status_maybe`,
  `write_status_forced`): a status whose fingerprint is the last one's is suppressed until a
  heartbeat is due.

  The hash of the fingerprint's payload is a parameter, without collisions where that is
  needed; so is what the host sample holds. A reader of a status does not mind the order of
  services, replicas and routes.

  As built the payload of a service has its backup and its job run but not its cron rollup. A
  status in which that rollup alone has changed is not written (`cron_change_suppressed`).

  Proved:
  - `same_of_fingerprint`: equal fingerprints mean equal statuses, but for the cron rollups.
  - `fingerprint_eq_iff`: and conversely, where no service, replica or route is listed twice.
  - `suppression_loses_nothing`: in every run of offers none of which differ in their cron
    rollups alone, the stored status agrees with the latest.
-/
import LaunchPad.Agent.Status
import LaunchPad.Lib.SortBy
import Mathlib.Data.List.Induction
import Mathlib.Data.List.Perm.Basic

namespace LaunchPad.Agent

open Lib

/-! ## The document and what of it is hashed -/

structure EdgeRouteStatus where
  domain : String
  upstreams : Int
  deriving DecidableEq, Repr

/-- A status with the routes of an edge and the host's sample. -/
structure StatusDocument (Host : Type) extends NodeStatus where
  edgeRoutes : List EdgeRouteStatus := []
  host : Option Host := none

structure FpJobRun where
  id : String
  requestedAt : String
  exitCode : Option Int
  state : JobRunState
  message : String
  deriving DecidableEq, Repr

def FpJobRun.of (j : JobRunStatus) : FpJobRun := ⟨j.id, j.requestedAt, j.exitCode, j.state, j.message⟩

/-- `FpReplica` has every field of a replica. -/
abbrev FpReplica := ReplicaStatus

structure FpService where
  project : String
  service : String
  image : String
  state : ServiceState
  message : String
  containerId : Option String
  desiredReplicas : Int
  runningReplicas : Int
  replicas : List FpReplica
  backup : Option DatabaseBackupStatus
  jobRun : Option FpJobRun
  deriving DecidableEq, Repr

structure FpCaddy where
  managed : Bool
  error : Option String
  deriving DecidableEq, Repr

structure FpStatusPayload where
  nodeId : String
  agentId : String
  agentVersion : String
  caddy : FpCaddy
  services : List FpService
  edgeRoutes : List EdgeRouteStatus
  deriving DecidableEq, Repr

def sortReplicas (l : List ReplicaStatus) : List ReplicaStatus := l.mergeSort fun a b => decide (a.index ≤ b.index)
def sortServices (l : List ServiceStatus) : List ServiceStatus := l.mergeSort fun a b => decide (a.key ≤ b.key)
def sortRoutes (l : List EdgeRouteStatus) : List EdgeRouteStatus := l.mergeSort fun a b => decide (a.domain ≤ b.domain)

def fpService (s : ServiceStatus) : FpService where
  project := s.project
  service := s.service
  image := s.image
  state := s.state
  message := s.message
  containerId := s.containerId
  desiredReplicas := s.desiredReplicas
  runningReplicas := s.runningReplicas
  replicas := sortReplicas s.replicas
  backup := s.backup
  jobRun := s.jobRun.map FpJobRun.of

variable {Host H : Type}

def fpPayload (status : StatusDocument Host) : FpStatusPayload where
  nodeId := status.nodeId
  agentId := status.agentId
  agentVersion := status.agentVersion
  caddy := ⟨status.caddy.managed, status.caddy.error⟩
  services := (sortServices status.services).map fpService
  edgeRoutes := sortRoutes status.edgeRoutes

/-- `canonicalHash` stands for the hash of the payload's canonical JSON. -/
def fingerprintStatus (canonicalHash : FpStatusPayload → H) (status : StatusDocument Host) : H := canonicalHash (fpPayload status)

/-! ## When a status is written -/

inductive WriteReason where
  | first
  | changed
  | liveness
  | skip
  deriving DecidableEq, Repr

structure WriteDecision where
  write : Bool
  reason : WriteReason
  deriving DecidableEq, Repr

structure WriteTracker (H : Type) where
  fingerprint : Option H := none
  lastWriteMs : Int := 0

def decideStatusWrite [DecidableEq H] (prev : WriteTracker H) (fingerprint : H) (nowMs livenessMs : Int) : WriteDecision :=
  if prev.fingerprint.isNone then ⟨true, .first⟩
  else if prev.fingerprint ≠ some fingerprint then ⟨true, .changed⟩
  else if nowMs - prev.lastWriteMs ≥ livenessMs then ⟨true, .liveness⟩
  else ⟨false, .skip⟩

/-- The writer of one process, and the document it has stored. -/
structure StatusWriter (Host H : Type) where
  tracker : WriteTracker H := {}
  stored : Option (StatusDocument Host) := none

section Writer

variable [DecidableEq H] (canonicalHash : FpStatusPayload → H) (livenessMs : Int)

/-- After a write that succeeds. -/
def StatusWriter.wrote (status : StatusDocument Host) (nowMs : Int) : StatusWriter Host H :=
  ⟨⟨some (fingerprintStatus canonicalHash status), nowMs⟩, some status⟩

def StatusWriter.writeStatusMaybe (w : StatusWriter Host H) (status : StatusDocument Host) (nowMs : Int) : StatusWriter Host H :=
  if (decideStatusWrite w.tracker (fingerprintStatus canonicalHash status) nowMs livenessMs).write then
    .wrote canonicalHash status nowMs
  else w

/-- A status of a tick, or of a heartbeat or an error, which is written in any case. -/
structure Offer (Host : Type) where
  status : StatusDocument Host
  nowMs : Int
  forced : Bool := false

def StatusWriter.offer (w : StatusWriter Host H) (o : Offer Host) : StatusWriter Host H :=
  if o.forced then .wrote canonicalHash o.status o.nowMs else w.writeStatusMaybe canonicalHash livenessMs o.status o.nowMs

def StatusWriter.after (offers : List (Offer Host)) : StatusWriter Host H :=
  offers.foldl (StatusWriter.offer canonicalHash livenessMs) {}

end Writer

/-! ## What a reader can tell apart -/

/-- Related one to one, in some order. -/
def UpToOrder {α : Type} (R : α → α → Prop) (l m : List α) : Prop := ∃ x, List.Forall₂ R l x ∧ x.Perm m

/-- Services that differ at most in `updatedAt`, a job run's times, and the cron rollup. -/
structure SameButCron (a b : ServiceStatus) : Prop where
  project : a.project = b.project
  service : a.service = b.service
  image : a.image = b.image
  state : a.state = b.state
  message : a.message = b.message
  containerId : a.containerId = b.containerId
  desiredReplicas : a.desiredReplicas = b.desiredReplicas
  runningReplicas : a.runningReplicas = b.runningReplicas
  replicas : a.replicas.Perm b.replicas
  backup : a.backup = b.backup
  jobRun : a.jobRun.map FpJobRun.of = b.jobRun.map FpJobRun.of

structure SameWithCron (a b : ServiceStatus) : Prop extends SameButCron a b where
  cron : a.cron = b.cron

/-- Statuses that differ at most in `lastSeen`, `lastReloadAt`, the host's sample, and what
    `R` leaves open of each service. -/
structure SameStatus (R : ServiceStatus → ServiceStatus → Prop) (s t : StatusDocument Host) : Prop where
  nodeId : s.nodeId = t.nodeId
  agentId : s.agentId = t.agentId
  agentVersion : s.agentVersion = t.agentVersion
  managed : s.caddy.managed = t.caddy.managed
  error : s.caddy.error = t.caddy.error
  services : UpToOrder R s.services t.services
  edgeRoutes : s.edgeRoutes.Perm t.edgeRoutes

/-- No service, replica or route is listed twice. -/
structure StatusDocument.Distinct (s : StatusDocument Host) : Prop where
  services : (s.services.map (·.key)).Nodup
  replicas : ∀ a ∈ s.services, (a.replicas.map (·.index)).Nodup
  edgeRoutes : (s.edgeRoutes.map (·.domain)).Nodup

/-! ## Fingerprints -/

section Fingerprint

variable {s t : StatusDocument Host} {a b : ServiceStatus}

theorem same_of_fpService (h : fpService a = fpService b) : SameButCron a b := by
  obtain ⟨hproject, hservice, himage, hstate, hmessage, hid, hdesired, hrunning, hreplicas, hbackup, hjob⟩ :=
    FpService.mk.inj h
  refine ⟨hproject, hservice, himage, hstate, hmessage, hid, hdesired, hrunning, ?_, hbackup, hjob⟩
  calc a.replicas.Perm (sortReplicas a.replicas) := (List.mergeSort_perm _ _).symm
    _ = sortReplicas b.replicas := hreplicas
    List.Perm _ b.replicas := List.mergeSort_perm _ _

theorem fpService_of_same (h : SameButCron a b) (hindices : (a.replicas.map (·.index)).Nodup) : fpService a = fpService b := by
  unfold fpService
  rw [h.project, h.service, h.image, h.state, h.message, h.containerId, h.desiredReplicas, h.runningReplicas, h.backup, h.jobRun,
    sortReplicas, sortReplicas, SortBy.sort_congr h.replicas hindices]

/-- Equal payloads are of the same status, but for the cron rollups. -/
theorem same_of_payload (h : fpPayload s = fpPayload t) : SameStatus SameButCron s t := by
  obtain ⟨hnode, hagent, hversion, hcaddy, hservices, hroutes⟩ := FpStatusPayload.mk.inj h
  obtain ⟨hmanaged, herror⟩ := FpCaddy.mk.inj hcaddy
  refine ⟨hnode, hagent, hversion, hmanaged, herror, ?_, ?_⟩
  · have hpairs : List.Forall₂ SameButCron (sortServices s.services) (sortServices t.services) := by
      have heq := List.forall₂_eq_eq_eq ▸ hservices
      exact (List.forall₂_map_left_iff.mp (List.forall₂_map_right_iff.mp heq)).imp fun _ _ => same_of_fpService
    obtain ⟨x, hx, hperm⟩ := List.perm_comp_forall₂ (List.mergeSort_perm _ _).symm hpairs
    exact ⟨x, hx, hperm.trans (List.mergeSort_perm _ _)⟩
  · exact ((List.mergeSort_perm _ _).symm.trans (List.Perm.of_eq hroutes)).trans (List.mergeSort_perm _ _)

theorem same_of_fingerprint {hash : FpStatusPayload → H} (hinj : Function.Injective hash)
    (h : fingerprintStatus hash s = fingerprintStatus hash t) : SameStatus SameButCron s t := same_of_payload (hinj h)

/-- The key of a hashed service. -/
def FpService.key (s : FpService) : String := serviceKey s.project s.service

theorem map_fpService {l m : List ServiceStatus} (h : List.Forall₂ SameButCron l m)
    (hindices : ∀ a ∈ l, (a.replicas.map (·.index)).Nodup) : l.map fpService = m.map fpService := by
  induction h with
  | nil => rfl
  | cons hab _ ih =>
    rw [List.map_cons, List.map_cons, fpService_of_same hab (hindices _ (List.mem_cons_self ..)),
      ih fun a ha => hindices a (List.mem_cons_of_mem _ ha)]

/-- Without a service, replica or route listed twice, the fingerprint is of exactly that. -/
theorem fingerprint_eq_iff {hash : FpStatusPayload → H} (hinj : Function.Injective hash) (hs : s.Distinct) :
    fingerprintStatus hash s = fingerprintStatus hash t ↔ SameStatus SameButCron s t := by
  refine ⟨same_of_fingerprint hinj, fun h => congrArg hash ?_⟩
  obtain ⟨x, hx, hperm⟩ := h.services
  have hsort : ∀ l : List ServiceStatus, (sortServices l).map fpService =
      (l.map fpService).mergeSort fun a b => decide (a.key ≤ b.key) := fun l => List.map_mergeSort fun _ _ _ _ => rfl
  have hservices : (sortServices s.services).map fpService = (sortServices t.services).map fpService := by
    rw [hsort, hsort]
    refine SortBy.sort_congr ?_ ?_
    · rw [map_fpService hx hs.replicas]
      exact hperm.map fpService
    · rw [List.map_map]
      exact hs.services
  unfold fpPayload
  rw [hservices, h.nodeId, h.agentId, h.agentVersion, h.managed, h.error]
  exact congrArg (FpStatusPayload.mk _ _ _ _ _) (SortBy.sort_congr h.edgeRoutes hs.edgeRoutes)

/-- Where nothing is listed twice, the condition is exact. -/
theorem told_iff {hash : FpStatusPayload → H} (hinj : Function.Injective hash) (hs : s.Distinct) :
    (fingerprintStatus hash s = fingerprintStatus hash t → SameStatus SameWithCron s t) ↔
      (SameStatus SameButCron s t → SameStatus SameWithCron s t) := by
  rw [fingerprint_eq_iff hinj hs]

end Fingerprint

/-! ## Runs of offers -/

section Offers

variable [DecidableEq H] {hash : FpStatusPayload → H} {livenessMs : Int} {s t : StatusDocument Host}

theorem SameStatus.refl {R : ServiceStatus → ServiceStatus → Prop} (hR : ∀ a, R a a) (s : StatusDocument Host) : SameStatus R s s :=
  ⟨rfl, rfl, rfl, rfl, rfl, ⟨s.services, List.forall₂_same.mpr fun a _ => hR a, List.Perm.refl _⟩, List.Perm.refl _⟩

theorem sameWithCron_refl (a : ServiceStatus) : SameWithCron a a :=
  ⟨⟨rfl, rfl, rfl, rfl, rfl, rfl, rfl, rfl, List.Perm.refl _, rfl, rfl⟩, rfl⟩

/-- Only a status of the last fingerprint written is skipped. -/
theorem fingerprint_of_skip {prev : WriteTracker H} {fingerprint : H} {nowMs : Int}
    (h : (decideStatusWrite prev fingerprint nowMs livenessMs).write = false) : prev.fingerprint = some fingerprint := by
  unfold decideStatusWrite at h
  by_cases hnone : prev.fingerprint.isNone = true
  · rw [if_pos hnone] at h
    cases h
  · rw [if_neg hnone] at h
    by_contra hchanged
    rw [if_pos hchanged] at h
    cases h

/-- What the tracker remembers is the stored document's fingerprint. -/
structure Tracks (hash : FpStatusPayload → H) (offers : List (Offer Host)) (w : StatusWriter Host H) : Prop where
  fingerprint : w.tracker.fingerprint = w.stored.map (fingerprintStatus hash)
  offered : ∀ d ∈ w.stored, ∃ o ∈ offers, o.status = d

theorem tracks_offer {offers : List (Offer Host)} {w : StatusWriter Host H} (h : Tracks hash offers w) (o : Offer Host) :
    Tracks hash (offers ++ [o]) (w.offer hash livenessMs o) ∧
      ∃ d, (w.offer hash livenessMs o).stored = some d ∧
        (d = o.status ∨ fingerprintStatus hash d = fingerprintStatus hash o.status) := by
  have hwrote : Tracks hash (offers ++ [o]) (.wrote hash o.status o.nowMs) :=
    ⟨rfl, fun d hd => ⟨o, List.mem_append_right _ (List.mem_singleton_self o), Option.mem_some.mp hd⟩⟩
  have hkept : Tracks hash (offers ++ [o]) w := by
    refine ⟨h.fingerprint, fun d hd => ?_⟩
    obtain ⟨x, hx, hxd⟩ := h.offered d hd
    exact ⟨x, List.mem_append_left _ hx, hxd⟩
  unfold StatusWriter.offer StatusWriter.writeStatusMaybe
  split
  · exact ⟨hwrote, o.status, rfl, .inl rfl⟩
  · split
    · exact ⟨hwrote, o.status, rfl, .inl rfl⟩
    · rename_i hskip
      have hsame := fingerprint_of_skip (Bool.eq_false_iff.mpr hskip)
      rw [h.fingerprint] at hsame
      obtain ⟨d, hd, hfp⟩ := Option.map_eq_some_iff.mp hsame
      exact ⟨hkept, d, hd, .inr hfp⟩

theorem tracks_after (offers : List (Offer Host)) : Tracks hash offers (.after hash livenessMs offers) := by
  induction offers using List.reverseRecOn with
  | nil => exact ⟨rfl, fun d hd => by cases hd⟩
  | append_singleton offers o ih =>
    unfold StatusWriter.after at ih ⊢
    rw [List.foldl_append]
    exact (tracks_offer ih o).1

/-- For every hash without collisions and every run of offers whose statuses do not differ in
    their cron rollups alone: equal fingerprints are of statuses that a reader cannot tell
    apart, and after each offer the stored status is one of these to the offered. -/
theorem suppression_loses_nothing (hash : FpStatusPayload → H) (hinj : Function.Injective hash) (livenessMs : Int)
    (offers : List (Offer Host))
    (hcron : ∀ a ∈ offers, ∀ b ∈ offers, SameStatus SameButCron a.status b.status → SameStatus SameWithCron a.status b.status) :
    (∀ a ∈ offers, ∀ b ∈ offers, fingerprintStatus hash a.status = fingerprintStatus hash b.status →
        SameStatus SameWithCron a.status b.status) ∧
      ∀ before o later, offers = before ++ o :: later →
        ∃ d, (StatusWriter.after hash livenessMs (before ++ [o])).stored = some d ∧ SameStatus SameWithCron d o.status := by
  refine ⟨fun a ha b hb h => hcron a ha b hb (same_of_fingerprint hinj h), fun before o later hoffers => ?_⟩
  have htracks : Tracks hash before (.after hash livenessMs before) := tracks_after before
  obtain ⟨hafter, d, hd, hsame⟩ : Tracks hash (before ++ [o])
        ((StatusWriter.after hash livenessMs before).offer hash livenessMs o) ∧ _ := tracks_offer htracks o
  have hfold : StatusWriter.after hash livenessMs (before ++ [o]) =
      (StatusWriter.after hash livenessMs before).offer hash livenessMs o := by
    unfold StatusWriter.after
    rw [List.foldl_append]
    rfl
  rw [hfold]
  refine ⟨d, hd, ?_⟩
  rcases hsame with rfl | hfp
  · exact SameStatus.refl sameWithCron_refl _
  · obtain ⟨x, hx, rfl⟩ := hafter.offered d hd
    have hmem : ∀ y ∈ before ++ [o], y ∈ offers := by
      intro y hy
      rw [hoffers]
      rcases List.mem_append.mp hy with hy | hy
      · exact List.mem_append_left _ hy
      · exact List.mem_append_right _ (List.mem_singleton.mp hy ▸ List.mem_cons_self ..)
    exact hcron x (hmem x hx) o (hmem o (List.mem_append_right _ (List.mem_singleton_self o))) (same_of_fingerprint hinj hfp)

/-! ### A schedule whose runs fail -/

def nightly (nextRunAt : String) : ServiceStatus where
  project := "site"
  service := "nightly"
  image := "job:1"
  state := .error
  message := "pull failed"
  containerId := none
  replicas := []
  desiredReplicas := 1
  runningReplicas := 0
  cron := some ⟨none, none, some nextRunAt⟩
  backup := none
  jobRun := none
  updatedAt := "t0"

def nightlyStatus (nextRunAt : String) : StatusDocument Unit where
  nodeId := "n1"
  agentId := "a1"
  lastSeen := "t0"
  agentVersion := "1"
  services := [nightly nextRunAt]
  caddy := noCaddy

def webStatus (message : String) : StatusDocument Unit :=
  { nightlyStatus "02:00" with services := [{ nightly "02:00" with message := message, cron := none }] }

def webOffers : List (Offer Unit) := [⟨webStatus "pull failed", 0, false⟩, ⟨webStatus "running", 5000, false⟩]

theorem web_messages {m m' : String} (h : SameStatus SameButCron (webStatus m) (webStatus m')) : m = m' := by
  obtain ⟨x, hx, hperm⟩ := h.services
  rw [List.perm_singleton.mp hperm] at hx
  cases hx with
  | cons hab _ => exact hab.message

theorem web_told : ∀ a ∈ webOffers, ∀ b ∈ webOffers, SameStatus SameButCron a.status b.status → SameStatus SameWithCron a.status b.status := by
  have hmessage : ∀ a ∈ webOffers, ∃ m, a.status = webStatus m := by
    intro a ha
    rcases List.mem_cons.mp ha with rfl | ha
    · exact ⟨_, rfl⟩
    · rw [List.mem_singleton.mp ha]
      exact ⟨_, rfl⟩
  intro a ha b hb h
  obtain ⟨m, hm⟩ := hmessage a ha
  obtain ⟨m', hm'⟩ := hmessage b hb
  rw [hm, hm'] at h ⊢
  rw [web_messages h]
  exact SameStatus.refl sameWithCron_refl _

theorem suppression_loses_nothing_web : ∃ d, (StatusWriter.after id 30000 webOffers).stored = some d ∧
    SameStatus SameWithCron d (webStatus "running") :=
  (suppression_loses_nothing id Function.injective_id 30000 webOffers web_told).2 [⟨webStatus "pull failed", 0, false⟩]
    ⟨webStatus "running", 5000, false⟩ [] rfl

/-- As built the second status, in which only the next run has moved on, is not written. -/
theorem cron_change_suppressed :
    fingerprintStatus id (nightlyStatus "02:00") = fingerprintStatus id (nightlyStatus "03:00") ∧
      (StatusWriter.after id 30000 [⟨nightlyStatus "02:00", 0, false⟩, ⟨nightlyStatus "03:00", 5000, false⟩]).stored =
        some (nightlyStatus "02:00") ∧
      ¬ SameStatus SameWithCron (nightlyStatus "02:00") (nightlyStatus "03:00") := by
  have hsame : fingerprintStatus id (nightlyStatus "02:00") = fingerprintStatus id (nightlyStatus "03:00") := by
    have hsort : ∀ a : ServiceStatus, sortServices [a] = [a] := fun a => List.mergeSort_singleton a
    unfold fingerprintStatus fpPayload nightlyStatus
    rw [hsort, hsort]
    rfl
  refine ⟨hsame, ?_, fun h => ?_⟩
  · simp [StatusWriter.after, StatusWriter.offer, StatusWriter.writeStatusMaybe, StatusWriter.wrote, decideStatusWrite, ← hsame]
  · obtain ⟨x, hx, hperm⟩ := h.services
    rw [List.perm_singleton.mp hperm] at hx
    cases hx with
    | cons hab _ => exact absurd hab.cron (by decide)

end Offers

end LaunchPad.Agent
