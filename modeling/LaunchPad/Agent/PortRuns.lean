/-
  LaunchPad.Agent.PortRuns — the host ports over whole runs of an agent: rollouts, scaling,
  withdrawals, failed starts, crashes and reloads of the saved state.

  The rule: ports are recorded once each and in the window, a running replica publishes the
  recorded one, and a container that is removed takes its record along, so that the search
  of `allocate_port` ends while there are fewer containers than ports.

  As built, a scale-down and a drain release the record of what they remove (`apply_one`,
  `rollout_service`), the removal of a withdrawn service does not, nor do a cron run or a
  job run that clears a web service's containers away.

  Proved:
  - `ports_kept`: the rule holds in every run whose documents keep the services that have a
    port published, in which docker and the disk do as they are told, and the agent does not
    crash between the two halves of an allocation or a release.
  - `withdrawn_port_leaks`: a withdrawn service leaves its record behind.
-/
import LaunchPad.Agent.Observed
import LaunchPad.Agent.Ports
import LaunchPad.Agent.ShardTruth

namespace LaunchPad.Agent.Ports

open Lib Reconciler

/-! ## The runs -/

/-- The record a command is the second half of: a release after a removal, a run after an
    allocation. -/
def owes : Op → Option String
  | .releasePort key index => some (portKey key index)
  | .runContainer c index (some _) _ _ _ => some (portKey c.key index)
  | _ => none

/-- The agent is not between the two halves. -/
def Settled (p : Phase) : Prop := ∀ o k, p = .applying (.act o k) → owes o = none

/-- A run with a port leaves a container, started or not; a removal removes a container; the
    search for a port ends, and what it changes is saved. -/
def Obeyed : (o : Op) → Node → Resp o → Node → Prop
  | .runContainer _ _ (some _) _ _ _, w, _, w' => w'.docker ≠ w.docker
  | .removeContainer id, w, _, w' => (∃ x ∈ w.docker, hasId id x = true) ∧ ∀ x ∈ w'.docker, hasId id x = false
  | .stopContainer container _, w, _, w' =>
    (∃ x ∈ w.docker, container.picks x = true) ∧ ∀ x ∈ w'.docker, container.picks x = false
  | .allocatePort key index, w, _, w' => SearchEnds w.records.mem.ports key index ∧ w'.records.file = some w'.records.mem
  | .releasePort _ _, _, _, w' => w'.records.file = some w'.records.mem
  | _, _, _, _ => True

/-- Nobody else removes a container or the state file; every document has proper names, and
    is `ok` for the node that gets it. -/
def tending (ok : DesiredState → Node → Prop) : Observer Unit where
  start := ()
  env _ w w' _ := w'.docker.map (·.replica.id) = w.docker.map (·.replica.id) ∧ w'.records = w.records
  failed _ _ _ := True
  begin _ w i _ := (∀ c ∈ i.desired.services, Named c.project c.service) ∧ ok i.desired w
  command _ o w r w' _ := Obeyed o w r w'
  finish _ _ _ _ := True

/-- The states of the runs. -/
inductive Tended (ok : DesiredState → Node → Prop) (nodeId : String) : Phase × Node → Prop
  | fresh (clock : Int) : Tended ok nodeId (.down, .fresh clock)
  | step {p p' : Phase} {w w' : Node} : Tended ok nodeId (p, w) → Watch nodeId (tending ok) (p, w, ()) (p', w', ()) →
      (p' = .down → Settled p) → Tended ok nodeId (p', w')

/-- The document keeps every service with a published port, and as no cron service or job. -/
def KeepsWeb (d : DesiredState) (w : Node) : Prop :=
  ∀ x ∈ w.docker, x.replica.hostPort ≠ none → (∃ c ∈ d.services, c.key = x.replica.key) ∧
    ∀ c ∈ d.services, c.key = x.replica.key → c.cron = none ∧ c.jobRun = none

/-! ## The rule -/

structure PortsKept (p : Phase) (w : Node) : Prop where
  distinct : Distinct w.records.mem.ports
  stored : ∀ s, w.records.file = some s → Distinct s.ports
  published : ∀ x ∈ w.docker, x.replica.running = true → ∀ port, x.replica.hostPort = some port →
    x.replica.name = containerName x.replica.project x.replica.service x.replica.index ∧
      SortedMap.get (portKey x.replica.key x.replica.index) w.records.mem.ports = some port
  released : Settled p → ∀ e ∈ w.records.mem.ports, ∃ x ∈ w.docker,
    portKey x.replica.key x.replica.index = e.1 ∧ x.replica.hostPort = some e.2
  satisfied : Settled p → w.docker.length < hostPortCount → ∀ key index, SearchEnds w.records.mem.ports key index

theorem Leased.kept {w : Node} (h : Leased w) {p : Phase} (hsettled : Settled p → Owned none w) : PortsKept p w where
  distinct := h.distinct
  stored s hs := by
    have hsame : s.ports = w.records.mem.ports := by
      rw [← h.stored, Records.loaded, hs]
      rfl
    rw [hsame]
    exact h.distinct
  published x hx _ port hport := ⟨(h.named x hx).2, h.published x hx port hport⟩
  released hp e he := (hsettled hp).port he (by simp)
  satisfied hp hfew key index := searchEnds_of_few (Nat.lt_of_le_of_lt (hsettled hp).few hfew) key index

/-! ## Within a plan -/

/-- The state between two commands of a plan. -/
structure Tending (l : List ManagedReplica) (exc : Option String) (c : Node × Unit) : Prop where
  owned : Owned exc c.1
  listed : Recalled l c.1

/-- What a command finds. -/
def Guard (o : Op) (c : Node × Unit) : Prop := Owned (owes o) c.1

/-- Commands that leave the records alone. -/
def Plain (l : List ManagedReplica) : Op → Prop
  | .allocatePort .. | .releasePort .. | .stopContainer .. => False
  | .runContainer c _ hostPort _ _ _ => hostPort = none ∧ Named c.project c.service
  | .removeContainer id => ∃ r ∈ l, r.id = id ∧ r.hostPort = none
  | _ => True

section Plan

variable {nodeId : String} {ok : DesiredState → Node → Prop} {l : List ManagedReplica} {exc : Option String} {w w' : Node}
  {c : ServiceConfig}

theorem fixed_of_rely (hr : Rely w w') (hids : w'.docker.map (·.replica.id) = w.docker.map (·.replica.id)) :
    w'.docker.map Container.fixed = w.docker.map Container.fixed := by
  have hlen := congrArg List.length hids
  simp only [List.length_map] at hlen
  exact (rely_shuffle hr).1.sublist.eq_of_length (by simpa using hlen)

theorem tending_stable : (watcher nodeId (tending ok)).Stable (Tending l exc) := by
  rintro ⟨w, u⟩ ⟨w', u'⟩ h ⟨hr, hids, hrecords⟩
  have hfixed := fixed_of_rely hr hids
  refine ⟨?_, ?_⟩
  · exact h.owned.frame (dockerOk_rely h.owned.docker hr) (by rw [hrecords]) (.inl (by rw [hrecords])) hfixed
  · exact h.listed.frame (rely_shuffle hr).2 (origin_of_fixed hfixed)

/-- Only `allocate_port` and `release_port` move the ports. -/
theorem sem_ports {o : Op} {r : Resp o} (ho : Plain l o) (hs : sem nodeId o w r w') :
    w'.records.mem.ports = w.records.mem.ports ∧
      (w'.records.file = w.records.file ∨ w'.records.file = some w'.records.mem) := by
  have hrecord : ∀ (key : String) (fire : Int) (saved : Bool),
      (w.records.recordCronFire key fire saved).2.mem.ports = w.records.mem.ports ∧
        ((w.records.recordCronFire key fire saved).2.file = w.records.file ∨
          (w.records.recordCronFire key fire saved).2.file = some (w.records.recordCronFire key fire saved).2.mem) := by
    intro key fire saved
    cases saved with
    | false => exact ⟨rfl, .inl rfl⟩
    | true => exact ⟨rfl, .inr rfl⟩
  cases o with
  | allocatePort | releasePort | stopContainer => exact ho.elim
  | runContainer c i p b f j => obtain ⟨docker, issued, -, rfl⟩ := hs; exact ⟨rfl, .inl rfl⟩
  | pull | heartbeat | setError => cases hs; exact ⟨rfl, .inl rfl⟩
  | startContainer id => rcases hs with ⟨e, -, rfl⟩ | ⟨-, x, -, -, -, rfl⟩ <;> exact ⟨rfl, .inl rfl⟩
  | removeContainer id => rcases hs with ⟨-, rfl | rfl⟩ <;> exact ⟨rfl, .inl rfl⟩
  | refreshRouting ex =>
    simp only [sem] at hs
    split at hs
    · obtain ⟨out, -, rfl⟩ := hs; exact ⟨rfl, .inl rfl⟩
    · obtain ⟨-, rfl⟩ := hs; exact ⟨rfl, .inl rfl⟩
  | sleepMs ms => obtain ⟨t, -, rfl⟩ := hs; exact ⟨rfl, .inl rfl⟩
  | waitHealthy port hc ceiling =>
    simp only [sem] at hs
    split at hs <;> subst hs <;> exact ⟨rfl, .inl rfl⟩
  | recordCronFire key fire =>
    obtain ⟨saved, records, hr, rfl⟩ := hs
    have := hrecord key fire saved
    rwa [hr] at this
  | runBackup c fire =>
    obtain ⟨saved, records, errors, hr, -, rfl⟩ := hs
    have := hrecord (backupStateKey c.key) fire saved
    rwa [hr] at this

theorem tending_plain {o : Op} (ho : Plain l o) : (watcher nodeId (tending ok)).Keeps (Tending l none) o := by
  rintro ⟨w, u⟩ r ⟨w', u'⟩ h ⟨hs, hobeyed⟩
  dsimp only at hs hobeyed
  obtain ⟨hports, hfile⟩ := sem_ports ho hs
  have hdocker := dockerOk_sem h.owned.docker hs
  have hsame : w'.docker.map Container.fixed = w.docker.map Container.fixed → w'.issued = w.issued →
      Tending l none (w', ()) :=
    fun hfixed hissued => ⟨h.owned.frame hdocker hports hfile hfixed, h.listed.frame hissued (origin_of_fixed hfixed)⟩
  cases o with
  | allocatePort | releasePort | stopContainer => exact ho.elim
  | runContainer c i p b f j =>
    obtain ⟨rfl, hnamed⟩ := ho
    obtain ⟨docker, issued, hl, rfl⟩ := hs
    exact ⟨h.owned.launch hdocker hnamed hl rfl, h.listed.launch hl (fun _ _ => rfl) rfl rfl⟩
  | startContainer id =>
    rcases hs with ⟨e, -, rfl⟩ | ⟨-, x, -, -, -, rfl⟩
    · exact h
    · exact hsame (map_fixed _ (fun x => x.setState .running false) (fun _ => rfl) _) rfl
  | removeContainer id =>
    obtain ⟨old, hold, rfl, hport⟩ := ho
    rcases hs with ⟨-, rfl | rfl⟩
    · exact h
    · refine ⟨h.owned.shed ?_ rfl hdocker rfl, h.listed.frame rfl ?_⟩
      · intro y hy hpick
        rw [((h.listed old hold).2 y hy (beq_iff_eq.mp hpick)).2.2]
        exact hport
      · exact fun x hx => ⟨x, (List.mem_filter.mp hx).1, rfl⟩
  | _ =>
    obtain ⟨hd, hi⟩ := sem_same hs rfl
    exact hsame (by rw [hd]) hi

theorem sat_plain {α : Type} {p : Prog Resp (Except String α)} {s : Node × Unit} (hp : Uses (Plain l) p)
    (h : Tending l none s) : Sat (watcher nodeId (tending ok)) Guard
      (onResult (fun _ => Tending l none) fun _ => Tending l none) p s := by
  have hguard : ∀ o s, Plain l o → Tending l none s → Guard o s := by
    intro o s ho hs
    have hnone : owes o = none := by
      cases o with
      | releasePort => exact ho.elim
      | runContainer c i p b f j => rw [ho.1]; rfl
      | _ => rfl
    rw [Guard, hnone]
    exact hs.owned
  refine (Sat.ofUses tending_stable (fun _ => tending_plain) hguard hp h).mono (fun _ _ h => h) ?_
  rintro (e | a) s hs
  · exact hs
  · exact hs

/-! ### An allocation and its run -/

/-- After `hostPortFor`: a worker has no port, a web replica the recorded one. -/
def Allocated (l : List ManagedReplica) (c : ServiceConfig) (index : Int) : Option Int → Node × Unit → Prop
  | none, s => Tending l none s
  | some port, s => c.ingress.isSome = true ∧ Tending l (some (portKey c.key index)) s ∧
      SortedMap.get (portKey c.key index) s.1.records.mem.ports = some port

theorem allocated_stable {index : Int} (hostPort : Option Int) :
    (watcher nodeId (tending ok)).Stable (Allocated l c index hostPort) := by
  cases hostPort with
  | none => exact tending_stable
  | some port =>
    rintro s s' ⟨hweb, h, hget⟩ hr
    refine ⟨hweb, tending_stable s s' h hr, ?_⟩
    rw [hr.2.2]
    exact hget

theorem sat_hostPortFor {index : Int} {s : Node × Unit} (h : Tending l none s) :
    Sat (watcher nodeId (tending ok)) Guard (onResult (Allocated l c index) fun _ => Tending l none)
      (hostPortFor c index).run s := by
  unfold hostPortFor
  split
  · rename_i hweb
    refine Sat.act tending_stable h (fun s hs => hs.owned) ?_
    rintro ⟨w, u⟩ r ⟨w', u'⟩ hs ⟨⟨saved, hr, hw⟩, hends, hstored⟩
    dsimp only at hr hw hends hstored
    obtain ⟨howned, hget⟩ := hs.owned.allocate hends hw hstored
    have hlisted : Recalled l w' := by
      rw [hw]
      exact hs.listed.frame rfl fun x hx => ⟨x, hx, rfl⟩
    exact Sat.ret (allocated_stable (some r)) ⟨hweb, ⟨howned, hlisted⟩, hr ▸ hget⟩ fun _ h => h
  · exact Sat.ret tending_stable h fun _ h => h

/-- The run that an allocation was made for. -/
theorem sat_run {index : Int} {hostPort : Option Int} {bind : String} {s : Node × Unit} (hnamed : Named c.project c.service)
    (h : Allocated l c index hostPort s) : Sat (watcher nodeId (tending ok)) Guard
      (onResult (fun _ => Tending l none) fun _ => Tending l none)
      (runContainer c index hostPort bind none none).run s := by
  cases hostPort with
  | none => exact sat_plain ⟨⟨rfl, hnamed⟩, fun _ => trivial⟩ h
  | some port =>
    refine Sat.act (allocated_stable (some port)) h (fun s hs => hs.2.1.owned) ?_
    rintro ⟨w, u⟩ r ⟨w', u'⟩ ⟨hweb, hs, hget⟩ ⟨hsem, hleft⟩
    dsimp only at hsem hleft
    have hdocker := dockerOk_sem hs.owned.docker hsem
    obtain ⟨docker, issued, hl, hw⟩ := hsem
    have hdone : Tending l none (w', u') := by
      subst hw
      exact ⟨hs.owned.settle hdocker hnamed hweb hget hl rfl hleft, hs.listed.launch hl (fun _ _ => rfl) rfl rfl⟩
    rcases r with e | a
    · exact Sat.ret tending_stable hdone fun _ h => h
    · exact Sat.ret tending_stable hdone fun _ h => h

/-! ### A removal and its release -/

/-- The container of a record is gone. -/
def Vacated (l : List ManagedReplica) (key : String) (index : Int) (s : Node × Unit) : Prop :=
  Tending l (some (portKey key index)) s ∧ Vacant (portKey key index) s.1

theorem vacated_stable {key : String} {index : Int} : (watcher nodeId (tending ok)).Stable (Vacated l key index) := by
  rintro s s' ⟨h, hvacant⟩ hr
  refine ⟨tending_stable s s' h hr, fun x hx => ?_⟩
  obtain ⟨y, hy, hfix⟩ := origin_of_fixed (fixed_of_rely hr.1 hr.2.1) x hx
  rw [← lease_same (same_of_fixed hfix)]
  exact hvacant y hy

theorem sat_release {key : String} {index : Int} {s : Node × Unit} (h : Vacated l key index s) :
    Sat (watcher nodeId (tending ok)) Guard (onResult (fun _ => Tending l none) fun _ => Tending l none)
      (Reconciler.releasePort key index).run s := by
  refine Sat.act vacated_stable h (fun s hs => hs.1.owned) ?_
  rintro ⟨w, u⟩ r ⟨w', u'⟩ ⟨hs, hvacant⟩ ⟨⟨saved, hw⟩, hstored⟩
  dsimp only at hw hstored
  refine Sat.ret tending_stable ⟨hs.owned.release hvacant hw hstored, ?_⟩ fun _ h => h
  rw [hw]
  exact hs.listed.frame rfl fun x hx => ⟨x, hx, rfl⟩

/-- What a removal picks, and nothing else, has that record. -/
theorem Tending.drop {p : Container → Bool} {key : String} {index : Int} {u u' : Unit} (h : Tending l none (w, u))
    (hp : ∀ x ∈ w.docker, p x = true → lease x = portKey key index) (hex : ∃ x ∈ w.docker, p x = true)
    (hdocker : DockerOk w') (hw : w' = { w with docker := w.docker.filter (!p ·) }) : Vacated l key index (w', u') := by
  obtain ⟨x, hx, hpick⟩ := hex
  have hlease := hp x hx hpick
  have honly : ∀ y ∈ w.docker, p y = true ↔ lease y = lease x := by
    intro y hy
    constructor
    · exact fun hy' => (hp y hy hy').trans hlease.symm
    · intro hsame
      obtain rfl := h.owned.unique hy hx hsame
      exact hpick
  have hd : w'.docker = w.docker.filter (!p ·) := by rw [hw]
  obtain ⟨howned, hvacant⟩ := h.owned.drop honly hd hdocker (by rw [hw])
  rw [hlease] at howned hvacant
  refine ⟨⟨howned, h.listed.frame (by rw [hw]) ?_⟩, hvacant⟩
  rw [hd]
  exact fun x hx => ⟨x, (List.mem_filter.mp hx).1, rfl⟩

theorem sat_stop {container : ContainerRef} {grace : Int} (key : String) (index : Int) {s : Node × Unit}
    (hp : ∀ s : Node × Unit, Tending l none s → ∀ x ∈ s.1.docker, container.picks x = true → lease x = portKey key index)
    (h : Tending l none s) : Sat (watcher nodeId (tending ok)) Guard
      (onResult (fun _ => Vacated l key index) fun _ => Tending l none) (stopContainer container grace).run s := by
  refine Sat.act tending_stable h (fun s hs => hs.owned) ?_
  rintro ⟨w, u⟩ r ⟨w', u'⟩ hs ⟨hsem, hex, hgone⟩
  dsimp only at hsem hex hgone
  have hdocker := dockerOk_sem hs.owned.docker hsem
  obtain ⟨rfl, hw⟩ := sem_stopped hsem hgone
  exact Sat.ret vacated_stable (hs.drop (hp _ hs) hex hdocker hw) fun _ h => h

theorem sat_remove {id : String} (key : String) (index : Int) {s : Node × Unit}
    (hp : ∀ s : Node × Unit, Tending l none s → ∀ x ∈ s.1.docker, hasId id x = true → lease x = portKey key index)
    (h : Tending l none s) : Sat (watcher nodeId (tending ok)) Guard
      (onResult (fun _ => Vacated l key index) fun _ => Tending l none) (removeContainer id).run s := by
  refine Sat.act tending_stable h (fun s hs => hs.owned) ?_
  rintro ⟨w, u⟩ r ⟨w', u'⟩ hs ⟨hsem, hex, hgone⟩
  dsimp only at hsem hex hgone
  have hdocker := dockerOk_sem hs.owned.docker hsem
  obtain ⟨rfl, hw⟩ := sem_removed hsem hgone
  exact Sat.ret vacated_stable (hs.drop (hp _ hs) hex hdocker hw) fun _ h => h

theorem Tending.lease_id {s : Node × Unit} (h : Tending l exc s) {old : ManagedReplica} (hold : old ∈ l) {x : Container}
    (hx : x ∈ s.1.docker) (hid : x.replica.id = old.id) : lease x = portKey old.key old.index := by
  obtain ⟨hkey, hindex, -⟩ := (h.listed old hold).2 x hx hid
  unfold lease
  rw [hkey, hindex]

theorem Tending.lease_name {s : Node × Unit} (h : Tending l exc s) (hnamed : Named c.project c.service) {index : Int}
    {x : Container} (hx : x ∈ s.1.docker) (hname : x.replica.name = containerName c.project c.service index) :
    lease x = portKey c.key index := by
  obtain ⟨hx', hname'⟩ := h.owned.named x hx
  obtain ⟨hproject, hservice, hindex⟩ := containerName_inj hx' hnamed (hname'.symm.trans hname)
  unfold lease ManagedReplica.key ServiceConfig.key
  rw [hproject, hservice, hindex]

/-! ### The actions -/

theorem sat_abortSurge {index : Int} {draining : List String} (hnamed : Named c.project c.service) {s : Node × Unit}
    (h : Tending l none s) : Sat (watcher nodeId (tending ok)) Guard
      (onResult (fun _ => Tending l none) fun _ => Tending l none) (abortSurge c index draining).run s := by
  unfold abortSurge
  refine Sat.bindE (sat_stop c.key index ?_ h) (fun _ => tending_stable) fun _ s hs => ?_
  · exact fun s hs x hx hpick => hs.lease_name hnamed hx (beq_iff_eq.mp hpick)
  refine Sat.bindE (sat_release hs) (fun _ => tending_stable) fun _ s hs => sat_plain ?_ hs
  refine Uses.bindE ⟨trivial, fun _ => trivial⟩ fun _ => ?_
  exact uses_forWeb fun _ => ⟨trivial, fun _ => trivial⟩

theorem sat_surgeOne {st : RolloutState} (hnamed : Named c.project c.service) {s : Node × Unit} (h : Tending l none s) :
    Sat (watcher nodeId (tending ok)) Guard (onResult (fun _ => Tending l none) fun _ => Tending l none)
      (surgeOne c st).run s := by
  unfold surgeOne
  refine Sat.bindE (sat_hostPortFor h) (fun _ => tending_stable) fun hostPort s hs => ?_
  refine Sat.bindE (sat_run hnamed hs) (fun _ => tending_stable) fun _ s hs => ?_
  refine Sat.bindE (sat_plain ?_ hs) (fun _ => tending_stable) fun healthy s hs => ?_
  · unfold awaitHealthy
    split
    · exact ⟨trivial, fun _ => trivial⟩
    · trivial
  split
  · refine sat_plain ?_ hs
    refine Uses.bindE (uses_forWeb fun _ => ?_) fun _ => trivial
    exact Uses.bindE ⟨trivial, fun _ => trivial⟩ fun _ => ⟨trivial, fun _ => trivial⟩
  · refine Sat.bindE (sat_abortSurge hnamed hs) (fun _ => tending_stable) fun _ s hs => ?_
    exact Sat.ret tending_stable hs fun _ h => h

theorem sat_drainOne {st : RolloutState} {old : ManagedReplica} (hold : old ∈ l) (hkey : old.key = c.key) {s : Node × Unit}
    (h : Tending l none s) : Sat (watcher nodeId (tending ok)) Guard
      (onResult (fun _ => Tending l none) fun _ => Tending l none) (drainOne c st old).run s := by
  unfold drainOne divert
  refine Sat.bindE (sat_plain ?_ h) (fun _ => tending_stable) fun _ s hs => ?_
  · refine uses_forWeb fun _ => ?_
    refine Uses.bindE ⟨trivial, fun _ => trivial⟩ fun _ => ?_
    refine Uses.bindE ⟨trivial, fun _ => trivial⟩ fun _ => ?_
    split
    · exact ⟨trivial, fun _ => trivial⟩
    · trivial
  refine Sat.bindE (sat_stop c.key old.index ?_ hs) (fun _ => tending_stable) fun _ s hs => ?_
  · exact fun s hs x hx hpick => hkey ▸ hs.lease_id hold hx (beq_iff_eq.mp hpick)
  refine Sat.bindE (sat_release hs) (fun _ => tending_stable) fun _ s hs => ?_
  exact sat_plain ⟨trivial, fun _ => trivial⟩ hs

theorem sat_rolloutService {replicas : List ManagedReplica} (hnamed : Named c.project c.service)
    (hold : ∀ r ∈ replicas, r ∈ l ∧ r.key = c.key) {s : Node × Unit} (h : Tending l none s) :
    Sat (watcher nodeId (tending ok)) Guard (onResult (fun _ => Tending l none) fun _ => Tending l none)
      (rolloutService c replicas).run s := by
  unfold rolloutService
  refine Sat.bindE (sat_plain ⟨trivial, fun _ => trivial⟩ h) (fun _ => tending_stable) fun _ s hs => ?_
  refine Sat.bindE (R := fun _ => Tending l none) ?_ (fun _ => tending_stable) fun converged s hs => ?_
  · refine sat_rolloutLoop (I := fun st s => (∀ r ∈ st.oldQueue, r ∈ l ∧ r.key = c.key) ∧ Tending l none s)
      (fun _ => tending_stable) (fun _ => tending_stable) (fun st s _ _ h => h.2) ?_ ?_
      (fun st s s' h hr => ⟨h.1, tending_stable s s' h.2 hr⟩) _ ⟨fun r hr => hold r (List.mem_filter.mp hr).1, hs⟩
    · intro st s _ hI
      refine (sat_surgeOne hnamed hI.2).mono (fun _ _ h => h) fun r s hs => ?_
      cases r with
      | error e => exact hs
      | ok healthy => cases healthy with
        | true => exact ⟨hI.1, hs⟩
        | false => exact hs
    · intro st old rest s _ hq hI
      rw [hq] at hI
      obtain ⟨hm, hkey⟩ := hI.1 old (List.mem_cons_self ..)
      refine (sat_drainOne hm hkey hI.2).mono (fun _ _ h => h) fun r s hs => ?_
      cases r with
      | error e => exact hs
      | ok u => exact ⟨fun r hr => hI.1 r (List.mem_cons_of_mem _ hr), hs⟩
  · split
    · exact sat_plain (uses_forWeb fun _ => ⟨trivial, fun _ => trivial⟩) hs
    · exact Sat.ret tending_stable hs fun _ h => h

theorem sat_scaleDown {retired : List ManagedReplica} (hold : ∀ r ∈ retired, r ∈ l ∧ r.key = c.key) {s : Node × Unit}
    (h : Tending l none s) : Sat (watcher nodeId (tending ok)) Guard
      (onResult (fun _ => Tending l none) fun _ => Tending l none) (applyOne (.scaleDown c retired)).run s := by
  refine Sat.forM tending_stable (fun _ => tending_stable) retired _ (fun r hr s hs => ?_) h
  obtain ⟨hm, hkey⟩ := hold r hr
  refine Sat.bindE (sat_remove c.key r.index ?_ hs) (fun _ => tending_stable) fun _ s hs => sat_release hs
  exact fun s hs x hx hpick => hkey ▸ hs.lease_id hm hx (beq_iff_eq.mp hpick)

/-- The replicas an action removes without a release. -/
def cleared : Action → List ManagedReplica
  | .remove _ replicas | .cronRun _ _ replicas | .jobRun _ replicas => replicas
  | _ => []

/-- An action of a plan over those replicas. -/
structure Tame (l : List ManagedReplica) (a : Action) : Prop where
  replicas : ∀ r ∈ a.replicas, r ∈ l
  config : ∀ c, a.config = some c → Named c.project c.service ∧ ∀ r ∈ a.replicas, r.key = c.key
  cleared : ∀ r ∈ cleared a, r.hostPort = none

theorem sat_applyOne {a : Action} (ha : Tame l a) {s : Node × Unit} (h : Tending l none s) :
    Sat (watcher nodeId (tending ok)) Guard (onResult (fun _ => Tending l none) fun _ => Tending l none)
      (applyOne a).run s := by
  cases a with
  | noop c => exact sat_plain trivial h
  | remove key replicas =>
    refine sat_plain ((uses_applyOne _).mono ?_) h
    rintro o ⟨r, hr, rfl⟩
    exact ⟨r, ha.replicas r hr, rfl, ha.cleared r hr⟩
  | scaleDown c retired => exact sat_scaleDown (fun r hr => ⟨ha.replicas r hr, (ha.config c rfl).2 r hr⟩) h
  | start c index id =>
    refine sat_plain ((uses_applyOne _).mono ?_) h
    rintro o rfl
    trivial
  | create c index =>
    refine Sat.bindE (sat_plain ⟨trivial, fun _ => trivial⟩ h) (fun _ => tending_stable) fun _ s hs => ?_
    refine Sat.bindE (sat_hostPortFor hs) (fun _ => tending_stable) fun hostPort s hs => ?_
    exact sat_run (ha.config c rfl).1 hs
  | rollout c replicas =>
    exact sat_rolloutService (ha.config c rfl).1 (fun r hr => ⟨ha.replicas r hr, (ha.config c rfl).2 r hr⟩) h
  | cronRun c fireMs previous =>
    refine sat_plain ((uses_applyOne _).mono ?_) h
    rintro o (rfl | ⟨r, hr, rfl⟩ | rfl | rfl)
    · trivial
    · exact ⟨r, ha.replicas r hr, rfl, ha.cleared r hr⟩
    · trivial
    · exact ⟨rfl, (ha.config c rfl).1⟩
  | jobRun c previous =>
    refine sat_plain ((uses_applyOne _).mono ?_) h
    rintro o (rfl | ⟨r, hr, rfl⟩ | ⟨req, -, rfl⟩)
    · trivial
    · exact ⟨r, ha.replicas r hr, rfl, ha.cleared r hr⟩
    · exact ⟨rfl, (ha.config c rfl).1⟩
  | cronSkip c fireMs =>
    refine sat_plain ((uses_applyOne _).mono ?_) h
    rintro o rfl
    trivial
  | backupRun c fireMs =>
    refine sat_plain ((uses_applyOne _).mono ?_) h
    rintro o rfl
    trivial

theorem sat_applyActions {actions : List Action} (ha : ∀ a ∈ actions, Tame l a) {s : Node × Unit} (h : Tending l none s) :
    Sat (watcher nodeId (tending ok)) Guard (onResult (fun _ => Tending l none) fun _ => Tending l none)
      (applyActions actions).run s := by
  refine Sat.forM tending_stable (fun _ => tending_stable) actions _ (fun a hm s hs => ?_) h
  refine Sat.tryCatch (sat_applyOne (ha a hm) hs) (fun _ => tending_stable) fun e s hs => ?_
  split
  · exact sat_plain ⟨trivial, fun _ => trivial⟩ hs
  · exact Sat.ret tending_stable hs fun _ h => h

/-! ### The plan -/

theorem cleared_sub (a : Action) : ∀ r ∈ cleared a, r ∈ a.replicas := by
  intro r hr
  cases a with
  | remove | cronRun | jobRun => exact hr
  | _ => cases hr

/-- A long-running service has everything released. -/
theorem planWorker_cleared {have_ : List ManagedReplica} {key : String} {cron : Option CronPlanContext} {a : Action}
    (h : a ∈ planWorker c have_ key cron) : cleared a = [] := by
  rcases mem_planWorker h with ⟨rfl, -⟩ | ⟨r, -, rfl, -⟩ | ⟨i, rfl, -⟩ | ⟨rfl, -⟩ | ⟨fire, rfl⟩ | rfl <;> rfl

theorem plan_tame {i : TickInput} (hnamed : ∀ c ∈ i.desired.services, Named c.project c.service)
    (hkeeps : KeepsWeb i.desired w) : ∀ a ∈ w.plan i, Tame (w.docker.map (·.replica)) a := by
  intro a ha
  rcases mem_planReconcile.mp ha with ⟨c, hc, hplan⟩ | ⟨key, replicas, hgroup, hno, rfl⟩
  · have hlive : ∀ r ∈ a.replicas, (∃ x ∈ w.docker, x.replica = r) ∧ r.key = c.key := by
      intro r hr
      obtain ⟨hx, -, hkey⟩ := mem_replicasOf.mp ((planService_replicas hplan).1 r hr)
      exact ⟨hx, hkey⟩
    refine ⟨fun r hr => List.mem_map.mpr (hlive r hr).1, ?_, ?_⟩
    · intro c' hc'
      rcases planService_config hplan with hconfig | ⟨rs, rfl⟩
      · rw [hc'] at hconfig
        cases hconfig
        exact ⟨hnamed c hc, fun r hr => (hlive r hr).2⟩
      · cases hc'
    · intro r hr
      by_contra hport
      obtain ⟨⟨x, hx, rfl⟩, hkey⟩ := hlive r (cleared_sub a r hr)
      obtain ⟨hcron, hjob⟩ := (hkeeps x hx hport).2 c hc hkey.symm
      simp only [planService, hcron, hjob, Option.isSome_none, Bool.false_eq_true, if_false] at hplan
      rw [planWorker_cleared hplan] at hr
      cases hr
  · have hlive : ∀ r ∈ replicas, (∃ x ∈ w.docker, x.replica = r) ∧ r.key = key := by
      intro r hr
      rw [group_eq hgroup] at hr
      obtain ⟨hx, -, hkey⟩ := mem_replicasOf.mp hr
      exact ⟨hx, hkey⟩
    refine ⟨fun r hr => List.mem_map.mpr (hlive r hr).1, fun c hc => (by cases hc), fun r hr => ?_⟩
    by_contra hport
    obtain ⟨⟨x, hx, rfl⟩, hkey⟩ := hlive r hr
    obtain ⟨c, hc, hsame⟩ := (hkeeps x hx hport).1
    exact hno c hc (hsame.trans hkey)

end Plan

/-! ## Over all runs -/

section Runs

variable {nodeId : String} {p p' : Phase} {w w' : Node}

/-- Where a run stands. -/
def Held (nodeId : String) (p : Phase) (w : Node) : Prop :=
  Watching nodeId (tending KeepsWeb) (fun s => Owned none s.1) (fun s => Owned none s.1) Guard (p, w, ())

theorem Held.owned (h : Held nodeId p w) : ∃ exc, Owned exc w ∧ (Settled p → exc = none) := by
  cases p with
  | down => exact ⟨none, h, fun _ => rfl⟩
  | idle => exact ⟨none, h, fun _ => rfl⟩
  | applying q =>
    have hq : Sat (watcher nodeId (tending KeepsWeb)) Guard (fun _ s => Owned none s.1) q (w, ()) := h
    cases q with
    | ret res => exact ⟨none, hq.atRet, fun _ => rfl⟩
    | act o k => exact ⟨owes o, hq.atAct, fun hsettled => hsettled o k rfl⟩

theorem owned_boot (h : Owned none w) : Owned none w.boot :=
  h.frame (h.docker.congr rfl rfl) h.stored (.inl rfl) rfl

theorem owned_failing (h : Owned none w) (hf : Failing w w') : Owned none w' := by
  cases hf with
  | noDesired => exact h.frame (h.docker.congr rfl rfl) rfl (.inl rfl) rfl
  | noLogin d => exact h.frame (h.docker.congr rfl rfl) rfl (.inl rfl) rfl
  | noInspect d => exact h.frame (h.docker.congr rfl rfl) rfl (.inl rfl) rfl

/-- The bookkeeping of a tick moves fires only. -/
theorem seed_ports (r : Records) (d : DesiredState) (live : Live) (now : String → Int) (saved : Bool) :
    (r.seed d live now saved).mem.ports = r.mem.ports ∧
      ((r.seed d live now saved).file = r.file ∨ (r.seed d live now saved).file = some (r.seed d live now saved).mem) := by
  unfold Records.seed
  simp only
  split
  · exact ⟨rfl, .inl rfl⟩
  · cases saved with
    | false => exact ⟨rfl, .inl rfl⟩
    | true => exact ⟨rfl, .inr rfl⟩

theorem owned_began (h : Owned none w) (i : TickInput) : Owned none (w.began i) := by
  obtain ⟨hports, hfile⟩ := seed_ports w.records i.desired w.liveNow i.now i.saved
  exact h.frame (h.docker.congr rfl rfl) hports hfile rfl

theorem owned_finish {r : Except String Unit} (h : Owned none w) (hs : sem nodeId (.refreshRouting []) w r w') :
    Owned none w' := by
  have hplain : Plain [] (.refreshRouting []) := trivial
  obtain ⟨hports, hfile⟩ := sem_ports hplain hs
  exact h.frame (dockerOk_sem h.docker hs) hports hfile (by rw [(sem_same hs rfl).1])

/-- The step lemma: a crash leaves no half of an allocation or a release. -/
theorem held_step (h : Held nodeId p w) (hs : Watch nodeId (tending KeepsWeb) (p, w, ()) (p', w', ()))
    (hcut : p' = .down → Settled p) : Held nodeId p' w' := by
  cases hs with
  | boot w g => exact owned_boot h
  | crash p w g =>
    obtain ⟨exc, howned, hexc⟩ := h.owned
    rw [hexc (hcut rfl)] at howned
    exact howned
  | env p c c' hr =>
    have hstable : Owned none w → Owned none w' := fun howned =>
      howned.frame (dockerOk_rely howned.docker hr.1) (by rw [hr.2.2]) (.inl (by rw [hr.2.2])) (fixed_of_rely hr.1 hr.2.1)
    cases p with
    | down => exact hstable h
    | idle => exact hstable h
    | applying q => exact Sat.drift h (Relation.ReflTransGen.single hr)
  | failed w w' g g' hf hg => exact owned_failing h hf
  | begin w g i g' ht hg =>
    have howned : Owned none w := h
    have hbegan := owned_began howned i
    have hlisted : Recalled (w.docker.map (·.replica)) (w.began i) :=
      recalled_live hbegan.docker fun r hr => List.mem_map.mp hr
    refine (sat_applyActions (plan_tame hg.1 hg.2) ⟨hbegan, hlisted⟩).mono (fun _ _ h => h) ?_
    rintro (e | a) s hs
    · exact hs.owned
    · exact hs.owned
  | command o k c r c' hs => exact Sat.step h (.act hs)
  | finish res w g r w' g' hs hg =>
    have hq : Sat (watcher nodeId (tending KeepsWeb)) Guard (fun _ s => Owned none s.1) (.ret res) (w, ()) := h
    exact owned_finish hq.atRet hs

/-- The run lemma. -/
theorem held_run {c : Phase × Node} (h : Tended KeepsWeb nodeId c) : Held nodeId c.1 c.2 := by
  induction h with
  | fresh clock =>
    refine ⟨⟨dockerOk_fresh clock, ?_, ⟨List.nodup_nil, List.nodup_nil, ?_⟩, rfl, ?_⟩, ?_⟩
    all_goals exact fun x hx => by cases hx
  | step _ hs hcut ih => exact held_step ih hs hcut

/-- The ports over every run that keeps the services they are published for. -/
theorem ports_kept (h : Tended KeepsWeb nodeId (p, w)) : PortsKept p w := by
  obtain ⟨exc, howned, hexc⟩ := (held_run h).owned
  refine howned.toLeased.kept fun hsettled => ?_
  rw [← hexc hsettled]
  exact howned

end Runs

/-! ## A service is deployed and withdrawn -/

section Withdrawn

variable {ok : DesiredState → Node → Prop} {nodeId : String}

/-- A run goes on along the commands of its plan. -/
theorem Tended.runs {p q : Prog Resp (Except String Unit)} {s s' : Node × Unit}
    (hr : Runs (watcher nodeId (tending ok)) p s q s') (h : Tended ok nodeId (.applying p, s.1)) :
    Tended ok nodeId (.applying q, s'.1) := by
  induction hr with
  | refl => exact h
  | act hs _ ih => exact ih (.step h (.command _ _ _ _ _ hs) fun he => by cases he)

theorem named_web {d : DesiredState} (h : d.services = [] ∨ d.services = [webService none]) :
    ∀ c ∈ d.services, Named c.project c.service := by
  intro c hc
  rcases h with h | h
  · rw [h] at hc; cases hc
  · rw [h] at hc
    obtain rfl := List.mem_singleton.mp hc
    exact ⟨⟨by decide, by decide⟩, by decide⟩

/-- The first deploy of the web service on a fresh node. -/
theorem web_tended (hok : ok (docOf [webService none]) (Node.fresh 0).boot) : Tended ok "node-1" (.idle, webPublished none) := by
  have hboot : Tended ok "node-1" (.idle, (Node.fresh 0).boot) := .step (.fresh 0) (.boot _ _) fun he => by cases he
  have hplan : (Node.fresh 0).boot.plan (tickAt (docOf [webService none]) 0) = [.create (webService none) 0] := rfl
  have hbegin : (tending ok).begin () (Node.fresh 0).boot (tickAt (docOf [webService none]) 0) () :=
    ⟨named_web (.inr rfl), hok⟩
  have hb := Tended.step hboot (.begin _ () (tickAt (docOf [webService none]) 0) () (tickAt_timed _ _) hbegin)
    fun he => by cases he
  rw [hplan] at hb
  have hpull : (watcher "node-1" (tending ok)).sem (.pull "web:1")
      ((Node.fresh 0).boot.began (tickAt (docOf [webService none]) 0), ()) (.ok ())
      ((Node.fresh 0).boot.began (tickAt (docOf [webService none]) 0), ()) := ⟨rfl, trivial⟩
  have hport : (watcher "node-1" (tending ok)).sem (.allocatePort (webService none).key 0)
      ((Node.fresh 0).boot.began (tickAt (docOf [webService none]) 0), ()) webPort
      (((Node.fresh 0).boot.began (tickAt (docOf [webService none]) 0)).withPorts
        (allocatePort [] (webService none).key 0).2 true, ()) := by
    refine ⟨⟨true, rfl, rfl⟩, searchEnds_of_few ?_ _ _, rfl⟩
    exact Nat.succ_pos _
  have hrun : (watcher "node-1" (tending ok)).sem
      (.runContainer (webService none) 0 (some webPort) (bindHost (webService none)) none none)
      (((Node.fresh 0).boot.began (tickAt (docOf [webService none]) 0)).withPorts
        (allocatePort [] (webService none).key 0).2 true, ()) (.ok ()) (webStarted none, ()) := by
    refine ⟨⟨_, _, ?_, rfl⟩, fun he => by cases he⟩
    exact .running "a" (fun h => by cases h) (fun x hx => by cases hx) (fun x hx => by cases hx)
  have hdone : Tended ok "node-1" (.applying (.ret (.ok ())), webStarted none) :=
    hb.runs (Runs.act hpull (Runs.act hport (Runs.act hrun (.refl _ _))))
  exact .step hdone (.finish _ _ () (.ok ()) _ () (refresh_succeeds rfl rfl rfl fun _ => rfl) trivial) fun he => by cases he

theorem ports_kept_web : PortsKept .idle (webPublished none) :=
  ports_kept (web_tended fun x hx => by cases hx)

/-- A withdrawn service leaves its record behind. -/
theorem withdrawn_port_leaks :
    ¬ ∀ (nodeId : String) (p : Phase) (w : Node), Tended (fun _ _ => True) nodeId (p, w) → PortsKept p w := by
  intro h
  have hbegin : (tending fun _ _ => True).begin () (webPublished none) (tickAt (docOf []) 0) () :=
    ⟨named_web (.inl rfl), trivial⟩
  have hb := Tended.step (web_tended trivial) (.begin _ () (tickAt (docOf []) 0) () (tickAt_timed _ _) hbegin)
    fun he => by cases he
  rw [webPublished_plan] at hb
  have hremove : (watcher "node-1" (tending fun _ _ => True)).sem (.removeContainer "a")
      ((webPublished none).began (tickAt (docOf []) 0), ()) (.ok ()) (webWithdrawn, ()) := by
    refine ⟨⟨rfl, .inr rfl⟩, ⟨webContainer, List.mem_cons_self .., by decide⟩, fun x hx => ?_⟩
    cases hx
  have hdone : Tended (fun _ _ => True) "node-1" (.applying (.ret (.ok ())), webWithdrawn) :=
    hb.runs (Runs.act hremove (.refl _ _))
  have hsettled : Settled (.applying (.ret (.ok ()))) := fun o k he => by cases he
  have hentry : ((webService none).key ++ "#0", webPort) ∈ webWithdrawn.records.mem.ports := List.mem_cons_self ..
  obtain ⟨x, hx, -⟩ := (h "node-1" _ _ hdone).released hsettled _ hentry
  cases hx

end Withdrawn

end LaunchPad.Agent.Ports
