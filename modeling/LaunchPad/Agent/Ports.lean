/-
  LaunchPad.Agent.Ports — the host ports an agent records (`state.rs` `allocate_port`,
  `release_port`) beside the containers that publish them.

  A record is kept under the service's key and the replica's index, which also make the
  container's name. `Leased` says what holds of records and containers at every moment;
  `Owned` that every record has its container, but for the one an action is about.

  Proved:
  - `allocatePort_spec`: the recorded port, or one of the window that no record has.
  - `searchEnds_of_few`: with fewer records than ports the search of `allocate_port` ends.
  - `Leased.unique`: one container for each key and index.
  - `Owned.allocate` and `Owned.settle`, `Owned.drop` and `Owned.release`: a record is made
    for a container that comes, and goes after the container has gone.
  - `Owned.few`: there are no more records than containers.
-/
import LaunchPad.Agent.Volumes
import LaunchPad.Shared.Keys
import LaunchPad.Lib.Decimal
import LaunchPad.Lib.Probe

namespace LaunchPad.Agent.Ports

open Lib Lib.Probe

/-! ## The allocator -/

/-- A host port of the window. -/
abbrev InWindow (port : Int) : Prop := Within hostPortMin hostPortCount port

/-- The search of `allocate_port` ends: a port is recorded, or one of the window is free. -/
def SearchEnds (ports : SortedMap String Int) (key : String) (index : Int) : Prop :=
  SortedMap.get (portKey key index) ports ≠ none ∨ ∃ port, InWindow port ∧ port ∉ ports.map (·.2)

theorem probePort_eq (used : List Int) (fuel : Nat) (port : Int) :
    probePort used fuel port = probe used.contains (cyclic hostPortMin hostPortCount) fuel port := by
  induction fuel generalizing port with
  | zero => rfl
  | succ fuel ih =>
    unfold probePort probe
    rw [ih]
    rfl

theorem probePort_free {used : List Int} {start : Int} (hstart : InWindow start) (hfree : ∃ port, InWindow port ∧ port ∉ used) :
    InWindow (probePort used hostPortCount start) ∧ probePort used hostPortCount start ∉ used := by
  obtain ⟨port, hport, hout⟩ := hfree
  obtain ⟨k, hk, hreach⟩ := cyclic_reaches hstart hport
  rw [probePort_eq]
  constructor
  · obtain ⟨k, _, he⟩ := @probe_orbit Int used.contains (cyclic hostPortMin hostPortCount) hostPortCount start
    rw [he]
    exact within_iterate hstart k
  · have hno : used.contains ((cyclic hostPortMin hostPortCount)^[k] start) = false := by
      rw [hreach]
      simpa using hout
    simpa using probe_free (Nat.le_of_lt hk) hno

/-- The recorded port; or one of the window that no record has, and is recorded now. -/
theorem allocatePort_spec {ports : SortedMap String Int} {key : String} {index : Int} (h : SearchEnds ports key index) :
    (∃ port, SortedMap.get (portKey key index) ports = some port ∧ allocatePort ports key index = (port, ports)) ∨
    ∃ port, SortedMap.get (portKey key index) ports = none ∧ InWindow port ∧ port ∉ ports.map (·.2) ∧
      allocatePort ports key index = (port, SortedMap.insert (portKey key index) port ports) := by
  unfold allocatePort
  cases hget : SortedMap.get (portKey key index) ports with
  | some port => exact .inl ⟨port, rfl, rfl⟩
  | none =>
    have hfree := h.resolve_left fun hne => hne hget
    have hstart : InWindow (hostPortMin + (portHash (portKey key index) : Int) % hostPortCount) := by
      have hpos : (hostPortCount : Int) ≠ 0 := by decide
      have hlow := Int.emod_nonneg (portHash (portKey key index) : Int) hpos
      have hhigh := Int.emod_lt_of_pos (portHash (portKey key index) : Int) (show (0 : Int) < hostPortCount by decide)
      unfold InWindow Within
      omega
    obtain ⟨hwindow, hnew⟩ := probePort_free hstart hfree
    exact .inr ⟨_, rfl, hwindow, hnew, rfl⟩

theorem searchEnds_of_few {ports : SortedMap String Int} (h : ports.length < hostPortCount) (key : String) (index : Int) :
    SearchEnds ports key index := by
  rw [← List.length_map (·.2)] at h
  exact .inr (exists_free h)

/-! ## The records -/

/-- Each key and each port once, and every port in the window. -/
structure Distinct (ports : SortedMap String Int) : Prop where
  keys : (ports.map (·.1)).Nodup
  values : (ports.map (·.2)).Nodup
  window : ∀ e ∈ ports, InWindow e.2

theorem Distinct.allocate {ports : SortedMap String Int} {key : String} {index : Int} (h : Distinct ports)
    (hends : SearchEnds ports key index) : Distinct (allocatePort ports key index).2 := by
  obtain ⟨port, -, he⟩ | ⟨port, hnone, hwindow, hnew, he⟩ := allocatePort_spec hends
  · rw [he]
    exact h
  · rw [he]
    have hperm := SortedMap.perm_insert hnone port
    have hkey : portKey key index ∉ ports.map (·.1) := by
      intro hmem
      obtain ⟨e, he, hk⟩ := List.mem_map.mp hmem
      have := SortedMap.get_of_mem h.keys (show (portKey key index, e.2) ∈ ports from hk ▸ he)
      rw [hnone] at this
      cases this
    refine ⟨?_, ?_, fun e he => ?_⟩
    · rw [(hperm.map (·.1)).nodup_iff]
      exact List.nodup_cons.mpr ⟨hkey, h.keys⟩
    · rw [(hperm.map (·.2)).nodup_iff]
      exact List.nodup_cons.mpr ⟨hnew, h.values⟩
    · rcases List.mem_cons.mp (hperm.mem_iff.mp he) with rfl | he
      · exact hwindow
      · exact h.window e he

theorem Distinct.release {ports : SortedMap String Int} (h : Distinct ports) (key : String) (index : Int) :
    Distinct (releasePort ports key index) := by
  have hsub : (releasePort ports key index).Sublist ports := List.filter_sublist
  exact ⟨h.keys.sublist (hsub.map _), h.values.sublist (hsub.map _), fun e he => h.window e (hsub.subset he)⟩

/-! ## Keys and names -/

theorem portKey_inj {k k' : String} {i i' : Int} (h : portKey k i = portKey k' i') : k = k' ∧ i = i' := by
  have hhash : ∀ n : Int, '#' ∉ (toString n).toList := Decimal.not_mem_repr (by decide) (by decide)
  have hl := congrArg String.toList h
  have hmark : ("#" : String).toList = ['#'] := rfl
  simp only [portKey, String.toList_append, hmark, List.append_assoc, List.singleton_append] at hl
  obtain ⟨hkey, hindex⟩ := last_segment_inj (hhash i) (hhash i') hl
  exact ⟨String.toList_injective hkey, Decimal.repr_injective (String.toList_injective hindex)⟩

/-- A service whose names tell its containers and its records from those of others. -/
structure Named (project service : String) : Prop where
  project : LabelShaped project ∧ '/' ∉ project.toList
  service : LabelShaped service

theorem serviceKey_inj {p s p' s' : String} (hp : '/' ∉ p.toList) (hp' : '/' ∉ p'.toList)
    (h : serviceKey p s = serviceKey p' s') : p = p' ∧ s = s' := by
  have hl := congrArg String.toList h
  have hmark : ("/" : String).toList = ['/'] := rfl
  simp only [serviceKey, String.toList_append, hmark, List.append_assoc, List.singleton_append] at hl
  obtain rfl : p = p' := String.toList_injective (segment_inj hp hp' hl)
  exact ⟨rfl, String.toList_injective (List.cons.inj (List.append_cancel_left hl)).2⟩

theorem containerName_inj {p s p' s' : String} {i i' : Int} (hn : Named p s) (hn' : Named p' s')
    (h : containerName p s i = containerName p' s' i') : p = p' ∧ s = s' ∧ i = i' := by
  have hl := congrArg String.toList h
  have hmark : ("_" : String).toList = ['_'] := rfl
  simp only [containerName, String.toList_append, hmark, List.append_assoc, List.singleton_append] at hl
  obtain ⟨hp, hrest⟩ := append_sep_inj hn.project.1 hn'.project.1 (List.append_cancel_left hl)
  obtain ⟨hs, hindex⟩ := append_sep_inj hn.service hn'.service hrest
  exact ⟨String.toList_injective hp, String.toList_injective hs, Decimal.repr_injective (String.toList_injective hindex)⟩

/-! ## Records and containers -/

/-- The record a container's port is kept under. -/
def lease (x : Container) : String := portKey x.replica.key x.replica.index

/-- Records and containers: a container that has a port has it by its record. -/
structure Leased (w : Node) : Prop where
  docker : DockerOk w
  named : ∀ x ∈ w.docker, Named x.replica.project x.replica.service ∧
    x.replica.name = containerName x.replica.project x.replica.service x.replica.index
  distinct : Distinct w.records.mem.ports
  stored : w.records.loaded.mem.ports = w.records.mem.ports
  published : ∀ x ∈ w.docker, ∀ port, x.replica.hostPort = some port →
    SortedMap.get (lease x) w.records.mem.ports = some port

/-- And every record, but for `exc`, is that of a container with a port. -/
structure Owned (exc : Option String) (w : Node) : Prop extends Leased w where
  owner : ∀ e ∈ w.records.mem.ports, some e.1 ≠ exc → ∃ x ∈ w.docker, lease x = e.1 ∧ x.replica.hostPort ≠ none

/-- No container has that record. -/
def Vacant (key : String) (w : Node) : Prop := ∀ x ∈ w.docker, lease x ≠ key

theorem lease_same {x y : Container} (h : SameReplica x y) : lease y = lease x := by
  unfold lease
  rw [h.key, h.index]

section Containers

variable {w w' : Node} {exc : Option String} {l : List ManagedReplica} {x y : Container}

theorem Leased.unique (h : Leased w) (hx : x ∈ w.docker) (hy : y ∈ w.docker) (he : lease x = lease y) : x = y := by
  obtain ⟨hkey, hindex⟩ := portKey_inj he
  obtain ⟨hnx, hname⟩ := h.named x hx
  obtain ⟨hny, hname'⟩ := h.named y hy
  obtain ⟨hproject, hservice⟩ := serviceKey_inj hnx.project.2 hny.project.2 hkey
  refine List.inj_on_of_nodup_map h.docker.names hx hy ?_
  rw [hname, hname', hproject, hservice, hindex]

/-- The ports stay, and every container is one of before. -/
theorem Leased.frame (h : Leased w) (hdocker : DockerOk w') (hports : w'.records.mem.ports = w.records.mem.ports)
    (hfile : w'.records.file = w.records.file ∨ w'.records.file = some w'.records.mem)
    (horigin : ∀ x ∈ w'.docker, ∃ y ∈ w.docker, y.fixed = x.fixed) : Leased w' where
  docker := hdocker
  named x hx := by
    obtain ⟨y, hy, hfix⟩ := horigin x hx
    have ha := same_of_fixed hfix
    have := h.named y hy
    rwa [ha.project, ha.service, ha.name, ha.index] at this
  distinct := by rw [hports]; exact h.distinct
  stored := by
    rcases hfile with hfile | hfile
    · rw [hports]
      exact (congrArg LocalState.ports (by unfold Records.loaded; rw [hfile])).trans h.stored
    · exact congrArg LocalState.ports (by unfold Records.loaded; rw [hfile]; rfl)
  published x hx := by
    obtain ⟨y, hy, hfix⟩ := horigin x hx
    have ha := same_of_fixed hfix
    have := h.published y hy
    rwa [lease_same ha, ha.hostPort, ← hports] at this

/-- The ports and the containers stay. -/
theorem Owned.frame (h : Owned exc w) (hdocker : DockerOk w') (hports : w'.records.mem.ports = w.records.mem.ports)
    (hfile : w'.records.file = w.records.file ∨ w'.records.file = some w'.records.mem)
    (hfixed : w'.docker.map Container.fixed = w.docker.map Container.fixed) : Owned exc w' where
  toLeased := h.toLeased.frame hdocker hports hfile fun x hx => by
    have hm : x.fixed ∈ w.docker.map Container.fixed := hfixed ▸ List.mem_map.mpr ⟨x, hx, rfl⟩
    exact List.mem_map.mp hm
  owner e he hexc := by
    rw [hports] at he
    obtain ⟨y, hy, hlease, hport⟩ := h.owner e he hexc
    have hm : y.fixed ∈ w'.docker.map Container.fixed := hfixed ▸ List.mem_map.mpr ⟨y, hy, rfl⟩
    obtain ⟨x, hx, hfix⟩ := List.mem_map.mp hm
    have ha := same_of_fixed hfix
    exact ⟨x, hx, (lease_same ha).trans hlease, by rwa [ha.hostPort]⟩

theorem Owned.port (h : Owned exc w) {e : String × Int} (he : e ∈ w.records.mem.ports) (hexc : some e.1 ≠ exc) :
    ∃ x ∈ w.docker, lease x = e.1 ∧ x.replica.hostPort = some e.2 := by
  obtain ⟨x, hx, hlease, hport⟩ := h.owner e he hexc
  obtain ⟨port, hport⟩ := Option.ne_none_iff_exists'.mp hport
  have hget := h.published x hx port hport
  rw [hlease, SortedMap.get_of_mem h.distinct.keys he] at hget
  cases hget
  exact ⟨x, hx, hlease, hport⟩

/-- There are no more records than containers. -/
theorem Owned.few (h : Owned none w) : w.records.mem.ports.length ≤ w.docker.length := by
  have hsub : w.records.mem.ports.map (·.1) ⊆ w.docker.map lease := by
    intro key hkey
    obtain ⟨e, he, rfl⟩ := List.mem_map.mp hkey
    obtain ⟨x, hx, hlease, -⟩ := h.owner e he (by simp)
    exact List.mem_map.mpr ⟨x, hx, hlease⟩
  have hle := (List.Nodup.subperm h.distinct.keys hsub).length_le
  rwa [List.length_map, List.length_map] at hle

end Containers

/-! ## What commands do -/

section Commands

variable {w w' : Node} {exc : Option String} {l : List ManagedReplica} {c : ServiceConfig} {index : Int}
  {hostPort fire : Option Int} {job : Option String} {r : Except String Unit} {docker : List Container} {issued : List String}

/-- A container that is launched with a port has it by its record. -/
theorem Leased.launch (h : Leased w) (hdocker : DockerOk w') (hnamed : Named c.project c.service)
    (hport : ∀ port, hostPort = some port → SortedMap.get (portKey c.key index) w.records.mem.ports = some port)
    (hl : Launch w.docker w.issued (launched c index hostPort fire job) r w'.docker issued)
    (hrecords : w'.records = w.records) : Leased w' where
  docker := hdocker
  named x hx := by
    rcases mem_launch hl hx with hm | ⟨id, s, -, rfl⟩
    · exact h.named x hm
    · exact ⟨hnamed, rfl⟩
  distinct := by rw [hrecords]; exact h.distinct
  stored := by rw [hrecords]; exact h.stored
  published x hx port hx' := by
    rw [hrecords]
    rcases mem_launch hl hx with hm | ⟨id, s, -, rfl⟩
    · exact h.published x hm port hx'
    · simp only [launched] at hx'
      split at hx'
      · exact hport port hx'
      · cases hx'

/-- A launch without a port. -/
theorem Owned.launch (h : Owned exc w) (hdocker : DockerOk w') (hnamed : Named c.project c.service)
    (hl : Launch w.docker w.issued (launched c index none fire job) r w'.docker issued)
    (hrecords : w'.records = w.records) : Owned exc w' where
  toLeased := h.toLeased.launch hdocker hnamed (fun _ he => by cases he) hl hrecords
  owner e he hexc := by
    rw [hrecords] at he
    obtain ⟨x, hx, hsame⟩ := h.owner e he hexc
    refine ⟨x, ?_, hsame⟩
    rcases launch_cases hl with hd | ⟨id, s, hd⟩ <;> rw [hd]
    · exact hx
    · exact List.mem_append_left _ hx

/-- A launch with the port that waits for it, and that leaves a container. -/
theorem Owned.settle (h : Owned (some (portKey c.key index)) w) (hdocker : DockerOk w') (hnamed : Named c.project c.service)
    (hweb : c.ingress.isSome = true) {port : Int}
    (hport : SortedMap.get (portKey c.key index) w.records.mem.ports = some port)
    (hl : Launch w.docker w.issued (launched c index (some port) none job) r w'.docker issued)
    (hrecords : w'.records = w.records) (hleft : w'.docker ≠ w.docker) : Owned none w' where
  toLeased := by
    refine h.toLeased.launch hdocker hnamed ?_ hl hrecords
    intro port' he
    cases he
    exact hport
  owner e he _ := by
    rw [hrecords] at he
    obtain ⟨id, s, hd⟩ := (launch_cases hl).resolve_left hleft
    rw [hd]
    by_cases hkey : e.1 = portKey c.key index
    · refine ⟨_, List.mem_append_right _ (List.mem_singleton.mpr rfl), hkey.symm, ?_⟩
      simp [launched, hweb]
    · obtain ⟨x, hx, hsame⟩ := h.owner e he fun he' => hkey (Option.some.inj he')
      exact ⟨x, List.mem_append_left _ hx, hsame⟩

/-- A port is allocated and stored. -/
theorem Owned.allocate {key : String} (h : Owned none w) (hends : SearchEnds w.records.mem.ports key index) {saved : Bool}
    (hw : w' = w.withPorts (allocatePort w.records.mem.ports key index).2 saved)
    (hstored : w'.records.file = some w'.records.mem) : Owned (some (portKey key index)) w' ∧
      SortedMap.get (portKey key index) w'.records.mem.ports = some (allocatePort w.records.mem.ports key index).1 := by
  have hports : w'.records.mem.ports = (allocatePort w.records.mem.ports key index).2 := by
    rw [hw]
    cases saved <;> rfl
  have hd : w'.docker = w.docker := by rw [hw]; rfl
  have hi : w'.issued = w.issued := by rw [hw]; rfl
  have hdistinct := h.distinct.allocate hends
  have hloaded : w'.records.loaded.mem.ports = w'.records.mem.ports := by
    unfold Records.loaded
    rw [hstored]
    rfl
  obtain ⟨port, hget, he⟩ | ⟨port, hnone, -, -, he⟩ := allocatePort_spec hends
  · rw [he] at hports hdistinct ⊢
    refine ⟨⟨⟨h.docker.congr hd hi, ?_, hports ▸ hdistinct, hloaded, ?_⟩, ?_⟩, by rw [hports]; exact hget⟩
    · rw [hd]; exact h.named
    · rw [hd, hports]; exact h.published
    · rw [hd, hports]
      exact fun e he _ => h.owner e he (by simp)
  · rw [he] at hports hdistinct ⊢
    refine ⟨⟨⟨h.docker.congr hd hi, ?_, hports ▸ hdistinct, hloaded, ?_⟩, ?_⟩, ?_⟩
    · rw [hd]; exact h.named
    · rw [hd, hports]
      intro x hx p hp
      have hold := h.published x hx p hp
      have hne : lease x ≠ portKey key index := by
        intro hkey
        rw [hkey, hnone] at hold
        cases hold
      rwa [SortedMap.get_insert_ne hne]
    · rw [hd, hports]
      intro e he hexc
      rcases SortedMap.mem_insert he with rfl | he
      · exact absurd rfl hexc
      · exact h.owner e he (by simp)
    · rw [hports, SortedMap.get_insert_self]

/-- The record of no container is released. -/
theorem Owned.release {key : String} (h : Owned (some (portKey key index)) w) (hvacant : Vacant (portKey key index) w)
    {saved : Bool} (hw : w' = w.withPorts (releasePort w.records.mem.ports key index) saved)
    (hstored : w'.records.file = some w'.records.mem) : Owned none w' := by
  have hports : w'.records.mem.ports = releasePort w.records.mem.ports key index := by
    rw [hw]
    cases saved <;> rfl
  have hd : w'.docker = w.docker := by rw [hw]; rfl
  have hi : w'.issued = w.issued := by rw [hw]; rfl
  have hloaded : w'.records.loaded.mem.ports = w'.records.mem.ports := by
    unfold Records.loaded
    rw [hstored]
    rfl
  refine ⟨⟨h.docker.congr hd hi, ?_, hports ▸ h.distinct.release key index, hloaded, ?_⟩, ?_⟩
  · rw [hd]; exact h.named
  · rw [hd, hports]
    intro x hx port hport
    rw [releasePort, SortedMap.get_erase, if_neg (hvacant x hx)]
    exact h.published x hx port hport
  · rw [hd, hports]
    intro e he _
    obtain ⟨he, hkey⟩ := List.mem_filter.mp he
    refine h.owner e he fun he' => ?_
    exact (of_decide_eq_true hkey) (Option.some.inj he')

/-- The container of a record is removed. -/
theorem Owned.drop (h : Owned none w) {x : Container} {p : Container → Bool}
    (hp : ∀ y ∈ w.docker, p y = true ↔ lease y = lease x) (hd : w'.docker = w.docker.filter (!p ·))
    (hdocker : DockerOk w') (hrecords : w'.records = w.records) : Owned (some (lease x)) w' ∧ Vacant (lease x) w' := by
  refine ⟨⟨h.toLeased.frame hdocker (by rw [hrecords]) (.inl (by rw [hrecords])) ?_, ?_⟩, ?_⟩
  · rw [hd]
    exact fun y hy => ⟨y, (List.mem_filter.mp hy).1, rfl⟩
  · rw [hrecords]
    intro e he hexc
    obtain ⟨y, hy, hlease, hport⟩ := h.owner e he (by simp)
    refine ⟨y, ?_, hlease, hport⟩
    have hkeep : p y = false := by
      rw [← Bool.not_eq_true, hp y hy, hlease]
      exact fun heq => hexc (congrArg some heq)
    rw [hd]
    exact List.mem_filter.mpr ⟨hy, by rw [hkeep]; rfl⟩
  · rw [Vacant, hd]
    intro y hy hkey
    obtain ⟨hy, hkeep⟩ := List.mem_filter.mp hy
    rw [(hp y hy).mpr hkey] at hkeep
    cases hkeep

/-- Containers without a port are removed. -/
theorem Owned.shed (h : Owned exc w) {p : Container → Bool} (hp : ∀ y ∈ w.docker, p y = true → y.replica.hostPort = none)
    (hd : w'.docker = w.docker.filter (!p ·)) (hdocker : DockerOk w') (hrecords : w'.records = w.records) : Owned exc w' where
  toLeased := by
    refine h.toLeased.frame hdocker (by rw [hrecords]) (.inl (by rw [hrecords])) ?_
    rw [hd]
    exact fun y hy => ⟨y, (List.mem_filter.mp hy).1, rfl⟩
  owner e he hexc := by
    rw [hrecords] at he
    obtain ⟨y, hy, hlease, hport⟩ := h.owner e he hexc
    refine ⟨y, ?_, hlease, hport⟩
    have hkeep : p y = false := by
      rw [← Bool.not_eq_true]
      exact fun hpick => hport (hp y hy hpick)
    rw [hd]
    exact List.mem_filter.mpr ⟨hy, by rw [hkeep]; rfl⟩

end Commands

end LaunchPad.Agent.Ports
