/-
  LaunchPad.Agent.Upstream — the upstream shards a node publishes for the edges
  (`agent-rust/src/upstream.rs` `build_upstream_shards`, `status_write.rs`
  `fingerprint_shard`, `agent-app.rs` `publish_upstream`).

  The map from edge to shard is a list in edge order without repetitions. A fingerprint
  stands for the hash of its payload. A PUT either stores the shard or fails and stores
  nothing.

  Proved:
  - `publishUpstream_true`: after a publish that succeeds, the stored shard of every edge
    of a desired web service lists the routable replicas of its services.
  - `publishUpstream_consistent`: a remembered fingerprint is that of the stored shard.
  - `publishUpstream_keeps`: only the edges of desired web services are written.
-/
import LaunchPad.Agent.Docker
import Mathlib.Data.List.Dedup

namespace LaunchPad.Agent

open Lib

/-- The edges that front a service of the document, each once, in order. -/
def edgesOf (d : DesiredState) : List String :=
  (d.services.filterMap fun c => c.ingress.map (·.edge)).dedup.mergeSort fun a b => decide (a ≤ b)

/-- Running, published on a host port, and not draining. -/
def routable (excludeIds : List String) (r : ManagedReplica) : Bool :=
  r.running && r.hostPort.isSome && !excludeIds.contains r.id

def backendOf (c : ServiceConfig) (ingress : Ingress) (r : ManagedReplica) : UpstreamBackend where
  domain := ingress.domain
  hostPort := r.hostPort.getD 0
  healthPath := c.healthCheck.map (·.path)

/-- The backends of one service at one edge. -/
def serviceBackends (edge : String) (c : ServiceConfig) (replicas : List ManagedReplica) : List UpstreamBackend :=
  match c.ingress with
  | some ingress => if ingress.edge = edge then replicas.map (backendOf c ingress) else []
  | none => []

def backendsFor (d : DesiredState) (live : Live) (excludeIds : List String) (edge : String) : List UpstreamBackend :=
  d.services.flatMap fun c => serviceBackends edge c ((replicasOf live c.key).filter (routable excludeIds))

/-- The replicas those backends stand for. -/
def replicasFor (d : DesiredState) (live : Live) (excludeIds : List String) (edge : String) : List ManagedReplica :=
  (d.services.filter fun c => c.ingress.any (·.edge == edge)).flatMap fun c =>
    (replicasOf live c.key).filter (routable excludeIds)

def buildUpstreamShards (nodeId privateIp : String) (d : DesiredState) (live : Live) (excludeIds : List String)
    (now : String) : SortedMap String UpstreamShard :=
  (edgesOf d).map fun edge => (edge, ⟨nodeId, privateIp, now, backendsFor d live excludeIds edge⟩)

/-! ## Publishing -/

structure ShardFingerprint where
  nodeId : String
  privateIp : String
  backends : List UpstreamBackend
  deriving DecidableEq, Repr

def backendLabel (b : UpstreamBackend) : String := b.domain ++ ":" ++ toString b.hostPort

/-- `fingerprint_shard`: the shard without its time, its backends sorted. -/
def fingerprintShard (s : UpstreamShard) : ShardFingerprint where
  nodeId := s.nodeId
  privateIp := s.privateIp
  backends := s.backends.mergeSort fun a b => decide (backendLabel a ≤ backendLabel b)

/-- `lastShardFps` is in memory; `stored` is what the bucket holds of this node, by edge. -/
structure Routes where
  lastShardFps : SortedMap String ShardFingerprint := []
  stored : SortedMap String UpstreamShard := []
  deriving DecidableEq, Repr

/-- What a publish meets: an error of `docker inspect`, the advertised address or the
    error of resolving it, the time, and the error of each edge's PUT. -/
structure PublishOutcome where
  inspect : Option String := none
  privateIp : Except String String
  now : String
  put : String → Option String

/-- Write-on-change per edge, up to the first PUT that fails. -/
def putShards (put : String → Option String) : SortedMap String UpstreamShard → Routes → Except String Unit × Routes
  | [], r => (.ok (), r)
  | (edge, shard) :: rest, r =>
    if SortedMap.get edge r.lastShardFps = some (fingerprintShard shard) then putShards put rest r
    else match put edge with
      | some e => (.error e, r)
      | none => putShards put rest
        { lastShardFps := SortedMap.insert edge (fingerprintShard shard) r.lastShardFps
          stored := SortedMap.insert edge shard r.stored }

def publishUpstream (nodeId : String) (d : DesiredState) (live : Live) (excludeIds : List String)
    (out : PublishOutcome) (r : Routes) : Except String Unit × Routes :=
  match out.inspect, out.privateIp with
  | some e, _ => (.error e, r)
  | none, .error e => (.error e, r)
  | none, .ok privateIp =>
    putShards out.put (buildUpstreamShards nodeId privateIp d live excludeIds out.now) r

/-- The edges whose shard a publish stored, or found stored. -/
def reachedEdges (put : String → Option String) : SortedMap String UpstreamShard → Routes → List String
  | [], _ => []
  | (edge, shard) :: rest, r =>
    if SortedMap.get edge r.lastShardFps = some (fingerprintShard shard) then edge :: reachedEdges put rest r
    else match put edge with
      | some _ => []
      | none => edge :: reachedEdges put rest
        { lastShardFps := SortedMap.insert edge (fingerprintShard shard) r.lastShardFps
          stored := SortedMap.insert edge shard r.stored }

def publishedEdges (nodeId : String) (d : DesiredState) (live : Live) (excludeIds : List String)
    (out : PublishOutcome) (r : Routes) : List String :=
  match out.inspect, out.privateIp with
  | none, .ok privateIp => reachedEdges out.put (buildUpstreamShards nodeId privateIp d live excludeIds out.now) r
  | _, _ => []

/-! ## What a publish establishes -/

theorem mem_edgesOf {d : DesiredState} {edge : String} :
    edge ∈ edgesOf d ↔ ∃ c ∈ d.services, ∃ ingress, c.ingress = some ingress ∧ ingress.edge = edge := by
  unfold edgesOf
  rw [(List.mergeSort_perm _ _).mem_iff, List.mem_dedup]
  simp only [List.mem_filterMap, Option.map_eq_some_iff]

theorem edgesOf_nodup (d : DesiredState) : (edgesOf d).Nodup :=
  ((List.mergeSort_perm _ _).nodup_iff).mpr (List.nodup_dedup _)

/-- A remembered fingerprint is that of the stored shard. -/
def Routes.Consistent (r : Routes) : Prop :=
  ∀ edge fp, SortedMap.get edge r.lastShardFps = some fp →
    ∃ shard, SortedMap.get edge r.stored = some shard ∧ fingerprintShard shard = fp

/-- What one PUT leaves. -/
theorem put_consistent {r : Routes} (h : r.Consistent) (edge : String) (shard : UpstreamShard) :
    Routes.Consistent
      { lastShardFps := SortedMap.insert edge (fingerprintShard shard) r.lastShardFps
        stored := SortedMap.insert edge shard r.stored } := by
  intro e fp he
  simp only [SortedMap.get_insert] at he ⊢
  by_cases hedge : e = edge
  · rw [if_pos hedge] at he ⊢
    cases he
    exact ⟨shard, rfl, rfl⟩
  · rw [if_neg hedge] at he ⊢
    exact h e fp he

theorem putShards_consistent (put : String → Option String) (shards : SortedMap String UpstreamShard) {r : Routes}
    (h : r.Consistent) : (putShards put shards r).2.Consistent := by
  induction shards generalizing r with
  | nil => exact h
  | cons x rest ih =>
    simp only [putShards]
    split
    · exact ih h
    · split
      · exact h
      · exact ih (put_consistent h _ _)

/-- Edges that are not in the list keep what they had. -/
theorem putShards_keeps (put : String → Option String) (shards : SortedMap String UpstreamShard) (r : Routes)
    {edge : String} (h : edge ∉ SortedMap.keys shards) :
    SortedMap.get edge (putShards put shards r).2.stored = SortedMap.get edge r.stored ∧
      SortedMap.get edge (putShards put shards r).2.lastShardFps = SortedMap.get edge r.lastShardFps := by
  induction shards generalizing r with
  | nil => exact ⟨rfl, rfl⟩
  | cons x rest ih =>
    simp only [SortedMap.keys, List.map_cons, List.mem_cons, not_or] at h
    simp only [putShards]
    split
    · exact ih r h.2
    · split
      · exact ⟨rfl, rfl⟩
      · obtain ⟨h1, h2⟩ := ih { lastShardFps := SortedMap.insert x.1 (fingerprintShard x.2) r.lastShardFps,
                                stored := SortedMap.insert x.1 x.2 r.stored } h.2
        rw [h1, h2]
        exact ⟨SortedMap.get_insert_ne h.1 _ _, SortedMap.get_insert_ne h.1 _ _⟩

/-- When every PUT that was needed succeeded, every shard of the list is remembered. -/
theorem putShards_ok {put : String → Option String} {shards : SortedMap String UpstreamShard} {r : Routes}
    (hnodup : (SortedMap.keys shards).Nodup) (hok : (putShards put shards r).1 = .ok ()) :
    ∀ edge shard, (edge, shard) ∈ shards →
      SortedMap.get edge (putShards put shards r).2.lastShardFps = some (fingerprintShard shard) := by
  induction shards generalizing r with
  | nil => intro _ _ h; cases h
  | cons x rest ih =>
    obtain ⟨edge₀, shard₀⟩ := x
    simp only [SortedMap.keys, List.map_cons, List.nodup_cons] at hnodup
    simp only [putShards] at hok ⊢
    intro edge shard hmem
    split at hok
    · rename_i hsame
      rw [if_pos hsame]
      rcases List.mem_cons.mp hmem with h | h
      · cases h
        rw [(putShards_keeps put rest r hnodup.1).2]
        exact hsame
      · exact ih hnodup.2 hok edge shard h
    · rename_i hnew
      rw [if_neg hnew]
      split at hok
      · cases hok
      · rcases List.mem_cons.mp hmem with h | h
        · cases h
          rw [(putShards_keeps put rest _ hnodup.1).2]
          exact SortedMap.get_insert_self _ _ _
        · exact ih hnodup.2 hok edge shard h

/-- A stored shard is one of the list, or was there before. -/
theorem putShards_stored (put : String → Option String) (shards : SortedMap String UpstreamShard) (r : Routes)
    {edge : String} {shard : UpstreamShard}
    (h : SortedMap.get edge (putShards put shards r).2.stored = some shard) :
    SortedMap.get edge r.stored = some shard ∨ (edge, shard) ∈ shards := by
  induction shards generalizing r with
  | nil => exact .inl h
  | cons x rest ih =>
    simp only [putShards] at h
    split at h
    · rcases ih r h with h' | h'
      · exact .inl h'
      · exact .inr (List.mem_cons_of_mem _ h')
    · split at h
      · exact .inl h
      · rcases ih _ h with h' | h'
        · simp only [SortedMap.get_insert] at h'
          split at h'
          · rename_i he
            cases h'
            exact .inr (he ▸ List.mem_cons_self ..)
          · exact .inl h'
        · exact .inr (List.mem_cons_of_mem _ h')

/-- A publish whose PUTs all succeed, succeeds. -/
theorem putShards_all_ok {put : String → Option String} (h : ∀ edge, put edge = none)
    (shards : SortedMap String UpstreamShard) (r : Routes) : (putShards put shards r).1 = .ok () := by
  induction shards generalizing r with
  | nil => rfl
  | cons x rest ih =>
    simp only [putShards, h]
    split
    · exact ih r
    · exact ih _

theorem keys_buildUpstreamShards (nodeId privateIp : String) (d : DesiredState) (live : Live)
    (excludeIds : List String) (now : String) :
    SortedMap.keys (buildUpstreamShards nodeId privateIp d live excludeIds now) = edgesOf d := by
  simp [SortedMap.keys, buildUpstreamShards, Function.comp_def]

theorem reachedEdges_subset (put : String → Option String) (shards : SortedMap String UpstreamShard) (r : Routes) :
    ∀ edge ∈ reachedEdges put shards r, edge ∈ SortedMap.keys shards := by
  induction shards generalizing r with
  | nil => intro _ h; cases h
  | cons x rest ih =>
    have hcons : ∀ r', ∀ edge ∈ x.1 :: reachedEdges put rest r', edge ∈ SortedMap.keys (x :: rest) := by
      intro r' edge h
      rcases List.mem_cons.mp h with rfl | h
      · exact List.mem_cons_self ..
      · exact List.mem_cons_of_mem _ (ih r' edge h)
    simp only [reachedEdges]
    split
    · exact hcons r
    · split
      · intro _ h; cases h
      · exact hcons _

/-- A publish that succeeds reaches every edge. -/
theorem reachedEdges_ok {put : String → Option String} {shards : SortedMap String UpstreamShard} {r : Routes}
    (hok : (putShards put shards r).1 = .ok ()) : reachedEdges put shards r = SortedMap.keys shards := by
  induction shards generalizing r with
  | nil => rfl
  | cons x rest ih =>
    simp only [putShards] at hok
    simp only [reachedEdges]
    split at hok
    · rename_i hsame
      rw [if_pos hsame, ih hok]
      rfl
    · rename_i hnew
      rw [if_neg hnew]
      split at hok
      · cases hok
      · rw [ih hok]
        rfl

section Publish

variable {nodeId : String} {d : DesiredState} {live : Live} {excludeIds : List String} {out : PublishOutcome}
  {r : Routes}

theorem publishUpstream_consistent (h : r.Consistent) :
    (publishUpstream nodeId d live excludeIds out r).2.Consistent := by
  unfold publishUpstream
  split
  · exact h
  · exact h
  · exact putShards_consistent _ _ h

theorem publishUpstream_keeps {edge : String} (h : edge ∉ edgesOf d) :
    SortedMap.get edge (publishUpstream nodeId d live excludeIds out r).2.stored = SortedMap.get edge r.stored := by
  unfold publishUpstream
  split
  · rfl
  · rfl
  · refine (putShards_keeps _ _ _ ?_).1
    rw [keys_buildUpstreamShards]
    exact h

/-- A stored shard lists what this publish found, or was there before. -/
theorem publishUpstream_stored {edge : String} {shard : UpstreamShard}
    (h : SortedMap.get edge (publishUpstream nodeId d live excludeIds out r).2.stored = some shard) :
    SortedMap.get edge r.stored = some shard ∨ shard.backends = backendsFor d live excludeIds edge := by
  unfold publishUpstream at h
  split at h
  · exact .inl h
  · exact .inl h
  · rcases putShards_stored _ _ _ h with h' | h'
    · exact .inl h'
    · obtain ⟨e, _, he⟩ := List.mem_map.mp h'
      cases he
      exact .inr rfl

theorem publishedEdges_subset : ∀ edge ∈ publishedEdges nodeId d live excludeIds out r, edge ∈ edgesOf d := by
  intro edge h
  unfold publishedEdges at h
  split at h
  · have := reachedEdges_subset _ _ _ edge h
    rwa [keys_buildUpstreamShards] at this
  · cases h

theorem publishedEdges_ok (hok : (publishUpstream nodeId d live excludeIds out r).1 = .ok ()) :
    publishedEdges nodeId d live excludeIds out r = edgesOf d := by
  unfold publishUpstream at hok
  unfold publishedEdges
  split at hok
  · cases hok
  · cases hok
  · rename_i privateIp hinspect hip
    rw [hinspect, hip]
    simp only
    rw [reachedEdges_ok hok, keys_buildUpstreamShards]

/-- Shards with one fingerprint list the same backends. -/
theorem perm_of_fingerprint {s t : UpstreamShard} (h : fingerprintShard s = fingerprintShard t) :
    s.backends.Perm t.backends := by
  have hs : (fingerprintShard s).backends.Perm s.backends := List.mergeSort_perm _ _
  have ht : (fingerprintShard t).backends.Perm t.backends := List.mergeSort_perm _ _
  rw [h] at hs
  exact hs.symm.trans ht

theorem publishUpstream_true (hr : r.Consistent)
    (hok : (publishUpstream nodeId d live excludeIds out r).1 = .ok ()) {edge : String} (h : edge ∈ edgesOf d) :
    ∃ shard, SortedMap.get edge (publishUpstream nodeId d live excludeIds out r).2.stored = some shard ∧
      shard.backends.Perm (backendsFor d live excludeIds edge) := by
  have hcons : (publishUpstream nodeId d live excludeIds out r).2.Consistent := publishUpstream_consistent hr
  unfold publishUpstream at hok hcons ⊢
  split at hok
  · cases hok
  · cases hok
  · rename_i privateIp hinspect hip
    simp only [hinspect, hip] at hcons ⊢
    have hfp := putShards_ok (by rw [keys_buildUpstreamShards]; exact edgesOf_nodup d) hok edge
      ⟨nodeId, privateIp, out.now, backendsFor d live excludeIds edge⟩
      (List.mem_map.mpr ⟨edge, h, rfl⟩)
    obtain ⟨shard, hstored, hsame⟩ := hcons edge _ hfp
    exact ⟨shard, hstored, perm_of_fingerprint hsame⟩

end Publish

end LaunchPad.Agent
