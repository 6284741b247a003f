/-
  LaunchPad.Agent.Routes — what an edge routes: the shards under its upstream directory
  (`agent-rust/src/s3.rs` `list_upstream_shards`), grouped by domain (`edge.rs`) and made
  into Caddy routes (`routes.rs`).

  A listing is fetched afresh: the listing cache answers with the same shards as long as
  no key and no ETag moved.

  Proved:
  - `mem_edgeRoute`, `mem_edgeRoutes`: for each domain an edge dials exactly the backends
    its shards list.
  - `dial_address`: a dial string names one address.
  - `listUpstreamShards_congr`: a listing depends on the edge's own upstream directory only.
-/
import LaunchPad.Shared.Registry
import LaunchPad.Lib.Decimal
import LaunchPad.Lib.FirstSeen

namespace LaunchPad.Agent

open Lib

/-! ## The shards (`s3.rs`) -/

/-- The `.json` keys under the edge's upstream directory. -/
def upstreamKeys (b : Bucket) (clusterId edgeId : String) : List String :=
  (SortedMap.keys b).filter fun k => hasPrefix (edgeUpstreamPrefix clusterId edgeId) k && hasSuffix ".json" k

/-- `fetch_shards`: a key that is gone is skipped, a body that does not parse is an error. -/
def fetchShards (b : Bucket) : List String → Option (List UpstreamShard)
  | [] => some []
  | key :: keys =>
    match SortedMap.get key b with
    | none => fetchShards b keys
    | some obj => do
      let shard ← parseUpstreamShard obj
      let shards ← fetchShards b keys
      return shard :: shards

def listUpstreamShards (b : Bucket) (clusterId edgeId : String) : Option (List UpstreamShard) :=
  fetchShards b (upstreamKeys b clusterId edgeId)

/-! ## Grouping by domain (`edge.rs`) -/

/-- One upstream target: an app replica reachable over the VPC. -/
structure EdgeBackend where
  domain : String
  privateIp : String
  hostPort : Int
  deriving DecidableEq, Repr

def addBackend (shard : UpstreamShard) (g : FirstSeen String (List EdgeBackend)) (b : UpstreamBackend) :
    FirstSeen String (List EdgeBackend) :=
  g.upsert b.domain fun l => l.getD [] ++ [⟨b.domain, shard.privateIp, b.hostPort⟩]

def buildEdgeBackendsFromShards (shards : List UpstreamShard) : List (String × List EdgeBackend) :=
  (shards.foldl (fun g s => s.backends.foldl (addBackend s) g) FirstSeen.empty).entries

/-- The first health path published for the domain. -/
def edgeHealthPathForDomain (shards : List UpstreamShard) (domain : String) : Option String :=
  (shards.flatMap (·.backends)).findSome? fun b => if b.domain = domain then b.healthPath else none

/-! ## Routes (`routes.rs`) -/

structure WebRoute where
  domain : String
  upstreams : List String
  healthPath : Option String
  deriving DecidableEq, Repr

/-- `{private_ip}:{host_port}`. -/
def dial (ip : String) (port : Int) : String := ip ++ ":" ++ toString port

def buildShardRoutes (shards : List UpstreamShard) : List WebRoute :=
  (buildEdgeBackendsFromShards shards).map fun e =>
    { domain := e.1
      upstreams := e.2.map fun b => dial b.privateIp b.hostPort
      healthPath := edgeHealthPathForDomain shards e.1 }

def mergeRoute (g : FirstSeen String WebRoute) (route : WebRoute) : FirstSeen String WebRoute :=
  g.upsert route.domain fun
    | none => route
    | some existing =>
      { existing with
        upstreams := existing.upstreams ++ route.upstreams
        healthPath := existing.healthPath.or route.healthPath }

def mergeRoutesByDomain (routes : List WebRoute) : List WebRoute :=
  ((routes.foldl mergeRoute FirstSeen.empty).entries).map (·.2)

/-- The routes an edge programs into Caddy (`agent-edge.rs` `tick_inner`); none when a
    shard does not parse. -/
def edgeRoutes (b : Bucket) (clusterId edgeId : String) : Option (List WebRoute) :=
  (listUpstreamShards b clusterId edgeId).map fun shards => mergeRoutesByDomain (buildShardRoutes shards)

/-! ## What an edge dials -/

theorem hasAt_addBackend {shard : UpstreamShard} {g : FirstSeen String (List EdgeBackend)} {b : UpstreamBackend}
    {k : String} {x : EdgeBackend} :
    FirstSeen.HasAt id (addBackend shard g b) k x ↔
      FirstSeen.HasAt id g k x ∨ k = b.domain ∧ x = ⟨b.domain, shard.privateIp, b.hostPort⟩ := by
  unfold addBackend
  rw [FirstSeen.hasAt_upsert fun o => by cases o <;> rfl, List.mem_singleton]

theorem hasAt_shard {shard : UpstreamShard} (bs : List UpstreamBackend) {g : FirstSeen String (List EdgeBackend)}
    {k : String} {x : EdgeBackend} :
    FirstSeen.HasAt id (bs.foldl (addBackend shard) g) k x ↔
      FirstSeen.HasAt id g k x ∨ ∃ b ∈ bs, k = b.domain ∧ x = ⟨b.domain, shard.privateIp, b.hostPort⟩ := by
  induction bs generalizing g with
  | nil => simp
  | cons b bs ih => rw [List.foldl_cons, ih, hasAt_addBackend]; simp [or_assoc]

theorem hasAt_shards (shards : List UpstreamShard) {g : FirstSeen String (List EdgeBackend)} {k : String} {x : EdgeBackend} :
    FirstSeen.HasAt id (shards.foldl (fun g s => s.backends.foldl (addBackend s) g) g) k x ↔
      FirstSeen.HasAt id g k x ∨
        ∃ s ∈ shards, ∃ b ∈ s.backends, k = b.domain ∧ x = ⟨b.domain, s.privateIp, b.hostPort⟩ := by
  induction shards generalizing g with
  | nil => simp
  | cons s shards ih => rw [List.foldl_cons, ih, hasAt_shard]; simp [or_assoc]

/-- Which backends a domain's route has. -/
theorem mem_shardRoutes {shards : List UpstreamShard} {domain u : String} :
    (∃ r ∈ buildShardRoutes shards, r.domain = domain ∧ u ∈ r.upstreams) ↔
      ∃ s ∈ shards, ∃ b ∈ s.backends, b.domain = domain ∧ u = dial s.privateIp b.hostPort := by
  have key : ∀ x, (∃ e ∈ buildEdgeBackendsFromShards shards, e.1 = domain ∧ x ∈ e.2) ↔
      ∃ s ∈ shards, ∃ b ∈ s.backends, domain = b.domain ∧ x = ⟨b.domain, s.privateIp, b.hostPort⟩ := by
    intro x
    have h := hasAt_shards shards (g := FirstSeen.empty) (k := domain) (x := x)
    rw [FirstSeen.hasAt_iff] at h
    simpa [buildEdgeBackendsFromShards] using h
  constructor
  · intro ⟨r, hr, hdomain, hu⟩
    obtain ⟨e, he, rfl⟩ := List.mem_map.mp hr
    obtain ⟨x, hx, rfl⟩ := List.mem_map.mp hu
    obtain ⟨s, hs, b, hb, hb', rfl⟩ := (key x).mp ⟨e, he, hdomain, hx⟩
    exact ⟨s, hs, b, hb, hb'.symm, rfl⟩
  · intro ⟨s, hs, b, hb, hdomain, hu⟩
    obtain ⟨e, he, he', hx⟩ := (key _).mpr ⟨s, hs, b, hb, hdomain.symm, rfl⟩
    exact ⟨_, List.mem_map.mpr ⟨e, he, rfl⟩, he', List.mem_map.mpr ⟨_, hx, hu.symm⟩⟩

theorem hasAt_mergeRoute {g : FirstSeen String WebRoute} {r : WebRoute} {k u : String} :
    FirstSeen.HasAt WebRoute.upstreams (mergeRoute g r) k u ↔
      FirstSeen.HasAt WebRoute.upstreams g k u ∨ k = r.domain ∧ u ∈ r.upstreams := by
  unfold mergeRoute
  rw [FirstSeen.hasAt_upsert fun o => by cases o <;> rfl]

theorem hasAt_merged (routes : List WebRoute) {g : FirstSeen String WebRoute} {k u : String} :
    FirstSeen.HasAt WebRoute.upstreams (routes.foldl mergeRoute g) k u ↔
      FirstSeen.HasAt WebRoute.upstreams g k u ∨ ∃ r ∈ routes, k = r.domain ∧ u ∈ r.upstreams := by
  induction routes generalizing g with
  | nil => simp
  | cons r routes ih => rw [List.foldl_cons, ih, hasAt_mergeRoute]; simp [or_assoc]

/-- A merged route is kept under its own domain. -/
theorem merged_domain (routes : List WebRoute) {g : FirstSeen String WebRoute}
    (hg : ∀ k r, SortedMap.get k g.byKey = some r → r.domain = k) :
    ∀ k r, SortedMap.get k (routes.foldl mergeRoute g).byKey = some r → r.domain = k := by
  induction routes generalizing g with
  | nil => exact hg
  | cons route routes ih =>
    rw [List.foldl_cons]
    refine ih fun k r hr => ?_
    unfold mergeRoute at hr
    rw [FirstSeen.get_upsert] at hr
    split at hr
    · rename_i hk
      cases ho : SortedMap.get route.domain g.byKey with
      | none =>
        rw [ho] at hr
        cases hr
        exact hk.symm
      | some existing =>
        rw [ho] at hr
        cases hr
        exact (hg _ _ ho).trans hk.symm
    · exact hg k r hr

/-- Merging unions the upstreams of each domain. -/
theorem mem_mergeRoutesByDomain {routes : List WebRoute} {domain u : String} :
    (∃ r ∈ mergeRoutesByDomain routes, r.domain = domain ∧ u ∈ r.upstreams) ↔
      ∃ r ∈ routes, r.domain = domain ∧ u ∈ r.upstreams := by
  have h := hasAt_merged routes (g := FirstSeen.empty) (k := domain) (u := u)
  rw [FirstSeen.hasAt_iff] at h
  have hdomain := merged_domain routes (g := FirstSeen.empty) fun k r hr => (by cases hr)
  constructor
  · intro ⟨r, hr, hr', hu⟩
    obtain ⟨⟨k, r⟩, he, rfl⟩ := List.mem_map.mp hr
    have hk := hdomain k r (FirstSeen.mem_entries.mp he)
    obtain ⟨r', hmem, hd, hu⟩ := (h.mp ⟨_, he, hk.symm.trans hr', hu⟩).resolve_left (FirstSeen.hasAt_empty _ _ _)
    exact ⟨r', hmem, hd.symm, hu⟩
  · intro ⟨r, hr, hr', hu⟩
    obtain ⟨⟨k, r⟩, he, hk, hu⟩ := h.mpr (.inr ⟨r, hr, hr'.symm, hu⟩)
    exact ⟨r, List.mem_map.mpr ⟨_, he, rfl⟩, (hdomain k r (FirstSeen.mem_entries.mp he)).trans hk, hu⟩

/-- An edge's route of a domain dials the backends that its shards list for it. -/
theorem mem_edgeRoute {shards : List UpstreamShard} {domain u : String} :
    (∃ r ∈ mergeRoutesByDomain (buildShardRoutes shards), r.domain = domain ∧ u ∈ r.upstreams) ↔
      ∃ s ∈ shards, ∃ b ∈ s.backends, b.domain = domain ∧ u = dial s.privateIp b.hostPort := by
  rw [mem_mergeRoutesByDomain, mem_shardRoutes]

theorem mem_edgeRoutes {shards : List UpstreamShard} {u : String} :
    (∃ r ∈ mergeRoutesByDomain (buildShardRoutes shards), u ∈ r.upstreams) ↔
      ∃ s ∈ shards, ∃ b ∈ s.backends, u = dial s.privateIp b.hostPort := by
  constructor
  · intro ⟨r, hr, hu⟩
    obtain ⟨s, hs, b, hb, _, he⟩ := mem_edgeRoute.mp ⟨r, hr, rfl, hu⟩
    exact ⟨s, hs, b, hb, he⟩
  · intro ⟨s, hs, b, hb, he⟩
    obtain ⟨r, hr, _, hu⟩ := mem_edgeRoute.mpr ⟨s, hs, b, hb, rfl, he⟩
    exact ⟨r, hr, hu⟩

/-- A dial string names one address: what stands before its last colon. -/
theorem dial_address {ip ip' : String} {port port' : Int} (h : dial ip port = dial ip' port') : ip = ip' := by
  have hcolon : ∀ port : Int, ':' ∉ (toString port).toList := Decimal.not_mem_repr (by decide) (by decide)
  have hl := congrArg String.toList h
  have hmark : (":" : String).toList = [':'] := rfl
  simp only [dial, String.toList_append, hmark, List.append_assoc, List.singleton_append] at hl
  exact String.toList_injective (last_segment_inj (hcolon port) (hcolon port') hl).1

/-! ## What a listing depends on -/

/-- The part of the bucket under a key prefix. -/
def under (p : String) (b : Bucket) : Bucket := SortedMap.filterKeys (hasPrefix p) b

theorem get_under {p key : String} (b : Bucket) (h : hasPrefix p key = true) :
    SortedMap.get key (under p b) = SortedMap.get key b := by
  unfold under
  rw [SortedMap.get_filterKeys, if_pos h]

theorem upstreamKeys_under (b : Bucket) (clusterId edgeId : String) :
    upstreamKeys (under (edgeUpstreamPrefix clusterId edgeId) b) clusterId edgeId = upstreamKeys b clusterId edgeId := by
  simp only [upstreamKeys, under, SortedMap.keys, SortedMap.filterKeys, List.filter_map, List.filter_filter]
  congr 1
  apply List.filter_congr
  intro e _
  cases h : hasPrefix (edgeUpstreamPrefix clusterId edgeId) e.1 <;> simp [h]

theorem fetchShards_congr {b b' : Bucket} {keys : List String}
    (h : ∀ key ∈ keys, SortedMap.get key b = SortedMap.get key b') : fetchShards b keys = fetchShards b' keys := by
  induction keys with
  | nil => rfl
  | cons key keys ih =>
    simp only [fetchShards]
    rw [h key (List.mem_cons_self ..), ih fun k hk => h k (List.mem_cons_of_mem _ hk)]

theorem listUpstreamShards_under (b : Bucket) (clusterId edgeId : String) :
    listUpstreamShards (under (edgeUpstreamPrefix clusterId edgeId) b) clusterId edgeId =
      listUpstreamShards b clusterId edgeId := by
  unfold listUpstreamShards
  rw [upstreamKeys_under]
  apply fetchShards_congr
  intro key hk
  have hp := (List.mem_filter.mp hk).2
  rw [Bool.and_eq_true] at hp
  exact get_under b hp.1

/-- A listing reads the edge's upstream directory only. -/
theorem listUpstreamShards_congr {b b' : Bucket} {clusterId edgeId : String}
    (h : under (edgeUpstreamPrefix clusterId edgeId) b = under (edgeUpstreamPrefix clusterId edgeId) b') :
    listUpstreamShards b clusterId edgeId = listUpstreamShards b' clusterId edgeId := by
  rw [← listUpstreamShards_under b, h, listUpstreamShards_under]

end LaunchPad.Agent
