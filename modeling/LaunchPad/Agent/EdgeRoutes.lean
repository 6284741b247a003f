/-
  LaunchPad.Agent.EdgeRoutes — the routes of an edge as the union of its shards: grouped by
  domain (`edge.rs`), merged (`routes.rs`) and written into Caddy's configuration
  (`caddy.rs` `build_config`).

  As built the health path of a domain is the first that a shard publishes, be it empty.
  `edgeHealthPathForDomain` of `shared/src/edge.ts`, which this one mirrors, passes over an
  empty one.

  Proved:
  - `merge_distinct`: routes of distinct domains are merged into themselves, so the second
    pass neither loses nor doubles a backend.
  - `shardRoutes_upstreams`: a route dials what its shards list, in their order.
  - `routes_exact_iff`: the routes are the exact union, health paths included, as long as no
    domain's first published path is empty.
-/
import LaunchPad.Agent.EdgePoll

namespace LaunchPad.Agent

open Lib

/-! ## What the shards list -/

/-- Some shard lists a backend of the domain. -/
def Listed (shards : List UpstreamShard) (domain : String) : Prop := ∃ s ∈ shards, ∃ b ∈ s.backends, b.domain = domain

/-- The addresses the shards list for a domain. -/
def dialsFor (shards : List UpstreamShard) (domain : String) : List String :=
  shards.flatMap fun s => (s.backends.filter (·.domain = domain)).map fun b => dial s.privateIp b.hostPort

/-- A backend of the domain publishes that path. -/
def PublishesPath (shards : List UpstreamShard) (domain path : String) : Prop :=
  ∃ s ∈ shards, ∃ b ∈ s.backends, b.domain = domain ∧ b.healthPath = some path

/-- The routes of a configuration, all servers together. -/
def CaddyConfig.routes (c : CaddyConfig) : List CaddyRoute := c.servers.flatMap (·.2.routes)

/-- A health path as it should be: one that is published and not empty if there is one, and
    none if there is not. -/
def HealthExact (shards : List UpstreamShard) (r : WebRoute) : Prop :=
  ((∃ path, path ≠ "" ∧ PublishesPath shards r.domain path) →
    ∃ path, path ≠ "" ∧ PublishesPath shards r.domain path ∧ r.healthPath = some path) ∧
  ((¬∃ path, path ≠ "" ∧ PublishesPath shards r.domain path) → r.healthPath = none)

/-- The routes are the union of the shards. -/
structure RoutesExact (shards : List UpstreamShard) : Prop where
  once : ((routesOf shards).map (·.domain)).Nodup
  domains : ∀ domain, domain ∈ (routesOf shards).map (·.domain) ↔ Listed shards domain
  upstreams : ∀ r ∈ routesOf shards, r.upstreams.Perm (dialsFor shards r.domain)
  /-- However the shards are listed. -/
  order : ∀ shards', shards'.Perm shards → ∀ r ∈ routesOf shards, ∃ r' ∈ routesOf shards',
    r'.domain = r.domain ∧ r'.upstreams.Perm r.upstreams
  health : ∀ r ∈ routesOf shards, HealthExact shards r
  hosts : (((buildConfig (routesOf shards)).routes).map (·.host)).Nodup
  emitted : ∀ domain, domain ∈ ((buildConfig (routesOf shards)).routes).map (·.host) ↔ Listed shards domain
  dialled : ∀ c ∈ (buildConfig (routesOf shards)).routes, c.handle.upstreams.Perm (dialsFor shards c.host)

/-! ## Merging -/

section Merging

variable {routes : List WebRoute} {g : FirstSeen String WebRoute}

theorem entries_merge_distinct (hnd : (routes.map (·.domain)).Nodup) (hg : ∀ r ∈ routes, r.domain ∉ g.order) :
    (routes.foldl mergeRoute g).entries = g.entries ++ routes.map fun r => (r.domain, r) := by
  induction routes generalizing g with
  | nil => simp
  | cons r routes ih =>
    rw [List.map_cons, List.nodup_cons] at hnd
    have hnew := hg r (List.mem_cons_self ..)
    have hone : (mergeRoute g r).entries = g.entries ++ [(r.domain, r)] := FirstSeen.entries_upsert_new hnew
    rw [List.foldl_cons, ih hnd.2, hone, List.map_cons, List.append_assoc, List.singleton_append]
    intro r' hr' hmem
    rcases FirstSeen.mem_order_upsert.mp hmem with h | h
    · exact hnd.1 (h ▸ List.mem_map.mpr ⟨r', hr', rfl⟩)
    · exact hg r' (List.mem_cons_of_mem _ hr') h

/-- Routes of distinct domains stay as they are. -/
theorem merge_distinct (hnd : (routes.map (·.domain)).Nodup) : mergeRoutesByDomain routes = routes := by
  unfold mergeRoutesByDomain
  rw [entries_merge_distinct hnd (by simp [FirstSeen.empty])]
  simp [FirstSeen.entries, FirstSeen.empty, Function.comp_def]

end Merging

/-! ## The routes of a list of shards -/

section Union

variable {shards : List UpstreamShard}

/-- The backends in the order they are listed, each with its domain. -/
def listedBackends (shards : List UpstreamShard) : List (String × EdgeBackend) :=
  shards.flatMap fun s => s.backends.map fun b => (b.domain, ⟨b.domain, s.privateIp, b.hostPort⟩)

theorem buildEdgeBackends_group (shards : List UpstreamShard) :
    buildEdgeBackendsFromShards shards = (FirstSeen.group (listedBackends shards)).entries := by
  unfold buildEdgeBackendsFromShards FirstSeen.group listedBackends
  rw [List.foldl_flatMap]
  congr 2
  funext g s
  rw [List.foldl_map]
  rfl

theorem dialsFor_eq (shards : List UpstreamShard) (domain : String) :
    dialsFor shards domain =
      (((listedBackends shards).filter (·.1 = domain)).map (·.2)).map fun b => dial b.privateIp b.hostPort := by
  unfold dialsFor listedBackends
  rw [List.filter_flatMap, List.map_flatMap, List.map_flatMap]
  congr 1
  funext s
  simp only [List.filter_map, List.map_map, Function.comp_def]

theorem dialsFor_ne_nil {domain : String} : dialsFor shards domain ≠ [] ↔ Listed shards domain := by
  unfold dialsFor Listed
  simp [List.flatMap_eq_nil_iff, List.filter_eq_nil_iff]

theorem shardRoutes_nodup (shards : List UpstreamShard) : ((buildShardRoutes shards).map (·.domain)).Nodup := by
  have h := FirstSeen.group_nodup (listedBackends shards)
  rw [← buildEdgeBackends_group] at h
  unfold buildShardRoutes
  rw [List.map_map]
  exact h

theorem routesOf_eq (shards : List UpstreamShard) : routesOf shards = buildShardRoutes shards :=
  merge_distinct (shardRoutes_nodup shards)

/-- The route of a domain: every address listed for it, and its first health path. -/
theorem mem_routesOf {r : WebRoute} :
    r ∈ routesOf shards ↔
      r = ⟨r.domain, dialsFor shards r.domain, edgeHealthPathForDomain shards r.domain⟩ ∧ Listed shards r.domain := by
  rw [routesOf_eq, buildShardRoutes, List.mem_map, buildEdgeBackends_group]
  constructor
  · intro ⟨⟨domain, bs⟩, he, hr⟩
    obtain ⟨hbs, hne⟩ := FirstSeen.mem_group.mp he
    subst hbs hr
    refine ⟨by rw [dialsFor_eq], dialsFor_ne_nil.mp ?_⟩
    rw [dialsFor_eq]
    simpa using hne
  · intro ⟨hr, hlisted⟩
    have hne := dialsFor_ne_nil.mpr hlisted
    rw [dialsFor_eq] at hne
    refine ⟨(r.domain, _), FirstSeen.mem_group.mpr ⟨rfl, by simpa using hne⟩, ?_⟩
    rw [hr, dialsFor_eq]

theorem dialsFor_perm {shards' : List UpstreamShard} (h : shards'.Perm shards) (domain : String) :
    (dialsFor shards' domain).Perm (dialsFor shards domain) := h.flatMap_right _

theorem listed_perm {shards' : List UpstreamShard} (h : shards'.Perm shards) {domain : String} :
    Listed shards' domain ↔ Listed shards domain := by
  unfold Listed
  simp only [h.mem_iff]

/-- No route is dropped. -/
theorem buildConfig_routes (shards : List UpstreamShard) :
    (buildConfig (routesOf shards)).routes = (routesOf shards).map fun r => ⟨r.domain, reverseProxyHandler r⟩ := by
  have hlive : (routesOf shards).filter (fun r => !r.upstreams.isEmpty) = routesOf shards := by
    rw [List.filter_eq_self]
    intro r hr
    obtain ⟨hr, hlisted⟩ := mem_routesOf.mp hr
    have hne := dialsFor_ne_nil.mpr hlisted
    rw [hr]
    simpa using hne
  unfold buildConfig CaddyConfig.routes
  rw [hlive]
  by_cases h : (routesOf shards).isEmpty = true
  · rw [if_pos h, List.isEmpty_iff.mp h]
    rfl
  · rw [if_neg h, List.flatMap_cons, List.flatMap_nil, List.append_nil]

end Union

/-! ## Health paths -/

section Health

variable {shards : List UpstreamShard} {domain path : String}

/-- Where a backend's path is empty, another of its domain came first with a path. -/
def NoEmptyFirst (shards : List UpstreamShard) : Prop :=
  ∀ before b after, shards.flatMap (·.backends) = before ++ b :: after → b.healthPath = some "" →
    ∃ b' ∈ before, b'.domain = b.domain ∧ b'.healthPath ≠ none

/-- The path is that of the first backend of the domain that has one. -/
theorem edgeHealthPath_first :
    edgeHealthPathForDomain shards domain = some path ↔
      ∃ before b after, shards.flatMap (·.backends) = before ++ b :: after ∧ b.domain = domain ∧ b.healthPath = some path ∧
        ∀ b' ∈ before, b'.domain = domain → b'.healthPath = none := by
  unfold edgeHealthPathForDomain
  rw [List.findSome?_eq_some_iff]
  constructor
  · intro ⟨before, b, after, hsplit, hb, hbefore⟩
    by_cases hd : b.domain = domain
    · rw [if_pos hd] at hb
      exact ⟨before, b, after, hsplit, hd, hb, fun b' hb' hd' => by simpa [hd'] using hbefore b' hb'⟩
    · rw [if_neg hd] at hb
      cases hb
  · intro ⟨before, b, after, hsplit, hd, hb, hbefore⟩
    refine ⟨before, b, after, hsplit, by rw [if_pos hd, hb], fun b' hb' => ?_⟩
    by_cases hd' : b'.domain = domain
    · rw [if_pos hd', hbefore b' hb' hd']
    · rw [if_neg hd']

theorem publishes_iff : PublishesPath shards domain path ↔
    ∃ b ∈ shards.flatMap (·.backends), b.domain = domain ∧ b.healthPath = some path := by
  unfold PublishesPath
  constructor
  · intro ⟨s, hs, b, hb, h⟩
    exact ⟨b, List.mem_flatMap.mpr ⟨s, hs, hb⟩, h⟩
  · intro ⟨b, hb, h⟩
    obtain ⟨s, hs, hb⟩ := List.mem_flatMap.mp hb
    exact ⟨s, hs, b, hb, h⟩

theorem edgeHealthPath_publishes (h : edgeHealthPathForDomain shards domain = some path) : PublishesPath shards domain path := by
  obtain ⟨before, b, after, hsplit, hd, hb, _⟩ := edgeHealthPath_first.mp h
  exact publishes_iff.mpr ⟨b, hsplit ▸ List.mem_append_right _ (List.mem_cons_self ..), hd, hb⟩

theorem edgeHealthPath_none (h : edgeHealthPathForDomain shards domain = none) : ¬ PublishesPath shards domain path := by
  unfold edgeHealthPathForDomain at h
  rw [List.findSome?_eq_none_iff] at h
  intro hpub
  obtain ⟨b, hb, hd, hpath⟩ := publishes_iff.mp hpub
  have hnone := h b hb
  rw [if_pos hd, hpath] at hnone
  cases hnone

/-- A route's health path is right exactly when it is not an empty one. -/
theorem healthExact_iff {r : WebRoute} (hr : r ∈ routesOf shards) :
    HealthExact shards r ↔ edgeHealthPathForDomain shards r.domain ≠ some "" := by
  have hpath : r.healthPath = edgeHealthPathForDomain shards r.domain := congrArg WebRoute.healthPath (mem_routesOf.mp hr).1
  unfold HealthExact
  rw [hpath]
  constructor
  · intro ⟨hsome, hnone⟩ hempty
    by_cases h : ∃ path, path ≠ "" ∧ PublishesPath shards r.domain path
    · obtain ⟨path, hne, _, he⟩ := hsome h
      rw [hempty] at he
      exact hne (Option.some.inj he).symm
    · rw [hempty] at hnone
      exact absurd (hnone h) (by simp)
  · intro hne
    cases h : edgeHealthPathForDomain shards r.domain with
    | none => exact ⟨fun ⟨path, _, hpub⟩ => absurd hpub (edgeHealthPath_none h), fun _ => rfl⟩
    | some path =>
      have hpub := edgeHealthPath_publishes h
      have hpne : path ≠ "" := fun e => hne (e ▸ h)
      exact ⟨fun _ => ⟨path, hpne, hpub, rfl⟩, fun hno => absurd ⟨path, hpne, hpub⟩ hno⟩

/-- No domain's path is empty exactly when no empty path comes first. -/
theorem noEmptyFirst_iff : NoEmptyFirst shards ↔ ∀ domain, edgeHealthPathForDomain shards domain ≠ some "" := by
  constructor
  · intro h domain he
    obtain ⟨before, b, after, hsplit, hd, hb, hbefore⟩ := edgeHealthPath_first.mp he
    obtain ⟨b', hb', hd', hne⟩ := h before b after hsplit hb
    exact hne (hbefore b' hb' (hd'.trans hd))
  · intro h before b after hsplit hb
    by_contra hnot
    push Not at hnot
    exact h b.domain (edgeHealthPath_first.mpr ⟨before, b, after, hsplit, rfl, hb, hnot⟩)

end Health

/-! ## The union -/

/-- The routes are the exact union of the shards as long as no empty health path is the
    first of its domain. -/
theorem routes_exact_iff (shards : List UpstreamShard) : RoutesExact shards ↔ NoEmptyFirst shards := by
  have hdomains : ∀ domain, domain ∈ (routesOf shards).map (·.domain) ↔ Listed shards domain := by
    intro domain
    rw [List.mem_map]
    constructor
    · intro ⟨r, hr, hd⟩
      exact hd ▸ (mem_routesOf.mp hr).2
    · intro hlisted
      exact ⟨⟨domain, dialsFor shards domain, edgeHealthPathForDomain shards domain⟩, mem_routesOf.mpr ⟨rfl, hlisted⟩, rfl⟩
  have hupstreams : ∀ {shards : List UpstreamShard}, ∀ r ∈ routesOf shards, r.upstreams = dialsFor shards r.domain :=
    fun r hr => congrArg WebRoute.upstreams (mem_routesOf.mp hr).1
  rw [noEmptyFirst_iff]
  constructor
  · intro h domain he
    obtain ⟨r, hr, hd⟩ := List.mem_map.mp ((h.domains domain).mpr (by
      obtain ⟨s, hs, b, hb, hd, _⟩ := edgeHealthPath_publishes he
      exact ⟨s, hs, b, hb, hd⟩))
    exact (healthExact_iff hr).mp (h.health r hr) (hd ▸ he)
  · intro h
    have hhosts : ((buildConfig (routesOf shards)).routes).map (·.host) = (routesOf shards).map (·.domain) := by
      rw [buildConfig_routes, List.map_map]
      rfl
    refine ⟨?_, hdomains, fun r hr => hupstreams r hr ▸ .refl _, ?_,
      fun r hr => (healthExact_iff hr).mpr (h r.domain), ?_, ?_, ?_⟩
    · rw [routesOf_eq]
      exact shardRoutes_nodup shards
    · intro shards' hperm r hr
      have hlisted := (listed_perm hperm).mpr (mem_routesOf.mp hr).2
      refine ⟨⟨r.domain, dialsFor shards' r.domain, edgeHealthPathForDomain shards' r.domain⟩,
        mem_routesOf.mpr ⟨rfl, hlisted⟩, rfl, ?_⟩
      rw [hupstreams r hr]
      exact dialsFor_perm hperm r.domain
    · rw [hhosts, routesOf_eq]
      exact shardRoutes_nodup shards
    · intro domain
      rw [hhosts]
      exact hdomains domain
    · intro c hc
      rw [buildConfig_routes] at hc
      obtain ⟨r, hr, hcr⟩ := List.mem_map.mp hc
      subst hcr
      show r.upstreams.Perm (dialsFor shards r.domain)
      rw [hupstreams r hr]

/-- Two replicas of one domain, the first without a path to check. -/
def twoReplicas : List UpstreamShard := [⟨"n1", "10.0.0.1", "t", [⟨"a.com", 20001, some ""⟩, ⟨"a.com", 20002, some "/h"⟩]⟩]

/-- The route of `a.com` checks an empty path, and `/h` is published. -/
theorem empty_path_first : routesOf twoReplicas = [⟨"a.com", ["10.0.0.1:20001", "10.0.0.1:20002"], some ""⟩] ∧
    ¬ RoutesExact twoReplicas := by
  have hroute : routesOf twoReplicas = [⟨"a.com", ["10.0.0.1:20001", "10.0.0.1:20002"], some ""⟩] := by decide +kernel
  refine ⟨hroute, fun h => ?_⟩
  have hmem : (⟨"a.com", ["10.0.0.1:20001", "10.0.0.1:20002"], some ""⟩ : WebRoute) ∈ routesOf twoReplicas := by
    rw [hroute]
    exact List.mem_singleton_self _
  exact (healthExact_iff hmem).mp (h.health _ hmem) (by decide +kernel)

end LaunchPad.Agent
