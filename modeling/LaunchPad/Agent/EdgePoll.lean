/-
  LaunchPad.Agent.EdgePoll — the polls of an edge (`bin/agent-edge.rs` `tick_inner`): the
  shards under its upstream directory are listed page by page and, unless the listing's
  fingerprint is the cached one, fetched one by one (`s3.rs` `list_upstream_shards`,
  `fetch_shards`); the routes they give are pushed to Caddy when it does not hold them
  (`caddy.rs` `apply_caddy`).

  One step is one request of the edge, answered or failed, or one thing another does: an
  app node writes or deletes its shard, Caddy restarts with some configuration, the agent
  restarts. A page starts after the last key of the page before it and holds one key or
  more; the rest of a listing is on later pages. The tag of a body (ETag), SHA-256 and the
  text of a configuration are parameters.

  Proved:
  - `edgeInv`: in every reachable state what the cache holds for a key is the key's body, as
    long as the key still has the body that was listed.
  - `edge_routes_coherent`: a poll that no write meets and nothing fails in leaves Caddy
    with the configuration of the shards in the bucket, whatever happened before it.
-/
import LaunchPad.Agent.Routes
import LaunchPad.Agent.Status
import Mathlib.Data.List.Sort
import Mathlib.Logic.Relation

namespace LaunchPad.Agent

open Lib

/-! ## The listing's fingerprint (`s3.rs`) -/

/-- Keys and tags, sorted by key: one `key@tag` a line. -/
def listingText (listed : List (String × String)) : String :=
  "\n".intercalate ((listed.insertionSort fun a b => a.1 ≤ b.1).map fun e => e.1 ++ "@" ++ e.2)

def listFingerprint (sha256 : String → String) (listed : List (String × String)) : String := sha256 (listingText listed)

/-- Items without a separator are told apart in their joined text. -/
theorem intercalate_inj {sep : Char} {l m : List (List Char)} (hl : ∀ x ∈ l, sep ∉ x ∧ x ≠ []) (hm : ∀ x ∈ m, sep ∉ x ∧ x ≠ [])
    (h : [sep].intercalate l = [sep].intercalate m) : l = m := by
  have hback : ∀ {k : List (List Char)}, (∀ x ∈ k, sep ∉ x ∧ x ≠ []) → k ≠ [] → ([sep].intercalate k).splitOn sep = k :=
    fun hk hne => List.splitOn_intercalate sep (fun x hx => (hk x hx).1) hne
  have hempty : ∀ {k : List (List Char)}, (∀ x ∈ k, sep ∉ x ∧ x ≠ []) → [sep].intercalate k = [] → k = [] := by
    intro k hk hnil
    by_contra hne
    have hone := hback hk hne
    rw [hnil, List.splitOn_nil] at hone
    exact (hk [] (by rw [← hone]; exact List.mem_singleton_self _)).2 rfl
  by_cases hlnil : l = []
  · rw [hlnil] at h ⊢
    exact (hempty hm h.symm).symm
  · by_cases hmnil : m = []
    · rw [hmnil] at h ⊢
      exact hempty hl h
    · rw [← hback hl hlnil, ← hback hm hmnil, h]

/-- A key and a tag of a listing that its text keeps apart. -/
def PlainEntry (e : String × String) : Prop := '\n' ∉ e.1.toList ∧ '\n' ∉ e.2.toList ∧ '@' ∉ e.2.toList

theorem entry_inj {a b : String × String} (ha : PlainEntry a) (hb : PlainEntry b)
    (h : a.1 ++ "@" ++ a.2 = b.1 ++ "@" ++ b.2) : a = b := by
  have hl := congrArg String.toList h
  have hat : ("@" : String).toList = ['@'] := rfl
  simp only [String.toList_append, hat, List.append_assoc, List.singleton_append] at hl
  obtain ⟨hkey, htag⟩ := last_segment_inj ha.2.2 hb.2.2 hl
  exact Prod.ext (String.toList_injective hkey) (String.toList_injective htag)

/-- Listings in key order are told apart by their texts. -/
theorem listingText_inj {a b : List (String × String)} (ha : ∀ e ∈ a, PlainEntry e) (hb : ∀ e ∈ b, PlainEntry e)
    (hsa : a.Pairwise fun x y => x.1 < y.1) (hsb : b.Pairwise fun x y => x.1 < y.1) (h : listingText a = listingText b) :
    a = b := by
  have hsort : ∀ {l : List (String × String)}, l.Pairwise (fun x y => x.1 < y.1) →
      l.insertionSort (fun x y => x.1 ≤ y.1) = l := by
    intro l hl
    exact List.Pairwise.insertionSort_eq (hl.imp fun hlt => le_of_lt hlt)
  have hitem : ∀ {l : List (String × String)}, (∀ e ∈ l, PlainEntry e) →
      ∀ x ∈ l.map (fun e => (e.1 ++ "@" ++ e.2).toList), '\n' ∉ x ∧ x ≠ [] := by
    intro l hl x hx
    obtain ⟨e, he, rfl⟩ := List.mem_map.mp hx
    obtain ⟨hkey, htag, -⟩ := hl e he
    have hat : '\n' ∉ ("@" : String).toList := by decide
    rw [String.toList_append, String.toList_append]
    constructor
    · simp only [List.mem_append, not_or]
      exact ⟨⟨hkey, hat⟩, htag⟩
    · simp
  have htext := congrArg String.toList h
  have hnewline : ("\n" : String).toList = ['\n'] := rfl
  simp only [listingText, String.toList_intercalate, hsort hsa, hsort hsb, hnewline, List.map_map] at htext
  have hitems := intercalate_inj (hitem ha) (hitem hb) htext
  clear htext h hsa hsb hitem
  induction a generalizing b with
  | nil =>
    cases b with
    | nil => rfl
    | cons y b => cases hitems
  | cons x a ih =>
    cases b with
    | nil => cases hitems
    | cons y b =>
      rw [List.map_cons, List.map_cons, List.cons.injEq] at hitems
      rw [entry_inj (ha x (List.mem_cons_self ..)) (hb y (List.mem_cons_self ..)) (String.toList_injective hitems.1),
        ih (fun e he => ha e (List.mem_cons_of_mem _ he)) (fun e he => hb e (List.mem_cons_of_mem _ he)) hitems.2]

/-! ## Caddy's configuration (`caddy.rs`) -/

structure PassiveChecks where
  failDuration : String := "10s"
  maxFails : Nat := 1
  unhealthyStatus : List Nat := [500, 502, 503, 504]
  deriving DecidableEq, Repr

structure ActiveChecks where
  uri : String
  interval : String := "5s"
  timeout : String := "2s"
  expectStatus : Nat := 2
  deriving DecidableEq, Repr

structure LoadBalancing where
  policy : String := "round_robin"
  retries : Nat := 3
  tryDuration : String := "5s"
  tryInterval : String := "250ms"
  deriving DecidableEq, Repr

structure ReverseProxy where
  upstreams : List String
  loadBalancing : LoadBalancing := {}
  passive : PassiveChecks := {}
  active : Option ActiveChecks := none
  deriving DecidableEq, Repr

/-- A host and what handles it. -/
structure CaddyRoute where
  host : String
  handle : ReverseProxy
  deriving DecidableEq, Repr

structure CaddyServer where
  listen : List String := [":443"]
  routes : List CaddyRoute
  deriving DecidableEq, Repr

structure CaddyConfig where
  adminListen : String := "127.0.0.1:2019"
  adminOrigins : List String := ["", "127.0.0.1:2019", "localhost:2019", "[::1]:2019"]
  servers : List (String × CaddyServer)
  deriving DecidableEq, Repr

def reverseProxyHandler (route : WebRoute) : ReverseProxy where
  upstreams := route.upstreams
  active := route.healthPath.map fun path => { uri := path }

/-- Routes without upstreams are dropped; an empty result clears all servers. -/
def buildConfig (routes : List WebRoute) : CaddyConfig :=
  let live := routes.filter fun r => !r.upstreams.isEmpty
  if live.isEmpty then { servers := [] }
  else { servers := [("launchpad", { routes := live.map fun r => ⟨r.domain, reverseProxyHandler r⟩ })] }

/-- What Caddy holds: a configuration as the agent builds them, or another. -/
inductive CaddyHeld where
  | config (c : CaddyConfig)
  | other (body : String)
  deriving DecidableEq, Repr

structure CaddyState where
  lastConfigJson : String := ""
  lastReloadAt : Option String := none
  deriving DecidableEq, Repr

/-- `remote`: what `GET /config/` answered, none when it did not or was not JSON. -/
def decideCaddyPush (toJson : CaddyConfig → String) (desired : CaddyConfig) (lastPushedJson : String)
    (remote : Option CaddyHeld) : Bool :=
  if toJson desired ≠ lastPushedJson then true
  else
    match remote with
    | none => true
    | some r => r ≠ .config desired

theorem decideCaddyPush_skip {toJson : CaddyConfig → String} {desired : CaddyConfig} {last : String}
    {remote : Option CaddyHeld} (h : decideCaddyPush toJson desired last remote = false) : remote = some (.config desired) := by
  unfold decideCaddyPush at h
  split at h
  · cases h
  · cases remote with
    | none => cases h
    | some r => simpa using h

/-! ## The edge and what it polls -/

/-- An edge, by the ids its configuration gives it. -/
structure EdgeName where
  clusterId : String
  edgeId : String
  cluster_label : labelMatches clusterId = true
  edge_ok : nodeIdError edgeId = none

/-- The tags S3 gives bodies: hexadecimal digits in quotes, say. -/
structure Tags where
  etag : Object → String
  plain : ∀ o, '\n' ∉ (etag o).toList ∧ '@' ∉ (etag o).toList

structure ShardListCache where
  fingerprint : Option String := none
  shards : List UpstreamShard := []

/-- Where a poll is. -/
inductive PollPhase where
  | idle
  /-- Listing, from after the token on. -/
  | listing (listed : List (String × String)) (token : Option String)
  /-- Fetching what is left of the listed keys. -/
  | fetching (listed : List (String × String)) (todo : List String) (shards : List UpstreamShard)
  /-- About to ask Caddy what it holds. -/
  | probing (shards : List UpstreamShard)
  /-- About to post. -/
  | posting (desired : CaddyConfig) (managed : Bool)

structure EdgeSystem where
  bucket : Bucket := []
  /-- Every body written so far. -/
  past : List Object := []
  /-- Every listing completed so far. -/
  listings : List (List (String × String)) := []
  caddy : CaddyHeld
  cache : ShardListCache := {}
  caddySt : CaddyState := {}
  report : CaddyStatus := noCaddy
  phase : PollPhase := .idle

section Steps

variable (N : EdgeName) (T : Tags) (sha256 : String → String) (toJson : CaddyConfig → String)

def EdgeName.shardKey (app : String) : String := edgeUpstreamKey N.clusterId N.edgeId app

/-- The objects under the edge's upstream directory after a key. -/
def pageFrom (b : Bucket) (token : Option String) : Bucket :=
  b.filter fun e => hasPrefix (edgeUpstreamPrefix N.clusterId N.edgeId) e.1 && token.all (· < e.1)

/-- What `list_upstream_shards` takes of a page. -/
def tagged (page : Bucket) : List (String × String) := (page.filter fun e => hasSuffix ".json" e.1).map fun e => (e.1, T.etag e.2)

/-- The listing is complete: the cached shards, or a fetch of each key. -/
def EdgeSystem.listed (s : EdgeSystem) (listed : List (String × String)) : EdgeSystem :=
  if s.cache.fingerprint = some (listFingerprint sha256 listed) then
    { s with listings := listed :: s.listings, phase := .probing s.cache.shards }
  else { s with listings := listed :: s.listings, phase := .fetching listed (listed.map (·.1)) [] }

def routesOf (shards : List UpstreamShard) : List WebRoute := mergeRoutesByDomain (buildShardRoutes shards)

/-- A step of a poll in which nothing fails. -/
inductive Poll : EdgeSystem → EdgeSystem → Prop where
  | start (s) (h : s.phase = .idle) : Poll s { s with phase := .listing [] none }
  /-- A page of `n + 1` objects, with more after it. -/
  | page (s listed token) (n : Nat) (last : String × Object) (h : s.phase = .listing listed token)
      (hmore : n + 1 < (pageFrom N s.bucket token).length) (hlast : (pageFrom N s.bucket token)[n]? = some last) :
      Poll s { s with phase := .listing (listed ++ tagged T ((pageFrom N s.bucket token).take (n + 1))) (some last.1) }
  | lastPage (s listed token) (h : s.phase = .listing listed token) :
      Poll s (s.listed sha256 (listed ++ tagged T (pageFrom N s.bucket token)))
  | fetch (s listed key todo shards obj shard) (h : s.phase = .fetching listed (key :: todo) shards)
      (hget : SortedMap.get key s.bucket = some obj) (hparse : parseUpstreamShard obj = some shard) :
      Poll s { s with phase := .fetching listed todo (shards ++ [shard]) }
  | noSuchKey (s listed key todo shards) (h : s.phase = .fetching listed (key :: todo) shards)
      (hget : SortedMap.get key s.bucket = none) : Poll s { s with phase := .fetching listed todo shards }
  | fetched (s listed shards) (h : s.phase = .fetching listed [] shards) :
      Poll s { s with cache := ⟨some (listFingerprint sha256 listed), shards⟩, phase := .probing shards }
  | skip (s shards remote) (h : s.phase = .probing shards) (hremote : remote = none ∨ remote = some s.caddy)
      (hskip : decideCaddyPush toJson (buildConfig (routesOf shards)) s.caddySt.lastConfigJson remote = false) :
      Poll s { s with phase := .idle, report := ⟨!(routesOf shards).isEmpty, s.caddySt.lastReloadAt, none⟩ }
  | push (s shards remote) (h : s.phase = .probing shards) (hremote : remote = none ∨ remote = some s.caddy)
      (hpush : decideCaddyPush toJson (buildConfig (routesOf shards)) s.caddySt.lastConfigJson remote = true) :
      Poll s { s with phase := .posting (buildConfig (routesOf shards)) (!(routesOf shards).isEmpty) }
  | accepted (s desired managed) (now : String) (h : s.phase = .posting desired managed) :
      Poll s { s with
        caddy := .config desired, caddySt := ⟨toJson desired, some now⟩, phase := .idle, report := ⟨managed, some now, none⟩ }

/-- A request of the poll fails: the listing, a fetch (or a body that does not parse), or
    the push, which Caddy may have accepted all the same. -/
inductive Fails : EdgeSystem → EdgeSystem → Prop where
  | list (s listed token) (h : s.phase = .listing listed token) : Fails s { s with phase := .idle }
  | fetch (s listed key todo shards) (h : s.phase = .fetching listed (key :: todo) shards) : Fails s { s with phase := .idle }
  | refused (s desired managed) (e : String) (h : s.phase = .posting desired managed) :
      Fails s { s with phase := .idle, report := ⟨managed, s.caddySt.lastReloadAt, some e⟩ }
  | unanswered (s desired managed) (e : String) (h : s.phase = .posting desired managed) :
      Fails s { s with
        caddy := .config desired, phase := .idle, report := ⟨managed, s.caddySt.lastReloadAt, some e⟩ }

/-- What others do. No two bodies written are the same. -/
inductive Others : EdgeSystem → EdgeSystem → Prop where
  | write (s app shard) (happ : nodeIdError app = none) (hfresh : Object.shard shard ∉ s.past) :
      Others s { s with
        bucket := SortedMap.insert (N.shardKey app) (.shard shard) s.bucket, past := .shard shard :: s.past }
  | delete (s app) : Others s { s with bucket := SortedMap.erase (N.shardKey app) s.bucket }
  | caddyRestart (s held) : Others s { s with caddy := held }
  | agentRestart (s) : Others s { s with cache := {}, caddySt := {}, report := noCaddy, phase := .idle }

/-- A step of a poll that no write meets; Caddy may restart on the way. -/
inductive Quiet : EdgeSystem → EdgeSystem → Prop where
  | poll (s s') (h : Poll N T sha256 toJson s s') : Quiet s s'
  | caddyRestart (s held) (h : s.phase ≠ .idle) : Quiet s { s with caddy := held }

def EdgeStep (s s' : EdgeSystem) : Prop := Poll N T sha256 toJson s s' ∨ Fails s s' ∨ Others N s s'

/-- A run from an empty bucket, whatever Caddy holds at first. -/
def EdgeReach (s : EdgeSystem) : Prop :=
  ∃ held, Relation.ReflTransGen (EdgeStep N T sha256 toJson) { caddy := held } s

end Steps

/-! ## What the cache holds -/

section Invariant

variable {N : EdgeName} {T : Tags} {sha256 : String → String} {toJson : CaddyConfig → String} {s s' : EdgeSystem}

def tags (T : Tags) (l : List (String × Object)) : List (String × String) := l.map fun e => (e.1, T.etag e.2)

/-- The key of some app node's shard. -/
def ShardKey (N : EdgeName) (key : String) : Prop := ∃ app, nodeIdError app = none ∧ key = N.shardKey app

/-- Keys with bodies they have had, in key order. -/
structure Seen (N : EdgeName) (s : EdgeSystem) (l : List (String × Object)) : Prop where
  key : ∀ e ∈ l, ShardKey N e.1
  past : ∀ e ∈ l, e.2 ∈ s.past
  sorted : l.Pairwise fun a b => a.1 < b.1

/-- What the fetches brought: a key that still has the body it was listed with brought it. -/
def Results (s : EdgeSystem) (r : List ((String × Object) × Option UpstreamShard)) : Prop :=
  ∀ e ∈ r, SortedMap.get e.1.1 s.bucket = some e.1.2 → e.2 = parseUpstreamShard e.1.2

def CacheOk (N : EdgeName) (T : Tags) (sha256 : String → String) (s : EdgeSystem) (cache : ShardListCache) : Prop :=
  ∀ fp, cache.fingerprint = some fp → ∃ r, Seen N s (r.map (·.1)) ∧ Results s r ∧ tags T (r.map (·.1)) ∈ s.listings ∧
    fp = listFingerprint sha256 (tags T (r.map (·.1))) ∧ cache.shards = r.filterMap (·.2)

def PhaseOk (N : EdgeName) (T : Tags) (s : EdgeSystem) : PollPhase → Prop
  | .listing listed token =>
    ∃ l, Seen N s l ∧ listed = tags T l ∧ ∀ e ∈ l, ∃ t, token = some t ∧ e.1 ≤ t
  | .fetching listed todo shards =>
    ∃ r l, Seen N s (r.map (·.1) ++ l) ∧ Results s r ∧ listed = tags T (r.map (·.1) ++ l) ∧ listed ∈ s.listings ∧
      todo = l.map (·.1) ∧ shards = r.filterMap (·.2)
  | _ => True

structure EdgeInv (N : EdgeName) (T : Tags) (sha256 : String → String) (s : EdgeSystem) : Prop where
  sorted : SortedMap.Sorted s.bucket
  objects : ∀ e ∈ s.bucket, ShardKey N e.1 ∧ e.2 ∈ s.past ∧ ∃ shard, e.2 = .shard shard
  cache : CacheOk N T sha256 s s.cache
  phase : PhaseOk N T s s.phase

/-- Nothing is forgotten, and no key gets back a body that was written before. -/
structure Advance (s s' : EdgeSystem) : Prop where
  past : ∀ o ∈ s.past, o ∈ s'.past
  listings : ∀ l ∈ s.listings, l ∈ s'.listings
  body : ∀ key, ∀ o ∈ s.past, SortedMap.get key s'.bucket = some o → SortedMap.get key s.bucket = some o

theorem Advance.same (hbucket : s'.bucket = s.bucket) (hpast : s'.past = s.past)
    (hlistings : ∀ l ∈ s.listings, l ∈ s'.listings) : Advance s s' where
  past o ho := by rwa [hpast]
  listings := hlistings
  body key o _ h := by rwa [hbucket] at h

theorem Seen.advance {l : List (String × Object)} (h : Seen N s l) (hs : Advance s s') : Seen N s' l where
  key := h.key
  past e he := hs.past _ (h.past e he)
  sorted := h.sorted

theorem Results.advance {r : List ((String × Object) × Option UpstreamShard)} (h : Results s r)
    (hpast : ∀ e ∈ r.map (·.1), e.2 ∈ s.past) (hs : Advance s s') : Results s' r := by
  intro e he hget
  exact h e he (hs.body _ _ (hpast e.1 (List.mem_map_of_mem he)) hget)

theorem CacheOk.advance {cache : ShardListCache} (h : CacheOk N T sha256 s cache) (hs : Advance s s') :
    CacheOk N T sha256 s' cache := by
  intro fp hfp
  obtain ⟨r, hseen, hresults, hlisting, hprint, hshards⟩ := h fp hfp
  exact ⟨r, hseen.advance hs, hresults.advance hseen.past hs, hs.listings _ hlisting, hprint, hshards⟩

theorem PhaseOk.advance {phase : PollPhase} (h : PhaseOk N T s phase) (hs : Advance s s') : PhaseOk N T s' phase := by
  cases phase with
  | listing listed token =>
    obtain ⟨l, hseen, hlisted, htoken⟩ := h
    exact ⟨l, hseen.advance hs, hlisted, htoken⟩
  | fetching listed todo shards =>
    obtain ⟨r, l, hseen, hresults, hlisted, hlisting, htodo, hshards⟩ := h
    have hpast : ∀ e ∈ r.map (·.1), e.2 ∈ s.past := fun e he => hseen.past e (List.mem_append_left _ he)
    exact ⟨r, l, hseen.advance hs, hresults.advance hpast hs, hlisted, hs.listings _ hlisting, htodo, hshards⟩
  | idle => trivial
  | probing shards => trivial
  | posting desired managed => trivial

/-- What stands in the bucket has been seen. -/
theorem EdgeInv.seen (h : EdgeInv N T sha256 s) {l : List (String × Object)} (hl : l.Sublist s.bucket) : Seen N s l where
  key e he := (h.objects e (hl.subset he)).1
  past e he := (h.objects e (hl.subset he)).2.1
  sorted := List.Pairwise.sublist hl h.sorted

theorem pageFrom_sublist (b : Bucket) (token : Option String) : (pageFrom N b token).Sublist b := List.filter_sublist

/-- A page after what was listed. -/
theorem EdgeInv.seen_page (h : EdgeInv N T sha256 s) {l : List (String × Object)} {token : Option String} (hl : Seen N s l)
    (htoken : ∀ e ∈ l, ∃ t, token = some t ∧ e.1 ≤ t) {page : Bucket} (hpage : page.Sublist (pageFrom N s.bucket token)) :
    Seen N s (l ++ page.filter fun e => hasSuffix ".json" e.1) := by
  have hsub : (page.filter fun e => hasSuffix ".json" e.1).Sublist (pageFrom N s.bucket token) :=
    List.filter_sublist.trans hpage
  have hnew := h.seen (hsub.trans (pageFrom_sublist ..))
  constructor
  case key =>
    intro e he
    rcases List.mem_append.mp he with he | he
    · exact hl.key e he
    · exact hnew.key e he
  case past =>
    intro e he
    rcases List.mem_append.mp he with he | he
    · exact hl.past e he
    · exact hnew.past e he
  case sorted =>
    refine List.pairwise_append.mpr ⟨hl.sorted, hnew.sorted, fun a ha b hb => ?_⟩
    obtain ⟨t, rfl, hle⟩ := htoken a ha
    have hafter := (List.mem_filter.mp (hsub.subset hb)).2
    simp only [Option.all_some, Bool.and_eq_true, decide_eq_true_eq] at hafter
    exact lt_of_le_of_lt hle hafter.2

theorem tags_append (T : Tags) (a b : List (String × Object)) : tags T (a ++ b) = tags T a ++ tags T b := List.map_append

/-- The keys of a page reach up to its last one. -/
theorem take_le_last {b : Bucket} (h : SortedMap.Sorted b) {n : Nat} {last : String × Object} (hlast : b[n]? = some last) :
    ∀ e ∈ b.take (n + 1), e.1 ≤ last.1 := by
  intro e he
  have htake : b.take (n + 1) = b.take n ++ [last] := by
    rw [List.take_add_one, hlast]
    rfl
  have hsorted : (b.take n ++ [last]).Pairwise fun x y => x.1 < y.1 := by
    rw [← htake]
    exact List.Pairwise.sublist (List.take_sublist ..) h
  rw [htake] at he
  rcases List.mem_append.mp he with he | he
  · exact le_of_lt ((List.pairwise_append.mp hsorted).2.2 e he last (List.mem_singleton_self _))
  · rw [List.mem_singleton.mp he]

theorem edgeInv_start (held : CaddyHeld) : EdgeInv N T sha256 { caddy := held } where
  sorted := List.Pairwise.nil
  objects _ he := absurd he List.not_mem_nil
  cache _ hfp := by cases hfp
  phase := trivial

/-- A step of the edge that leaves its cache alone. -/
theorem EdgeInv.moved (h : EdgeInv N T sha256 s) (hs : Advance s s') (hbucket : s'.bucket = s.bucket) (hcache : s'.cache = s.cache)
    (hphase : PhaseOk N T s' s'.phase) : EdgeInv N T sha256 s' where
  sorted := by
    rw [hbucket]
    exact h.sorted
  objects e he := by
    rw [hbucket] at he
    obtain ⟨hkey, hpast, hshard⟩ := h.objects e he
    exact ⟨hkey, hs.past _ hpast, hshard⟩
  cache := by
    rw [hcache]
    exact h.cache.advance hs
  phase := hphase

/-- A page with more after it: what was listed reaches up to its last key. -/
theorem EdgeInv.page_listed (h : EdgeInv N T sha256 s) {listed : List (String × String)} {token : Option String} {n : Nat}
    {last : String × Object} (hphase : PhaseOk N T s (.listing listed token))
    (hlast : (pageFrom N s.bucket token)[n]? = some last) :
    PhaseOk N T s (.listing (listed ++ tagged T ((pageFrom N s.bucket token).take (n + 1))) (some last.1)) := by
  obtain ⟨l, hseen, rfl, htoken⟩ := hphase
  refine ⟨_, h.seen_page hseen htoken (List.take_sublist (n + 1) _), ?_, ?_⟩
  · rw [tags_append]
    rfl
  · intro e he
    refine ⟨last.1, rfl, ?_⟩
    rcases List.mem_append.mp he with he | he
    · obtain ⟨t, rfl, hle⟩ := htoken e he
      have hafter := (List.mem_filter.mp (List.mem_of_getElem? hlast)).2
      simp only [Option.all_some, Bool.and_eq_true, decide_eq_true_eq] at hafter
      exact le_of_lt (lt_of_le_of_lt hle hafter.2)
    · exact take_le_last (List.Pairwise.sublist (pageFrom_sublist ..) h.sorted) hlast e (List.mem_filter.mp he).1

/-- The last page: nothing is fetched yet. -/
theorem EdgeInv.all_listed (h : EdgeInv N T sha256 s) {listed : List (String × String)} {token : Option String}
    (hphase : PhaseOk N T s (.listing listed token)) (hs : Advance s s')
    (hlisting : listed ++ tagged T (pageFrom N s.bucket token) ∈ s'.listings) :
    PhaseOk N T s' (.fetching (listed ++ tagged T (pageFrom N s.bucket token))
      ((listed ++ tagged T (pageFrom N s.bucket token)).map (·.1)) []) := by
  obtain ⟨l, hseen, rfl, htoken⟩ := hphase
  have hall := h.seen_page hseen htoken (List.Sublist.refl _)
  refine ⟨[], l ++ (pageFrom N s.bucket token).filter fun e => hasSuffix ".json" e.1, hall.advance hs, ?_, ?_, hlisting, ?_, rfl⟩
  · exact fun e he => absurd he List.not_mem_nil
  · rw [List.map_nil, List.nil_append, tags_append]
    rfl
  · simp [tagged, tags, Function.comp_def]

/-- One fetch is answered: with the shard that the key has now, or with none. -/
theorem PhaseOk.answered {listed : List (String × String)} {key : String} {todo : List String} {shards : List UpstreamShard}
    (h : PhaseOk N T s (.fetching listed (key :: todo) shards)) {answer : Option UpstreamShard}
    (hanswer : ∀ obj, SortedMap.get key s.bucket = some obj → answer = parseUpstreamShard obj) :
    PhaseOk N T s (.fetching listed todo (shards ++ answer.toList)) := by
  obtain ⟨r, l, hseen, hresults, hlisted, hlisting, htodo, rfl⟩ := h
  cases l with
  | nil => cases htodo
  | cons e l =>
    obtain ⟨rfl, rfl⟩ := List.cons.inj htodo
    refine ⟨r ++ [(e, answer)], l, by simpa using hseen, ?_, by simpa using hlisted, hlisting, rfl, ?_⟩
    · intro x hx hbody
      rcases List.mem_append.mp hx with hx | hx
      · exact hresults x hx hbody
      · rw [List.mem_singleton.mp hx] at hbody ⊢
        exact hanswer _ hbody
    · cases answer <;> simp

theorem EdgeInv.poll (h : EdgeInv N T sha256 s) (hp : Poll N T sha256 toJson s s') : EdgeInv N T sha256 s' := by
  have hphase := h.phase
  cases hp with
  | start hidle =>
    refine h.moved (Advance.same rfl rfl fun _ hl => hl) rfl rfl ⟨[], ⟨?_, ?_, List.Pairwise.nil⟩, rfl, ?_⟩
    all_goals exact fun e he => absurd he List.not_mem_nil
  | page listed token n last hat hmore hlast =>
    rw [hat] at hphase
    have hs : Advance s { s with
        phase := .listing (listed ++ tagged T ((pageFrom N s.bucket token).take (n + 1))) (some last.1) } :=
      Advance.same rfl rfl fun _ hl => hl
    exact h.moved hs rfl rfl ((h.page_listed hphase hlast).advance hs)
  | lastPage listed token hat =>
    rw [hat] at hphase
    unfold EdgeSystem.listed
    split
    · exact h.moved (Advance.same rfl rfl fun _ hl => List.mem_cons_of_mem _ hl) rfl rfl trivial
    · have hs : Advance s { s with
          listings := (listed ++ tagged T (pageFrom N s.bucket token)) :: s.listings
          phase := .fetching (listed ++ tagged T (pageFrom N s.bucket token))
            ((listed ++ tagged T (pageFrom N s.bucket token)).map (·.1)) [] } :=
        Advance.same rfl rfl fun _ hl => List.mem_cons_of_mem _ hl
      exact h.moved hs rfl rfl (h.all_listed hphase hs (List.mem_cons_self ..))
  | fetch listed key todo shards obj shard hat hget hparse =>
    rw [hat] at hphase
    have hs : Advance s { s with phase := .fetching listed todo (shards ++ [shard]) } :=
      Advance.same rfl rfl fun _ hl => hl
    have hanswer : ∀ o, SortedMap.get key s.bucket = some o → some shard = parseUpstreamShard o := by
      intro o ho
      rw [Option.some.inj (ho.symm.trans hget)]
      exact hparse.symm
    exact h.moved hs rfl rfl ((hphase.answered hanswer).advance hs)
  | noSuchKey listed key todo shards hat hget =>
    rw [hat] at hphase
    have hs : Advance s { s with phase := .fetching listed todo shards } := Advance.same rfl rfl fun _ hl => hl
    have hanswer : ∀ o, SortedMap.get key s.bucket = some o → none = parseUpstreamShard o := by
      intro o ho
      cases ho.symm.trans hget
    have hnext := hphase.answered hanswer
    rw [Option.toList_none, List.append_nil] at hnext
    exact h.moved hs rfl rfl (hnext.advance hs)
  | fetched listed shards hat =>
    rw [hat] at hphase
    obtain ⟨r, l, hseen, hresults, hlisted, hlisting, htodo, rfl⟩ := hphase
    obtain rfl : l = [] := List.map_eq_nil_iff.mp htodo.symm
    rw [List.append_nil] at hseen hlisted
    have hs : Advance s { s with
        cache := ⟨some (listFingerprint sha256 listed), r.filterMap (·.2)⟩, phase := .probing (r.filterMap (·.2)) } :=
      Advance.same rfl rfl fun _ hl => hl
    refine ⟨h.sorted, h.objects, ?_, trivial⟩
    rintro fp ⟨⟩
    exact ⟨r, hseen.advance hs, hresults.advance hseen.past hs, hlisted ▸ hlisting, by rw [hlisted], rfl⟩
  | skip shards remote hat hremote hskip => exact h.moved (Advance.same rfl rfl fun _ hl => hl) rfl rfl trivial
  | push shards remote hat hremote hpush => exact h.moved (Advance.same rfl rfl fun _ hl => hl) rfl rfl trivial
  | accepted desired managed now hat => exact h.moved (Advance.same rfl rfl fun _ hl => hl) rfl rfl trivial

theorem EdgeInv.fails (h : EdgeInv N T sha256 s) (hf : Fails s s') : EdgeInv N T sha256 s' := by
  cases hf
  all_goals exact h.moved (Advance.same rfl rfl fun _ hl => hl) rfl rfl trivial

theorem EdgeInv.others (h : EdgeInv N T sha256 s) (ho : Others N s s') : EdgeInv N T sha256 s' := by
  cases ho with
  | write app shard happ hfresh =>
    have hs : Advance s { s with
        bucket := SortedMap.insert (N.shardKey app) (.shard shard) s.bucket, past := .shard shard :: s.past } := by
      refine ⟨fun o ho => List.mem_cons_of_mem _ ho, fun l hl => hl, fun key o ho hget => ?_⟩
      rw [SortedMap.get_insert] at hget
      split at hget
      · cases hget
        exact absurd ho hfresh
      · exact hget
    refine ⟨SortedMap.Sorted.insert h.sorted _ _, fun e he => ?_, h.cache.advance hs, h.phase.advance hs⟩
    rcases SortedMap.mem_insert he with rfl | he
    · exact ⟨⟨app, happ, rfl⟩, List.mem_cons_self .., shard, rfl⟩
    · obtain ⟨hkey, hpast, hshard⟩ := h.objects e he
      exact ⟨hkey, List.mem_cons_of_mem _ hpast, hshard⟩
  | delete app =>
    have hs : Advance s { s with bucket := SortedMap.erase (N.shardKey app) s.bucket } := by
      refine ⟨fun o ho => ho, fun l hl => hl, fun key o _ hget => ?_⟩
      rw [SortedMap.get_erase] at hget
      split at hget
      · cases hget
      · exact hget
    exact ⟨List.Pairwise.sublist List.filter_sublist h.sorted, fun e he => h.objects e (List.mem_filter.mp he).1,
      h.cache.advance hs, h.phase.advance hs⟩
  | caddyRestart held =>
    have hs : Advance s { s with caddy := held } := Advance.same rfl rfl fun _ hl => hl
    exact h.moved hs rfl rfl (h.phase.advance hs)
  | agentRestart => exact ⟨h.sorted, h.objects, fun fp hfp => (by cases hfp), trivial⟩

theorem edgeInv (h : EdgeReach N T sha256 toJson s) : EdgeInv N T sha256 s := by
  obtain ⟨held, h⟩ := h
  induction h with
  | refl => exact edgeInv_start held
  | tail _ hstep ih =>
    rcases hstep with hpoll | hfails | hothers
    · exact ih.poll hpoll
    · exact ih.fails hfails
    · exact ih.others hothers

/-! ## A poll that no write meets -/

/-- The objects a listing of the bucket takes. -/
def EdgeName.shardObjects (N : EdgeName) (b : Bucket) : Bucket := (pageFrom N b none).filter fun e => hasSuffix ".json" e.1

theorem shardObjects_sublist (b : Bucket) : (N.shardObjects b).Sublist b := List.filter_sublist.trans (pageFrom_sublist ..)

theorem upstreamKeys_eq (b : Bucket) : upstreamKeys b N.clusterId N.edgeId = (N.shardObjects b).map (·.1) := by
  simp only [upstreamKeys, SortedMap.keys, EdgeName.shardObjects, pageFrom, List.filter_map, List.filter_filter, Function.comp_def]
  congr 1
  apply List.filter_congr
  intro e _
  simp [Bool.and_comm]

/-- The shards in the bucket. -/
def Final (N : EdgeName) (b : Bucket) (shards : List UpstreamShard) : Prop :=
  listUpstreamShards b N.clusterId N.edgeId = some shards

/-- What a poll has done so far, in a bucket that is not written to. -/
def QuietOk (N : EdgeName) (T : Tags) (s : EdgeSystem) : PollPhase → Prop
  | .idle => ∃ shards, Final N s.bucket shards ∧ s.caddy = .config (buildConfig (routesOf shards))
  | .listing listed token => listed ++ tagged T (pageFrom N s.bucket token) = tagged T (pageFrom N s.bucket none)
  | .fetching _ todo shards => ∃ rest, fetchShards s.bucket todo = some rest ∧ Final N s.bucket (shards ++ rest)
  | .probing shards => Final N s.bucket shards
  | .posting desired _ => ∃ shards, Final N s.bucket shards ∧ desired = buildConfig (routesOf shards)

theorem fetchShards_objects {b : Bucket} {l : List (String × Object)} (hget : ∀ e ∈ l, SortedMap.get e.1 b = some e.2)
    (hshard : ∀ e ∈ l, ∃ shard, e.2 = .shard shard) :
    fetchShards b (l.map (·.1)) = some (l.filterMap fun e => parseUpstreamShard e.2) := by
  induction l with
  | nil => rfl
  | cons e l ih =>
    obtain ⟨shard, hbody⟩ := hshard e (List.mem_cons_self ..)
    have htail := ih (fun x hx => hget x (List.mem_cons_of_mem _ hx)) fun x hx => hshard x (List.mem_cons_of_mem _ hx)
    simp [fetchShards, hget e (List.mem_cons_self ..), hbody, parseUpstreamShard, htail]

theorem EdgeInv.final (h : EdgeInv N T sha256 s) :
    Final N s.bucket ((N.shardObjects s.bucket).filterMap fun e => parseUpstreamShard e.2) := by
  unfold Final listUpstreamShards
  rw [upstreamKeys_eq]
  refine fetchShards_objects (fun e he => ?_) fun e he => (h.objects e ((shardObjects_sublist _).subset he)).2.2
  exact SortedMap.get_of_mem (SortedMap.Sorted.nodup h.sorted) ((shardObjects_sublist _).subset he)

theorem tagged_append (T : Tags) (a b : Bucket) : tagged T (a ++ b) = tagged T a ++ tagged T b := by
  unfold tagged
  rw [List.filter_append, List.map_append]

/-- The next page starts after the last key of this one. -/
theorem pageFrom_after {b : Bucket} (h : SortedMap.Sorted b) {token : Option String} {n : Nat} {last : String × Object}
    (hlast : (pageFrom N b token)[n]? = some last) : pageFrom N b (some last.1) = (pageFrom N b token).drop (n + 1) := by
  have hsorted : SortedMap.Sorted (pageFrom N b token) := List.Pairwise.sublist (pageFrom_sublist ..) h
  have hmem := (List.mem_filter.mp (List.mem_of_getElem? hlast)).2
  rw [Bool.and_eq_true] at hmem
  have hafter : pageFrom N b (some last.1) = (pageFrom N b token).filter fun e => decide (last.1 < e.1) := by
    unfold pageFrom
    rw [List.filter_filter]
    apply List.filter_congr
    intro e _
    by_cases hlt : last.1 < e.1
    · have htoken : token.all (· < e.1) = true := by
        cases token with
        | none => rfl
        | some t =>
          have ht : t < last.1 := decide_eq_true_eq.mp hmem.2
          exact decide_eq_true (lt_trans ht hlt)
      simp only [Option.all_some, decide_eq_true hlt, htoken, Bool.and_true, Bool.true_and]
    · simp only [Option.all_some, decide_eq_false hlt, Bool.and_false, Bool.false_and]
  have hpage : (pageFrom N b token).drop n = last :: (pageFrom N b token).drop (n + 1) :=
    (List.drop_eq_getElem?_toList_append).trans (by rw [hlast]; rfl)
  have hbelow : ((pageFrom N b token).take (n + 1)).filter (fun e => decide (last.1 < e.1)) = [] := by
    rw [List.filter_eq_nil_iff]
    intro e he hlt
    exact absurd (decide_eq_true_eq.mp hlt) (not_lt_of_ge (take_le_last hsorted hlast e he))
  have habove : ((pageFrom N b token).drop (n + 1)).filter (fun e => decide (last.1 < e.1)) = (pageFrom N b token).drop (n + 1) := by
    have hdrop : (last :: (pageFrom N b token).drop (n + 1)).Pairwise fun x y => x.1 < y.1 := by
      rw [← hpage]
      exact List.Pairwise.sublist (List.drop_sublist ..) hsorted
    rw [List.filter_eq_self]
    intro e he
    exact decide_eq_true ((List.pairwise_cons.mp hdrop).1 e he)
  rw [hafter]
  conv_lhs => rw [← List.take_append_drop (n + 1) (pageFrom N b token)]
  rw [List.filter_append, hbelow, habove, List.nil_append]

/-! ## A cached listing -/

theorem newline_not_mem_shardKey {key : String} (h : ShardKey N key) : '\n' ∉ key.toList := by
  obtain ⟨app, happ, rfl⟩ := h
  have hcluster : '\n' ∉ N.clusterId.toList := not_mem_label (by decide) N.cluster_label
  have hedge : '\n' ∉ N.edgeId.toList := not_mem_nodeId (by decide) N.edge_ok
  have happ : '\n' ∉ app.toList := not_mem_nodeId (by decide) happ
  have hroot : '\n' ∉ (clusterNodesPrefix N.clusterId).toList := by
    unfold clusterNodesPrefix
    split
    · simp [nodesPrefix]
    · simp [clustersPrefix, nodesPrefix, hcluster]
  simp [EdgeName.shardKey, edgeUpstreamKey, edgeUpstreamPrefix, nodePrefix, hroot, hedge, happ]

theorem Seen.plain {l : List (String × Object)} (h : Seen N s l) : ∀ e ∈ tags T l, PlainEntry e := by
  intro e he
  obtain ⟨x, hx, rfl⟩ := List.mem_map.mp he
  exact ⟨newline_not_mem_shardKey (h.key x hx), (T.plain x.2).1, (T.plain x.2).2⟩

theorem Seen.tags_sorted {l : List (String × Object)} (h : Seen N s l) : (tags T l).Pairwise fun x y => x.1 < y.1 :=
  List.pairwise_map.mpr h.sorted

/-- Tags that tell the bodies apart. -/
theorem tags_inj (hetag : ∀ o ∈ s.past, ∀ o' ∈ s.past, T.etag o = T.etag o' → o = o') {l m : List (String × Object)}
    (hl : ∀ e ∈ l, e.2 ∈ s.past) (hm : ∀ e ∈ m, e.2 ∈ s.past) (h : tags T l = tags T m) : l = m := by
  induction l generalizing m with
  | nil =>
    cases m with
    | nil => rfl
    | cons y m => cases h
  | cons x l ih =>
    cases m with
    | nil => cases h
    | cons y m =>
      obtain ⟨hentry, htail⟩ := List.cons.inj h
      obtain ⟨hkey, htag⟩ := Prod.ext_iff.mp hentry
      have hbody := hetag _ (hl x (List.mem_cons_self ..)) _ (hm y (List.mem_cons_self ..)) htag
      have hhead : x = y := Prod.ext hkey hbody
      rw [hhead,
        ih (fun e he => hl e (List.mem_cons_of_mem _ he)) (fun e he => hm e (List.mem_cons_of_mem _ he)) htail]

/-- The fingerprint of the bucket's listing is the cached one: so are its shards. -/
theorem cached_final (h : EdgeInv N T sha256 s) (hetag : ∀ o ∈ s.past, ∀ o' ∈ s.past, T.etag o = T.etag o' → o = o')
    (hsha : ∀ a ∈ s.listings, listFingerprint sha256 a = listFingerprint sha256 (tags T (N.shardObjects s.bucket)) →
      listingText a = listingText (tags T (N.shardObjects s.bucket)))
    (hcached : s.cache.fingerprint = some (listFingerprint sha256 (tags T (N.shardObjects s.bucket)))) :
    Final N s.bucket s.cache.shards := by
  obtain ⟨r, hseen, hresults, hlisting, hprint, hshards⟩ := h.cache _ hcached
  have hall := h.seen (shardObjects_sublist (N := N) s.bucket)
  have htext := hsha _ hlisting hprint.symm
  have hobjects : r.map (·.1) = N.shardObjects s.bucket :=
    tags_inj hetag hseen.past hall.past
      (listingText_inj hseen.plain hall.plain hseen.tags_sorted hall.tags_sorted htext)
  have hbrought : r.filterMap (·.2) = (r.map (·.1)).filterMap fun e => parseUpstreamShard e.2 := by
    rw [List.filterMap_map]
    apply List.filterMap_congr
    intro x hx
    refine hresults x hx (SortedMap.get_of_mem (SortedMap.Sorted.nodup h.sorted) ?_)
    apply (shardObjects_sublist (N := N) s.bucket).subset
    rw [← hobjects]
    exact List.mem_map_of_mem hx
  rw [hshards, hbrought, hobjects]
  exact h.final

/-! ## What a quiet poll leaves -/

theorem Quiet.past (h : Quiet N T sha256 toJson s s') : s'.past = s.past := by
  cases h with
  | caddyRestart held hphase => rfl
  | poll _ hp =>
    cases hp with
    | lastPage listed token hat =>
      unfold EdgeSystem.listed
      split <;> rfl
    | _ => rfl

theorem Quiet.listings (h : Quiet N T sha256 toJson s s') : ∀ l ∈ s.listings, l ∈ s'.listings := by
  intro l hl
  cases h with
  | caddyRestart held hphase => exact hl
  | poll _ hp =>
    cases hp with
    | lastPage listed token hat =>
      unfold EdgeSystem.listed
      split
      · exact List.mem_cons_of_mem _ hl
      · exact List.mem_cons_of_mem _ hl
    | _ => exact hl

theorem EdgeInv.quiet (h : EdgeInv N T sha256 s) (hq : Quiet N T sha256 toJson s s') : EdgeInv N T sha256 s' := by
  cases hq with
  | poll _ hp => exact h.poll hp
  | caddyRestart held hphase => exact h.others (.caddyRestart s held)

/-- No two listings of the run have one hash. -/
def Collisionless (sha256 : String → String) (s : EdgeSystem) : Prop :=
  ∀ a ∈ s.listings, ∀ b ∈ s.listings, listFingerprint sha256 a = listFingerprint sha256 b → listingText a = listingText b

theorem QuietOk.poll (h : EdgeInv N T sha256 s) (hetag : ∀ o ∈ s.past, ∀ o' ∈ s.past, T.etag o = T.etag o' → o = o')
    (hsha : Collisionless sha256 s') (hok : s.phase = .idle ∨ QuietOk N T s s.phase) (hp : Poll N T sha256 toJson s s') :
    QuietOk N T s' s'.phase := by
  cases hp with
  | start hidle => exact List.nil_append _
  | page listed token n last hat hmore hlast =>
    simp only [hat, reduceCtorEq, false_or] at hok
    have hrest : listed ++ tagged T ((pageFrom N s.bucket token).take (n + 1)) ++
        tagged T ((pageFrom N s.bucket token).drop (n + 1)) = tagged T (pageFrom N s.bucket none) := by
      rw [List.append_assoc, ← tagged_append, List.take_append_drop]
      exact hok
    rw [← pageFrom_after h.sorted hlast] at hrest
    exact hrest
  | lastPage listed token hat =>
    simp only [hat, reduceCtorEq, false_or] at hok
    have hall : listed ++ tagged T (pageFrom N s.bucket token) = tags T (N.shardObjects s.bucket) := hok
    rw [hall] at hsha ⊢
    by_cases hcached : s.cache.fingerprint = some (listFingerprint sha256 (tags T (N.shardObjects s.bucket)))
    · simp only [EdgeSystem.listed, if_pos hcached] at hsha ⊢
      have hfinal : Final N s.bucket s.cache.shards :=
        cached_final h hetag (fun a ha => hsha a (List.mem_cons_of_mem _ ha) _ (List.mem_cons_self ..)) hcached
      exact hfinal
    · simp only [EdgeSystem.listed, if_neg hcached]
      have hkeys : (tags T (N.shardObjects s.bucket)).map (·.1) = upstreamKeys s.bucket N.clusterId N.edgeId := by
        rw [upstreamKeys_eq, tags, List.map_map]
        rfl
      refine ⟨_, ?_, h.final⟩
      rw [hkeys]
      exact h.final
  | fetch listed key todo shards obj shard hat hget hparse =>
    simp only [hat, reduceCtorEq, false_or] at hok
    obtain ⟨rest, hrest, hfinal⟩ := hok
    simp only [fetchShards, hget, hparse] at hrest
    cases htail : fetchShards s.bucket todo with
    | none =>
      rw [htail] at hrest
      cases hrest
    | some tail =>
      rw [htail] at hrest
      cases hrest
      refine ⟨tail, htail, ?_⟩
      rw [List.append_assoc]
      exact hfinal
  | noSuchKey listed key todo shards hat hget =>
    simp only [hat, reduceCtorEq, false_or] at hok
    obtain ⟨rest, hrest, hfinal⟩ := hok
    simp only [fetchShards, hget] at hrest
    exact ⟨rest, hrest, hfinal⟩
  | fetched listed shards hat =>
    simp only [hat, reduceCtorEq, false_or] at hok
    obtain ⟨rest, hrest, hfinal⟩ := hok
    cases hrest
    rw [List.append_nil] at hfinal
    exact hfinal
  | skip shards remote hat hremote hskip =>
    simp only [hat, reduceCtorEq, false_or] at hok
    refine ⟨shards, hok, ?_⟩
    rcases hremote with rfl | rfl
    · cases decideCaddyPush_skip hskip
    · exact Option.some.inj (decideCaddyPush_skip hskip)
  | push shards remote hat hremote hpush =>
    simp only [hat, reduceCtorEq, false_or] at hok
    exact ⟨shards, hok, rfl⟩
  | accepted desired managed now hat =>
    simp only [hat, reduceCtorEq, false_or] at hok
    obtain ⟨shards, hfinal, rfl⟩ := hok
    exact ⟨shards, hfinal, rfl⟩

theorem QuietOk.quiet (h : EdgeInv N T sha256 s) (hetag : ∀ o ∈ s.past, ∀ o' ∈ s.past, T.etag o = T.etag o' → o = o')
    (hsha : Collisionless sha256 s') (hok : s.phase = .idle ∨ QuietOk N T s s.phase) (hq : Quiet N T sha256 toJson s s') :
    QuietOk N T s' s'.phase := by
  cases hq with
  | poll _ hp => exact QuietOk.poll h hetag hsha hok hp
  | caddyRestart held hphase =>
    have hok := hok.resolve_left hphase
    cases hat : s.phase with
    | idle => exact absurd hat hphase
    | _ =>
      rw [hat] at hok
      exact hok

/-- A run of quiet steps from the start of a poll. -/
theorem quiet_run (h : EdgeInv N T sha256 s) (hidle : s.phase = .idle)
    (hetag : ∀ o ∈ s.past, ∀ o' ∈ s.past, T.etag o = T.etag o' → o = o')
    (hrun : Relation.TransGen (Quiet N T sha256 toJson) s s') (hsha : Collisionless sha256 s') :
    EdgeInv N T sha256 s' ∧ s'.past = s.past ∧ QuietOk N T s' s'.phase := by
  induction hrun with
  | single hstep => exact ⟨h.quiet hstep, hstep.past, QuietOk.quiet h hetag hsha (.inl hidle) hstep⟩
  | tail _ hstep ih =>
    obtain ⟨hinv, hpast, hok⟩ := ih fun a ha b hb => hsha a (hstep.listings a ha) b (hstep.listings b hb)
    refine ⟨hinv.quiet hstep, hstep.past.trans hpast, QuietOk.quiet hinv ?_ hsha (.inr hok) hstep⟩
    rw [hpast]
    exact hetag

/-- However the polls, pushes and writes before it went: a poll that no write meets and in
    which nothing fails leaves Caddy with the configuration of the bucket's shards. -/
theorem edge_routes_coherent (hreach : EdgeReach N T sha256 toJson s) (hidle : s.phase = .idle)
    (hetag : ∀ o ∈ s.past, ∀ o' ∈ s.past, T.etag o = T.etag o' → o = o')
    (hpoll : Relation.TransGen (Quiet N T sha256 toJson) s s') (hdone : s'.phase = .idle) (hsha : Collisionless sha256 s') :
    ∃ routes, edgeRoutes s'.bucket N.clusterId N.edgeId = some routes ∧ s'.caddy = .config (buildConfig routes) := by
  obtain ⟨-, -, hok⟩ := quiet_run (edgeInv hreach) hidle hetag hpoll hsha
  rw [hdone] at hok
  obtain ⟨shards, hfinal, hcaddy⟩ := hok
  refine ⟨routesOf shards, ?_, hcaddy⟩
  have hlist : listUpstreamShards s'.bucket N.clusterId N.edgeId = some shards := hfinal
  rw [edgeRoutes, hlist]
  rfl

end Invariant

/-! ### One edge and one app node -/

theorem edgeOne_ok : nodeIdError "edge" = none := by decide

def edgeOne : EdgeName where
  clusterId := "default"
  edgeId := "edge"
  cluster_label := default_label
  edge_ok := edgeOne_ok

theorem oneTag_plain : '\n' ∉ ("\"8f9666642deb54779beb8e0c105be9f5\"").toList ∧ '@' ∉ ("\"8f9666642deb54779beb8e0c105be9f5\"").toList := by
  decide

def oneTag : Tags where
  etag _ := "\"8f9666642deb54779beb8e0c105be9f5\""
  plain _ := oneTag_plain

def oneHash (_ : String) : String := "11ff6d57f974dab3897ed1a4959bdc036950740642ba8f2d21b419d7cf29b062"

def oneJson (c : CaddyConfig) : String := "\x7b\"servers\":[" ++ ",".intercalate (c.servers.map (·.1)) ++ "]\x7d"

def shardOne : UpstreamShard := ⟨"n1", "10.0.0.7", "2024-05-01T10:00:00Z", [⟨"example.com", 20000, none⟩]⟩

/-- Node `n1` has published its first shard; Caddy still holds what it started with. -/
def publishedOne : EdgeSystem where
  bucket := [("nodes/edge/upstream/n1.json", .shard shardOne)]
  past := [.shard shardOne]
  caddy := .other "\x7b\x7d"

def listingOne : List (String × String) := tagged oneTag (pageFrom edgeOne publishedOne.bucket none)

/-- The edge has polled once. -/
def polledOne : EdgeSystem where
  bucket := publishedOne.bucket
  past := publishedOne.past
  listings := [listingOne]
  caddy := .config (buildConfig (routesOf [shardOne]))
  cache := ⟨some (oneHash (listingText listingOne)), [shardOne]⟩
  caddySt := ⟨oneJson (buildConfig (routesOf [shardOne])), some "2024-05-01T10:00:05Z"⟩
  report := ⟨true, some "2024-05-01T10:00:05Z", none⟩

theorem publishedOne_reached : EdgeReach edgeOne oneTag oneHash oneJson publishedOne := by
  refine ⟨.other "\x7b\x7d", .single (.inr (.inr ?_))⟩
  exact Others.write _ "n1" shardOne (by decide) (by simp)

theorem publishedOne_polled : Relation.TransGen (Quiet edgeOne oneTag oneHash oneJson) publishedOne polledOne := by
  have hstart : Poll edgeOne oneTag oneHash oneJson publishedOne { publishedOne with phase := .listing [] none } := .start _ rfl
  have hlist : Poll edgeOne oneTag oneHash oneJson { publishedOne with phase := .listing [] none }
      { publishedOne with
        listings := [listingOne], phase := .fetching listingOne ["nodes/edge/upstream/n1.json"] [] } := by
    have hlast : Poll edgeOne oneTag oneHash oneJson { publishedOne with phase := .listing [] none }
        (EdgeSystem.listed oneHash { publishedOne with phase := .listing [] none } listingOne) := .lastPage _ [] none rfl
    rw [EdgeSystem.listed, if_neg (by intro h; cases h)] at hlast
    exact hlast
  have hfetch : Poll edgeOne oneTag oneHash oneJson
      { publishedOne with listings := [listingOne], phase := .fetching listingOne ["nodes/edge/upstream/n1.json"] [] }
      { publishedOne with listings := [listingOne], phase := .fetching listingOne [] [shardOne] } :=
    .fetch _ listingOne "nodes/edge/upstream/n1.json" [] [] (.shard shardOne) shardOne rfl rfl rfl
  have hfetched : Poll edgeOne oneTag oneHash oneJson
      { publishedOne with listings := [listingOne], phase := .fetching listingOne [] [shardOne] }
      { publishedOne with
        listings := [listingOne], cache := polledOne.cache, phase := .probing [shardOne] } := .fetched _ listingOne [shardOne] rfl
  have hpush : Poll edgeOne oneTag oneHash oneJson
      { publishedOne with listings := [listingOne], cache := polledOne.cache, phase := .probing [shardOne] }
      { publishedOne with
        listings := [listingOne], cache := polledOne.cache
        phase := .posting (buildConfig (routesOf [shardOne])) true } :=
    .push _ [shardOne] none rfl (.inl rfl) (by decide)
  have haccepted : Poll edgeOne oneTag oneHash oneJson
      { publishedOne with
        listings := [listingOne], cache := polledOne.cache
        phase := .posting (buildConfig (routesOf [shardOne])) true } polledOne :=
    .accepted _ (buildConfig (routesOf [shardOne])) true "2024-05-01T10:00:05Z" rfl
  exact .tail (.tail (.tail (.tail (.tail (.single (.poll _ _ hstart)) (.poll _ _ hlist)) (.poll _ _ hfetch))
    (.poll _ _ hfetched)) (.poll _ _ hpush)) (.poll _ _ haccepted)

theorem edge_routes_coherent_one :
    ∃ routes, edgeRoutes polledOne.bucket edgeOne.clusterId edgeOne.edgeId = some routes ∧
      polledOne.caddy = .config (buildConfig routes) := by
  refine edge_routes_coherent publishedOne_reached rfl (fun o ho o' ho' _ => ?_) publishedOne_polled rfl fun a ha b hb _ => ?_
  · rw [List.mem_singleton.mp ho, List.mem_singleton.mp ho']
  · rw [List.mem_singleton.mp ha, List.mem_singleton.mp hb]

end LaunchPad.Agent
