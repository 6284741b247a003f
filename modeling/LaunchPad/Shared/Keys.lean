/-
  LaunchPad.Shared.Keys — the keys of the state bucket (`shared/src/s3-keys.ts`, mirrored
  in `agent-rust/src/s3.rs`) and the node ids they are built from.

  A node's state lives under its own directory, `nodes/<id>/` or
  `clusters/<cluster>/nodes/<id>/`. What the app nodes tell an edge lives under the edge's
  directory, `upstream/<app node>.json`.

  Proved:
  - `nodePrefix_disjoint`: no key of one node's directory lies in another node's.
-/
import LaunchPad.Shared.Types

namespace LaunchPad

/-! ## Node ids (`config.ts`) -/

/-- `NODE_ID_REGEX`: `^[a-zA-Z0-9]([a-zA-Z0-9_-]{0,62})?$`. -/
def nodeIdMatches (id : String) : Bool :=
  match id.toList with
  | [] => false
  | c :: cs => c.isAlphanum && decide (cs.length ≤ 62) && cs.all fun c => c.isAlphanum || c == '_' || c == '-'

def nodeIdHint : String :=
  "letters, numbers, hyphens, or underscores (1–63 chars; must start with a letter or number)"

def nodeIdError (id : String) : Option String := if nodeIdMatches id then none else some ("must be " ++ nodeIdHint)

/-- `[a]([a-]{0,n}[a])?` over a class `a` of letters and digits: at most `max` characters,
    no hyphen first or last. -/
def labelLike (alnum : Char → Bool) (max : Nat) (l : List Char) : Bool :=
  decide (l.length ≤ max) && l.head?.any alnum && l.getLast?.any alnum && l.all fun c => alnum c || c == '-'

/-- `LABEL_REGEX`: `^[a-z0-9]([a-z0-9-]{0,38}[a-z0-9])?$`. -/
def labelMatches (id : String) : Bool := labelLike (fun c => c.isLower || c.isDigit) 40 id.toList

theorem default_label : labelMatches "default" = true := by decide +kernel

/-! ## Keys -/

def nodesPrefix : String := "nodes/"
def clustersPrefix : String := "clusters/"

def clusterNodesPrefix (clusterId : String) : String :=
  if clusterId = defaultCluster then nodesPrefix else clustersPrefix ++ clusterId ++ "/" ++ nodesPrefix

def clusterConfigKey (clusterId : String) : String := clustersPrefix ++ clusterId ++ "/cluster.json"

def nodePrefix (clusterId nodeId : String) : String := clusterNodesPrefix clusterId ++ nodeId ++ "/"

def nodeRegistryKey (clusterId nodeId : String) : String := nodePrefix clusterId nodeId ++ "node.json"

def desiredKey (clusterId nodeId : String) : String := nodePrefix clusterId nodeId ++ "desired.json"

def statusKey (clusterId nodeId : String) : String := nodePrefix clusterId nodeId ++ "status.json"

/-- The domains an edge fronts, for display. -/
def edgeConfigKey (clusterId nodeId : String) : String := nodePrefix clusterId nodeId ++ "edge.json"

def edgeUpstreamPrefix (clusterId edgeId : String) : String := nodePrefix clusterId edgeId ++ "upstream/"

def edgeUpstreamKey (clusterId edgeId appNodeId : String) : String :=
  edgeUpstreamPrefix clusterId edgeId ++ appNodeId ++ ".json"

def hasPrefix (p key : String) : Bool := p.toList.isPrefixOf key.toList
def hasSuffix (s key : String) : Bool := s.toList.isSuffixOf key.toList

/-! ## Directories do not meet -/

theorem hasPrefix_iff {p key : String} : hasPrefix p key = true ↔ ∃ rest, p.toList ++ rest = key.toList := by
  unfold hasPrefix
  rw [List.isPrefixOf_iff_prefix]
  exact Iff.rfl

@[simp] theorem hasPrefix_append (p rest : String) : hasPrefix p (p ++ rest) = true :=
  hasPrefix_iff.mpr ⟨rest.toList, String.toList_append.symm⟩

theorem hasPrefix_trans {p q key : String} (h : hasPrefix p q = true) (h' : hasPrefix q key = true) :
    hasPrefix p key = true := by
  obtain ⟨r, hr⟩ := hasPrefix_iff.mp h
  obtain ⟨r', hr'⟩ := hasPrefix_iff.mp h'
  exact hasPrefix_iff.mpr ⟨r ++ r', by rw [← List.append_assoc, hr, hr']⟩

theorem hasPrefix_nodeRegistryKey (clusterId nodeId : String) :
    hasPrefix (nodePrefix clusterId nodeId) (nodeRegistryKey clusterId nodeId) = true := hasPrefix_append ..

theorem hasPrefix_edgeUpstreamPrefix (clusterId edgeId : String) :
    hasPrefix (nodePrefix clusterId edgeId) (edgeUpstreamPrefix clusterId edgeId) = true := hasPrefix_append ..

theorem hasPrefix_edgeUpstreamKey (clusterId edgeId appNodeId : String) :
    hasPrefix (edgeUpstreamPrefix clusterId edgeId) (edgeUpstreamKey clusterId edgeId appNodeId) = true := by
  unfold edgeUpstreamKey
  rw [String.append_assoc]
  exact hasPrefix_append ..

/-- A character that no node id has. -/
theorem not_mem_nodeId {c : Char} (hc : (c.isAlphanum || c == '_' || c == '-') = false) {id : String}
    (h : nodeIdError id = none) : c ∉ id.toList := by
  have hm : nodeIdMatches id = true := by
    by_cases hm : nodeIdMatches id = true
    · exact hm
    · simp [nodeIdError, hm] at h
  intro hmem
  unfold nodeIdMatches at hm
  cases hl : id.toList with
  | nil => rw [hl] at hmem; cases hmem
  | cons d ds =>
    rw [hl] at hm hmem
    simp only [Bool.and_eq_true, List.all_eq_true] at hm
    rcases List.mem_cons.mp hmem with rfl | hmem
    · rw [hm.1.1] at hc
      cases hc
    · exact absurd (hm.2 _ hmem) (by rw [hc]; decide)

theorem slash_not_mem {id : String} (h : nodeIdError id = none) : '/' ∉ id.toList := not_mem_nodeId (by decide) h

/-- A character that no label has. -/
theorem not_mem_label {c : Char} (hc : (c.isLower || c.isDigit || c == '-') = false) {id : String}
    (h : labelMatches id = true) : c ∉ id.toList := by
  intro hmem
  simp only [labelMatches, labelLike, Bool.and_eq_true, List.all_eq_true] at h
  exact absurd (h.2 _ hmem) (by rw [hc]; decide)

theorem slash_not_mem_label {id : String} (h : labelMatches id = true) : '/' ∉ id.toList := not_mem_label (by decide) h

/-- A text's first segment is what stands before its first separator. -/
theorem segment_inj {sep : Char} {a b x y : List Char} (ha : sep ∉ a) (hb : sep ∉ b)
    (h : a ++ sep :: x = b ++ sep :: y) : a = b := by
  induction a generalizing b with
  | nil =>
    cases b with
    | nil => rfl
    | cons c b =>
      obtain ⟨rfl, _⟩ := List.cons.inj h
      exact absurd (List.mem_cons_self ..) hb
  | cons c a ih =>
    cases b with
    | nil =>
      obtain ⟨rfl, _⟩ := List.cons.inj h
      exact absurd (List.mem_cons_self ..) ha
    | cons c' b =>
      obtain ⟨rfl, htail⟩ := List.cons.inj h
      rw [ih (fun hm => ha (List.mem_cons_of_mem _ hm)) (fun hm => hb (List.mem_cons_of_mem _ hm)) htail]

/-- What stands before a text's last separator, and its last segment. -/
theorem last_segment_inj {sep : Char} {x y u v : List Char} (hu : sep ∉ u) (hv : sep ∉ v)
    (h : x ++ sep :: u = y ++ sep :: v) : x = y ∧ u = v := by
  have hrev := congrArg List.reverse h
  simp only [List.reverse_append, List.reverse_cons, List.append_assoc, List.singleton_append] at hrev
  have htail : u = v := List.reverse_inj.mp
    (segment_inj (fun hm => hu (List.mem_reverse.mp hm)) (fun hm => hv (List.mem_reverse.mp hm)) hrev)
  subst htail
  exact ⟨List.append_cancel_right h, rfl⟩

/-- No key lies in two directories of one root. -/
theorem directory_disjoint {root a b key : String} (ha : '/' ∉ a.toList) (hb : '/' ∉ b.toList) (hab : a ≠ b)
    (h : hasPrefix (root ++ a ++ "/") key = true) : hasPrefix (root ++ b ++ "/") key = false := by
  rw [Bool.eq_false_iff]
  intro h'
  obtain ⟨x, hx⟩ := hasPrefix_iff.mp h
  obtain ⟨y, hy⟩ := hasPrefix_iff.mp h'
  have he := hx.trans hy.symm
  simp only [String.toList_append, List.append_assoc] at he
  have he := List.append_cancel_left he
  exact hab (String.toList_injective (segment_inj ha hb he))

theorem nodePrefix_disjoint {clusterId a b key : String} (ha : nodeIdError a = none) (hb : nodeIdError b = none)
    (hab : a ≠ b) (h : hasPrefix (nodePrefix clusterId a) key = true) :
    hasPrefix (nodePrefix clusterId b) key = false :=
  directory_disjoint (slash_not_mem ha) (slash_not_mem hb) hab h

/-- `cluster.json` lies in no node's directory: it has fewer slashes. -/
theorem clusterConfigKey_outside {id : String} (h : '/' ∉ id.toList) (clusterId nodeId : String) :
    hasPrefix (nodePrefix clusterId nodeId) (clusterConfigKey id) = false := by
  rw [Bool.eq_false_iff]
  intro hp
  obtain ⟨x, hx⟩ := hasPrefix_iff.mp hp
  unfold nodePrefix clusterNodesPrefix at hx
  split at hx
  · have hd := congrArg List.head? hx
    simp only [nodesPrefix, clusterConfigKey, clustersPrefix, String.toList_append, List.append_assoc] at hd
    exact absurd hd (by simp)
  · have hcount := congrArg (List.count '/') hx
    simp only [nodesPrefix, clusterConfigKey, clustersPrefix, String.toList_append, List.append_assoc,
      List.count_append, List.count_eq_zero.mpr h] at hcount
    simp at hcount
    omega

end LaunchPad
