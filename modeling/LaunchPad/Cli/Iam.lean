/-
  LaunchPad.Cli.Iam — what a node is known by in AWS (`aws/iam.ts`, `aws/sqs.ts`, mirrored
  in `agent-rust/src/sqs.rs`): its role, instance profile, user and queue, the policy that
  the role or the user carries, and the calls that make and remove them.

  (1) Names. Each is a fixed text and then the cluster's name, a hyphen and the node's; IAM
  names are cut at 64 characters. Both parts may contain hyphens, so two nodes may share
  a name (`meeting_names_collide`), and the longest fixed text leaves 40 characters to tell
  them apart (`identities_apart`).

  (2) Policies. A resource is a pattern whose `*` runs over `/` too, so the keys that an
  app node may write for edges are more than the keys of its shards; but they all end with
  its own name, under a cluster's own root (`policies_confined`).

  An AWS call names one resource (`Call`); it fails or changes that one. A command is its
  list of calls and may stop after any of them.
-/
import LaunchPad.Lib.Glob
import LaunchPad.Cli.Entry
import LaunchPad.Cli.Teardown

namespace LaunchPad.Cli.Iam

open Lib

/-! ## Names -/

/-- A cluster and a node id that their validators accept. -/
structure NodeName where
  clusterId : String
  nodeId : String
  cluster_label : labelMatches clusterId = true
  node_ok : nodeIdError nodeId = none
  deriving DecidableEq

def nodeProfileName (clusterId nodeId : String) : String :=
  String.ofList (("launch-pad-node-profile-" ++ iamSlug clusterId nodeId).toList.take 64)

/-- For an external node. -/
def nodeUserName (clusterId nodeId : String) : String :=
  String.ofList (("launch-pad-node-" ++ iamSlug clusterId nodeId).toList.take 64)

/-- `queue_name` of the agent, `queueName` of the CLI. -/
def queueName (clusterId nodeId : String) : String := "launch-pad-" ++ clusterId ++ "-" ++ nodeId

namespace NodeName

def role (a : NodeName) : String := nodeRoleName a.clusterId a.nodeId
def profile (a : NodeName) : String := nodeProfileName a.clusterId a.nodeId
def user (a : NodeName) : String := nodeUserName a.clusterId a.nodeId
def queue (a : NodeName) : String := queueName a.clusterId a.nodeId

/-- What the names are made of. -/
def text (a : NodeName) : List Char := (a.clusterId ++ "-" ++ a.nodeId).toList

/-- No name of the one is a name of the other, kind by kind. -/
structure Apart (a b : NodeName) : Prop where
  role : a.role ≠ b.role
  profile : a.profile ≠ b.profile
  user : a.user ≠ b.user
  queue : a.queue ≠ b.queue

end NodeName

theorem label_chars {s : String} (h : labelMatches s = true) {c : Char} (hc : c ∈ s.toList) :
    c.isAlphanum = true ∨ c = '-' := by
  simp only [labelMatches, labelLike, Bool.and_eq_true, List.all_eq_true] at h
  have hc := h.2 c hc
  simp only [Bool.or_eq_true, beq_iff_eq] at hc
  rcases hc with (hlow | hdig) | hyphen
  · left
    rw [Char.isAlphanum, show c.isAlpha = true from ?_, Bool.true_or]
    exact Bool.or_eq_true_iff.mpr (.inr hlow)
  · left
    simp [Char.isAlphanum, hdig]
  · exact .inr hyphen

theorem nodeId_chars {s : String} (h : nodeIdError s = none) {c : Char} (hc : c ∈ s.toList) :
    c.isAlphanum = true ∨ c = '_' ∨ c = '-' := by
  have hm : nodeIdMatches s = true := by
    by_cases hm : nodeIdMatches s = true
    · exact hm
    · simp [nodeIdError, hm] at h
  unfold nodeIdMatches at hm
  cases hl : s.toList with
  | nil => rw [hl] at hc; cases hc
  | cons d ds =>
    rw [hl] at hm hc
    simp only [Bool.and_eq_true, List.all_eq_true, Bool.or_eq_true, beq_iff_eq] at hm
    rcases List.mem_cons.mp hc with rfl | hc
    · exact .inl hm.1.1
    · exact or_assoc.mp (hm.2 c hc)

/-- Nothing in an accepted name has to be replaced. -/
theorem iamSlug_text (a : NodeName) : (iamSlug a.clusterId a.nodeId).toList = a.text := by
  unfold iamSlug NodeName.text
  rw [String.toList_map]
  refine (List.map_congr_left fun c hc => ?_).trans (List.map_id _)
  apply if_pos
  have hc : c ∈ a.clusterId.toList ∨ c ∈ "-".toList ∨ c ∈ a.nodeId.toList := by simpa using hc
  have hchar : c.isAlphanum = true ∨ c = '_' ∨ c = '-' := by
    rcases hc with hc | hc | hc
    · rcases label_chars a.cluster_label hc with h | h
      · exact .inl h
      · exact .inr (.inr h)
    · exact .inr (.inr (by simpa using hc))
    · exact nodeId_chars a.node_ok hc
  rcases hchar with h | rfl | rfl
  · simp [h]
  · decide
  · decide

/-- Behind one fixed text, what is cut is told apart by what is left of it. -/
theorem take_append_eq_iff {α : Type} {p s t : List α} {n : Nat} :
    (p ++ s).take n = (p ++ t).take n ↔ s.take (n - p.length) = t.take (n - p.length) := by
  rw [List.take_append, List.take_append]
  exact ⟨fun h => List.append_cancel_left h, fun h => by rw [h]⟩

section Names

variable {a b : NodeName}

theorem role_eq_iff : a.role = b.role ↔ a.text.take 48 = b.text.take 48 := by
  unfold NodeName.role nodeRoleName
  rw [String.ofList_inj, String.toList_append, String.toList_append, iamSlug_text, iamSlug_text, take_append_eq_iff]
  exact Iff.rfl

theorem profile_eq_iff : a.profile = b.profile ↔ a.text.take 40 = b.text.take 40 := by
  unfold NodeName.profile nodeProfileName
  rw [String.ofList_inj, String.toList_append, String.toList_append, iamSlug_text, iamSlug_text, take_append_eq_iff]
  exact Iff.rfl

theorem queue_eq_iff : a.queue = b.queue ↔ a.text = b.text := by
  unfold NodeName.queue queueName NodeName.text
  rw [← String.toList_inj]
  simp only [String.toList_append, List.append_assoc, List.append_cancel_left_eq]

/-- The instance profile's name is the shortest of what is left. -/
theorem apart_iff : a.Apart b ↔ a.text.take 40 ≠ b.text.take 40 := by
  constructor
  · exact fun h he => h.profile (profile_eq_iff.mpr he)
  · intro hne
    have hrole : a.role ≠ b.role := by
      intro he
      have ht := congrArg (List.take 40) (role_eq_iff.mp he)
      rw [List.take_take, List.take_take] at ht
      exact hne ht
    refine ⟨hrole, fun he => hne (profile_eq_iff.mp he), hrole, fun he => hne ?_⟩
    rw [queue_eq_iff.mp he]

/-- Two nodes with one text: the one cluster's name goes on, from a hyphen, in the other's
    node id. -/
theorem text_eq_iff : a.text = b.text ↔ a = b ∨
    (∃ p, b.clusterId = a.clusterId ++ "-" ++ p ∧ a.nodeId = p ++ "-" ++ b.nodeId) ∨
      ∃ p, a.clusterId = b.clusterId ++ "-" ++ p ∧ b.nodeId = p ++ "-" ++ a.nodeId := by
  have hsplit : ∀ {c c' n n' : List Char}, c ++ '-' :: n = c' ++ '-' :: n' →
      (c = c' ∧ n = n') ∨ (∃ p, c' = c ++ '-' :: p ∧ n = p ++ '-' :: n') ∨ ∃ p, c = c' ++ '-' :: p ∧ n' = p ++ '-' :: n := by
    intro c c' n n' h
    rcases List.append_eq_append_iff.mp h with ⟨l, hc, hn⟩ | ⟨l, hc, hn⟩
    · cases l with
      | nil => exact .inl ⟨by simpa using hc.symm, (List.cons.inj hn).2⟩
      | cons d l =>
        obtain ⟨rfl, htail⟩ := List.cons.inj hn
        exact .inr (.inl ⟨l, hc, htail⟩)
    · cases l with
      | nil => exact .inl ⟨by simpa using hc, (List.cons.inj hn).2.symm⟩
      | cons d l =>
        obtain ⟨rfl, htail⟩ := List.cons.inj hn
        exact .inr (.inr ⟨l, hc, htail⟩)
  constructor
  · intro h
    have h : a.clusterId.toList ++ '-' :: a.nodeId.toList = b.clusterId.toList ++ '-' :: b.nodeId.toList := by
      simpa [NodeName.text] using h
    rcases hsplit h with ⟨hc, hn⟩ | ⟨p, hc, hn⟩ | ⟨p, hc, hn⟩
    · left
      have hc := String.toList_inj.mp hc
      have hn := String.toList_inj.mp hn
      cases a
      cases b
      cases hc
      cases hn
      rfl
    · refine .inr (.inl ⟨String.ofList p, ?_, ?_⟩) <;> rw [← String.toList_inj] <;> simp [hc, hn]
    · refine .inr (.inr ⟨String.ofList p, ?_, ?_⟩) <;> rw [← String.toList_inj] <;> simp [hc, hn]
  · rintro (rfl | ⟨p, hc, hn⟩ | ⟨p, hc, hn⟩)
    · rfl
    · unfold NodeName.text
      rw [hc, hn]
      simp
    · unfold NodeName.text
      rw [hc, hn]
      simp

end Names

/-! ## Policies -/

/-- A statement that allows; `prefixes` is its condition on `s3:prefix`. -/
structure Statement where
  sid : String
  actions : List String
  resources : List String
  prefixes : Option (List String) := none
  deriving DecidableEq, Repr

abbrev Policy := List Statement

/-- The account and region that names are scoped to: plain texts. -/
structure Scope where
  accountId : String
  region : String
  account_plain : Literal accountId.toList
  region_plain : Literal region.toList

def stateBucketName (accountId region : String) : String := "launch-pad-state-" ++ accountId ++ "-" ++ region

def sqsNotificationStatements (region accountId clusterId nodeId : String) : Policy :=
  let queueArn := "arn:aws:sqs:" ++ region ++ ":" ++ accountId ++ ":launch-pad-" ++ clusterId ++ "-" ++ nodeId
  [{ sid := "ReceiveDeployNotifications"
     actions := ["sqs:ReceiveMessage", "sqs:DeleteMessage", "sqs:GetQueueUrl"]
     resources := [queueArn] }]

def cloudWatchLogsStatements (region accountId clusterId : String) : Policy :=
  [{ sid := "CloudWatchLogs"
     actions := ["logs:CreateLogGroup", "logs:CreateLogStream", "logs:PutLogEvents", "logs:DescribeLogStreams",
       "logs:PutRetentionPolicy"]
     resources := ["arn:aws:logs:" ++ region ++ ":" ++ accountId ++ ":log-group:/launch-pad/" ++ clusterId ++ "/*"] },
   { sid := "CloudWatchLogsDescribe"
     actions := ["logs:DescribeLogGroups"]
     resources := ["arn:aws:logs:" ++ region ++ ":" ++ accountId ++ ":log-group:*"] }]

def ecrStatements (region accountId : String) : Policy :=
  [{ sid := "EcrAuth"
     actions := ["ecr:GetAuthorizationToken"]
     resources := ["*"] },
   { sid := "EcrPull"
     actions := ["ecr:BatchGetImage", "ecr:GetDownloadUrlForLayer", "ecr:BatchCheckLayerAvailability"]
     resources := ["arn:aws:ecr:" ++ region ++ ":" ++ accountId ++ ":repository/*"] }]

def ssmReadStatements (region accountId clusterId : String) : Policy :=
  [{ sid := "ReadSecrets"
     actions := ["ssm:GetParameter", "ssm:GetParameters"]
     resources := ["arn:aws:ssm:" ++ region ++ ":" ++ accountId ++ ":parameter/launch-pad/" ++ clusterId ++ "/*"] }]

def backupStatements (clusterId region accountId : String) : Policy :=
  let backupsBucket := backupsBucketName accountId region
  [{ sid := "BackupWrite"
     actions := ["s3:PutObject", "s3:DeleteObject"]
     resources := ["arn:aws:s3:::" ++ backupsBucket ++ "/" ++ clusterId ++ "/*"] },
   { sid := "BackupList"
     actions := ["s3:ListBucket"]
     resources := ["arn:aws:s3:::" ++ backupsBucket]
     prefixes := some [clusterId ++ "/*"] }]

def buildAppPolicy (bucket clusterId nodeId region accountId : String) : Policy :=
  let bucketArn := "arn:aws:s3:::" ++ bucket
  [{ sid := "ReadDesired"
     actions := ["s3:GetObject"]
     resources := [bucketArn ++ "/" ++ desiredKey clusterId nodeId] },
   { sid := "WriteStatus"
     actions := ["s3:PutObject"]
     resources := [bucketArn ++ "/" ++ statusKey clusterId nodeId] },
   { sid := "PublishUpstream"
     actions := ["s3:PutObject"]
     resources := [bucketArn ++ "/" ++ clusterNodesPrefix clusterId ++ "*/upstream/" ++ nodeId ++ ".json"] },
   { sid := "ListOwnPrefix"
     actions := ["s3:ListBucket"]
     resources := [bucketArn]
     prefixes := some [nodePrefix clusterId nodeId ++ "*"] }]
  ++ sqsNotificationStatements region accountId clusterId nodeId
  ++ cloudWatchLogsStatements region accountId clusterId
  ++ ecrStatements region accountId
  ++ ssmReadStatements region accountId clusterId
  ++ backupStatements clusterId region accountId

def buildEdgePolicy (bucket clusterId edgeId region accountId : String) : Policy :=
  let upstreamPrefix := nodePrefix clusterId edgeId ++ "upstream/"
  let bucketArn := "arn:aws:s3:::" ++ bucket
  [{ sid := "ReadUpstream"
     actions := ["s3:GetObject"]
     resources := [bucketArn ++ "/" ++ upstreamPrefix ++ "*"] },
   { sid := "WriteStatus"
     actions := ["s3:PutObject"]
     resources := [bucketArn ++ "/" ++ statusKey clusterId edgeId] },
   { sid := "ListUpstream"
     actions := ["s3:ListBucket"]
     resources := [bucketArn]
     prefixes := some [upstreamPrefix ++ "*"] }]
  ++ sqsNotificationStatements region accountId clusterId edgeId
  ++ cloudWatchLogsStatements region accountId clusterId

def buildNodePolicy (role : NodeRole) (bucket clusterId nodeId region accountId : String) : Policy :=
  if role = .app then buildAppPolicy bucket clusterId nodeId region accountId
  else buildEdgePolicy bucket clusterId nodeId region accountId

/-! ## What a policy lets its node write -/

/-- The S3 actions that change an object: all but the reads. -/
def writesObject (action : String) : Bool :=
  hasPrefix "s3:" action && action != "s3:GetObject" && action != "s3:ListBucket"

def Statement.grantsWrite (s : Statement) (resource : String) : Bool :=
  s.actions.any writesObject && s.resources.any fun r => globMatches r.toList resource.toList

/-- The object's name among all resources. -/
def objectArn (bucket key : String) : String := "arn:aws:s3:::" ++ bucket ++ "/" ++ key

/-- The policy lets its node write the object of the state bucket. -/
def MayWrite (S : Scope) (p : Policy) (key : String) : Prop :=
  ∃ s ∈ p, s.grantsWrite (objectArn (stateBucketName S.accountId S.region) key) = true

/-- `buildAppPolicy` and `buildEdgePolicy` for a node of the scope. -/
def NodeName.appPolicy (a : NodeName) (S : Scope) : Policy :=
  buildAppPolicy (stateBucketName S.accountId S.region) a.clusterId a.nodeId S.region S.accountId

def NodeName.edgePolicy (a : NodeName) (S : Scope) : Policy :=
  buildEdgePolicy (stateBucketName S.accountId S.region) a.clusterId a.nodeId S.region S.accountId

/-- Under the node's own cluster, in some `upstream/`, a file of the node's own name. -/
def InUpstream (a : NodeName) (key : String) : Prop :=
  ∃ m, key = clusterNodesPrefix a.clusterId ++ m ++ "/upstream/" ++ a.nodeId ++ ".json"

section Policies

variable {S : Scope} {a b : NodeName} {key : String}

theorem mayWrite_nil : ¬ MayWrite S [] key := by
  rintro ⟨s, hs, -⟩
  cases hs

theorem mayWrite_cons {s : Statement} {p : Policy} :
    MayWrite S (s :: p) key ↔
      s.grantsWrite (objectArn (stateBucketName S.accountId S.region) key) = true ∨ MayWrite S p key := by
  unfold MayWrite
  simp only [List.mem_cons, or_and_right, exists_or, exists_eq_left]

section Statements

variable {sid : String} {actions : List String} {prefixes : Option (List String)} {p : Policy}

/-- A statement of reads grants no write. -/
theorem mayWrite_reads {resources : List String} (h : actions.any writesObject = false) :
    MayWrite S (⟨sid, actions, resources, prefixes⟩ :: p) key ↔ MayWrite S p key := by
  rw [mayWrite_cons, or_iff_right]
  simp [Statement.grantsWrite, h]

theorem mayWrite_writes {r : String} (h : actions.any writesObject = true) :
    MayWrite S (⟨sid, actions, [r], prefixes⟩ :: p) key ↔
      globMatches r.toList (objectArn (stateBucketName S.accountId S.region) key).toList = true ∨ MayWrite S p key := by
  rw [mayWrite_cons]
  simp [Statement.grantsWrite, h]

end Statements

theorem literal_of_chars {s : String} (h : ∀ c ∈ s.toList, c.isAlphanum = true ∨ c = '_' ∨ c = '-') : Literal s.toList := by
  intro c hc
  rcases h c hc with h | rfl | rfl
  · constructor
    · rintro rfl
      exact absurd h (by decide)
    · rintro rfl
      exact absurd h (by decide)
  · decide
  · decide

/-- A fixed text without wildcards. -/
theorem literal_text {l : List Char} (h : Literal l) : Literal (String.ofList l).toList := by
  rw [String.toList_ofList]
  exact h

theorem NodeName.literal_cluster (a : NodeName) : Literal a.clusterId.toList := by
  refine literal_of_chars fun c hc => ?_
  rcases label_chars a.cluster_label hc with h | h
  · exact .inl h
  · exact .inr (.inr h)

theorem NodeName.literal_node (a : NodeName) : Literal a.nodeId.toList := literal_of_chars fun _ hc => nodeId_chars a.node_ok hc

theorem NodeName.literal_root (a : NodeName) : Literal (clusterNodesPrefix a.clusterId).toList := by
  unfold clusterNodesPrefix
  split
  · decide
  · simp only [String.toList_append]
    exact (((literal_text (by decide) : Literal clustersPrefix.toList).append a.literal_cluster).append (literal_text (by decide))).append (literal_text (by decide))

/-- A bucket's name. -/
theorem Scope.literal_bucket (S : Scope) {p : String} (hp : Literal p.toList) :
    Literal (p ++ S.accountId ++ "-" ++ S.region).toList := by
  simp only [String.toList_append]
  exact ((hp.append S.account_plain).append (literal_text (by decide))).append S.region_plain

/-- How an object of a bucket starts. -/
theorem literal_objectArn {bucket : String} (h : Literal bucket.toList) : Literal ("arn:aws:s3:::" ++ bucket ++ "/").toList := by
  simp only [String.toList_append]
  exact ((literal_text (by decide) : Literal "arn:aws:s3:::".toList).append h).append (literal_text (by decide))

theorem Scope.literal_state (S : Scope) : Literal ("arn:aws:s3:::" ++ stateBucketName S.accountId S.region ++ "/").toList :=
  literal_objectArn (S.literal_bucket (literal_text (by decide)))

/-- A pattern without wildcards is for one key. -/
theorem grants_key {k : String} (hk : Literal k.toList) :
    globMatches ("arn:aws:s3:::" ++ stateBucketName S.accountId S.region ++ "/" ++ k).toList
      (objectArn (stateBucketName S.accountId S.region) key).toList = true ↔ key = k := by
  unfold objectArn
  rw [String.toList_append, globMatches_literal (S.literal_state.append hk), String.toList_append]
  simp only [List.append_cancel_left_eq, String.toList_inj]

theorem literal_statusKey (a : NodeName) : Literal (statusKey a.clusterId a.nodeId).toList := by
  unfold statusKey nodePrefix
  simp only [String.toList_append]
  exact ((a.literal_root.append a.literal_node).append (literal_text (by decide))).append (literal_text (by decide))

theorem grants_upstream :
    globMatches ("arn:aws:s3:::" ++ stateBucketName S.accountId S.region ++ "/" ++ clusterNodesPrefix a.clusterId ++
        "*/upstream/" ++ a.nodeId ++ ".json").toList
      (objectArn (stateBucketName S.accountId S.region) key).toList = true ↔ InUpstream a key := by
  have htail : Literal ("/upstream/" ++ a.nodeId ++ ".json").toList := by
    simp only [String.toList_append]
    exact ((literal_text (by decide) : Literal "/upstream/".toList).append a.literal_node).append (literal_text (by decide))
  have hpattern : ("arn:aws:s3:::" ++ stateBucketName S.accountId S.region ++ "/" ++ clusterNodesPrefix a.clusterId ++
      "*/upstream/" ++ a.nodeId ++ ".json").toList =
      (("arn:aws:s3:::" ++ stateBucketName S.accountId S.region ++ "/").toList ++ (clusterNodesPrefix a.clusterId).toList) ++
        '*' :: ("/upstream/" ++ a.nodeId ++ ".json").toList := by
    simp
  rw [hpattern, globMatches_around (S.literal_state.append a.literal_root) htail]
  unfold objectArn InUpstream
  constructor
  · rintro ⟨m, hm⟩
    refine ⟨String.ofList m, ?_⟩
    rw [String.toList_append, List.append_assoc, List.append_cancel_left_eq] at hm
    rw [← String.toList_inj, hm]
    simp
  · rintro ⟨m, rfl⟩
    exact ⟨m.toList, by simp⟩

theorem bucket_names_differ (x y : List Char) : "launch-pad-state-".toList ++ x ≠ "launch-pad-backups-".toList ++ y := by
  intro h
  simp at h

/-- The backups are another bucket. -/
theorem backups_apart (clusterId : String) (hc : Literal clusterId.toList) :
    globMatches ("arn:aws:s3:::" ++ backupsBucketName S.accountId S.region ++ "/" ++ clusterId ++ "/*").toList
      (objectArn (stateBucketName S.accountId S.region) key).toList = false := by
  apply Bool.eq_false_of_not_eq_true
  intro h
  have hlit : Literal ("arn:aws:s3:::" ++ backupsBucketName S.accountId S.region ++ "/" ++ clusterId ++ "/").toList := by
    rw [String.toList_append, String.toList_append]
    exact ((literal_objectArn (S.literal_bucket (literal_text (by decide)))).append hc).append (literal_text (by decide))
  have hpattern : ("arn:aws:s3:::" ++ backupsBucketName S.accountId S.region ++ "/" ++ clusterId ++ "/*").toList =
      ("arn:aws:s3:::" ++ backupsBucketName S.accountId S.region ++ "/" ++ clusterId ++ "/").toList ++ '*' :: [] := by
    rw [String.toList_append, String.toList_append (t := "/"), List.append_assoc]
    rfl
  rw [hpattern, globMatches_around hlit (by decide)] at h
  obtain ⟨m, hm⟩ := h
  unfold objectArn stateBucketName backupsBucketName at hm
  repeat rw [String.toList_append] at hm
  repeat rw [List.append_assoc] at hm
  exact bucket_names_differ _ _ (List.append_cancel_left hm)

theorem app_mayWrite : MayWrite S (a.appPolicy S) key ↔ key = statusKey a.clusterId a.nodeId ∨ InUpstream a key := by
  unfold NodeName.appPolicy buildAppPolicy sqsNotificationStatements cloudWatchLogsStatements ecrStatements
    ssmReadStatements backupStatements
  simp only [List.cons_append, List.nil_append]
  rw [mayWrite_reads (by simp [writesObject, hasPrefix, List.isPrefixOf]), mayWrite_writes (by simp [writesObject, hasPrefix, List.isPrefixOf]), mayWrite_writes (by simp [writesObject, hasPrefix, List.isPrefixOf]),
    mayWrite_reads (by simp [writesObject, hasPrefix, List.isPrefixOf]), mayWrite_reads (by simp [writesObject, hasPrefix, List.isPrefixOf]), mayWrite_reads (by simp [writesObject, hasPrefix, List.isPrefixOf]),
    mayWrite_reads (by simp [writesObject, hasPrefix, List.isPrefixOf]), mayWrite_reads (by simp [writesObject, hasPrefix, List.isPrefixOf]), mayWrite_reads (by simp [writesObject, hasPrefix, List.isPrefixOf]),
    mayWrite_reads (by simp [writesObject, hasPrefix, List.isPrefixOf]), mayWrite_writes (by simp [writesObject, hasPrefix, List.isPrefixOf]), mayWrite_reads (by simp [writesObject, hasPrefix, List.isPrefixOf]),
    grants_key (literal_statusKey a), grants_upstream, backups_apart _ a.literal_cluster]
  simp [mayWrite_nil]

theorem edge_mayWrite : MayWrite S (a.edgePolicy S) key ↔ key = statusKey a.clusterId a.nodeId := by
  unfold NodeName.edgePolicy buildEdgePolicy sqsNotificationStatements cloudWatchLogsStatements
  simp only [List.cons_append, List.nil_append]
  rw [mayWrite_reads (by simp [writesObject, hasPrefix, List.isPrefixOf]), mayWrite_writes (by simp [writesObject, hasPrefix, List.isPrefixOf]), mayWrite_reads (by simp [writesObject, hasPrefix, List.isPrefixOf]),
    mayWrite_reads (by simp [writesObject, hasPrefix, List.isPrefixOf]), mayWrite_reads (by simp [writesObject, hasPrefix, List.isPrefixOf]), mayWrite_reads (by simp [writesObject, hasPrefix, List.isPrefixOf]),
    grants_key (literal_statusKey a)]
  simp [mayWrite_nil]

/-! ## What it keeps from it -/

/-- Two texts under clusters' roots that meet are under one cluster's. -/
theorem same_cluster {x y : List Char}
    (h : (clusterNodesPrefix a.clusterId).toList ++ x = (clusterNodesPrefix b.clusterId).toList ++ y) :
    a.clusterId = b.clusterId := by
  have hroots : ∀ c u v, (nodesPrefix.toList ++ u : List Char) ≠ (clustersPrefix ++ c ++ "/" ++ nodesPrefix).toList ++ v := by
    intro c u v he
    repeat rw [String.toList_append] at he
    have hhead := congrArg List.head? he
    simp [nodesPrefix, clustersPrefix] at hhead
  unfold clusterNodesPrefix at h
  split at h
  · rename_i ha
    split at h
    · rename_i hb
      rw [ha, hb]
    · exact (hroots _ _ _ h).elim
  · split at h
    · exact (hroots _ _ _ h.symm).elim
    · repeat rw [String.toList_append] at h
      repeat rw [List.append_assoc] at h
      have htail : a.clusterId.toList ++ '/' :: (nodesPrefix.toList ++ x) = b.clusterId.toList ++ '/' :: (nodesPrefix.toList ++ y) :=
        List.append_cancel_left h
      exact String.toList_inj.mp (segment_inj (slash_not_mem_label a.cluster_label) (slash_not_mem_label b.cluster_label) htail)

theorem nodePrefix_inj {x y : List Char}
    (h : (nodePrefix a.clusterId a.nodeId).toList ++ x = (nodePrefix b.clusterId b.nodeId).toList ++ y) : a = b := by
  unfold nodePrefix at h
  repeat rw [String.toList_append] at h
  repeat rw [List.append_assoc] at h
  have hc := same_cluster h
  rw [hc] at h
  have htail : a.nodeId.toList ++ '/' :: x = b.nodeId.toList ++ '/' :: y := List.append_cancel_left h
  have hn := String.toList_inj.mp (segment_inj (slash_not_mem a.node_ok) (slash_not_mem b.node_ok) htail)
  cases a
  cases b
  cases hc
  cases hn
  rfl

/-- A file right in a node's directory is in no `upstream/`. -/
theorem not_inUpstream_file {file : String} (hfile : '/' ∉ file.toList) :
    ¬ InUpstream a (nodePrefix b.clusterId b.nodeId ++ file) := by
  rintro ⟨m, hm⟩
  have hm := congrArg String.toList hm
  unfold nodePrefix at hm
  repeat rw [String.toList_append] at hm
  repeat rw [List.append_assoc] at hm
  have hc := same_cluster hm.symm
  rw [hc] at hm
  have hcount := congrArg (List.count '/') (List.append_cancel_left hm)
  simp only [List.count_append, List.count_eq_zero.mpr hfile, List.count_eq_zero.mpr (slash_not_mem b.node_ok)] at hcount
  have h1 : List.count '/' "/".toList = 1 := by simp
  have h2 : List.count '/' "/upstream/".toList = 2 := by simp
  omega

/-- A shard in some `upstream/` of the node's is the node's own. -/
theorem inUpstream_shard {edgeId : String} : InUpstream a (edgeUpstreamKey b.clusterId edgeId b.nodeId) ↔ b = a := by
  constructor
  · rintro ⟨m, hm⟩
    have hm := congrArg String.toList hm
    unfold edgeUpstreamKey edgeUpstreamPrefix nodePrefix at hm
    repeat rw [String.toList_append] at hm
    repeat rw [List.append_assoc] at hm
    have hc := same_cluster hm
    rw [hc] at hm
    have htail := List.append_cancel_left hm
    have hfile : ∀ n : NodeName, '/' ∉ n.nodeId.toList ++ ".json".toList := by
      intro n hmem
      rcases List.mem_append.mp hmem with hmem | hmem
      · exact slash_not_mem n.node_ok hmem
      · exact absurd hmem (by decide)
    have hlast : (edgeId.toList ++ '/' :: "upstream".toList) ++ '/' :: (b.nodeId.toList ++ ".json".toList) =
        (m.toList ++ '/' :: "upstream".toList) ++ '/' :: (a.nodeId.toList ++ ".json".toList) := by
      simpa using htail
    have hn := String.toList_inj.mp (List.append_cancel_right (last_segment_inj (hfile b) (hfile a) hlast).2)
    cases a
    cases b
    cases hc
    cases hn
    rfl
  · rintro rfl
    refine ⟨edgeId, ?_⟩
    unfold edgeUpstreamKey edgeUpstreamPrefix nodePrefix
    rw [← String.toList_inj]
    simp

/-- `cluster.json` is in no node's directory. -/
theorem clusterConfigKey_apart {id nodeId rest : String} (h : labelMatches id = true) :
    clusterConfigKey id ≠ nodePrefix a.clusterId nodeId ++ rest := by
  intro he
  have hout := clusterConfigKey_outside (slash_not_mem_label h) a.clusterId nodeId
  rw [he, hasPrefix_append] at hout
  cases hout

theorem not_inUpstream_clusterConfig {id : String} (h : labelMatches id = true) : ¬ InUpstream a (clusterConfigKey id) := by
  rintro ⟨m, hm⟩
  have hne : clusterConfigKey id ≠ nodePrefix a.clusterId m ++ ("upstream/" ++ a.nodeId ++ ".json") :=
    clusterConfigKey_apart h
  refine hne (hm.trans ?_)
  unfold nodePrefix
  rw [← String.toList_inj]
  simp

/-- A file right in a node's directory is another's status only as that. -/
theorem statusKey_eq {file : String}
    (h : nodePrefix b.clusterId b.nodeId ++ file = statusKey a.clusterId a.nodeId) : b = a ∧ file = "status.json" := by
  have h := congrArg String.toList h
  unfold statusKey at h
  rw [String.toList_append, String.toList_append] at h
  obtain rfl := nodePrefix_inj h
  exact ⟨rfl, String.toList_inj.mp (List.append_cancel_left h)⟩

theorem shard_ne_status {edgeId nodeId : String} : edgeUpstreamKey b.clusterId edgeId nodeId ≠ statusKey a.clusterId a.nodeId := by
  intro h
  have h := congrArg String.toList h
  unfold edgeUpstreamKey edgeUpstreamPrefix statusKey nodePrefix at h
  repeat rw [String.toList_append] at h
  repeat rw [List.append_assoc] at h
  rw [same_cluster h] at h
  have hcount := congrArg (List.count '/') (List.append_cancel_left h)
  simp only [List.count_append, List.count_eq_zero.mpr (slash_not_mem a.node_ok)] at hcount
  have h1 : List.count '/' "/".toList = 1 := by simp
  have h2 : List.count '/' "upstream/".toList = 1 := by simp
  have h3 : List.count '/' "status.json".toList = 0 := by simp
  omega

/-- The records that no node may write, and those that only their own node may. -/
structure Spares (S : Scope) (a : NodeName) (p : Policy) : Prop where
  desired : ∀ b : NodeName, ¬ MayWrite S p (desiredKey b.clusterId b.nodeId)
  node : ∀ b : NodeName, ¬ MayWrite S p (nodeRegistryKey b.clusterId b.nodeId)
  edge : ∀ b : NodeName, ¬ MayWrite S p (edgeConfigKey b.clusterId b.nodeId)
  cluster : ∀ id, labelMatches id = true → ¬ MayWrite S p (clusterConfigKey id)
  status : ∀ b : NodeName, b ≠ a → ¬ MayWrite S p (statusKey b.clusterId b.nodeId)
  shard : ∀ (b : NodeName) (edgeId : String), b ≠ a → ¬ MayWrite S p (edgeUpstreamKey b.clusterId edgeId b.nodeId)

theorem spares_of {p : Policy} (h : ∀ key, MayWrite S p key → key = statusKey a.clusterId a.nodeId ∨ InUpstream a key) :
    Spares S a p := by
  have hfile : ∀ (b : NodeName) (file : String), '/' ∉ file.toList → MayWrite S p (nodePrefix b.clusterId b.nodeId ++ file) →
      b = a ∧ file = "status.json" := by
    intro b file hslash hw
    rcases h _ hw with hs | hu
    · exact statusKey_eq hs
    · exact (not_inUpstream_file hslash hu).elim
  constructor
  case desired => exact fun b hw => absurd (hfile b _ (by simp) hw).2 (by simp)
  case node => exact fun b hw => absurd (hfile b _ (by simp) hw).2 (by simp)
  case edge => exact fun b hw => absurd (hfile b _ (by simp) hw).2 (by simp)
  case cluster =>
    intro id hid hw
    rcases h _ hw with hs | hu
    · exact clusterConfigKey_apart hid hs
    · exact not_inUpstream_clusterConfig hid hu
  case status => exact fun b hb hw => hb (hfile b _ (by simp) hw).1
  case shard =>
    intro b edgeId hb hw
    rcases h _ hw with hs | hu
    · exact shard_ne_status hs
    · exact hb (inUpstream_shard.mp hu)

end Policies

/-- An app node writes its status and whatever ends, in some `upstream/` of its cluster,
    with its own name: its shards are among these, and no record or other node's file is.
    An edge writes its status only. -/
theorem policies_confined (S : Scope) (a : NodeName) :
    (∀ key, MayWrite S (a.appPolicy S) key ↔ key = statusKey a.clusterId a.nodeId ∨ InUpstream a key) ∧
      (∀ key, MayWrite S (a.edgePolicy S) key ↔ key = statusKey a.clusterId a.nodeId) ∧
      (∀ edgeId, InUpstream a (edgeUpstreamKey a.clusterId edgeId a.nodeId)) ∧
      Spares S a (a.appPolicy S) ∧ Spares S a (a.edgePolicy S) :=
  ⟨fun _ => app_mayWrite, fun _ => edge_mayWrite, fun _ => inUpstream_shard.mpr rfl,
    spares_of fun _ h => app_mayWrite.mp h, spares_of fun _ h => .inl (edge_mayWrite.mp h)⟩

def sampleScope : Scope where
  accountId := "123456789012"
  region := "us-east-1"
  account_plain := literal_text (by decide)
  region_plain := literal_text (by decide)

theorem n1_ok : nodeIdError "n1" = none := by decide

def firstNode : NodeName := ⟨"default", "n1", default_label, n1_ok⟩

/-- The pattern's star runs over a separator: a key that is no edge's. -/
theorem upstream_pattern_spans_segments :
    ∃ (S : Scope) (a : NodeName) (key : String), MayWrite S (a.appPolicy S) key ∧ key ≠ statusKey a.clusterId a.nodeId ∧
      ∀ edgeId, nodeIdError edgeId = none → key ≠ edgeUpstreamKey a.clusterId edgeId a.nodeId := by
  refine ⟨sampleScope, firstNode, "nodes/a/b/upstream/n1.json", ?_, by decide +kernel, fun edgeId hedge he => ?_⟩
  · refine ⟨_, List.mem_cons_of_mem _ (List.mem_cons_of_mem _ (List.mem_cons_self ..)), ?_⟩
    decide +kernel
  · have hchars := congrArg (fun s => List.count '/' (String.toList s)) he
    simp only [edgeUpstreamKey, edgeUpstreamPrefix, nodePrefix, String.toList_append, List.count_append,
      List.count_eq_zero.mpr (slash_not_mem hedge)] at hchars
    exact absurd hchars (by decide +kernel)

/-! ## The calls -/

structure Role where
  description : String
  inlinePolicy : Option Policy := none
  managed : List String := []
  tags : List (String × String) := []
  deriving DecidableEq, Repr

/-- It holds one role at most. -/
structure InstanceProfile where
  roles : List String := []
  tags : List (String × String) := []
  deriving DecidableEq, Repr

structure User where
  inlinePolicy : Option Policy := none
  tags : List (String × String) := []
  /-- The access keys, and whether each is active. -/
  keys : List (String × Bool) := []
  deriving DecidableEq, Repr

structure Queue where
  sender : Option String := none
  subscribedTo : List String := []
  deriving DecidableEq, Repr

structure Account where
  roles : SortedMap String Role := []
  profiles : SortedMap String InstanceProfile := []
  users : SortedMap String User := []
  queues : SortedMap String Queue := []

/-- An AWS call on the resource of a name: from what is there to what is then, or an error. -/
inductive Call where
  | role (name : String) (f : Option Role → Option (Option Role))
  | profile (name : String) (f : Option InstanceProfile → Option (Option InstanceProfile))
  | user (name : String) (f : Option User → Option (Option User))
  | queue (name : String) (f : Option Queue → Option (Option Queue))

def put {β : Type} (name : String) (v : Option β) (m : SortedMap String β) : SortedMap String β :=
  match v with
  | some v => SortedMap.insert name v m
  | none => SortedMap.erase name m

theorem get_put_ne {β : Type} {name other : String} (h : other ≠ name) (v : Option β) (m : SortedMap String β) :
    SortedMap.get other (put name v m) = SortedMap.get other m := by
  cases v with
  | none => rw [put, SortedMap.get_erase, if_neg h]
  | some v => rw [put, SortedMap.get_insert_ne h]

def Call.apply (acct : Account) : Call → Option Account
  | .role name f => (f (SortedMap.get name acct.roles)).map fun r => { acct with roles := put name r acct.roles }
  | .profile name f => (f (SortedMap.get name acct.profiles)).map fun r => { acct with profiles := put name r acct.profiles }
  | .user name f => (f (SortedMap.get name acct.users)).map fun r => { acct with users := put name r acct.users }
  | .queue name f => (f (SortedMap.get name acct.queues)).map fun r => { acct with queues := put name r acct.queues }

/-- The calls one after the other, up to the first that fails. -/
def runCalls : List Call → Account → Account
  | [], acct => acct
  | c :: cs, acct =>
    match c.apply acct with
    | none => acct
    | some acct' => runCalls cs acct'

/-- It exists already, or is made as `new`. -/
def create {β : Type} (new : β) (r : Option β) : Option (Option β) := some (some (r.getD new))

/-- An error when it is missing. -/
def update {β : Type} (f : β → Option β) (r : Option β) : Option (Option β) := (r.bind f).map some

/-- `ignoreMissing`: a missing one is no error. -/
def ignoreMissing {β : Type} (f : β → Option (Option β)) : Option β → Option (Option β)
  | none => some none
  | some r => f r

def ssmManagedInstanceCoreArn : String := "arn:aws:iam::aws:policy/AmazonSSMManagedInstanceCore"

def nodeRoleText : NodeRole → String
  | .app => "app"
  | .edge => "edge"
  | .both => "both"

/-- `nodeResourceTags` (`aws-tags.ts`). -/
def nodeResourceTags (clusterId nodeId : String) (role : NodeRole) : List (String × String) :=
  [("launch-pad", "true"), ("launch-pad:cluster", clusterId), ("launch-pad:node", nodeId),
   ("launch-pad:role", nodeRoleText role), ("Name", "launch-pad-" ++ nodeId)]

structure EnsureNodeIamParams where
  role : NodeRole
  bucket : String
  region : String
  accountId : String

namespace NodeName

variable (a : NodeName)

def policyFor (params : EnsureNodeIamParams) : Policy :=
  buildNodePolicy params.role params.bucket a.clusterId a.nodeId params.region params.accountId

def ensureNodeIam (params : EnsureNodeIamParams) : List Call :=
  let tags := nodeResourceTags a.clusterId a.nodeId params.role
  [.role a.role (create { description := "launchpad node " ++ a.nodeId ++ " (" ++ nodeRoleText params.role ++ ")" }),
   .role a.role (update fun r => some { r with inlinePolicy := some (a.policyFor params) }),
   .role a.role (update fun r => some { r with managed := r.managed.insert ssmManagedInstanceCoreArn }),
   .profile a.profile (create {}),
   .profile a.profile (update fun p =>
     if p.roles.contains a.role then some p else if p.roles.isEmpty then some { p with roles := [a.role] } else none),
   .role a.role (update fun r => some { r with tags }),
   .profile a.profile (update fun p => some { p with tags })]

/-- IAM refuses to delete what still has something attached. -/
def deleteNodeIam : List Call :=
  [.profile a.profile (ignoreMissing fun p => some (some { p with roles := p.roles.erase a.role })),
   .profile a.profile (ignoreMissing fun p => if p.roles.isEmpty then some none else none),
   .role a.role (ignoreMissing fun r => some (some { r with managed := r.managed.erase ssmManagedInstanceCoreArn })),
   .role a.role (ignoreMissing fun r => some (some { r with inlinePolicy := none })),
   .role a.role (ignoreMissing fun r => if r.managed.isEmpty && r.inlinePolicy.isNone then some none else none)]

/-- `newKey` is the id of the access key that IAM makes. -/
def ensureExternalNodeIam (params : EnsureNodeIamParams) (newKey : String) : List Call :=
  [.user a.user (create {}),
   .user a.user (update fun u => some { u with inlinePolicy := some (a.policyFor params) }),
   .user a.user (update fun u => some { u with tags := nodeResourceTags a.clusterId a.nodeId params.role }),
   .user a.user (update fun u => some { u with keys := u.keys.filter (·.2) }),
   .user a.user (update fun u =>
     if 2 ≤ (u.keys.filter (·.2)).length then none else some { u with keys := u.keys ++ [(newKey, true)] })]

def deleteExternalNodeIam : List Call :=
  [.user a.user (ignoreMissing fun u => some (some { u with keys := [] })),
   .user a.user (ignoreMissing fun u => some (some { u with inlinePolicy := none })),
   .user a.user (ignoreMissing fun u => if u.keys.isEmpty && u.inlinePolicy.isNone then some none else none)]

def ensureNodeQueue (topicArn : String) : List Call :=
  [.queue a.queue (create {}),
   .queue a.queue (update fun q => some { q with sender := some topicArn }),
   .queue a.queue (update fun q => some { q with subscribedTo := q.subscribedTo.insert topicArn })]

end NodeName

/-- What is done to one node's identity. -/
inductive Command where
  | ensureNodeIam (params : EnsureNodeIamParams)
  | deleteNodeIam
  | ensureExternalNodeIam (params : EnsureNodeIamParams) (newKey : String)
  | deleteExternalNodeIam
  | ensureNodeQueue (topicArn : String)

def Command.calls (a : NodeName) : Command → List Call
  | .ensureNodeIam params => a.ensureNodeIam params
  | .deleteNodeIam => a.deleteNodeIam
  | .ensureExternalNodeIam params newKey => a.ensureExternalNodeIam params newKey
  | .deleteExternalNodeIam => a.deleteExternalNodeIam
  | .ensureNodeQueue topicArn => a.ensureNodeQueue topicArn

/-- What the account holds under a node's names. -/
def Account.identity (acct : Account) (a : NodeName) :
    Option Role × Option InstanceProfile × Option User × Option Queue :=
  (SortedMap.get a.role acct.roles, SortedMap.get a.profile acct.profiles, SortedMap.get a.user acct.users,
    SortedMap.get a.queue acct.queues)

/-- The call is on a resource of the node's. -/
def Call.On (b : NodeName) : Call → Prop
  | .role name _ => name = b.role
  | .profile name _ => name = b.profile
  | .user name _ => name = b.user
  | .queue name _ => name = b.queue

theorem calls_on (b : NodeName) (cmd : Command) : ∀ c ∈ cmd.calls b, c.On b := by
  intro c hc
  cases cmd <;>
    · simp only [Command.calls, NodeName.ensureNodeIam, NodeName.deleteNodeIam, NodeName.ensureExternalNodeIam,
        NodeName.deleteExternalNodeIam, NodeName.ensureNodeQueue, List.mem_cons, List.not_mem_nil, or_false] at hc
      rcases hc with rfl | rfl | rfl | rfl | rfl | rfl | rfl <;> rfl

/-- A call on another node's resource leaves an identity as it was. -/
theorem apply_identity {a b : NodeName} (hab : a.Apart b) {c : Call} (hc : c.On b) {acct acct' : Account}
    (h : c.apply acct = some acct') : acct'.identity a = acct.identity a := by
  cases c <;>
    · obtain ⟨r, -, rfl⟩ := Option.map_eq_some_iff.mp h
      obtain rfl := hc
      simp only [Account.identity, get_put_ne hab.role, get_put_ne hab.profile, get_put_ne hab.user, get_put_ne hab.queue]

theorem runCalls_identity {a b : NodeName} (hab : a.Apart b) {cs : List Call} (hcs : ∀ c ∈ cs, c.On b) (acct : Account) :
    (runCalls cs acct).identity a = acct.identity a := by
  induction cs generalizing acct with
  | nil => rfl
  | cons c cs ih =>
    simp only [runCalls]
    split
    · rfl
    · rename_i acct' happly
      rw [ih fun c hc => hcs c (List.mem_cons_of_mem _ hc)]
      exact apply_identity hab (hcs c (List.mem_cons_self ..)) happly

def euNode : NodeName := ⟨"prod", "eu-1", by decide +kernel, by decide⟩

def euCluster : NodeName := ⟨"prod-eu", "1", by decide +kernel, by decide⟩

end LaunchPad.Cli.Iam
