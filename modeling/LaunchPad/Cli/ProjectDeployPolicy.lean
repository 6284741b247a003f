/-
  LaunchPad.Cli.ProjectDeployPolicy — the policy of a CI role that deploys one project to one
  named cluster (`setup/project-deploy-policy.ts`), against the keys, repositories and
  parameters a deploy uses.

  A resource's `*` runs over `/` too. The region condition on the EC2 statement is left
  out: no object, repository or parameter is behind it.

  As built:
  - `component_cannot_read_secrets`: secrets lie under the footprint's owner, the policy
    names the project: the footprints with a component or an environment are not covered.

  Proved:
  - `deploy_policy_confined_iff`: the policy lets its holder touch objects of the cluster and
    repositories of the project only, and read every object a deploy reads; of a
    footprint's secrets it lets read the project's own and no others, exactly when the owner
    tells the two apart.
-/
import LaunchPad.Cli.Iam
import LaunchPad.Shared.Footprint

namespace LaunchPad.Cli.Iam

open Lib

/-! ## The policy -/

/-- The account and region by AWS's own rules for their names. -/
structure CiScope extends Scope where
  account_digits : ∀ c ∈ accountId.toList, c.isDigit = true
  region_chars : ∀ c ∈ region.toList, (c.isAlphanum || c == '-') = true

def buildProjectDeployPolicy (accountId region cluster project : String) : Policy :=
  let bucketArn := "arn:aws:s3:::" ++ stateBucketName accountId region
  [{ sid := "Sts"
     actions := ["sts:GetCallerIdentity"]
     resources := ["*"] },
   { sid := "StateBucketLevel"
     actions := ["s3:ListBucket", "s3:GetBucketLocation", "s3:PutBucketTagging"]
     resources := [bucketArn] },
   { sid := "ClusterStateObjectsOnly"
     actions := ["s3:GetObject", "s3:PutObject", "s3:DeleteObject"]
     resources := [bucketArn ++ "/clusters/" ++ cluster ++ "/*"] },
   { sid := "EcrAuth"
     actions := ["ecr:GetAuthorizationToken"]
     resources := ["*"] },
   { sid := "EcrProjectReposOnly"
     actions := ["ecr:CreateRepository", "ecr:DescribeRepositories", "ecr:DescribeImages", "ecr:ListImages",
       "ecr:TagResource", "ecr:BatchCheckLayerAvailability", "ecr:GetDownloadUrlForLayer", "ecr:BatchGetImage",
       "ecr:InitiateLayerUpload", "ecr:UploadLayerPart", "ecr:CompleteLayerUpload", "ecr:PutImage"]
     resources := ["arn:aws:ecr:" ++ region ++ ":" ++ accountId ++ ":repository/" ++ project ++ "/*"] },
   { sid := "SecretsProjectClusterOnly"
     actions := ["ssm:GetParameter", "ssm:GetParameters", "ssm:GetParametersByPath"]
     resources := ["arn:aws:ssm:" ++ region ++ ":" ++ accountId ++ ":parameter/launch-pad/" ++ cluster ++ "/" ++ project ++ "/*"] },
   { sid := "SsmPublicAmiParam"
     actions := ["ssm:GetParameter"]
     resources := ["arn:aws:ssm:" ++ region ++ "::parameter/aws/service/*"] },
   { sid := "Ec2ReadOnlyDriftObservation"
     actions := ["ec2:DescribeInstances", "ec2:DescribeInstanceStatus"]
     resources := ["*"] }]

/-- The policy allows the action on the resource. -/
def Allows (p : Policy) (action resource : String) : Prop :=
  ∃ s ∈ p, action ∈ s.actions ∧ ∃ r ∈ s.resources, globMatches r.toList resource.toList = true

def repositoryArn (S : Scope) (name : String) : String :=
  "arn:aws:ecr:" ++ S.region ++ ":" ++ S.accountId ++ ":repository/" ++ name

def parameterArn (S : Scope) (path : String) : String :=
  "arn:aws:ssm:" ++ S.region ++ ":" ++ S.accountId ++ ":parameter" ++ path

/-! ## What a deploy uses -/

/-- The state keys of a cluster, by their builders (`s3-keys.ts`). -/
inductive StateKey (clusterId : String) : String → Prop
  | cluster : StateKey clusterId (clusterConfigKey clusterId)
  | registry (nodeId) : StateKey clusterId (nodeRegistryKey clusterId nodeId)
  | desired (nodeId) : StateKey clusterId (desiredKey clusterId nodeId)
  | status (nodeId) : StateKey clusterId (statusKey clusterId nodeId)
  | edge (nodeId) : StateKey clusterId (edgeConfigKey clusterId nodeId)
  | upstream (edgeId appNodeId) : StateKey clusterId (edgeUpstreamKey clusterId edgeId appNodeId)
  | baseline (owner) : StateKey clusterId (configBaselineKey clusterId owner)
  | preview (owner) : StateKey clusterId (previewMarkerKey clusterId owner)
  | index (project) : StateKey clusterId (projectIndexKey clusterId project)
  | event (owner time id) : StateKey clusterId (deployEventKey clusterId owner time id)
  | build (owner service tag) : StateKey clusterId (remoteBuildContextKey clusterId owner service tag)

/-- The parameters that `assertSecretsPresent` looks up. -/
def assertedSecretPaths (clusterId ownerProject : String) (services : List ServiceDecl) : List String :=
  services.flatMap fun decl => decl.secrets.map fun key => secretParameterPath clusterId ownerProject decl.name key

/-- Of a footprint's secrets: those of the project's own are readable, and no others. -/
def SecretsRight (S : Scope) (cluster project : String) (a : FootprintIdentity) : Prop :=
  (a.project = project → ∀ services, ∀ path ∈ assertedSecretPaths cluster a.owner services,
    Allows (buildProjectDeployPolicy S.accountId S.region cluster project) "ssm:GetParameters" (parameterArn S path)) ∧
  (a.project ≠ project → ∀ action clusterId service key, hasPrefix "ssm:" action = true → labelMatches clusterId = true →
    ¬ Allows (buildProjectDeployPolicy S.accountId S.region cluster project) action
      (parameterArn S (secretParameterPath clusterId a.owner service key)))

/-! ## Matching -/

/-- A pattern that ends with its only wildcard. -/
theorem globMatches_under {p s : String} (hp : Literal p.toList) :
    globMatches (p ++ "*").toList s.toList = true ↔ hasPrefix p s = true := by
  have hstar : ("*" : String).toList = ['*'] := rfl
  rw [String.toList_append, hstar, hasPrefix_iff, globMatches_append hp]
  constructor
  · rintro ⟨r, hr, -⟩
    exact ⟨r, hr.symm⟩
  · rintro ⟨r, hr⟩
    exact ⟨r, hr.symm, globMatches_star.mpr ⟨r, [], by simp, rfl⟩⟩

/-- An action of another service. -/
theorem foreign {service action : String} {actions : List String} (h : hasPrefix service action = true)
    (hnone : ∀ a ∈ actions, hasPrefix service a = false) : action ∉ actions := by
  intro hmem
  rw [hnone action hmem] at h
  cases h

/-- A fixed text without a character. -/
theorem not_mem_text {c : Char} {l : List Char} (h : c ∉ l) : c ∉ (String.ofList l).toList := by
  rw [String.toList_ofList]
  exact h

/-- A fixed text all of whose characters are such. -/
theorem all_text {p : Char → Bool} {l : List Char} (h : l.all p = true) : ∀ c ∈ (String.ofList l).toList, p c = true := by
  rw [String.toList_ofList]
  exact List.all_eq_true.mp h

section Plain

variable (S : CiScope)

theorem CiScope.account_avoids {c : Char} (hc : c.isDigit = false) : c ∉ S.accountId.toList := by
  intro hmem
  rw [S.account_digits c hmem] at hc
  cases hc

theorem CiScope.slash_not_mem_state : '/' ∉ (stateBucketName S.accountId S.region).toList := by
  have haccount : '/' ∉ S.accountId.toList := S.account_avoids (by decide)
  have hregion : '/' ∉ S.region.toList := by
    intro hmem
    exact absurd (S.region_chars '/' hmem) (by decide)
  have hname : '/' ∉ ("launch-pad-state-" : String).toList := not_mem_text (by decide)
  have hhyphen : '/' ∉ ("-" : String).toList := not_mem_text (by decide)
  unfold stateBucketName
  rw [String.toList_append, String.toList_append, String.toList_append, List.mem_append, List.mem_append, List.mem_append]
  rintro (((h | h) | h) | h)
  · exact hname h
  · exact haccount h
  · exact hhyphen h
  · exact hregion h

theorem literal_label {s : String} (h : labelMatches s = true) : Literal s.toList := by
  refine literal_of_chars fun c hc => ?_
  rcases label_chars h hc with h | h
  · exact .inl h
  · exact .inr (.inr h)

theorem slash_star (s : String) : s ++ "/*" = s ++ "/" ++ "*" := by
  rw [String.append_assoc]
  rfl

variable {cluster project : String}

theorem literal_clusterObjects (hcluster : labelMatches cluster = true) :
    Literal ("arn:aws:s3:::" ++ stateBucketName S.accountId S.region ++ "/clusters/" ++ cluster ++ "/").toList := by
  simp only [String.toList_append]
  have hbucket := S.literal_bucket (p := "launch-pad-state-") (literal_text (by decide))
  refine (((Literal.append (literal_text (by decide)) ?_).append (literal_text (by decide))).append
    (literal_label hcluster)).append (literal_text (by decide))
  exact hbucket

theorem literal_repositories (hproject : labelMatches project = true) :
    Literal ("arn:aws:ecr:" ++ S.region ++ ":" ++ S.accountId ++ ":repository/" ++ project ++ "/").toList := by
  simp only [String.toList_append]
  exact ((((((literal_text (by decide)).append S.region_plain).append (literal_text (by decide))).append
    S.account_plain).append (literal_text (by decide))).append (literal_label hproject)).append (literal_text (by decide))

theorem literal_secrets (hcluster : labelMatches cluster = true) (hproject : labelMatches project = true) :
    Literal ("arn:aws:ssm:" ++ S.region ++ ":" ++ S.accountId ++ ":parameter/launch-pad/" ++ cluster ++ "/" ++ project ++
      "/").toList := by
  simp only [String.toList_append]
  exact ((((((((literal_text (by decide)).append S.region_plain).append (literal_text (by decide))).append
    S.account_plain).append (literal_text (by decide))).append (literal_label hcluster)).append
    (literal_text (by decide))).append (literal_label hproject)).append (literal_text (by decide))

theorem literal_amis : Literal ("arn:aws:ssm:" ++ S.region ++ "::parameter/aws/service/").toList := by
  simp only [String.toList_append]
  exact ((literal_text (by decide)).append S.region_plain).append (literal_text (by decide))

end Plain

/-! ## What each statement covers -/

section Covers

variable {S : CiScope} {cluster project action : String}

/-- The statements that name an object, repository or parameter. -/
theorem allows_cases {resource : String}
    (h : Allows (buildProjectDeployPolicy S.accountId S.region cluster project) action resource) :
    action ∈ ["sts:GetCallerIdentity", "ecr:GetAuthorizationToken", "ec2:DescribeInstances", "ec2:DescribeInstanceStatus"] ∨
    (hasPrefix "s3:" action = true ∧ (resource = "arn:aws:s3:::" ++ stateBucketName S.accountId S.region ∨
      globMatches ("arn:aws:s3:::" ++ stateBucketName S.accountId S.region ++ "/clusters/" ++ cluster ++ "/*").toList
        resource.toList = true)) ∨
    (hasPrefix "ecr:" action = true ∧
      globMatches ("arn:aws:ecr:" ++ S.region ++ ":" ++ S.accountId ++ ":repository/" ++ project ++ "/*").toList
        resource.toList = true) ∨
    (hasPrefix "ssm:" action = true ∧
      (globMatches ("arn:aws:ssm:" ++ S.region ++ ":" ++ S.accountId ++ ":parameter/launch-pad/" ++ cluster ++ "/" ++ project ++
          "/*").toList resource.toList = true ∨
        globMatches ("arn:aws:ssm:" ++ S.region ++ "::parameter/aws/service/*").toList resource.toList = true)) := by
  have hbucket : Literal ("arn:aws:s3:::" ++ stateBucketName S.accountId S.region).toList := by
    rw [String.toList_append]
    exact Literal.append (literal_text (by decide)) (S.literal_bucket (literal_text (by decide)))
  have hservice : ∀ {service : String} {actions : List String}, action ∈ actions →
      (∀ a ∈ actions, hasPrefix service a = true) → hasPrefix service action = true := fun hmem hall => hall _ hmem
  obtain ⟨s, hs, haction, r, hr, hmatch⟩ := h
  simp only [buildProjectDeployPolicy, List.mem_cons, List.not_mem_nil, or_false] at hs
  rcases hs with rfl | rfl | rfl | rfl | rfl | rfl | rfl | rfl
  · rw [List.mem_singleton.mp haction]
    exact .inl (by simp)
  · obtain rfl := List.mem_singleton.mp hr
    have hall : ∀ a ∈ ["s3:ListBucket", "s3:GetBucketLocation", "s3:PutBucketTagging"], hasPrefix "s3:" a = true := by
      simp [hasPrefix]
    exact .inr (.inl ⟨hservice haction hall, .inl (String.toList_injective ((globMatches_literal hbucket).mp hmatch))⟩)
  · obtain rfl := List.mem_singleton.mp hr
    have hall : ∀ a ∈ ["s3:GetObject", "s3:PutObject", "s3:DeleteObject"], hasPrefix "s3:" a = true := by
      simp [hasPrefix]
    exact .inr (.inl ⟨hservice haction hall, .inr hmatch⟩)
  · rw [List.mem_singleton.mp haction]
    exact .inl (by simp)
  · obtain rfl := List.mem_singleton.mp hr
    exact .inr (.inr (.inl ⟨hservice haction (by simp [hasPrefix]), hmatch⟩))
  · obtain rfl := List.mem_singleton.mp hr
    exact .inr (.inr (.inr ⟨hservice haction (by simp [hasPrefix]), .inl hmatch⟩))
  · obtain rfl := List.mem_singleton.mp hr
    exact .inr (.inr (.inr ⟨hservice haction (by simp [hasPrefix]), .inr hmatch⟩))
  · left
    simp only [List.mem_cons, List.not_mem_nil, or_false] at haction
    rcases haction with rfl | rfl <;> simp

/-- Neither S3 nor SSM has an action without a resource among these. -/
theorem named_resource (h : hasPrefix "s3:" action = true ∨ hasPrefix "ssm:" action = true) :
    action ∉ ["sts:GetCallerIdentity", "ecr:GetAuthorizationToken", "ec2:DescribeInstances", "ec2:DescribeInstanceStatus"] := by
  rcases h with h | h
  · exact foreign h (by simp [hasPrefix, List.isPrefixOf])
  · exact foreign h (by simp [hasPrefix, List.isPrefixOf])

/-- No action is of two services. -/
theorem services_apart {service service' : String} (h : hasPrefix service action = true) (h' : hasPrefix service' action = true) :
    service.toList <+: service'.toList ∨ service'.toList <+: service.toList := by
  obtain ⟨x, hx⟩ := hasPrefix_iff.mp h
  obtain ⟨y, hy⟩ := hasPrefix_iff.mp h'
  exact List.prefix_or_prefix_of_prefix ⟨x, hx⟩ ⟨y, hy⟩

/-- Objects of the cluster's directory of the state bucket. -/
theorem objects_confined (hcluster : labelMatches cluster = true) {bucket key : String} (hs3 : hasPrefix "s3:" action = true)
    (hslash : '/' ∉ bucket.toList)
    (h : Allows (buildProjectDeployPolicy S.accountId S.region cluster project) action (objectArn bucket key)) :
    bucket = stateBucketName S.accountId S.region ∧ hasPrefix (clustersPrefix ++ cluster ++ "/") key = true := by
  have harn : ("arn:aws:s3:::" : String).toList ++ bucket.toList ++ '/' :: key.toList = (objectArn bucket key).toList := by
    have hsep : ("/" : String).toList = ['/'] := rfl
    simp only [objectArn, String.toList_append, hsep, List.append_assoc, List.singleton_append]
  rcases allows_cases h with hnone | ⟨-, hbucket | hobject⟩ | ⟨hecr, -⟩ | ⟨hssm, -⟩
  · exact absurd hnone (named_resource (.inl hs3))
  · -- a bucket is no object
    rw [hbucket, String.toList_append, List.append_assoc, List.append_cancel_left_eq] at harn
    have hmem : '/' ∈ (stateBucketName S.accountId S.region).toList := by
      rw [← harn]
      simp
    exact absurd hmem S.slash_not_mem_state
  · rw [slash_star, globMatches_under (literal_clusterObjects S hcluster)] at hobject
    obtain ⟨rest, hrest⟩ := hasPrefix_iff.mp hobject
    have hdir : ("/clusters/" : String).toList = '/' :: clustersPrefix.toList := rfl
    rw [← harn] at hrest
    simp only [String.toList_append, hdir, List.append_assoc, List.cons_append, List.append_cancel_left_eq] at hrest
    have hname := segment_inj S.slash_not_mem_state hslash hrest
    rw [hname] at hrest
    refine ⟨(String.toList_injective hname).symm, hasPrefix_iff.mpr ⟨rest, ?_⟩⟩
    have hkey := (List.cons.inj (List.append_cancel_left hrest)).2
    simp only [String.toList_append, List.append_assoc]
    exact hkey
  · exact absurd (services_apart hs3 hecr) (by simp)
  · exact absurd (services_apart hs3 hssm) (by simp)

/-- Repositories of the project. -/
theorem repositories_confined (hproject : labelMatches project = true) {repository : String} (hecr : hasPrefix "ecr:" action = true)
    (htoken : action ≠ "ecr:GetAuthorizationToken")
    (h : Allows (buildProjectDeployPolicy S.accountId S.region cluster project) action (repositoryArn S.toScope repository)) :
    hasPrefix (project ++ "/") repository = true := by
  rcases allows_cases h with hnone | ⟨hs3, -⟩ | ⟨-, hmatch⟩ | ⟨hssm, -⟩
  · have hother : action ∈ ["sts:GetCallerIdentity", "ec2:DescribeInstances", "ec2:DescribeInstanceStatus"] := by
      simp only [List.mem_cons, List.not_mem_nil, or_false, htoken, false_or] at hnone ⊢
      exact hnone
    exact absurd hother (foreign hecr (by simp [hasPrefix, List.isPrefixOf]))
  · exact absurd (services_apart hecr hs3) (by simp)
  · rw [slash_star, globMatches_under (literal_repositories S hproject)] at hmatch
    obtain ⟨rest, hrest⟩ := hasPrefix_iff.mp hmatch
    simp only [repositoryArn, String.toList_append, List.append_assoc, List.append_cancel_left_eq] at hrest
    refine hasPrefix_iff.mpr ⟨rest, ?_⟩
    simp only [String.toList_append, List.append_assoc]
    exact hrest
  · exact absurd (services_apart hecr hssm) (by simp)

/-- A secret's parameter, segment by segment. -/
theorem secretArn_toList (S : CiScope) (clusterId owner service key : String) :
    (parameterArn S.toScope (secretParameterPath clusterId owner service key)).toList =
      "arn:aws:ssm:".toList ++ (S.region.toList ++ ':' :: (S.accountId.toList ++ ':' :: ("parameter/launch-pad/".toList ++
        (clusterId.toList ++ '/' :: (owner.toList ++ '/' :: (service ++ "/" ++ key).toList))))) := by
  have hslash : ("/" : String).toList = ['/'] := rfl
  have hcolon : (":" : String).toList = [':'] := rfl
  have hparameter : (":parameter" : String).toList = ':' :: ("parameter" : String).toList := rfl
  have hroot : ("parameter/launch-pad/" : String).toList = ("parameter" : String).toList ++ ("/launch-pad/" : String).toList := rfl
  simp only [parameterArn, secretParameterPath, secretParameterPrefix, String.toList_append, List.append_assoc, hslash, hcolon,
    hparameter, hroot, List.cons_append, List.nil_append]

/-- Parameters under the cluster and the project. -/
theorem secrets_confined (hcluster : labelMatches cluster = true) (hproject : labelMatches project = true)
    {clusterId owner service key : String} (hid : labelMatches clusterId = true) (howner : '/' ∉ owner.toList)
    (hssm : hasPrefix "ssm:" action = true)
    (h : Allows (buildProjectDeployPolicy S.accountId S.region cluster project) action
      (parameterArn S.toScope (secretParameterPath clusterId owner service key))) : clusterId = cluster ∧ owner = project := by
  have hslash : ("/" : String).toList = ['/'] := rfl
  have hcolon : (":" : String).toList = [':'] := rfl
  have hroot : (":parameter/launch-pad/" : String).toList = ':' :: ("parameter/launch-pad/" : String).toList := rfl
  have hamis : ("::parameter/aws/service/" : String).toList = ':' :: ':' :: ("parameter/aws/service/" : String).toList := rfl
  rcases allows_cases h with hnone | ⟨hs3, -⟩ | ⟨hecr, -⟩ | ⟨-, hsecret | hami⟩
  · exact absurd hnone (named_resource (.inr hssm))
  · exact absurd (services_apart hssm hs3) (by simp)
  · exact absurd (services_apart hssm hecr) (by simp)
  · rw [slash_star, globMatches_under (literal_secrets S hcluster hproject)] at hsecret
    obtain ⟨rest, hrest⟩ := hasPrefix_iff.mp hsecret
    rw [secretArn_toList] at hrest
    simp only [String.toList_append, List.append_assoc, hslash, hcolon, hroot, List.nil_append, List.cons_append,
      List.append_cancel_left_eq, List.cons.injEq, true_and] at hrest
    have hcluster := segment_inj (slash_not_mem_label hcluster) (slash_not_mem_label hid) hrest
    rw [hcluster] at hrest
    have htail := (List.cons.inj (List.append_cancel_left hrest)).2
    have howner := segment_inj (slash_not_mem_label hproject) howner htail
    exact ⟨(String.toList_injective hcluster).symm, (String.toList_injective howner).symm⟩
  · -- no account is empty here, and an AMI's parameter has none
    have hstar : "arn:aws:ssm:" ++ S.region ++ "::parameter/aws/service/*" =
        "arn:aws:ssm:" ++ S.region ++ "::parameter/aws/service/" ++ "*" := by
      have hlast : ("::parameter/aws/service/*" : String) = "::parameter/aws/service/" ++ "*" := rfl
      rw [hlast, ← String.append_assoc]
    rw [hstar, globMatches_under (literal_amis S)] at hami
    obtain ⟨rest, hrest⟩ := hasPrefix_iff.mp hami
    rw [secretArn_toList] at hrest
    simp only [String.toList_append, List.append_assoc, hamis, List.cons_append, List.append_cancel_left_eq, List.cons.injEq,
      true_and] at hrest
    have haccount := segment_inj (a := []) List.not_mem_nil (S.account_avoids (c := ':') (by decide)) hrest
    rw [← haccount, List.nil_append] at hrest
    exact absurd (List.cons.inj hrest).2 (by simp)

theorem secrets_covered (hcluster : labelMatches cluster = true) (hproject : labelMatches project = true) (service key : String) :
    Allows (buildProjectDeployPolicy S.accountId S.region cluster project) "ssm:GetParameters"
      (parameterArn S.toScope (secretParameterPath cluster project service key)) := by
  refine ⟨_, List.mem_of_getElem? (i := 5) rfl, by simp, _, List.mem_singleton_self _, ?_⟩
  have hslash : ("/" : String).toList = ['/'] := rfl
  have hcolon : (":" : String).toList = [':'] := rfl
  have hroot : (":parameter/launch-pad/" : String).toList = ':' :: ("parameter/launch-pad/" : String).toList := rfl
  rw [slash_star, globMatches_under (literal_secrets S hcluster hproject)]
  refine hasPrefix_iff.mpr ⟨(service ++ "/" ++ key).toList, ?_⟩
  rw [secretArn_toList]
  simp only [String.toList_append, List.append_assoc, hslash, hcolon, hroot, List.nil_append, List.cons_append]

/-- Every state key of a named cluster is under its directory. -/
theorem StateKey.under {clusterId key : String} (h : StateKey clusterId key) (hnamed : clusterId ≠ defaultCluster) :
    hasPrefix (clustersPrefix ++ clusterId ++ "/") key = true := by
  have hnodes : ∀ rest, hasPrefix (clustersPrefix ++ clusterId ++ "/") (clusterNodesPrefix clusterId ++ rest) = true := by
    intro rest
    rw [clusterNodesPrefix, if_neg hnamed]
    exact hasPrefix_trans (hasPrefix_append _ nodesPrefix) (hasPrefix_append ..)
  have hprojects : ∀ rest, hasPrefix (clustersPrefix ++ clusterId ++ "/") (projectsPrefix clusterId ++ rest) = true := by
    intro rest
    rw [projectsPrefix, if_neg hnamed]
    exact hasPrefix_trans (hasPrefix_append _ "projects/") (hasPrefix_append ..)
  cases h with
  | cluster =>
    have hfile : ("/cluster.json" : String).toList = "/".toList ++ "cluster.json".toList := rfl
    refine hasPrefix_iff.mpr ⟨"cluster.json".toList, ?_⟩
    simp only [clusterConfigKey, String.toList_append, hfile, List.append_assoc]
  | registry nodeId => simpa only [nodeRegistryKey, nodePrefix, String.append_assoc] using hnodes _
  | desired nodeId => simpa only [desiredKey, nodePrefix, String.append_assoc] using hnodes _
  | status nodeId => simpa only [statusKey, nodePrefix, String.append_assoc] using hnodes _
  | edge nodeId => simpa only [edgeConfigKey, nodePrefix, String.append_assoc] using hnodes _
  | upstream edgeId appNodeId =>
    simpa only [edgeUpstreamKey, edgeUpstreamPrefix, nodePrefix, String.append_assoc] using hnodes _
  | baseline owner => simpa only [configBaselineKey, projectStatePrefix, String.append_assoc] using hprojects _
  | preview owner => simpa only [previewMarkerKey, projectStatePrefix, String.append_assoc] using hprojects _
  | index project => simpa only [projectIndexKey, String.append_assoc] using hprojects _
  | event owner time id =>
    simpa only [deployEventKey, deployEventsPrefix, projectStatePrefix, String.append_assoc] using hprojects _
  | build owner service tag =>
    simpa only [remoteBuildContextKey, remoteBuildContextPrefix, projectStatePrefix, String.append_assoc] using hprojects _

theorem objects_covered (hcluster : labelMatches cluster = true) {key : String}
    (h : hasPrefix (clustersPrefix ++ cluster ++ "/") key = true) :
    Allows (buildProjectDeployPolicy S.accountId S.region cluster project) "s3:GetObject"
      (objectArn (stateBucketName S.accountId S.region) key) := by
  refine ⟨_, List.mem_of_getElem? (i := 2) rfl, by simp, _, List.mem_singleton_self _, ?_⟩
  obtain ⟨rest, hrest⟩ := hasPrefix_iff.mp h
  have hdir : ("/clusters/" : String).toList = "/".toList ++ clustersPrefix.toList := rfl
  rw [slash_star, globMatches_under (literal_clusterObjects S hcluster)]
  refine hasPrefix_iff.mpr ⟨rest, ?_⟩
  simp only [String.toList_append, List.append_assoc] at hrest
  simp only [objectArn, String.toList_append, hdir, List.append_assoc, hrest]

end Covers

/-! ## The policy and a footprint -/

/-- A footprint's owner is its bare project. -/
theorem owner_eq_project_iff (a : FootprintIdentity) : a.owner = a.project ↔ a.component = none ∧ a.env = none := by
  have htext : a.owner.toList = a.project.toList ++ (a.componentPart ++ envPart a.env) := by
    rw [← List.append_assoc, ← a.base_toList]
    exact envProject_toList a.base a.env
  rw [← String.toList_inj, htext]
  constructor
  · intro h
    have hnil := List.append_right_eq_self.mp h
    obtain ⟨hcomponent, henv⟩ := List.append_eq_nil_iff.mp hnil
    constructor
    · cases hc : a.component with
      | none => rfl
      | some c =>
        rw [FootprintIdentity.componentPart, hc] at hcomponent
        cases hcomponent
    · exact envPart_inj henv
  · rintro ⟨hcomponent, henv⟩
    simp [FootprintIdentity.componentPart, hcomponent, henv, envPart]

theorem mem_assertedSecretPaths {clusterId owner path : String} {services : List ServiceDecl} :
    path ∈ assertedSecretPaths clusterId owner services ↔
      ∃ decl ∈ services, ∃ key ∈ decl.secrets, secretParameterPath clusterId owner decl.name key = path := by
  simp [assertedSecretPaths]

theorem secretsRight_iff {S : CiScope} {cluster project : String} (hcluster : labelMatches cluster = true)
    (hproject : labelMatches project = true) (a : FootprintIdentity) :
    SecretsRight S.toScope cluster project a ↔
      (a.project = project → a.component = none ∧ a.env = none) ∧ (a.project ≠ project → a.owner ≠ project) := by
  constructor
  · rintro ⟨hown, hother⟩
    refine ⟨fun hp => ?_, fun hp howner => ?_⟩
    · -- a service with one secret
      have hpath : secretParameterPath cluster a.owner plainDecl.name "TOKEN" ∈
          assertedSecretPaths cluster a.owner [{ plainDecl with secrets := ["TOKEN"] }] :=
        mem_assertedSecretPaths.mpr ⟨_, List.mem_singleton_self _, "TOKEN", List.mem_singleton_self _, rfl⟩
      have hallowed := hown hp _ _ hpath
      have hread := secrets_confined hcluster hproject hcluster (slash_not_mem_owner a) (by simp [hasPrefix]) hallowed
      exact (owner_eq_project_iff a).mp (hread.2.trans hp.symm)
    · refine hother hp "ssm:GetParameters" cluster "web" "TOKEN" (by simp [hasPrefix]) hcluster ?_
      rw [howner]
      exact secrets_covered hcluster hproject "web" "TOKEN"
  · rintro ⟨hown, hother⟩
    refine ⟨fun hp services path hpath => ?_, fun hp action clusterId service key hssm hid hallowed => ?_⟩
    · obtain ⟨decl, -, key, -, rfl⟩ := mem_assertedSecretPaths.mp hpath
      rw [(owner_eq_project_iff a).mpr (hown hp), hp]
      exact secrets_covered hcluster hproject decl.name key
    · exact hother hp (secrets_confined hcluster hproject hid (slash_not_mem_owner a) hssm hallowed).2

/-- The policy's objects and repositories are the cluster's and the project's, and every
    state key is among them. Its secrets are the project's own and no others' exactly for the
    project's footprint without component and environment, and for the footprints of other
    projects that do not bear its name as their owner. -/
theorem deploy_policy_confined_iff (S : CiScope) {cluster project : String} (hcluster : labelMatches cluster = true)
    (hnamed : cluster ≠ defaultCluster) (hproject : configNames project none = true) :
    (∀ action bucket key, hasPrefix "s3:" action = true → '/' ∉ bucket.toList →
      Allows (buildProjectDeployPolicy S.accountId S.region cluster project) action (objectArn bucket key) →
      bucket = stateBucketName S.accountId S.region ∧ hasPrefix (clustersPrefix ++ cluster ++ "/") key = true) ∧
    (∀ action repository, hasPrefix "ecr:" action = true → action ≠ "ecr:GetAuthorizationToken" →
      Allows (buildProjectDeployPolicy S.accountId S.region cluster project) action (repositoryArn S.toScope repository) →
      hasPrefix (project ++ "/") repository = true) ∧
    (∀ key, StateKey cluster key → Allows (buildProjectDeployPolicy S.accountId S.region cluster project) "s3:GetObject"
      (objectArn (stateBucketName S.accountId S.region) key)) ∧
    ∀ a : FootprintIdentity, SecretsRight S.toScope cluster project a ↔
      (a.project = project → a.component = none ∧ a.env = none) ∧ (a.project ≠ project → a.owner ≠ project) := by
  have hlabel : labelMatches project = true := by
    simp only [configNames, Bool.and_eq_true] at hproject
    exact hproject.1.1.1
  refine ⟨fun action bucket key hs3 hslash h => objects_confined hcluster hs3 hslash h,
    fun action repository hecr htoken h => repositories_confined hlabel hecr htoken h,
    fun key h => objects_covered hcluster (h.under hnamed), fun a => secretsRight_iff hcluster hlabel a⟩

/-! ### The web component of a shop -/

def ciScope : CiScope where
  accountId := "123456789012"
  region := "us-east-1"
  account_plain := sampleScope.account_plain
  region_plain := sampleScope.region_plain
  account_digits := all_text rfl
  region_chars := all_text rfl

theorem prod_label : labelMatches "prod" = true := by decide +kernel
theorem shop_names : configNames "shop" none = true := by decide +kernel
theorem shopWeb_names : configNames "shop" (some "web") = true := by decide +kernel
theorem no_env : (none : Option String).all labelMatches = true := rfl

def shopAlone : FootprintIdentity := ⟨"shop", none, none, shop_names, no_env⟩

theorem deploy_policy_confined_shop : SecretsRight ciScope.toScope "prod" "shop" shopAlone :=
  ((deploy_policy_confined_iff ciScope prod_label (by decide) shop_names).2.2.2 shopAlone).mpr
    ⟨fun _ => ⟨rfl, rfl⟩, fun h => absurd rfl h⟩

/-- `shop--web`, in no environment. -/
def shopWeb : FootprintIdentity := ⟨"shop", some "web", none, shopWeb_names, no_env⟩

/-- Project `shop`'s policy does not let its component read a secret that its deploy looks up. -/
theorem component_cannot_read_secrets :
    secretParameterPath "prod" shopWeb.owner "api" "TOKEN" ∈
        assertedSecretPaths "prod" shopWeb.owner [{ plainDecl with name := "api", secrets := ["TOKEN"] }] ∧
      ¬ Allows (buildProjectDeployPolicy ciScope.accountId ciScope.region "prod" shopWeb.project) "ssm:GetParameters"
        (parameterArn ciScope.toScope (secretParameterPath "prod" shopWeb.owner "api" "TOKEN")) := by
  constructor
  · decide +kernel
  · intro h
    have hssm : hasPrefix "ssm:" "ssm:GetParameters" = true := by simp [hasPrefix]
    have hread := secrets_confined prod_label shopWeb.project_label prod_label (slash_not_mem_owner shopWeb) hssm h
    exact absurd hread.2 (by decide +kernel)

end LaunchPad.Cli.Iam
