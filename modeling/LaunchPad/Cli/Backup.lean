/-
  LaunchPad.Cli.Backup — the backup of a cluster's state into a directory and its restore
  (`backup/plan.ts`, `commands/backup.ts`), over a bucket of bytes (`aws/s3-state.ts`).

  Both directions pass through text: `getObjectText` decodes an object's bytes as UTF-8,
  `readFileSync` a file's, and what is written is the text's encoding. Decoding never fails:
  what is no character becomes U+FFFD. A body above 5 MiB is backed up, and refused by the
  restore.

  `manifest.json` stands beside the directory's tree with what `JSON.parse` gives for it.

  As built:
  - `restore_loses_archive`: a build archive is backed up and restored with other bytes.

  Proved:
  - `backup_restore_iff`: exactly when a restore gives back what a backup recorded, and what
    any restore of any directory uploads.

  The round trip rests on `files_captureAll`: a backup's tree holds the recorded objects'
  texts, each at its key's path, and what the directory held at other paths.
-/
import LaunchPad.Lib.FileTree
import LaunchPad.Lib.SortedMap
import LaunchPad.Lib.Split
import LaunchPad.Lib.Utf8Lines
import LaunchPad.Shared.Keys

namespace LaunchPad.Cli.Backup

open Lib

/-! ## Keys and paths (`backup/plan.ts`) -/

def backupManifestVersion : Int := 1
def backupManifestFile : String := "manifest.json"

structure BackupManifest where
  version : Int
  createdAt : String
  account : String
  region : String
  cluster : String
  bucket : String
  prefixes : List String
  keys : List String
  deriving DecidableEq, Repr

def projectsRoot : String := "projects/"

/-- Where a cluster's state lives. -/
def backupPrefixesForCluster (clusterId : String) : List String :=
  if clusterId = defaultCluster then [nodesPrefix, projectsRoot] else [clustersPrefix ++ clusterId ++ "/"]

/-- `key.split("/")`. -/
def segments (key : String) : List (List Char) := key.toList.splitOn '/'

/-- `segments.join("/")`. -/
def keyOf (path : List (List Char)) : String := String.ofList (['/'].intercalate path)

def isSafeBackupKey (key : String) : Bool :=
  key != "" && key != backupManifestFile && !hasPrefix "/" key && !key.toList.contains '\\' && !key.toList.contains '\x00' &&
    (segments key).all fun seg => seg != [] && seg != ['.'] && seg != ['.', '.']

def keyUnderPrefixes (key : String) (roots : List String) : Bool := roots.any fun p => key == p || hasPrefix p key

theorem keyUnderPrefixes_iff {key : String} {roots : List String} :
    keyUnderPrefixes key roots = true ↔ ∃ p ∈ roots, hasPrefix p key = true := by
  simp only [keyUnderPrefixes, List.any_eq_true, Bool.or_eq_true, beq_iff_eq]
  constructor
  · rintro ⟨p, hp, rfl | h⟩
    · exact ⟨key, hp, hasPrefix_iff.mpr ⟨[], List.append_nil _⟩⟩
    · exact ⟨p, hp, h⟩
  · rintro ⟨p, hp, h⟩
    exact ⟨p, hp, .inr h⟩

/-! ## The bucket -/

abbrev Bytes := List UInt8
abbrev Bucket := SortedMap String Bytes
abbrev Tree := FileTree (List Char) Bytes

def listObjectKeys (bucket : Bucket) (root : String) : List String := (SortedMap.keys bucket).filter (hasPrefix root)

def getObjectText (bucket : Bucket) (key : String) : Option (List Char) := (SortedMap.get key bucket).map fromUtf8Lossy

def putObjectText (bucket : Bucket) (key : String) (body : List Char) : Bucket :=
  SortedMap.insert key (utf8Encode body) bucket

/-! ## The commands -/

/-- The `cluster` of a parsed manifest; what is no text is shown as a template shows it. -/
inductive ClusterValue where
  | text (id : String)
  | null
  | undefined
  | other (shown : String)
  deriving DecidableEq, Repr

def ClusterValue.shown : ClusterValue → String
  | .text id => id
  | .null => "null"
  | .undefined => "undefined"
  | .other shown => shown

/-- `backupPrefixesForCluster` of a value that need not be text. -/
def ClusterValue.roots : ClusterValue → List String
  | .text id => backupPrefixesForCluster id
  | c => [clustersPrefix ++ c.shown ++ "/"]

/-- The `keys` of a parsed manifest, as `new Set(keys ?? [])` takes them: of the members of
    an array or the characters of a text, the texts. -/
inductive KeysValue where
  | nullish
  | iterable (texts : List String)
  | notIterable
  deriving DecidableEq, Repr

def KeysValue.recorded : KeysValue → Option (List String)
  | .nullish => some []
  | .iterable texts => some texts
  | .notIterable => none

/-- Of what `JSON.parse` gives for `manifest.json`, the fields the restore decides by. -/
structure ManifestValue where
  version : Option Int
  cluster : ClusterValue
  keys : KeysValue
  deriving DecidableEq, Repr

/-- Of a manifest as the backup writes it. -/
def BackupManifest.value (m : BackupManifest) : ManifestValue := ⟨some m.version, .text m.cluster, .iterable m.keys⟩

structure BackupDir where
  /-- None when `manifest.json` is missing or does not parse. -/
  manifest : Option ManifestValue
  tree : Tree

inductive BackupError where
  | invalidCluster (shown : String)
  | aws
  | fileSystem
  | noManifest
  | unsupportedVersion
  | keysNotIterable
  | unsafeKey (key : String)
  | notUnderCluster (key shown : String) (roots : List String)
  | notListed (key : String)
  | tooLarge (key : String) (size : Nat)
  | nothingToRestore
  deriving DecidableEq, Repr

/-- What the commands find around them. -/
structure AwsContext where
  /-- The local preferences' `defaultCluster`. -/
  localDefault : Option String := none
  accountId : String
  region : String
  bucket : String
  now : String
  /-- The target, the credentials and the bucket are in order. -/
  ready : Bool := true
  /-- Of a run's puts, those that fail. -/
  putFails : Nat → Bool := fun _ => false

/-- `opts.cluster ?? local.defaultCluster ?? DEFAULT_CLUSTER`. -/
def ClusterValue.resolved (localDefault : Option String) : ClusterValue → ClusterValue
  | .null => .text (localDefault.getD defaultCluster)
  | .undefined => .text (localDefault.getD defaultCluster)
  | c => c

/-- `ClusterIdSchema`. -/
def ClusterValue.validId : ClusterValue → Option String
  | .text id => if labelMatches id then some id else none
  | _ => none

/-- `prepareAws`, of which the commands keep the cluster's id. -/
def prepareAws (aws : AwsContext) (cluster : ClusterValue) : Except BackupError String :=
  match (cluster.resolved aws.localDefault).validId with
  | none => .error (.invalidCluster (cluster.resolved aws.localDefault).shown)
  | some id => if aws.ready then .ok id else .error .aws

/-- `opts.cluster ?? cluster`. -/
def orCluster (opt : Option String) (cluster : ClusterValue) : ClusterValue :=
  match opt with
  | some id => .text id
  | none => cluster

/-- Write one object's text at its key's path. -/
def capture (tree : Tree) (key : String) (body : List Char) : Except BackupError Tree :=
  match segments key with
  | [] => .error .fileSystem
  | name :: path =>
    match tree.write name path (utf8Encode body) with
    | some tree => .ok tree
    | none => .error .fileSystem

/-- The backup's loop over the listed keys, with the directory (if there is one yet) and the
    keys captured so far. -/
def captureAll (bucket : Bucket) : List String → Option Tree × List String → Except BackupError (Option Tree × List String)
  | [], acc => .ok acc
  | key :: keys, (out, captured) =>
    if !isSafeBackupKey key then captureAll bucket keys (out, captured)
    else
      match getObjectText bucket key with
      | none => captureAll bucket keys (out, captured)
      | some body => do
        let tree ← capture (out.getD .empty) key body
        captureAll bucket keys (some tree, captured ++ [key])

def runBackup (aws : AwsContext) (cluster : Option String) (bucket : Bucket) (out : Option Tree) :
    Except BackupError (BackupManifest × BackupDir) := do
  let clusterId ← prepareAws aws (orCluster cluster .undefined)
  let roots := backupPrefixesForCluster clusterId
  let (out, captured) ← captureAll bucket (roots.flatMap (listObjectKeys bucket)) (out, [])
  let manifest : BackupManifest :=
    ⟨backupManifestVersion, aws.now, aws.accountId, aws.region, clusterId, aws.bucket, roots, captured⟩
  -- Only a captured object creates the directory: without one, this write finds none.
  match out.bind fun tree => tree.write backupManifestFile.toList [] [] with
  | none => .error .fileSystem
  | some tree => .ok (manifest, ⟨some manifest.value, tree⟩)

def maxRestoreObjectBytes : Nat := 5 * 1024 * 1024

structure Upload where
  key : String
  body : List Char
  deriving DecidableEq, Repr

/-- The checks of one file of the directory, in their order. -/
def checkFile (cluster : ClusterValue) (recorded : List String) (file : List (List Char) × Bytes) : Except BackupError Upload :=
  let key := keyOf file.1
  if !isSafeBackupKey key then .error (.unsafeKey key)
  else if !keyUnderPrefixes key cluster.roots then .error (.notUnderCluster key cluster.shown cluster.roots)
  else if !recorded.contains key then .error (.notListed key)
  else if file.2.length > maxRestoreObjectBytes then .error (.tooLarge key file.2.length)
  else .ok ⟨key, fromUtf8Lossy file.2⟩

def checkFiles (cluster : ClusterValue) (recorded : List String) :
    List (List (List Char) × Bytes) → Except BackupError (List Upload)
  | [] => .ok []
  | file :: files =>
    if file.1 = [backupManifestFile.toList] then checkFiles cluster recorded files
    else do
      let upload ← checkFile cluster recorded file
      let uploads ← checkFiles cluster recorded files
      .ok (upload :: uploads)

/-- What a restore does before it touches AWS. -/
def planRestore (cluster : Option String) (dir : BackupDir) : Except BackupError (ClusterValue × List Upload) :=
  match dir.manifest with
  | none => .error .noManifest
  | some manifest =>
    if manifest.version ≠ some backupManifestVersion then .error .unsupportedVersion
    else
      match manifest.keys.recorded with
      | none => .error .keysNotIterable
      | some recorded => do
        let uploads ← checkFiles (orCluster cluster manifest.cluster) recorded dir.tree.files
        if uploads.isEmpty then .error .nothingToRestore else .ok (orCluster cluster manifest.cluster, uploads)

structure RestoreOptions where
  cluster : Option String := none
  yes : Bool := false
  json : Bool := false
  /-- The answer to the prompt. -/
  confirmed : Bool := false
  deriving DecidableEq, Repr

def RestoreOptions.proceed (opts : RestoreOptions) : Bool := opts.yes || (!opts.json && opts.confirmed)

structure Restored where
  bucket : Bucket
  /-- The keys put, in order. -/
  uploaded : List String
  /-- The cluster the clients were built for. -/
  clusterId : Option String
  result : Except BackupError Unit

/-- The uploads from the `i`-th on, up to the first that fails. -/
def putAll (fails : Nat → Bool) : Nat → List Upload → Bucket → Bucket × List String × Bool
  | _, [], bucket => (bucket, [], true)
  | i, u :: uploads, bucket =>
    if fails i then (bucket, [], false)
    else
      let rest := putAll fails (i + 1) uploads (putObjectText bucket u.key u.body)
      (rest.1, u.key :: rest.2.1, rest.2.2)

def runRestore (aws : AwsContext) (opts : RestoreOptions) (dir : BackupDir) (bucket : Bucket) : Restored :=
  match planRestore opts.cluster dir with
  | .error e => ⟨bucket, [], none, .error e⟩
  | .ok (cluster, uploads) =>
    match prepareAws aws cluster with
    | .error e => ⟨bucket, [], none, .error e⟩
    | .ok clusterId =>
      if !opts.proceed then ⟨bucket, [], some clusterId, .ok ()⟩
      else
        let put := putAll aws.putFails 0 uploads bucket
        ⟨put.1, put.2.1, some clusterId, if put.2.2 then .ok () else .error .aws⟩

/-! ## Paths and keys -/

theorem segments_slash {key : String} {seg : List Char} (h : seg ∈ segments key) : '/' ∉ seg := not_mem_of_mem_splitOn h

theorem segments_ne_nil (key : String) : segments key ≠ [] := List.splitOn_ne_nil '/' _

@[simp] theorem keyOf_segments (key : String) : keyOf (segments key) = key := by
  unfold keyOf segments
  rw [List.intercalate_splitOn, String.ofList_toList]

theorem segments_keyOf {path : List (List Char)} (h : ∀ seg ∈ path, '/' ∉ seg) (hne : path ≠ []) : segments (keyOf path) = path := by
  unfold keyOf segments
  rw [String.toList_ofList]
  exact List.splitOn_intercalate '/' h hne

theorem segments_inj {a b : String} (h : segments a = segments b) : a = b := by
  rw [← keyOf_segments a, h, keyOf_segments]

theorem segments_manifest : segments backupManifestFile = [backupManifestFile.toList] :=
  List.splitOn_eq_singleton (by decide)

theorem segments_ne_manifest {key : String} (h : isSafeBackupKey key = true) : segments key ≠ [backupManifestFile.toList] := by
  intro he
  rw [← segments_manifest] at he
  rw [segments_inj he] at h
  simp [isSafeBackupKey] at h

theorem files_ne_nil {d : Tree} {f : List (List Char) × Bytes} (h : f ∈ d.files) : f.1 ≠ [] := by
  intro he
  obtain ⟨_, _, hhead⟩ := FileTree.head_mem_names h
  rw [he] at hhead
  cases hhead

/-! ## The backup's tree -/

/-- A name that no path is cut in. -/
def SlashFree (name : List Char) : Prop := '/' ∉ name

/-- The objects a loop over `keys` captures. -/
def captures (bucket : Bucket) (keys : List String) : List String :=
  keys.filter fun key => isSafeBackupKey key && (getObjectText bucket key).isSome

/-- What is found after a loop over `keys`. -/
def FoundAfter (bucket : Bucket) (keys : List String) (out : Tree) (f : List (List Char) × Bytes) : Prop :=
  (∃ key ∈ captures bucket keys, ∃ body, getObjectText bucket key = some body ∧ f = (segments key, utf8Encode body)) ∨
    (f ∈ out.files ∧ ∀ key ∈ captures bucket keys, f.1 ≠ segments key)

theorem files_capture {tree tree' : Tree} {key : String} {body : List Char} (hd : tree.Plain SlashFree)
    (h : capture tree key body = .ok tree') :
    tree'.Plain SlashFree ∧
      ∀ f, f ∈ tree'.files ↔ f = (segments key, utf8Encode body) ∨ (f.1 ≠ segments key ∧ f ∈ tree.files) := by
  have hslash : ∀ seg ∈ segments key, SlashFree seg := fun seg hseg => segments_slash hseg
  unfold capture at h
  cases hs : segments key with
  | nil => exact absurd hs (segments_ne_nil key)
  | cons name path =>
    rw [hs] at h hslash
    simp only at h
    split at h
    · rename_i hw
      cases h
      refine ⟨hd.write (hslash name (List.mem_cons_self ..)) (fun n hn => hslash n (List.mem_cons_of_mem _ hn)) hw, ?_⟩
      exact fun f => FileTree.mem_files_write hd hw f
    · cases h

theorem foundAfter_cons {bucket : Bucket} {key : String} {keys : List String} {out tree : Tree} {body : List Char}
    (hbody : getObjectText bucket key = some body) (hcap : captures bucket (key :: keys) = key :: captures bucket keys)
    (hfiles : ∀ f, f ∈ tree.files ↔ f = (segments key, utf8Encode body) ∨ (f.1 ≠ segments key ∧ f ∈ out.files))
    {f : List (List Char) × Bytes} : FoundAfter bucket keys tree f ↔ FoundAfter bucket (key :: keys) out f := by
  unfold FoundAfter
  rw [hcap]
  constructor
  · rintro (⟨key', hmem, found⟩ | ⟨hf, hother⟩)
    · exact .inl ⟨key', List.mem_cons_of_mem _ hmem, found⟩
    · rcases (hfiles f).mp hf with rfl | ⟨hne, hf⟩
      · exact .inl ⟨key, List.mem_cons_self .., body, hbody, rfl⟩
      · exact .inr ⟨hf, List.forall_mem_cons.mpr ⟨hne, hother⟩⟩
  · rintro (⟨key', hmem, body', hbody', rfl⟩ | ⟨hf, hother⟩)
    · by_cases hlater : key' ∈ captures bucket keys
      · exact .inl ⟨key', hlater, body', hbody', rfl⟩
      · obtain rfl : key' = key := (List.mem_cons.mp hmem).resolve_right hlater
        obtain rfl := Option.some.inj (hbody.symm.trans hbody')
        refine .inr ⟨(hfiles _).mpr (.inl rfl), fun k hk he => hlater ?_⟩
        rw [segments_inj he]
        exact hk
    · obtain ⟨hne, hother⟩ := List.forall_mem_cons.mp hother
      exact .inr ⟨(hfiles f).mpr (.inr ⟨hne, hf⟩), hother⟩

theorem files_captureAll {bucket : Bucket} {keys captured captured' : List String} {out out' : Option Tree}
    (hd : (out.getD .empty).Plain SlashFree) (h : captureAll bucket keys (out, captured) = .ok (out', captured')) :
    captured' = captured ++ captures bucket keys ∧ (out'.getD .empty).Plain SlashFree ∧
      ∀ f, f ∈ (out'.getD .empty).files ↔ FoundAfter bucket keys (out.getD .empty) f := by
  induction keys generalizing out captured with
  | nil =>
    cases h
    refine ⟨(List.append_nil _).symm, hd, fun f => ?_⟩
    simp [FoundAfter, captures]
  | cons key keys ih =>
    by_cases hkey : (isSafeBackupKey key && (getObjectText bucket key).isSome) = true
    · -- The object is written: what the directory held at its path goes.
      obtain ⟨hsafe, hsome⟩ := Bool.and_eq_true_iff.mp hkey
      obtain ⟨body, hbody⟩ := Option.isSome_iff_exists.mp hsome
      have hcap : captures bucket (key :: keys) = key :: captures bucket keys := List.filter_cons_of_pos hkey
      simp only [captureAll, hsafe, hbody, Bool.not_true, Bool.false_eq_true, if_false] at h
      cases hc : capture (out.getD .empty) key body with
      | error e => rw [hc] at h; cases h
      | ok tree =>
        rw [hc] at h
        obtain ⟨htree, hfiles⟩ := files_capture hd hc
        have htree' : ((some tree).getD .empty).Plain SlashFree := htree
        obtain ⟨hcaptured, hplain, hall⟩ := ih htree' h
        refine ⟨by rw [hcaptured, hcap, List.append_assoc, List.singleton_append], hplain, fun f => (hall f).trans ?_⟩
        exact foundAfter_cons hbody hcap hfiles
    · have hcap : captures bucket (key :: keys) = captures bucket keys := List.filter_cons_of_neg hkey
      have hskip : captureAll bucket keys (out, captured) = .ok (out', captured') := by
        rw [← h]
        by_cases hsafe : isSafeBackupKey key = true
        · have hnone : getObjectText bucket key = none := by simpa [hsafe] using hkey
          simp [captureAll, hsafe, hnone]
        · simp [captureAll, hsafe]
      have := ih hd hskip
      unfold FoundAfter at this ⊢
      rw [hcap]
      exact this

theorem prepareAws_ok {aws : AwsContext} {cluster : ClusterValue} {id : String} (h : prepareAws aws cluster = .ok id) :
    labelMatches id = true ∧ cluster.resolved aws.localDefault = .text id := by
  unfold prepareAws at h
  cases hc : cluster.resolved aws.localDefault with
  | text id' =>
    rw [hc] at h
    simp only [ClusterValue.validId] at h
    by_cases hm : labelMatches id' = true
    · simp only [hm, if_true] at h
      split at h
      · cases h
        exact ⟨hm, rfl⟩
      · cases h
    · simp only [hm, Bool.false_eq_true, if_false] at h
      cases h
  | null => rw [hc] at h; cases h
  | undefined => rw [hc] at h; cases h
  | other shown => rw [hc] at h; cases h

theorem prepareAws_text {aws : AwsContext} {id : String} (h : labelMatches id = true) (hr : aws.ready = true) :
    prepareAws aws (.text id) = .ok id := by
  simp [prepareAws, ClusterValue.resolved, ClusterValue.validId, h, hr]

/-- What a backup of a cluster records. -/
def recordedKeys (clusterId : String) (bucket : Bucket) : List String :=
  captures bucket ((backupPrefixesForCluster clusterId).flatMap (listObjectKeys bucket))

theorem mem_recordedKeys {clusterId key : String} {bucket : Bucket} (h : key ∈ recordedKeys clusterId bucket) :
    isSafeBackupKey key = true ∧ keyUnderPrefixes key (backupPrefixesForCluster clusterId) = true ∧
      ∃ body, SortedMap.get key bucket = some body := by
  obtain ⟨hlisted, hkey⟩ := List.mem_filter.mp h
  obtain ⟨hsafe, hsome⟩ := Bool.and_eq_true_iff.mp hkey
  obtain ⟨root, hroot, hl⟩ := List.mem_flatMap.mp hlisted
  obtain ⟨body, hbody⟩ := Option.isSome_iff_exists.mp (by simpa [getObjectText] using hsome)
  exact ⟨hsafe, keyUnderPrefixes_iff.mpr ⟨root, hroot, (List.mem_filter.mp hl).2⟩, body, hbody⟩

/-- What a backup that completed has written. -/
structure BackedUp (clusterId : String) (bucket : Bucket) (out : Tree) (dir : BackupDir) : Prop where
  label : labelMatches clusterId = true
  manifest : dir.manifest = some ⟨some backupManifestVersion, .text clusterId, .iterable (recordedKeys clusterId bucket)⟩
  plain : dir.tree.Plain SlashFree
  files : ∀ f, f.1 ≠ [backupManifestFile.toList] →
    (f ∈ dir.tree.files ↔ FoundAfter bucket ((backupPrefixesForCluster clusterId).flatMap (listObjectKeys bucket)) out f)

theorem runBackup_ok {aws : AwsContext} {cluster : Option String} {bucket : Bucket} {out : Option Tree}
    {manifest : BackupManifest} {dir : BackupDir} (hd : (out.getD .empty).Plain SlashFree)
    (h : runBackup aws cluster bucket out = .ok (manifest, dir)) :
    BackedUp manifest.cluster bucket (out.getD .empty) dir ∧ manifest.keys = recordedKeys manifest.cluster bucket := by
  unfold runBackup at h
  cases hp : prepareAws aws (orCluster cluster .undefined) with
  | error e => rw [hp] at h; cases h
  | ok id =>
    rw [hp] at h
    cases hc : captureAll bucket ((backupPrefixesForCluster id).flatMap (listObjectKeys bucket)) (out, []) with
    | error e => simp only [bind, Except.bind, hc] at h; cases h
    | ok found =>
      obtain ⟨out', captured⟩ := found
      simp only [bind, Except.bind, hc] at h
      obtain ⟨hcaptured, hplain, hfiles⟩ := files_captureAll hd hc
      rw [List.nil_append] at hcaptured
      cases out' with
      | none => cases h
      | some tree =>
        simp only [Option.bind_some] at h
        split at h
        · cases h
        · rename_i tree' hw
          cases h
          refine ⟨⟨(prepareAws_ok hp).1, ?_, ?_, ?_⟩, hcaptured⟩
          · simp only [BackupManifest.value, hcaptured, recordedKeys]
          · exact hplain.write (show '/' ∉ backupManifestFile.toList by decide) (fun n hn => absurd hn List.not_mem_nil) hw
          · intro f hne
            rw [FileTree.mem_files_write hplain hw, ← hfiles]
            constructor
            · rintro (rfl | ⟨_, hf⟩)
              · exact absurd rfl hne
              · exact hf
            · exact fun hf => .inr ⟨hne, hf⟩

/-! ## The restore's checks -/

/-- A file the restore takes. -/
structure Accepted (cluster : ClusterValue) (recorded : List String) (file : List (List Char) × Bytes) : Prop where
  clean : isSafeBackupKey (keyOf file.1) = true
  under : keyUnderPrefixes (keyOf file.1) cluster.roots = true
  listed : keyOf file.1 ∈ recorded
  small : file.2.length ≤ maxRestoreObjectBytes

def Upload.of (file : List (List Char) × Bytes) : Upload := ⟨keyOf file.1, fromUtf8Lossy file.2⟩

theorem checkFile_ok {cluster : ClusterValue} {recorded : List String} {file : List (List Char) × Bytes} {u : Upload} :
    checkFile cluster recorded file = .ok u ↔ Accepted cluster recorded file ∧ u = Upload.of file := by
  unfold checkFile
  constructor
  · intro h
    simp only at h
    split at h
    · cases h
    rename_i hclean
    split at h
    · cases h
    rename_i hunder
    split at h
    · cases h
    rename_i hlisted
    split at h
    · cases h
    rename_i hsmall
    cases h
    exact ⟨⟨by simpa using hclean, by simpa using hunder, by simpa using hlisted, Nat.le_of_not_lt hsmall⟩, rfl⟩
  · rintro ⟨ha, rfl⟩
    have hlisted : recorded.contains (keyOf file.1) = true := by simpa using ha.listed
    simp only [ha.clean, ha.under, hlisted, Nat.not_lt.mpr ha.small, Upload.of, Bool.not_true, Bool.false_eq_true, if_false]

/-- The files of a directory but for its manifest. -/
def objects (files : List (List (List Char) × Bytes)) : List (List (List Char) × Bytes) :=
  files.filter fun f => f.1 ≠ [backupManifestFile.toList]

theorem checkFiles_ok {cluster : ClusterValue} {recorded : List String} {files : List (List (List Char) × Bytes)}
    {uploads : List Upload} :
    checkFiles cluster recorded files = .ok uploads ↔
      (∀ f ∈ objects files, Accepted cluster recorded f) ∧ uploads = (objects files).map Upload.of := by
  induction files generalizing uploads with
  | nil =>
    constructor
    · intro h
      cases h
      exact ⟨fun f hf => absurd hf List.not_mem_nil, rfl⟩
    · rintro ⟨_, rfl⟩
      rfl
  | cons f files ih =>
    by_cases hm : f.1 = [backupManifestFile.toList]
    · have hskip : objects (f :: files) = objects files := List.filter_cons_of_neg (by simpa using hm)
      rw [hskip, ← ih]
      simp only [checkFiles, hm, if_true]
    · have hkeep : objects (f :: files) = f :: objects files := List.filter_cons_of_pos (by simpa using hm)
      rw [hkeep, List.forall_mem_cons]
      simp only [checkFiles, hm, if_false]
      constructor
      · intro h
        cases hc : checkFile cluster recorded f with
        | error e => rw [hc] at h; cases h
        | ok u =>
          cases hcs : checkFiles cluster recorded files with
          | error e => rw [hc, hcs] at h; cases h
          | ok us =>
            rw [hc, hcs] at h
            cases h
            obtain ⟨ha, rfl⟩ := checkFile_ok.mp hc
            obtain ⟨has, rfl⟩ := ih.mp hcs
            exact ⟨⟨ha, has⟩, rfl⟩
      · rintro ⟨⟨ha, has⟩, rfl⟩
        rw [checkFile_ok.mpr ⟨ha, rfl⟩, ih.mpr ⟨has, rfl⟩]
        rfl

/-! ## The uploads -/

theorem putAll_keys {fails : Nat → Bool} {i : Nat} {uploads : List Upload} {bucket : Bucket} {key : String}
    (h : key ∈ (putAll fails i uploads bucket).2.1) : ∃ u ∈ uploads, u.key = key := by
  induction uploads generalizing i bucket with
  | nil => cases h
  | cons u uploads ih =>
    unfold putAll at h
    split at h
    · cases h
    · rcases List.mem_cons.mp h with rfl | h
      · exact ⟨u, List.mem_cons_self .., rfl⟩
      · obtain ⟨v, hv, rfl⟩ := ih h
        exact ⟨v, List.mem_cons_of_mem _ hv, rfl⟩

/-- Where no put fails, the bucket has what each key was last put with. -/
theorem get_putAll {fails : Nat → Bool} (hf : ∀ i, fails i = false) (i : Nat) (uploads : List Upload) (bucket : Bucket)
    {key : String} {body : List Char} (hbody : ∀ u ∈ uploads, u.key = key → u.body = body)
    (hput : SortedMap.get key bucket = some (utf8Encode body) ∨ ∃ u ∈ uploads, u.key = key) :
    SortedMap.get key (putAll fails i uploads bucket).1 = some (utf8Encode body) := by
  induction uploads generalizing i bucket with
  | nil =>
    rcases hput with h | ⟨u, hu, _⟩
    · exact h
    · cases hu
  | cons u uploads ih =>
    obtain ⟨hu, hlater⟩ := List.forall_mem_cons.mp hbody
    simp only [putAll, hf i, Bool.false_eq_true, if_false]
    refine ih (i + 1) (putObjectText bucket u.key u.body) hlater ?_
    unfold putObjectText
    by_cases hk : u.key = key
    · subst hk
      rw [hu rfl]
      exact .inl (SortedMap.get_insert_self ..)
    · rcases hput with h | ⟨v, hv, rfl⟩
      · exact .inl (by rw [SortedMap.get_insert_ne (Ne.symm hk)]; exact h)
      · rcases List.mem_cons.mp hv with rfl | hv
        · exact absurd rfl hk
        · exact .inr ⟨v, hv, rfl⟩

theorem planRestore_ok {cluster : Option String} {dir : BackupDir} {target : ClusterValue} {uploads : List Upload} :
    planRestore cluster dir = .ok (target, uploads) ↔
      ∃ m recorded, dir.manifest = some m ∧ m.version = some backupManifestVersion ∧ m.keys.recorded = some recorded ∧
        target = orCluster cluster m.cluster ∧ (∀ f ∈ objects dir.tree.files, Accepted target recorded f) ∧
        uploads = (objects dir.tree.files).map Upload.of ∧ uploads ≠ [] := by
  unfold planRestore
  cases hm : dir.manifest with
  | none =>
    constructor
    · intro h
      cases h
    · rintro ⟨m, _, hm', _⟩
      cases hm'
  | some m =>
    constructor
    · intro h
      simp only at h
      split at h
      · cases h
      · rename_i hversion
        cases hk : m.keys.recorded with
        | none => rw [hk] at h; cases h
        | some recorded =>
          simp only [hk] at h
          cases hc : checkFiles (orCluster cluster m.cluster) recorded dir.tree.files with
          | error e => rw [hc] at h; cases h
          | ok us =>
            simp only [hc, bind, Except.bind] at h
            split at h
            · cases h
            · rename_i hne
              cases h
              obtain ⟨hall, hus⟩ := checkFiles_ok.mp hc
              exact ⟨m, recorded, rfl, not_not.mp hversion, hk, rfl, hall, hus, fun he => hne (by rw [he]; rfl)⟩
    · rintro ⟨m', recorded, hm', hversion, hk, rfl, hall, hus, hne⟩
      obtain rfl := Option.some.inj hm'
      have hempty : uploads.isEmpty = false := by
        rw [Bool.eq_false_iff]
        exact fun he => hne (List.isEmpty_iff.mp he)
      simp only [hversion, not_true_eq_false, if_false, hk, checkFiles_ok.mpr ⟨hall, hus⟩, bind, Except.bind, hempty,
        Bool.false_eq_true, ne_eq]

/-- What was uploaded had been planned, for the cluster whose clients were built. -/
theorem runRestore_uploaded {aws : AwsContext} {opts : RestoreOptions} {dir : BackupDir} {bucket : Bucket} {key : String}
    (h : key ∈ (runRestore aws opts dir bucket).uploaded) :
    ∃ target uploads id, planRestore opts.cluster dir = .ok (target, uploads) ∧ (∃ u ∈ uploads, u.key = key) ∧
      prepareAws aws target = .ok id ∧ (runRestore aws opts dir bucket).clusterId = some id := by
  unfold runRestore at h ⊢
  cases hp : planRestore opts.cluster dir with
  | error e => rw [hp] at h; cases h
  | ok plan =>
    obtain ⟨target, uploads⟩ := plan
    simp only [hp] at h ⊢
    cases ha : prepareAws aws target with
    | error e => rw [ha] at h; cases h
    | ok id =>
      simp only [ha] at h ⊢
      split at h
      · cases h
      · rename_i hproceed
        refine ⟨target, uploads, id, rfl, putAll_keys h, ha, ?_⟩
        rw [if_neg hproceed]

/-! ## The round trip -/

section RoundTrip

variable {clusterId : String} {bucket : Bucket} {out : Tree} {dir : BackupDir}

theorem mem_objects {files : List (List (List Char) × Bytes)} {f : List (List Char) × Bytes} :
    f ∈ objects files ↔ f ∈ files ∧ f.1 ≠ [backupManifestFile.toList] := by
  simp [objects]

theorem BackedUp.object (hb : BackedUp clusterId bucket out dir) {key : String} (hkey : key ∈ recordedKeys clusterId bucket)
    {body : Bytes} (hbody : SortedMap.get key bucket = some body) :
    (segments key, utf8Encode (fromUtf8Lossy body)) ∈ objects dir.tree.files := by
  have hne := segments_ne_manifest (mem_recordedKeys hkey).1
  refine mem_objects.mpr ⟨(hb.files _ hne).mpr (.inl ⟨key, hkey, fromUtf8Lossy body, ?_, rfl⟩), hne⟩
  rw [getObjectText, hbody, Option.map_some]

/-- The restore takes the directory exactly when the texts are small enough, and the
    directory held nothing else. -/
theorem BackedUp.accepted_iff (hb : BackedUp clusterId bucket out dir) (hout : out.Plain SlashFree) :
    (∀ f ∈ objects dir.tree.files, Accepted (.text clusterId) (recordedKeys clusterId bucket) f) ↔
      (∀ key ∈ recordedKeys clusterId bucket, ∀ body, SortedMap.get key bucket = some body →
        (utf8Encode (fromUtf8Lossy body)).length ≤ maxRestoreObjectBytes) ∧
      ∀ f ∈ objects out.files, keyOf f.1 ∈ recordedKeys clusterId bucket := by
  constructor
  · intro hall
    refine ⟨fun key hkey body hbody => (hall _ (hb.object hkey hbody)).small, fun f hf => ?_⟩
    obtain ⟨hf, hne⟩ := mem_objects.mp hf
    by_cases hover : ∃ key ∈ recordedKeys clusterId bucket, f.1 = segments key
    · obtain ⟨key, hkey, hpath⟩ := hover
      rw [hpath, keyOf_segments]
      exact hkey
    · have hkept : ∀ key ∈ recordedKeys clusterId bucket, f.1 ≠ segments key := fun key hkey he => hover ⟨key, hkey, he⟩
      exact (hall f (mem_objects.mpr ⟨(hb.files f hne).mpr (.inr ⟨hf, hkept⟩), hne⟩)).listed
  · rintro ⟨hsmall, hlisted⟩ f hf
    obtain ⟨hf, hne⟩ := mem_objects.mp hf
    rcases (hb.files f hne).mp hf with ⟨key, hkey, text, htext, rfl⟩ | ⟨hf, hkept⟩
    · obtain ⟨hsafe, hunder, body, hbody⟩ := mem_recordedKeys hkey
      rw [getObjectText, hbody, Option.map_some] at htext
      obtain rfl := Option.some.inj htext
      refine ⟨?_, ?_, ?_, hsmall key hkey body hbody⟩
      · rw [keyOf_segments]
        exact hsafe
      · rw [keyOf_segments]
        exact hunder
      · rw [keyOf_segments]
        exact hkey
    · have hpath := segments_keyOf (fun seg hseg => hout.names_ok hf seg hseg) (files_ne_nil hf)
      exact absurd hpath.symm (hkept _ (hlisted f (mem_objects.mpr ⟨hf, hne⟩)))

variable {aws : AwsContext} {opts : RestoreOptions}

theorem BackedUp.restored (hb : BackedUp clusterId bucket out dir) (hready : aws.ready = true)
    (hputs : ∀ i, aws.putFails i = false) (hyes : opts.yes = true) (hcluster : opts.cluster = none)
    (hall : ∀ f ∈ objects dir.tree.files, Accepted (.text clusterId) (recordedKeys clusterId bucket) f)
    {key : String} (hkey : key ∈ recordedKeys clusterId bucket) {body : Bytes} (hbody : SortedMap.get key bucket = some body) :
    SortedMap.get key (runRestore aws opts dir []).bucket = some (utf8Encode (fromUtf8Lossy body)) := by
  have hobj := hb.object hkey hbody
  have hne : (objects dir.tree.files).map Upload.of ≠ [] := by
    intro he
    rw [List.map_eq_nil_iff.mp he] at hobj
    cases hobj
  have hplan : planRestore opts.cluster dir = .ok (.text clusterId, (objects dir.tree.files).map Upload.of) :=
    planRestore_ok.mpr ⟨_, _, hb.manifest, rfl, rfl, by rw [hcluster]; rfl, hall, rfl, hne⟩
  have hproceed : opts.proceed = true := by simp [RestoreOptions.proceed, hyes]
  simp only [runRestore, hplan, prepareAws_text hb.label hready, hproceed, Bool.not_true, Bool.false_eq_true, if_false]
  refine get_putAll hputs 0 _ [] ?_ (.inr ⟨_, List.mem_map_of_mem hobj, keyOf_segments key⟩)
  -- A file with this key is at its path, and a plain tree has one file there.
  intro u hu huk
  obtain ⟨f, hf, rfl⟩ := List.mem_map.mp hu
  obtain ⟨hf, _⟩ := mem_objects.mp hf
  have hpath := segments_keyOf (fun seg hseg => hb.plain.names_ok hf seg hseg) (files_ne_nil hf)
  have huk : keyOf f.1 = key := huk
  rw [huk] at hpath
  have hsame := List.inj_on_of_nodup_map hb.plain.files_nodup hf (mem_objects.mp hobj).1 hpath.symm
  rw [hsame]
  exact fromUtf8Lossy_encode _

theorem BackedUp.refused (hb : BackedUp clusterId bucket out dir) (hcluster : opts.cluster = none)
    (hnot : ¬ ∀ f ∈ objects dir.tree.files, Accepted (.text clusterId) (recordedKeys clusterId bucket) f) (into : Bucket) :
    (runRestore aws opts dir into).bucket = into := by
  unfold runRestore
  cases hp : planRestore opts.cluster dir with
  | error e => rfl
  | ok plan =>
    obtain ⟨m, recorded, hm, _, hk, htarget, hall, _⟩ := planRestore_ok.mp (show planRestore opts.cluster dir = .ok (plan.1, plan.2) from hp)
    obtain rfl := Option.some.inj (hb.manifest.symm.trans hm)
    obtain rfl := Option.some.inj hk
    rw [hcluster] at htarget
    rw [htarget] at hall
    exact absurd hall hnot

/-- A body that a text has, small enough to restore. -/
def SmallText (body : Bytes) : Prop := ∃ text, body = utf8Encode text ∧ body.length ≤ maxRestoreObjectBytes

/-- The recorded objects are small texts, and the backup's directory held no other file. -/
def Restorable (clusterId : String) (bucket : Bucket) (out : Tree) : Prop :=
  (∀ key ∈ recordedKeys clusterId bucket, ∀ body, SortedMap.get key bucket = some body → SmallText body) ∧
    ∀ f ∈ objects out.files, keyOf f.1 ∈ recordedKeys clusterId bucket

theorem BackedUp.reproduced_iff (hb : BackedUp clusterId bucket out dir) (hout : out.Plain SlashFree)
    (hready : aws.ready = true) (hputs : ∀ i, aws.putFails i = false) (hyes : opts.yes = true) (hcluster : opts.cluster = none) :
    (∀ key ∈ recordedKeys clusterId bucket,
      SortedMap.get key (runRestore aws opts dir []).bucket = SortedMap.get key bucket) ↔
      recordedKeys clusterId bucket = [] ∨ Restorable clusterId bucket out := by
  by_cases hall : ∀ f ∈ objects dir.tree.files, Accepted (.text clusterId) (recordedKeys clusterId bucket) f
  · obtain ⟨hsmall, hlisted⟩ := (hb.accepted_iff hout).mp hall
    constructor
    · intro h
      refine .inr ⟨fun key hkey body hbody => ⟨fromUtf8Lossy body, ?_⟩, hlisted⟩
      have hsame := h key hkey
      rw [hb.restored hready hputs hyes hcluster hall hkey hbody, hbody] at hsame
      have heq := Option.some.inj hsame
      exact ⟨heq.symm, heq ▸ hsmall key hkey body hbody⟩
    · rintro (hnil | hr) key hkey
      · rw [hnil] at hkey
        cases hkey
      · obtain ⟨_, _, body, hbody⟩ := mem_recordedKeys hkey
        obtain ⟨text, rfl, _⟩ := hr.1 key hkey body hbody
        rw [hb.restored hready hputs hyes hcluster hall hkey hbody, hbody, fromUtf8Lossy_encode]
  · rw [hb.refused hcluster hall]
    constructor
    · intro h
      refine .inl (List.eq_nil_iff_forall_not_mem.mpr fun key hkey => ?_)
      obtain ⟨_, _, body, hbody⟩ := mem_recordedKeys hkey
      have := h key hkey
      rw [hbody] at this
      cases this
    · rintro (hnil | hr) key hkey
      · rw [hnil] at hkey
        cases hkey
      · refine absurd ((hb.accepted_iff hout).mpr ⟨fun k hk body hbody => ?_, hr.2⟩) hall
        obtain ⟨text, rfl, hlen⟩ := hr.1 k hk body hbody
        rw [fromUtf8Lossy_encode]
        exact hlen

end RoundTrip

/-! ## The restore's keyspace -/

/-- Where a named cluster's keys are, those of one cluster lie. -/
theorem named_root_iff {shown id key : String} (hshown : '/' ∉ shown.toList) (hdefault : shown ≠ defaultCluster)
    (hid : labelMatches id = true) (hkey : hasPrefix (clustersPrefix ++ shown ++ "/") key = true) :
    keyUnderPrefixes key (backupPrefixesForCluster id) = true ↔ shown = id := by
  rw [keyUnderPrefixes_iff]
  unfold backupPrefixesForCluster
  by_cases hd : id = defaultCluster
  · -- The default cluster's roots begin otherwise.
    rw [if_pos hd]
    refine iff_of_false ?_ fun he => hdefault (he.trans hd)
    obtain ⟨x, hx⟩ := hasPrefix_iff.mp hkey
    have hhead : key.toList.head? = some 'c' := by
      rw [← hx, String.toList_append, String.toList_append, List.append_assoc, List.append_assoc]
      rfl
    rintro ⟨p, hp, h⟩
    obtain ⟨y, hy⟩ := hasPrefix_iff.mp h
    rw [← hy] at hhead
    rcases List.mem_cons.mp hp with rfl | hp
    · exact absurd hhead (by simp [nodesPrefix])
    · rw [List.mem_singleton.mp hp] at hhead
      exact absurd hhead (by simp [projectsRoot])
  · rw [if_neg hd]
    constructor
    · rintro ⟨p, hp, h⟩
      rw [List.mem_singleton.mp hp] at h
      by_contra hne
      rw [directory_disjoint hshown (slash_not_mem_label hid) hne hkey] at h
      cases h
    · rintro rfl
      exact ⟨_, List.mem_singleton_self _, hkey⟩

theorem roots_iff {aws : AwsContext} {cluster : ClusterValue} {id key : String} (ha : prepareAws aws cluster = .ok id)
    (hkey : keyUnderPrefixes key cluster.roots = true) :
    keyUnderPrefixes key (backupPrefixesForCluster id) = true ↔ cluster.shown = id := by
  obtain ⟨hlabel, hres⟩ := prepareAws_ok ha
  cases cluster with
  | text name =>
    cases hres
    exact iff_of_true hkey rfl
  | null =>
    obtain ⟨p, hp, h⟩ := keyUnderPrefixes_iff.mp hkey
    rw [List.mem_singleton.mp hp] at h
    exact named_root_iff (by decide) (by decide) hlabel h
  | undefined =>
    obtain ⟨p, hp, h⟩ := keyUnderPrefixes_iff.mp hkey
    rw [List.mem_singleton.mp hp] at h
    exact named_root_iff (by decide) (by decide) hlabel h
  | other shown => cases hres

/-- A restore reproduces what a backup recorded exactly when that is nothing, or small texts
    in a directory that held no other file. And whatever the directory, each key it uploads
    is a clean path, recorded, and under the roots of the cluster it is given; this is the
    cluster that the clients are built for, but where neither the manifest nor an option
    names one. -/
theorem backup_restore_iff (aws : AwsContext) (opts : RestoreOptions) :
    (∀ (aws₀ : AwsContext) (cluster : Option String) (bucket : Bucket) (out : Option Tree) (manifest : BackupManifest)
      (dir : BackupDir), (out.getD .empty).Plain SlashFree → runBackup aws₀ cluster bucket out = .ok (manifest, dir) →
      aws.ready = true → (∀ i, aws.putFails i = false) → opts.yes = true → opts.cluster = none →
      ((∀ key ∈ manifest.keys,
        SortedMap.get key (runRestore aws opts dir []).bucket = SortedMap.get key bucket) ↔
        recordedKeys manifest.cluster bucket = [] ∨ Restorable manifest.cluster bucket (out.getD .empty))) ∧
    ∀ (dir : BackupDir) (bucket : Bucket), ∀ key ∈ (runRestore aws opts dir bucket).uploaded, ∃ m recorded id,
      dir.manifest = some m ∧ m.keys.recorded = some recorded ∧ (runRestore aws opts dir bucket).clusterId = some id ∧
      isSafeBackupKey key = true ∧ key ∈ recorded ∧
      keyUnderPrefixes key (orCluster opts.cluster m.cluster).roots = true ∧
      (keyUnderPrefixes key (backupPrefixesForCluster id) = true ↔ (orCluster opts.cluster m.cluster).shown = id) ∧
      ∀ name, orCluster opts.cluster m.cluster = .text name → name = id := by
  constructor
  · intro aws₀ cluster bucket out manifest dir hout h hready hputs hyes hcluster
    obtain ⟨hb, hkeys⟩ := runBackup_ok hout h
    rw [hkeys]
    exact hb.reproduced_iff hout hready hputs hyes hcluster
  · intro dir bucket key h
    obtain ⟨target, uploads, id, hplan, ⟨u, hu, rfl⟩, ha, hid⟩ := runRestore_uploaded h
    obtain ⟨m, recorded, hm, _, hk, rfl, hall, rfl, _⟩ := planRestore_ok.mp hplan
    obtain ⟨f, hf, rfl⟩ := List.mem_map.mp hu
    have hacc := hall f hf
    refine ⟨m, recorded, id, hm, hk, hid, hacc.clean, hacc.listed, hacc.under, roots_iff ha hacc.under, fun name hname => ?_⟩
    rw [hname] at ha
    have hres := (prepareAws_ok ha).2
    cases hres
    rfl

section Prod

def prodAws : AwsContext :=
  { accountId := "111122223333", region := "us-east-1", bucket := "state", now := "2026-06-10T12:00:00.000Z" }

def configKey : String := "clusters/prod/cluster.json"

/-- A remote build's context. -/
def archiveKey : String := "clusters/prod/projects/shop/builds/web/abc.tar.gz"

def configBucket : Bucket := [(configKey, [0x7b, 0x7d, 0x0a])]

/-- A gzip stream. -/
def archiveBucket : Bucket := [(archiveKey, [0x1f, 0x8b, 0x08, 0x00])]

/-- A manifest that names no cluster, beside a file in the directory that this names. -/
def unnamedDir : BackupDir :=
  { manifest := some ⟨some 1, .undefined, .iterable ["clusters/undefined/x"]⟩
    tree := .dir "clusters".toList (.dir "undefined".toList (.file "x".toList [] .empty) .empty) .empty }

theorem backup_restore_config :
    ∃ manifest dir, runBackup prodAws (some "prod") configBucket none = .ok (manifest, dir) ∧ manifest.keys = [configKey] ∧
      (runRestore prodAws { yes := true } dir []).uploaded = [configKey] ∧
      ((∀ key ∈ manifest.keys,
        SortedMap.get key (runRestore prodAws { yes := true } dir []).bucket = SortedMap.get key configBucket) ↔
        recordedKeys manifest.cluster configBucket = [] ∨ Restorable manifest.cluster configBucket .empty) :=
  ⟨_, _, rfl, by decide +kernel, by decide +kernel,
    (backup_restore_iff prodAws { yes := true }).1 prodAws (some "prod") configBucket none _ _ trivial rfl rfl
      (fun _ => rfl) rfl rfl⟩

/-- The archive's second byte is no text. And without a cluster's name, the clients are the
    default cluster's, whose roots the uploaded key is not under. -/
theorem restore_loses_archive :
    (∃ manifest dir, runBackup prodAws (some "prod") archiveBucket none = .ok (manifest, dir) ∧ archiveKey ∈ manifest.keys ∧
      SortedMap.get archiveKey (runRestore prodAws { yes := true } dir []).bucket ≠ SortedMap.get archiveKey archiveBucket) ∧
    (runRestore prodAws { yes := true } unnamedDir []).uploaded = ["clusters/undefined/x"] ∧
    (runRestore prodAws { yes := true } unnamedDir []).clusterId = some "default" ∧
    keyUnderPrefixes "clusters/undefined/x" (backupPrefixesForCluster "default") = false :=
  ⟨⟨_, _, rfl, by decide +kernel, by decide +kernel⟩, by decide +kernel, by decide +kernel, by decide +kernel⟩

end Prod

end LaunchPad.Cli.Backup
