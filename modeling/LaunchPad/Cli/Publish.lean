/-
  LaunchPad.Cli.Publish — the four loops that rewrite a node's `desired.json`: `publishDesired`
  (`commands/deploy.ts`), `publishRemoval` (`commands/destroy.ts`), `publishJobRun` and
  `removeJobRun` (`commands/job.ts`). Each reads, works out a new document, and writes it on
  the condition that nothing was written since, a bounded number of times.

  Proved:
  - `loop_sat`: amid any other clients of the bucket, a loop writes at most once, what it
    works out from the very document it replaces, and nothing when it fails.
  - `no_lost_update`: any number of the four, in any interleaving, from a document that the
    schema accepts: each write is the previous document with its own change, and the
    entries it does not own are carried over in order.
  - `publish_keeps_others`: amid clients of any kind and over any stored body, a
    `publishDesired` that writes keeps every entry of another owner that its parser reads.
-/
import LaunchPad.Cli.S3State
import LaunchPad.Cli.Preflight
import LaunchPad.Shared.Merge

namespace LaunchPad.Cli

open Lib

/-- `MAX_PUBLISH_RETRIES`. -/
def maxPublishRetries : Nat := 5

inductive PublishError where
  | s3 (e : S3Error)
  | merge (e : MergeError)
  | deploy (e : DeployError)
  /-- A body that `parseDesiredState` refuses. -/
  | malformed
  | jobRunning (service runId : String)
  | gaveUp (message hint : String)
  deriving DecidableEq, Repr

abbrev DesiredRaw := Raw DesiredState
abbrev DesiredOp := S3Op String DesiredRaw
abbrev DesiredBucket (ι : Type) := Bucketed ι String DesiredRaw
abbrev DesiredResp : DesiredOp → Type := S3Resp
abbrev Client := Prog DesiredResp (Except PublishError Unit)

/-- Clients side by side on one bucket. -/
abbrev Clients (ι : Type) := Crew ι DesiredResp (Except PublishError Unit) (DesiredBucket ι)

/-! ## Read, work out, write -/

/-- What a loop makes of the document it read. -/
inductive Decision where
  /-- Nothing to write. -/
  | done
  | fail (e : PublishError)
  | write (version : Int) (services : List ServiceConfig)

/-- A loop's own step: from what was read and the time. -/
abbrev Decide := Option DesiredRaw → String → Decision

/-- The loop, with that many attempts left. Reading the clock before each step is the
    `nowIso()` of an empty document. -/
def publishLoop (nodeId : String) (decide : Decide) (gaveUp : PublishError) : Nat → Client
  | 0 => .ret (.error gaveUp)
  | n + 1 => do
    match ← Prog.cmd (S3Op.getJson nodeId) with
    | .error e => .ret (.error (.s3 e))
    | .ok existing =>
      let now ← (Prog.cmd S3Op.nowIso : Prog S3Resp String)
      match decide (existing.map (·.raw)) now with
      | .done => .ret (.ok ())
      | .fail e => .ret (.error e)
      | .write version services =>
        let now ← (Prog.cmd S3Op.nowIso : Prog S3Resp String)
        match ← Prog.cmd (S3Op.putJson nodeId (.json ⟨version, nodeId, now, services⟩) (putOptions existing)) with
        | .ok _ => .ret (.ok ())
        | .error .preconditionFailed => publishLoop nodeId decide gaveUp n
        | .error e => .ret (.error (.s3 e))

/-- The document as the deploy and job loops read it. -/
def stateOrEmpty (nodeId : String) (existing : Option DesiredRaw) (now : String) : DesiredState :=
  match existing with
  | some raw => parseDesiredStateOrEmpty nodeId raw now
  | none => emptyDesiredState nodeId now

/-- A merge that may refuse. -/
def writeMerged (version : Int) : Except MergeError (List ServiceConfig) → Decision
  | .ok merged => .write version merged
  | .error e => .fail (.merge e)

/-! ## The four loops -/

def decidePublish (nodeId : String) (node : NodeRegistryEntry) (project : String) (incoming : List ServiceConfig)
    (partialDeploy : Bool) : Decide := fun existing now =>
  let state := stateOrEmpty nodeId existing now
  let merged :=
    if partialDeploy then mergeProjectServicesPartial state.services project incoming
    else mergeProjectServices state.services project incoming
  match merged with
  | .error e => .fail (.merge e)
  | .ok merged =>
    match assertCapacity nodeId node (demandsOf merged) with
    | .error e => .fail (.deploy e)
    | .ok () => .write protocolVersion merged

def publishDesired (nodeId : String) (node : NodeRegistryEntry) (project : String) (incoming : List ServiceConfig)
    (partialDeploy : Bool) : Client :=
  publishLoop nodeId (decidePublish nodeId node project incoming partialDeploy)
    (.gaveUp ("could not publish desired state for node \"" ++ nodeId ++ "\"")
      "another deploy may be racing this node — try again") maxPublishRetries

def decideRemoval (ownerProject : String) (removeSet : Option (List String)) : Decide := fun existing _ =>
  match existing with
  | none => .done
  | some raw =>
    match parseDesiredState raw with
    | none => .fail .malformed
    | some state =>
      let services := servicesAfterRemoval state.services ownerProject removeSet
      if services.length = state.services.length then .done else .write protocolVersion services

def publishRemoval (nodeId : String) (ownerProject : String) (removeSet : Option (List String)) : Client :=
  publishLoop nodeId (decideRemoval ownerProject removeSet)
    (.gaveUp ("could not update desired state for node \"" ++ nodeId ++ "\"")
      "a concurrent deploy may be racing this node — try again") maxPublishRetries

/-- Another run of the job that is still active. -/
def activeRun (services : List ServiceConfig) (incoming : ServiceConfig) : Option JobRunRequest :=
  (services.find? fun s => s.project = incoming.project ∧ s.service = incoming.service).bind fun current =>
    current.jobRun.filter fun run => decide (some run.id ≠ incoming.jobRun.map (·.id))

def decideJobRun (nodeId : String) (incoming : ServiceConfig) : Decide := fun existing now =>
  let state := stateOrEmpty nodeId existing now
  match activeRun state.services incoming with
  | some run => .fail (.jobRunning incoming.service run.id)
  | none => writeMerged state.version (mergeProjectServicesPartial state.services incoming.project [incoming])

def publishJobRun (nodeId : String) (incoming : ServiceConfig) : Client :=
  publishLoop nodeId (decideJobRun nodeId incoming)
    (.gaveUp ("could not publish job run to node \"" ++ nodeId ++ "\"")
      "another deploy may be racing this node — try again") maxPublishRetries

/-- The entry of that run. -/
def isJobRun (ownerProject jobName runId : String) (s : ServiceConfig) : Bool :=
  s.project = ownerProject && s.service = jobName && s.jobRun.any (·.id = runId)

def decideRemoveJob (nodeId ownerProject jobName runId : String) : Decide := fun existing now =>
  match existing with
  | none => .done
  | some raw =>
    let state := parseDesiredStateOrEmpty nodeId raw now
    let services := state.services.filter fun s => !isJobRun ownerProject jobName runId s
    if services.length = state.services.length then .done else .write state.version services

def removeJobRun (nodeId ownerProject jobName runId : String) : Client :=
  publishLoop nodeId (decideRemoveJob nodeId ownerProject jobName runId)
    (.gaveUp ("could not remove job run from node \"" ++ nodeId ++ "\"")
      "another deploy may be racing this node — try again") maxPublishRetries

/-! ## One loop amid any other clients -/

section Loop

variable {ι : Type} [DecidableEq ι] (E : Etags)

/-- The value is what the loop works out from the document it replaces. -/
def Overwrites (nodeId : String) (decide : Decide) (j : DesiredBucket ι) (value : DesiredRaw) : Prop :=
  ∃ existing now now' version services, (Journal.current nodeId j).map (·.2) = existing.map Body.parsed ∧
    decide existing now = .write version services ∧ value = .json ⟨version, nodeId, now', services⟩

/-- A loop's requests: its only write is its first, on its node, and goes through only on
    the document it was worked out from. -/
def LoopAllowed (i : ι) (nodeId : String) (decide : Decide) : DesiredOp → DesiredBucket ι → Prop
  | .putJson key value options, j => key = nodeId ∧ Silent i j ∧
      (admits E options.ifMatch options.ifNoneMatch key j = .ok () → Overwrites nodeId decide j value)
  | .deleteObject _ _, _ => False
  | _, _ => True

/-- A loop that fails wrote nothing; one that returns wrote, or had nothing to do. -/
def LoopOutcome (i : ι) (decide : Decide) : Except PublishError Unit → DesiredBucket ι → Prop
  | .error _, j => Silent i j
  | .ok (), j => (∃ w ∈ j, w.writer = some i) ∨ ∃ existing now, decide existing now = .done

/-- The writes of other clients leave it alone. -/
def Outlasts (i : ι) (P : DesiredBucket ι → Prop) : Prop := ∀ j w, w.writer ≠ some i → P j → P (w :: j)

/-- How a loop that returns has left the document, or found it. -/
inductive Closed (i : ι) (nodeId : String) (decide : Decide) (P : DesiredBucket ι → Prop) : DesiredBucket ι → Prop
  | idle (j : DesiredBucket ι) (existing : Option DesiredRaw) (now : String) :
      (Journal.current nodeId j).map (·.2) = existing.map Body.parsed → decide existing now = .done → P j →
      Closed i nodeId decide P j
  | wrote (j : DesiredBucket ι) (value : DesiredRaw) : Overwrites nodeId decide j value → P j →
      Closed i nodeId decide P (⟨some i, nodeId, some (.parsed value)⟩ :: j)

/-- A loop that fails leaves what it started from; one that returns has closed, at some time. -/
def LoopEnds (i : ι) (nodeId : String) (decide : Decide) (P : DesiredBucket ι → Prop) :
    Except PublishError Unit → DesiredBucket ι → Prop
  | .error _, j => P j
  | .ok (), j => ∃ newer older, j = newer ++ older ∧ Closed i nodeId decide P older

variable {E} {G : ι → DesiredOp → DesiredBucket ι → Prop} {i : ι} {nodeId : String} {decide : Decide}

omit [DecidableEq ι] in
theorem silent_outlasts : Outlasts i (Silent i) := fun _ _ hw h => h.cons hw

omit [DecidableEq ι] in
theorem held_outlasts {P : DesiredBucket ι → Prop} (hP : Outlasts i P) (existing : Option (S3Json DesiredRaw)) :
    Outlasts i fun j => P j ∧ Held E nodeId existing j :=
  fun _ w hw h => ⟨hP _ w hw h.1, h.2.grows [w]⟩

omit [DecidableEq ι] in
theorem ends_outlasts {P : DesiredBucket ι → Prop} :
    Outlasts i fun j => ∃ newer older, j = newer ++ older ∧ Closed i nodeId decide P older := by
  intro j w _ ⟨newer, older, hj, hclosed⟩
  exact ⟨w :: newer, older, by rw [hj, List.cons_append], hclosed⟩

/-- The rule of a loop, from what other clients leave alone: its reads are allowed, and its
    write where it goes through only on the document it was worked out from. -/
theorem loop_rule {P : DesiredBucket ι → Prop} (hP : Outlasts i P) {A : DesiredOp → DesiredBucket ι → Prop}
    (hget : ∀ j, A (.getJson nodeId) j) (hclock : ∀ j, A .nowIso j)
    (hput : ∀ j value (existing : Option (S3Json DesiredRaw)), P j →
      (admits E (putOptions existing).ifMatch (putOptions existing).ifNoneMatch nodeId j = .ok () →
        Overwrites nodeId decide j value) → A (.putJson nodeId value (putOptions existing)) j)
    (gaveUp : PublishError) (n : Nat) {j : DesiredBucket ι} (h : P j) :
    Sat (amidst (s3Sem E) G i) A (LoopEnds i nodeId decide P) (publishLoop nodeId decide gaveUp n) j := by
  have hfails : ∀ {e j}, P j → Sat (amidst (s3Sem E) G i) A (LoopEnds i nodeId decide P) (.ret (.error e)) j :=
    fun h => Sat.ret (amidst_stable hP) h fun _ h => h
  have hheld : ∀ existing, (amidst (s3Sem E) G i).Stable fun j => P j ∧ Held E nodeId existing j :=
    fun existing => amidst_stable (held_outlasts hP existing)
  have hends : (amidst (s3Sem E) G i).Stable fun j =>
      ∃ newer older, j = newer ++ older ∧ Closed i nodeId decide P older := amidst_stable ends_outlasts
  induction n generalizing j with
  | zero => exact hfails h
  | succ n ih =>
    simp only [publishLoop, Prog.cmd_bind]
    refine Sat.act (amidst_stable hP) h (fun j _ => hget j) fun j₁ r j₁' h₁ hread => ?_
    obtain ⟨hread, rfl⟩ := hread
    cases r with
    | error e => exact hfails h₁
    | ok existing =>
      -- at this read the loop may find nothing to do
      have hidle : ∀ now, decide (existing.map (·.raw)) now = .done → Closed i nodeId decide P j₁' := by
        intro now hd
        exact .idle j₁' _ now (getJson_current hread.symm) hd h₁
      have hread' : ∃ newer, j₁' = newer ++ j₁' := ⟨[], rfl⟩
      have hseen : Outlasts i fun j => (P j ∧ Held E nodeId existing j) ∧ ∃ newer, j = newer ++ j₁' := by
        rintro j w hw ⟨hj, newer, he⟩
        exact ⟨held_outlasts hP existing j w hw hj, w :: newer, by rw [he, List.cons_append]⟩
      refine Sat.act (amidst_stable hseen) ⟨⟨h₁, Held.ofRead hread.symm⟩, hread'⟩ (fun j _ => hclock j)
        fun j₂ now j₂' h₂ hsame => ?_
      obtain rfl := hsame
      cases hd : decide (existing.map (·.raw)) now with
      | done =>
        simp only
        obtain ⟨newer, he⟩ := h₂.2
        exact Sat.ret hends ⟨newer, j₁', he, hidle now hd⟩ fun _ h => h
      | fail e =>
        simp only
        exact hfails h₂.1.1
      | write version services =>
        simp only
        refine Sat.act (hheld existing) h₂.1 (fun j _ => hclock j) fun j₃ now' j₃' h₃ hsame => ?_
        obtain rfl := hsame
        -- the write goes through only on the document it was worked out from
        have hover : ∀ j : DesiredBucket ι, Held E nodeId existing j →
            admits E (putOptions existing).ifMatch (putOptions existing).ifNoneMatch nodeId j = .ok () →
            Overwrites nodeId decide j (.json ⟨version, nodeId, now', services⟩) := by
          intro j hheld hadm
          refine ⟨existing.map (·.raw), now, now', version, services, ?_, hd, rfl⟩
          rw [admits_current hheld hadm, Option.map_map]
          rfl
        refine Sat.act (hheld existing) h₃ (fun j₄ h₄ => hput j₄ _ existing h₄.1 (hover j₄ h₄.2))
          fun j₄ r j₄' h₄ hsem => ?_
        rcases s3Sem_put hsem with ⟨hadm, rfl, rfl⟩ | ⟨e, rfl, rfl⟩
        · exact Sat.ret hends ⟨[], _, rfl, .wrote j₄ _ (hover j₄ h₄.2 hadm) h₄.1⟩ fun _ h => h
        · cases e with
          | preconditionFailed => exact ih h₄.1
          | noSuchKey => exact hfails h₄.1
          | syntaxError => exact hfails h₄.1

theorem loop_sat (gaveUp : PublishError) (n : Nat) {j : DesiredBucket ι} (h : Silent i j) :
    Sat (amidst (s3Sem E) G i) (LoopAllowed E i nodeId decide) (LoopOutcome i decide)
      (publishLoop nodeId decide gaveUp n) j := by
  refine (loop_rule silent_outlasts (fun _ => trivial) (fun _ => trivial)
    (fun j value existing hsilent hover => ⟨rfl, hsilent, hover⟩) gaveUp n h).mono (fun _ _ h => h) fun r j hr => ?_
  cases r with
  | error e => exact hr
  | ok _ =>
    obtain ⟨newer, older, rfl, hclosed⟩ := hr
    cases hclosed with
    | idle _ existing now _ hd _ => exact .inr ⟨existing, now, hd⟩
    | wrote j value _ _ => exact .inl ⟨_, List.mem_append_right _ (List.mem_cons_self ..), rfl⟩

/-- Over every run, whatever the other clients are: what a loop wrote, and how it ended. -/
theorem loop_run {gaveUp : PublishError} {n : Nat} {progs : ι → Client} (hi : progs i = publishLoop nodeId decide gaveUp n)
    {j₀ : DesiredBucket ι} (hbefore : Silent i j₀) {s : Clients ι} (hrun : CrewRun (s3Sem E) ⟨progs, j₀⟩ s) :
    (∀ newer w older, s.world = newer ++ w :: older → w.writer = some i →
      w.key = nodeId ∧ ∃ value, w.body = some (.parsed value) ∧ Overwrites nodeId decide older value) ∧
      ∀ r, s.progs i = .ret r → LoopOutcome i decide r s.world := by
  -- the client keeps to its loop; nothing is asked of the others
  have hsat : ∀ k, Sat (amidst (s3Sem E) (fun k o j => k = i → LoopAllowed E i nodeId decide o j) k)
      (fun o j => k = i → LoopAllowed E i nodeId decide o j) (fun r j => k = i → LoopOutcome i decide r j) (progs k) j₀ := by
    intro k
    by_cases hk : k = i
    · subst hk
      rw [hi]
      exact (loop_sat gaveUp n hbefore).mono (fun _ _ h _ => h) fun _ _ h _ => h
    · exact (Sat.any (progs k) j₀).mono (fun _ _ _ h => absurd h hk) fun _ _ _ h => absurd h hk
  refine ⟨?_, fun r hr => crew_done (Q := fun k r j => k = i → LoopOutcome i decide r j) hsat hrun hr rfl⟩
  refine crew_keeps (I := fun j => ∀ newer w older, j = newer ++ w :: older → w.writer = some i →
    w.key = nodeId ∧ ∃ value, w.body = some (.parsed value) ∧ Overwrites nodeId decide older value) hsat ?_ ?_ hrun
  · intro k o j r j' hG hsem hI newer w older hsplit hw
    rcases s3Sem_grows hsem with rfl | ⟨x, hx, rfl⟩
    · exact hI newer w older hsplit hw
    · cases newer with
      | cons y newer => exact hI newer w older (List.cons.inj hsplit).2 hw
      | nil =>
        obtain ⟨rfl, rfl⟩ := List.cons.inj hsplit
        obtain rfl := Option.some.inj (hx.symm.trans hw)
        have hallowed := hG rfl
        cases o with
        | getJson key => exact absurd hsem.2.symm List.ne_cons_self
        | nowIso => exact absurd hsem.symm List.ne_cons_self
        | deleteObject key ifMatch => exact hallowed.elim
        | putJson key value options =>
          obtain ⟨rfl, _, hover⟩ := hallowed
          rcases s3Sem_put hsem with ⟨hadm, _, he⟩ | ⟨_, _, he⟩
          · obtain ⟨rfl, _⟩ := List.cons.inj he
            exact ⟨rfl, value, rfl, hover hadm⟩
          · exact absurd he.symm List.ne_cons_self
  · intro newer w older hsplit hw
    have hmem : w ∈ j₀ := by
      change j₀ = _ at hsplit
      rw [hsplit]
      simp
    exact absurd hw (hbefore w hmem)

end Loop

/-! ## Any number of them on one document -/

/-- What a client of the document is asked to do. -/
inductive Request where
  | publishDesired (node : NodeRegistryEntry) (project : String) (incoming : List ServiceConfig) (partialDeploy : Bool)
  | publishRemoval (ownerProject : String) (removeSet : Option (List String))
  | publishJobRun (incoming : ServiceConfig)
  | removeJobRun (ownerProject jobName runId : String)

namespace Request

/-- The entries it brings are ones the schema accepts. -/
def WellFormed : Request → Prop
  | publishDesired _ _ incoming _ => ∀ s ∈ incoming, serviceConfigSchema s = true
  | publishJobRun incoming => serviceConfigSchema incoming = true
  | _ => True

def client (nodeId : String) : Request → Client
  | publishDesired node project incoming partialDeploy => Cli.publishDesired nodeId node project incoming partialDeploy
  | publishRemoval ownerProject removeSet => Cli.publishRemoval nodeId ownerProject removeSet
  | publishJobRun incoming => Cli.publishJobRun nodeId incoming
  | removeJobRun ownerProject jobName runId => Cli.removeJobRun nodeId ownerProject jobName runId

def decide (nodeId : String) : Request → Decide
  | publishDesired node project incoming partialDeploy => decidePublish nodeId node project incoming partialDeploy
  | publishRemoval ownerProject removeSet => decideRemoval ownerProject removeSet
  | publishJobRun incoming => decideJobRun nodeId incoming
  | removeJobRun ownerProject jobName runId => decideRemoveJob nodeId ownerProject jobName runId

theorem client_eq (nodeId : String) (req : Request) :
    ∃ gaveUp, req.client nodeId = publishLoop nodeId (req.decide nodeId) gaveUp maxPublishRetries := by
  cases req <;> exact ⟨_, rfl⟩

/-- The entries that are its own to change. -/
def owns : Request → ServiceConfig → Bool
  | publishDesired _ project _ false, s => s.project = project
  | publishDesired _ project incoming true, s => s.project = project && (incoming.map (·.service)).contains s.service
  | publishRemoval ownerProject removeSet, s =>
    s.project = ownerProject && removeSet.all fun names => names.contains s.service
  | publishJobRun incoming, s => s.project = incoming.project && s.service = incoming.service
  | removeJobRun ownerProject jobName runId, s => isJobRun ownerProject jobName runId s

/-- Its change of a list of services, as its merge specifies it. -/
def apply : Request → List ServiceConfig → Except MergeError (List ServiceConfig)
  | publishDesired _ project incoming partialDeploy, old =>
    if partialDeploy then mergeProjectServicesPartial old project incoming else mergeProjectServices old project incoming
  | publishRemoval ownerProject removeSet, old => .ok (servicesAfterRemoval old ownerProject removeSet)
  | publishJobRun incoming, old => mergeProjectServicesPartial old incoming.project [incoming]
  | removeJobRun ownerProject jobName runId, old => .ok (old.filter fun s => !isJobRun ownerProject jobName runId s)

variable {req : Request} {old new : List ServiceConfig}

/-- What is not its own is carried over, in order. -/
theorem apply_carries (h : req.apply old = .ok new) : new.filter (fun s => !req.owns s) = old.filter fun s => !req.owns s := by
  cases req with
  | publishDesired node project incoming partialDeploy =>
    cases partialDeploy with
    | false =>
      have hothers := full_others h
      have hiff : (fun s => !(publishDesired node project incoming false).owns s) =
          fun s : ServiceConfig => Decidable.decide (s.project ≠ project) := by
        funext s
        simp [owns]
      rw [hiff]
      exact hothers
    | true =>
      apply partial_siblings h
      intro s hp hs
      simp only [owns, hp, decide_true, Bool.true_and, Bool.not_eq_false', List.contains_eq_mem, decide_eq_true_eq]
      exact hs
  | publishRemoval ownerProject removeSet =>
    obtain rfl := (Except.ok.inj h).symm
    unfold servicesAfterRemoval
    rw [List.filter_filter]
    apply List.filter_congr
    intro s _
    simp [owns]
  | publishJobRun incoming =>
    apply partial_siblings h
    intro s hp hs
    have hs : s.service = incoming.service := by simpa using hs
    simp [owns, hp, hs]
  | removeJobRun ownerProject jobName runId =>
    obtain rfl := (Except.ok.inj h).symm
    rw [List.filter_filter]
    apply List.filter_congr
    intro s _
    simp [owns]

/-- The entries it brings. -/
def brings : Request → List ServiceConfig
  | publishDesired _ _ incoming _ => incoming
  | publishJobRun incoming => [incoming]
  | _ => []

theorem mem_upserted {project : String} {incoming : List ServiceConfig} {s : ServiceConfig}
    (h : s ∈ upserted old project incoming) : s ∈ old ∨ s ∈ incoming := by
  rcases List.mem_append.mp h with h | h
  · obtain ⟨x, hx, rfl⟩ := List.mem_map.mp h
    cases hr : replacementFor project incoming x with
    | none => exact .inl hx
    | some r => exact .inr (replacementFor_some hr).2.1
  · exact .inr (List.mem_filter.mp h).1

/-- What it writes was there, or is brought. -/
theorem apply_mem (h : req.apply old = .ok new) {s : ServiceConfig} (hs : s ∈ new) : s ∈ old ∨ s ∈ req.brings := by
  cases req with
  | publishDesired node project incoming partialDeploy =>
    cases partialDeploy with
    | false =>
      obtain ⟨_, rfl, _⟩ := (mergeProjectServices_ok).mp h
      rcases List.mem_append.mp hs with hs | hs
      · exact .inl (List.mem_filter.mp hs).1
      · exact .inr hs
    | true =>
      obtain ⟨_, rfl, _⟩ := (mergeProjectServicesPartial_ok).mp h
      exact mem_upserted hs
  | publishRemoval ownerProject removeSet =>
    obtain rfl := (Except.ok.inj h).symm
    exact .inl (List.mem_filter.mp hs).1
  | publishJobRun incoming =>
    obtain ⟨_, rfl, _⟩ := (mergeProjectServicesPartial_ok).mp h
    exact mem_upserted hs
  | removeJobRun ownerProject jobName runId =>
    obtain rfl := (Except.ok.inj h).symm
    exact .inl (List.mem_filter.mp hs).1

/-- What it writes over accepted entries is accepted. -/
theorem apply_accepted (hreq : req.WellFormed) (hold : ∀ s ∈ old, serviceConfigSchema s = true)
    (h : req.apply old = .ok new) : ∀ s ∈ new, serviceConfigSchema s = true := by
  intro s hs
  rcases apply_mem h hs with hs | hs
  · exact hold s hs
  · cases req with
    | publishDesired node project incoming partialDeploy => exact hreq s hs
    | publishJobRun incoming =>
      rw [List.mem_singleton.mp hs]
      exact hreq
    | publishRemoval ownerProject removeSet => exact absurd hs List.not_mem_nil
    | removeJobRun ownerProject jobName runId => exact absurd hs List.not_mem_nil

/-- Distinct keys stay distinct: a merge checks them, a removal only takes entries out. -/
theorem apply_distinct (hold : (old.map (·.key)).Nodup) (h : req.apply old = .ok new) : (new.map (·.key)).Nodup := by
  cases req with
  | publishDesired node project incoming partialDeploy =>
    cases partialDeploy with
    | false => exact ((mergeProjectServices_ok).mp h).2.2
    | true => exact ((mergeProjectServicesPartial_ok).mp h).2.2
  | publishRemoval ownerProject removeSet =>
    obtain rfl := (Except.ok.inj h).symm
    exact hold.sublist (List.filter_sublist.map _)
  | publishJobRun incoming => exact ((mergeProjectServicesPartial_ok).mp h).2.2
  | removeJobRun ownerProject jobName runId =>
    obtain rfl := (Except.ok.inj h).symm
    exact hold.sublist (List.filter_sublist.map _)

/-- A step that writes, over what it reads as `services`. -/
theorem decide_write {nodeId now : String} {existing : Option DesiredRaw} {state : DesiredState}
    (hread : stateOrEmpty nodeId existing now = state) (hparsed : ∀ raw, existing = some raw → parseDesiredState raw = some state)
    {version : Int} {services : List ServiceConfig} (h : req.decide nodeId existing now = .write version services) :
    (version = protocolVersion ∨ version = state.version) ∧ req.apply state.services = .ok services := by
  cases req with
  | publishDesired node project incoming partialDeploy =>
    simp only [Request.decide, decidePublish, hread] at h
    split at h
    · cases h
    · rename_i merged hm
      split at h
      · cases h
      · cases h
        exact ⟨.inl rfl, hm⟩
  | publishRemoval ownerProject removeSet =>
    simp only [Request.decide, decideRemoval] at h
    split at h
    · cases h
    · rename_i raw
      rw [hparsed raw rfl] at h
      simp only at h
      split at h
      · cases h
      · cases h
        exact ⟨.inl rfl, rfl⟩
  | publishJobRun incoming =>
    simp only [Request.decide, decideJobRun, hread] at h
    split at h
    · cases h
    · cases hm : mergeProjectServicesPartial state.services incoming.project [incoming] with
      | error e => rw [hm] at h; cases h
      | ok merged =>
        rw [hm] at h
        cases h
        exact ⟨.inr rfl, hm⟩
  | removeJobRun ownerProject jobName runId =>
    simp only [Request.decide, decideRemoveJob] at h
    split at h
    · cases h
    · rename_i raw
      have hstate : parseDesiredStateOrEmpty nodeId raw now = state := hread
      rw [hstate] at h
      split at h
      · cases h
      · cases h
        exact ⟨.inr rfl, rfl⟩

end Request

section Document

variable {ι : Type} [DecidableEq ι] {E : Etags} {nodeId : String}

/-- The document, when there is one, is one the schema accepts. -/
def Readable (nodeId : String) (j : DesiredBucket ι) : Prop :=
  ∀ b, (Journal.current nodeId j).map (·.2) = some b → ∃ d, b = .parsed (.json d) ∧ desiredStateSchema d = true

/-- The services of a stored document, as the schema reads it. -/
def servicesAt (nodeId : String) (j : DesiredBucket ι) : List ServiceConfig :=
  match Journal.current nodeId j with
  | some (_, .parsed raw) =>
    match parseDesiredState raw with
    | some d => d.services
    | none => []
  | _ => []

omit [DecidableEq ι] in
theorem servicesAt_parsed {j : DesiredBucket ι} {raw : DesiredRaw} {d : DesiredState}
    (h : (Journal.current nodeId j).map (·.2) = some (.parsed raw)) (hd : parseDesiredState raw = some d) :
    servicesAt nodeId j = d.services := by
  obtain ⟨⟨v, b⟩, hcur, rfl⟩ := Option.map_eq_some_iff.mp h
  unfold servicesAt
  rw [hcur]
  simp only [hd]

omit [DecidableEq ι] in
theorem servicesAt_absent {j : DesiredBucket ι} (h : (Journal.current nodeId j).map (·.2) = none) :
    servicesAt nodeId j = [] := by
  unfold servicesAt
  rw [Option.map_eq_none_iff.mp h]

omit [DecidableEq ι] in
theorem servicesAt_accepted {j : DesiredBucket ι} {s : ServiceConfig} (h : s ∈ servicesAt nodeId j) :
    serviceConfigSchema s = true := by
  unfold servicesAt at h
  split at h
  · split at h
    · rename_i raw d hp
      have hschema := (parseDesiredState_eq_some.mp hp).2
      simp only [desiredStateSchema, Bool.and_eq_true, List.all_eq_true] at hschema
      exact hschema.2 s h
    · cases h
  · cases h

omit [DecidableEq ι] in
/-- A document that a client wrote is read back as it was written. -/
theorem servicesAt_written {j : DesiredBucket ι} {doc : DesiredState} (h : desiredStateSchema doc = true)
    {w : Write (Option ι) String (Body DesiredRaw)} (hkey : w.key = nodeId) (hbody : w.body = some (.parsed (.json doc))) :
    servicesAt nodeId (w :: j) = doc.services :=
  servicesAt_parsed (by simp [Journal.current, hkey, hbody]) (parseDesiredState_eq_some.mpr ⟨rfl, h⟩)

omit [DecidableEq ι] in
theorem servicesAt_cons_ne {j : DesiredBucket ι} {w : Write (Option ι) String (Body DesiredRaw)} (h : w.key ≠ nodeId) :
    servicesAt nodeId (w :: j) = servicesAt nodeId j := by
  unfold servicesAt
  rw [Journal.current_cons_ne h]

omit [DecidableEq ι] in
/-- What a loop takes a readable document for: the document, or an empty one. -/
theorem Readable.state (hnode : nodeId ≠ "") {j : DesiredBucket ι} (hr : Readable nodeId j) {existing : Option DesiredRaw}
    (hcur : (Journal.current nodeId j).map (·.2) = existing.map Body.parsed) (now : String) :
    ∃ state, stateOrEmpty nodeId existing now = state ∧ (∀ raw, existing = some raw → parseDesiredState raw = some state) ∧
      desiredStateSchema state = true ∧ servicesAt nodeId j = state.services := by
  cases existing with
  | none =>
    refine ⟨emptyDesiredState nodeId now, rfl, fun raw h => (by cases h), ?_, servicesAt_absent hcur⟩
    simp [desiredStateSchema, emptyDesiredState, hnode]
  | some raw =>
    obtain ⟨d, hb, hschema⟩ := hr _ hcur
    cases hb
    have hparse : parseDesiredState (.json d) = some d := parseDesiredState_eq_some.mpr ⟨rfl, hschema⟩
    refine ⟨d, ?_, fun raw h => (by cases h; exact hparse), hschema, servicesAt_parsed hcur hparse⟩
    simp [stateOrEmpty, parseDesiredStateOrEmpty, hparse]

/-- A write is the document before it with its client's own change. -/
def Applies (req : Request) (nodeId : String) (older : DesiredBucket ι) (value : DesiredRaw) : Prop :=
  ∃ doc, value = .json doc ∧ desiredStateSchema doc = true ∧ req.apply (servicesAt nodeId older) = .ok doc.services

omit [DecidableEq ι] in
/-- Over a readable document, what a loop works out is its change. -/
theorem Overwrites.applies {req : Request} (hreq : req.WellFormed) (hnode : nodeId ≠ "") {j : DesiredBucket ι}
    (hr : Readable nodeId j) {value : DesiredRaw} (h : Overwrites nodeId (req.decide nodeId) j value) :
    Applies req nodeId j value := by
  obtain ⟨existing, now, now', version, services, hcur, hd, rfl⟩ := h
  obtain ⟨state, hread, hparsed, hschema, hservices⟩ := hr.state hnode hcur now
  obtain ⟨hversion, happly⟩ := Request.decide_write hread hparsed hd
  refine ⟨_, rfl, ?_, by rw [hservices]; exact happly⟩
  simp only [desiredStateSchema, Bool.and_eq_true, List.all_eq_true, beq_iff_eq, bne_iff_ne, ne_eq] at hschema ⊢
  refine ⟨⟨?_, hnode⟩, Request.apply_accepted hreq hschema.2 happly⟩
  rcases hversion with rfl | rfl
  · rfl
  · exact hschema.1.1

omit [DecidableEq ι] in
/-- A write that was not there at the start is one of the run's. -/
theorem split_new {j₀ done j newer older : DesiredBucket ι} {w : Write (Option ι) String (Body DesiredRaw)}
    (hbefore : ∀ w ∈ j₀, w.writer = none) (hdone : j = done ++ j₀) (hsplit : j = newer ++ w :: older) (hw : w.writer ≠ none) :
    ∃ mid, done = newer ++ w :: mid ∧ older = mid ++ j₀ := by
  rw [hdone] at hsplit
  rcases List.append_eq_append_iff.mp hsplit with ⟨l, hl, hj⟩ | ⟨l, hl, hj⟩
  · have hmem : w ∈ j₀ := by
      rw [show j₀ = l ++ w :: older from hj]
      simp
    exact absurd (hbefore w hmem) hw
  · cases l with
    | nil =>
      have hmem : w ∈ j₀ := by
        rw [show j₀ = w :: older from hj.symm]
        exact List.mem_cons_self ..
      exact absurd (hbefore w hmem) hw
    | cons x l =>
      obtain ⟨rfl, rfl⟩ := List.cons.inj hj
      exact ⟨l, hl, rfl⟩

omit [DecidableEq ι] in
/-- Writes that are each worked out from a readable document leave it readable. -/
theorem readable_writes {K : String → Prop} {j₀ done : DesiredBucket ι} (hnode : ∀ k, K k → k ≠ "")
    (hread : ∀ k, K k → Readable k j₀)
    (hwrites : ∀ newer w mid, done = newer ++ w :: mid → ∃ k req, K k ∧ Request.WellFormed req ∧ w.key = k ∧
      ∃ value, w.body = some (.parsed value) ∧ Overwrites k (req.decide k) (mid ++ j₀) value)
    {newer mid : DesiredBucket ι} (hmid : done = newer ++ mid) {k : String} (hk : K k) : Readable k (mid ++ j₀) := by
  induction mid generalizing newer k with
  | nil => exact hread k hk
  | cons w mid ih =>
    have hbefore : ∀ k, K k → Readable k (mid ++ j₀) := fun k hk =>
      ih (hmid.trans (List.append_cons ..)) hk
    obtain ⟨k', req, hk', hreq, hkey, value, hbody, hover⟩ := hwrites newer w mid hmid
    obtain ⟨doc, rfl, hschema, _⟩ := hover.applies hreq (hnode k' hk') (hbefore k' hk')
    intro b hb
    by_cases hsame : k' = k
    · refine ⟨doc, ?_, hschema⟩
      simpa [Journal.current, hkey, hsame, hbody] using hb.symm
    · refine hbefore k hk b ?_
      rwa [List.cons_append, Journal.current_cons_ne (by rwa [hkey])] at hb

section Nodes

variable {node : ι → String} {reqs : ι → {r : Request // r.WellFormed}} {j₀ : DesiredBucket ι} {s : Clients ι}

/-- Any number of clients, each on a node of its own or of several's: what each write is
    worked out from. -/
theorem crew_overwrites (hbefore : ∀ w ∈ j₀, w.writer = none)
    (hrun : CrewRun (s3Sem E) ⟨fun i => (reqs i).1.client (node i), j₀⟩ s) (i : ι) :
    (∀ newer w older, s.world = newer ++ w :: older → w.writer = some i →
      w.key = node i ∧ ∃ value, w.body = some (.parsed value) ∧ Overwrites (node i) ((reqs i).1.decide (node i)) older value) ∧
      ∀ r, s.progs i = .ret r → LoopOutcome i ((reqs i).1.decide (node i)) r s.world := by
  obtain ⟨gaveUp, hclient⟩ := (reqs i).1.client_eq (node i)
  refine loop_run (i := i) hclient ?_ hrun
  intro w hw
  rw [hbefore w hw]
  exact fun e => by cases e

/-- Write by write, the documents stay readable. -/
theorem crew_readable (hnode : ∀ i, node i ≠ "") (hbefore : ∀ w ∈ j₀, w.writer = none) (hread : ∀ i, Readable (node i) j₀)
    (hrun : CrewRun (s3Sem E) ⟨fun i => (reqs i).1.client (node i), j₀⟩ s) {done : DesiredBucket ι}
    (hdone : s.world = done ++ j₀) (hwriters : ∀ w ∈ done, w.writer ≠ none) {newer mid : DesiredBucket ι}
    (hmid : done = newer ++ mid) (k : ι) : Readable (node k) (mid ++ j₀) := by
  refine readable_writes (K := fun key => ∃ i, node i = key) ?_ ?_ (fun newer w mid hsplit => ?_) hmid ⟨k, rfl⟩
  · rintro _ ⟨i, rfl⟩
    exact hnode i
  · rintro _ ⟨i, rfl⟩
    exact hread i
  · have hmem : w ∈ done := by rw [hsplit]; simp
    obtain ⟨i, hwi⟩ := Option.ne_none_iff_exists'.mp (hwriters w hmem)
    have hworld : s.world = newer ++ w :: (mid ++ j₀) := by rw [hdone, hsplit]; simp
    obtain ⟨hkey, value, hbody, hover⟩ := (crew_overwrites hbefore hrun i).1 newer w (mid ++ j₀) hworld hwi
    exact ⟨node i, (reqs i).1, ⟨i, rfl⟩, (reqs i).2, hkey, value, hbody, hover⟩

end Nodes

def smallNode : NodeRegistryEntry where
  nodeId := "n1"
  role := .app
  totalCpu := 1024
  totalMemory := 1024
  reservedCpu := 0
  reservedMemory := 0
  state := .ready

def webEntry : ServiceConfig where
  project := "shop"
  service := "web"
  image := "web:1"
  cpu := 100
  memory := 100
  ingress := none

/-- One full deploy of one service. -/
def firstDeploy : Request := .publishDesired smallNode "shop" [webEntry] false

theorem firstDeploy_wellFormed : firstDeploy.WellFormed := by
  intro s hs
  obtain rfl := List.mem_singleton.mp hs
  decide +kernel

/-- The client's four commands. -/
def firstRun : Clients Unit :=
  Crew.play (s3Serve strokes "t") [(), (), (), ()] ⟨fun _ => firstDeploy.client "n1", []⟩

end Document

/-! ## Over any stored body, amid any clients -/

section AnyBody

variable {ι : Type} [DecidableEq ι] {E : Etags} {nodeId project : String} {node : NodeRegistryEntry}
  {incoming : List ServiceConfig} {partialDeploy : Bool}

/-- What a publish keeps of the body it replaces. A text that is not JSON is never replaced;
    JSON that the schema refuses is read as an empty document. -/
def Keeps (project : String) (incoming : List ServiceConfig) (before : Option (Body DesiredRaw))
    (after : List ServiceConfig) : Prop :=
  match before with
  | none => after = incoming
  | some (.garbled _) => False
  | some (.parsed raw) =>
    match parseDesiredState raw with
    | some d => after.filter (·.project ≠ project) = d.services.filter (·.project ≠ project)
    | none => after = incoming

theorem merged_others {partialDeploy : Bool} {old merged : List ServiceConfig}
    (h : (if partialDeploy then mergeProjectServicesPartial old project incoming
      else mergeProjectServices old project incoming) = .ok merged) :
    merged.filter (·.project ≠ project) = old.filter (·.project ≠ project) := by
  cases partialDeploy with
  | false => exact full_others h
  | true => exact partial_others h

theorem merged_into_empty {partialDeploy : Bool} {merged : List ServiceConfig}
    (h : (if partialDeploy then mergeProjectServicesPartial [] project incoming
      else mergeProjectServices [] project incoming) = .ok merged) : merged = incoming := by
  cases partialDeploy with
  | false =>
    obtain ⟨_, rfl, _⟩ := (mergeProjectServices_ok).mp h
    rfl
  | true =>
    obtain ⟨_, rfl, _⟩ := (mergeProjectServicesPartial_ok).mp h
    simp [upserted]

omit [DecidableEq ι] in
theorem overwrites_keeps {j : DesiredBucket ι} {value : DesiredRaw}
    (h : Overwrites nodeId (decidePublish nodeId node project incoming partialDeploy) j value) :
    ∃ doc, value = .json doc ∧ Keeps project incoming ((Journal.current nodeId j).map (·.2)) doc.services := by
  obtain ⟨existing, now, now', version, services, hcur, hd, rfl⟩ := h
  refine ⟨_, rfl, ?_⟩
  simp only [decidePublish] at hd
  split at hd
  · cases hd
  · rename_i merged hm
    split at hd
    · cases hd
    · cases hd
      rw [hcur]
      cases existing with
      | none => exact merged_into_empty hm
      | some raw =>
        simp only [stateOrEmpty, parseDesiredStateOrEmpty] at hm
        simp only [Option.map_some, Keeps]
        cases hp : parseDesiredState raw with
        | none =>
          rw [hp] at hm
          exact merged_into_empty hm
        | some d =>
          rw [hp] at hm
          exact merged_others hm

/-- Amid clients of any kind, over any stored bodies: a publish that returns has written,
    one that fails has not, and what it wrote keeps every other owner's entry of the
    document it replaced, when the schema accepts that. -/
theorem publish_keeps_others {i : ι} (progs : ι → Client)
    (hi : progs i = publishDesired nodeId node project incoming partialDeploy) {j₀ : DesiredBucket ι} (hbefore : Silent i j₀) {s : Clients ι} (hrun : CrewRun (s3Sem E) ⟨progs, j₀⟩ s) :
    (∀ newer w older, s.world = newer ++ w :: older → w.writer = some i →
      w.key = nodeId ∧ ∃ doc, w.body = some (.parsed (.json doc)) ∧
        Keeps project incoming ((Journal.current nodeId older).map (·.2)) doc.services) ∧
      (s.progs i = .ret (.ok ()) → ∃ w ∈ s.world, w.writer = some i) ∧
      ∀ e, s.progs i = .ret (.error e) → Silent i s.world := by
  obtain ⟨hwrites, hend⟩ := loop_run hi hbefore hrun
  refine ⟨fun newer w older hsplit hw => ?_, fun hdone => ?_, fun e hdone => hend _ hdone⟩
  · obtain ⟨hkey, value, hbody, hover⟩ := hwrites newer w older hsplit hw
    obtain ⟨doc, rfl, hkeeps⟩ := overwrites_keeps hover
    exact ⟨hkey, doc, hbody, hkeeps⟩
  · rcases hend _ hdone with hw | ⟨existing, now, hd⟩
    · exact hw
    · simp only [decidePublish] at hd
      split at hd
      · cases hd
      · split at hd <;> cases hd

end AnyBody

def neighbour : ServiceConfig where
  project := "bank"
  service := "api"
  image := "api:1"
  cpu := 100
  memory := 100
  ingress := none

/-- The first deploy again, onto a node whose document says that protocol version. -/
def deployOnto (version : Int) : Clients Unit :=
  Crew.play (s3Serve strokes "t") [(), (), (), ()]
    ⟨fun _ => firstDeploy.client "n1", [⟨none, "n1", some (.parsed (.json ⟨version, "n1", "", [neighbour]⟩))⟩]⟩

theorem publish_keeps_others_beside :
    ∃ doc, ((deployOnto protocolVersion).world.head?.bind (·.body)) = some (.parsed (.json doc)) ∧
      doc.services.filter (·.project ≠ "shop") = [neighbour] := by
  have hsilent : Silent () ([⟨none, "n1", some (.parsed (.json ⟨protocolVersion, "n1", "", [neighbour]⟩))⟩] :
      DesiredBucket Unit) := by
    intro w hw
    obtain rfl := List.mem_singleton.mp hw
    exact fun e => by cases e
  have hkeep := (publish_keeps_others (i := ()) (fun _ => publishDesired "n1" smallNode "shop" [webEntry] false) rfl
    hsilent (play_run (s3Serve_sem strokes "t") [(), (), (), ()] _)).1
  have hwriter : (deployOnto protocolVersion).world.head?.bind (·.writer) = some () := by decide +kernel
  have hbefore : (deployOnto protocolVersion).world.tail =
      [⟨none, "n1", some (.parsed (.json ⟨protocolVersion, "n1", "", [neighbour]⟩))⟩] := by decide +kernel
  cases hworld : (deployOnto protocolVersion).world with
  | nil => rw [hworld] at hwriter; cases hwriter
  | cons w older =>
    rw [hworld] at hwriter hbefore
    obtain rfl := hbefore
    obtain ⟨_, doc, hbody, hkeeps⟩ := hkeep [] w _ hworld hwriter
    refine ⟨doc, hbody, ?_⟩
    have hparse : parseDesiredState (.json ⟨protocolVersion, "n1", "", [neighbour]⟩) =
        some ⟨protocolVersion, "n1", "", [neighbour]⟩ := by decide +kernel
    change Keeps "shop" _ (some (.parsed (.json ⟨protocolVersion, "n1", "", [neighbour]⟩))) _ at hkeeps
    simp only [Keeps, hparse] at hkeeps
    rw [hkeeps]
    decide

/-- A document of another protocol version is read as empty, and its neighbour is gone. -/
theorem unread_neighbour_erased :
    ∃ s : Clients Unit, CrewRun (s3Sem strokes)
        ⟨fun _ => firstDeploy.client "n1", [⟨none, "n1", some (.parsed (.json ⟨2, "n1", "", [neighbour]⟩))⟩]⟩ s ∧
      s.progs () = .ret (.ok ()) ∧ neighbour.project ≠ "shop" ∧ neighbour ∉ servicesAt "n1" s.world := by
  refine ⟨deployOnto 2, play_run (s3Serve_sem strokes "t") _ _, Prog.eq_ret ?_, by decide, ?_⟩
  · decide +kernel
  · decide +kernel

end LaunchPad.Cli
