/-
  LaunchPad.Cli.JobLock — the entry of a job in `desired.json` as the lock of its runs
  (`commands/job.ts`): `publishJobRun` refuses while another run's entry is listed, and the
  command that published it takes it out, but only once it has seen its end.

  Any number of clients: job commands, attached or not, with any timeouts, and the deploys
  and removals of the same document, interleaved with an agent that reports what it will.

  As built:
  - `lock_left_behind`: a command that stops waiting leaves its entry, and every later run
    of the job is refused, though the agent has reported the end of the first.

  Proved:
  - `job_lock_iff`: in every reachable state, a run is refused only while one is listed that
    has not ended, exactly when every run that has ended and was ever listed has been taken
    out by some write.
  - and a command that told of an end has taken its own entry out, for good.

  The proofs rest on one fact: a run's entry is brought by the first write of its own
  client, so once out it does not come back (`gone_stays`).
-/
import LaunchPad.Cli.JobRun

namespace LaunchPad.Cli

open Lib Agent

/-! ## Clients, the document and the statuses -/

/-- The state bucket, and what the agent has written as the node's status, newest first. -/
structure JobWorld (ι : Type) where
  bucket : DesiredBucket ι
  statuses : List NodeStatus

/-- The client's command; the agent may write statuses in the meantime. -/
def jobSem {ι : Type} (E : Etags) (i : ι) : (o : JobOp) → JobWorld ι → JobResp o → JobWorld ι → Prop
  | .desired o, w, r, w' => s3Sem E i o w.bucket r w'.bucket ∧ w.statuses <:+ w'.statuses
  | .pollStatus _, w, r, w' => w'.bucket = w.bucket ∧ w.statuses <:+ w'.statuses ∧
      ∀ status, r = .ok (some status) → w.statuses.head? = some status

/-- A command that rewrites the node's document. -/
inductive JobClient where
  /-- A deploy or a removal. -/
  | loop (req : Request)
  /-- `job run`, from the publish on. -/
  | run (incoming : ServiceConfig) (runId : String) (wait : Bool) (polls : Nat)

namespace JobClient

/-- Only a job's own command publishes its runs. -/
def Jobless : Request → Prop
  | .publishDesired _ _ incoming _ => ∀ s ∈ incoming, s.jobRun = none
  | .publishRemoval .. => True
  | _ => False

def WellFormed : JobClient → Prop
  | .loop req => req.WellFormed ∧ Jobless req
  | .run incoming runId _ _ => serviceConfigSchema incoming = true ∧ incoming.jobRun.map (·.id) = some runId

def client (nodeId : String) : JobClient → Prog JobResp (Except JobError JobDone)
  | .loop req => do
    match ← onDesired (req.client nodeId) with
    | .error e => .ret (.error (.publish e))
    | .ok () => .ret (.ok .published)
  | .run incoming runId wait polls => runJob nodeId incoming runId wait polls

/-- The loops it runs. -/
def Issues : JobClient → Request → Prop
  | .loop req, r => r = req
  | .run incoming runId _ _, r =>
    r = .publishJobRun incoming ∨ r = .removeJobRun incoming.project incoming.service runId

def runId : JobClient → Option String
  | .loop _ => none
  | .run _ runId _ _ => some runId

end JobClient

/-- The command told its user how the run ended. -/
inductive ToldEnd : Except JobError JobDone → Prop
  | succeeded : ToldEnd (.ok .succeeded)
  | failed (jobName : String) (exitCode : Option Int) (hint : String) :
      ToldEnd (.error (.jobFailed jobName exitCode hint))

theorem decideJobRun_ne_done {nodeId now : String} {incoming : ServiceConfig} {existing : Option DesiredRaw} :
    decideJobRun nodeId incoming existing now ≠ .done := by
  unfold decideJobRun writeMerged
  dsimp only
  split
  · exact nofun
  · split <;> exact nofun

/-! ## One client amid the others -/

section Client

variable {ι : Type} [DecidableEq ι] {E : Etags}

/-- What holds of the requests to the bucket, of the commands. -/
def onBucket (A : ι → DesiredOp → DesiredBucket ι → Prop) (i : ι) : JobOp → JobWorld ι → Prop
  | .desired o, w => A i o w.bucket
  | .pollStatus _, _ => True

variable {A : ι → DesiredOp → DesiredBucket ι → Prop} {i : ι}

omit [DecidableEq ι] in
theorem drift_bucket {w w' : JobWorld ι} (h : (amidst (jobSem E) (onBucket A) i).Drift w w') :
    (amidst (s3Sem E) A i).Drift w.bucket w'.bucket := by
  induction h with
  | refl => exact Relation.ReflTransGen.refl
  | tail _ hs ih =>
    obtain ⟨k, hk, o, r, hA, hsem⟩ := hs
    cases o with
    | desired o => exact ih.tail ⟨k, hk, o, r, hA, hsem.1⟩
    | pollStatus n =>
      rw [hsem.1]
      exact ih

omit [DecidableEq ι] in
/-- A loop on the bucket runs as well among the commands of a job. -/
theorem sat_onDesired {α : Type} {Q : α → DesiredBucket ι → Prop} {p : Prog DesiredResp α} {w : JobWorld ι}
    (h : Sat (amidst (s3Sem E) A i) (A i) Q p w.bucket) :
    Sat (amidst (jobSem E) (onBucket A) i) (onBucket A i) (fun a w => Q a w.bucket) (onDesired p) w := by
  induction p generalizing w with
  | ret a => exact fun w₁ hd => h w₁.bucket (drift_bucket hd)
  | act o k ih =>
    intro w₁ hd
    obtain ⟨hA, hk⟩ := h w₁.bucket (drift_bucket hd)
    exact ⟨hA, fun r w₂ hs => ih r (hk r w₂.bucket hs.1)⟩

theorem bucket_stable {P : DesiredBucket ι → Prop} (hP : Outlasts i P) :
    (amidst (jobSem E) (onBucket A) i).Stable fun w => P w.bucket := by
  intro w w' h hr
  exact (amidst_stable hP).drift h (drift_bucket (Relation.ReflTransGen.single hr))

/-- A wait reads only, and its errors tell of no end. -/
theorem sat_waitForJob {P : DesiredBucket ι → Prop} (hP : Outlasts i P) (nodeId ownerProject jobName runId : String)
    (polls : Nat) {w : JobWorld ι} (h : P w.bucket) :
    Sat (amidst (jobSem E) (onBucket A) i) (onBucket A i)
      (onResult (fun _ w => P w.bucket) fun e _ => ¬ ToldEnd (.error e))
      (waitForJob nodeId ownerProject jobName runId polls) w := by
  have hfails : ∀ {e w}, ¬ ToldEnd (.error e) → Sat (amidst (jobSem E) (onBucket A) i) (onBucket A i)
      (onResult (fun _ w => P w.bucket) fun e _ => ¬ ToldEnd (.error e))
      (.ret (.error e) : Prog JobResp (Except JobError JobWaitOutcome)) w :=
    fun he => Sat.ret (P := fun _ => True) (fun _ _ _ _ => trivial) trivial fun _ _ => he
  induction polls generalizing w with
  | zero =>
    apply hfails
    intro h
    cases h
  | succ polls ih =>
    simp only [waitForJob, Prog.cmd_bind]
    refine Sat.act (bucket_stable hP) h (fun _ _ => trivial) fun w₁ r w₂ h₁ hs => ?_
    have h₂ : P w₂.bucket := by
      rw [hs.1]
      exact h₁
    cases r with
    | error e =>
      apply hfails
      intro h
      cases h
    | ok status =>
      dsimp only
      split
      · exact Sat.ret (bucket_stable hP) h₂ fun _ h => h
      · exact ih h₂

variable {nodeId : String} {clients : ι → JobClient}

/-- The client has written. -/
def Spoken (i : ι) (j : DesiredBucket ι) : Prop := ¬ Silent i j

/-- A removal of a run comes after its publish; every other loop is its client's first. -/
def Turn (i : ι) : Request → DesiredBucket ι → Prop
  | .removeJobRun .., j => Spoken i j
  | _, j => Silent i j

/-- A client's requests: its writes are worked out from what they replace by a loop of its
    own, each in its turn. -/
def JobAllowed (E : Etags) (nodeId : String) (clients : ι → JobClient) (i : ι) : DesiredOp → DesiredBucket ι → Prop
  | .putJson key value options, j => key = nodeId ∧ ∃ req, (clients i).Issues req ∧ Turn i req j ∧
      (admits E options.ifMatch options.ifNoneMatch key j = .ok () → Overwrites nodeId (req.decide nodeId) j value)
  | .deleteObject _ _, _ => False
  | _, _ => True

omit [DecidableEq ι] in
theorem spoken_outlasts : Outlasts i (Spoken i) :=
  fun _ _ _ h hs => h fun w hw => hs w (List.mem_cons_of_mem _ hw)

omit [DecidableEq ι] in
theorem spoken_append {newer older : DesiredBucket ι} (h : Spoken i older) : Spoken i (newer ++ older) :=
  fun hs => h fun w hw => hs w (List.mem_append_right _ hw)

/-- A loop of a client, once its earlier ones are done. -/
theorem sat_request {P : DesiredBucket ι → Prop} (hP : Outlasts i P) {req : Request} (hreq : (clients i).Issues req)
    (hturn : ∀ j, P j → Turn i req j) {w : JobWorld ι} (h : P w.bucket) :
    Sat (amidst (jobSem E) (onBucket (JobAllowed E nodeId clients)) i) (onBucket (JobAllowed E nodeId clients) i)
      (fun r w => LoopEnds i nodeId (req.decide nodeId) P r w.bucket) (onDesired (req.client nodeId)) w := by
  obtain ⟨gaveUp, hclient⟩ := req.client_eq nodeId
  rw [hclient]
  refine sat_onDesired (loop_rule hP (fun _ => trivial) (fun _ => trivial) ?_ gaveUp maxPublishRetries h)
  exact fun j value existing hj hover => ⟨rfl, req, hreq, hturn j hj, hover⟩

/-- A command that told of an end has closed the removal of its own entry. -/
def JobEnds (nodeId : String) (clients : ι → JobClient) (i : ι) (r : Except JobError JobDone) (w : JobWorld ι) : Prop :=
  ∀ incoming runId wait polls, clients i = .run incoming runId wait polls → ToldEnd r →
    ∃ newer older, w.bucket = newer ++ older ∧
      Closed i nodeId (Request.decide nodeId (.removeJobRun incoming.project incoming.service runId)) (Spoken i) older

theorem sat_client {w : JobWorld ι} (hjobless : ∀ {req}, clients i = .loop req → JobClient.Jobless req)
    (h : Silent i w.bucket) :
    Sat (amidst (jobSem E) (onBucket (JobAllowed E nodeId clients)) i) (onBucket (JobAllowed E nodeId clients) i)
      (JobEnds nodeId clients i) ((clients i).client nodeId) w := by
  have hquiet : ∀ {r w}, ¬ ToldEnd r →
      Sat (amidst (jobSem E) (onBucket (JobAllowed E nodeId clients)) i) (onBucket (JobAllowed E nodeId clients) i)
        (JobEnds nodeId clients i) (.ret r) w :=
    fun hno => Sat.ret (P := fun _ => True) (fun _ _ _ _ => trivial) trivial fun _ _ _ _ _ _ _ hr => absurd hr hno
  cases hc : clients i with
  | loop req =>
    have hloop : (clients i).Issues req := by
      rw [hc]
      rfl
    have hturn : ∀ j, Silent i j → Turn i req j := by
      intro j hj
      cases req with
      | removeJobRun ownerProject jobName runId => exact (hjobless hc).elim
      | publishDesired => exact hj
      | publishRemoval => exact hj
      | publishJobRun => exact hj
    refine Sat.bind (sat_request silent_outlasts hloop hturn h) fun r w' hr => ?_
    cases r with
    | error e => exact hquiet nofun
    | ok _ => exact hquiet nofun
  | run incoming runId wait polls =>
    have hpublish : (clients i).Issues (.publishJobRun incoming) := by
      rw [hc]
      exact .inl rfl
    have hremove : (clients i).Issues (.removeJobRun incoming.project incoming.service runId) := by
      rw [hc]
      exact .inr rfl
    refine Sat.bind (sat_request silent_outlasts hpublish (fun _ hj => hj) h) fun r w₁ h₁ => ?_
    cases r with
    | error e => exact hquiet nofun
    | ok _ =>
      -- a publish that returned has written
      have hspoken : Spoken i w₁.bucket := by
        obtain ⟨newer, older, hj, hclosed⟩ := h₁
        rw [hj]
        refine spoken_append ?_
        cases hclosed with
        | idle _ existing now _ hd _ => exact absurd hd decideJobRun_ne_done
        | wrote j value _ _ => exact fun hs => hs _ (List.mem_cons_self ..) rfl
      cases wait with
      | false => exact hquiet nofun
      | true =>
        refine Sat.bind (sat_waitForJob spoken_outlasts nodeId _ _ _ _ hspoken) fun r w₂ h₂ => ?_
        cases r with
        | error e => exact hquiet h₂
        | ok outcome =>
          refine Sat.bind (sat_request spoken_outlasts hremove (fun _ hj => hj) h₂) fun r w₃ h₃ => ?_
          cases r with
          | error e => exact hquiet nofun
          | ok _ =>
            have hends : ∀ {r}, Sat (amidst (jobSem E) (onBucket (JobAllowed E nodeId clients)) i)
                (onBucket (JobAllowed E nodeId clients) i) (JobEnds nodeId clients i) (.ret r) w₃ := by
              refine Sat.ret (bucket_stable ends_outlasts) h₃ fun w hw incoming' runId' wait' polls' hc' _ => ?_
              rw [hc] at hc'
              cases hc'
              exact hw
            dsimp only
            split
            · exact hends
            · exact hends

end Client

/-! ## The journal of a run -/

theorem JobClient.Issues.wellFormed {c : JobClient} (hc : c.WellFormed) {req : Request} (h : c.Issues req) :
    req.WellFormed := by
  cases c with
  | loop r =>
    obtain rfl : req = r := h
    exact hc.1
  | run incoming runId wait polls =>
    rcases h with rfl | rfl
    · exact hc.1
    · trivial

/-- Only a job's own publish brings a run's entry. -/
theorem JobClient.Issues.brings {c : JobClient} (hc : c.WellFormed) {req : Request} (h : c.Issues req)
    {e : ServiceConfig} (he : e ∈ req.brings) {id : String} (hid : e.jobRun.map (·.id) = some id) :
    c.runId = some id ∧ ∃ incoming, req = .publishJobRun incoming := by
  cases c with
  | loop r =>
    obtain rfl : req = r := h
    cases req with
    | publishDesired node project incoming partialDeploy =>
      rw [hc.2 e he] at hid
      cases hid
    | publishRemoval ownerProject removeSet => cases he
    | publishJobRun incoming => exact hc.2.elim
    | removeJobRun ownerProject jobName runId => cases he
  | run incoming runId wait polls =>
    rcases h with rfl | rfl
    · rw [List.mem_singleton.mp he, hc.2] at hid
      exact ⟨hid, incoming, rfl⟩
    · cases he

section Run

variable {ι : Type} {E : Etags} {nodeId : String} {clients : ι → {c : JobClient // c.WellFormed}}
  {j₀ done : DesiredBucket ι} {st₀ : List NodeStatus} {s : Crew ι JobResp (Except JobError JobDone) (JobWorld ι)}

/-- One write: which loop of which client worked it out from the journal before it. -/
def RuledBy (nodeId : String) (clients : ι → {c : JobClient // c.WellFormed})
    (x : Write (Option ι) String (Body DesiredRaw)) (older : DesiredBucket ι) : Prop :=
  ∃ i req value, x.writer = some i ∧ x.key = nodeId ∧ (clients i).1.Issues req ∧ Turn i req older ∧
    x.body = some (.parsed value) ∧ Overwrites nodeId (req.decide nodeId) older value

/-- Every write since the start is a client's. -/
def Ruled (nodeId : String) (clients : ι → {c : JobClient // c.WellFormed}) (j₀ done : DesiredBucket ι) : Prop :=
  ∀ newer x mid, done = newer ++ x :: mid → RuledBy nodeId clients x (mid ++ j₀)

theorem Ruled.cons {x : Write (Option ι) String (Body DesiredRaw)} (h : Ruled nodeId clients j₀ done)
    (hx : RuledBy nodeId clients x (done ++ j₀)) : Ruled nodeId clients j₀ (x :: done) := by
  intro newer y mid hsplit
  cases newer with
  | nil =>
    obtain ⟨rfl, rfl⟩ := List.cons.inj hsplit
    exact hx
  | cons z newer => exact h newer y mid (List.cons.inj hsplit).2

/-- What the clients of a run have written, and what those that ended have told. -/
theorem job_run [DecidableEq ι] (hbefore : ∀ w ∈ j₀, w.writer = none)
    (hrun : CrewRun (jobSem E) ⟨fun i => (clients i).1.client nodeId, ⟨j₀, st₀⟩⟩ s) :
    (∃ done, s.world.bucket = done ++ j₀ ∧ Ruled nodeId clients j₀ done) ∧
      ∀ i r, s.progs i = .ret r → JobEnds nodeId (fun i => (clients i).1) i r s.world := by
  have hsat : ∀ i, Sat (amidst (jobSem E) (onBucket (JobAllowed E nodeId fun i => (clients i).1)) i)
      (onBucket (JobAllowed E nodeId fun i => (clients i).1) i) (JobEnds nodeId (fun i => (clients i).1) i)
      ((clients i).1.client nodeId) (⟨j₀, st₀⟩ : JobWorld ι) := by
    intro i
    refine sat_client (fun hc => ?_) fun w hw => ?_
    · have hwell := (clients i).2
      rw [hc] at hwell
      exact hwell.2
    · rw [hbefore w hw]
      exact nofun
  refine ⟨?_, fun i r hr => crew_done hsat hrun hr⟩
  refine crew_keeps (I := fun w => ∃ done, w.bucket = done ++ j₀ ∧ Ruled nodeId clients j₀ done) hsat ?_ ?_ hrun
  · rintro i o w r w' hG hsem ⟨done, hdone, hruled⟩
    cases o with
    | pollStatus n => exact ⟨done, hsem.1.trans hdone, hruled⟩
    | desired o =>
      obtain ⟨hsem, -⟩ := hsem
      rcases s3Sem_grows hsem with he | ⟨x, -, he⟩
      · exact ⟨done, he.trans hdone, hruled⟩
      · refine ⟨x :: done, by rw [he, hdone, List.cons_append], hruled.cons ?_⟩
        rw [← hdone]
        cases o with
        | getJson key => exact absurd (hsem.2.symm.trans he) List.ne_cons_self
        | nowIso => exact absurd (Eq.trans hsem.symm he) List.ne_cons_self
        | deleteObject key ifMatch => exact hG.elim
        | putJson key value options =>
          obtain ⟨rfl, req, hreq, hturn, hover⟩ := hG
          rcases s3Sem_put hsem with ⟨hadm, -, he'⟩ | ⟨_, -, he'⟩
          · obtain ⟨rfl, -⟩ := List.cons.inj (he.symm.trans he')
            exact ⟨i, req, value, rfl, rfl, hreq, hturn, rfl, hover hadm⟩
          · exact absurd (he'.symm.trans he) List.ne_cons_self
  · refine ⟨[], rfl, fun newer x mid hsplit => ?_⟩
    exact absurd hsplit.symm (List.append_ne_nil_of_right_ne_nil _ (List.cons_ne_nil _ _))

/-- The document stays one the schema accepts, its keys distinct. -/
theorem Ruled.sound (h : Ruled nodeId clients j₀ done) (hnode : nodeId ≠ "") (hread : Readable nodeId j₀)
    (hkeys : ((servicesAt nodeId j₀).map (·.key)).Nodup) {newer mid : DesiredBucket ι} (hmid : done = newer ++ mid) :
    Readable nodeId (mid ++ j₀) ∧ ((servicesAt nodeId (mid ++ j₀)).map (·.key)).Nodup := by
  have hreadable : ∀ {newer mid}, done = newer ++ mid → Readable nodeId (mid ++ j₀) := by
    intro newer mid hmid
    refine readable_writes (K := (· = nodeId)) (fun k hk => hk ▸ hnode) (fun k hk => hk ▸ hread)
      (fun newer x mid hsplit => ?_) hmid rfl
    obtain ⟨i, req, value, -, hkey, hreq, -, hbody, hover⟩ := h newer x mid hsplit
    exact ⟨nodeId, req, rfl, hreq.wellFormed (clients i).2, hkey, value, hbody, hover⟩
  refine ⟨hreadable hmid, ?_⟩
  induction mid generalizing newer with
  | nil => exact hkeys
  | cons x mid ih =>
    have hmid' : done = (newer ++ [x]) ++ mid := by rw [hmid]; simp
    obtain ⟨i, req, value, -, hkey, hreq, -, hbody, hover⟩ := h newer x mid hmid
    obtain ⟨doc, rfl, hschema, happly⟩ := hover.applies (hreq.wellFormed (clients i).2) hnode (hreadable hmid')
    rw [List.cons_append, servicesAt_written hschema hkey hbody]
    exact Request.apply_distinct (ih hmid') happly

/-- A write is its loop's change of the services before it. -/
theorem Ruled.applies (h : Ruled nodeId clients j₀ done) (hnode : nodeId ≠ "") (hread : Readable nodeId j₀)
    (hkeys : ((servicesAt nodeId j₀).map (·.key)).Nodup) {newer mid : DesiredBucket ι}
    {x : Write (Option ι) String (Body DesiredRaw)} (hmid : done = newer ++ x :: mid) :
    ∃ i req, x.writer = some i ∧ (clients i).1.Issues req ∧ Turn i req (mid ++ j₀) ∧
      req.apply (servicesAt nodeId (mid ++ j₀)) = .ok (servicesAt nodeId (x :: mid ++ j₀)) := by
  have hmid' : done = (newer ++ [x]) ++ mid := by rw [hmid]; simp
  obtain ⟨i, req, value, hwriter, hkey, hreq, hturn, hbody, hover⟩ := h newer x mid hmid
  obtain ⟨doc, rfl, hschema, happly⟩ := hover.applies (hreq.wellFormed (clients i).2) hnode
    (h.sound hnode hread hkeys hmid').1
  refine ⟨i, req, hwriter, hreq, hturn, ?_⟩
  rw [List.cons_append, servicesAt_written hschema hkey hbody]
  exact happly

/-! ## A run's entry -/

/-- The run has an entry in the document. -/
def RunListed (nodeId project service id : String) (j : DesiredBucket ι) : Prop :=
  ∃ s ∈ servicesAt nodeId j, isJobRun project service id s = true

/-- The run has, or had, an entry since the start. -/
def EverListed (nodeId project service id : String) (j₀ done : DesiredBucket ι) : Prop :=
  ∃ newer mid, done = newer ++ mid ∧ RunListed nodeId project service id (mid ++ j₀)

/-- Some write since the start took the entry out. -/
def TakenOut (nodeId project service id : String) (j₀ done : DesiredBucket ι) : Prop :=
  ∃ newer x mid, done = newer ++ x :: mid ∧ RunListed nodeId project service id (mid ++ j₀) ∧
    ¬ RunListed nodeId project service id (x :: mid ++ j₀)

theorem isJobRun_iff {project service id : String} {s : ServiceConfig} :
    isJobRun project service id s = true ↔
      s.project = project ∧ s.service = service ∧ s.jobRun.map (·.id) = some id := by
  cases hj : s.jobRun <;> simp [isJobRun, hj, and_assoc]

variable {project service id : String}

/-- An entry that was not there is brought by the first write of its run's client. -/
theorem Ruled.brought (h : Ruled nodeId clients j₀ done) (hnode : nodeId ≠ "") (hread : Readable nodeId j₀)
    (hkeys : ((servicesAt nodeId j₀).map (·.key)).Nodup) {newer mid : DesiredBucket ι}
    {x : Write (Option ι) String (Body DesiredRaw)} (hmid : done = newer ++ x :: mid)
    (hno : ¬ RunListed nodeId project service id (mid ++ j₀))
    (hyes : RunListed nodeId project service id (x :: mid ++ j₀)) :
    ∃ i, (clients i).1.runId = some id ∧ x.writer = some i ∧ Silent i (mid ++ j₀) := by
  obtain ⟨i, req, hwriter, hreq, hturn, happly⟩ := h.applies hnode hread hkeys hmid
  obtain ⟨e, he, hrun⟩ := hyes
  rcases Request.apply_mem happly he with hold | hnew
  · exact absurd ⟨e, hold, hrun⟩ hno
  · obtain ⟨-, -, hid⟩ := isJobRun_iff.mp hrun
    obtain ⟨hrunId, incoming, rfl⟩ := hreq.brings (clients i).2 hnew hid
    exact ⟨i, hrunId, hwriter, hturn⟩

/-- The client of the run has written, or its entry was there at the start. -/
def Used (clients : ι → {c : JobClient // c.WellFormed}) (nodeId project service id : String)
    (j₀ mid : DesiredBucket ι) : Prop :=
  RunListed nodeId project service id j₀ ∨ ∃ i, (clients i).1.runId = some id ∧ Spoken i (mid ++ j₀)

theorem Used.append (newer : DesiredBucket ι) {mid : DesiredBucket ι} (h : Used clients nodeId project service id j₀ mid) :
    Used clients nodeId project service id j₀ (newer ++ mid) := by
  rcases h with h | ⟨i, hi, hspoken⟩
  · exact .inl h
  · refine .inr ⟨i, hi, ?_⟩
    rw [List.append_assoc]
    exact spoken_append hspoken

/-- What was listed and is not any more was taken out. -/
theorem listed_takenOut (hever : EverListed nodeId project service id j₀ done)
    (hno : ¬ RunListed nodeId project service id (done ++ j₀)) : TakenOut nodeId project service id j₀ done := by
  obtain ⟨newer, mid, rfl, hyes⟩ := hever
  have hall : ∀ a b, newer = a ++ b → RunListed nodeId project service id (b ++ mid ++ j₀) ∨
      TakenOut nodeId project service id j₀ (newer ++ mid) := by
    intro a b
    induction b generalizing a with
    | nil => exact fun _ => .inl hyes
    | cons x b ih =>
      intro hsplit
      rcases ih (a ++ [x]) (by rw [hsplit]; simp) with hlisted | hout
      · by_cases hafter : RunListed nodeId project service id (x :: b ++ mid ++ j₀)
        · exact .inl hafter
        · exact .inr ⟨a, x, b ++ mid, by rw [hsplit]; simp, hlisted, hafter⟩
      · exact .inr hout
  exact (hall [] newer rfl).resolve_left hno

section Entry

variable (h : Ruled nodeId clients j₀ done) (hnode : nodeId ≠ "") (hread : Readable nodeId j₀)
  (hkeys : ((servicesAt nodeId j₀).map (·.key)).Nodup)

include h hnode hread hkeys

/-- What is listed was brought by its client, or was there. -/
theorem listed_used {newer mid : DesiredBucket ι} (hmid : done = newer ++ mid)
    (hyes : RunListed nodeId project service id (mid ++ j₀)) : Used clients nodeId project service id j₀ mid := by
  induction mid generalizing newer with
  | nil => exact .inl hyes
  | cons x mid ih =>
    by_cases hbefore : RunListed nodeId project service id (mid ++ j₀)
    · exact (ih (hmid.trans (List.append_cons ..)) hbefore).append [x]
    · obtain ⟨i, hi, hwriter, -⟩ := h.brought hnode hread hkeys hmid hbefore hyes
      exact .inr ⟨i, hi, fun hs => hs x (List.mem_cons_self ..) hwriter⟩

/-- An entry that is out, after its client's first write, stays out. -/
theorem gone_stays (hids : ∀ i k r, (clients i).1.runId = some r → (clients k).1.runId = some r → i = k)
    (hfresh : ∀ i, (clients i).1.runId = some id → ¬ RunListed nodeId project service id j₀)
    {newer mid : DesiredBucket ι} (hmid : done = newer ++ mid)
    (hused : Used clients nodeId project service id j₀ mid)
    (hno : ¬ RunListed nodeId project service id (mid ++ j₀)) :
    ¬ RunListed nodeId project service id (newer ++ mid ++ j₀) := by
  suffices hall : ∀ a b, newer = a ++ b → ¬ RunListed nodeId project service id (b ++ mid ++ j₀) from
    hall [] newer rfl
  intro a b
  induction b generalizing a with
  | nil => exact fun _ => hno
  | cons x b ih =>
    intro hsplit hyes
    have hprev := ih (a ++ [x]) (by rw [hsplit]; simp)
    have hdone : done = a ++ x :: (b ++ mid) := by rw [hmid, hsplit]; simp
    obtain ⟨i, hi, -, hsilent⟩ := h.brought hnode hread hkeys hdone hprev hyes
    rcases hused.append b with hstart | ⟨k, hk, hspoken⟩
    · exact hfresh i hi hstart
    · obtain rfl := hids i k id hi hk
      exact hspoken hsilent

end Entry

/-! ## What a publish meets -/

/-- No entry of another service has the key. -/
def Uncontested (services : List ServiceConfig) (incoming : ServiceConfig) : Prop :=
  ∀ s ∈ services, s.key = incoming.key → s.project = incoming.project ∧ s.service = incoming.service

/-- One entry more, or in the place of its own service's, leaves the keys distinct. -/
theorem upserted_distinct {services : List ServiceConfig} {incoming : ServiceConfig}
    (hkeys : (services.map (·.key)).Nodup) (hfree : Uncontested services incoming) :
    ((upserted services incoming.project [incoming]).map (·.key)).Nodup := by
  have hreplacement : ∀ s : ServiceConfig, replacementFor incoming.project [incoming] s =
      if s.project = incoming.project ∧ s.service = incoming.service then some incoming else none := by
    intro s
    unfold replacementFor
    by_cases hp : s.project = incoming.project
    · by_cases hs : s.service = incoming.service
      · simp [hp, hs]
      · simp [hp, hs, Ne.symm hs]
    · simp [hp]
  have hsame : (services.map fun s => (replacementFor incoming.project [incoming] s).getD s).map (·.key) =
      services.map (·.key) := by
    rw [List.map_map]
    refine List.map_congr_left fun s _ => ?_
    simp only [Function.comp, hreplacement]
    split
    · rename_i hown
      simp [ServiceConfig.key, hown.1, hown.2]
    · rfl
  unfold upserted
  rw [List.map_append, hsame]
  by_cases hown : ∃ s ∈ services, s.project = incoming.project ∧ s.service = incoming.service
  · -- in place
    obtain ⟨s, hs, hown⟩ := hown
    have happlied : incoming.service ∈
        (services.filterMap (replacementFor incoming.project [incoming])).map (·.service) := by
      refine List.mem_map.mpr ⟨incoming, List.mem_filterMap.mpr ⟨s, hs, ?_⟩, rfl⟩
      rw [hreplacement, if_pos hown]
    simpa [happlied] using hkeys
  · -- appended
    have hnew : incoming.key ∉ services.map (·.key) := by
      intro hm
      obtain ⟨s, hs, hkey⟩ := List.mem_map.mp hm
      exact hown ⟨s, hs, hfree s hs hkey⟩
    refine List.nodup_append.mpr ⟨hkeys, ?_, ?_⟩
    · exact (List.nodup_singleton _).sublist (List.filter_sublist.map _)
    · intro k hk k' hk' he
      obtain ⟨s, hs, rfl⟩ := List.mem_map.mp hk'
      rw [List.mem_singleton.mp (List.mem_filter.mp hs).1] at he
      exact hnew (he ▸ hk)

/-- Over a sound document: refused for a run that is listed, or written. -/
theorem decideJobRun_cases {j : DesiredBucket ι} (hnode : nodeId ≠ "") (hread : Readable nodeId j)
    (hkeys : ((servicesAt nodeId j).map (·.key)).Nodup) {incoming : ServiceConfig} {existing : Option DesiredRaw}
    {now : String} (hcur : (Journal.current nodeId j).map (·.2) = existing.map Body.parsed)
    (hfree : Uncontested (servicesAt nodeId j) incoming) :
    (∃ version services, decideJobRun nodeId incoming existing now = .write version services) ∨
      ∃ id, decideJobRun nodeId incoming existing now = .fail (.jobRunning incoming.service id) ∧
        RunListed nodeId incoming.project incoming.service id j := by
  obtain ⟨state, hstate, -, -, hservices⟩ := hread.state hnode hcur now
  unfold decideJobRun
  rw [hstate]
  dsimp only
  rw [← hservices]
  cases hactive : activeRun (servicesAt nodeId j) incoming with
  | some run =>
    refine .inr ⟨run.id, rfl, ?_⟩
    obtain ⟨e, he, hrun⟩ := Option.bind_eq_some_iff.mp hactive
    have hown := List.find?_some he
    obtain ⟨hp, hs⟩ := of_decide_eq_true hown
    obtain ⟨hrun, -⟩ := Option.filter_eq_some_iff.mp hrun
    exact ⟨e, List.mem_of_find?_eq_some he, isJobRun_iff.mpr ⟨hp, hs, by rw [hrun]; rfl⟩⟩
  | none =>
    have hmerged : mergeProjectServicesPartial (servicesAt nodeId j) incoming.project [incoming] =
        .ok (upserted (servicesAt nodeId j) incoming.project [incoming]) := by
      refine (mergeProjectServicesPartial_ok).mpr ⟨fun s hs => ?_, rfl, upserted_distinct hkeys hfree⟩
      rw [List.mem_singleton.mp hs]
    dsimp only
    rw [hmerged]
    exact .inl ⟨state.version, _, rfl⟩

/-- A new run is refused for the one that is listed. -/
theorem decideJobRun_refuses {j : DesiredBucket ι} (hnode : nodeId ≠ "") (hread : Readable nodeId j)
    (hkeys : ((servicesAt nodeId j).map (·.key)).Nodup) (incoming : ServiceConfig) {existing : Option DesiredRaw}
    (now : String) (hcur : (Journal.current nodeId j).map (·.2) = existing.map Body.parsed)
    (hlisted : RunListed nodeId incoming.project incoming.service id j)
    (hother : incoming.jobRun.map (·.id) ≠ some id) :
    decideJobRun nodeId incoming existing now = .fail (.jobRunning incoming.service id) := by
  obtain ⟨state, hstate, -, -, hservices⟩ := hread.state hnode hcur now
  obtain ⟨e, he, hrun⟩ := hlisted
  obtain ⟨hp, hs, hid⟩ := isJobRun_iff.mp hrun
  have hfind : (servicesAt nodeId j).find? (fun s => s.project = incoming.project ∧ s.service = incoming.service) =
      some e := by
    cases hf : (servicesAt nodeId j).find? (fun s => s.project = incoming.project ∧ s.service = incoming.service) with
    | none => exact absurd (decide_eq_true ⟨hp, hs⟩) (List.find?_eq_none.mp hf e he)
    | some e' =>
      have hown := List.find?_some hf
      obtain ⟨hp', hs'⟩ := of_decide_eq_true hown
      have hkey : e'.key = e.key := by simp [ServiceConfig.key, hp, hs, hp', hs']
      rw [List.inj_on_of_nodup_map hkeys (List.mem_of_find?_eq_some hf) he hkey]
  obtain ⟨run, hjob, rfl⟩ := Option.map_eq_some_iff.mp hid
  have hactive : activeRun (servicesAt nodeId j) incoming = some run := by
    unfold activeRun
    rw [hfind, Option.bind_some, hjob]
    exact Option.filter_eq_some_iff.mpr ⟨rfl, decide_eq_true (Ne.symm hother)⟩
  unfold decideJobRun
  rw [hstate]
  dsimp only
  rw [← hservices, hactive]

end Run

/-! ## The lock -/

section Lock

variable {ι : Type}

/-- The agent has reported that the run ended. -/
def Reported (project service id : String) (statuses : List NodeStatus) : Prop :=
  ∃ outcome, Told project service id outcome statuses

/-- A publish for the job that reads this document goes on to write, or is refused for a
    listed run that has not ended. -/
def JobAdmits (nodeId project service : String) (statuses : List NodeStatus) (j : DesiredBucket ι) : Prop :=
  ∀ incoming existing now, incoming.project = project → incoming.service = service →
    Uncontested (servicesAt nodeId j) incoming → (Journal.current nodeId j).map (·.2) = existing.map Body.parsed →
    (∃ version services, decideJobRun nodeId incoming existing now = .write version services) ∨
      ∃ id, decideJobRun nodeId incoming existing now = .fail (.jobRunning service id) ∧
        ¬ Reported project service id statuses

theorem jobAdmits_iff {nodeId project service : String} {statuses : List NodeStatus} {j : DesiredBucket ι}
    (hnode : nodeId ≠ "") (hread : Readable nodeId j) (hkeys : ((servicesAt nodeId j).map (·.key)).Nodup) :
    JobAdmits nodeId project service statuses j ↔
      ∀ id, Reported project service id statuses → ¬ RunListed nodeId project service id j := by
  constructor
  · intro h id hended ⟨e, he, hrun⟩
    obtain ⟨hp, hs, hid⟩ := isJobRun_iff.mp hrun
    -- the same entry, for a run of another id
    have hother : (some (id ++ "'") : Option String) ≠ some id := by
      intro heq
      have hlen := congrArg String.length (Option.some.inj heq)
      rw [String.length_append] at hlen
      have : "'".length = 1 := rfl
      omega
    obtain ⟨existing, hcur⟩ : ∃ existing : Option DesiredRaw,
        (Journal.current nodeId j).map (·.2) = existing.map Body.parsed := by
      cases hc : (Journal.current nodeId j).map (·.2) with
      | none => exact ⟨none, rfl⟩
      | some b =>
        obtain ⟨d, rfl, -⟩ := hread b hc
        exact ⟨some (.json d), rfl⟩
    have hfree : Uncontested (servicesAt nodeId j) { e with jobRun := some ⟨id ++ "'", ""⟩ } := by
      intro s hs' hkey
      obtain rfl := List.inj_on_of_nodup_map hkeys hs' he hkey
      exact ⟨rfl, rfl⟩
    have hlisted : RunListed nodeId e.project e.service id j :=
      ⟨e, he, isJobRun_iff.mpr ⟨rfl, rfl, hid⟩⟩
    have hrefused := decideJobRun_refuses hnode hread hkeys { e with jobRun := some ⟨id ++ "'", ""⟩ } "" hcur
      hlisted hother
    rcases h { e with jobRun := some ⟨id ++ "'", ""⟩ } existing "" hp hs hfree hcur with ⟨_, _, hw⟩ | ⟨id', hf, hnot⟩
    · rw [hrefused] at hw
      cases hw
    · rw [hrefused] at hf
      cases hf
      exact hnot hended
  · rintro h incoming existing now rfl rfl hfree hcur
    rcases decideJobRun_cases hnode hread hkeys hcur hfree with hw | ⟨id, hf, hlisted⟩
    · exact .inl hw
    · exact .inr ⟨id, hf, fun hended => h id hended hlisted⟩

/-- A removal that has closed leaves, or found, no entry of the run. -/
theorem closed_unlisted {nodeId project service id : String} {i : ι} {P : DesiredBucket ι → Prop}
    (hnode : nodeId ≠ "") {j : DesiredBucket ι} (hread : Readable nodeId j)
    (hbefore : ∀ w older, j = w :: older → w.writer = some i → Readable nodeId older)
    (h : Closed i nodeId (Request.decide nodeId (.removeJobRun project service id)) P j) :
    ¬ RunListed nodeId project service id j := by
  cases h with
  | idle _ existing now hcur hdone _ =>
    rintro ⟨e, he, hlisted⟩
    obtain ⟨state, hstate, -, -, hservices⟩ := hread.state hnode hcur now
    cases existing with
    | none =>
      rw [servicesAt_absent hcur] at he
      cases he
    | some raw =>
      have hstate : parseDesiredStateOrEmpty nodeId raw now = state := hstate
      simp only [Request.decide, decideRemoveJob, hstate] at hdone
      split at hdone
      · rename_i hlen
        have hnone := List.length_filter_eq_length_iff.mp hlen e (hservices ▸ he)
        rw [hlisted] at hnone
        cases hnone
      · cases hdone
  | wrote older value hover _ =>
    have hwell : (Request.removeJobRun project service id).WellFormed := trivial
    obtain ⟨doc, rfl, hschema, happly⟩ := hover.applies hwell hnode (hbefore _ older rfl rfl)
    rintro ⟨e, he, hlisted⟩
    have hwritten : servicesAt nodeId (⟨some i, nodeId, some (.parsed (.json doc))⟩ :: older) = doc.services :=
      servicesAt_written hschema rfl rfl
    rw [hwritten, ← Except.ok.inj happly] at he
    have hout := (List.mem_filter.mp he).2
    rw [hlisted] at hout
    cases hout

/-- Over every interleaving of job commands with distinct run ids, deploys and removals, on
    a document that the schema accepts, whatever the agent reports: publishes of a job are
    refused only for a listed run that has not ended, exactly while every run of the job
    that has ended and was ever listed has been taken out by some write. And a command that
    told of the end of its run has left no entry of it. -/
theorem job_lock_iff [DecidableEq ι] (E : Etags) {nodeId : String} (hnode : nodeId ≠ "")
    (clients : ι → {c : JobClient // c.WellFormed})
    (hids : ∀ i k id, (clients i).1.runId = some id → (clients k).1.runId = some id → i = k)
    {j₀ : DesiredBucket ι} (hbefore : ∀ w ∈ j₀, w.writer = none) (hread : Readable nodeId j₀)
    (hkeys : ((servicesAt nodeId j₀).map (·.key)).Nodup)
    (hfresh : ∀ i id, (clients i).1.runId = some id → ∀ e ∈ servicesAt nodeId j₀, e.jobRun.map (·.id) ≠ some id)
    (st₀ : List NodeStatus) {s : Crew ι JobResp (Except JobError JobDone) (JobWorld ι)}
    (hrun : CrewRun (jobSem E) ⟨fun i => (clients i).1.client nodeId, ⟨j₀, st₀⟩⟩ s) :
    ∃ done, s.world.bucket = done ++ j₀ ∧
      (∀ project service statuses, s.world.statuses <:+ statuses →
        (JobAdmits nodeId project service statuses s.world.bucket ↔
          ∀ id, Reported project service id statuses → EverListed nodeId project service id j₀ done →
            TakenOut nodeId project service id j₀ done)) ∧
      ∀ i incoming id wait polls r, (clients i).1 = .run incoming id wait polls → s.progs i = .ret r → ToldEnd r →
        ¬ RunListed nodeId incoming.project incoming.service id s.world.bucket := by
  obtain ⟨⟨done, hdone, hruled⟩, hends⟩ := job_run hbefore hrun
  have hunlisted : ∀ {project service id}, (∃ i, (clients i).1.runId = some id) →
      ¬ RunListed nodeId project service id j₀ := by
    rintro project service id ⟨i, hi⟩ ⟨e, he, hlisted⟩
    exact hfresh i id hi e he (isJobRun_iff.mp hlisted).2.2
  obtain ⟨hsound, hdistinct⟩ := hruled.sound hnode hread hkeys (List.nil_append done).symm
  refine ⟨done, hdone, fun project service statuses _ => ?_, fun i incoming id wait polls r hc hr htold => ?_⟩
  · rw [hdone, jobAdmits_iff hnode hsound hdistinct]
    constructor
    · intro h id hended hever
      exact listed_takenOut hever (h id hended)
    · intro h id hended hlisted
      obtain ⟨newer, x, mid, hsplit, hin, hout⟩ := h id hended ⟨[], done, rfl, hlisted⟩
      have hused := listed_used hruled hnode hread hkeys (hsplit.trans (List.append_cons ..)) hin
      have hgone := gone_stays hruled hnode hread hkeys hids (fun i hi => hunlisted ⟨i, hi⟩) hsplit
        (hused.append [x]) hout
      rw [← hsplit] at hgone
      exact hgone hlisted
  · obtain ⟨newer, older, hsplit, hclosed⟩ := hends i r hr incoming id wait polls hc htold
    have hid : (clients i).1.runId = some id := by
      rw [hc]
      rfl
    have hspoken : Spoken i older := by
      cases hclosed with
      | idle _ _ _ _ _ h => exact h
      | wrote j _ _ _ => exact fun hs => hs _ (List.mem_cons_self ..) rfl
    -- the client's own writes are newer than the start
    obtain ⟨mid, hmid, rfl⟩ : ∃ mid, done = newer ++ mid ∧ older = mid ++ j₀ := by
      rcases List.append_eq_append_iff.mp (hsplit.symm.trans hdone) with ⟨l, hl, ho⟩ | ⟨l, hl, ho⟩
      · exact ⟨l, hl, ho⟩
      · refine absurd (fun w hw => ?_) hspoken
        rw [hbefore w (by rw [ho]; exact List.mem_append_right _ hw)]
        exact nofun
    have hout : ¬ RunListed nodeId incoming.project incoming.service id (mid ++ j₀) := by
      refine closed_unlisted hnode (hruled.sound hnode hread hkeys hmid).1 (fun x older hx hwriter => ?_) hclosed
      cases mid with
      | nil =>
        rw [hbefore x (by rw [show j₀ = x :: older from hx]; exact List.mem_cons_self ..)] at hwriter
        cases hwriter
      | cons y mid =>
        obtain ⟨-, rfl⟩ := List.cons.inj hx
        exact (hruled.sound hnode hread hkeys (hmid.trans (List.append_cons ..))).1
    rw [hdone, hmid]
    exact gone_stays hruled hnode hread hkeys hids (fun i hi => hunlisted ⟨i, hi⟩) hmid (.inr ⟨i, hid, hspoken⟩) hout

end Lock

/-! ### Two commands of one job -/

/-- The answers of a bucket, while the agent writes those statuses. -/
def jobServe {ι : Type} (more : List NodeStatus) (i : ι) : (o : JobOp) → JobWorld ι → JobResp o × JobWorld ι
  | .desired o, w =>
    ((s3Serve strokes "t" i o w.bucket).1, ⟨(s3Serve strokes "t" i o w.bucket).2, more ++ w.statuses⟩)
  | .pollStatus _, w => (.ok w.statuses.head?, ⟨w.bucket, more ++ w.statuses⟩)

theorem jobServe_sem {ι : Type} (more : List NodeStatus) (i : ι) (o : JobOp) (w : JobWorld ι) :
    jobSem strokes i o w (jobServe more i o w).1 (jobServe more i o w).2 := by
  cases o with
  | desired o => exact ⟨s3Serve_sem strokes "t" i o w.bucket, List.suffix_append ..⟩
  | pollStatus n => exact ⟨rfl, List.suffix_append .., fun status h => Except.ok.inj h⟩

def migrateEntry (id : String) : ServiceConfig := { webEntry with service := "migrate", jobRun := some ⟨id, "t"⟩ }

/-- What the agent reports of the first run: its container has exited with code 0. -/
def migrateDone : NodeStatus :=
  let replica : ManagedReplica :=
    { id := "c1", name := "launchpad-shop-migrate-0", index := 0, state := .exited, project := "shop", service := "migrate"
      image := "web:1", cpu := 100, memory := 100, hostPort := none, configStamp := "", cronFireMs := none
      jobRunId := some "r1", exitCode := some 0 }
  ⟨"n1", "a1", "t", "0.1.0", [serviceStatus (migrateEntry "r1") [replica] none none "t" 0], noCaddy⟩

theorem firstMigrate_accepted : serviceConfigSchema (migrateEntry "r1") = true := by decide +kernel

theorem firstMigrate_wellFormed (wait : Bool) (polls : Nat) :
    (JobClient.run (migrateEntry "r1") "r1" wait polls).WellFormed :=
  ⟨firstMigrate_accepted, rfl⟩

theorem secondMigrate_accepted : serviceConfigSchema (migrateEntry "r2") = true := by decide +kernel

/-- An attached command of that many polls, and one that does not wait. -/
def migrateClients (polls : Nat) : Bool → {c : JobClient // c.WellFormed}
  | false => ⟨.run (migrateEntry "r1") "r1" true polls, firstMigrate_wellFormed true polls⟩
  | true => ⟨.run (migrateEntry "r2") "r2" false 0, secondMigrate_accepted, rfl⟩

theorem migrateClients_ids (polls : Nat) (i k : Bool) (id : String) (hi : (migrateClients polls i).1.runId = some id)
    (hk : (migrateClients polls k).1.runId = some id) : i = k := by
  have hne : (some "r1" : Option String) ≠ some "r2" := by decide
  cases i with
  | false =>
    cases k with
    | false => rfl
    | true => exact absurd (hi.trans hk.symm) hne
  | true =>
    cases k with
    | false => exact absurd (hk.trans hi.symm) hne
    | true => rfl

def migrateStart (polls : Nat) : Crew Bool JobResp (Except JobError JobDone) (JobWorld Bool) :=
  ⟨fun i => (migrateClients polls i).1.client "n1", ⟨[], []⟩⟩

/-- The first command publishes, and polls once, while its run comes to its end. -/
def migratePolled (polls : Nat) : Crew Bool JobResp (Except JobError JobDone) (JobWorld Bool) :=
  ((migrateStart polls).play (jobServe []) [false, false, false, false]).play (jobServe [migrateDone]) [false]

theorem migratePolled_run (polls : Nat) : CrewRun (jobSem strokes) (migrateStart polls) (migratePolled polls) := by
  have hfirst := play_run (jobServe_sem []) [false, false, false, false] (migrateStart polls)
  exact turn_run (jobServe_sem [migrateDone]) hfirst false

theorem migrateDone_reported : Reported "shop" "migrate" "r1" [migrateDone] :=
  ⟨⟨true, some 0, "job run succeeded"⟩, migrateDone, List.mem_singleton.mpr rfl,
    ⟨"r1", "t", some "t", some "t", some 0, .succeeded, "job run succeeded"⟩, by decide +kernel, rfl⟩

/-- The guarantee at a run: the first command sees the end and takes its entry out. -/
theorem job_lock_released : ∃ s, CrewRun (jobSem strokes) (migrateStart 1) s ∧ s.progs false = .ret (.ok .succeeded) ∧
    ¬ RunListed "n1" "shop" "migrate" "r1" s.world.bucket := by
  have hrun : CrewRun (jobSem strokes) (migrateStart 1)
      ((migratePolled 1).play (jobServe []) [false, false, false, false, false]) := by
    have hmore := play_run (jobServe_sem []) [false, false, false, false, false] (migratePolled 1)
    exact (migratePolled_run 1).trans hmore
  have hended : ((migratePolled 1).play (jobServe []) [false, false, false, false, false]).progs false =
      .ret (.ok .succeeded) := Prog.eq_ret (by decide +kernel)
  obtain ⟨_, -, -, hout⟩ := job_lock_iff strokes (by decide) (migrateClients 1) (migrateClients_ids 1)
    (fun w hw => absurd hw List.not_mem_nil) (fun b hb => by cases hb) List.nodup_nil
    (fun i id _ e he => absurd he List.not_mem_nil) [] hrun
  exact ⟨_, hrun, hended, hout false _ _ _ _ _ rfl hended .succeeded⟩

/-- The first command's time is up; its run has ended, and the second one is refused. -/
theorem lock_left_behind : ∃ s₁ s₂, CrewRun (jobSem strokes) (migrateStart 0) s₁ ∧
    s₁.progs false = .ret (.error (.timedOut "migrate")) ∧ Reported "shop" "migrate" "r1" s₁.world.statuses ∧
    s₁.progs true = runJob "n1" (migrateEntry "r2") "r2" false 0 ∧ CrewRun (jobSem strokes) s₁ s₂ ∧
    s₂.progs true = .ret (.error (.publish (.jobRunning "migrate" "r1"))) := by
  refine ⟨migratePolled 0, (migratePolled 0).play (jobServe []) [true, true], migratePolled_run 0,
    Prog.eq_ret (by decide +kernel), migrateDone_reported, rfl, play_run (jobServe_sem []) _ _,
    Prog.eq_ret (by decide +kernel)⟩

end LaunchPad.Cli
