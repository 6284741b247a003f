/-
  LaunchPad.Agent.Node — an app node as a machine: docker, the agent's memory and state
  file, the clock, and what the bucket holds of this node; and the agent's life on it
  (`agent-app.rs`): it boots, runs ticks, and may crash between any two commands.

  `sem` says what each command of a plan does (`impl Reconciler for AppAgent`), with every
  outcome docker, the disk and the bucket may give. The environment advances the clock,
  lets containers exit, be restarted by docker or removed, and may lose the state file.

  A tick (`tick_inner`) fetches the desired document, inspects docker, keeps the cron
  records, plans, and then runs `applyActions` command by command; the publish at its end
  is a refresh that excludes nothing. The status write, log shipping and the network
  repair touch nothing of this state. The agent and docker run on one node, so commands
  and the environment interleave but do not overlap.

  `History` records what happened for the theorems; no command reads it.

  Proved:
  - `reach_invariant`: what holds of a fresh node and survives the environment, a boot,
    the start of a tick and each of its commands, holds of every run.
  - `dockerOk_sem`, `dockerOk_rely`: in every run ids and names of containers are unique.
-/
import LaunchPad.Agent.Apply
import LaunchPad.Agent.LocalState
import LaunchPad.Agent.Upstream

namespace LaunchPad.Agent

open Lib

/-! ## The node -/

/-- What has happened: the cron runs started, newest first; the anchor each cron key was
    first seen with since the agent last came up without a state file; the containers that
    passed a health wait since the agent last started them; the containers each edge's shard
    lists; and, for every container that was ever listed, for how many milliseconds the
    agent has slept since it last was. -/
structure History where
  starts : List (String × Int) := []
  sights : SortedMap String Int := []
  gated : List String := []
  listed : SortedMap String (List String) := []
  waited : SortedMap String Nat := []
  deriving DecidableEq, Repr

structure Node where
  docker : List Container := []
  /-- Every container id docker has given out. -/
  issued : List String := []
  clock : Int
  records : Records := ⟨{}, none⟩
  routes : Routes := {}
  desired : DesiredState := ⟨protocolVersion, "", "", []⟩
  errors : SortedMap String String := []
  hasWeb : Bool := false
  history : History := {}
  deriving DecidableEq, Repr

/-! ## Docker -/

def NameFree (docker : List Container) (name : String) : Prop := ∀ x ∈ docker, x.replica.name ≠ name

/-- No running container publishes the port. -/
def PortFree (docker : List Container) (hostPort : Option Int) : Prop :=
  ∀ x ∈ docker, x.replica.running = true → ∀ p, hostPort = some p → x.replica.hostPort ≠ some p

def Container.setState (x : Container) (state : ContainerState) (halted : Bool) : Container :=
  { x with replica := { x.replica with state }, halted }

/-- Set the state of the containers that `p` picks. -/
def setStates (p : Container → Bool) (state : ContainerState) (halted : Bool) (docker : List Container) :
    List Container :=
  docker.map fun x => if p x then x.setState state halted else x

def hasId (id : String) (x : Container) : Bool := x.replica.id == id

def ContainerRef.picks : ContainerRef → Container → Bool
  | .name n, x => x.replica.name == n
  | .id i, x => x.replica.id == i

/-- `docker run`: refused; or created but not started, for instance because its port is
    taken; or running. Ids are never reused, and a name belongs to one container. -/
inductive Launch (docker : List Container) (issued : List String) (make : String → ContainerState → Container) :
    Except String Unit → List Container → List String → Prop
  | refused (e : String) : Launch docker issued make (.error e) docker issued
  | created (e id : String) : id ∉ issued → NameFree docker (make id .created).replica.name →
      Launch docker issued make (.error e) (docker ++ [make id .created]) (id :: issued)
  | running (id : String) : id ∉ issued → NameFree docker (make id .running).replica.name →
      PortFree docker (make id .running).replica.hostPort →
      Launch docker issued make (.ok ()) (docker ++ [make id .running]) (id :: issued)

/-! ## What the commands do -/

def Node.liveNow (w : Node) : Live := inspectManaged w.docker

/-- A run that docker reports as started. -/
def History.started (h : History) (key : String) (fire : Option Int) (r : Except String Unit) : History :=
  match r, fire with
  | .ok _, some f => { h with starts := (key, f) :: h.starts }
  | _, _ => h

/-- The containers that some edge's shard lists. -/
def History.routed (h : History) : List String :=
  (SortedMap.keys h.listed).flatMap fun e => (SortedMap.get e h.listed).getD []

/-- A publish that reached `edges`. -/
def History.published (h : History) (edges : List String) (ids : String → List String) : History :=
  let h' := { h with listed := edges.foldl (fun m e => SortedMap.insert e (ids e) m) h.listed }
  { h' with waited := (h.routed ++ h'.routed).foldl (fun m id => SortedMap.insert id 0 m) h.waited }

def History.slept (h : History) (ms : Int) : History :=
  { h with waited := h.waited.map fun e => (e.1, if e.1 ∈ h.routed then e.2 else e.2 + ms.toNat) }

def Node.withPorts (w : Node) (ports : SortedMap String Int) (saved : Bool) : Node :=
  { w with records := { w.records with mem := { w.records.mem with ports } }.save saved }

/-- A publish that meets `out`. -/
def Node.published (w : Node) (nodeId : String) (excludeIds : List String) (out : PublishOutcome) : Node :=
  { w with
    routes := (publishUpstream nodeId w.desired w.liveNow excludeIds out w.routes).2
    history := w.history.published (publishedEdges nodeId w.desired w.liveNow excludeIds out w.routes)
      fun edge => (replicasFor w.desired w.liveNow excludeIds edge).map (·.id) }

/-- The containers that publish a port. -/
def onPort (docker : List Container) (port : Int) : List String :=
  (docker.filter fun x => x.replica.hostPort == some port).map (·.replica.id)

section Agent

variable (nodeId : String)

def sem : (o : Op) → Node → Resp o → Node → Prop
  | .pull _, w, _, w' => w' = w
  | .runContainer c index hostPort _ fire job, w, r, w' =>
    ∃ docker issued, Launch w.docker w.issued (launched c index hostPort fire job) r docker issued ∧
      w' = { w with docker, issued, history := w.history.started c.key fire r }
  | .startContainer id, w, r, w' =>
    (∃ e, r = .error e ∧ w' = w) ∨
    (r = .ok () ∧ ∃ x ∈ w.docker, x.replica.id = id ∧ PortFree w.docker x.replica.hostPort ∧
      w' = { w with docker := setStates (hasId id) .running false w.docker
                    history := { w.history with gated := w.history.gated.filter (· ≠ id) } })
  -- `docker stop`, then `docker rm`, each of which may fail unnoticed.
  | .stopContainer container _, w, r, w' =>
    r = .ok () ∧ (w' = w ∨ w' = { w with docker := setStates container.picks .exited true w.docker } ∨
      w' = { w with docker := w.docker.filter (!container.picks ·) })
  | .removeContainer id, w, r, w' =>
    r = .ok () ∧ (w' = w ∨ w' = { w with docker := w.docker.filter (!hasId id ·) })
  | .allocatePort key index, w, r, w' =>
    ∃ saved, r = (allocatePort w.records.mem.ports key index).1 ∧
      w' = w.withPorts (allocatePort w.records.mem.ports key index).2 saved
  | .releasePort key index, w, _, w' => ∃ saved, w' = w.withPorts (releasePort w.records.mem.ports key index) saved
  | .refreshRouting excludeIds, w, r, w' =>
    if w.hasWeb then ∃ out, r = (publishUpstream nodeId w.desired w.liveNow excludeIds out w.routes).1 ∧
      w' = w.published nodeId excludeIds out
    else r = .ok () ∧ w' = w
  | .heartbeat, w, _, w' => w' = w
  | .sleepMs ms, w, _, w' => ∃ t, w.clock + max ms 0 ≤ t ∧ w' = { w with clock := t, history := w.history.slept ms }
  | .waitHealthy port _ _, w, r, w' =>
    w' = if r then { w with history := { w.history with gated := onPort w.docker port ++ w.history.gated } } else w
  | .recordCronFire key fire, w, r, w' =>
    ∃ saved records, w.records.recordCronFire key fire saved = (r, records) ∧ w' = { w with records }
  | .setError key message, w, _, w' => w' = { w with errors := SortedMap.insert key message w.errors }
  | .runBackup c fire, w, r, w' =>
    ∃ saved records errors, w.records.recordCronFire (backupStateKey c.key) fire saved = (r, records) ∧
      (errors = w.errors ∨ ∃ message, errors = SortedMap.insert c.key message w.errors) ∧
      w' = { w with records, errors }

/-- The environment: time passes; containers exit, are restarted by docker, or are removed;
    the state file is lost. -/
inductive Rely : Node → Node → Prop
  | tick (w : Node) (t : Int) : w.clock ≤ t → Rely w { w with clock := t }
  | exit (w : Node) (x : Container) (s : ContainerState) : x ∈ w.docker → x.replica.state ≠ .created → s ≠ .running →
      Rely w { w with docker := setStates (hasId x.replica.id) s x.halted w.docker }
  | restart (w : Node) (x : Container) : x ∈ w.docker → x.restarts = true → x.halted = false →
      x.replica.state ≠ .created → PortFree w.docker x.replica.hostPort →
      Rely w { w with docker := setStates (hasId x.replica.id) .running false w.docker }
  | remove (w : Node) (id : String) : Rely w { w with docker := w.docker.filter (!hasId id ·) }
  | loseFile (w : Node) : Rely w { w with records := { w.records with file := none } }

/-! ## The agent's life -/

inductive Phase where
  | down
  | idle
  | applying (p : Prog Resp (Except String Unit))

/-- A fresh node: no containers, no state file, nothing published. -/
def Node.fresh (clock : Int) : Node := { clock }

/-- The agent comes up: only the state file survives in it. -/
def Node.boot (w : Node) : Node :=
  { w with
    records := w.records.loaded
    routes := { w.routes with lastShardFps := [] }
    desired := ⟨protocolVersion, "", "", []⟩
    errors := []
    hasWeb := false
    history := { w.history with sights := if w.records.file.isSome then w.history.sights else [] } }

/-- What a tick reads before it plans: the document, the clock at each anchor and at
    planning, and whether its save succeeds. -/
structure TickInput where
  desired : DesiredState
  now : String → Int
  planNow : Int
  saved : Bool

def TickInput.Timed (i : TickInput) (w : Node) : Prop :=
  w.clock ≤ i.planNow ∧ ∀ key, w.clock ≤ i.now key ∧ i.now key ≤ i.planNow

/-- The anchor a cron key is first seen with. -/
def History.sighted (h : History) (d : DesiredState) (mem : LocalState) : History :=
  { h with sights := (cronKeys d).foldl (fun m k => SortedMap.insertNew k ((mem.fire k).getD 0) m) h.sights }

def hasWebOf (d : DesiredState) : Bool := d.services.any (·.ingress.isSome)

/-- The node after the bookkeeping at the start of a tick. -/
def Node.began (w : Node) (i : TickInput) : Node :=
  let records := w.records.seed i.desired w.liveNow i.now i.saved
  { w with
    records
    desired := i.desired
    errors := []
    hasWeb := hasWebOf i.desired
    clock := i.planNow
    history := w.history.sighted i.desired records.mem }

def Node.plan (w : Node) (i : TickInput) : List Action :=
  planReconcile i.desired w.liveNow (some ⟨i.planNow, (w.began i).records.mem.cronFires⟩)

/-- Which ticks and which outcomes of commands a class of runs is about. -/
structure Admits where
  tick : DesiredState → Node → Prop := fun _ _ => True
  op : (o : Op) → Node → Resp o → Node → Prop := fun _ _ _ _ => True

/-- The machine of the commands, with the admitted outcomes. -/
def agent (A : Admits) : Machine Resp Node :=
  ⟨fun o w r w' => sem nodeId o w r w' ∧ A.op o w r w', Rely⟩

inductive Step (A : Admits) : Phase × Node → Phase × Node → Prop
  | boot (w : Node) : Step A (.down, w) (.idle, w.boot)
  | crash (p : Phase) (w : Node) : Step A (p, w) (.down, w)
  | env (p : Phase) (w w' : Node) : Rely w w' → Step A (p, w) (p, w')
  /-- A tick that ends before it plans: `desired.json` cannot be read; or the registry
      login fails; or docker cannot be inspected. -/
  | noDesired (w : Node) : Step A (.idle, w) (.idle, { w with errors := [] })
  | noLogin (w : Node) (d : DesiredState) :
      Step A (.idle, w) (.idle, { w with errors := [], desired := d })
  | noInspect (w : Node) (d : DesiredState) :
      Step A (.idle, w) (.idle, { w with errors := [], desired := d, hasWeb := hasWebOf d })
  | begin (w : Node) (i : TickInput) : i.Timed w → A.tick i.desired w →
      Step A (.idle, w) (.applying (applyActions (w.plan i)).run, w.began i)
  | command (o : Op) (k : Resp o → Prog Resp (Except String Unit)) (w : Node) (r : Resp o) (w' : Node) :
      (agent nodeId A).sem o w r w' → Step A (.applying (.act o k), w) (.applying (k r), w')
  /-- The publish at the end of a tick, whose error is the tick's. -/
  | finish (res : Except String Unit) (w : Node) (r : Except String Unit) (w' : Node) :
      sem nodeId (.refreshRouting []) w r w' → Step A (.applying (.ret res), w) (.idle, w')

inductive Reach (A : Admits) : Phase × Node → Prop
  | fresh (clock : Int) : Reach A (.down, .fresh clock)
  | step {c c' : Phase × Node} : Reach A c → Step nodeId A c c' → Reach A c'

/-- What every run keeps: `I` of every state, `G` of the state each command finds, and `J`
    of the state at the end of a plan. -/
structure Kept (A : Admits) (I J : Node → Prop) (G : Op → Node → Prop) : Prop where
  fresh : ∀ clock, I (.fresh clock)
  stable : ∀ w w', I w → Rely w w' → I w'
  boot : ∀ w, I w → I w.boot
  noDesired : ∀ w, I w → I { w with errors := [] }
  noLogin : ∀ w d, I w → I { w with errors := [], desired := d }
  noInspect : ∀ w d, I w → I { w with errors := [], desired := d, hasWeb := hasWebOf d }
  command : ∀ o w, G o w → I w
  planned : ∀ w, J w → I w
  finish : ∀ w r w', J w → sem nodeId (.refreshRouting []) w r w' → I w'
  begin : ∀ w i, I w → i.Timed w → A.tick i.desired w →
    Sat (agent nodeId A) G (fun _ => J) (applyActions (w.plan i)).run (w.began i)

/-- Where a run stands: outside a tick the invariant holds, within one the rest of the plan
    keeps it. -/
def Standing (A : Admits) (I J : Node → Prop) (G : Op → Node → Prop) : Phase × Node → Prop
  | (.down, w) | (.idle, w) => I w
  | (.applying p, w) => Sat (agent nodeId A) G (fun _ => J) p w

variable {nodeId} {A : Admits} {I J : Node → Prop} {G : Op → Node → Prop}

theorem Standing.planned {res : Except String Unit} {w : Node}
    (h : Standing nodeId A I J G (.applying (.ret res), w)) : J w := by
  have hp : Sat (agent nodeId A) G (fun _ => J) (.ret res) w := h
  exact hp.atRet

theorem Standing.invariant (hK : Kept nodeId A I J G) {c : Phase × Node} (h : Standing nodeId A I J G c) : I c.2 := by
  obtain ⟨p, w⟩ := c
  cases p with
  | down => exact h
  | idle => exact h
  | applying p =>
    have hp : Sat (agent nodeId A) G (fun _ => J) p w := h
    cases p with
    | ret res => exact hK.planned w h.planned
    | act o k => exact hK.command o w hp.atAct

theorem step_standing (hK : Kept nodeId A I J G) {c c' : Phase × Node} (h : Standing nodeId A I J G c)
    (hs : Step nodeId A c c') : Standing nodeId A I J G c' := by
  have hI := h.invariant hK
  cases hs with
  | boot w => exact hK.boot w hI
  | crash p w => exact hI
  | env p w w' hr =>
    cases p with
    | down => exact hK.stable w w' hI hr
    | idle => exact hK.stable w w' hI hr
    | applying p => exact Sat.drift h (Relation.ReflTransGen.single hr)
  | noDesired w => exact hK.noDesired w hI
  | noLogin w d => exact hK.noLogin w d hI
  | noInspect w d => exact hK.noInspect w d hI
  | begin w i ht hd => exact hK.begin w i hI ht hd
  | command o k w r w' hr => exact Sat.step h (.act hr)
  | finish res w r w' hr => exact hK.finish w r w' h.planned hr

/-- The run lemma. -/
theorem reach_standing (hK : Kept nodeId A I J G) {c : Phase × Node} (h : Reach nodeId A c) :
    Standing nodeId A I J G c := by
  induction h with
  | fresh clock => exact hK.fresh clock
  | step _ hs ih => exact step_standing hK ih hs

theorem reach_invariant (hK : Kept nodeId A I J G) {c : Phase × Node} (h : Reach nodeId A c) : I c.2 :=
  (reach_standing hK h).invariant hK

theorem reach_command (hK : Kept nodeId A I J G) {o : Op} {k : Resp o → Prog Resp (Except String Unit)} {w : Node}
    (h : Reach nodeId A (.applying (.act o k), w)) : G o w :=
  Sat.atAct (reach_standing hK h)

theorem reach_planned (hK : Kept nodeId A I J G) {res : Except String Unit} {w : Node}
    (h : Reach nodeId A (.applying (.ret res), w)) : J w :=
  (reach_standing hK h).planned

/-- A run goes on along the commands of its plan. -/
theorem Reach.runs {p q : Prog Resp (Except String Unit)} {w w' : Node}
    (hr : Runs (agent nodeId A) p w q w') (h : Reach nodeId A (.applying p, w)) :
    Reach nodeId A (.applying q, w') := by
  induction hr with
  | refl => exact h
  | act hs _ ih => exact ih (.step h (.command _ _ _ _ _ hs))

/-- The plan of one isolated action that succeeds. -/
theorem runs_single {a : Action} {w w' : Node} (h : Runs (agent nodeId A) (applyOne a).run w (.ret (.ok ())) w') :
    Runs (agent nodeId A) (applyActions [a]).run w (.ret (.ok ())) w' := by
  refine Runs.bindE ((h.bind _).trans (.refl _ _)) (.refl _ _)

/-- What an action passes through, every plan that starts with it passes through. -/
theorem Reach.visits {a : Action} {l : List Action} {w w' : Node}
    (hv : Visits (agent nodeId A) (applyOne a).run w w') (h : Reach nodeId A (.applying (applyActions (a :: l)).run, w)) :
    ∃ q, Reach nodeId A (.applying q, w') := by
  have hplan : Visits (agent nodeId A) (applyActions (a :: l)).run w w' := (hv.bind _).bind _
  obtain ⟨q, hq⟩ := hplan
  exact ⟨q, h.runs hq⟩

theorem runs_pull (image : String) (w : Node) (hA : A.op (.pull image) w (.ok ()) w) :
    Runs (agent nodeId A) (Reconciler.pull image).run w (.ret (.ok ())) w := by
  have hs : (agent nodeId A).sem (.pull image) w (.ok ()) w := ⟨rfl, hA⟩
  exact Runs.cmd hs

theorem runs_runContainer {c : ServiceConfig} {i : Int} {p : Option Int} {b : String} {f : Option Int}
    {j : Option String} {w w' : Node} (hs : sem nodeId (.runContainer c i p b f j) w (.ok ()) w')
    (hA : A.op (.runContainer c i p b f j) w (.ok ()) w') :
    Runs (agent nodeId A) (Reconciler.runContainer c i p b f j).run w (.ret (.ok ())) w' := by
  have hs' : (agent nodeId A).sem (.runContainer c i p b f j) w (.ok ()) w' := ⟨hs, hA⟩
  exact Runs.cmd hs'

/-- A worker needs no port. -/
theorem runs_hostPortFor {c : ServiceConfig} (h : c.ingress = none) (i : Int) (w : Node) :
    Runs (agent nodeId A) (hostPortFor c i).run w (.ret (.ok none)) w := by
  unfold hostPortFor
  rw [h]
  exact .refl _ _

/-- A whole tick whose only action succeeds, on a node without web services. -/
theorem Reach.tick {w w' : Node} {i : TickInput} {a : Action} (h : Reach nodeId A (.idle, w)) (ht : i.Timed w)
    (hd : A.tick i.desired w) (hplan : w.plan i = [a])
    (hr : Runs (agent nodeId A) (applyOne a).run (w.began i) (.ret (.ok ())) w') (hweb : w'.hasWeb = false) :
    Reach nodeId A (.idle, w') := by
  have hb := Reach.step h (.begin w i ht hd)
  rw [hplan] at hb
  refine Reach.step (hb.runs (runs_single hr)) (.finish (.ok ()) w' (.ok ()) w' ?_)
  simp [sem, hweb]

/-! ## Containers over a run -/

/-- What a command that runs no container, or the environment, does to docker: nothing; or
    it stops, removes, or starts containers, the last only if it may. -/
inductive Shuffle (may : Container → Prop) (docker : List Container) : List Container → Prop
  | same : Shuffle may docker docker
  | halt (p : Container → Bool) (s : ContainerState) (halted : Container → Bool) : s ≠ .running →
      Shuffle may docker (docker.map fun x => if p x then x.setState s (halted x) else x)
  | start (x : Container) : x ∈ docker → may x → PortFree docker x.replica.hostPort →
      Shuffle may docker (setStates (hasId x.replica.id) .running false docker)
  | drop (p : Container → Bool) : Shuffle may docker (docker.filter p)

/-- Docker's own restarts. -/
def Container.restartable (x : Container) : Prop :=
  x.restarts = true ∧ x.halted = false ∧ x.replica.state ≠ .created

/-- The commands that reach docker's containers. -/
def Op.onDocker : Op → Bool
  | .runContainer .. | .startContainer _ | .stopContainer .. | .removeContainer _ => true
  | _ => false

/-- The others leave the containers alone. -/
theorem sem_same {o : Op} {w w' : Node} {r : Resp o} (hs : sem nodeId o w r w') (ho : o.onDocker = false) :
    w'.docker = w.docker ∧ w'.issued = w.issued := by
  cases o with
  | runContainer | startContainer | stopContainer | removeContainer => cases ho
  | pull | heartbeat | setError => cases hs; exact ⟨rfl, rfl⟩
  | allocatePort key index => obtain ⟨saved, -, rfl⟩ := hs; exact ⟨rfl, rfl⟩
  | releasePort key index => obtain ⟨saved, rfl⟩ := hs; exact ⟨rfl, rfl⟩
  | refreshRouting ex =>
    simp only [sem] at hs
    split at hs
    · obtain ⟨out, -, rfl⟩ := hs; exact ⟨rfl, rfl⟩
    · obtain ⟨-, rfl⟩ := hs; exact ⟨rfl, rfl⟩
  | sleepMs ms => obtain ⟨t, -, rfl⟩ := hs; exact ⟨rfl, rfl⟩
  | waitHealthy port hc ceiling =>
    simp only [sem] at hs
    split at hs <;> subst hs <;> exact ⟨rfl, rfl⟩
  | recordCronFire key fire => obtain ⟨saved, records, -, rfl⟩ := hs; exact ⟨rfl, rfl⟩
  | runBackup c fire => obtain ⟨saved, records, errors, -, -, rfl⟩ := hs; exact ⟨rfl, rfl⟩

theorem sem_shuffle {o : Op} {w w' : Node} {r : Resp o} (hs : sem nodeId o w r w')
    (ho : ∀ c i p b f j, o ≠ .runContainer c i p b f j) :
    Shuffle (fun x => o = .startContainer x.replica.id) w.docker w'.docker ∧ w'.issued = w.issued := by
  cases o with
  | runContainer c i p b f j => exact absurd rfl (ho c i p b f j)
  | startContainer id =>
    rcases hs with ⟨e, -, rfl⟩ | ⟨-, x, hx, rfl, hport, rfl⟩
    · exact ⟨.same, rfl⟩
    · exact ⟨.start x hx rfl hport, rfl⟩
  | stopContainer container grace =>
    rcases hs with ⟨-, rfl | rfl | rfl⟩
    · exact ⟨.same, rfl⟩
    · exact ⟨.halt _ .exited _ (by decide), rfl⟩
    · exact ⟨.drop _, rfl⟩
  | removeContainer id =>
    rcases hs with ⟨-, rfl | rfl⟩
    · exact ⟨.same, rfl⟩
    · exact ⟨.drop _, rfl⟩
  | _ =>
    obtain ⟨hd, hi⟩ := sem_same hs rfl
    exact ⟨hd ▸ .same, hi⟩

/-- Only a run starts anything; no command turns the clock back. -/
theorem sem_history {o : Op} {w w' : Node} {r : Resp o} (hs : sem nodeId o w r w')
    (ho : ∀ c i p b f j, o ≠ .runContainer c i p b f j) :
    w'.history.starts = w.history.starts ∧ w'.history.sights = w.history.sights ∧ w.clock ≤ w'.clock := by
  cases o with
  | runContainer c i p b f j => exact absurd rfl (ho c i p b f j)
  | pull | heartbeat | setError => cases hs; exact ⟨rfl, rfl, Int.le_refl _⟩
  | startContainer id =>
    rcases hs with ⟨e, -, rfl⟩ | ⟨-, x, -, -, -, rfl⟩ <;> exact ⟨rfl, rfl, Int.le_refl _⟩
  | stopContainer container grace => rcases hs with ⟨-, rfl | rfl | rfl⟩ <;> exact ⟨rfl, rfl, Int.le_refl _⟩
  | removeContainer id => rcases hs with ⟨-, rfl | rfl⟩ <;> exact ⟨rfl, rfl, Int.le_refl _⟩
  | allocatePort key index => obtain ⟨saved, -, rfl⟩ := hs; exact ⟨rfl, rfl, Int.le_refl _⟩
  | releasePort key index => obtain ⟨saved, rfl⟩ := hs; exact ⟨rfl, rfl, Int.le_refl _⟩
  | refreshRouting ex =>
    simp only [sem] at hs
    split at hs
    · obtain ⟨out, -, rfl⟩ := hs; exact ⟨rfl, rfl, Int.le_refl _⟩
    · obtain ⟨-, rfl⟩ := hs; exact ⟨rfl, rfl, Int.le_refl _⟩
  | sleepMs ms => obtain ⟨t, ht, rfl⟩ := hs; exact ⟨rfl, rfl, show w.clock ≤ t by omega⟩
  | waitHealthy port hc ceiling =>
    simp only [sem] at hs
    split at hs <;> subst hs <;> exact ⟨rfl, rfl, Int.le_refl _⟩
  | recordCronFire key fire => obtain ⟨saved, records, -, rfl⟩ := hs; exact ⟨rfl, rfl, Int.le_refl _⟩
  | runBackup c fire => obtain ⟨saved, records, errors, -, -, rfl⟩ := hs; exact ⟨rfl, rfl, Int.le_refl _⟩

theorem sem_clock {o : Op} {w w' : Node} {r : Resp o} (hs : sem nodeId o w r w') : w.clock ≤ w'.clock := by
  by_cases ho : ∀ c i p b f j, o ≠ .runContainer c i p b f j
  · exact (sem_history hs ho).2.2
  · simp only [not_forall, not_not] at ho
    obtain ⟨c, i, p, b, f, j, rfl⟩ := ho
    obtain ⟨docker, issued, -, rfl⟩ := hs
    exact Int.le_refl _

/-- The records of fires move only by `recordCronFire`; a save stores what is in memory. -/
theorem sem_fires {o : Op} {w w' : Node} {r : Resp o} (hs : sem nodeId o w r w') :
    (w'.records.mem.cronFires = w.records.mem.cronFires ∧
      (w'.records.file = w.records.file ∨ w'.records.file = some w'.records.mem)) ∨
    ∃ key fire saved, (w.records.recordCronFire key fire saved).2 = w'.records ∧
      ((∃ f, o = .recordCronFire key f ∧ f = fire) ∨ ∃ c, o = .runBackup c fire ∧ key = backupStateKey c.key) := by
  cases o with
  | runContainer c i p b f j => obtain ⟨docker, issued, -, rfl⟩ := hs; exact .inl ⟨rfl, .inl rfl⟩
  | pull | heartbeat | setError => cases hs; exact .inl ⟨rfl, .inl rfl⟩
  | startContainer id => rcases hs with ⟨e, -, rfl⟩ | ⟨-, x, -, -, -, rfl⟩ <;> exact .inl ⟨rfl, .inl rfl⟩
  | stopContainer container grace => rcases hs with ⟨-, rfl | rfl | rfl⟩ <;> exact .inl ⟨rfl, .inl rfl⟩
  | removeContainer id => rcases hs with ⟨-, rfl | rfl⟩ <;> exact .inl ⟨rfl, .inl rfl⟩
  | allocatePort key index =>
    obtain ⟨saved, -, rfl⟩ := hs
    cases saved
    · exact .inl ⟨rfl, .inl rfl⟩
    · exact .inl ⟨rfl, .inr rfl⟩
  | releasePort key index =>
    obtain ⟨saved, rfl⟩ := hs
    cases saved
    · exact .inl ⟨rfl, .inl rfl⟩
    · exact .inl ⟨rfl, .inr rfl⟩
  | refreshRouting ex =>
    simp only [sem] at hs
    split at hs
    · obtain ⟨out, -, rfl⟩ := hs; exact .inl ⟨rfl, .inl rfl⟩
    · obtain ⟨-, rfl⟩ := hs; exact .inl ⟨rfl, .inl rfl⟩
  | sleepMs ms => obtain ⟨t, -, rfl⟩ := hs; exact .inl ⟨rfl, .inl rfl⟩
  | waitHealthy port hc ceiling =>
    simp only [sem] at hs
    split at hs <;> subst hs <;> exact .inl ⟨rfl, .inl rfl⟩
  | recordCronFire key fire =>
    obtain ⟨saved, records, hr, rfl⟩ := hs
    exact .inr ⟨key, fire, saved, by rw [hr], .inl ⟨fire, rfl, rfl⟩⟩
  | runBackup c fire =>
    obtain ⟨saved, records, errors, hr, -, rfl⟩ := hs
    exact .inr ⟨backupStateKey c.key, fire, saved, by rw [hr], .inr ⟨c, rfl, rfl⟩⟩

/-- Only a refresh publishes, and no command replaces the document. -/
theorem sem_routes {o : Op} {w w' : Node} {r : Resp o} (hs : sem nodeId o w r w') :
    w'.desired = w.desired ∧ w'.hasWeb = w.hasWeb ∧
      (w'.routes = w.routes ∨ ∃ excludeIds out, o = .refreshRouting excludeIds ∧ w.hasWeb = true ∧
        w'.routes = (publishUpstream nodeId w.desired w.liveNow excludeIds out w.routes).2) := by
  cases o with
  | runContainer c i p b f j => obtain ⟨docker, issued, -, rfl⟩ := hs; exact ⟨rfl, rfl, .inl rfl⟩
  | pull | heartbeat | setError => cases hs; exact ⟨rfl, rfl, .inl rfl⟩
  | startContainer id => rcases hs with ⟨e, -, rfl⟩ | ⟨-, x, -, -, -, rfl⟩ <;> exact ⟨rfl, rfl, .inl rfl⟩
  | stopContainer container grace => rcases hs with ⟨-, rfl | rfl | rfl⟩ <;> exact ⟨rfl, rfl, .inl rfl⟩
  | removeContainer id => rcases hs with ⟨-, rfl | rfl⟩ <;> exact ⟨rfl, rfl, .inl rfl⟩
  | allocatePort key index =>
    obtain ⟨saved, -, rfl⟩ := hs
    exact ⟨rfl, rfl, .inl rfl⟩
  | releasePort key index =>
    obtain ⟨saved, rfl⟩ := hs
    exact ⟨rfl, rfl, .inl rfl⟩
  | refreshRouting ex =>
    simp only [sem] at hs
    split at hs
    · rename_i hweb
      obtain ⟨out, -, rfl⟩ := hs
      exact ⟨rfl, rfl, .inr ⟨ex, out, rfl, hweb, rfl⟩⟩
    · obtain ⟨-, rfl⟩ := hs; exact ⟨rfl, rfl, .inl rfl⟩
  | sleepMs ms => obtain ⟨t, -, rfl⟩ := hs; exact ⟨rfl, rfl, .inl rfl⟩
  | waitHealthy port hc ceiling =>
    simp only [sem] at hs
    split at hs <;> subst hs <;> exact ⟨rfl, rfl, .inl rfl⟩
  | recordCronFire key fire => obtain ⟨saved, records, -, rfl⟩ := hs; exact ⟨rfl, rfl, .inl rfl⟩
  | runBackup c fire => obtain ⟨saved, records, errors, -, -, rfl⟩ := hs; exact ⟨rfl, rfl, .inl rfl⟩

theorem rely_routes {w w' : Node} (h : Rely w w') :
    w'.desired = w.desired ∧ w'.hasWeb = w.hasWeb ∧ w'.routes = w.routes := by
  cases h <;> exact ⟨rfl, rfl, rfl⟩

theorem rely_shuffle {w w' : Node} (h : Rely w w') :
    Shuffle Container.restartable w.docker w'.docker ∧ w'.issued = w.issued := by
  cases h with
  | tick t _ => exact ⟨.same, rfl⟩
  | exit x s hx _ hs => exact ⟨.halt _ s _ hs, rfl⟩
  | restart x hx h1 h2 h3 hport => exact ⟨.start x hx ⟨h1, h2, h3⟩ hport, rfl⟩
  | remove id => exact ⟨.drop _, rfl⟩
  | loseFile => exact ⟨.same, rfl⟩

/-- A container apart from its state. -/
def Container.fixed (x : Container) : Container := x.setState .unknown false

@[simp] theorem Container.fixed_setState (x : Container) (s : ContainerState) (halted : Bool) :
    (x.setState s halted).fixed = x.fixed := rfl

theorem Container.fixed_congr {x y : Container} (h : x.fixed = y.fixed) :
    x.replica.id = y.replica.id ∧ x.replica.name = y.replica.name ∧ x.replica.project = y.replica.project ∧
      x.replica.service = y.replica.service ∧ x.replica.hostPort = y.replica.hostPort ∧
      x.replica.cronFireMs = y.replica.cronFireMs ∧ x.mounts = y.mounts ∧ x.restarts = y.restarts := by
  simp only [Container.fixed, Container.setState, Container.mk.injEq, ManagedReplica.mk.injEq] at h
  tauto

theorem map_fixed (p : Container → Bool) (f : Container → Container) (hf : ∀ x, (f x).fixed = x.fixed)
    (docker : List Container) :
    (docker.map fun x => if p x then f x else x).map Container.fixed = docker.map Container.fixed := by
  rw [List.map_map]
  refine List.map_congr_left fun x _ => ?_
  simp only [Function.comp]
  split
  · exact hf x
  · rfl

/-- No command but a run makes a container or changes what one is. -/
theorem Shuffle.sublist {may : Container → Prop} {docker docker' : List Container} (h : Shuffle may docker docker') :
    (docker'.map Container.fixed).Sublist (docker.map Container.fixed) := by
  cases h with
  | same => exact List.Sublist.refl _
  | halt p s halted _ => rw [map_fixed p (fun x => x.setState s (halted x)) fun _ => rfl]
  | start x _ _ _ => rw [setStates, map_fixed _ (fun x => x.setState .running false) fun _ => rfl]
  | drop p => exact List.filter_sublist.map _

theorem Shuffle.origin {may : Container → Prop} {docker docker' : List Container} (h : Shuffle may docker docker') {x : Container}
    (hx : x ∈ docker') : ∃ y ∈ docker, y.fixed = x.fixed := by
  have := h.sublist.subset (List.mem_map.mpr ⟨x, hx, rfl⟩)
  exact List.mem_map.mp this

/-- What runs afterwards ran before, or was started. -/
theorem Shuffle.running {may : Container → Prop} {docker docker' : List Container} (h : Shuffle may docker docker')
    {x : Container} (hx : x ∈ docker') (hrun : x.replica.running = true) :
    ∃ y ∈ docker, y.fixed = x.fixed ∧ (y = x ∨ ∃ z ∈ docker, may z ∧ z.replica.id = y.replica.id) := by
  cases h with
  | same => exact ⟨x, hx, rfl, .inl rfl⟩
  | halt p s halted hs =>
    obtain ⟨y, hy, rfl⟩ := List.mem_map.mp hx
    refine ⟨y, hy, ?_, .inl ?_⟩
    all_goals split at hrun
    all_goals first | exact absurd (by simpa [ManagedReplica.running, Container.setState] using hrun) hs | skip
    all_goals rename_i hp; rw [if_neg hp]
  | start z hz hmay _ =>
    obtain ⟨y, hy, rfl⟩ := List.mem_map.mp hx
    by_cases hid : hasId z.replica.id y = true
    · refine ⟨y, hy, by rw [if_pos hid]; rfl, .inr ⟨z, hz, hmay, ?_⟩⟩
      exact (beq_iff_eq.mp hid).symm
    · exact ⟨y, hy, by rw [if_neg hid], .inl (by rw [if_neg hid])⟩
  | drop p => exact ⟨x, (List.mem_filter.mp hx).1, rfl, .inl rfl⟩

/-- Ids and names of containers are unique, and no id is new. -/
structure DockerOk (w : Node) : Prop where
  ids : (w.docker.map (·.replica.id)).Nodup
  names : (w.docker.map (·.replica.name)).Nodup
  issued : ∀ x ∈ w.docker, x.replica.id ∈ w.issued

/-- Nothing else of the node matters to it. -/
theorem DockerOk.congr {w w' : Node} (h : DockerOk w) (hd : w'.docker = w.docker) (hi : w'.issued = w.issued) :
    DockerOk w' := by
  refine ⟨?_, ?_, ?_⟩
  · rw [hd]; exact h.ids
  · rw [hd]; exact h.names
  · rw [hd, hi]; exact h.issued

theorem DockerOk.shuffle {may : Container → Prop} {w w' : Node} (h : DockerOk w)
    (hs : Shuffle may w.docker w'.docker ∧ w'.issued = w.issued) : DockerOk w' := by
  obtain ⟨hs, hissued⟩ := hs
  have hsub := hs.sublist
  refine ⟨?_, ?_, fun x hx => ?_⟩
  · have := hsub.map (·.replica.id)
    rw [List.map_map, List.map_map] at this
    exact h.ids.sublist this
  · have := hsub.map (·.replica.name)
    rw [List.map_map, List.map_map] at this
    exact h.names.sublist this
  · obtain ⟨y, hy, hxy⟩ := hs.origin hx
    rw [hissued, ← (Container.fixed_congr hxy).1]
    exact h.issued y hy

/-- A run adds at most one container, with an id never given out before. -/
theorem mem_launch {docker docker' : List Container} {issued issued' : List String}
    {make : String → ContainerState → Container} {r : Except String Unit}
    (h : Launch docker issued make r docker' issued') {x : Container} (hx : x ∈ docker') :
    x ∈ docker ∨ ∃ id s, id ∉ issued ∧ x = make id s := by
  cases h with
  | refused e => exact .inl hx
  | created e id hid _ =>
    rcases List.mem_append.mp hx with hx | hx
    · exact .inl hx
    · exact .inr ⟨id, _, hid, List.mem_singleton.mp hx⟩
  | running id hid _ _ =>
    rcases List.mem_append.mp hx with hx | hx
    · exact .inl hx
    · exact .inr ⟨id, _, hid, List.mem_singleton.mp hx⟩

theorem DockerOk.launch {w : Node} {docker : List Container} {issued : List String}
    {make : String → ContainerState → Container} {r : Except String Unit} (h : DockerOk w)
    (hmake : ∀ id s, (make id s).replica.id = id) (hl : Launch w.docker w.issued make r docker issued) :
    (docker.map (·.replica.id)).Nodup ∧ (docker.map (·.replica.name)).Nodup ∧
      ∀ x ∈ docker, x.replica.id ∈ issued := by
  have key : ∀ id s, id ∉ w.issued → NameFree w.docker (make id s).replica.name →
      ((w.docker ++ [make id s]).map (·.replica.id)).Nodup ∧ ((w.docker ++ [make id s]).map (·.replica.name)).Nodup ∧
        ∀ x ∈ w.docker ++ [make id s], x.replica.id ∈ id :: w.issued := by
    intro id s hid hname
    refine ⟨?_, ?_, fun x hx => ?_⟩
    · rw [List.map_append, List.nodup_append]
      refine ⟨h.ids, by simp, fun a ha b hb => ?_⟩
      obtain ⟨x, hx, rfl⟩ := List.mem_map.mp ha
      simp only [List.map_cons, List.map_nil, List.mem_singleton, hmake] at hb
      subst hb
      exact fun he => hid (he ▸ h.issued x hx)
    · rw [List.map_append, List.nodup_append]
      refine ⟨h.names, by simp, fun a ha b hb => ?_⟩
      obtain ⟨x, hx, rfl⟩ := List.mem_map.mp ha
      simp only [List.map_cons, List.map_nil, List.mem_singleton] at hb
      subst hb
      exact hname x hx
    · rcases List.mem_append.mp hx with hx | hx
      · exact List.mem_cons_of_mem _ (h.issued x hx)
      · rw [List.mem_singleton.mp hx, hmake]
        exact List.mem_cons_self ..
  cases hl with
  | refused e => exact ⟨h.ids, h.names, h.issued⟩
  | created e id hid hname => exact key id _ hid hname
  | running id hid hname _ => exact key id _ hid hname

theorem dockerOk_sem {o : Op} {w w' : Node} {r : Resp o} (h : DockerOk w) (hs : sem nodeId o w r w') :
    DockerOk w' := by
  by_cases ho : ∀ c i p b f j, o ≠ .runContainer c i p b f j
  · exact h.shuffle (sem_shuffle hs ho)
  · simp only [not_forall, not_not] at ho
    obtain ⟨c, i, p, b, f, j, rfl⟩ := ho
    obtain ⟨docker, issued, hl, rfl⟩ := hs
    obtain ⟨h1, h2, h3⟩ := h.launch (fun _ _ => rfl) hl
    exact ⟨h1, h2, h3⟩

theorem dockerOk_rely {w w' : Node} (h : DockerOk w) (hr : Rely w w') : DockerOk w' := h.shuffle (rely_shuffle hr)

theorem dockerOk_fresh (clock : Int) : DockerOk (.fresh clock) :=
  ⟨List.nodup_nil, List.nodup_nil, fun _ h => by cases h⟩

/-! ## The containers of other services -/

theorem fixed_key {x y : Container} (h : y.fixed = x.fixed) : y.replica.key = x.replica.key := by
  obtain ⟨-, -, hp, hs, -⟩ := Container.fixed_congr h
  unfold ManagedReplica.key
  rw [hp, hs]

/-- Ids of containers, none of them of the key. -/
def Elsewhere (key : String) (ids : List String) (w : Node) : Prop :=
  ∀ id ∈ ids, id ∈ w.issued ∧ ∀ x ∈ w.docker, x.replica.id = id → x.replica.key ≠ key

/-- The ids of live replicas of other keys. -/
def otherIds (key : String) (w : Node) : List String :=
  ((w.docker.map (·.replica)).filter fun r => r.key != key).map (·.id)

section Elsewhere

variable {key : String} {ids : List String}

theorem elsewhere_otherIds {w : Node} (h : DockerOk w) : Elsewhere key (otherIds key w) w := by
  intro id hid
  obtain ⟨r, hr, rfl⟩ := List.mem_map.mp hid
  obtain ⟨hr, hkey⟩ := List.mem_filter.mp hr
  obtain ⟨y, hy, rfl⟩ := List.mem_map.mp hr
  refine ⟨h.issued y hy, fun x hx hxid => ?_⟩
  have hsame := List.inj_on_of_nodup_map h.ids hx hy hxid
  subst hsame
  simpa using hkey

theorem mem_otherIds {w : Node} {r : ManagedReplica} {k : String} (hr : r ∈ replicasOf w.liveNow k) (hk : k ≠ key) :
    r.id ∈ otherIds key w := by
  obtain ⟨⟨x, hx, rfl⟩, -, hkey⟩ := mem_replicasOf.mp hr
  refine List.mem_map.mpr ⟨x.replica, List.mem_filter.mpr ⟨List.mem_map.mpr ⟨x, hx, rfl⟩, ?_⟩, rfl⟩
  simpa [hkey] using hk

theorem Elsewhere.shuffle {may : Container → Prop} {w w' : Node} (h : Elsewhere key ids w)
    (hs : Shuffle may w.docker w'.docker ∧ w'.issued = w.issued) : Elsewhere key ids w' := by
  intro id hid
  obtain ⟨hissued, hkey⟩ := h id hid
  refine ⟨by rw [hs.2]; exact hissued, fun x hx hxid => ?_⟩
  obtain ⟨y, hy, hfix⟩ := hs.1.origin hx
  rw [← fixed_key hfix]
  exact hkey y hy ((Container.fixed_congr hfix).1.trans hxid)

/-- A new container has a new id. -/
theorem Elsewhere.launch {w w' : Node} {docker : List Container} {issued : List String}
    {make : String → ContainerState → Container} {r : Except String Unit} (h : Elsewhere key ids w)
    (hl : Launch w.docker w.issued make r docker issued) (hmake : ∀ id s, (make id s).replica.id = id)
    (hd : w'.docker = docker) (hi : w'.issued = issued) : Elsewhere key ids w' := by
  intro id hid
  obtain ⟨hissued, hkey⟩ := h id hid
  rw [hd, hi]
  refine ⟨?_, fun x hx hxid => ?_⟩
  · cases hl with
    | refused e => exact hissued
    | created e id' _ _ => exact List.mem_cons_of_mem _ hissued
    | running id' _ _ _ => exact List.mem_cons_of_mem _ hissued
  · rcases mem_launch hl hx with hm | ⟨id', s, hnew, rfl⟩
    · exact hkey x hm hxid
    · have hid' : id' = id := (hmake id' s).symm.trans hxid
      exact absurd (hid' ▸ hissued) hnew

end Elsewhere

/-! ## Replicas as they were listed -/

/-- Containers that differ in their state at most. -/
structure SameReplica (x y : Container) : Prop where
  id : y.replica.id = x.replica.id
  name : y.replica.name = x.replica.name
  project : y.replica.project = x.replica.project
  service : y.replica.service = x.replica.service
  index : y.replica.index = x.replica.index
  hostPort : y.replica.hostPort = x.replica.hostPort

theorem same_of_fixed {x y : Container} (h : y.fixed = x.fixed) : SameReplica x y where
  id := congrArg (·.replica.id) h
  name := congrArg (·.replica.name) h
  project := congrArg (·.replica.project) h
  service := congrArg (·.replica.service) h
  index := congrArg (·.replica.index) h
  hostPort := congrArg (·.replica.hostPort) h

theorem SameReplica.key {x y : Container} (h : SameReplica x y) : y.replica.key = x.replica.key := by
  unfold ManagedReplica.key
  rw [h.project, h.service]

/-- Replicas as they were listed: whatever still has the id is that replica. -/
def Recalled (l : List ManagedReplica) (w : Node) : Prop :=
  ∀ r ∈ l, r.id ∈ w.issued ∧ ∀ x ∈ w.docker, x.replica.id = r.id →
    x.replica.key = r.key ∧ x.replica.index = r.index ∧ x.replica.hostPort = r.hostPort

section Recalled

variable {l : List ManagedReplica} {w w' : Node}

theorem origin_of_fixed (h : w'.docker.map Container.fixed = w.docker.map Container.fixed) :
    ∀ x ∈ w'.docker, ∃ y ∈ w.docker, y.fixed = x.fixed := by
  intro x hx
  have hm : x.fixed ∈ w.docker.map Container.fixed := h ▸ List.mem_map.mpr ⟨x, hx, rfl⟩
  exact List.mem_map.mp hm

theorem Recalled.frame (h : Recalled l w) (hissued : w'.issued = w.issued)
    (horigin : ∀ x ∈ w'.docker, ∃ y ∈ w.docker, y.fixed = x.fixed) : Recalled l w' := by
  intro r hr
  obtain ⟨hid, hsame⟩ := h r hr
  refine ⟨hissued ▸ hid, fun x hx hxid => ?_⟩
  obtain ⟨y, hy, hfix⟩ := horigin x hx
  have ha := same_of_fixed hfix
  have := hsame y hy (ha.id.trans hxid)
  rwa [ha.key, ha.index, ha.hostPort] at this

theorem recalled_live (h : DockerOk w) (hl : ∀ r ∈ l, ∃ x ∈ w.docker, x.replica = r) : Recalled l w := by
  intro r hr
  obtain ⟨y, hy, rfl⟩ := hl r hr
  refine ⟨h.issued y hy, fun x hx hid => ?_⟩
  obtain rfl := List.inj_on_of_nodup_map h.ids hx hy hid
  exact ⟨rfl, rfl, rfl⟩

theorem Recalled.launch {docker : List Container} {issued : List String} {r : Except String Unit}
    {make : String → ContainerState → Container} (h : Recalled l w)
    (hl : Launch w.docker w.issued make r docker issued) (hmake : ∀ id s, (make id s).replica.id = id)
    (hd : w'.docker = docker) (hi : w'.issued = issued) : Recalled l w' := by
  intro r hr
  obtain ⟨hid, hsame⟩ := h r hr
  rw [hd, hi]
  refine ⟨?_, fun x hx hxid => ?_⟩
  · cases hl with
    | refused e => exact hid
    | created e id' _ _ => exact List.mem_cons_of_mem _ hid
    | running id' _ _ _ => exact List.mem_cons_of_mem _ hid
  · rcases mem_launch hl hx with hm | ⟨id', s, hnew, rfl⟩
    · exact hsame x hm hxid
    · exact absurd (((hmake id' s).symm.trans hxid) ▸ hid) hnew

theorem launch_cases {docker : List Container} {issued : List String} {r : Except String Unit}
    {make : String → ContainerState → Container} (h : Launch w.docker w.issued make r docker issued) :
    docker = w.docker ∨ ∃ id s, docker = w.docker ++ [make id s] := by
  cases h with
  | refused e => exact .inl rfl
  | created e id _ _ => exact .inr ⟨id, _, rfl⟩
  | running id _ _ _ => exact .inr ⟨id, _, rfl⟩

/-- What a removal has done that leaves nothing to remove. -/
theorem removed_eq {p : Container → Bool} (hgone : ∀ x ∈ w'.docker, p x = false)
    (hs : w' = w ∨ (∃ s halted, w' = { w with docker := setStates p s halted w.docker }) ∨
      w' = { w with docker := w.docker.filter (!p ·) })
    (hstate : ∀ x s halted, p (Container.setState x s halted) = p x) : w' = { w with docker := w.docker.filter (!p ·) } := by
  have hall : (∀ x ∈ w.docker, p x = false) → w.docker.filter (!p ·) = w.docker := by
    intro hno
    exact List.filter_eq_self.mpr fun x hx => by rw [hno x hx]; rfl
  rcases hs with rfl | ⟨s, halted, rfl⟩ | rfl
  · rw [hall hgone]
  · have hno : ∀ x ∈ w.docker, p x = false := by
      intro x hx
      rw [← Bool.not_eq_true]
      intro hpick
      have hm : x.setState s halted ∈ setStates p s halted w.docker := by
        refine List.mem_map.mpr ⟨x, hx, ?_⟩
        rw [if_pos hpick]
      have := hgone _ hm
      rw [hstate, hpick] at this
      cases this
    have hsame : setStates p s halted w.docker = w.docker := by
      refine (List.map_congr_left fun x hx => ?_).trans (List.map_id _)
      rw [if_neg (by rw [hno x hx]; decide)]
      rfl
    rw [hall hno, hsame]
  · rfl

theorem sem_stopped {container : ContainerRef} {grace : Int} {r : Except String Unit}
    (hs : sem nodeId (.stopContainer container grace) w r w') (hgone : ∀ x ∈ w'.docker, container.picks x = false) :
    r = .ok () ∧ w' = { w with docker := w.docker.filter (!container.picks ·) } := by
  obtain ⟨hr, hs⟩ := hs
  refine ⟨hr, removed_eq hgone (hs.imp_right (Or.imp_left fun he => ⟨_, _, he⟩)) fun x s halted => ?_⟩
  cases container <;> rfl

theorem sem_removed {id : String} {r : Except String Unit} (hs : sem nodeId (.removeContainer id) w r w')
    (hgone : ∀ x ∈ w'.docker, hasId id x = false) : r = .ok () ∧ w' = { w with docker := w.docker.filter (!hasId id ·) } :=
  ⟨hs.1, removed_eq hgone (hs.2.imp_right .inr) fun _ _ _ => rfl⟩

end Recalled

end Agent

end LaunchPad.Agent
