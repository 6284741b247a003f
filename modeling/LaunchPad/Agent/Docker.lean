/-
  LaunchPad.Agent.Docker — the containers of a node (`agent-rust/src/docker.rs`): what
  `docker inspect` reports of a managed container, the names derived from a service, the
  config stamp (`types.rs` `service_config_stamp`), and what `docker run` leaves behind.

  Labels travel as text; `launched` states a new container's report directly, as
  `build_run_args` writes the labels and `parse_inspect` reads them back. A list sorted by
  a `BTreeMap` key is kept as a `SortedMap`.

  Proved:
  - `mem_replicasOf`: the replicas `inspect` groups under a key are the containers
    whose project and service give that key.
  - `replicasOf_perm`: that group is a permutation of those containers' reports.
  - `group_eq`: each group stands once in the map.
-/
import LaunchPad.Shared.Types
import Mathlib.Data.List.Basic
import Mathlib.Data.String.Basic

namespace LaunchPad.Agent

open Lib

/-- `State.Status` of `docker inspect`; `unknown` when the field is absent. -/
inductive ContainerState where
  | created
  | running
  | paused
  | restarting
  | removing
  | exited
  | dead
  | unknown
  deriving DecidableEq, Repr

/-- A managed container as `docker inspect` reports it. -/
structure ManagedReplica where
  id : String
  name : String
  index : Int
  state : ContainerState
  project : String
  service : String
  image : String
  cpu : Int
  memory : Int
  hostPort : Option Int
  configStamp : String
  cronFireMs : Option Int
  jobRunId : Option String
  exitCode : Option Int
  deriving DecidableEq, Repr

def ManagedReplica.key (r : ManagedReplica) : String := serviceKey r.project r.service

def ManagedReplica.running (r : ManagedReplica) : Bool := r.state == .running

/-! ## Derived names -/

def containerName (project service : String) (index : Int) : String :=
  "launchpad_" ++ project ++ "_" ++ service ++ "_" ++ toString index

def volumeName (project service name : String) : String :=
  "launchpadvol_" ++ project ++ "_" ++ service ++ "_" ++ name

/-! ## The config stamp -/

def hexDigit (n : Nat) : Char := "0123456789abcdef".toList.getD n '0'

/-- A character inside a JSON string, escaped as `serde_json` does. -/
def jsonChar (c : Char) : List Char :=
  if c = '"' then ['\\', '"']
  else if c = '\\' then ['\\', '\\']
  else if c.toNat = 8 then ['\\', 'b']
  else if c.toNat = 9 then ['\\', 't']
  else if c.toNat = 10 then ['\\', 'n']
  else if c.toNat = 12 then ['\\', 'f']
  else if c.toNat = 13 then ['\\', 'r']
  else if c.toNat < 32 then ['\\', 'u', '0', '0', hexDigit (c.toNat / 16), hexDigit (c.toNat % 16)]
  else [c]

def jsonString (s : String) : String := "\"" ++ String.ofList (s.toList.flatMap jsonChar) ++ "\""

def jsonObject (fields : List (String × String)) : String :=
  "\x7b" ++ String.intercalate "," (fields.map fun f => jsonString f.1 ++ ":" ++ f.2) ++ "\x7d"

def jsonArray (items : List String) : String := "[" ++ String.intercalate "," items ++ "]"

/-- `service_config_stamp`: env, restartAt, secret references and volumes, the lists by
    name; the volumes are left out when there are none. -/
def serviceConfigStamp (c : ServiceConfig) : String :=
  let refs := c.secretRefs.mergeSort fun a b => decide (a.name ≤ b.name)
  let volumes := c.volumes.mergeSort fun a b => decide (a.name ≤ b.name)
  jsonObject <|
    [("env", jsonObject (c.env.map fun e => (e.1, jsonString e.2))),
     ("restartAt", match c.restartAt with | some s => jsonString s | none => "null"),
     ("secretRefs", jsonArray (refs.map fun r => jsonObject [("name", jsonString r.name), ("ssm", jsonString r.ssm)]))]
    ++ if volumes.isEmpty then []
       else [("volumes", jsonArray (volumes.map fun v =>
          jsonObject [("name", jsonString v.name), ("path", jsonString v.path)]))]

/-! ## Containers -/

/-- A managed container: its report, the volumes it mounts, whether docker restarts it on
    its own (`--restart unless-stopped`), and whether it was stopped by command. -/
structure Container where
  replica : ManagedReplica
  mounts : List String
  restarts : Bool
  halted : Bool := false
  deriving DecidableEq, Repr

/-- The volumes `build_run_args` mounts. -/
def mountsOf (c : ServiceConfig) : List String := c.volumes.map fun v => volumeName c.project c.service v.name

/-- The container `docker run` makes for one replica of `c` (`RunSpec`, `build_run_args`),
    in state `state`. The fire label wins over the job label; a zero fire and an empty job
    id read back as absent. -/
def launched (c : ServiceConfig) (index : Int) (hostPort : Option Int) (cronFireMs : Option Int)
    (jobRunId : Option String) (id : String) (state : ContainerState) : Container where
  replica :=
    { id, name := containerName c.project c.service index, index, state
      project := c.project, service := c.service, image := c.image, cpu := c.cpu, memory := c.memory
      hostPort := if c.ingress.isSome then hostPort else none
      configStamp := serviceConfigStamp c
      cronFireMs := cronFireMs.filter (· ≠ 0)
      jobRunId := if cronFireMs.isSome then none else jobRunId.filter (· ≠ "")
      exitCode := none }
  mounts := mountsOf c
  restarts := cronFireMs.isNone && jobRunId.isNone

/-! ## `inspect_managed` -/

/-- The managed replicas by `project/service`, each group by index. -/
abbrev Live := SortedMap String (List ManagedReplica)

/-- `map.entry(key).or_default().push(r)`. -/
def pushReplica (m : Live) (r : ManagedReplica) : Live :=
  SortedMap.insert r.key ((SortedMap.get r.key m).getD [] ++ [r]) m

/-- Containers without a project or service label are skipped. -/
def labelled (r : ManagedReplica) : Bool := r.project ≠ "" && r.service ≠ ""

def byIndex (l : List ManagedReplica) : List ManagedReplica := l.mergeSort fun a b => decide (a.index ≤ b.index)

def inspectManaged (docker : List Container) : Live :=
  (((docker.map (·.replica)).filter labelled).foldl pushReplica []).map fun e => (e.1, byIndex e.2)

/-- `actual.get(&key)`, an absent key standing for no replicas. -/
def replicasOf (live : Live) (key : String) : List ManagedReplica := (SortedMap.get key live).getD []

/-- One labelled container is its group. -/
theorem inspectManaged_singleton {x : Container} (h : labelled x.replica = true) :
    inspectManaged [x] = [(x.replica.key, [x.replica])] := by
  simp [inspectManaged, h, pushReplica, SortedMap.insert, SortedMap.get, byIndex]

theorem foldl_pushReplica (rs : List ManagedReplica) (m : Live) (key : String) :
    replicasOf (rs.foldl pushReplica m) key = replicasOf m key ++ rs.filter (·.key == key) := by
  induction rs generalizing m with
  | nil => simp
  | cons r rs ih =>
    rw [List.foldl_cons, ih]
    by_cases e : r.key = key
    · subst e
      simp [replicasOf, pushReplica, SortedMap.get_insert_self]
    · have : SortedMap.get key (pushReplica m r) = SortedMap.get key m :=
        SortedMap.get_insert_ne (Ne.symm e) _ _
      simp [replicasOf, this, e]

/-- Every replica of every group is a container's report. -/
theorem mem_inspectManaged {docker : List Container} {key : String} {rs : List ManagedReplica} {r : ManagedReplica}
    (h : (key, rs) ∈ inspectManaged docker) (hr : r ∈ rs) : ∃ x ∈ docker, x.replica = r := by
  have hfold : ∀ (l : List ManagedReplica) (m : Live), (∀ r ∈ l, ∃ x ∈ docker, x.replica = r) →
      (∀ e ∈ m, ∀ r ∈ e.2, ∃ x ∈ docker, x.replica = r) →
      ∀ e ∈ l.foldl pushReplica m, ∀ r ∈ e.2, ∃ x ∈ docker, x.replica = r := by
    intro l
    induction l with
    | nil => exact fun m _ hm => hm
    | cons r l ih =>
      intro m hl hm
      refine ih _ (fun r' hr' => hl r' (List.mem_cons_of_mem _ hr')) ?_
      intro e he r' hr'
      rcases SortedMap.mem_insert he with rfl | he
      · rcases List.mem_append.mp hr' with hr' | hr'
        · cases hg : SortedMap.get r.key m with
          | none => rw [hg] at hr'; cases hr'
          | some old => rw [hg] at hr'; exact hm _ (SortedMap.get_mem hg) r' hr'
        · rw [List.mem_singleton.mp hr']
          exact hl r (List.mem_cons_self ..)
      · exact hm e he r' hr'
  obtain ⟨e, he, hsame⟩ := List.mem_map.mp h
  cases hsame
  refine hfold _ [] ?_ (fun _ h => by cases h) e he r ((List.mergeSort_perm _ _).mem_iff.mp hr)
  intro r hr
  obtain ⟨x, hx, rfl⟩ := List.mem_map.mp (List.mem_filter.mp hr).1
  exact ⟨x, hx, rfl⟩

/-- The group of a key, up to order: the labelled containers of that key. -/
theorem replicasOf_perm (docker : List Container) (key : String) :
    (replicasOf (inspectManaged docker) key).Perm
      (((docker.map (·.replica)).filter labelled).filter (·.key == key)) := by
  have h := foldl_pushReplica ((docker.map (·.replica)).filter labelled) [] key
  unfold replicasOf inspectManaged
  rw [SortedMap.get_mapValues fun _ => byIndex]
  simp only [replicasOf, SortedMap.get, Option.getD_none, List.nil_append] at h
  rw [← h]
  cases SortedMap.get key (((docker.map (·.replica)).filter labelled).foldl pushReplica []) with
  | none => simp
  | some l => exact List.mergeSort_perm l _

theorem mem_replicasOf {docker : List Container} {key : String} {r : ManagedReplica} :
    r ∈ replicasOf (inspectManaged docker) key ↔
      (∃ c ∈ docker, c.replica = r) ∧ labelled r = true ∧ r.key = key := by
  rw [(replicasOf_perm docker key).mem_iff]
  simp only [List.mem_filter, List.mem_map, beq_iff_eq]
  tauto

theorem inspectManaged_sorted (docker : List Container) : SortedMap.Sorted (inspectManaged docker) := by
  have hfold : ∀ (l : List ManagedReplica) (m : Live), SortedMap.Sorted m → SortedMap.Sorted (l.foldl pushReplica m) := by
    intro l
    induction l with
    | nil => exact fun m h => h
    | cons r l ih => exact fun m h => ih _ (h.insert _ _)
  exact (hfold _ [] List.Pairwise.nil).mapValues fun _ => byIndex

theorem group_eq {docker : List Container} {key : String} {rs : List ManagedReplica}
    (h : (key, rs) ∈ inspectManaged docker) : rs = replicasOf (inspectManaged docker) key := by
  unfold replicasOf
  rw [SortedMap.get_of_mem (inspectManaged_sorted docker).nodup h]
  rfl

end LaunchPad.Agent
