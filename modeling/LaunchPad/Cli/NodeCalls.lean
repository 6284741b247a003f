/-
  LaunchPad.Cli.NodeCalls — the calls by which commands create and repair nodes, and the
  functions of `aws/ec2.ts` that they share.

  A command is a program over these calls. What a call does is said where the commands are:
  each of these modules is about another part of the account.
-/
import LaunchPad.Lib.Prog
import LaunchPad.Shared.Sizing
import LaunchPad.Shared.Registry

namespace LaunchPad.Cli.NodeCalls

open Lib

/-! ## Records -/

/-- `NodeRegistryEntrySchema`, with the fields that only a command reads. -/
structure NodeRecord extends NodeRegistryEntry where
  instanceType : String
  region : String
  availabilityZone : Option String
  publicIp : Option String
  iamInstanceProfile : Option String
  iamUserName : Option String := none
  agentId : String
  agentVersion : Option String
  agentType : String
  createdAt : String
  createdBy : String
  deriving DecidableEq, Repr

def agentIdForNode (nodeId : String) : String := "agent-" ++ nodeId

def nodeUsesElasticIp : NodeRole → Bool
  | .edge | .both => true
  | .app => false

structure NodeEnv where
  bucket : String
  region : String
  clusterId : String
  callerArn : String
  deriving DecidableEq, Repr

inductive AmiBootstrapMode
  | full
  | golden
  deriving DecidableEq, Repr

/-- An error of AWS, by its name. -/
structure AwsFailure where
  name : String
  deriving DecidableEq, Repr

inductive NodeError
  | cli (message : String)
  | aws (e : AwsFailure)
  deriving DecidableEq, Repr

/-! ## Calls -/

structure InstanceNetwork where
  publicIp : Option String
  privateIp : Option String
  availabilityZone : Option String
  deriving DecidableEq, Repr

structure NodeEip where
  allocationId : String
  publicIp : String
  deriving DecidableEq, Repr

inductive Ec2Observation
  | running (network : InstanceNetwork)
  | stopped
  | transitional (state : String)
  | missing
  deriving DecidableEq, Repr

/-- `RunInstancesCommandInput`, but for what is the same for all nodes. -/
structure RunNodeParams where
  imageId : String
  instanceType : String
  agentBinaryUrl : Option String
  securityGroupId : String
  instanceProfileName : String
  keyName : Option String
  deriving DecidableEq, Repr

structure SecurityGroupOptions where
  name : String
  legacyName : String
  vpcId : String
  sshCidr : Option String
  edgeSecurityGroupId : Option String
  deriving DecidableEq, Repr

inductive Call
  | describeInstanceTypeCapacity (instanceType : String)
  | resolveLatestAl2023Ami (architecture : NodeArchitecture)
  | getDefaultVpcId
  | uploadAgentBinary (architecture : NodeArchitecture)
  | presignAgentBinary
  | ensureNodeIam
  | getNode (nodeId : String)
  | ensureSecurityGroup (options : SecurityGroupOptions)
  | runInstances (input : RunNodeParams)
  | sleep
  | waitUntilInstanceRunning (instanceId : String)
  | describeInstance (instanceId : String)
  | findNodeEip
  | allocateAddress
  | ensureEipTags (allocationId : String)
  | associateAddress (allocationId instanceId : String)
  | nowIso
  /-- With `ifNoneMatch: "*"`. -/
  | putNode (entry : NodeRecord)
  | ensureClusterConfig
  | adoptEdgeIfUnset
  | terminateInstances (instanceId : String)
  | waitUntilInstanceTerminated (instanceId : String)
  | describeAddress (allocationId : String)
  | disassociateAddress (associationId : String)
  | releaseAddress (allocationId : String)
  | describeInstancesById (instanceId : String)
  | startInstances (instanceId : String)
  | stopInstances (instanceId : String)
  | waitUntilInstanceStopped (instanceId : String)
  | modifyInstanceType (instanceId instanceType : String)
  /-- `putNode` without the condition. -/
  | updateNode (entry : NodeRecord)

abbrev Answer : Call → Type
  | .describeInstanceTypeCapacity _ => Option InstanceCapacity
  | .resolveLatestAl2023Ami _ | .getDefaultVpcId | .presignAgentBinary | .ensureNodeIam | .ensureSecurityGroup _ =>
    Except AwsFailure String
  | .getNode _ => Except AwsFailure (Option NodeRecord)
  | .runInstances _ => Except AwsFailure (Option String)
  | .describeInstance _ => Except AwsFailure InstanceNetwork
  | .describeInstancesById _ => Except AwsFailure Ec2Observation
  | .findNodeEip | .allocateAddress => Except AwsFailure (Option NodeEip)
  | .describeAddress _ => Except AwsFailure (Option String)
  | .sleep => Unit
  | .nowIso => String
  | _ => Except AwsFailure Unit

abbrev call (o : Call) : Prog Answer (Answer o) := Prog.cmd o

abbrev Action (α : Type) := ExceptT NodeError (Prog Answer) α

def lift {α : Type} (p : Prog Answer (Except AwsFailure α)) : Action α :=
  ExceptT.mk (do
    match ← p with
    | .ok a => return .ok a
    | .error e => return .error (.aws e))

/-! ## Parts of commands -/

/-- The given value, or the answer of a call. -/
def orCall (given : Option String) (o : Prog Answer (Except AwsFailure String)) : Action String :=
  match given with
  | some v => return v
  | none => lift o

/-- `MAX_CONSISTENCY_RETRIES`. -/
def maxConsistencyRetries : Nat := 6

/-- A fresh profile that is not visible yet. -/
def retriable (e : AwsFailure) : Bool := e.name == "InvalidParameterValue" || e.name == "InvalidIamInstanceProfile"

def launchOnce (input : RunNodeParams) (again : AwsFailure → Action String) : Action String := do
  match ← ExceptT.lift (call (.runInstances input)) with
  | .ok (some id) => return id
  | .ok none => throw (.cli "RunInstances returned no instance id")
  | .error e => again e

/-- The launch, with the tries that are left. -/
def runNode (input : RunNodeParams) : Nat → Action String
  | 0 => launchOnce input fun e => throw (.aws e)
  | tries + 1 => launchOnce input fun e =>
    if retriable e then do
      ExceptT.lift (call .sleep)
      runNode input tries
    else throw (.aws e)

def waitForRunning (instanceId : String) : Action InstanceNetwork := do
  lift (call (.waitUntilInstanceRunning instanceId))
  lift (call (.describeInstance instanceId))

def ensureEipForInstance (instanceId : String) : Action NodeEip := do
  let eip ← (do
    match ← lift (call .findNodeEip) with
    | some eip => do
      lift (call (.ensureEipTags eip.allocationId))
      return eip
    | none => do
      match ← lift (call .allocateAddress) with
      | some eip => return eip
      | none => throw (.cli "failed to allocate an Elastic IP"))
  lift (call (.associateAddress eip.allocationId instanceId))
  return eip

def isEc2InstanceNotFound (e : AwsFailure) : Bool := e.name == "InvalidInstanceID.NotFound" || e.name == "InvalidInstanceId"

def terminateInstance (instanceId : String) : Action Unit := do
  match ← ExceptT.lift (call (.terminateInstances instanceId)) with
  | .error e => if isEc2InstanceNotFound e then return () else throw (.aws e)
  | .ok () =>
    match ← ExceptT.lift (call (.waitUntilInstanceTerminated instanceId)) with
    | .error e => if isEc2InstanceNotFound e then return () else throw (.aws e)
    | .ok () => return ()

def releaseEip (allocationId : String) : Action Unit :=
  tryCatch (do
    match ← lift (call (.describeAddress allocationId)) with
    | some associationId => lift (call (.disassociateAddress associationId))
    | none => pure ()
    lift (call (.releaseAddress allocationId)))
  fun e => if e = .aws ⟨"InvalidAllocationID.NotFound"⟩ then return () else throw e

/-- Errors of these calls are left to others. -/
def bestEffort (a : Action Unit) : Action Unit := tryCatch a fun _ => return ()

/-! ## The calls of a program -/

section Parts

variable {α : Type} {P : Call → Prop}

theorem uses_call {o : Call} (ho : P o) : Uses P (call o) := ⟨ho, fun _ => trivial⟩

theorem uses_lift {q : Prog Answer (Except AwsFailure α)} (h : Uses P q) : Uses P (lift q).run := by
  refine h.bind ?_
  rintro (e | a)
  · trivial
  · trivial

theorem uses_tryCatch {a : Action α} {h : NodeError → Action α} (ha : Uses P a.run) (hh : ∀ e, Uses P (h e).run) :
    Uses P (tryCatch a h).run := by
  refine ha.bind ?_
  rintro (e | b)
  · exact hh e
  · trivial

end Parts

end LaunchPad.Cli.NodeCalls
