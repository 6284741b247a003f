/-
  LaunchPad.Shared.Sizing — the instance types a node can have (`shared/src/capacity.ts`,
  the table) and the choice of one for a demand (`smallestInstanceTypeFor`).

  The candidates stand by CPU, memory, family and name. `localeCompare` decides between two
  names of one size only, of which the table has two pairs (m5 and m6i); it is the order of
  texts here.

  Proved:
  - `sized_passes`: a type has room for a peak exactly when the admission check passes on it.
  - `smallest_spec`, `smallest_none`: the choice is the first candidate with room, and there
    is none only when no candidate has room.
-/
import LaunchPad.Lib.SortBy
import LaunchPad.Shared.Capacity
import Mathlib.Data.Prod.Lex
import Mathlib.Data.String.Basic

namespace LaunchPad

open Lib

def cpuSharesPerVcpu : Int := 1024
def defaultReservedCpu : Int := 256
def defaultReservedMemory : Int := 512

structure InstanceCapacity where
  totalCpu : Int
  totalMemory : Int
  architecture : NodeArchitecture
  deriving DecidableEq, Repr

/-- A known instance type. -/
structure SizedType where
  instanceType : String
  capacity : InstanceCapacity
  deriving DecidableEq, Repr

/-- `rawToCapacity`. -/
def sizedType (instanceType : String) (vcpu memoryMiB : Int) (architecture : NodeArchitecture) : SizedType :=
  ⟨instanceType, vcpu * cpuSharesPerVcpu, memoryMiB, architecture⟩

/-- `INSTANCE_CAPACITY_TABLE`. -/
def instanceTypes : List SizedType :=
  [sizedType "t4g.nano" 2 512 .arm64, sizedType "t4g.micro" 2 1024 .arm64, sizedType "t4g.small" 2 2048 .arm64,
   sizedType "t4g.medium" 2 4096 .arm64, sizedType "t4g.large" 2 8192 .arm64, sizedType "t4g.xlarge" 4 16384 .arm64,
   sizedType "t3.nano" 2 512 .x86_64, sizedType "t3.micro" 2 1024 .x86_64, sizedType "t3.small" 2 2048 .x86_64,
   sizedType "t3.medium" 2 4096 .x86_64, sizedType "t3.large" 2 8192 .x86_64, sizedType "t3.xlarge" 4 16384 .x86_64,
   sizedType "t3a.micro" 2 1024 .x86_64, sizedType "t3a.small" 2 2048 .x86_64, sizedType "t3a.medium" 2 4096 .x86_64,
   sizedType "t3a.large" 2 8192 .x86_64, sizedType "t2.micro" 1 1024 .x86_64, sizedType "t2.small" 1 2048 .x86_64,
   sizedType "t2.medium" 2 4096 .x86_64, sizedType "m5.large" 2 8192 .x86_64, sizedType "m5.xlarge" 4 16384 .x86_64,
   sizedType "m6i.large" 2 8192 .x86_64, sizedType "m6i.xlarge" 4 16384 .x86_64, sizedType "c5.large" 2 4096 .x86_64,
   sizedType "c5.xlarge" 4 8192 .x86_64]

def lookupInstanceCapacity (instanceType : String) : Option InstanceCapacity :=
  (instanceTypes.find? (·.instanceType = instanceType)).map (·.capacity)

/-! ## The choice -/

structure SmallestTypeOptions where
  reservedCpu : Int := defaultReservedCpu
  reservedMemory : Int := defaultReservedMemory
  floor : String := "t4g.micro"
  architecture : Option NodeArchitecture := none
  deriving DecidableEq, Repr

def familyRank (instanceType : String) : Nat :=
  if "t4g.".isPrefixOf instanceType then 0
  else if "t3.".isPrefixOf instanceType then 1
  else if "t3a.".isPrefixOf instanceType then 2
  else if "t2.".isPrefixOf instanceType then 3
  else 4

/-- The order of the candidates: by CPU, memory, family and name. -/
def sizeKey (t : SizedType) : Int ×ₗ Int ×ₗ Nat ×ₗ String :=
  toLex (t.capacity.totalCpu, toLex (t.capacity.totalMemory, toLex (familyRank t.instanceType, t.instanceType)))

/-- The types of the wanted architecture, and at least as large as the floor. -/
def eligible (opts : SmallestTypeOptions) : List SizedType :=
  let floorCap := lookupInstanceCapacity opts.floor
  let targetArchitecture := opts.architecture.or (floorCap.map (·.architecture))
  (instanceTypes.filter fun t => targetArchitecture.all (t.capacity.architecture == ·)).filter fun t =>
    floorCap.all fun f => decide (t.capacity.totalCpu ≥ f.totalCpu) && decide (t.capacity.totalMemory ≥ f.totalMemory)

def smallestInstanceTypeFor (cpuShares memoryMb : Int) (opts : SmallestTypeOptions) : Option SizedType :=
  ((eligible opts).mergeSort fun a b => decide (sizeKey a ≤ sizeKey b)).find? fun c =>
    decide (c.capacity.totalCpu - opts.reservedCpu ≥ cpuShares) &&
      decide (c.capacity.totalMemory - opts.reservedMemory ≥ memoryMb)

/-! ## What it chooses -/

/-- The admission check on a node of that type. -/
def passesOn (t : SizedType) (opts : SmallestTypeOptions) (services : List CapacityServiceDemand) : Bool :=
  (checkCapacity {
    totalCpu := t.capacity.totalCpu
    totalMemory := t.capacity.totalMemory
    reservedCpu := opts.reservedCpu
    reservedMemory := opts.reservedMemory
    services }).ok

section Choice

variable {services : List CapacityServiceDemand} {opts : SmallestTypeOptions}

theorem sized_passes (t : SizedType) : (decide (t.capacity.totalCpu - opts.reservedCpu ≥ (cpuTotal services).peak) &&
      decide (t.capacity.totalMemory - opts.reservedMemory ≥ (memoryTotal services).peak)) = passesOn t opts services := by
  rw [Bool.eq_iff_iff, passesOn, checkCapacity_ok, Bool.and_eq_true, decide_eq_true_iff, decide_eq_true_iff]

/-- The choice has room for the services, and no candidate before it has. -/
theorem smallest_spec {c : SizedType}
    (h : smallestInstanceTypeFor (cpuTotal services).peak (memoryTotal services).peak opts = some c) :
    c ∈ eligible opts ∧ passesOn c opts services = true ∧
      ∀ t ∈ eligible opts, sizeKey t < sizeKey c → passesOn t opts services = false := by
  unfold smallestInstanceTypeFor at h
  simp only [sized_passes] at h
  exact SortBy.find_sort h

/-- There is none only when no candidate has room. -/
theorem smallest_none : smallestInstanceTypeFor (cpuTotal services).peak (memoryTotal services).peak opts = none ↔
    ∀ t ∈ eligible opts, passesOn t opts services = false := by
  unfold smallestInstanceTypeFor
  simp only [sized_passes]
  exact SortBy.find_sort_none

end Choice

end LaunchPad
