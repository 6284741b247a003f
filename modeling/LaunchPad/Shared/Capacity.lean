/-
  LaunchPad.Shared.Capacity — the admission check of a node (`shared/src/capacity.ts`
  `checkCapacity`, `candidate-nodes.ts` `demandsOf`): the steady demand of the complete set
  of services with the largest single rollout surge on top, for CPU and memory apart.

  Proved:
  - `checkCapacity_ok`: the check passes exactly when both total loads peak within the
    allocatable.
-/
import LaunchPad.Lib.Load
import LaunchPad.Shared.Registry
import LaunchPad.Shared.Schema
import Mathlib.Algebra.Order.Group.Defs

namespace LaunchPad

open Lib

structure CapacityServiceDemand where
  project : String
  service : String
  cpu : Int
  memory : Int
  surgeCpu : Int := 0
  surgeMemory : Int := 0
  deriving DecidableEq, Repr

structure CapacityCheckInput where
  totalCpu : Int
  totalMemory : Int
  reservedCpu : Int
  reservedMemory : Int
  services : List CapacityServiceDemand

structure CapacityCheckResult where
  ok : Bool
  allocatableCpu : Int
  allocatableMemory : Int
  usedCpu : Int
  usedMemory : Int
  steadyCpu : Int
  steadyMemory : Int
  surgeCpu : Int
  surgeMemory : Int
  cpuOverBy : Int
  memoryOverBy : Int
  deriving DecidableEq, Repr

def checkCapacity (input : CapacityCheckInput) : CapacityCheckResult :=
  let allocatableCpu := input.totalCpu - input.reservedCpu
  let allocatableMemory := input.totalMemory - input.reservedMemory
  let steadyCpu := input.services.foldl (fun sum s => sum + s.cpu) 0
  let steadyMemory := input.services.foldl (fun sum s => sum + s.memory) 0
  let surgeCpu := input.services.foldl (fun m s => max m s.surgeCpu) 0
  let surgeMemory := input.services.foldl (fun m s => max m s.surgeMemory) 0
  let usedCpu := steadyCpu + surgeCpu
  let usedMemory := steadyMemory + surgeMemory
  let cpuOverBy := usedCpu - allocatableCpu
  let memoryOverBy := usedMemory - allocatableMemory
  { ok := decide (cpuOverBy ≤ 0) && decide (memoryOverBy ≤ 0)
    allocatableCpu, allocatableMemory, usedCpu, usedMemory, steadyCpu, steadyMemory, surgeCpu, surgeMemory
    cpuOverBy, memoryOverBy }

/-- Each service's demand, times its replicas, and what a rollout of it adds. -/
def demandsOf (services : List ServiceConfig) : List CapacityServiceDemand :=
  services.map fun s =>
    let surge := min s.rollout.maxSurge s.replicas
    { project := s.project, service := s.service, cpu := s.cpu * s.replicas, memory := s.memory * s.replicas
      surgeCpu := s.cpu * surge, surgeMemory := s.memory * surge }

/-! ## As loads -/

def CapacityServiceDemand.cpuLoad (d : CapacityServiceDemand) : Load Int := ⟨d.cpu, d.surgeCpu⟩
def CapacityServiceDemand.memoryLoad (d : CapacityServiceDemand) : Load Int := ⟨d.memory, d.surgeMemory⟩

/-- Nothing yet. -/
def idle : Load Int := ⟨0, 0⟩

def cpuTotal (ds : List CapacityServiceDemand) : Load Int := Load.total idle (ds.map (·.cpuLoad))
def memoryTotal (ds : List CapacityServiceDemand) : Load Int := Load.total idle (ds.map (·.memoryLoad))

/-- What an accepted service demands is positive, or at least not negative. -/
theorem demandsOf_nonneg {services : List ServiceConfig} (h : ∀ c ∈ services, Sized c) {d : CapacityServiceDemand}
    (hd : d ∈ demandsOf services) : 0 < d.cpuLoad.steady ∧ 0 < d.memoryLoad.steady := by
  obtain ⟨c, hc, rfl⟩ := List.mem_map.mp hd
  have hsized := h c hc
  constructor
  · exact Int.mul_pos hsized.cpu hsized.replicas
  · exact Int.mul_pos hsized.memory hsized.replicas

theorem totals_nonneg {services : List ServiceConfig} (h : ∀ c ∈ services, Sized c) :
    (0 ≤ (cpuTotal (demandsOf services)).steady ∧ 0 ≤ (cpuTotal (demandsOf services)).peak) ∧
      0 ≤ (memoryTotal (demandsOf services)).steady ∧ 0 ≤ (memoryTotal (demandsOf services)).peak := by
  have hcpu : ∀ x ∈ (demandsOf services).map (·.cpuLoad), 0 ≤ x.steady := by
    intro x hx
    obtain ⟨d, hd, rfl⟩ := List.mem_map.mp hx
    exact (demandsOf_nonneg h hd).1.le
  have hmemory : ∀ x ∈ (demandsOf services).map (·.memoryLoad), 0 ≤ x.steady := by
    intro x hx
    obtain ⟨d, hd, rfl⟩ := List.mem_map.mp hx
    exact (demandsOf_nonneg h hd).2.le
  exact ⟨⟨Load.steady_le_total hcpu, Load.peak_le_total hcpu⟩, Load.steady_le_total hmemory, Load.peak_le_total hmemory⟩

/-- Any service on top of a load raises its peak. -/
theorem peak_lt_demands (a : Load Int) {services : List ServiceConfig} (h : ∀ c ∈ services, Sized c) {c : ServiceConfig}
    (hc : c ∈ services) : a.peak < (Load.total a ((demandsOf services).map (·.cpuLoad))).peak := by
  have hne : demandsOf services ≠ [] := by
    unfold demandsOf
    rw [ne_eq, List.map_eq_nil_iff]
    exact List.ne_nil_of_mem hc
  obtain ⟨d, hd⟩ := List.exists_mem_of_ne_nil _ hne
  refine Load.peak_lt_total (List.mem_map.mpr ⟨d, hd, rfl⟩) (demandsOf_nonneg h hd).1 ?_
  intro x hx
  obtain ⟨d', hd', rfl⟩ := List.mem_map.mp hx
  exact (demandsOf_nonneg h hd').1.le

theorem checkCapacity_ok {input : CapacityCheckInput} :
    (checkCapacity input).ok = true ↔
      (cpuTotal input.services).peak ≤ input.totalCpu - input.reservedCpu ∧
        (memoryTotal input.services).peak ≤ input.totalMemory - input.reservedMemory := by
  simp only [checkCapacity, Bool.and_eq_true, decide_eq_true_eq, cpuTotal, memoryTotal, Load.peak, Load.total_steady,
    Load.total_surge, List.foldl_map, idle, CapacityServiceDemand.cpuLoad, CapacityServiceDemand.memoryLoad]
  omega

end LaunchPad
