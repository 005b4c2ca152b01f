/-
Module: Rpi4Kernel.Proofs.DriverManagerSpec
Layer: Proofs
Purpose: The driver manager only appends to its vector, which then is the list of the drivers loaded.
  After any calls every driver loaded is announced and counted, and each `startAll` has started the
  drivers loaded before it, once each and in their order.
Trusted boundary: none (fully proved)
Main exports: DriverManager.Loaded, DriverManager.starts, DriverManager.driverCalls
-/
import Rpi4Kernel.Drivers.DriverManager
import Rpi4Kernel.Proofs.VectorSpec

namespace Rpi4Kernel.Drivers

open Rpi4Kernel.Stdlib

namespace DriverManager

variable {σ : Type} {getName : Driver → String} {driverInit : Driver → σ → σ} {m : DriverManager σ}
  {ds : List Driver}

/-- The drivers `ds` were loaded, and nothing else changed. -/
structure Loaded (getName : Driver → String) (devices : σ) (m : DriverManager σ) (ds : List Driver) :
    Prop where
  holds : m.drivers.Holds pointerType (ds.map some)
  printed_eq : m.printed = ds.map fun d => loadedLine (getName d)
  devices_eq : m.devices = devices

theorem loaded_init (devices : σ) : Loaded getName devices (init devices) [] where
  holds := Vector.Holds.empty pointerType
  printed_eq := rfl
  devices_eq := rfl

namespace Loaded

variable {devices : σ}

theorem size_eq (h : Loaded getName devices m ds) : m.drivers.mySize = ds.length := by
  rw [← h.holds.length_eq, List.length_map]

/-- Another driver is loaded. The vector grows by five pointers when it is full. -/
theorem load (h : Loaded getName devices m ds) (d : Driver) (hcount : 8 * (ds.length + 5) < 2 ^ 32) :
    ∃ m', m.load getName d = some m' ∧ Loaded getName devices m' (ds ++ [d]) := by
  have hsize := h.size_eq
  have hroom : m.drivers.mySize < m.drivers.myCapacity ∨
      pointerType.fits (m.drivers.myCapacity + 5) := by
    by_cases hfull : m.drivers.myCapacity ≤ m.drivers.mySize
    · right
      simp only [ElementType.fits, pointerType]
      omega
    · exact .inl (not_le.mp hfull)
  obtain ⟨drivers, hpush, hdrivers⟩ := h.holds.pushBack hroom d
  refine ⟨⟨drivers, m.printed ++ [loadedLine (getName d)], m.devices⟩, ?_, ?_, ?_, h.devices_eq⟩
  · simp only [DriverManager.load, hpush, Option.bind_eq_bind, Option.bind_some]
  · rw [List.map_append]
    exact hdrivers
  · rw [List.map_append, h.printed_eq]
    rfl

end Loaded

theorem startLoop_map_some (devices : σ) :
    startLoop driverInit devices (ds.map some) =
      some (ds.foldl (fun devices d => driverInit d devices) devices) := by
  induction ds generalizing devices with
  | nil => rfl
  | cons d ds ih =>
      rw [List.map_cons, startLoop, ih, List.foldl_cons]

theorem Loaded.startAll {devices : σ} (h : Loaded getName devices m ds) :
    m.startAll driverInit =
      some { m with devices := ds.foldl (fun devices d => driverInit d devices) devices } := by
  simp only [DriverManager.startAll, h.holds.iterate_eq, h.devices_eq, startLoop_map_some,
    Option.bind_eq_bind, Option.bind_some]

theorem Loaded.getDriversCount {devices : σ} (h : Loaded getName devices m ds)
    (hcount : 8 * ds.length < 2 ^ 32) : m.getDriversCount = ds.length := by
  unfold DriverManager.getDriversCount
  have hsize := h.size_eq
  have hlow : -((2 ^ 32 : ℕ) / 2 : Int) ≤ m.drivers.mySize := by omega
  have hhigh : (m.drivers.mySize : Int) < ((2 ^ 32 : ℕ) + 1) / 2 := by omega
  exact (Int.bmod_eq_of_le hlow hhigh).trans (congrArg Nat.cast hsize)

/-! ### Calls in any order -/

/-- The driver that a call loads. -/
def Call.loaded : Call → Option Driver
  | .load d | .loadAndStart d => some d
  | .startAll => none

/-- The drivers that the calls load, in their order. -/
def loads (calls : List Call) : List Driver := calls.filterMap Call.loaded

/-- The drivers that the calls start, in their order, where the drivers `ds` were loaded before. -/
def starts : List Driver → List Call → List Driver
  | _, [] => []
  | ds, .load d :: calls => starts (ds ++ [d]) calls
  | ds, .loadAndStart d :: calls => d :: starts (ds ++ [d]) calls
  | ds, .startAll :: calls => ds ++ starts ds calls

/-- The devices after some drivers have been started. -/
def startedDevices (driverInit : Driver → σ → σ) (ds : List Driver) (devices : σ) : σ :=
  ds.foldl (fun devices d => driverInit d devices) devices

/-- The calls load and start what they say. -/
theorem Loaded.calls {devices : σ} (h : Loaded getName devices m ds) {calls : List Call}
    (hcount : 8 * (ds.length + (loads calls).length + 4) < 2 ^ 32) :
    ∃ m', calls.foldlM (DriverManager.call getName driverInit) m = some m' ∧
      Loaded getName (startedDevices driverInit (starts ds calls) devices) m' (ds ++ loads calls) := by
  induction calls generalizing m ds devices with
  | nil =>
    refine ⟨m, rfl, ?_⟩
    rw [loads, List.filterMap_nil, List.append_nil]
    exact h
  | cons c calls ih =>
    have hafter : ∀ d, 8 * (ds.length + (loads calls).length + 5) < 2 ^ 32 →
        8 * ((ds ++ [d]).length + (loads calls).length + 4) < 2 ^ 32 := by
      intro d hlt
      rw [List.length_append, List.length_singleton]
      omega
    cases c with
    | load d =>
      have hloads : loads (.load d :: calls) = d :: loads calls := rfl
      rw [hloads, List.length_cons] at hcount
      obtain ⟨m₁, hload, h₁⟩ := h.load d (by omega)
      obtain ⟨m', hrest, h'⟩ := ih h₁ (hafter d (by omega))
      rw [List.append_assoc, List.singleton_append] at h'
      refine ⟨m', ?_, h'⟩
      rw [List.foldlM_cons, DriverManager.call, hload, Option.bind_eq_bind, Option.bind_some, hrest]
    | loadAndStart d =>
      have hloads : loads (.loadAndStart d :: calls) = d :: loads calls := rfl
      rw [hloads, List.length_cons] at hcount
      obtain ⟨m₁, hload, h₁⟩ := h.load d (by omega)
      have hstarted : Loaded getName (driverInit d devices)
        { m₁ with devices := driverInit d m₁.devices }
          (ds ++ [d]) := ⟨h₁.holds, h₁.printed_eq, by rw [h₁.devices_eq]⟩
      obtain ⟨m', hrest, h'⟩ := ih hstarted (hafter d (by omega))
      rw [List.append_assoc, List.singleton_append] at h'
      refine ⟨m', ?_, h'⟩
      rw [List.foldlM_cons, DriverManager.call, DriverManager.loadAndStart, hload, Option.bind_eq_bind,
        Option.bind_some]
      exact hrest
    | startAll =>
      have hstarted : Loaded getName (startedDevices driverInit ds devices)
          { m with devices := startedDevices driverInit ds devices } ds := ⟨h.holds, h.printed_eq, rfl⟩
      obtain ⟨m', hrest, h'⟩ := ih hstarted hcount
      refine ⟨m', ?_, ?_⟩
      · rw [List.foldlM_cons, DriverManager.call, h.startAll, Option.bind_eq_bind, Option.bind_some]
        exact hrest
      · rw [starts, startedDevices, List.foldl_append]
        exact h'

/-- After any calls on the manager that `init` sets up, as many loads as the vector can hold, every
    driver that was loaded is announced and counted, and the devices have been started as the calls
    say: each `startAll` starts all drivers loaded before it, in their order. -/
theorem driverCalls (calls : List Call) (devices : σ)
    (hcount : 8 * ((loads calls).length + 4) < 2 ^ 32) :
    ∃ m : DriverManager σ, calls.foldlM (DriverManager.call getName driverInit) (init devices) =
      some m ∧ m.printed = (loads calls).map (fun d => loadedLine (getName d)) ∧
      m.getDriversCount = (loads calls).length ∧ m.devices =
        startedDevices driverInit (starts [] calls) devices := by
  have hfresh : Loaded getName devices (init devices) [] := loaded_init devices
  obtain ⟨m, hcalls, hm⟩ : ∃ m, calls.foldlM (DriverManager.call getName driverInit) (init devices) =
    some m ∧
      Loaded getName (startedDevices driverInit (starts [] calls) devices) m ([] ++ loads calls) :=
    hfresh.calls (by simpa using hcount)
  rw [List.nil_append] at hm
  exact ⟨m, hcalls, hm.printed_eq, hm.getDriversCount (by omega), hm.devices_eq⟩

/-- The five drivers of `kernel_main`, all started in the end. -/
theorem driverCalls_kernelMain : ∃ m : DriverManager (List Driver),
    [Call.load 1, .load 2, .load 3, .load 4, .load 5, .startAll].foldlM
        (DriverManager.call (fun _ => "Driver") fun d started => d :: started) (init []) = some m ∧
      m.printed = [1, 2, 3, 4, 5].map (fun _ => loadedLine "Driver") ∧ m.getDriversCount = 5 ∧
      m.devices = [5, 4, 3, 2, 1] :=
  driverCalls [.load 1, .load 2, .load 3, .load 4, .load 5, .startAll] [] (by decide)

end DriverManager

end Rpi4Kernel.Drivers
