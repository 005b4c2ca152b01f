/-
Module: Rpi4Kernel.Drivers.DriverManager
Layer: Drivers
Purpose: `DriverManager` (`DriverManager.cpp`, `Driver.h`): the vector of drivers, and the loops that
  load and start them.
Trusted boundary: what `init()` of a driver does to the devices and the name that `getName()` answers
  are parameters. `init()` does not load a driver itself.
Main exports: Driver, DriverManager, DriverManager.load, DriverManager.loadAndStart,
  DriverManager.startAll, DriverManager.call
-/
import Rpi4Kernel.Stdlib.Vector

namespace Rpi4Kernel.Drivers

open Rpi4Kernel.Stdlib

/-- A `Driver*`. -/
abbrev Driver := Nat

/-- The vector `drivers`, the lines that were printed, and the devices. -/
structure DriverManager (σ : Type) where
  drivers : Vector Driver
  printed : List String
  devices : σ

namespace DriverManager

variable {σ : Type}

/-- `init()`. -/
def init (devices : σ) : DriverManager σ := { drivers := .construct, printed := [], devices := devices }

/-- The line that `load` prints. -/
def loadedLine (name : String) : String := "Loaded driver: " ++ name ++ "\n"

/-- `load(d)`. -/
def load (getName : Driver → String) (m : DriverManager σ) (d : Driver) : Option (DriverManager σ) := do
  let drivers ← m.drivers.pushBack pointerType d
  some { m with drivers := drivers, printed := m.printed ++ [loadedLine (getName d)] }

/-- `loadAndStart(d)`. -/
def loadAndStart (getName : Driver → String) (driverInit : Driver → σ → σ) (m : DriverManager σ)
    (d : Driver) : Option (DriverManager σ) := do
  let m ← m.load getName d
  some { m with devices := driverInit d m.devices }

/-- The loop of `startAll`. An element that was never written points to no driver. -/
def startLoop (driverInit : Driver → σ → σ) (devices : σ) : List (Option Driver) → Option σ
  | [] => some devices
  | none :: _ => none
  | some d :: elements => startLoop driverInit (driverInit d devices) elements

/-- `startAll()`. -/
def startAll (driverInit : Driver → σ → σ) (m : DriverManager σ) : Option (DriverManager σ) := do
  let elements ← m.drivers.iterate
  let devices ← startLoop driverInit m.devices elements
  some { m with devices := devices }

/-- `getDriversCount()`, which answers the `unsigned` size as an `int`. -/
def getDriversCount (m : DriverManager σ) : Int := (m.drivers.mySize : Int).bmod (2 ^ 32)

/-- A call of the manager. -/
inductive Call where
  | load (d : Driver)
  | loadAndStart (d : Driver)
  | startAll
deriving DecidableEq, Repr

/-- The manager after a call. -/
def call (getName : Driver → String) (driverInit : Driver → σ → σ) (m : DriverManager σ) :
    Call → Option (DriverManager σ)
  | .load d => m.load getName d
  | .loadAndStart d => m.loadAndStart getName driverInit d
  | .startAll => m.startAll driverInit

end DriverManager

end Rpi4Kernel.Drivers
