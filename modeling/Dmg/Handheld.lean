import Dmg.Machine

/-! # The handheld

The machine as it is sold, model DMG: interrupt registers, work RAM with its echo, high RAM, the
cartridge under the boot image, and the timer, in this order on the bus. Devices of the host go
behind them. -/

namespace Dmg

/-- 8 KiB of work RAM; the echo stops short of its last 512 bytes. -/
def workRam : RamWindow where
  size := 0x2000
  cells := .zeros 0x2000
  start := 0xC000
  fits := by decide
  echo := some { start := 0xE000, length := 0x1E00, within := by decide, fits := by decide }

/-- The RAM between the registers and the last address. -/
def highRam : RamWindow where
  size := 0x7F
  cells := .zeros 0x7F
  start := 0xFF80
  fits := by decide
  echo := none

/-- A machine being put together: what the log says, and the machine or why there is none. -/
structure Assembly (π : Type) where
  events : Array Event
  machine : Except LayoutError (Machine π)

namespace Machine
variable {π : Type} [HostDevice π]

def attachAll (m : Machine π) (devices : List (Device π)) : Run π :=
  devices.foldl (fun run d =>
    let next := run.machine.attach d
    { next with events := run.events ++ next.events }) { machine := m }

/-- The handheld with a cartridge. With a boot image the registers start from zero and the image
runs first; without one they are as the image would have left them. -/
def handheld (cartridge : Cartridge) (image : Option (Array UInt8)) : Assembly π :=
  let regs := if image.isSome then {} else Registers.postBoot
  let core := attachAll ({ cpu := { regs } } : Machine π) [.interrupts, .ram workRam, .ram highRam]
  match BootOverlay.ofImage cartridge image with
  | .error e => { events := core.events, machine := .error e }
  | .ok overlay =>
    let full := core.machine.attachAll [.boot overlay, .timer {}]
    { events := core.events ++ full.events ++ #[.ready regs.pc], machine := .ok full.machine }

end Machine

end Dmg
