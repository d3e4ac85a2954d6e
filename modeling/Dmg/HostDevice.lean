import Dmg.Event

/-! # Devices of the host

What a device from outside the machine can do on its bus. It answers reads of the addresses it maps,
sees every write, of which it may make something visible outside, and is given every machine cycle by
its number, together with the interrupt registers. These it may leave as it likes, but for the bits
that they do not have. -/

namespace Dmg

class HostDevice (π : Type) where
  read : π → UInt16 → Option UInt8
  write : π → UInt16 → UInt8 → π
  reports : π → UInt16 → UInt8 → List Event
  tick : π → UInt64 → Interrupts → π × Interrupts
  narrow_tick : ∀ p cycle irq, irq.Narrow → (tick p cycle irq).2.Narrow

/-- Devices that use the interrupt registers to request lines, and for nothing else. -/
class RequestsOnly (π : Type) [HostDevice π] : Prop where
  requests (p : π) (cycle : UInt64) (irq : Interrupts) :
    ∃ lines : List Line, (HostDevice.tick p cycle irq).2 = lines.foldl Interrupts.request irq

instance : HostDevice Empty where
  read p := nomatch p
  write p := nomatch p
  reports p := nomatch p
  tick p := nomatch p
  narrow_tick p := nomatch p

instance : RequestsOnly Empty := ⟨fun p => nomatch p⟩

end Dmg
