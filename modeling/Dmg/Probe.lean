import Dmg.HostDevice

/-! # Probes

Devices that look at a machine from outside: one that answers a single address, one that requests an
interrupt on a given cycle, and one that observes every write. -/

namespace Dmg

inductive Probe where
  | fixed (address : UInt16) (value : UInt8)
  | irqAt (cycle : UInt64) (line : Line)
  | spy
deriving DecidableEq

namespace Probe

/-- The lines that a probe requests on a cycle. -/
def requests (p : Probe) (cycle : UInt64) : List Line :=
  match p with
  | irqAt due line => if cycle = due then [line] else []
  | _ => []

instance : HostDevice Probe where
  read p a := match p with
    | fixed address value => if a = address then some value else none
    | _ => none
  write p _ _ := p
  reports p a v := match p with
    | spy => [.observed a v]
    | _ => []
  tick p cycle irq := (p, (p.requests cycle).foldl Interrupts.request irq)
  narrow_tick p cycle _ h := h.requests (p.requests cycle)

instance : RequestsOnly Probe := ⟨fun p cycle _ => ⟨p.requests cycle, rfl⟩⟩

end Probe

end Dmg
