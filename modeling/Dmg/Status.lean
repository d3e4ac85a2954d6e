import Dmg.Machine

/-! # Status lines

Where a machine stands, in one line of text: registers, interrupt enabling, pending and enabled
lines, and the processor's phase. -/

namespace Dmg

/-- The instruction or the line that occupies the processor. -/
def Activity.text : Activity → String
  | .execute i => i.op.mnemonic
  | .dispatch l => l.name

def Phase.text : Phase → String
  | .ready => "Ready"
  | .busy act remaining => "Busy(" ++ toString remaining.toNat ++ "," ++ act.text ++ ")"
  | .halted => "Halted"

/-- The 16-bit registers. -/
def Registers.text (r : Registers) : String :=
  " ".intercalate ([r.pc, r.sp, r.af, r.bc, r.de, r.hl].map hexWord)

def Machine.text {π : Type} (m : Machine π) : String :=
  " ".intercalate [m.cpu.regs.text, if m.cpu.ime then "1" else "0", hexByte m.bus.irq.pending,
    hexByte m.bus.irq.enabled, m.cpu.phase.text]

/-- The timer's registers and the pending lines of the interrupts it is wired to. -/
def Timer.text (t : Timer) (irq : Interrupts) : String :=
  " ".intercalate ([(t.counter >>> 8).toUInt8, t.tima, t.tma, t.tac, irq.pending].map hexByte)

end Dmg
