import Dmg.Proofs.ControlFlow
import Dmg.Proofs.Modification

/-! # The writes of a step

What an instruction writes to the bus, told by the registers and the memory before it
(`Op.stored`). A step of the processor makes these writes, those of a dispatch, or none
(`Machine.WriteTrace`), and every device on the bus is given them in their order, so that one which
records its writes has them behind what it recorded before (`Machine.records_step`). -/

namespace Dmg

/-! ### Instructions -/

namespace Op
variable {op : Op} {mem : View} {regs : Registers} {pc : UInt16}

/-- The writes of an instruction at the program counter of `regs`. An operand that is modified is
written back if it lies in memory, even if its value stays the same. -/
def stored (op : Op) (mem : View) (regs : Registers) : List Write :=
  match op with
  | .push p => Write.pushed regs.sp (regs.getStackPair p)
  | .call cond => if Taken cond regs.flags then Write.pushed regs.sp (regs.pc + 3) else []
  | .rst _ => Write.pushed regs.sp (regs.pc + 1)
  | .storeSp =>
    let a := mem.immediate regs.pc
    [⟨a, lo regs.sp⟩, ⟨a + 1, hi regs.sp⟩]
  | .load dst src => dst.written mem regs (src.byte mem regs)
  | .inc t => t.written mem regs (t.byte mem regs + 1)
  | .dec t => t.written mem regs (t.byte mem regs - 1)
  | .shift s t =>
    t.written mem regs (.ofNat (s.result (t.byte mem regs).toNat regs.flags.c.toNat))
  | .res b t => t.written mem regs (t.byte mem regs &&& ~~~(1 <<< b))
  | .set b t => t.written mem regs (t.byte mem regs ||| 1 <<< b)
  | _ => []

theorem writes_alter {t : Operand} (h : (∃ r, t = .reg r) ∨ t = .mem .hl)
    (f : UInt8 → Flags → UInt8 × Flags) :
    (alter t f mem (regs.pc + 1) { regs with pc }).writes =
      t.written mem regs (f (t.byte mem regs) regs.flags).1 := by
  rcases h with ⟨r, rfl⟩ | rfl
  · rfl
  · rfl

theorem writes_load {dst src : Operand} (h : (Op.load dst src).StandsAt mem regs.pc) :
    ((Op.load dst src).apply mem (regs.pc + 1) { regs with pc }).writes =
      dst.written mem regs (src.byte mem regs) := by
  obtain ⟨r, rfl, -⟩ | ⟨mode, rfl, hsrc⟩ := h.load_operands
  · rw [apply_load_reg]
    rfl
  · rw [apply_load_mem mode _ hsrc]
    rfl

theorem writes_apply (h : op.StandsAt mem regs.pc) :
    (op.apply mem (regs.pc + 1) { regs with pc := regs.pc + op.size }).writes =
      op.stored mem regs := by
  cases op with
  | push p =>
    show _ = Write.pushed regs.sp (regs.getStackPair p)
    rw [← Write.ofWord_sub_two]
    cases p <;> rfl
  | call cond =>
    show _ = if Taken cond regs.flags then Write.pushed regs.sp (regs.pc + 3) else []
    by_cases htaken : Taken cond regs.flags
    · have hreturn : (Op.call cond).returnAddress? regs = some (regs.pc + 3) := if_pos htaken
      rw [writes_of_returnAddress? hreturn, if_pos htaken]
    · rw [apply_of_not_taken (.inl rfl) htaken, if_neg htaken]
  | rst v =>
    have hreturn : (Op.rst v).returnAddress? regs = some (regs.pc + 1) := rfl
    exact writes_of_returnAddress? hreturn
  | storeSp =>
    show Write.ofWord (mem.word (regs.pc + 1)) regs.sp = _
    rw [View.word_immediate]
    rfl
  | load dst src => exact writes_load h
  | inc t => exact writes_alter (Modification.of_standsAt (x := .inc) h).2 _
  | dec t => exact writes_alter (Modification.of_standsAt (x := .dec) h).2 _
  | res b t => exact writes_alter (Modification.of_standsAt (x := .res b) h).2 _
  | set b t => exact writes_alter (Modification.of_standsAt (x := .set b) h).2 _
  | shift s t =>
    refine (writes_alter (Modification.of_standsAt (x := .shift s) h).2 _).trans ?_
    refine congrArg (t.written mem regs) ?_
    rw [← Alu.toNat_shift, UInt8.ofNat_toNat]
  | jp cond | jr cond | ret cond =>
    simp only [apply]
    split <;> rfl
  | _ => rfl

end Op

/-! ### Devices -/

namespace Device
variable {π : Type} [HostDevice π]

/-- The device after writes made one after the other. -/
def after (d : Device π) (W : List Write) : Device π :=
  W.foldl (fun d w => d.write w.address w.value) d

end Device

theorem Bus.devices_store {π : Type} [HostDevice π] (bus : Bus π) (W : List Write) :
    (bus.store W).devices = bus.devices.map (·.after W) := by
  induction W generalizing bus with
  | nil => exact (List.map_id _).symm
  | cons w W ih =>
    rw [store_cons, ih]
    exact List.map_map

section
variable {π : Type} [HostDevice π] {log : π → Option (List Write)}

/-- `log` is what some devices have recorded, all writes that reached them. -/
def Records (log : π → Option (List Write)) : Prop :=
  ∀ p V, log p = some V → ∀ a v, log (HostDevice.write p a v) = some (V ++ [⟨a, v⟩])

theorem Records.after (h : Records log) {p : π} {V : List Write} (hp : log p = some V)
    (W : List Write) : ∃ p', (Device.host p).after W = .host p' ∧ log p' = some (V ++ W) := by
  induction W generalizing p V with
  | nil => exact ⟨p, rfl, by rw [List.append_nil, hp]⟩
  | cons w W ih =>
    obtain ⟨p', hp', hlog⟩ := ih (h p V hp w.address w.value)
    exact ⟨p', hp', by rw [hlog, List.append_assoc]; rfl⟩

end

/-- A device that maps nothing and records every write. -/
structure Recorder where
  seen : List Write := []

instance : HostDevice Recorder where
  read _ _ := none
  write p a v := { seen := p.seen ++ [⟨a, v⟩] }
  reports _ _ _ := []
  tick p _ irq := (p, irq)
  narrow_tick _ _ _ h := h

theorem Recorder.records : Records fun p : Recorder => some p.seen := by
  rintro p V ⟨⟩ a v
  rfl

/-! ### Steps -/

namespace Machine
variable {π : Type} [HostDevice π] {m : Machine π}

/-- The writes that are made when the processor takes a step. -/
structure WriteTrace (m : Machine π) (W : List Write) : Prop where
  busy : ∀ act n, m.cpu.phase = .busy act n → W = []
  idle : m.cpu.phase = .halted → m.bus.irq.active = 0 → W = []
  refused : ∀ e, m.stepCpu.failure = some e → W = []
  serves : ∀ l, m.Free → m.cpu.pendingLine? m.bus.irq = some l →
    W = [⟨m.cpu.regs.sp - 2, lo m.cpu.regs.pc⟩, ⟨m.cpu.regs.sp - 1, hi m.cpu.regs.pc⟩]
  executes : ∀ op, m.Finds op → W = op.stored m.bus.read m.cpu.regs

theorem writeTrace_stepWrites (m : Machine π) : m.WriteTrace m.stepWrites := by
  refine ⟨?_, ?_, ?_, ?_, ?_⟩
  · intro act n h
    rw [stepWrites, begun_of_busy h]
  · intro h ha
    rw [stepWrites, begun_of_idle h ha]
  · intro e he
    rw [stepWrites]
    cases hw : m.begun with
    | none => rfl
    | some w =>
      rw [(stepCpu_begun hw).2] at he
      cases he
  · intro l hf hl
    rw [stepWrites, begun_of_work hf (work_eq_ok.2 (.inl ⟨l, hl, rfl⟩))]
    exact Write.ofWord_sub_two ..
  · intro op h
    rw [h.leaves.writes]
    exact Op.writes_apply h.opcode

theorem devices_stepCpu (m : Machine π) :
    m.stepCpu.machine.bus.devices = m.bus.devices.map (·.after m.stepWrites) := by
  rw [stepCpu_bus, stepWrites]
  cases m.begun with
  | none => exact (List.map_id _).symm
  | some w =>
    have hack : (acknowledge w.act m.bus).devices = m.bus.devices := by
      cases w.act <;> rfl
    show ((acknowledge w.act m.bus).store w.writes).devices = _
    rw [Bus.devices_store, hack]

theorem records_step {log : π → Option (List Write)} (hlog : Records log) (m : Machine π) :
    ∃ W, m.WriteTrace W ∧ m.stepCpu.machine.bus.devices = m.bus.devices.map (·.after W) ∧
      ∀ (i : Nat) p V, m.bus.devices[i]? = some (.host p) → log p = some V →
        ∃ p', m.stepCpu.machine.bus.devices[i]? = some (.host p') ∧ log p' = some (V ++ W) := by
  refine ⟨m.stepWrites, m.writeTrace_stepWrites, m.devices_stepCpu, ?_⟩
  intro i p V hi hp
  obtain ⟨p', hp', hlog'⟩ := hlog.after hp m.stepWrites
  refine ⟨p', ?_, hlog'⟩
  rw [devices_stepCpu, List.getElem?_map, hi, Option.map_some, hp']

/-- RST 0x38 is what an open bus reads as. Its return address is recorded low byte first, going on
at zero, behind a write that came before. -/
theorem records_step_rst :
    let m : Machine Recorder := { bus.devices := [.host {}, .interrupts, .host { seen := [⟨2, 3⟩] }]
                                  cpu.regs := { pc := 0x1234, sp := 0x0001 } }
    Records (fun p : Recorder => some p.seen) ∧ m.Finds (.rst 0x38) ∧
      ∃ p : Recorder, m.stepCpu.machine.bus.devices[2]? = some (.host p) ∧
        p.seen = [⟨2, 3⟩, ⟨0xFFFF, 0x35⟩, ⟨0x0000, 0x12⟩] := by
  intro m
  have hfinds : m.Finds (.rst 0x38) := ⟨.inl rfl, rfl, .inl (by decide +kernel)⟩
  obtain ⟨W, htrace, -, hrecords⟩ := records_step Recorder.records m
  obtain ⟨p, hp, hlog⟩ := hrecords 2 _ _ rfl rfl
  have hW : W = [⟨0xFFFF, 0x35⟩, ⟨0x0000, 0x12⟩] := by
    rw [htrace.executes _ hfinds]
    decide +kernel
  rw [hW] at hlog
  exact ⟨Recorder.records, hfinds, p, hp, Option.some.inj hlog⟩

end Machine

end Dmg
