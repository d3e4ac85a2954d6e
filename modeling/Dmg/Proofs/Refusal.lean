import Dmg.Proofs.Arbitration

/-! # Bytes that begin no instruction

A step fails on the unused bytes and on nothing else (`Cpu.fetch_eq_error_iff`). A step that fails
leaves the machine as it was, with its processor ready (`Machine.stepCpu_refused`), so the step
after it fails alike until the byte is another one or a line is to be served (`Machine.stuck`). The
interrupt registers are taken as their operations keep them, with no bits but those of lines. -/

namespace Dmg

/-- The bytes that are neither an opcode nor the prefix byte. -/
def unusedBytes : List UInt8 :=
  [0xD3, 0xDB, 0xDD, 0xE3, 0xE4, 0xEB, 0xEC, 0xED, 0xF4, 0xFC, 0xFD]

theorem Instruction.decode?_eq_none_iff (b : UInt8) :
    decode? b = none ↔ b = prefixByte ∨ b ∈ unusedBytes := by
  have key : ∀ n : Fin 256, decode? (.ofNat n) = none ↔
      (.ofNat n : UInt8) = prefixByte ∨ .ofNat n ∈ unusedBytes := by decide +kernel
  simpa using key ⟨b.toNat, b.toNat_lt⟩

namespace Cpu
variable {cpu : Cpu} {irq : Interrupts} {mem : View} {e : IllegalOpcode}

/-- The byte after the prefix byte is always an opcode. -/
theorem fetch_eq_error_iff : cpu.fetch mem = .error e ↔
    mem cpu.regs.pc ∈ unusedBytes ∧ e = ⟨cpu.regs.pc, mem cpu.regs.pc⟩ := by
  unfold fetch
  dsimp only
  by_cases hp : mem cpu.regs.pc = prefixByte
  · rw [if_pos hp, hp]
    refine ⟨nofun, ?_⟩
    rintro ⟨hmem, -⟩
    exact absurd hmem (by decide)
  · rw [if_neg hp]
    have hnone := Instruction.decode?_eq_none_iff (mem cpu.regs.pc)
    cases hd : Instruction.decode? (mem cpu.regs.pc) with
    | some i =>
      refine ⟨nofun, ?_⟩
      rintro ⟨hmem, -⟩
      rw [hnone.2 (.inr hmem)] at hd
      cases hd
    | none =>
      have hmem := (hnone.1 hd).resolve_left hp
      simp only [Except.error.injEq, hmem, true_and]
      exact eq_comm

theorem pendingLine?_eq_none (h : cpu.ime = false ∨ irq.active = 0) :
    cpu.pendingLine? irq = none := by
  unfold pendingLine?
  split
  · rename_i hime
    rw [h.resolve_left (by simp [hime])]
    rfl
  · rfl

end Cpu

namespace Machine
variable {π : Type} [HostDevice π] {m m₀ : Machine π} {e : IllegalOpcode}

theorem failure_eq_some_iff : m.stepCpu.failure = some e ↔ m.Free ∧ m.work = .error e := by
  constructor
  · intro h
    rcases m.step_cases with ⟨act, n, hp⟩ | ⟨hp, ha⟩ | ⟨w, hw⟩ | ⟨hf, e', he⟩
    · rw [stepCpu_busy hp] at h
      cases h
    · rw [stepCpu_idle hp ha] at h
      cases h
    · rw [(stepCpu_begun hw).2] at h
      cases h
    · rw [(stepCpu_refused hf he).2] at h
      cases h
      exact ⟨hf, he⟩
  · rintro ⟨hf, he⟩
    exact (stepCpu_refused hf he).2

/-- A ready machine that fails on the byte at the program counter is left as it is. -/
theorem stuck (hp : m.cpu.phase = .ready) (hoff : m.cpu.ime = false ∨ m.bus.irq.active = 0)
    (hb : m.read m.cpu.regs.pc ∈ unusedBytes) :
    m.stepCpu.failure = some ⟨m.cpu.regs.pc, m.read m.cpu.regs.pc⟩ ∧ m.stepCpu.machine = m := by
  have he := work_eq_error.2 ⟨Cpu.pendingLine?_eq_none hoff, Cpu.fetch_eq_error_iff.2 ⟨hb, rfl⟩⟩
  obtain ⟨hm, hf⟩ := stepCpu_refused (.inl hp) he
  refine ⟨hf, ?_⟩
  rw [hm, ← hp]

/-- However the bus changes between the steps, they fail alike as long as the byte stays and no line
is to be served. -/
theorem stuck_of_unchanged {s : Nat → Machine π} {n : Nat} {cpu : Cpu} (h₀ : (s 0).cpu = cpu)
    (hs : ∀ i < n, (s (i + 1)).cpu = (s i).stepCpu.machine.cpu) (hp : cpu.phase = .ready)
    (he : e.pc = cpu.regs.pc) (hb : e.opcode ∈ unusedBytes)
    (h : ∀ i ≤ n, (s i).read e.pc = e.opcode ∧ ((s i).cpu.ime = false ∨ (s i).bus.irq.active = 0)) :
    ∀ i ≤ n, (s i).cpu = cpu ∧ (s i).stepCpu.failure = some e ∧ (s i).stepCpu.machine = s i := by
  have hstuck : ∀ i ≤ n, (s i).cpu = cpu →
      (s i).stepCpu.failure = some e ∧ (s i).stepCpu.machine = s i := by
    intro i hi hcpu
    obtain ⟨hread, hoff⟩ := h i hi
    have hpc : (s i).cpu.regs.pc = e.pc := by rw [hcpu, he]
    have hfail := stuck (m := s i) (by rw [hcpu, hp]) hoff (by rw [hpc, hread]; exact hb)
    rw [hpc, hread] at hfail
    exact hfail
  intro i
  induction i with
  | zero => exact fun hi => ⟨h₀, hstuck 0 hi h₀⟩
  | succ i ih =>
    intro hi
    -- The failed step left the processor as it was, so the next one starts from the same.
    obtain ⟨hcpu, -, hsame⟩ := ih (by omega)
    have hnext : (s (i + 1)).cpu = cpu := by rw [hs i (by omega), hsame, hcpu]
    exact ⟨hnext, hstuck (i + 1) hi hnext⟩

/-- A step fails if and only if a free processor has no line to serve and finds an unused byte. It
changes nothing but the phase, and the steps after it fail on the byte as well. -/
theorem fails_iff_unused (m : Machine π) (hn : m.bus.irq.Narrow) :
    (m.stepCpu.failure ≠ none ↔ m.Free ∧ (m.cpu.ime = false ∨ m.bus.irq.active = 0) ∧
      m.read m.cpu.regs.pc ∈ unusedBytes) ∧
    (m.read m.cpu.regs.pc = prefixByte → m.stepCpu.failure = none) ∧
    ∀ e, m.stepCpu.failure = some e →
      e = ⟨m.cpu.regs.pc, m.read m.cpu.regs.pc⟩ ∧
      m.stepCpu.machine = { m with cpu := { m.cpu with phase := .ready } } ∧
      ∀ (s : Nat → Machine π) (n : Nat), (s 0).cpu = m.stepCpu.machine.cpu →
        (∀ i < n, (s (i + 1)).cpu = (s i).stepCpu.machine.cpu) →
        (∀ i ≤ n, (s i).read e.pc = e.opcode ∧
          ((s i).cpu.ime = false ∨ (s i).bus.irq.active = 0)) →
        ∀ i ≤ n, (s i).stepCpu.failure = some e ∧ (s i).stepCpu.machine = s i := by
  have hoff : m.cpu.pendingLine? m.bus.irq = none ↔ m.cpu.ime = false ∨ m.bus.irq.active = 0 := by
    rw [Cpu.pendingLine?_eq_none_iff hn, not_and_or, Bool.not_eq_true, ne_eq, not_not]
  have hsome (e : IllegalOpcode) : m.stepCpu.failure = some e ↔
      m.Free ∧ (m.cpu.ime = false ∨ m.bus.irq.active = 0) ∧ m.read m.cpu.regs.pc ∈ unusedBytes ∧
        e = ⟨m.cpu.regs.pc, m.read m.cpu.regs.pc⟩ := by
    rw [failure_eq_some_iff, work_eq_error, hoff, Cpu.fetch_eq_error_iff]
    rfl
  have hiff : m.stepCpu.failure ≠ none ↔ m.Free ∧ (m.cpu.ime = false ∨ m.bus.irq.active = 0) ∧
      m.read m.cpu.regs.pc ∈ unusedBytes := by
    rw [Option.ne_none_iff_exists']
    simp only [hsome, exists_and_left, exists_eq, and_true]
  refine ⟨hiff, fun hp => ?_, fun e he => ?_⟩
  · by_contra hne
    obtain ⟨-, -, hmem⟩ := hiff.1 hne
    rw [hp] at hmem
    exact absurd hmem (by decide)
  · obtain ⟨hf, -, hmem, hpc⟩ := (hsome e).1 he
    have hm := (stepCpu_refused hf (failure_eq_some_iff.1 he).2).1
    refine ⟨hpc, hm, fun s n h₀ hs h i hi => ?_⟩
    have hbyte : e.opcode ∈ unusedBytes := by
      rw [hpc]
      exact hmem
    exact (stuck_of_unchanged h₀ hs (by rw [hm]) (by rw [hm, hpc]) hbyte h i hi).2

/-- HALT and an unused byte behind it, with the timer enabled and pending while IME is off: the
processor wakes, fails on the byte, and fails on it again after another request. -/
theorem fails_after_halt :
    let m := { (ofProgram [0x76, 0xFD]).stepCpu.machine with bus.irq := ⟨4, 4⟩ }
    m.bus.irq.Narrow ∧ m.cpu.phase = .halted ∧ m.stepCpu.failure = some ⟨1, 0xFD⟩ ∧
      (m.stepCpu.machine.request .joypad).stepCpu.failure = some ⟨1, 0xFD⟩ := by
  intro m
  have hn : m.bus.irq.Narrow := ⟨by decide, by decide⟩
  have hfail : m.stepCpu.failure = some ⟨1, 0xFD⟩ := by decide +kernel
  obtain ⟨-, -, hfails⟩ := fails_iff_unused m hn
  obtain ⟨-, -, hagain⟩ := hfails ⟨1, 0xFD⟩ hfail
  refine ⟨hn, rfl, hfail, ?_⟩
  exact (hagain (fun _ => m.stepCpu.machine.request .joypad) 0 rfl nofun
    (fun _ _ => ⟨by decide +kernel, .inl (by decide +kernel)⟩) 0 (Nat.le_refl 0)).1

end Machine

end Dmg
