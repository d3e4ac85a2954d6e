import Dmg.Cpu

/-! # The opcode tables

What holds of the instructions the processor can come upon. `Instruction.Listed` are those of the two
tables; a statement about all of them is checked entry by entry (`Instruction.Listed.of_tables`). -/

namespace Dmg

namespace Instruction

/-- An instruction of the two opcode tables. -/
def Listed (i : Instruction) : Prop :=
  (∃ b, decode? b = some i) ∨ ∃ b, decodeCb b = i

namespace Listed
variable {i : Instruction}

/-- What holds of every entry of the tables holds of every listed instruction. -/
theorem of_tables (P : Instruction → Prop) (hd : ∀ n : Fin 256, ∀ i ∈ decode? (.ofNat n), P i)
    (hc : ∀ n : Fin 256, P (decodeCb (.ofNat n))) (h : i.Listed) : P i := by
  rcases h with ⟨b, hb⟩ | ⟨b, rfl⟩
  · exact hd ⟨b.toNat, b.toNat_lt⟩ i (by simpa using hb)
  · simpa using hc ⟨b.toNat, b.toNat_lt⟩

/-- Every instruction takes a cycle at least, and at most six. -/
theorem cycles_le (h : i.Listed) : 1 ≤ i.cycles.toNat ∧ i.cycles.toNat + i.penalty.toNat ≤ 6 :=
  h.of_tables (fun i => 1 ≤ i.cycles.toNat ∧ i.cycles.toNat + i.penalty.toNat ≤ 6)
    (by decide +kernel) (by decide +kernel)

/-- The instructions that park the processor or arm the enable take one cycle. -/
theorem cycles_eq_one (h : i.Listed) : i.op = .halt ∨ i.op = .stop ∨ i.op = .ei → i.cycles = 1 :=
  h.of_tables (fun i => i.op = .halt ∨ i.op = .stop ∨ i.op = .ei → i.cycles = 1)
    (by decide +kernel) (by decide +kernel)

end Listed

end Instruction

namespace Cpu
variable {cpu : Cpu} {mem : View} {i : Instruction}

theorem fetch_listed (h : cpu.fetch mem = .ok i) : i.Listed := by
  simp only [fetch] at h
  split at h
  · cases h; exact .inr ⟨_, rfl⟩
  · split at h
    · cases h; exact .inl ⟨_, ‹_›⟩
    · cases h

/-- An instruction costs its cycles, and the penalty if it branches on a condition. -/
theorem execute_cost (h : i.Listed) :
    1 ≤ (cpu.execute i mem).cost.toNat ∧ (cpu.execute i mem).cost.toNat ≤ 6 := by
  obtain ⟨h1, h6⟩ := h.cycles_le
  simp only [execute]
  split
  · rw [UInt8.toNat_add]; omega
  · omega

/-- Only an instruction of one cycle parks the processor. -/
theorem execute_phase (h : i.Listed) (hp : cpu.phase = .ready) :
    (cpu.execute i mem).cpu.phase = .ready ∨
      (cpu.execute i mem).cpu.phase = .halted ∧ (cpu.execute i mem).cost = 1 := by
  have h1 := h.cycles_eq_one
  simp only [execute]
  cases ho : i.op <;> simp [control, Op.apply, hp, ho] at h1 ⊢
  · exact h1
  · exact h1

theorem execute_ei (h : i.Listed) (ho : i.op = .ei) : (cpu.execute i mem).cost = 1 := by
  simp only [execute, ho, Op.apply]
  exact h.cycles_eq_one (.inr (.inr ho))

theorem phase_complete (cpu : Cpu) (act : Activity) : (cpu.complete act).phase = cpu.phase := by
  cases act with
  | dispatch l => rfl
  | execute i => simp only [complete]; split <;> rfl

end Cpu

end Dmg
