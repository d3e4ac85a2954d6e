import Dmg.Probe
import Dmg.Proofs.BuiltIn
import Dmg.Proofs.Lockstep

/-! # A disabled line is not noticed

The pending bit of a line reaches a program in two ways: the line is active, or the request register
is read. As long as the line is disabled and no instruction uses a byte of that register
(`Heedless`), machines that differ in the bit alone go through the same (`lockstep_sameBut`). The bit
itself may come and go, by requests that one of them gets and the other does not
(`Machine.dialogue_of_disabled`).

Two machines differ in the pending bit of `l` alone if they are equal once `l` is cleared. -/

namespace Dmg

namespace Interrupts
variable {i i' : Interrupts} {l : Line}

/-- Equal but for the pending bit of `l`. -/
def SameBut (l : Line) (i i' : Interrupts) : Prop := i'.clear l = i.clear l

theorem sameBut_iff : SameBut l i i' ↔
    i'.pending &&& ~~~l.mask = i.pending &&& ~~~l.mask ∧ i'.enabled = i.enabled := by
  rw [SameBut, clear, clear, Interrupts.mk.injEq]

theorem sameBut_request (i : Interrupts) (l : Line) : SameBut l i (i.request l) := by
  have hmask : l.mask &&& ~~~l.mask = 0 := by cases l <;> decide
  have hor : (i.pending ||| l.mask) &&& ~~~l.mask =
      i.pending &&& ~~~l.mask ||| l.mask &&& ~~~l.mask :=
    UInt8.toBitVec_inj.1 BitVec.and_or_distrib_right
  refine sameBut_iff.2 ⟨?_, rfl⟩
  rw [request, hor, hmask, UInt8.or_zero]

namespace SameBut

theorem symm (h : SameBut l i i') : SameBut l i' i := Eq.symm h

theorem trans {i'' : Interrupts} (h : SameBut l i i') (h' : SameBut l i' i'') : SameBut l i i'' :=
  Eq.trans h' h

theorem request (h : SameBut l i i') (l' : Line) : SameBut l (i.request l') (i'.request l') := by
  have hor (p : UInt8) : (p ||| l'.mask) &&& ~~~l.mask =
      p &&& ~~~l.mask ||| l'.mask &&& ~~~l.mask :=
    UInt8.toBitVec_inj.1 BitVec.and_or_distrib_right
  obtain ⟨hp, he⟩ := sameBut_iff.1 h
  refine sameBut_iff.2 ⟨?_, he⟩
  rw [Interrupts.request, Interrupts.request, hor, hor, hp]

theorem requests (h : SameBut l i i') (ls : List Line) :
    SameBut l (ls.foldl Interrupts.request i) (ls.foldl Interrupts.request i') := by
  induction ls generalizing i i' with
  | nil => exact h
  | cons l' ls ih => exact ih (h.request l')

theorem clear (h : SameBut l i i') (l' : Line) : SameBut l (i.clear l') (i'.clear l') := by
  have hcomm (p : UInt8) : p &&& ~~~l'.mask &&& ~~~l.mask = p &&& ~~~l.mask &&& ~~~l'.mask := by
    rw [UInt8.and_assoc, UInt8.and_comm (~~~l'.mask), ← UInt8.and_assoc]
  obtain ⟨hp, he⟩ := sameBut_iff.1 h
  refine sameBut_iff.2 ⟨?_, he⟩
  rw [Interrupts.clear, Interrupts.clear, hcomm, hcomm, hp]

theorem write (h : SameBut l i i') (a : UInt16) (v : UInt8) : SameBut l (i.write a v) (i'.write a v) := by
  obtain ⟨hp, he⟩ := sameBut_iff.1 h
  rw [sameBut_iff, Interrupts.write, Interrupts.write]
  split
  · exact ⟨rfl, he⟩
  · split
    · exact ⟨hp, rfl⟩
    · exact ⟨hp, he⟩

/-- A disabled line is not active, pending or not. -/
theorem active (h : SameBut l i i') (hoff : i.enabled &&& l.mask = 0) : i'.active = i.active := by
  have hkeep : i.enabled = ~~~l.mask &&& i.enabled := by
    have hsplit : i.enabled &&& (l.mask ||| ~~~l.mask) =
        i.enabled &&& l.mask ||| i.enabled &&& ~~~l.mask :=
      UInt8.toBitVec_inj.1 BitVec.and_or_distrib_left
    have hall : l.mask ||| ~~~l.mask = -1 := by cases l <;> decide
    rw [hall, hoff, UInt8.and_neg_one, UInt8.zero_or] at hsplit
    rw [UInt8.and_comm]
    exact hsplit
  obtain ⟨hp, he⟩ := sameBut_iff.1 h
  rw [Interrupts.active, Interrupts.active, he, hkeep, ← UInt8.and_assoc, ← UInt8.and_assoc, hp]

theorem read (h : SameBut l i i') {a : UInt16} (ha : a ≠ ifAddress) : i'.read a = i.read a := by
  rw [Interrupts.read, Interrupts.read, if_neg ha, if_neg ha, (sameBut_iff.1 h).2]

end SameBut

end Interrupts

namespace Bus
variable {π : Type} {b b' : Bus π} {l : Line}

/-- Equal but for the pending bit of `l`, and with parts of the machine alone attached: a device of
the host could look at the bit. -/
structure SameBut (l : Line) (b b' : Bus π) : Prop where
  devices : b'.devices = b.devices
  irq : Interrupts.SameBut l b.irq b'.irq
  builtIn : b.BuiltIn

theorem sameBut_of_clear_eq (h : b'.clear l = b.clear l) (hb : b.BuiltIn) : SameBut l b b' where
  devices := by
    have hdevices : (b'.clear l).devices = (b.clear l).devices := by rw [h]
    exact hdevices
  irq := by
    have hirq : (b'.clear l).irq = (b.clear l).irq := by rw [h]
    exact hirq
  builtIn := hb

theorem SameBut.clear_eq (h : SameBut l b b') : b'.clear l = b.clear l := by
  rw [clear, clear, h.devices]
  exact congrArg (Bus.mk _) h.irq

variable [HostDevice π]

theorem SameBut.read (h : SameBut l b b') {a : UInt16} (ha : a ≠ ifAddress) : b'.read a = b.read a := by
  have hdevice (d : Device π) : d.read b'.irq a = d.read b.irq a := by
    cases d with
    | interrupts => exact h.irq.read ha
    | _ => rfl
  simp only [Bus.read, h.devices, hdevice]

end Bus

namespace Machine
variable {π : Type} [HostDevice π] {m m' : Machine π} {l : Line} {calls calls' : List Call}

/-- The next step of the processor has no way to notice that `l` is pending. -/
structure Heedless (l : Line) (m : Machine π) : Prop where
  disabled : m.bus.irq.enabled &&& l.mask = 0
  unread : ifAddress ∉ m.consulted

theorem lockstep_sameBut (l : Line) : Lockstep (π := π) (Heedless l) (Bus.SameBut l) where
  write h a v := by
    have hhas {b b' : Bus π} (h : b.SameBut l b') : b'.hasInterrupts = b.hasInterrupts := by
      rw [Bus.hasInterrupts, Bus.hasInterrupts, h.devices]
    refine ⟨?_, ?_, h.builtIn.write a v⟩
    · rw [Bus.write, Bus.write, h.devices]
    · rw [Bus.write, Bus.write, hhas h]
      dsimp only
      split
      · exact h.irq.write a v
      · exact h.irq
  request h l' := ⟨h.devices, h.irq.request l', h.builtIn⟩
  clear h l' := ⟨h.devices, h.irq.clear l', h.builtIn⟩
  tick h cycle := by
    have hbuiltIn' : Bus.BuiltIn _ := fun d hd => h.builtIn d (h.devices ▸ hd)
    refine ⟨?_, ?_, h.builtIn.tick cycle⟩
    · rw [Bus.tick_of_builtIn hbuiltIn', Bus.tick_of_builtIn h.builtIn, h.devices]
    · rw [Bus.tick_of_builtIn hbuiltIn', Bus.tick_of_builtIn h.builtIn, h.devices]
      exact h.irq.requests _
  agrees h hP := by
    refine ⟨h.cpu, h.bus.irq.active hP.disabled, fun a ha => h.bus.read ?_⟩
    rintro rfl
    exact hP.unread ha

/-- A dialogue without the requests of `l`, and with its pending bit out of sight. -/
def dialogueBut (l : Line) (calls : List Call) (m : Machine π) : List (Call × Reply × Machine π) :=
  (m.dialogue (·.clear l) calls).filter (·.1 ≠ .operate (.request l))

theorem dialogueBut_request (l : Line) (calls : List Call) (m : Machine π) :
    m.dialogueBut l (.operate (.request l) :: calls) = (m.request l).dialogueBut l calls :=
  List.filter_cons_of_neg (by simp)

theorem dialogueBut_cons {c : Call} (hc : c ≠ .operate (.request l)) (calls : List Call)
    (m : Machine π) : m.dialogueBut l (c :: calls) =
      (c, (c.answer m).1, (c.answer m).2.clear l) :: (c.answer m).2.dialogueBut l calls :=
  List.filter_cons_of_pos (by simpa using hc)

omit [HostDevice π] in
/-- A request of the line leaves machines alike, made in one of them only. -/
theorem Alike.request_right (h : m.Alike (Bus.SameBut l) m') :
    m.Alike (Bus.SameBut l) (m'.request l) :=
  ⟨h.cpu, h.cycles, h.bus.devices, h.bus.irq.trans (Interrupts.sameBut_request _ l), h.bus.builtIn⟩

omit [HostDevice π] in
theorem Alike.request_left (h : m.Alike (Bus.SameBut l) m') :
    (m.request l).Alike (Bus.SameBut l) m' :=
  ⟨h.cpu, h.cycles, h.bus.devices, (Interrupts.sameBut_request _ l).symm.trans h.bus.irq,
    h.bus.builtIn⟩

omit [HostDevice π] in
theorem Alike.clear_eq (h : m.Alike (Bus.SameBut l) m') : m'.clear l = m.clear l := by
  rw [clear, clear, h.bus.clear_eq, h.cpu, h.cycles]

theorem dialogueBut_of_alike (hm : m.Alike (Bus.SameBut l) m')
    (hcalls : calls'.filter (· ≠ .operate (.request l)) = calls.filter (· ≠ .operate (.request l)))
    (hread : .read ifAddress ∉ calls) (h : ∀ s ∈ m.stages calls, s.Heedless l) :
    m'.dialogueBut l calls' = m.dialogueBut l calls := by
  -- On both lists of calls. A request of the line is passed over in either, and what is left begins
  -- with the same call in both.
  induction calls generalizing m m' calls' with
  | nil =>
    induction calls' generalizing m' with
    | nil => rfl
    | cons c' calls' ih' =>
      have hc' : c' = .operate (.request l) :=
        Decidable.byContradiction fun hne => by simp [hne] at hcalls
      subst hc'
      rw [dialogueBut_request]
      exact ih' hm.request_right (by simpa using hcalls)
  | cons c calls ih =>
    obtain ⟨hne, hunread⟩ := not_or.1 (mt List.mem_cons.2 hread)
    obtain ⟨hfirst, hrest⟩ := List.forall_mem_append.1 h
    by_cases hc : c = .operate (.request l)
    · subst hc
      rw [dialogueBut_request]
      exact ih hm.request_left (by simpa using hcalls) hunread hrest
    · induction calls' generalizing m' with
      | nil => simp [hc] at hcalls
      | cons c' calls' ih' =>
        by_cases hc' : c' = .operate (.request l)
        · subst hc'
          rw [dialogueBut_request]
          exact ih' hm.request_right (by simpa using hcalls)
        · rw [List.filter_cons_of_pos (by simpa using hc'),
            List.filter_cons_of_pos (by simpa using hc)] at hcalls
          obtain ⟨rfl, htail⟩ := List.cons.inj hcalls
          have hbyte (a : UInt16) (ha : c' = .read a) : m'.read a = m.read a := by
            refine hm.bus.read ?_
            rintro rfl
            exact hne ha.symm
          obtain ⟨hreply, hnext⟩ := (lockstep_sameBut l).answer c' hm hfirst hbyte
          rw [dialogueBut_cons hc, dialogueBut_cons hc, hreply, hnext.clear_eq,
            ih hnext htail hunread hrest]

/-- As long as a line is disabled and no instruction of a first run uses a byte of the request
register, a second run, that starts from the same but for the pending bit of the line and gets the
same calls but for requests of the line, gives the same replies and goes through the same machines
but for that bit. -/
theorem dialogue_of_disabled (hb : m.bus.BuiltIn) (hm : m'.clear l = m.clear l)
    (hcalls : calls'.filter (· ≠ .operate (.request l)) = calls.filter (· ≠ .operate (.request l)))
    (hread : .read ifAddress ∉ calls)
    (h : ∀ s ∈ m.stages calls, s.bus.irq.enabled &&& l.mask = 0 ∧ ifAddress ∉ s.consulted) :
    (m'.dialogue (·.clear l) calls').filter (·.1 ≠ .operate (.request l)) =
      (m.dialogue (·.clear l) calls).filter (·.1 ≠ .operate (.request l)) := by
  obtain ⟨hcpu, hbus, hcycles⟩ := Machine.mk.inj hm
  exact dialogueBut_of_alike ⟨hcpu, hcycles, Bus.sameBut_of_clear_eq hbus hb⟩ hcalls hread
    fun s hs => ⟨(h s hs).1, (h s hs).2⟩

/-- INC A; HALT; INC A and a jump back to it, with the timer enabled and the joypad not. A request of
the joypad does not end the halt, one of the timer does, and the joypad is pending all along. -/
theorem dialogue_of_disabled_joypad :
    let w : RamWindow :=
      { size := 5, cells := #v[0x3C, 0x76, 0x3C, 0x18, 0xFD], start := 0, fits := by decide, echo := none }
    let m : Machine Probe := { bus := { devices := [.interrupts, .ram w, .timer {}], irq := ⟨0, 4⟩ } }
    let joypad : Call := .operate (.request .joypad)
    let calls := [.operate (.runUntil 6), .operate (.request .timer), .operate (.runUntil 12), .read 0xFFFF]
    let calls' := [joypad, .operate (.runUntil 6), joypad, .operate (.request .timer),
      .operate (.runUntil 12), .read 0xFFFF]
    (m.dialogue sight calls).map (·.2.2.cpu.phase == .halted) = [true, true, false, false] ∧
    ((m.request .joypad).dialogue (·.clear .joypad) calls').filter (·.1 ≠ joypad) =
      (m.dialogue (·.clear .joypad) calls).filter (·.1 ≠ joypad) := by
  intro w m joypad calls calls'
  refine ⟨by decide +kernel, dialogue_of_disabled (l := .joypad) ?_ ?_ ?_ ?_ ?_⟩
  · decide
  · exact congrArg (fun irq => { m with bus.irq := irq }) (Interrupts.sameBut_request _ _)
  · decide
  · decide
  · decide +kernel

end Machine

end Dmg
