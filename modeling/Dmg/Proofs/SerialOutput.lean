import Dmg.CommandLine.Command
import Dmg.Proofs.BuiltIn
import Dmg.Proofs.Listeners
import Dmg.Proofs.Session

/-! # What is sent over a serial link

The bytes that a run sends are told by what is written in it: each start of a transfer sends what was
written last to the data register (`transferred`). This holds of machines with one serial link that
delivers everything (`Bus.Linked`), of one cycle (`Machine.transmits_cycle`) and hence of runs, up to
and with a cycle that fails. -/

namespace Dmg

/-- What the data register of a link holds after writes, from what it held before. -/
def held (data : UInt8) (ws : List Write) : UInt8 :=
  ws.foldl (fun data w => if w.address = sbAddress then w.value else data) data

/-- The bytes that writes transfer over a link that holds `data` before them. -/
def transferred (data : UInt8) : List Write → List UInt8
  | [] => []
  | w :: ws =>
    let rest := transferred (if w.address = sbAddress then w.value else data) ws
    if w = ⟨scAddress, startTransfer⟩ then data :: rest else rest

theorem held_append (data : UInt8) (ws ws' : List Write) :
    held data (ws ++ ws') = held (held data ws) ws' := List.foldl_append

theorem transferred_append (data : UInt8) (ws ws' : List Write) :
    transferred data (ws ++ ws') = transferred data ws ++ transferred (held data ws) ws' := by
  induction ws generalizing data with
  | nil => rfl
  | cons w ws ih =>
    simp only [List.cons_append, transferred, ih, held, List.foldl_cons]
    split <;> rfl

/-- The byte of an event that a link delivered one. -/
def Event.sent? : Event → Option UInt8
  | sent byte => some byte
  | _ => none

namespace CommandLine

theorem sentBytes_eq (events : Array Event) :
    sentBytes events = (events.toList.filterMap Event.sent?).toArray := by
  refine Array.ext' ?_
  rw [sentBytes, Array.toList_filterMap]
  congr 1

theorem sentBytes_append (events events' : Array Event) :
    sentBytes (events ++ events') = sentBytes events ++ sentBytes events' := by
  simp [sentBytes_eq]

theorem sentBytes_appendList (events : Array Event) (events' : List Event) :
    sentBytes (events ++ events') = sentBytes events ++ (events'.filterMap Event.sent?).toArray := by
  simp [sentBytes_eq]

theorem sentBytes_filter {keep : Event → Bool} (h : ∀ byte, keep (.sent byte) = true)
    (events : Array Event) : sentBytes (events.filter keep) = sentBytes events := by
  have hpass : (fun e => if keep e then e.sent? else none) = Event.sent? := by
    funext e
    cases e with
    | sent byte => exact if_pos (h byte)
    | _ => exact ite_self none
  rw [sentBytes_eq, sentBytes_eq, Array.toList_filter, List.filterMap_filter, hpass]

end CommandLine

open CommandLine

/-! ### A bus with one link -/

namespace SerialLink

theorem sink_write (s : SerialLink) (a : UInt16) (v : UInt8) : (s.write a v).sink = s.sink := by
  rw [write]
  split <;> [skip; split] <;> rfl

theorem data_write (s : SerialLink) (a : UInt16) (v : UInt8) :
    (s.write a v).data = held s.data [⟨a, v⟩] := by
  show _ = if a = sbAddress then v else s.data
  rw [write]
  split <;> [skip; split] <;> rfl

theorem sent_reports {s : SerialLink} (h : s.sink = .unlimited) (a : UInt16) (v : UInt8) :
    (s.reports a v).filterMap Event.sent? = transferred s.data [⟨a, v⟩] := by
  simp only [reports, starts, h, Sink.unlimited, transferred, Write.mk.injEq, Bool.and_eq_true,
    beq_iff_eq]
  split <;> rfl

end SerialLink

namespace Device
variable {π : Type} [HostDevice π] {d : Device π}

/-- Serial links alone send. -/
theorem sent_reports (hhost : d.isHost = false) (hserial : d.isSerial = false) (a : UInt16)
    (v : UInt8) : (d.reports a v).filterMap Event.sent? = [] := by
  have hcartridge : (Cartridge.reports a v).filterMap Event.sent? = [] := by
    unfold Cartridge.reports PlainRom.reports
    split <;> [split; skip] <;> rfl
  cases d with
  | interrupts | ram w | timer t => rfl
  | cartridge c => exact hcartridge
  | boot b =>
    rw [reports, BootOverlay.reports, List.filterMap_append, hcartridge]
    split <;> rfl
  | serial s => cases hserial
  | host p => cases hhost

theorem isSerial_ticked (d : Device π) : d.ticked.isSerial = d.isSerial := d.isSerial_tick 0 {}

end Device

namespace Bus
variable {π : Type} [HostDevice π] {bus : Bus π} {data : UInt8}

/-- Among the parts of a machine there is one serial link: it delivers everything, and `data` is in its
data register. -/
structure Linked (data : UInt8) (bus : Bus π) : Prop where
  builtIn : bus.BuiltIn
  link : ∃ s : SerialLink, bus.devices.filter Device.isSerial = [.serial s] ∧
    s.sink = .unlimited ∧ s.data = data

omit [HostDevice π] in
theorem filter_isSerial_map {f : Device π → Device π} (hf : ∀ d, (f d).isSerial = d.isSerial)
    (ds : List (Device π)) :
    (ds.map f).filter Device.isSerial = (ds.filter Device.isSerial).map f := by
  rw [List.filter_map]
  congr 2
  exact funext hf

/-- A bus of parts of a machine sends what its links send. -/
theorem sent_reports (h : bus.BuiltIn) (a : UInt16) (v : UInt8) :
    (bus.reports a v).filterMap Event.sent? =
      ((bus.devices.filter Device.isSerial).flatMap (·.reports a v)).filterMap Event.sent? := by
  have hsent {ds : List (Device π)} (hds : ∀ d ∈ ds, d.isHost = false) :
      (ds.flatMap (·.reports a v)).filterMap Event.sent? =
        ((ds.filter Device.isSerial).flatMap (·.reports a v)).filterMap Event.sent? := by
    induction ds with
    | nil => rfl
    | cons d ds ih =>
      obtain ⟨hd, hds⟩ := List.forall_mem_cons.1 hds
      rw [List.flatMap_cons, List.filterMap_append, ih hds]
      cases hserial : d.isSerial with
      | true =>
        rw [List.filter_cons_of_pos hserial, List.flatMap_cons, List.filterMap_append]
      | false =>
        rw [List.filter_cons_of_neg (by simp [hserial]), Device.sent_reports hd hserial,
          List.nil_append]
  exact hsent h

namespace Linked

theorem write (h : bus.Linked data) (a : UInt16) (v : UInt8) :
    (bus.write a v).Linked (held data [⟨a, v⟩]) := by
  obtain ⟨s, hs, hsink, rfl⟩ := h.link
  refine ⟨h.builtIn.write a v, s.write a v, ?_, (s.sink_write a v).trans hsink, s.data_write a v⟩
  show (bus.devices.map (·.write a v)).filter _ = _
  rw [filter_isSerial_map (fun d => d.isSerial_write a v), hs]
  rfl

theorem sent_reports (h : bus.Linked data) (a : UInt16) (v : UInt8) :
    (bus.reports a v).filterMap Event.sent? = transferred data [⟨a, v⟩] := by
  obtain ⟨s, hs, hsink, rfl⟩ := h.link
  rw [Bus.sent_reports h.builtIn, hs, List.flatMap_singleton]
  exact SerialLink.sent_reports hsink a v

theorem store (h : bus.Linked data) (ws : List Write) : (bus.store ws).Linked (held data ws) := by
  induction ws generalizing bus data with
  | nil => exact h
  | cons w ws ih => exact ih (h.write w.address w.value)

theorem sent_writeAll (h : bus.Linked data) (ws : List Write) (seen : Array Event) :
    sentBytes (bus.writeAll ws seen).2 = sentBytes seen ++ (transferred data ws).toArray := by
  induction ws generalizing bus data seen with
  | nil => exact Array.append_empty.symm
  | cons w ws ih =>
    rw [writeAll, ih (h.write w.address w.value), sentBytes_appendList, h.sent_reports,
      ← List.singleton_append (l := ws), transferred_append, Array.append_assoc]
    simp

theorem tick (h : bus.Linked data) (cycle : UInt64) : (bus.tick cycle).Linked data := by
  obtain ⟨s, hs, hsink, hdata⟩ := h.link
  refine ⟨h.builtIn.tick cycle, s, ?_, hsink, hdata⟩
  rw [tick_of_builtIn h.builtIn, filter_isSerial_map Device.isSerial_ticked, hs]
  rfl

omit [HostDevice π] in
theorem request (h : bus.Linked data) (l : Line) : (bus.request l).Linked data :=
  ⟨h.builtIn, h.link⟩

omit [HostDevice π] in
theorem acknowledge (h : bus.Linked data) (act : Activity) :
    (Machine.acknowledge act bus).Linked data := by
  cases act with
  | execute i => exact h
  | dispatch l => exact ⟨h.builtIn, h.link⟩

end Linked

end Bus

/-! ### Runs -/

/-- A run in which `ws` was written, from a machine whose link held `data`, sends behind `seen` what
they transfer. -/
structure Run.Transmits {π : Type} (data : UInt8) (ws : List Write) (seen : Array Event) (r : Run π) :
    Prop where
  bus : r.machine.bus.Linked (held data ws)
  sent : sentBytes r.events = sentBytes seen ++ (transferred data ws).toArray

namespace Machine
variable {π : Type} [HostDevice π] {m : Machine π} {data : UInt8} {seen : Array Event}

theorem transmits_stepCpu (h : m.bus.Linked data) : m.stepCpu.Transmits data m.stepWrites #[] where
  bus := by
    rw [stepCpu_bus, stepWrites]
    cases m.begun with
    | none => exact h
    | some w => exact (h.acknowledge w.act).store w.writes
  sent := by
    have hwaking : sentBytes (if m.cpu.phase = .halted then #[.leavingHalt m.cycles] else #[]) = #[] := by
      split <;> rfl
    rcases m.step_cases with ⟨act, n, hp⟩ | ⟨hp, ha⟩ | ⟨w, hw⟩ | ⟨hf, e, he⟩
    · rw [stepCpu_busy hp, stepWrites, begun_of_busy hp]
      rfl
    · rw [stepCpu_idle hp ha, stepWrites, begun_of_idle hp ha]
      rfl
    · obtain ⟨hf, hok⟩ := begun_eq_some.1 hw
      rw [work] at hok
      rw [stepCpu_of_free hf, stepWrites, hw]
      simp only [startWork, hok]
      have hbegins (pc : UInt16) : sentBytes #[w.act.event m.cycles pc] = #[] := by
        cases w.act <;> rfl
      rw [(h.acknowledge w.act).sent_writeAll, Array.push_eq_append, sentBytes_append, hwaking, hbegins]
      rfl
    · rw [stepWrites, begun_of_refused he, stepCpu_of_free hf]
      rw [work] at he
      simp only [startWork, he]
      exact hwaking

theorem transmits_moment (h : m.bus.Linked data) (t : Moment) :
    (t.run m).Transmits data (t.writes m) #[] := by
  cases t with
  | cycle => exact transmits_stepCpu (m := m.advance.tickBus) (h.tick _)
  | request l => exact ⟨h.request l, rfl⟩
  | write a v => exact ⟨h.write a v, h.sent_writeAll [⟨a, v⟩] #[]⟩

theorem transmits_follow (h : m.bus.Linked data) (T : List Moment) :
    (follow Moment.run (fun _ => true) T m seen).Transmits data
      (collected Moment.run Moment.writes T m) seen := by
  obtain ⟨hbus, hsent⟩ : Run.Transmits data ([] ++ collected Moment.run Moment.writes T m) seen
      { follow Moment.run (fun _ => true) T m seen with failure := none } := by
    refine follow_keeps (A := []) (I := fun ws seen' m' =>
      Run.Transmits data ws seen { machine := m', events := seen' }) ?_
      ⟨h, Array.append_empty.symm⟩ T
    rintro ws seen' m' t ⟨hbus, hsent⟩
    obtain ⟨hnext, hone⟩ := transmits_moment hbus t
    refine ⟨held_append data ws _ ▸ hnext, ?_⟩
    show sentBytes (seen' ++ _) = _
    rw [sentBytes_append, sentBytes_filter fun _ => rfl, hsent, hone, transferred_append,
      Array.append_assoc]
    simp [sentBytes_eq]
  exact ⟨hbus, hsent⟩

theorem transmits_runUntil (h : m.bus.Linked data) (target : UInt64) :
    (m.runUntil (fun _ => true) target seen).Transmits data
      ((HostOp.runUntil target).writes m) seen := by
  rw [runUntil_eq_follow]
  exact transmits_follow h _

/-- The record of the frames sends nothing. -/
theorem transmits_runFrames (h : m.bus.Linked data) (n : Nat) :
    (m.runFrames (fun _ => true) n seen).Transmits data ((HostOp.runFrames n).writes m) seen := by
  obtain ⟨hbus, hsent⟩ : (frames (fun _ => true) n m seen).Transmits data
      ((HostOp.runFrames n).writes m) seen := by
    rw [frames_eq_follow]
    exact transmits_follow h _
  unfold runFrames
  dsimp only
  split
  · refine ⟨hbus, ?_⟩
    rw [sentBytes_append, sentBytes_filter fun _ => rfl, hsent]
    exact Array.append_empty
  · exact ⟨hbus, hsent⟩

end Machine

end Dmg
