import Dmg.Proofs.SerialOutput
import Dmg.Proofs.Window
import Mathlib.Data.List.Basic

/-! # What a sink makes of transfers

The bytes that writes transfer are told by the writes alone (`transfers`). The sink decides, byte by
byte, which of them are delivered and which are reported as lost (`SerialLink.reportsOver_eq`). Whether
it took one makes no difference to the link (`SerialLink.after_sink`), so that none of those behind
it is changed, sent twice or left out. -/

namespace Dmg

/-- What was last written to the data register, at each write that starts a transfer. -/
def transfers (W : List Write) : List UInt8 :=
  (List.range W.length).filterMap fun k =>
    if W[k]? = some ⟨0xFF02, 0x81⟩ then some ((lastWritten (W.take k) (· = 0xFF01)).getD 0)
    else none

theorem transfers_concat (W : List Write) (w : Write) :
    transfers (W ++ [w]) = transfers W ++
      if w = ⟨0xFF02, 0x81⟩ then [(lastWritten W (· = 0xFF01)).getD 0] else [] := by
  have hinit : ∀ k ∈ List.range W.length,
      (W ++ [w])[k]? = W[k]? ∧ (W ++ [w]).take k = W.take k := by
    intro k hk
    have hlt := List.mem_range.1 hk
    exact ⟨List.getElem?_append_left hlt, List.take_append_of_le_length (Nat.le_of_lt hlt)⟩
  unfold transfers
  rw [List.length_append, List.length_singleton, List.range_succ, List.filterMap_append]
  congr 1
  · refine List.filterMap_congr fun k hk => ?_
    rw [(hinit k hk).1, (hinit k hk).2]
  · by_cases hw : w = ⟨0xFF02, 0x81⟩ <;> simp [hw]

theorem held_eq_lastWritten (data : UInt8) (W : List Write) :
    held data W = (lastWritten W (· = sbAddress)).getD data := by
  induction W using List.reverseRecOn with
  | nil => rfl
  | append_singleton W w ih =>
    rw [held_append, lastWritten_concat, ih]
    show (if w.address = sbAddress then w.value else _) = _
    split <;> rfl

/-- Going along the writes with a register comes to the same as looking back at each of them. -/
theorem transferred_eq_transfers (W : List Write) : transferred 0 W = transfers W := by
  induction W using List.reverseRecOn with
  | nil => rfl
  | append_singleton W w ih =>
    rw [transferred_append, transfers_concat, ih, held_eq_lastWritten]
    rfl

/-- What becomes of byte `k` of those that are offered. -/
def Sink.outcome (sink : Sink) (k : Nat) (byte : UInt8) : Event :=
  match sink k with
  | none => .sent byte
  | some reason => .dropped byte reason

theorem mapIdx_eq_map {α β : Type} {f : Nat → α → β} {g : α → β} {l : List α}
    (h : ∀ k < l.length, ∀ x, f k x = g x) : l.mapIdx f = l.map g := by
  refine List.ext_getElem (by simp) fun k hk _ => ?_
  rw [List.getElem_mapIdx, List.getElem_map]
  exact h k (by simpa using hk) _

theorem Sink.mapIdx_limited (room : Nat) (reason : String) (bytes : List UInt8) :
    bytes.mapIdx (limited room reason).outcome =
      (bytes.take room).map .sent ++ (bytes.drop room).map (.dropped · reason) := by
  conv_lhs => rw [← List.take_append_drop room bytes, List.mapIdx_append]
  congr 1
  · refine mapIdx_eq_map fun k hk byte => ?_
    have hroom : k < room := by
      rw [List.length_take] at hk
      omega
    simp [outcome, limited, hroom]
  · refine mapIdx_eq_map fun k hk byte => ?_
    have hroom : ¬ k + (bytes.take room).length < room := by
      rw [List.length_drop] at hk
      rw [List.length_take]
      omega
    simp only [outcome, limited, if_neg hroom]

namespace SerialLink

def after (s : SerialLink) (W : List Write) : SerialLink :=
  W.foldl (fun s w => s.write w.address w.value) s

def reportsOver (s : SerialLink) : List Write → List Event
  | [] => []
  | w :: ws => s.reports w.address w.value ++ (s.write w.address w.value).reportsOver ws

theorem write_sink (s : SerialLink) (sink : Sink) (a : UInt16) (v : UInt8) :
    ({ s with sink } : SerialLink).write a v = { s.write a v with sink } := by
  unfold write
  split <;> [skip; split] <;> rfl

theorem after_sink (s : SerialLink) (sink : Sink) (W : List Write) :
    ({ s with sink } : SerialLink).after W = { s.after W with sink } := by
  induction W generalizing s with
  | nil => rfl
  | cons w ws ih =>
    show (({ s with sink } : SerialLink).write w.address w.value).after ws = _
    rw [write_sink, ih]
    rfl

theorem starts_iff (w : Write) :
    starts w.address w.value = true ↔ w = ⟨scAddress, startTransfer⟩ := by
  rcases w with ⟨a, v⟩
  simp [starts]

/-- One write offers what it transfers, and the sink is asked about it by its number. -/
theorem reports_eq (s : SerialLink) (w : Write) :
    s.reports w.address w.value =
      (transferred s.data [w]).mapIdx fun k => s.sink.outcome (s.offered + k) := by
  by_cases hw : w = ⟨scAddress, startTransfer⟩
  · rw [reports, if_pos ((starts_iff w).2 hw), transferred, if_pos hw]
    show _ = [s.sink.outcome (s.offered + 0) s.data]
    rw [Sink.outcome, Nat.add_zero]
    cases s.sink s.offered <;> rfl
  · rw [reports, if_neg (mt (starts_iff w).1 hw), transferred, if_neg hw]
    rfl

theorem offered_write (s : SerialLink) (w : Write) :
    (s.write w.address w.value).offered = s.offered + (transferred s.data [w]).length := by
  by_cases hw : w = ⟨scAddress, startTransfer⟩
  · subst hw
    rfl
  · rw [transferred, if_neg hw, write, if_neg (mt (starts_iff w).1 hw)]
    split <;> rfl

theorem reportsOver_eq (s : SerialLink) (W : List Write) :
    s.reportsOver W = (transferred s.data W).mapIdx fun k => s.sink.outcome (s.offered + k) := by
  induction W generalizing s with
  | nil => rfl
  | cons w ws ih =>
    rw [reportsOver, ih, reports_eq, data_write, sink_write, offered_write,
      ← List.singleton_append (l := ws), transferred_append, List.mapIdx_append]
    congr 2
    funext k
    rw [Nat.add_assoc, Nat.add_comm k]

end SerialLink

/-- The texts of the warnings among the events. -/
def warnings (events : List Event) : List String :=
  (events.filter fun e => e.level? = some .warn).map Event.message

theorem warnings_append (es es' : List Event) :
    warnings (es ++ es') = warnings es ++ warnings es' := by
  simp [warnings]

theorem warnings_sent (bytes : List UInt8) : warnings (bytes.map .sent) = [] := by
  simp [warnings, List.filter_map, Function.comp_def, Event.level?]

theorem warnings_dropped (bytes : List UInt8) (reason : String) :
    warnings (bytes.map (.dropped · reason)) =
      bytes.map fun byte => "serial: dropped 0x" ++ hexByte byte ++ ": " ++ reason := by
  have hall : ∀ e ∈ bytes.map (Event.dropped · reason), e.level? = some .warn := by
    intro e he
    obtain ⟨byte, -, rfl⟩ := List.mem_map.1 he
    rfl
  rw [warnings, List.filter_eq_self.2 (by simpa using hall), List.map_map]
  rfl

theorem filterMap_sent (bytes : List UInt8) :
    (bytes.map Event.sent).filterMap Event.sent? = bytes := by
  simp [List.filterMap_map, Function.comp_def, Event.sent?]

theorem filterMap_dropped (bytes : List UInt8) (reason : String) :
    (bytes.map (Event.dropped · reason)).filterMap Event.sent? = [] := by
  simp [List.filterMap_map, Function.comp_def, Event.sent?]

namespace SerialLink

theorem reportsOver_fresh (sink : Sink) (W : List Write) :
    ({ sink } : SerialLink).reportsOver W = (transfers W).mapIdx sink.outcome := by
  rw [reportsOver_eq, transferred_eq_transfers]
  simp only [Nat.zero_add]

/-- What the sink takes is sent, what it refuses is told in a warning, and nothing else happens. -/
theorem emits_transfers (W : List Write) :
    (({ sink := .unlimited } : SerialLink).reportsOver W).filterMap Event.sent? = transfers W ∧
    warnings (({ sink := .unlimited } : SerialLink).reportsOver W) = [] ∧
    (∀ room reason,
      (({ sink := .limited room reason } : SerialLink).reportsOver W).filterMap Event.sent? =
        (transfers W).take room ∧
      warnings (({ sink := .limited room reason } : SerialLink).reportsOver W) =
        ((transfers W).drop room).map fun byte =>
          "serial: dropped 0x" ++ hexByte byte ++ ": " ++ reason) ∧
    (∀ sink, ({ sink } : SerialLink).reportsOver W = (transfers W).mapIdx sink.outcome) ∧
    ∀ sink sink', ({ sink } : SerialLink).after W =
      { ({ sink := sink' } : SerialLink).after W with sink } := by
  have hall : ({ sink := .unlimited } : SerialLink).reportsOver W = (transfers W).map .sent := by
    rw [reportsOver_fresh]
    exact mapIdx_eq_map fun _ _ _ => rfl
  refine ⟨?_, ?_, fun room reason => ?_, fun sink => reportsOver_fresh sink W, fun sink sink' => ?_⟩
  · rw [hall, filterMap_sent]
  · rw [hall, warnings_sent]
  · rw [reportsOver_fresh, Sink.mapIdx_limited]
    constructor
    · rw [List.filterMap_append, filterMap_sent, filterMap_dropped, List.append_nil]
    · rw [warnings_append, warnings_sent, warnings_dropped, List.nil_append]
  · exact after_sink { sink := sink' } sink W

/-- The sink is full after one byte; the second transfer of the same byte is lost, the third is not
a transfer. -/
example :
    ({ sink := .limited 1 "sink full" } : SerialLink).reportsOver
        [⟨0xFF01, 0x6F⟩, ⟨0xFF02, 0x81⟩, ⟨0xFF02, 0x81⟩, ⟨0xFF02, 0x80⟩] =
      [.sent 0x6F, .dropped 0x6F "sink full"] := rfl

end SerialLink

end Dmg
