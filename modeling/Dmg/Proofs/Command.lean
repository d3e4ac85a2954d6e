import Dmg.CommandLine.Report
import Dmg.Proofs.Arguments
import Dmg.Proofs.SerialOutput

/-! # What a command reports

The needs of a command are judged one by one (`Need.Met`), each with what there is to say when it is not
met (`Need.complaint?`). A command reports the complaint about the first of them and no other, and gives
out on standard output what its run sends and nothing else (`Accounts`, `report_accounts`). -/

namespace Dmg.CommandLine

/-- What must be well for a command to succeed, in the order in which it is looked at. -/
inductive Need where
  | frames | cycles | romFile | cartridge | bootFile | bootLength | run
deriving DecidableEq

/-- What is wrong, if anything is. -/
def fault? {ε α : Type} : Except ε α → Option ε
  | .ok _ => none
  | .error e => some e

/-! ### What a command runs -/

/-- How long a command runs its machine. The frames must be a number even where cycles are given. -/
def duration? (o : Options) : Option HostOp := do
  let frames ← (Decimal.parse o.framesText).toOption
  let cycles ← o.cycles.mapM fun text => (Decimal.parse text).toOption
  return match cycles with
    | some target => .runUntil target.toUInt64
    | none => .runFrames frames

def cartridge? (files : Files) (o : Options) : Option Cartridge :=
  (files o.romPath).toOption.bind fun image => (Cartridge.ofImage image).toOption

/-- The boot image, if one is asked for. -/
def boot? (files : Files) (o : Options) : Option (Option (Array UInt8)) :=
  o.boot.mapM fun path => (files path).toOption.filter fun image => image.size = bootSize

/-- The machine that a command runs, and for how long: a handheld, with a link to standard output
behind it. None if there is something wrong with what it is to be made of. -/
def launch? (files : Files) (o : Options) : Option (Machine Empty × HostOp) := do
  let op ← duration? o
  let core ← (Machine.handheld (← cartridge? files o) (← boot? files o)).machine.toOption
  return ((core.attach (.serial { sink := .unlimited })).machine, op)

/-! ### What a command needs -/

namespace Need

def all : List Need := [frames, cycles, romFile, cartridge, bootFile, bootLength, run]

/-- All is well with it. What is in a file that cannot be read is not judged, and neither is a run that
is not made. -/
def Met (files : Files) (o : Options) : Need → Prop
  | frames => ∃ n, Decimal.Denotes o.framesText n
  | cycles => ∀ text ∈ o.cycles, ∃ n, Decimal.Denotes text n
  | romFile => ∃ image, files o.romPath = .ok image
  | cartridge => ∀ image, files o.romPath = .ok image → ∃ c, Cartridge.ofImage image = .ok c
  | bootFile => ∀ path ∈ o.boot, ∃ image, files path = .ok image
  | bootLength => ∀ path ∈ o.boot, ∀ image, files path = .ok image → image.size = bootSize
  | run => ∀ m op, launch? files o = some (m, op) → (op.run (fun _ => false) m).failure = none

/-- The failure of a text to be a number. -/
def notNumber? (switch text : String) : Option Failure :=
  (fault? (Decimal.parse text)).map fun e =>
    { context := switch ++ " must be a number", causes := [e.message] }

/-- The failure of a run, on the cycle at which the machine stopped. -/
def stopped? (run : Run Empty) : Option Failure :=
  run.failure.map fun e =>
    { context := "stopped at cycle " ++ toString run.machine.cycles.toNat, causes := [e.message] }

/-- What there is to say about it if it is not met. -/
def complaint? (files : Files) (o : Options) : Need → Option Failure
  | frames => notNumber? "--frames" o.framesText
  | cycles => o.cycles.bind (notNumber? "--cycles")
  | romFile => (fault? (files o.romPath)).map fun e =>
    { context := "couldn't load cartridge " ++ o.romPath, causes := ["I/O error: " ++ e.message, e.message] }
  | cartridge => (files o.romPath).toOption.bind fun image =>
    (fault? (Cartridge.ofImage image)).map fun e =>
      { context := "couldn't load cartridge " ++ o.romPath, causes := [e.message] }
  | bootFile => o.boot.bind fun path => (fault? (files path)).map fun e =>
    { context := "couldn't read boot ROM " ++ path, causes := [e.message] }
  | bootLength => o.boot.bind fun path => (files path).toOption.bind fun image =>
    if image.size = bootSize then none
    else some
      { context := "boot ROM " ++ path ++ " is " ++ toString image.size ++ " bytes, expected " ++
          toString bootSize }
  | run => (launch? files o).bind fun (m, op) => stopped? (op.run (fun _ => false) m)

variable {files : Files} {o : Options}

theorem fault?_eq_none {ε α : Type} {r : Except ε α} : fault? r = none ↔ ∃ v, r = .ok v := by
  cases r <;> simp [fault?]

theorem notNumber?_eq_none {switch text : String} :
    notNumber? switch text = none ↔ ∃ n, Decimal.Denotes text n := by
  simp only [notNumber?, Option.map_eq_none_iff, fault?_eq_none, Decimal.parse_eq_ok]

theorem complaint?_eq_none (need : Need) : need.complaint? files o = none ↔ need.Met files o := by
  have htoOption {ε α : Type} {r : Except ε α} {v : α} : r.toOption = some v ↔ r = .ok v := by
    cases r <;> simp [Except.toOption]
  cases need with
  | frames => exact notNumber?_eq_none
  | cycles =>
    simp only [complaint?, Met, Option.bind_eq_none_iff, notNumber?_eq_none, Option.mem_def]
  | romFile => simp only [complaint?, Met, Option.map_eq_none_iff, fault?_eq_none]
  | cartridge =>
    simp only [complaint?, Met, Option.bind_eq_none_iff, Option.map_eq_none_iff, fault?_eq_none, htoOption]
  | bootFile =>
    simp only [complaint?, Met, Option.bind_eq_none_iff, Option.map_eq_none_iff, fault?_eq_none,
      Option.mem_def]
  | bootLength => simp [complaint?, Met, htoOption]
  | run => simp [complaint?, Met, stopped?]

end Need

/-- The complaint about the first need that is not met. -/
def complaint? (files : Files) (o : Options) : Option Failure :=
  Need.all.findSome? (·.complaint? files o)

/-! ### Stage by stage -/

variable {files : Files} {o : Options}

/-- How long a machine is to run. -/
def Settings.op (s : Settings) : HostOp :=
  match s.cycles with
  | some target => .runUntil target
  | none => .runFrames s.frames

theorem settings_spec (files : Files) (o : Options) :
    fault? o.settings = [Need.frames, .cycles].findSome? (·.complaint? files o) ∧
      o.settings.toOption.map Settings.op = duration? o := by
  unfold Options.settings duration?
  rcases hframes : Decimal.parse o.framesText with e | n
  case' ok => rcases hcycles : o.cycles with _ | text
  case' ok.some => rcases hparse : Decimal.parse text with e | k
  all_goals simp [*, number, Need.complaint?, Need.notNumber?, fault?, Except.toOption,
    Except.mapError, bind, Except.bind, pure, Except.pure, Settings.op]

theorem settings_paths {s : Settings} (h : o.settings = .ok s) : s.rom = o.romPath ∧ s.boot = o.boot := by
  unfold Options.settings at h
  rcases hframes : number "--frames" o.framesText with e | n <;> rw [hframes] at h
  · cases h
  · rcases hcycles : o.cycles.mapM (number "--cycles") with e | k <;> rw [hcycles] at h
    · cases h
    · cases h
      exact ⟨rfl, rfl⟩

theorem ofFile_spec (files : Files) (o : Options) :
    (fault? (Cartridge.ofFile files o.romPath).2).map (loadFailure o.romPath) =
        [Need.romFile, .cartridge].findSome? (·.complaint? files o) ∧
      (Cartridge.ofFile files o.romPath).2.toOption = cartridge? files o ∧
      sentBytes (Cartridge.ofFile files o.romPath).1 = #[] := by
  simp only [Cartridge.ofFile, cartridge?, List.findSome?_cons, List.findSome?_nil, Need.complaint?]
  cases files o.romPath with
  | error e => exact ⟨rfl, rfl, rfl⟩
  | ok image =>
    simp only [Except.toOption, Option.bind_some, fault?, Option.map_none]
    cases Cartridge.ofImage image with
    | error e => exact ⟨rfl, rfl, rfl⟩
    | ok c => exact ⟨rfl, rfl, rfl⟩

theorem readBoot_spec (files : Files) (o : Options) :
    fault? (readBoot files o.boot) =
        [Need.bootFile, .bootLength].findSome? (·.complaint? files o) ∧
      (readBoot files o.boot).toOption = boot? files o := by
  unfold readBoot boot?
  rcases hboot : o.boot with _ | path
  case' some => rcases hfile : files path with e | image
  case' some.ok => by_cases hsize : image.size = bootSize
  all_goals simp [*, Need.complaint?, fault?, Except.toOption, Option.filter_some]

theorem size_of_readBoot {path : Option String} {image : Option (Array UInt8)}
    (h : readBoot files path = .ok image) : ∀ b ∈ image, b.size = bootSize := by
  intro b hb
  unfold readBoot at h
  split at h
  · cases h
    cases hb
  · split at h
    · cases h
    · split at h
      · next hsize =>
        cases h
        cases hb
        exact hsize
      · cases h

/-! ### The machine and its run -/

theorem sentBytes_attachAll (m : Machine Empty) (ds : List (Device Empty)) :
    sentBytes (m.attachAll ds).events = #[] := by
  suffices h : ∀ run : Run Empty, sentBytes run.events = #[] → sentBytes (ds.foldl (fun run d =>
      let next := run.machine.attach d
      { next with events := run.events ++ next.events }) run).events = #[] from h { machine := m } rfl
  induction ds with
  | nil => exact fun _ h => h
  | cons d ds ih =>
    intro run hrun
    refine ih _ ?_
    rw [sentBytes_append, hrun]
    cases d <;> rfl

theorem handheld_spec (c : Cartridge) {image : Option (Array UInt8)}
    (h : ∀ b ∈ image, b.size = bootSize) : ∃ core : Machine Empty,
      (Machine.handheld c image).machine = .ok core ∧ core.cycles = 0 ∧
      (core.attach (.serial { sink := .unlimited })).machine.bus.Linked 0 ∧
      sentBytes (Machine.handheld c image : Assembly Empty).events = #[] := by
  obtain ⟨overlay, hoverlay, -⟩ := BootOverlay.ofImage_of_size c h
  obtain ⟨core, hcore, hwired⟩ := Machine.wired_handheld (π := Empty) hoverlay
  have hcoreWired : core.bus.Wired overlay 0 [] := (hwired []).toWired
  obtain ⟨t, hds⟩ := hcoreWired.devices_eq
  refine ⟨core, hcore, Machine.cycles_handheld hcore, ⟨?_, { sink := .unlimited }, ?_, rfl, rfl⟩, ?_⟩
  · show ∀ d ∈ core.bus.devices ++ [_], _
    rw [hds]
    simp [Bus.wiring, Device.isHost]
  · show (core.bus.devices ++ [_]).filter _ = _
    rw [hds]
    rfl
  · unfold Machine.handheld
    rw [hoverlay]
    dsimp only
    rw [sentBytes_append, sentBytes_append, sentBytes_attachAll, sentBytes_attachAll]
    rfl

/-- What is collected of a run has no part in where it stops. -/
theorem Need.stopped?_congr {run run' : Run Empty} (h : run.outcome = run'.outcome) :
    Need.stopped? run = Need.stopped? run' := by
  obtain ⟨hm, hf⟩ := Prod.mk.inj h
  rw [stopped?, stopped?, hm, hf]

theorem conclude_spec (run : Run Empty) :
    (conclude (fun _ => true) run).2 = Need.stopped? run ∧
      sentBytes (conclude (fun _ => true) run).1 = sentBytes run.events := by
  obtain ⟨m, events, failure⟩ := run
  cases failure with
  | some e => exact ⟨rfl, rfl⟩
  | none =>
    refine ⟨rfl, ?_⟩
    show sentBytes (events ++ Array.filter _ #[.finished _ _ _ _]) = _
    rw [sentBytes_append, sentBytes_filter fun _ => rfl]
    exact Array.append_empty

theorem runMachine_spec {m : Machine Empty} (h : m.bus.Linked 0) (s : Settings) (seen : Array Event) :
    Need.stopped? (runMachine (fun _ => true) s m seen) = Need.stopped? (s.op.run (fun _ => false) m) ∧
      sentBytes (runMachine (fun _ => true) s m seen).events =
        sentBytes seen ++ (transferred 0 (s.op.writes m)).toArray := by
  unfold runMachine Settings.op
  cases s.cycles with
  | some target =>
    exact ⟨Need.stopped?_congr (Machine.outcome_iterate _ _),
      (Machine.transmits_runUntil h target).sent⟩
  | none =>
    refine ⟨Need.stopped?_congr ?_, (Machine.transmits_runFrames h s.frames).sent⟩
    show _ = (m.runFrames (fun _ => false) s.frames #[]).outcome
    rw [Machine.outcome_runFrames, Machine.outcome_runFrames, Machine.frames_eq_follow,
      Machine.frames_eq_follow]
    exact Machine.outcome_follow _

theorem conclude_runMachine {m : Machine Empty} (h : m.bus.Linked 0) (s : Settings)
    {seen : Array Event} (hseen : sentBytes seen = #[]) :
    (conclude (fun _ => true) (runMachine (fun _ => true) s m seen)).2 =
        Need.stopped? (s.op.run (fun _ => false) m) ∧
      sentBytes (conclude (fun _ => true) (runMachine (fun _ => true) s m seen)).1 =
        (transferred 0 (s.op.writes m)).toArray := by
  obtain ⟨hfailure, hsent⟩ := conclude_spec (runMachine (fun _ => true) s m seen)
  obtain ⟨hstop, hrun⟩ := runMachine_spec h s seen
  refine ⟨hfailure.trans hstop, ?_⟩
  rw [hsent, hrun, hseen, Array.empty_append]

/-- What a command gives out on standard output. -/
def output (files : Files) (o : Options) : List UInt8 :=
  match launch? files o with
  | some (m, op) => transferred 0 (op.writes m)
  | none => []

/-- The first complaint is that of the first stage that has one. -/
theorem complaint?_eq (files : Files) (o : Options) : complaint? files o = (fault? o.settings).or
    (((fault? (Cartridge.ofFile files o.romPath).2).map (loadFailure o.romPath)).or
      ((fault? (readBoot files o.boot)).or (Need.run.complaint? files o))) := by
  have hall : Need.all = [.frames, .cycles] ++ ([.romFile, .cartridge] ++
    ([.bootFile, .bootLength] ++ [.run])) := rfl
  rw [complaint?, hall, List.findSome?_append, List.findSome?_append, List.findSome?_append,
    (settings_spec files o).1, (ofFile_spec files o).1, (readBoot_spec files o).1,
    List.findSome?_singleton]

/-- The machine is made of what the stages leave. -/
theorem launch?_eq (files : Files) (o : Options) : launch? files o = (do
    let op ← o.settings.toOption.map Settings.op
    let core ← (Machine.handheld (← (Cartridge.ofFile files o.romPath).2.toOption)
      (← (readBoot files o.boot).toOption)).machine.toOption
    return ((core.attach (.serial { sink := .unlimited })).machine, op)) := by
  rw [(settings_spec files o).2, (ofFile_spec files o).2.1, (readBoot_spec files o).2]
  rfl

theorem perform_spec (files : Files) (o : Options) :
    (perform (fun _ => true) files o).2 = complaint? files o ∧
      sentBytes (perform (fun _ => true) files o).1 = (output files o).toArray := by
  have hfilter (seen : Array Event) : sentBytes (seen.filter fun _ => true) = sentBytes seen :=
    sentBytes_filter (fun _ => rfl) seen
  have hlaunch := launch?_eq files o
  have hloaded := (ofFile_spec files o).2.2
  rw [complaint?_eq, Need.complaint?, output, perform]
  cases hs : o.settings with
  | error f =>
    rw [hs] at hlaunch
    rw [hlaunch]
    exact ⟨rfl, rfl⟩
  | ok s =>
    obtain ⟨hrom, hboot⟩ := settings_paths hs
    rw [hs] at hlaunch
    dsimp only
    rw [hrom, hboot]
    rcases hc : Cartridge.ofFile files o.romPath with ⟨seen, e | c⟩ <;> rw [hc] at hlaunch hloaded
    · rw [hlaunch]
      exact ⟨rfl, (hfilter seen).trans hloaded⟩
    · dsimp only
      cases hb : readBoot files o.boot with
      | error f =>
        rw [hb] at hlaunch
        rw [hlaunch]
        exact ⟨rfl, (hfilter seen).trans hloaded⟩
      | ok image =>
        obtain ⟨core, hcore, -, hlinked, hsent⟩ := handheld_spec c (size_of_readBoot hb)
        have hmade : launch? files o =
            some ((core.attach (.serial { sink := .unlimited })).machine, s.op) := by
          rw [hlaunch, hb]
          show ((Machine.handheld c image).machine.toOption.bind _) = _
          rw [hcore]
          rfl
        rw [hmade]
        dsimp only
        rw [hcore]
        dsimp only
        refine conclude_runMachine hlinked s ?_
        rw [hfilter, sentBytes_append, sentBytes_append, hloaded, hsent]
        rfl

/-! ### What is kept of a command -/

section
variable {keep : Event → Bool} {seen : Array Event}

theorem filter_all (events : Array Event) : (events.filter fun _ => true) = events := by simp

theorem filter_append_all (events events' : Array Event) :
    (events ++ events'.filter fun _ => true).filter keep = events.filter keep ++ events'.filter keep := by
  rw [Array.filter_append (Array.size_append ..), filter_all]

theorem keeping_runMachine (s : Settings) (m : Machine Empty) :
    runMachine keep s m (seen.filter keep) = (runMachine (fun _ => true) s m seen).keeping keep := by
  unfold runMachine
  cases s.cycles with
  | some target =>
    dsimp only
    rw [Machine.runUntil_eq_follow, Machine.runUntil_eq_follow, Machine.keeping_follow]
  | none =>
    have hframes : Machine.frames keep s.frames m (seen.filter keep) =
        (Machine.frames (fun _ => true) s.frames m seen).keeping keep := by
      rw [Machine.frames_eq_follow, Machine.frames_eq_follow, Machine.keeping_follow]
    simp only [Machine.runFrames, hframes, Run.keeping]
    split
    · rw [filter_append_all]
    · rfl

theorem keeping_conclude (run : Run Empty) : conclude keep (run.keeping keep) =
    ((conclude (fun _ => true) run).1.filter keep, (conclude (fun _ => true) run).2) := by
  obtain ⟨m, events, failure⟩ := run
  cases failure with
  | some e => rfl
  | none => exact congrArg (·, none) (filter_append_all events _).symm

/-- What is kept of a command has no part in what it does. -/
theorem keeping_perform (files : Files) (o : Options) : perform keep files o =
    ((perform (fun _ => true) files o).1.filter keep, (perform (fun _ => true) files o).2) := by
  have hall (seen : Array Event) : seen.filter keep = (seen.filter fun _ => true).filter keep := by
    rw [filter_all]
  unfold perform
  cases o.settings with
  | error e => rfl
  | ok s =>
    dsimp only
    rcases Cartridge.ofFile files s.rom with ⟨seen, e | c⟩
    · exact congrArg (·, _) (hall seen)
    · dsimp only
      cases readBoot files s.boot with
      | error e => exact congrArg (·, _) (hall seen)
      | ok image =>
        dsimp only
        cases (Machine.handheld c image : Assembly Empty).machine with
        | error e => exact congrArg (·, _) (hall _)
        | ok core =>
          dsimp only
          rw [keeping_runMachine, keeping_conclude, filter_all]

end

/-! ### Needs that are met -/

theorem findSome?_complaint?_eq_none {needs : List Need} :
    needs.findSome? (·.complaint? files o) = none ↔ ∀ need ∈ needs, need.Met files o := by
  simp only [List.findSome?_eq_none_iff, Need.complaint?_eq_none]

theorem complaint?_eq_none : complaint? files o = none ↔ ∀ need : Need, need.Met files o := by
  have hall (need : Need) : need ∈ Need.all := by cases need <;> decide
  rw [complaint?, findSome?_complaint?_eq_none]
  exact ⟨fun h need => h need (hall need), fun h need _ => h need⟩

/-- All that comes before the run is well if no stage has a fault. -/
theorem met_iff_stages : (∀ need : Need, need ≠ .run → need.Met files o) ↔ fault? o.settings = none ∧
    fault? (Cartridge.ofFile files o.romPath).2 = none ∧ fault? (readBoot files o.boot) = none := by
  have hrom : fault? (Cartridge.ofFile files o.romPath).2 = none ↔
      ∀ need ∈ [Need.romFile, .cartridge], need.Met files o := by
    rw [← Option.map_eq_none_iff, (ofFile_spec files o).1, findSome?_complaint?_eq_none]
  rw [hrom, (settings_spec files o).1, (readBoot_spec files o).1, findSome?_complaint?_eq_none,
    findSome?_complaint?_eq_none]
  constructor
  · intro h
    simp only [List.forall_mem_cons, List.not_mem_nil, false_implies, implies_true, and_true]
    exact ⟨⟨h _ nofun, h _ nofun⟩, ⟨h _ nofun, h _ nofun⟩, h _ nofun, h _ nofun⟩
  · rintro ⟨hnumbers, hcartridge, hboot⟩ need hne
    cases need with
    | frames | cycles => exact hnumbers _ (by decide)
    | romFile | cartridge => exact hcartridge _ (by decide)
    | bootFile | bootLength => exact hboot _ (by decide)
    | run => exact absurd rfl hne

theorem complaint?_of_met (h : ∀ need : Need, need ≠ .run → need.Met files o) :
    complaint? files o = Need.run.complaint? files o := by
  obtain ⟨hnumbers, hcartridge, hboot⟩ := met_iff_stages.1 h
  rw [complaint?_eq, hnumbers, hcartridge, hboot]
  rfl

/-- Then, and only then, is the machine made. -/
theorem launch?_isSome :
    (launch? files o).isSome ↔ ∀ need : Need, need ≠ .run → need.Met files o := by
  rw [met_iff_stages, launch?_eq]
  cases o.settings with
  | error f => exact iff_of_false nofun nofun
  | ok s =>
    cases (Cartridge.ofFile files o.romPath).2 with
    | error e => exact iff_of_false nofun nofun
    | ok c =>
      cases hb : readBoot files o.boot with
      | error f => exact iff_of_false nofun nofun
      | ok image =>
        obtain ⟨core, hcore, -⟩ := handheld_spec c (size_of_readBoot hb)
        refine iff_of_true ?_ ⟨rfl, rfl, rfl⟩
        show ((Machine.handheld c image).machine.toOption.bind _).isSome
        rw [hcore]
        rfl

theorem cycles_of_launch? {m : Machine Empty} {op : HostOp} (h : launch? files o = some (m, op)) :
    m.cycles = 0 := by
  simp only [launch?, Option.bind_eq_bind, Option.bind_eq_some_iff] at h
  obtain ⟨op', -, c, -, image, -, core, hcore, hm⟩ := h
  cases hm
  cases hmade : (Machine.handheld c image : Assembly Empty).machine with
  | error e =>
    rw [hmade] at hcore
    cases hcore
  | ok core' =>
    rw [hmade] at hcore
    cases hcore
    show core.cycles = 0
    exact Machine.cycles_handheld hmade

/-! ### The log -/

/-- The records that a command makes, whether its log shows them or not. -/
def records (files : Files) (o : Options) : List Event :=
  (perform (fun _ => true) files o).1.toList.filter (·.level?.isSome)

/-- There is no event that is severe enough for a log of errors alone. -/
theorem level?_ne_error (e : Event) : e.level? ≠ some .error := by
  cases e <;> simp [Event.level?]

namespace Libraries
variable {lib : Libraries}

theorem visible_of_logged {e : Event} {entry : String} (h : lib.logged e = some entry) :
    lib.visible e = true := by
  unfold visible
  split
  · rfl
  · rw [h]
    rfl

/-- What stands in the log does not depend on what else is seen. -/
theorem filterMap_logged_visible (events : Array Event) :
    (events.filter lib.visible).toList.filterMap lib.logged =
      (events.toList.filter (·.level?.isSome)).filterMap lib.entry? := by
  rw [Array.toList_filter, List.filterMap_filter, List.filterMap_filter]
  congr 1
  funext e
  show (if lib.visible e then lib.logged e else none) = lib.logged e
  cases h : lib.logged e with
  | none => exact ite_self none
  | some entry => exact if_pos (visible_of_logged h)

end Libraries

/-! ### The report -/

/-- With cycles to run to, the frames count for nothing as long as they are a number. -/
theorem perform_frames {keep : Event → Bool} {text : Option String} {n k : Nat}
    (hcycles : o.cycles.isSome) (hn : Decimal.Denotes o.framesText n)
    (hk : Decimal.Denotes (text.getD "60") k) :
    perform keep files { o with frames := text } = perform keep files o := by
  obtain ⟨cycles, hcycles⟩ := Option.isSome_iff_exists.1 hcycles
  have hnumber {text : String} {n : Nat} (h : Decimal.Denotes text n) :
      number "--frames" text = .ok n := by
    rw [number, Decimal.parse_eq_ok.2 h]
    rfl
  have hframes : Options.framesText { o with frames := text } = text.getD "60" := rfl
  have hpath : Options.romPath { o with frames := text } = o.romPath := rfl
  unfold perform Options.settings
  rw [hframes, hpath, hcycles, hnumber hn, hnumber hk]
  cases hc : number "--cycles" cycles with
  | error f => simp [hc, bind, Except.bind]
  | ok target => simp [hc, bind, Except.bind, pure, Except.pure, runMachine]

/-- What the report of a command says. -/
structure Accounts (lib : Libraries) (files : Files) (o : Options) (r : Report) : Prop where
  succeeds : r.exitCode = 0 ↔ ∀ need : Need, need.Met files o
  fails : r.exitCode ≠ 0 → r.exitCode = 1
  /-- Behind the log stands the complaint about the first need that is not met, and no other. -/
  complains : r.stderr = lib.warnings ++ (records files o).filterMap lib.entry? ++
    ((complaint? files o).map lib.display).getD []
  /-- It is all there is where the log is set to show errors alone. -/
  quiet : lib.warnings = [] → (∀ e, e.level? ≠ some .error → lib.entry? e = none) →
    r.stderr = ((complaint? files o).map lib.display).getD []
  /-- Where no machine is made nothing is sent. -/
  silent (need : Need) : need ≠ .run → ¬ need.Met files o → r.stdout = #[]
  /-- Otherwise the machine runs, and what is written in its run decides what is sent. If a cycle of the
  run fails, its number is reported. -/
  sends : (∀ need : Need, need ≠ .run → need.Met files o) →
    ∃ m op, launch? files o = some (m, op) ∧ r.stdout = (transferred 0 (op.writes m)).toArray ∧
      ∀ e, (op.run (fun _ => false) m).failure = some e → ∃ T m',
        T ++ [.cycle] <+: op.moments 0 ∧ Machine.Passes m T m' ∧
        m'.cycle.outcome = (op.run (fun _ => false) m).outcome ∧
        complaint? files o = some
          { context := "stopped at cycle " ++ toString (T.count .cycle + 1), causes := [e.message] }

theorem accounts (lib : Libraries) (files : Files) (o : Options) :
    Accounts lib files o (lib.report files o) := by
  obtain ⟨hfailure, hsent⟩ := perform_spec files o
  have hstderr : (lib.report files o).stderr = lib.warnings ++
      (records files o).filterMap lib.entry? ++ ((complaint? files o).map lib.display).getD [] := by
    rw [← hfailure, records, ← Libraries.filterMap_logged_visible, Libraries.report, keeping_perform]
  have hreport : lib.report files o =
      { exitCode := if (complaint? files o).isNone then 0 else 1
        stdout := (output files o).toArray
        stderr := lib.warnings ++ (records files o).filterMap lib.entry? ++
          ((complaint? files o).map lib.display).getD [] } := by
    rw [← hfailure, ← hsent, ← sentBytes_filter (fun _ => rfl : ∀ byte, lib.visible (.sent byte) = true),
      hfailure, ← hstderr, Libraries.report, keeping_perform, hfailure]
  rw [hreport]
  constructor
  · rw [← complaint?_eq_none]
    cases complaint? files o <;> simp
  · dsimp only
    split <;> simp
  · rfl
  · intro hwarnings hentry
    have hempty : (records files o).filterMap lib.entry? = [] :=
      List.filterMap_eq_nil_iff.2 fun e _ => hentry e (level?_ne_error e)
    dsimp only
    rw [hwarnings, hempty, List.nil_append, List.nil_append]
  · intro need hne hnot
    have hnone : launch? files o = none :=
      Option.not_isSome_iff_eq_none.1 fun h => hnot (launch?_isSome.1 h need hne)
    rw [output, hnone]
  · intro hmet
    obtain ⟨⟨m, op⟩, hlaunch⟩ := Option.isSome_iff_exists.1 (launch?_isSome.2 hmet)
    refine ⟨m, op, hlaunch, by rw [output, hlaunch], fun e he => ?_⟩
    obtain ⟨T, m', hcut, hpass, hout, hcycles⟩ := Machine.stops_at he
    rw [cycles_of_launch? hlaunch] at hcut hcycles
    refine ⟨T, m', hcut, hpass, hout, ?_⟩
    rw [complaint?_of_met hmet, Need.complaint?, hlaunch]
    show Need.stopped? (op.run _ m) = _
    rw [Need.stopped?, he, hcycles, UInt64.toNat_zero, Nat.zero_add]
    rfl

/-- Whatever there is in the files, a command whose command line is accepted reports what is to be
reported. A command line with other frames is reported alike where cycles are given. -/
theorem report_accounts (lib : Libraries) (files : Files) {args : List String} {o : Options}
    (h : lib.options? args = some o) : ∃ r, lib.run? files args = some r ∧ Accounts lib files o r ∧
      ∀ args' text n k, lib.options? args' = some { o with frames := text } → o.cycles.isSome →
        Decimal.Denotes o.framesText n → Decimal.Denotes (text.getD "60") k →
        lib.run? files args' = some r := by
  refine ⟨lib.report files o, by rw [Libraries.run?, h, Option.map_some], accounts lib files o, ?_⟩
  intro args' text n k h' hcycles hn hk
  rw [Libraries.run?, h', Option.map_some, Libraries.report, perform_frames hcycles hn hk]
  rfl

/-- A boot image that sends an A and then has no opcode: LD A,41; LDH (01),A; LD A,81; LDH (02),A. The
cycles are given, so that other frames make no difference. -/
theorem report_accounts_stopped :
    let image : Array UInt8 :=
      #[0x3E, 0x41, 0xE0, 0x01, 0x3E, 0x81, 0xE0, 0x02, 0xDD] ++ Array.replicate 247 0
    let files : Files := fun path =>
      if path = "game" then .ok (.replicate romSize 0)
      else if path = "boot" then .ok image
      else .error .notFound
    let lib := LogSettings.libraries {}
    ∃ r, lib.run? files ["--boot", "boot", "--cycles=20", "game"] = some r ∧
      lib.run? files ["game", "--frames", "3", "--cycles", "20", "--boot=boot"] = some r ∧
      r.exitCode = 1 ∧ r.stdout = #[0x41] ∧ r.stderr = ["Error: stopped at cycle 11", "", "Caused by:",
        "    unsupported opcode 0xdd at pc 0x0008"] := by
  intro image files lib
  let o : Options :=
    { rom := some "game", boot := some "boot", frames := some "60", cycles := some "20" }
  have h : lib.options? ["--boot", "boot", "--cycles=20", "game"] = some o :=
    ofArguments?_items [.apart .boot "boot", .joined .cycles "20", .rom "game"]
      (by simp [Item.Proper]) (by decide) rfl
  have h' : lib.options? ["game", "--frames", "3", "--cycles", "20", "--boot=boot"] =
      some { o with frames := some "3" } :=
    ofArguments?_items [.rom "game", .apart .frames "3", .apart .cycles "20",
      .joined .boot "boot"] (by simp [Item.Proper]) (by decide) rfl
  have hsixty : Decimal.Denotes "60" 60 := Decimal.parse_eq_ok.1 (by decide +kernel)
  have hthree : Decimal.Denotes "3" 3 := Decimal.parse_eq_ok.1 (by decide +kernel)
  obtain ⟨r, hr, hacc, hframes⟩ := report_accounts lib files h
  let c : Cartridge := ⟨⟨⟨.replicate romSize 0, Array.size_replicate⟩⟩⟩
  have hc : cartridge? files o = some c := by
    have hfile : files o.romPath = .ok (.replicate romSize 0) := if_pos rfl
    have himage : Cartridge.ofImage (.replicate romSize 0) = .ok c := by
      refine Cartridge.ofImage_of_size _ ?_
      rw [Array.getElem?_replicate, if_pos (by decide)]
    rw [cartridge?, hfile, Except.toOption, Option.bind_some, himage, Except.toOption]
  have hlaunch : launch? files o = (Machine.handheld c (some image)).machine.toOption.map fun core =>
      ((core.attach (.serial { sink := .unlimited })).machine, .runUntil 20) := by
    have hop : duration? o = some (.runUntil 20) := by decide +kernel
    have hboot : boot? files o = some (some image) := by
      have hsize : image.size = bootSize := by simp [image, bootSize]
      simp [boot?, files, o, Except.toOption, Option.filter_some, hsize]
    simp only [launch?, hop, hc, hboot, Option.bind_eq_bind, Option.bind_some]
    cases (Machine.handheld c (some image)).machine.toOption <;> rfl
  have hrun : (launch? files o).map (fun (m, op) =>
      let run := op.run (fun _ => false) m
      (run.failure, run.machine.cycles, transferred 0 (op.writes m))) =
        some (some ⟨8, 0xDD⟩, 11, [0x41]) := by
    rw [hlaunch]
    decide +kernel
  obtain ⟨⟨m, op⟩, hm, hrun⟩ := Option.map_eq_some_iff.1 hrun
  simp only [Prod.mk.injEq] at hrun
  obtain ⟨hfail, hcycles, hsent⟩ := hrun
  have hmet := launch?_isSome.1 (Option.isSome_of_eq_some hm)
  have hcomplaint : complaint? files o =
      some { context := "stopped at cycle 11", causes := [IllegalOpcode.message ⟨8, 0xDD⟩] } := by
    rw [complaint?_of_met hmet, Need.complaint?, hm]
    show Need.stopped? (op.run _ m) = _
    rw [Need.stopped?, hfail, hcycles]
    rfl
  have hquiet (e : Event) (_ : e.level? ≠ some .error) : lib.entry? e = none := by
    cases e <;> rfl
  refine ⟨r, hr, hframes _ _ 60 3 h' rfl hsixty hthree, hacc.fails fun hzero => ?_, ?_,
    (hacc.quiet rfl hquiet).trans ?_⟩
  · have hnone := complaint?_eq_none.2 (hacc.succeeds.1 hzero)
    rw [hcomplaint] at hnone
    cases hnone
  · obtain ⟨m', op', hm', hout, -⟩ := hacc.sends hmet
    rw [hm] at hm'
    cases hm'
    rw [hout, hsent]
  · rw [hcomplaint]
    decide +kernel

end Dmg.CommandLine
