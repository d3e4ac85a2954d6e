import Dmg.CommandLine.Arguments
import Dmg.Decimal

/-! # What arguments say

The texts that are read as numbers, told without the order of reading: digits with a plus sign before
them or not, that stand for a number of 64 bits (`Decimal.parse_eq_ok`). And the command lines that are
read for what they give, in whatever order and way they give it (`CommandLine.ofArguments?_items`). -/

namespace Dmg

/-! ### Numbers -/

namespace Decimal

/-- The number that the digits of `n` and these stand for. -/
def value (digits : List Char) (n : Nat) : Nat :=
  digits.foldl (fun n c => 10 * n + (c.toNat - '0'.toNat)) n

/-- The text is that of the number. -/
def Denotes (text : String) (n : Nat) : Prop :=
  ∃ digits, (text.toList = digits ∨ text.toList = '+' :: digits) ∧ digits ≠ [] ∧
    (∀ c ∈ digits, c.isDigit) ∧ value digits 0 = n ∧ n < UInt64.size

variable {text : String} {cs : List Char} {k n : Nat}

theorem le_value (cs : List Char) (k : Nat) : k ≤ value cs k := by
  induction cs generalizing k with
  | nil => exact Nat.le_refl k
  | cons c cs ih =>
    have hstep : k ≤ 10 * k + (c.toNat - '0'.toNat) := by omega
    exact Nat.le_trans hstep (ih _)

theorem ofDigits_cons (c : Char) (cs : List Char) (k : Nat) :
    ofDigits (c :: cs) k =
      if c.isDigit then
        if 10 * k + (c.toNat - '0'.toNat) < UInt64.size then
          ofDigits cs (10 * k + (c.toNat - '0'.toNat))
        else .error .tooLarge
      else .error .digit := rfl

/-- A number that is too large stays so, whatever digits follow. -/
theorem ofDigits_eq_ok (hk : k < UInt64.size) :
    ofDigits cs k = .ok n ↔ (∀ c ∈ cs, c.isDigit) ∧ value cs k = n ∧ n < UInt64.size := by
  induction cs generalizing k with
  | nil =>
    show Except.ok k = .ok n ↔ _
    rw [Except.ok.injEq]
    exact ⟨fun h => ⟨by simp, h, h ▸ hk⟩, fun h => h.2.1⟩
  | cons c cs ih =>
    rw [ofDigits_cons, List.forall_mem_cons]
    by_cases hc : c.isDigit
    · by_cases hfits : 10 * k + (c.toNat - '0'.toNat) < UInt64.size
      · rw [if_pos hc, if_pos hfits, ih hfits, and_iff_right hc]
        rfl
      · have hle := le_value cs (10 * k + (c.toNat - '0'.toNat))
        rw [if_pos hc, if_neg hfits]
        refine iff_of_false nofun fun ⟨_, hn, hlt⟩ => hfits ?_
        exact Nat.lt_of_le_of_lt hle (hn ▸ hlt)
    · rw [if_neg hc]
      exact iff_of_false nofun fun h => hc h.1.1

theorem parse_eq_ok : parse text = .ok n ↔ Denotes text n := by
  unfold parse Denotes
  split
  · next h => simp [h]
  · next c cs h =>
    rw [ofDigits_eq_ok (by decide), h]
    constructor
    · exact fun hd => ⟨c :: cs, .inr rfl, List.cons_ne_nil c cs, hd⟩
    · rintro ⟨digits, rfl | hd, -, hall, hval⟩
      · exact absurd (hall '+' List.mem_cons_self) (by decide)
      · cases hd
        exact ⟨hall, hval⟩
  · next hnil hplus =>
    rw [ofDigits_eq_ok (by decide)]
    constructor
    · exact fun hd => ⟨_, .inl rfl, hnil, hd⟩
    · rintro ⟨digits, rfl | hd, hne, hall, hval⟩
      · exact ⟨hall, hval⟩
      · obtain ⟨c, ds, rfl⟩ := List.exists_cons_of_ne_nil hne
        exact absurd hd (hplus c ds)

end Decimal

/-! ### Command lines -/

namespace CommandLine

/-- The name of a switch, without the dashes. -/
def Switch.name : Switch → String
  | boot => "boot"
  | frames => "frames"
  | cycles => "cycles"

/-- What a command line is made of: the cartridge image, and switches with a value that is joined to
them or stands behind them. -/
inductive Item where
  | rom (path : String)
  | joined (s : Switch) (value : String)
  | apart (s : Switch) (value : String)

namespace Item

def arguments : Item → List String
  | rom path => [path]
  | joined s value => ["--" ++ s.name ++ "=" ++ value]
  | apart s value => ["--" ++ s.name, value]

/-- An argument that stands alone does not look like a switch, and a value that is joined to one does
not begin with a further equals sign. -/
def Proper : Item → Prop
  | rom text | apart _ text => ∀ c cs, text.toList ≠ '-' :: c :: cs
  | joined _ value => ∀ cs, value.toList ≠ '=' :: cs

/-- The switch that it gives a text for; none is the cartridge image. -/
def key : Item → Option Switch
  | rom _ => none
  | joined s _ | apart s _ => some s

def text : Item → String
  | rom text | joined _ text | apart _ text => text

/-- The text that some items give. -/
def given (items : List Item) (key : Option Switch) : Option String :=
  (items.find? (·.key = key)).map text

end Item

namespace Collected
variable {c : Collected}

/-- What was read for a switch, or for the cartridge image. -/
def find (c : Collected) : Option Switch → Option (Option String)
  | none => c.rom.map some
  | some s => c.get s

def put (c : Collected) : Item → Collected
  | .rom path => { c with rom := some path }
  | .joined s value | .apart s value => c.set s (some value)

theorem get_set (c : Collected) (s s' : Switch) (v : Option String) :
    (c.set s v).get s' = if s = s' then some v else c.get s' := by
  cases s <;> cases s' <;> rfl

theorem rom_set (c : Collected) (s : Switch) (v : Option String) : (c.set s v).rom = c.rom := by
  cases s <;> rfl

theorem find_put (c : Collected) (i : Item) (k : Option Switch) :
    (c.put i).find k = if i.key = k then some (some i.text) else c.find k := by
  cases i with
  | rom path => cases k <;> rfl
  | joined s value | apart s value =>
    cases k with
    | none => exact congrArg (Option.map some) (c.rom_set s _)
    | some s' => simp [put, find, get_set, Item.key, Item.text]

theorem set_set (s : Switch) (v v' : Option String) : (c.set s v).set s v' = c.set s v' := by
  cases s <;> rfl

end Collected

variable {c : Collected} {rest : List String}

theorem toList_switch (s : Switch) : ("--" ++ s.name).toList = '-' :: '-' :: s.name.toList := by
  cases s <;> rfl

theorem splitLong_joined (s : Switch) {value : String} (h : ∀ cs, value.toList ≠ '=' :: cs) :
    splitLong ("--" ++ s.name ++ "=" ++ value).toList = (s.name.toList, some value) := by
  have hvalue : value.toList.dropWhile (· = '=') = value.toList := by
    cases hcs : value.toList with
    | nil => rfl
    | cons c cs =>
      have hc : c ≠ '=' := by
        rintro rfl
        exact h cs hcs
      exact List.dropWhile_cons_of_neg (by simpa using hc)
  rw [String.toList_append, String.toList_append, toList_switch]
  cases s <;> simp [splitLong, Switch.name, hvalue]

theorem splitLong_apart (s : Switch) : splitLong ("--" ++ s.name).toList = (s.name.toList, none) := by
  cases s <;> decide +kernel

theorem ofName?_name (s : Switch) : Switch.ofName? s.name.toList = some s := by
  cases s <;> rfl

/-- An argument that does not look like a switch is the value that is awaited, or the cartridge image.
-/
theorem collect_plain {awaiting : Option Switch} {arg : String}
    (h : ∀ c cs, arg.toList ≠ '-' :: c :: cs) : collect false awaiting (arg :: rest) c =
      match awaiting with
      | some s => collect false none rest (c.set s (some arg))
      | none => (c.setRom? arg).bind (collect false none rest) := by
  rw [collect.eq_def]
  simp only [Bool.false_eq_true, if_false]
  split
  · next heq => exact absurd heq (h _ _)
  · next heq => exact absurd heq (h _ _)
  · next heq => exact absurd heq (h _ _)
  · cases awaiting <;> rfl

theorem collect_switch {awaiting : Option Switch} {arg : String} {s : Switch} {value : Option String}
    (harg : ∃ c cs, arg.toList = '-' :: '-' :: c :: cs)
    (hsplit : splitLong arg.toList = (s.name.toList, value)) (hfresh : c.get s = none) :
    collect false awaiting (arg :: rest) c =
      collect false (if value.isNone then some s else none) rest (c.set s value) := by
  obtain ⟨d, ds, harg⟩ := harg
  rw [collect.eq_def]
  simp only [Bool.false_eq_true, if_false]
  split
  · next heq => cases harg.symm.trans heq
  · simp only [hsplit, ofName?_name, hfresh, Option.isSome_none, Bool.false_eq_true, if_false]
  · next hnot heq =>
    rw [harg] at heq
    cases heq
    exact absurd rfl hnot
  · next hnot => exact absurd harg (hnot _ _)

theorem collect_item {i : Item} (hproper : i.Proper) (hfresh : c.find i.key = none) :
    collect false none (i.arguments ++ rest) c = collect false none rest (c.put i) := by
  cases i with
  | rom path =>
    have hrom : c.rom = none := Option.map_eq_none_iff.1 hfresh
    rw [Item.arguments, List.singleton_append, collect_plain hproper, Collected.setRom?, hrom]
    rfl
  | joined s value =>
    rw [Item.arguments, List.singleton_append, collect_switch ?_ (splitLong_joined s hproper) hfresh]
    · rfl
    · cases s <;> simp [Switch.name]
  | apart s value =>
    show collect false none (("--" ++ s.name) :: value :: rest) c = _
    rw [collect_switch ?_ (splitLong_apart s) hfresh]
    · show collect false (some s) (value :: rest) _ = _
      rw [collect_plain hproper]
      show collect false none rest ((c.set s none).set s (some value)) = _
      rw [Collected.set_set]
      rfl
    · cases s <;> simp [Switch.name]

/-- Items in any order are read as what they give. -/
theorem collect_items {items : List Item} (hproper : ∀ i ∈ items, i.Proper)
    (hkeys : (items.map Item.key).Nodup) (hfresh : ∀ i ∈ items, c.find i.key = none) :
    ∃ c', collect false none (items.flatMap Item.arguments) c = some c' ∧
      ∀ k, c'.find k = ((Item.given items k).map some).or (c.find k) := by
  induction items generalizing c with
  | nil => exact ⟨c, rfl, fun k => rfl⟩
  | cons i items ih =>
    obtain ⟨hi, hproper⟩ := List.forall_mem_cons.1 hproper
    obtain ⟨hfirst, hfresh⟩ := List.forall_mem_cons.1 hfresh
    rw [List.map_cons, List.nodup_cons] at hkeys
    obtain ⟨hnew, hkeys⟩ := hkeys
    have hrest : ∀ j ∈ items, (c.put i).find j.key = none := by
      intro j hj
      have hne : i.key ≠ j.key := fun h => hnew (h ▸ List.mem_map_of_mem hj)
      rw [Collected.find_put, if_neg hne]
      exact hfresh j hj
    obtain ⟨c', hc', hfind⟩ := ih hproper hkeys hrest
    refine ⟨c', ?_, fun k => ?_⟩
    · rw [List.flatMap_cons, collect_item hi hfirst, hc']
    · rw [hfind, Collected.find_put, Item.given, Item.given]
      by_cases hk : i.key = k
      · have hnone : items.find? (·.key = k) = none := by
          refine List.find?_eq_none.2 fun j hj => ?_
          simpa using fun h : j.key = k => hnew (hk ▸ h ▸ List.mem_map_of_mem hj)
        rw [if_pos hk, hnone, List.find?_cons_of_pos (by simpa using hk)]
        rfl
      · rw [if_neg hk, List.find?_cons_of_neg (by simpa using hk)]

/-- Every text that a command line gives is delivered, in whatever order and way it is given, and the
frames are 60 where it gives none. -/
theorem ofArguments?_items (items : List Item) (hproper : ∀ i ∈ items, i.Proper)
    (hkeys : (items.map Item.key).Nodup) {path : String} (hrom : Item.given items none = some path) :
    Options.ofArguments? (items.flatMap Item.arguments) = some
      { rom := some path
        boot := Item.given items (some .boot)
        frames := some ((Item.given items (some .frames)).getD "60")
        cycles := Item.given items (some .cycles) } := by
  have hempty (k : Option Switch) : ({} : Collected).find k = none := by
    rcases k with _ | _ | _ | _ <;> rfl
  obtain ⟨c, hc, hfind⟩ := collect_items hproper hkeys fun i _ => hempty i.key
  have hread (k : Option Switch) : c.find k = (Item.given items k).map some := by
    rw [hfind, hempty, Option.or_none]
  have hcrom : c.rom = some path := by
    have h := hread none
    rw [hrom] at h
    exact Option.map_injective (fun _ _ => Option.some.inj) h
  have hgiven (s : Switch) : given? (c.get s) = some (Item.given items (some s)) := by
    rw [show c.get s = _ from hread (some s)]
    cases Item.given items (some s) <;> rfl
  have hframes : (c.frames.bind id) = Item.given items (some .frames) := by
    rw [show c.frames = _ from hread (some .frames)]
    cases Item.given items (some .frames) <;> rfl
  have hboot : given? c.boot = _ := hgiven .boot
  have hcycles : given? c.cycles = _ := hgiven .cycles
  rw [Options.ofArguments?, hc, Option.bind_some, Collected.toOptions?, hcrom, hboot, hcycles, hframes]
  rfl

end CommandLine

end Dmg
