/-! # Marks on the places of a text

Sets of places are the bits of numbers (`Places`), and marks are a set for each place (`Marks`).
With a second table, in which each place has the places it is turned to, marks are taken along one
turn (`Marks.through`) or along any number of turns (`Marks.close`). No turn leads back, so the last
places come first, and places whose marks are known together are passed over. Nothing is lost by
that, as `Marks.testBit_through` and `Marks.testBit_close` say. -/

namespace Dmg

/-! ### Sets of places -/

/-- A set of places, each as one bit. -/
abbrev Places := Nat

namespace Places

/-- Without the first place. -/
def dropFirst (places : Places) : Places := places &&& (places - 1)

/-- The first place. -/
def first (places : Places) : Nat := (places ^^^ dropFirst places).log2

/-- The places after place `i`. -/
def after (places : Places) (i : Nat) : Places := (places >>> (i + 1)) <<< (i + 1)

/-- The places of the first set that are not in the second. -/
def without (places others : Places) : Places := places &&& (places ^^^ others)

theorem without_le (places others : Places) : without places others ≤ places := Nat.and_le_left

theorem testBit_without (places others : Places) (i : Nat) :
    (without places others).testBit i = (places.testBit i && !others.testBit i) := by
  rw [without, Nat.testBit_and, Nat.testBit_xor]
  cases places.testBit i <;> cases others.testBit i <;> rfl

theorem testBit_after_iff {places : Places} {i j : Nat} :
    (after places i).testBit j = true ↔ i < j ∧ places.testBit j := by
  rw [after, Nat.testBit_shiftLeft, Nat.testBit_shiftRight, Bool.and_eq_true, decide_eq_true_eq]
  exact and_congr_right fun h => by rw [Nat.add_sub_cancel' h]

theorem dropFirst_lt {n : Nat} (h : n ≠ 0) : dropFirst n < n :=
  Nat.lt_of_le_of_lt Nat.and_le_right (Nat.sub_one_lt h)

theorem dropFirst_double {n : Nat} (h : n ≠ 0) : dropFirst (2 * n) = 2 * dropFirst n := by
  have pred : 2 * n - 1 = 2 * (n - 1) + 1 := by omega
  have half : (2 * (n - 1) + 1) / 2 = n - 1 := by omega
  apply Nat.eq_of_testBit_eq
  rintro (_ | i)
  · simp [dropFirst]
  · rw [dropFirst, pred, Nat.testBit_and, Nat.testBit_succ, Nat.testBit_succ, half,
      Nat.testBit_succ]
    simp [dropFirst]

theorem dropFirst_double_add_one (n : Nat) : dropFirst (2 * n + 1) = 2 * n := by
  have half : (2 * n + 1) / 2 = n := by omega
  apply Nat.eq_of_testBit_eq
  rintro (_ | i)
  · simp [dropFirst]
  · rw [dropFirst, Nat.testBit_and, Nat.testBit_succ, half, Nat.add_sub_cancel, Nat.testBit_succ]
    simp

theorem xor_dropFirst_ne_zero {n : Nat} (h : n ≠ 0) : n ^^^ dropFirst n ≠ 0 := by
  intro h'
  refine absurd (Nat.eq_of_testBit_eq fun i => ?_) (Nat.ne_of_gt (dropFirst_lt h))
  have := congrArg (·.testBit i) h'
  simpa using this

theorem first_double {n : Nat} (h : n ≠ 0) : first (2 * n) = first n + 1 := by
  have : 2 * n ^^^ 2 * dropFirst n = 2 * (n ^^^ dropFirst n) := by
    apply Nat.eq_of_testBit_eq
    rintro (_ | i)
    · simp
    · simp [Nat.testBit_succ, Nat.xor_div_two]
  rw [first, dropFirst_double h, this, Nat.log2_two_mul (xor_dropFirst_ne_zero h), first]

theorem first_double_add_one (n : Nat) : first (2 * n + 1) = 0 := by
  have : (2 * n + 1) ^^^ (2 * n) = 1 := by
    have half : (2 * n + 1) / 2 = n := by omega
    apply Nat.eq_of_testBit_eq
    rintro (_ | i)
    · simp
    · rw [Nat.testBit_xor, Nat.testBit_succ, Nat.testBit_succ, half]
      simp [Nat.testBit_succ]
  rw [first, dropFirst_double_add_one, this]
  rfl

/-- A set has the first place and the others. -/
theorem testBit_eq {n : Nat} (h : n ≠ 0) (i : Nat) :
    n.testBit i = (decide (i = first n) || (dropFirst n).testBit i) := by
  induction n using Nat.strongRecOn generalizing i with
  | _ n ih =>
    rcases Nat.mod_two_eq_zero_or_one n with h' | h'
    · obtain ⟨m, rfl⟩ : ∃ m, n = 2 * m := ⟨n / 2, by omega⟩
      have hm : m ≠ 0 := by omega
      rw [dropFirst_double hm, first_double hm]
      cases i with
      | zero => simp
      | succ i => simp [Nat.testBit_succ, ih m (by omega) hm i]
    · obtain ⟨m, rfl⟩ : ∃ m, n = 2 * m + 1 := ⟨n / 2, by omega⟩
      have half : (2 * m + 1) / 2 = m := by omega
      rw [dropFirst_double_add_one, first_double_add_one]
      cases i with
      | zero => simp
      | succ i => simp [Nat.testBit_succ, half]

end Places

/-! ### Marks -/

/-- For each place of a text, a set of marks, of which each is a place as well. -/
abbrev Marks := Array Places

namespace Marks

/-- The marks on place `i`. -/
def get (marks : Marks) (i : Nat) : Places := marks[i]?.getD 0

/-- Each place of a text with `n` characters marked with itself. -/
def ofPlaces (n : Nat) : Marks := (Array.range (n + 1)).map (1 <<< ·)

/-- What is known, and all marks on the places of a set, from the first place on. If the places that
a place is turned to are all in the set, then `done` has their marks together. -/
def gather (turn marks done : Marks) (places known : Places) : Places :=
  if _ : places = 0 then known
  else
    let i := places.first
    let known := known ||| marks.get i
    let onward := turn.get i
    if places &&& onward = onward then
      gather turn marks done (places.dropFirst.without onward) (known ||| done.get i)
    else gather turn marks done places.dropFirst known
termination_by places
decreasing_by
  · exact Nat.lt_of_le_of_lt (Places.without_le ..) (Places.dropFirst_lt ‹_›)
  · exact Places.dropFirst_lt ‹_›

/-- Each place with the marks on the places it is turned to. -/
def through (turn marks : Marks) : Marks :=
  (List.range marks.size).foldr (fun i done =>
    let places := turn.get i
    let here := if places.testBit i then marks.get i else 0
    done.setIfInBounds i (gather turn marks done (places.after i) here))
    (Array.replicate marks.size 0)

def union (a b : Marks) : Marks := a.zipWith (· ||| ·) b

/-- Each place with the marks that any number of turns leads to. -/
def close (turn marks : Marks) : Marks :=
  (List.range marks.size).foldr (fun i marks =>
    marks.setIfInBounds i (gather turn marks marks ((turn.get i).after i) (marks.get i))) marks

theorem get_setIfInBounds (marks : Marks) (i j : Nat) (m : Places) :
    get (marks.setIfInBounds i m) j = if i = j ∧ i < marks.size then m else marks.get j := by
  rw [get, Array.getElem?_setIfInBounds]
  by_cases h : i = j
  · subst h
    by_cases hi : i < marks.size
    · simp [hi]
    · simp [hi, get]
  · simp [h, get]

/-- Nothing is lost by passing over places, if `done` has all the marks on the places that a place
is turned to, and none but these and its own. -/
theorem testBit_gather {turn marks done : Marks} {b : Nat} (places known : Places)
    (all : ∀ i, places.testBit i → ∀ j, (turn.get i).testBit j → (marks.get j).testBit b →
      (done.get i).testBit b)
    (only : ∀ i, places.testBit i → (done.get i).testBit b → (marks.get i).testBit b ∨
      ∃ j, (turn.get i).testBit j ∧ (marks.get j).testBit b) :
    (gather turn marks done places known).testBit b = true ↔
      known.testBit b ∨ ∃ i, places.testBit i ∧ (marks.get i).testBit b := by
  fun_induction gather turn marks done places known with
  | case1 known => simp
  | case2 places known h i known' onward sub ih =>
    have mem (j) : places.testBit j = (decide (j = i) || places.dropFirst.testBit j) :=
      Places.testBit_eq h j
    have within (j) (hj : onward.testBit j) : places.testBit j := by
      have := congrArg (·.testBit j) sub
      simp only [Nat.testBit_and, hj, Bool.and_true] at this
      exact this
    have later (j) (hj : (places.dropFirst.without onward).testBit j) : places.testBit j := by
      rw [Places.testBit_without] at hj
      rw [mem]
      simp_all
    have hi : places.testBit i := by simp [mem]
    rw [ih (fun j hj => all j (later j hj)) (fun j hj => only j (later j hj)), Nat.testBit_or,
      Nat.testBit_or, Bool.or_eq_true, Bool.or_eq_true]
    constructor
    · rintro (((h' | h') | h') | ⟨j, hj, hb⟩)
      · exact Or.inl h'
      · exact Or.inr ⟨i, hi, h'⟩
      · rcases only i hi h' with h' | ⟨j, hj, hb⟩
        · exact Or.inr ⟨i, hi, h'⟩
        · exact Or.inr ⟨j, within j hj, hb⟩
      · exact Or.inr ⟨j, later j hj, hb⟩
    · rintro (h' | ⟨j, hj, hb⟩)
      · exact Or.inl (Or.inl (Or.inl h'))
      · by_cases e : onward.testBit j
        · exact Or.inl (Or.inr (all i hi j e hb))
        · rw [mem, Bool.or_eq_true, decide_eq_true_eq] at hj
          rcases hj with rfl | hj
          · exact Or.inl (Or.inl (Or.inr hb))
          · exact Or.inr ⟨j, by simp [Places.testBit_without, hj, e], hb⟩
  | case3 places known h i known' onward sub ih =>
    have mem (j) : places.testBit j = (decide (j = i) || places.dropFirst.testBit j) :=
      Places.testBit_eq h j
    have later (j) (hj : places.dropFirst.testBit j) : places.testBit j := by simp [mem, hj]
    rw [ih (fun j hj => all j (later j hj)) (fun j hj => only j (later j hj)), Nat.testBit_or,
      Bool.or_eq_true]
    constructor
    · rintro ((h' | h') | ⟨j, hj, hb⟩)
      · exact Or.inl h'
      · exact Or.inr ⟨i, by simp [mem], h'⟩
      · exact Or.inr ⟨j, later j hj, hb⟩
    · rintro (h' | ⟨j, hj, hb⟩)
      · exact Or.inl (Or.inl h')
      · rw [mem, Bool.or_eq_true, decide_eq_true_eq] at hj
        rcases hj with rfl | hj
        · exact Or.inl (Or.inr hb)
        · exact Or.inr ⟨j, hj, hb⟩

/-- What holds before the first step from the end and is kept by each step holds after the last. -/
theorem foldr_range {α : Type} {f : Nat → α → α} {P : Nat → α → Prop} (n : Nat) (a : α)
    (step : ∀ i, i < n → ∀ a, P (i + 1) a → P i (f i a)) (h : P n a) :
    P 0 ((List.range n).foldr f a) := by
  induction n generalizing a with
  | zero => exact h
  | succ n ih =>
    rw [List.range_succ, List.foldr_append]
    exact ih _ (fun i hi => step i (Nat.lt_succ_of_lt hi)) (step n (Nat.lt_succ_self n) a h)

variable {turn : Marks} (forward : ∀ i j, (turn.get i).testBit j → i ≤ j) (marks : Marks)

include forward

/-- The marks of all the places that a place is turned to. -/
theorem testBit_through (i b : Nat) :
    ((through turn marks).get i).testBit b = true ↔
      ∃ j, (turn.get i).testBit j ∧ (marks.get j).testBit b := by
  refine (foldr_range (P := fun k done => done.size = marks.size ∧ ∀ i, k ≤ i → ∀ b,
    (get done i).testBit b = true ↔ ∃ j, (turn.get i).testBit j ∧ (marks.get j).testBit b)
    marks.size (Array.replicate marks.size 0) ?_ ?_).2 i (Nat.zero_le i) b
  · rintro k hk done ⟨size, ih⟩
    refine ⟨Array.size_setIfInBounds.trans size, fun i hi b => ?_⟩
    rw [get_setIfInBounds, size]
    by_cases e : k = i
    · subst e
      have later (j) (hj : ((turn.get k).after k).testBit j) : k + 1 ≤ j :=
        (Places.testBit_after_iff.mp hj).1
      rw [if_pos ⟨rfl, hk⟩, testBit_gather _ _
        (fun j hj l hl hb => (ih j (later j hj) b).mpr ⟨l, hl, hb⟩)
        (fun j hj hb => Or.inr ((ih j (later j hj) b).mp hb))]
      constructor
      · rintro (h | ⟨j, hj, hb⟩)
        · split at h
          · exact ⟨k, ‹_›, h⟩
          · simp at h
        · exact ⟨j, (Places.testBit_after_iff.mp hj).2, hb⟩
      · rintro ⟨j, hj, hb⟩
        rcases Nat.eq_or_lt_of_le (forward k j hj) with rfl | h
        · exact Or.inl (by rwa [if_pos hj])
        · exact Or.inr ⟨j, Places.testBit_after_iff.mpr ⟨h, hj⟩, hb⟩
    · rw [if_neg fun h => e h.1]
      exact ih i (by omega) b
  · refine ⟨Array.size_replicate, fun i hi b => iff_of_false (by simp [get, hi]) ?_⟩
    rintro ⟨j, hj, hb⟩
    simp [get, Nat.le_trans hi (forward i j hj)] at hb

/-- A place's own marks, and those that the places after it to which it is turned end up with. -/
theorem testBit_close (i b : Nat) :
    ((close turn marks).get i).testBit b = true ↔ (marks.get i).testBit b ∨
      ∃ j, i < j ∧ (turn.get i).testBit j ∧ ((close turn marks).get j).testBit b := by
  refine (foldr_range (P := fun k done => done.size = marks.size ∧
    (∀ i, i < k → get done i = marks.get i) ∧ ∀ i, k ≤ i → ∀ b,
    (get done i).testBit b = true ↔ (marks.get i).testBit b ∨
      ∃ j, i < j ∧ (turn.get i).testBit j ∧ (get done j).testBit b)
    marks.size marks ?_ ?_).2.2 i (Nat.zero_le i) b
  · rintro k hk done ⟨size, before, ih⟩
    refine ⟨Array.size_setIfInBounds.trans size, fun i hi => ?_, fun i hi b => ?_⟩
    · rw [get_setIfInBounds, if_neg (by omega)]
      exact before i (by omega)
    · have same (j) (hj : k < j) (m) : get (done.setIfInBounds k m) j = done.get j := by
        rw [get_setIfInBounds, if_neg (by omega)]
      by_cases e : k = i
      · subst e
        have later (j) (hj : ((turn.get k).after k).testBit j) : k + 1 ≤ j :=
          (Places.testBit_after_iff.mp hj).1
        have all (j) (hj : ((turn.get k).after k).testBit j) (l) (hl : (turn.get j).testBit l)
            (hb : (done.get l).testBit b) : (done.get j).testBit b := by
          rcases Nat.eq_or_lt_of_le (forward j l hl) with rfl | h
          · exact hb
          · exact (ih j (later j hj) b).mpr (Or.inr ⟨l, h, hl, hb⟩)
        rw [get_setIfInBounds, if_pos ⟨rfl, size ▸ hk⟩,
          testBit_gather _ _ all (fun _ _ => Or.inl), before k (Nat.lt_succ_self k)]
        refine or_congr_right (exists_congr fun j => ?_)
        rw [Places.testBit_after_iff, and_assoc]
        refine and_congr_right fun h => ?_
        rw [same j h]
      · have hi : k < i := by omega
        rw [same i hi, ih i hi b]
        refine or_congr_right (exists_congr fun j => and_congr_right fun h => ?_)
        rw [same j (Nat.lt_trans hi h)]
  · refine ⟨rfl, fun _ _ => rfl, fun i hi b => (or_iff_left ?_).symm⟩
    rintro ⟨j, h, _, hb⟩
    simp [get, Nat.le_trans hi (Nat.le_of_lt h)] at hb

end Marks

end Dmg
