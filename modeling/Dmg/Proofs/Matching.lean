import Dmg.Pattern

/-! # What patterns match

`Pattern.Matches` says what a pattern matches: a relation between the place of a text where a match
begins and the one where it ends, by recursion on the pattern. The search finds no more and no less
(`Pattern.occursIn_iff`). It goes through the text once for each part of the pattern, and takes marks
from the places where matches end to those where they begin (`Pattern.testBit_lead`). -/

namespace Dmg

/-! ### Turns -/

/-- `n` turns of a relation between places, one after the other. -/
def Turns (R : Nat → Nat → Prop) : Nat → Nat → Nat → Prop
  | 0, i, j => i = j
  | n + 1, i, j => ∃ k, R i k ∧ Turns R n k j

namespace Turns
variable {R : Nat → Nat → Prop} {m n i j : Nat}

theorem add_iff : Turns R (m + n) i j ↔ ∃ k, Turns R m i k ∧ Turns R n k j := by
  induction m generalizing i with
  | zero => simp [Turns]
  | succ m ih =>
    rw [Nat.add_right_comm]
    simp only [Turns, ih]
    constructor
    · rintro ⟨k, hk, l, hl, hj⟩
      exact ⟨l, ⟨k, hk, hl⟩, hj⟩
    · rintro ⟨l, ⟨k, hk, hl⟩, hj⟩
      exact ⟨k, hk, l, hl, hj⟩

theorem le (hR : ∀ i j, R i j → i ≤ j) (h : Turns R n i j) : i ≤ j := by
  induction n generalizing i with
  | zero => exact Nat.le_of_eq h
  | succ n ih =>
    obtain ⟨k, hk, h⟩ := h
    exact Nat.le_trans (hR i k hk) (ih h)

/-- Where no turn leads back, turns that end within bounds have stayed within them. -/
theorem within_iff (hR : ∀ i j, R i j → i ≤ j) (hj : j < m) :
    Turns (fun i k => R i k ∧ k < m) n i j ↔ Turns R n i j := by
  induction n generalizing i with
  | zero => rfl
  | succ n ih =>
    refine exists_congr fun k => ?_
    rw [ih, and_assoc]
    exact and_congr_right fun _ => and_iff_right_of_imp fun h => Nat.lt_of_le_of_lt (h.le hR) hj

end Turns

/-! ### Marks -/

namespace Marks
variable {turn marks : Marks} {i b n : Nat}

theorem get_of_lt (h : i < marks.size) : marks.get i = marks[i] := by
  rw [get, Array.getElem?_eq_getElem h]
  rfl

theorem get_of_size_le (h : marks.size ≤ i) : marks.get i = 0 := by
  rw [get, Array.getElem?_eq_none h]
  rfl

theorem lt_size_of_testBit (h : (marks.get i).testBit b = true) : i < marks.size := by
  refine Nat.lt_of_not_le fun hi => ?_
  rw [get_of_size_le hi, Nat.zero_testBit] at h
  cases h

theorem size_union {a b : Marks} (h : a.size = b.size) : (a.union b).size = a.size := by
  rw [union, Array.size_zipWith, h, Nat.min_self]

theorem get_union {a b : Marks} (h : a.size = b.size) (i : Nat) :
    (a.union b).get i = a.get i ||| b.get i := by
  by_cases hi : i < a.size
  · have hb : i < b.size := h ▸ hi
    have hu : i < (a.union b).size := size_union h ▸ hi
    rw [get_of_lt hu, get_of_lt hi, get_of_lt hb]
    exact Array.getElem_zipWith hu
  · have ha := Nat.le_of_not_lt hi
    have hb : b.size ≤ i := h ▸ ha
    have hu : (a.union b).size ≤ i := (size_union h).symm ▸ ha
    rw [get_of_size_le hu, get_of_size_le ha, get_of_size_le hb]
    rfl

theorem get_mapIdx {f : Nat → Places → Places} (hf : ∀ i, marks.size ≤ i → f i 0 = 0) (i : Nat) :
    get (marks.mapIdx f) i = f i (marks.get i) := by
  by_cases hi : i < marks.size
  · simp [get, hi]
  · have hi := Nat.le_of_not_lt hi
    rw [get_of_size_le hi, hf i hi, get_of_size_le (by simpa using hi)]

theorem testBit_ofPlaces : ((ofPlaces n).get i).testBit b = true ↔ i = b ∧ b < n + 1 := by
  by_cases hi : i < n + 1
  · have hget : (ofPlaces n).get i = 2 ^ i := by simp [ofPlaces, get, hi, Nat.one_shiftLeft]
    rw [hget, Nat.testBit_two_pow, decide_eq_true_eq]
    exact ⟨fun h => ⟨h, h ▸ hi⟩, And.left⟩
  · rw [get_of_size_le (by simpa [ofPlaces] using hi), Nat.zero_testBit]
    refine iff_of_false Bool.false_ne_true fun h => hi ?_
    rw [h.1]
    exact h.2

theorem any_ne_zero_iff : marks.any (· ≠ 0) = true ↔ ∃ i b, (marks.get i).testBit b = true := by
  rw [Array.any_eq_true]
  constructor
  · rintro ⟨i, hi, hne⟩
    obtain ⟨b, hb⟩ := Nat.exists_testBit_of_ne_zero (of_decide_eq_true hne)
    exact ⟨i, b, by rwa [get_of_lt hi]⟩
  · rintro ⟨i, b, hb⟩
    have hi := lt_size_of_testBit hb
    refine ⟨i, hi, decide_eq_true fun hzero => ?_⟩
    rw [get_of_lt hi, hzero, Nat.zero_testBit] at hb
    cases hb

theorem size_foldr_set (l : List Nat) (f : Nat → Marks → Places) (marks : Marks) :
    (l.foldr (fun i done => done.setIfInBounds i (f i done)) marks).size = marks.size := by
  induction l with
  | nil => rfl
  | cons i l ih => exact Array.size_setIfInBounds.trans ih

theorem size_through (turn marks : Marks) : (turn.through marks).size = marks.size :=
  (size_foldr_set _ _ _).trans Array.size_replicate

theorem size_close (turn marks : Marks) : (turn.close marks).size = marks.size :=
  size_foldr_set _ _ _

theorem size_repeat_union (turn : Marks) (n : Nat) (marks : Marks) :
    (Nat.repeat (fun marks => marks.union (turn.through marks)) n marks).size = marks.size := by
  induction n with
  | zero => rfl
  | succ n ih => exact (size_union (size_through _ _).symm).trans ih

theorem size_repeat_through (turn : Marks) (n : Nat) (marks : Marks) :
    (Nat.repeat turn.through n marks).size = marks.size := by
  induction n with
  | zero => rfl
  | succ n ih => exact (size_through _ _).trans ih

/-! ### Turns of a table -/

section
variable (forward : ∀ i j, (turn.get i).testBit j → i ≤ j)
include forward

/-- The marks that exactly `n` turns lead to. -/
theorem testBit_repeat_through :
    ((Nat.repeat turn.through n marks).get i).testBit b = true ↔
      ∃ j, Turns (fun i j => (turn.get i).testBit j) n i j ∧ (marks.get j).testBit b := by
  induction n generalizing i with
  | zero => simp [Nat.repeat, Turns]
  | succ n ih =>
    show ((turn.through (Nat.repeat turn.through n marks)).get i).testBit b = true ↔ _
    rw [testBit_through forward]
    simp only [ih, Turns]
    constructor
    · rintro ⟨k, hk, j, hj, hb⟩
      exact ⟨j, ⟨k, hk, hj⟩, hb⟩
    · rintro ⟨j, ⟨k, hk, hj⟩, hb⟩
      exact ⟨k, hk, j, hj, hb⟩

/-- The marks that at most `n` turns lead to. -/
theorem testBit_repeat_union :
    ((Nat.repeat (fun marks => marks.union (turn.through marks)) n marks).get i).testBit b = true ↔
      ∃ k ≤ n, ∃ j, Turns (fun i j => (turn.get i).testBit j) k i j ∧ (marks.get j).testBit b := by
  induction n generalizing i with
  | zero => simp [Nat.repeat, Turns]
  | succ n ih =>
    generalize hX : Nat.repeat (fun marks => marks.union (turn.through marks)) n marks = X at ih
    have hsucc : Nat.repeat (fun marks => marks.union (turn.through marks)) (n + 1) marks =
        X.union (turn.through X) := by rw [← hX]; rfl
    rw [hsucc, get_union (size_through _ _).symm, Nat.testBit_or, Bool.or_eq_true,
      testBit_through forward]
    simp only [ih]
    constructor
    · rintro (⟨k, hk, hj⟩ | ⟨l, hl, k, hk, j, hj, hb⟩)
      · exact ⟨k, Nat.le_succ_of_le hk, hj⟩
      · exact ⟨k + 1, Nat.succ_le_succ hk, j, ⟨l, hl, hj⟩, hb⟩
    · rintro ⟨k, hk, j, hj, hb⟩
      cases k with
      | zero => exact .inl ⟨0, Nat.zero_le n, j, hj, hb⟩
      | succ k =>
        obtain ⟨l, hl, hj⟩ := hj
        exact .inr ⟨l, hl, k, Nat.le_of_succ_le_succ hk, j, hj, hb⟩

/-- The marks that any number of turns leads to. -/
theorem testBit_close_iff : ((turn.close marks).get i).testBit b = true ↔
    ∃ n j, Turns (fun i j => (turn.get i).testBit j) n i j ∧ (marks.get j).testBit b := by
  constructor
  · -- By induction on what is left of the text, since each turn counted leads on.
    intro h
    generalize hd : marks.size - i = d
    induction d using Nat.strongRecOn generalizing i with
    | _ d ih =>
      have hi := lt_size_of_testBit h
      rw [size_close] at hi
      rcases (testBit_close forward marks i b).1 h with hb | ⟨k, hlt, hk, hb⟩
      · exact ⟨0, i, rfl, hb⟩
      · obtain ⟨n, j, hj, hb⟩ := ih (marks.size - k) (by omega) hb rfl
        exact ⟨n + 1, j, ⟨k, hk, hj⟩, hb⟩
  · rintro ⟨n, j, hj, hb⟩
    induction n generalizing i with
    | zero =>
      obtain rfl : i = j := hj
      exact (testBit_close forward marks i b).2 (.inl hb)
    | succ n ih =>
      obtain ⟨k, hk, hj⟩ := hj
      rcases Nat.eq_or_lt_of_le (forward i k hk) with rfl | hlt
      · exact ih hj
      · exact (testBit_close forward marks i b).2 (.inr ⟨k, hlt, hk, ih hj⟩)

/-- The marks that `least` turns lead to and others behind them, of which `most` limits the number. -/
theorem testBit_settle (least : Nat) (most : Option Nat) :
    ((settle turn.through least (match most with
      | none => turn.close marks
      | some m => settle (fun marks => marks.union (turn.through marks)) (m - least) marks)).get
        i).testBit b = true ↔
      ∃ n, (∀ m ∈ most, n ≤ m - least) ∧
        ∃ j, Turns (fun i j => (turn.get i).testBit j) (least + n) i j ∧ (marks.get j).testBit b := by
  rw [settle_eq_repeat, testBit_repeat_through forward]
  simp only [Turns.add_iff]
  cases most with
  | none =>
    simp only [testBit_close_iff forward]
    constructor
    · rintro ⟨k, hk, n, j, hj, hb⟩
      exact ⟨n, nofun, j, ⟨k, hk, hj⟩, hb⟩
    · rintro ⟨n, -, j, ⟨k, hk, hj⟩, hb⟩
      exact ⟨k, hk, n, j, hj, hb⟩
  | some m =>
    simp only [settle_eq_repeat, testBit_repeat_union forward]
    constructor
    · rintro ⟨k, hk, n, hn, j, hj, hb⟩
      exact ⟨n, fun _ h => Option.some.inj h ▸ hn, j, ⟨k, hk, hj⟩, hb⟩
    · rintro ⟨n, hn, j, ⟨k, hk, hj⟩, hb⟩
      exact ⟨k, hk, n, hn m rfl, j, hj, hb⟩

end

end Marks

/-! ### Matches -/

namespace Pattern

/-- `p.Matches text i j`: a match of `p` begins at place `i` of the text and ends at place `j`. -/
def Matches (text : Array Char) : Pattern → Nat → Nat → Prop
  | empty, i, j => i = j
  | literal cs, i, j => j = i + cs.length ∧ cs <+: text.toList.drop i
  | one s _, i, j => j = i + 1 ∧ ∃ c, text[i]? = some c ∧ s.contains c = true
  | place l, i, j => i = j ∧ l.holds (if i = 0 then none else text[i - 1]?) text[i]? = true
  | seq p q, i, j => ∃ k, p.Matches text i k ∧ q.Matches text k j
  | alt p q, i, j => p.Matches text i j ∨ q.Matches text i j
  | times p least most _, i, j =>
    ∃ n, (∀ m ∈ most, n ≤ m - least) ∧ Turns (p.Matches text) (least + n) i j
  | group _ p, i, j => p.Matches text i j

variable {text : Array Char} {p : Pattern} {marks : Marks} {i j b : Nat}

/-- No match leads back. -/
theorem Matches.le (h : p.Matches text i j) : i ≤ j := by
  induction p generalizing i j with
  | empty => exact Nat.le_of_eq h
  | literal cs => exact h.1 ▸ Nat.le_add_right i _
  | one s _ => exact h.1 ▸ Nat.le_succ i
  | place l => exact Nat.le_of_eq h.1
  | seq p q ihp ihq =>
    obtain ⟨k, hp, hq⟩ := h
    exact Nat.le_trans (ihp hp) (ihq hq)
  | alt p q ihp ihq => exact h.elim ihp ihq
  | times p least most few ih =>
    obtain ⟨n, -, h⟩ := h
    exact h.le fun _ _ => ih
  | group _ p ih => exact ih h

theorem size_advance (text : Array Char) (admits : Char → Bool) (marks : Marks) :
    (advance text admits marks).size = marks.size := Array.size_mapIdx

theorem get_advance (text : Array Char) (admits : Char → Bool) (marks : Marks) (i : Nat) :
    (advance text admits marks).get i = if text[i]?.any admits then marks.get (i + 1) else 0 := by
  refine Marks.get_mapIdx (fun i hi => ?_) i
  rw [Marks.get_of_size_le (Nat.le_succ_of_le hi), ite_self]

theorem size_lead (p : Pattern) (marks : Marks) (h : marks.size = text.size + 1) :
    (p.lead text marks).size = marks.size := by
  induction p generalizing marks with
  | empty => rfl
  | literal cs =>
    rw [lead]
    induction cs with
    | nil => rfl
    | cons c cs ih => exact (size_advance _ _ _).trans ih
  | one s _ => exact size_advance _ _ _
  | place l => exact Array.size_mapIdx
  | seq p q ihp ihq =>
    have hq := ihq marks h
    exact (ihp _ (hq.trans h)).trans hq
  | alt p q ihp ihq =>
    exact (Marks.size_union ((ihp marks h).trans (ihq marks h).symm)).trans (ihp marks h)
  | times p least most few ih =>
    rw [lead]
    split
    · exact Marks.size_union (ih marks h).symm
    · dsimp only
      rw [settle_eq_repeat, Marks.size_repeat_through]
      cases most with
      | none => exact Marks.size_close _ _
      | some m =>
        dsimp only
        rw [settle_eq_repeat, Marks.size_repeat_union]
  | group _ p ih => exact ih marks h

theorem cons_prefix_drop_iff {c : Char} {cs l : List Char} :
    c :: cs <+: l.drop i ↔ l[i]? = some c ∧ cs <+: l.drop (i + 1) := by
  by_cases hi : i < l.length
  · rw [List.drop_eq_getElem_cons hi, List.cons_prefix_cons, List.getElem?_eq_getElem hi,
      Option.some.injEq, eq_comm]
  · simp [List.drop_eq_nil_of_le (Nat.le_of_not_lt hi), hi]

theorem testBit_lead_literal (cs : List Char) :
    (((literal cs).lead text marks).get i).testBit b = true ↔
      cs <+: text.toList.drop i ∧ (marks.get (i + cs.length)).testBit b = true := by
  rw [lead]
  induction cs generalizing i with
  | nil => simp
  | cons c cs ih =>
    rw [List.foldr_cons, get_advance, cons_prefix_drop_iff, Array.getElem?_toList, and_assoc,
      List.length_cons, Nat.add_comm cs.length, ← Nat.add_assoc, ← ih]
    split <;> rename_i hc <;> simp_all [Option.any_eq_true]

/-- The marks on a place are those on the places where the matches end that begin there. -/
theorem testBit_lead (p : Pattern) (h : marks.size = text.size + 1) :
    ((p.lead text marks).get i).testBit b = true ↔
      ∃ j, p.Matches text i j ∧ (marks.get j).testBit b = true := by
  induction p generalizing marks i b with
  | empty => simp [lead, Matches]
  | literal cs =>
    rw [testBit_lead_literal]
    exact ⟨fun ⟨hcs, hb⟩ => ⟨_, ⟨rfl, hcs⟩, hb⟩, fun ⟨_, ⟨rfl, hcs⟩, hb⟩ => ⟨hcs, hb⟩⟩
  | one s _ =>
    rw [lead, get_advance]
    cases hc : text[i]? with
    | none => simp [Matches, hc]
    | some c => cases hs : s.contains c <;> simp [Matches, hc, hs]
  | place l =>
    dsimp only [lead, Matches]
    rw [Marks.get_mapIdx (by intros; exact ite_self _)]
    cases l.holds (if i = 0 then none else text[i - 1]?) text[i]? <;> simp
  | seq p q ihp ihq =>
    rw [lead, ihp ((size_lead q marks h).trans h)]
    simp only [ihq h, Matches]
    constructor
    · rintro ⟨k, hk, j, hj, hb⟩
      exact ⟨j, ⟨k, hk, hj⟩, hb⟩
    · rintro ⟨j, ⟨k, hk, hj⟩, hb⟩
      exact ⟨k, hk, j, hj, hb⟩
  | alt p q ihp ihq =>
    rw [lead, Marks.get_union ((size_lead p marks h).trans (size_lead q marks h).symm), Nat.testBit_or,
      Bool.or_eq_true, ihp h, ihq h]
    simp only [Matches, or_and_right, exists_or]
  | times p least most few ih =>
    rw [lead]
    split
    · next hopt =>
      obtain ⟨rfl, rfl⟩ := hopt
      rw [Marks.get_union (size_lead p marks h).symm, Nat.testBit_or, Bool.or_eq_true, ih h]
      constructor
      · rintro (hb | ⟨j, hj, hb⟩)
        · exact ⟨i, ⟨0, fun m hm => Nat.zero_le _, rfl⟩, hb⟩
        · exact ⟨j, ⟨1, fun m hm => Option.some.inj hm ▸ Nat.le_refl 1, ⟨j, hj, rfl⟩⟩, hb⟩
      · rintro ⟨j, ⟨n, hn, hj⟩, hb⟩
        rw [Nat.zero_add] at hj
        match n, hn 1 rfl, hj with
        | 0, _, hj => exact .inl (hj ▸ hb)
        | 1, _, ⟨k, hk, hj⟩ => exact .inr ⟨k, hk, hj ▸ hb⟩
    · -- The table of turns has the matches that end within the text.
      have hturn (i j : Nat) : ((p.lead text (.ofPlaces text.size)).get i).testBit j = true ↔
          p.Matches text i j ∧ j < marks.size := by
        rw [ih (by simp [Marks.ofPlaces]), h]
        constructor
        · rintro ⟨k, hk, hj⟩
          obtain ⟨rfl, hj⟩ := Marks.testBit_ofPlaces.1 hj
          exact ⟨hk, hj⟩
        · rintro ⟨hk, hj⟩
          exact ⟨j, hk, Marks.testBit_ofPlaces.2 ⟨rfl, hj⟩⟩
      have hforward (i j : Nat) (hij : ((p.lead text (.ofPlaces text.size)).get i).testBit j = true) :
          i ≤ j := ((hturn i j).1 hij).1.le
      have hle (i j : Nat) (hij : p.Matches text i j) : i ≤ j := hij.le
      have hwithin {n j : Nat} (hb : (marks.get j).testBit b = true) :
          Turns (fun i j => p.Matches text i j ∧ j < marks.size) n i j ↔ Turns (p.Matches text) n i j :=
        Turns.within_iff hle (Marks.lt_size_of_testBit hb)
      refine (Marks.testBit_settle hforward least most).trans ?_
      simp only [hturn, Matches]
      constructor
      · rintro ⟨n, hn, j, hj, hb⟩
        exact ⟨j, ⟨n, hn, (hwithin hb).1 hj⟩, hb⟩
      · rintro ⟨j, ⟨n, hn, hj⟩, hb⟩
        exact ⟨n, hn, j, (hwithin hb).2 hj, hb⟩
  | group _ p ih => exact ih h

/-- A pattern occurs in a text exactly if a match begins at some place of it and ends at some place. -/
theorem occursIn_iff (p : Pattern) (text : String) :
    p.occursIn text = true ↔ ∃ i j, j ≤ text.length ∧ p.Matches text.toList.toArray i j := by
  have hone (j b : Nat) : ((Marks.get (Array.replicate (text.toList.toArray.size + 1) 1) j).testBit b =
      true) ↔ j ≤ text.length ∧ b = 0 := by
    rw [List.size_toArray, String.length_toList]
    by_cases hj : j < text.length + 1
    · simp [Marks.get, hj, Nat.le_of_lt_succ hj, Nat.testBit_one_eq_true_iff_self_eq_zero]
    · rw [Marks.get_of_size_le (by simpa using hj), Nat.zero_testBit]
      exact iff_of_false Bool.false_ne_true fun h => hj (Nat.lt_succ_of_le h.1)
  rw [occursIn, Marks.any_ne_zero_iff]
  simp only [testBit_lead p Array.size_replicate, hone]
  constructor
  · rintro ⟨i, b, j, h, hj, -⟩
    exact ⟨i, j, hj, h⟩
  · rintro ⟨i, j, hj, h⟩
    exact ⟨i, 0, j, h, hj, rfl⟩

end Pattern

end Dmg
