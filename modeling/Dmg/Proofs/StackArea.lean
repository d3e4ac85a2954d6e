import Dmg.Proofs.FullRam

/-! # The bytes below the stack pointer

`Below sp n a` says that `a` is one of the `n` bytes below `sp`, addresses going on at the top of the
address space below zero. Code that uses `n` bytes of stack changes memory there and nowhere else
(`View.Keeps`): so what it is given on the stack is still there when it is done (`View.Keeps.word`),
and code that calls it needs its bytes on top of its own (`View.Keeps.widen`). -/

namespace Dmg

/-- One of the `n` bytes below `sp`. -/
def Below (sp : UInt16) (n : Nat) (a : UInt16) : Prop := (sp - 1 - a).toNat < n

section
variable {sp sp' a k : UInt16} {n n' : Nat}

theorem below_of_add_eq (h : a + k = sp) (hk : 1 ≤ k.toNat) (hn : k.toNat ≤ n) : Below sp n a := by
  have hsub : sp - 1 - a = k - 1 := by grind
  have hle : (1 : UInt16) ≤ k := UInt16.le_iff_toNat_le.2 hk
  rw [Below, hsub, UInt16.toNat_sub_of_le _ _ hle]
  show k.toNat - 1 < n
  omega

theorem Below.of_add_eq (h : Below sp' n a) (hk : sp' + k = sp) (hn : n + k.toNat ≤ n') :
    Below sp n' a := by
  -- The distance grows by `k`, and if it goes round it is smaller still.
  have hadd : sp - 1 - a = (sp' - 1 - a) + k := by grind
  have hle := Nat.mod_le ((sp' - 1 - a).toNat + k.toNat) (0x10000)
  have hlt : (sp' - 1 - a).toNat < n := h
  rw [Below, hadd, UInt16.toNat_add]
  omega

theorem Below.mono (h : Below sp n a) (hn : n ≤ n') : Below sp n' a := Nat.lt_of_lt_of_le h hn

/-- Where the addresses do not go round, they are an interval. -/
theorem Below.bounds (h : Below sp n a) (hn : n ≤ sp.toNat) :
    sp.toNat - n ≤ a.toNat ∧ a.toNat < sp.toNat := by
  have hlt := sp.toNat_lt
  have hlt' := a.toNat_lt
  rw [Below, UInt16.toNat_sub, UInt16.toNat_sub] at h
  simp only [UInt16.reduceToNat] at h
  omega

/-- What stands on the stack is not below it, unless so many bytes are that they go round. -/
theorem not_below_of_eq_add (h : a = sp + k) (hn : n + k.toNat < 0x10000) : ¬ Below sp n a := by
  have hsub : sp - 1 - a = 0 - (k + 1) := by grind
  rw [Below, hsub, UInt16.toNat_sub, UInt16.toNat_add]
  show ¬ (0x10000 - (k.toNat + 1) % 0x10000 + 0) % 0x10000 < n
  omega

/-- The two bytes of a word that is pushed. -/
theorem below_of_push (h : sp' + 2 = sp) (hn : 2 ≤ n) : Below sp n sp' ∧ Below sp n (sp' + 1) :=
  ⟨below_of_add_eq h (by decide) hn,
    below_of_add_eq (k := 1) (by grind) (by decide) (Nat.le_trans (by decide) hn)⟩

theorem Below.of_push (h : Below (sp - 2) n a) (hn : n + 2 ≤ n') : Below sp n' a :=
  h.of_add_eq (k := 2) (by grind) hn

/-- The word on top of the stack is not below it. -/
theorem Below.ne_word (h : Below sp n a) (hn : n + 1 < 0x10000) : a ≠ sp ∧ a ≠ sp + 1 :=
  ⟨fun heq => not_below_of_eq_add (k := 0) (by grind) (Nat.lt_of_succ_lt hn) h,
    fun heq => not_below_of_eq_add (k := 1) heq hn h⟩

end

namespace View
variable {mem mem' mem'' : View} {sp sp' k : UInt16} {n n' : Nat}

/-- Nothing changes but the `n` bytes below `sp`. -/
def Keeps (sp : UInt16) (n : Nat) (mem mem' : View) : Prop := ∀ a, ¬ Below sp n a → mem' a = mem a

namespace Keeps

theorem trans (h : Keeps sp n mem mem') (h' : Keeps sp n mem' mem'') : Keeps sp n mem mem'' :=
  fun a ha => (h' a ha).trans (h a ha)

theorem widen (h : Keeps sp' n mem mem') (hk : sp' + k = sp) (hn : n + k.toNat ≤ n') :
    Keeps sp n' mem mem' :=
  fun a ha => h a fun hb => ha (hb.of_add_eq hk hn)

theorem push (h : sp' + 2 = sp) (hn : 2 ≤ n) (v : UInt16) :
    Keeps sp n mem (mem.after (Write.ofWord sp' v)) := by
  obtain ⟨hlow, hhigh⟩ := below_of_push h hn
  exact fun a ha => after_ofWord_of_ne (fun heq => ha (heq ▸ hlow)) (fun heq => ha (heq ▸ hhigh))

theorem word (h : Keeps sp n mem mem') (hn : n + 1 < 0x10000) : mem'.word sp = mem.word sp :=
  word_congr (h _ fun hb => (hb.ne_word hn).1 rfl) (h _ fun hb => (hb.ne_word hn).2 rfl)

end Keeps

end View

end Dmg
