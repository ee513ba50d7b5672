import Mathlib.Tactic

/-!
# Texts with separators

Where the parts of a text are joined by a character that does not occur in
them, the parts can be read back: before the first separator, after the last
one.
-/

namespace ContivVPP.Texts

theorem append_cons_inj {α : Type*} {c : α} {a a' b b' : List α}
    (ha : c ∉ a) (ha' : c ∉ a') :
    a ++ c :: b = a' ++ c :: b' ↔ a = a' ∧ b = b' := by
  induction a generalizing a' with
  | nil =>
      cases a' with
      | nil => simp
      | cons x xs =>
          have hx : c ≠ x := fun heq => ha' (by simp [heq])
          simp [hx]
  | cons x xs ih =>
      have hx : c ≠ x := fun heq => ha (by simp [heq])
      have hxs : c ∉ xs := fun hmem => ha (List.mem_cons_of_mem x hmem)
      cases a' with
      | nil => simp [hx.symm]
      | cons y ys =>
          have hys : c ∉ ys := fun hmem => ha' (List.mem_cons_of_mem y hmem)
          simp [ih hxs hys, and_assoc]

variable {sep : String} {c : Char}

theorem sep_inj_left {a a' b b' : String} (hsep : sep.toList = [c])
    (ha : c ∉ a.toList) (ha' : c ∉ a'.toList) :
    a ++ sep ++ b = a' ++ sep ++ b' ↔ a = a' ∧ b = b' := by
  rw [← String.toList_inj, ← String.toList_inj, ← String.toList_inj]
  simp only [String.toList_append, List.append_assoc, hsep]
  exact append_cons_inj ha ha'

theorem sep_inj_right {a a' b b' : String} (hsep : sep.toList = [c])
    (hb : c ∉ b.toList) (hb' : c ∉ b'.toList) :
    a ++ sep ++ b = a' ++ sep ++ b' ↔ a = a' ∧ b = b' := by
  have hb : c ∉ b.toList.reverse := by simpa using hb
  have hb' : c ∉ b'.toList.reverse := by simpa using hb'
  rw [← String.toList_inj, ← String.toList_inj, ← String.toList_inj,
    ← List.reverse_inj]
  simp only [String.toList_append, List.append_assoc, List.reverse_append, hsep]
  change b.toList.reverse ++ (c :: a.toList.reverse) =
    b'.toList.reverse ++ (c :: a'.toList.reverse) ↔ _
  rw [append_cons_inj hb hb', List.reverse_inj, List.reverse_inj, and_comm]

theorem repr_inj {a b : ℕ} : a.repr = b.repr ↔ a = b := by
  constructor
  · intro h
    rw [← String.toList_inj, Nat.toList_repr, Nat.toList_repr] at h
    have hnum := congrArg (fun digits => Nat.ofDigitChars 10 digits 0) h
    simpa only [Nat.ofDigitChars_toDigits (show 1 < 10 by decide)
      (le_refl 10)] using hnum
  · exact fun h => by rw [h]

theorem isDigit_of_mem_repr {n : ℕ} {c : Char} (h : c ∈ n.repr.toList) :
    c.isDigit = true := by
  rw [Nat.toList_repr] at h
  exact Nat.isDigit_of_mem_toDigits (by decide) (by decide) h

end ContivVPP.Texts
