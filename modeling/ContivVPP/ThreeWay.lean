import Mathlib.Tactic

/-!
# Three-way comparison with integer results

A comparison function that answers with -1, 0 or 1 computes an `Ordering` in
disguise.  Chains of such comparisons, where the first answer other than 0
decides, are lexicographic products, so that the laws of a total order follow
from those of the parts.
-/

namespace ContivVPP.ThreeWay

def code : Ordering → ℤ
  | .lt => -1
  | .eq => 0
  | .gt => 1

def orElse (first second : ℤ) : ℤ :=
  if first ≠ 0 then first else second

def ofLt {α : Type*} [LT α] [DecidableLT α] (a b : α) : ℤ :=
  if a < b then -1 else if b < a then 1 else 0

def lexicographic {α : Type*} (cmp : α → α → ℤ) : List α → List α → ℤ
  | [], [] => 0
  | [], _ :: _ => -1
  | _ :: _, [] => 1
  | a :: as, b :: bs => orElse (cmp a b) (lexicographic cmp as bs)

/-- The laws of a total order with a given notion of equality. -/
structure Laws {α : Type*} (cmp : α → α → ℤ) (same : α → α → Prop) : Prop where
  range : ∀ a b, cmp a b = -1 ∨ cmp a b = 0 ∨ cmp a b = 1
  antisymm : ∀ a b, cmp a b = -cmp b a
  trans : ∀ a b c, cmp a b ≤ 0 → cmp b c ≤ 0 → cmp a c ≤ 0
  lt_trans : ∀ a b c, cmp a b = -1 → cmp b c = -1 → cmp a c = -1
  zero_iff : ∀ a b, cmp a b = 0 ↔ same a b

@[simp] theorem orElse_zero (a : ℤ) : orElse a 0 = a := by
  by_cases h : a = 0 <;> simp [orElse, h]

@[simp] theorem zero_orElse (a : ℤ) : orElse 0 a = a :=
  if_neg (not_not.mpr rfl)

theorem orElse_assoc (a b c : ℤ) :
    orElse (orElse a b) c = orElse a (orElse b c) := by
  by_cases h : a = 0 <;> simp [orElse, h]

theorem orElse_of_ne {a : ℤ} (h : a ≠ 0) (b : ℤ) : orElse a b = a :=
  if_pos h

theorem code_eq_zero_iff {o : Ordering} : code o = 0 ↔ o = .eq := by
  cases o <;> decide

theorem code_eq_neg_one_iff {o : Ordering} : code o = -1 ↔ o = .lt := by
  cases o <;> decide

theorem code_nonpos_iff {o : Ordering} : code o ≤ 0 ↔ o.isLE = true := by
  cases o <;> decide

theorem code_swap (o : Ordering) : code o.swap = -code o := by
  cases o <;> rfl

theorem code_then (first second : Ordering) :
    code (first.then second) = orElse (code first) (code second) := by
  cases first <;> rfl

theorem code_compareLex {α : Type*} (cmp cmp' : α → α → Ordering) (a b : α) :
    code (compareLex cmp cmp' a b) = orElse (code (cmp a b)) (code (cmp' a b)) :=
  code_then _ _

theorem ofLt_eq_code {α : Type*} [LT α] [DecidableLT α] [Ord α]
    [Std.OrientedOrd α] (hlt : ∀ a b : α, compare a b = .lt ↔ a < b)
    (a b : α) : ofLt a b = code (compare a b) := by
  have hgt : compare a b = .gt ↔ b < a := by
    rw [Std.OrientedCmp.gt_iff_lt, hlt]
  simp only [ofLt, ← hlt a b, ← hgt]
  cases compare a b <;> rfl

theorem lexicographic_eq_code {α : Type*} {cmp : α → α → Ordering}
    (as bs : List α) :
    lexicographic (fun a b => code (cmp a b)) as bs =
      code (List.compareLex cmp as bs) := by
  induction as generalizing bs with
  | nil => cases bs <;> rfl
  | cons a as ih =>
      cases bs with
      | nil => rfl
      | cons b bs =>
          rw [List.compareLex_cons_cons, code_then, ← ih]
          rfl

theorem laws_of_transCmp {α : Type*} {cmp : α → α → ℤ}
    {same : α → α → Prop} (ordering : α → α → Ordering)
    [Std.TransCmp ordering]
    (hcode : ∀ a b, cmp a b = code (ordering a b))
    (hsame : ∀ a b, ordering a b = .eq ↔ same a b) : Laws cmp same where
  range a b := by
    rw [hcode]
    cases ordering a b <;> decide
  antisymm a b := by
    rw [hcode, hcode, ← code_swap, ← Std.OrientedCmp.eq_swap]
  trans a b c hab hbc := by
    rw [hcode, code_nonpos_iff] at hab hbc ⊢
    exact Std.TransCmp.isLE_trans hab hbc
  lt_trans a b c hab hbc := by
    rw [hcode, code_eq_neg_one_iff] at hab hbc ⊢
    exact Std.TransCmp.lt_trans hab hbc
  zero_iff a b := by
    rw [hcode, code_eq_zero_iff, hsame]

end ContivVPP.ThreeWay
