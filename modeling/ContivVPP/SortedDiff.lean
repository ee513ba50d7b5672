import Mathlib.Tactic

/-!
# Differences of sorted lists

Two lists that are sorted by the same order are compared in one walk over
both of them.
-/

namespace ContivVPP.SortedDiff

variable {α : Type*}

def diff (cmp : α → α → Ordering) : List α → List α → List α × List α
  | [], ys => ([], ys)
  | x :: xs, [] => (x :: xs, [])
  | x :: xs, y :: ys =>
      match cmp x y with
      | .eq => diff cmp xs ys
      | .lt => ((diff cmp xs (y :: ys)).map (x :: ·) id)
      | .gt => ((diff cmp (x :: xs) ys).map id (y :: ·))
termination_by xs ys => xs.length + ys.length

section Steps

variable {cmp : α → α → Ordering} {x y : α} {xs ys : List α}

@[simp] theorem diff_nil_left (ys : List α) : diff cmp [] ys = ([], ys) := by
  rw [diff]

@[simp] theorem diff_nil_right (xs : List α) : diff cmp xs [] = (xs, []) := by
  cases xs <;> rw [diff]

theorem diff_cons_of_eq (h : cmp x y = .eq) :
    diff cmp (x :: xs) (y :: ys) = diff cmp xs ys := by
  rw [diff, h]

theorem diff_cons_of_lt (h : cmp x y = .lt) : diff cmp (x :: xs) (y :: ys) =
      ((diff cmp xs (y :: ys)).map (x :: ·) id) := by
  rw [diff, h]

theorem diff_cons_of_gt (h : cmp x y = .gt) : diff cmp (x :: xs) (y :: ys) =
      ((diff cmp (x :: xs) ys).map id (y :: ·)) := by
  rw [diff, h]

end Steps

section Sorted

variable {cmp : α → α → Ordering} [Std.LawfulEqCmp cmp] {x y : α} {xs ys : List α}

theorem notMem_tail (hsorted : (x :: xs).Pairwise fun a b => cmp a b = .lt) :
    x ∉ xs := by
  intro hmem
  have hself := List.rel_of_pairwise_cons hsorted hmem
  exact absurd (@Std.ReflCmp.compare_self _ cmp _ x) (by simp [hself])

variable [Std.TransCmp cmp]

theorem notMem_of_lt (hsorted : (y :: ys).Pairwise fun a b => cmp a b = .lt)
    (hlt : cmp x y = .lt) : x ∉ y :: ys := by
  intro hmem
  have hself : cmp x x = .lt := by
    rcases List.mem_cons.mp hmem with heq | hmem
    · exact heq ▸ hlt
    · exact Std.TransCmp.lt_trans hlt (List.rel_of_pairwise_cons hsorted hmem)
  exact absurd (@Std.ReflCmp.compare_self _ cmp _ x) (by simp [hself])

variable [DecidableEq α]

theorem filter_notMem_cons (h : x ∉ ys) :
    ys.filter (· ∉ x :: xs) = ys.filter (· ∉ xs) := by
  apply List.filter_congr
  intro y hy
  have hne : y ≠ x := fun heq => h (heq ▸ hy)
  simp [hne]

theorem diff_eq_filter (hxs : xs.Pairwise fun a b => cmp a b = .lt)
    (hys : ys.Pairwise fun a b => cmp a b = .lt) :
    diff cmp xs ys = (xs.filter (· ∉ ys), ys.filter (· ∉ xs)) := by
  fun_induction diff cmp xs ys with
  | case1 ys => simp
  | case2 x xs => simp
  | case3 x xs y ys heq ih =>
      obtain rfl := Std.LawfulEqCmp.eq_of_compare heq
      rw [ih hxs.of_cons hys.of_cons]
      simp only [List.filter_cons, List.mem_cons_self, not_true, decide_false]
      rw [filter_notMem_cons (notMem_tail hxs),
        filter_notMem_cons (notMem_tail hys)]
      simp
  | case4 x xs y ys hlt ih =>
      have hnot := notMem_of_lt hys hlt
      have hkeep : (x :: xs).filter (· ∉ y :: ys) =
          x :: xs.filter (· ∉ y :: ys) :=
        List.filter_cons_of_pos (by simpa using hnot)
      rw [ih hxs.of_cons hys, filter_notMem_cons hnot, hkeep]
      rfl
  | case5 x xs y ys hgt ih =>
      have hnot := notMem_of_lt hxs (Std.OrientedCmp.gt_iff_lt.mp hgt)
      have hkeep : (y :: ys).filter (· ∉ x :: xs) =
          y :: ys.filter (· ∉ x :: xs) :=
        List.filter_cons_of_pos (by simpa using hnot)
      rw [ih hxs hys.of_cons, filter_notMem_cons hnot, hkeep]
      rfl

end Sorted

end ContivVPP.SortedDiff
