import Mathlib.Algebra.Order.BigOperators.Group.List
import Mathlib.Algebra.Order.Ring.Nat
import Mathlib.Data.List.Chain
import ContivVPP.LineEdits

/-!
# Columns of a doubled character

The sum of the columns at which a character stands twice in a row does not
fall when lines are added to a text.  It falls when lines are inserted in the
middle of a line, before such a place.
-/

namespace ContivVPP.LineEdits

variable {α : Type*} [DecidableEq α]

/-- The column after a text that begins at column `n`; the last character of
an end of line is `z`. -/
def column (z : α) : ℕ → List α → ℕ
  | n, [] => n
  | n, a :: text => column z (if a = z then 0 else n + 1) text

/-- The sum of the columns, counted from one, of two characters `d` in a
row. -/
def columns (d z : α) : ℕ → List α → ℕ
  | _, [] => 0
  | n, a :: text => (if a = d ∧ text.head? = some d then n + 1 else 0) +
      columns d z (if a = z then 0 else n + 1) text

structure Quiet (d z : α) (x : List α) : Prop where
  chain : x.IsChain fun a b => ¬ (a = d ∧ b = d)
  head : x.head? ≠ some d
  last : x.getLast? = some z

variable {d z : α} {n m : ℕ} {a b x : List α}

theorem column_append : column z n (a ++ b) = column z (column z n a) b := by
  induction a generalizing n with
  | nil => rfl
  | cons c a ih => simp only [List.cons_append, column, ih]

theorem column_of_getLast? (h : a.getLast? = some z) : column z n a = 0 := by
  obtain ⟨a, rfl⟩ := List.getLast?_eq_some_iff.mp h
  simp [column_append, column]

theorem column_concat_pos {c : α} (h : c ≠ z) : 0 < column z n (a ++ [c]) := by
  simp [column_append, column, h]

theorem columns_append_le : columns d z n a + columns d z (column z n a) b ≤
      columns d z n (a ++ b) := by
  induction a generalizing n with
  | nil => simp [columns, column]
  | cons c a ih =>
      have hhead : (if c = d ∧ a.head? = some d then n + 1 else 0) ≤
          if c = d ∧ (a ++ b).head? = some d then n + 1 else 0 := by
        cases a with
        | nil => simp
        | cons c' a => simp
      have hrest := @ih (if c = z then 0 else n + 1)
      simp only [List.cons_append, columns, column]
      omega

theorem columns_append (h : ¬ (a.getLast? = some d ∧ b.head? = some d)) :
    columns d z n (a ++ b) = columns d z n a + columns d z (column z n a) b := by
  induction a generalizing n with
  | nil => simp [columns, column]
  | cons c a ih =>
      cases a with
      | nil =>
          have hhead : ¬ (c = d ∧ b.head? = some d) := by simpa using h
          simp [columns, column, hhead]
      | cons c' a =>
          have hrest : ¬ ((c' :: a).getLast? = some d ∧ b.head? = some d) := by
            simpa using h
          have ih' := @ih (if c = z then 0 else n + 1) hrest
          have hstep : columns d z n (c :: ((c' :: a) ++ b)) =
              (if c = d ∧ some c' = some d then n + 1 else 0) +
                columns d z (if c = z then 0 else n + 1) ((c' :: a) ++ b) := rfl
          have hone : columns d z n (c :: c' :: a) =
              (if c = d ∧ some c' = some d then n + 1 else 0) +
                columns d z (if c = z then 0 else n + 1) (c' :: a) := rfl
          rw [List.cons_append, hstep, ih', hone, Nat.add_assoc]
          rfl

theorem columns_mono (h : n ≤ m) (t : List α) :
    columns d z n t ≤ columns d z m t := by
  induction t generalizing n m with
  | nil => simp [columns]
  | cons c t ih =>
      have hrest := @ih (if c = z then 0 else n + 1)
        (if c = z then 0 else m + 1) (by split <;> omega)
      simp only [columns]
      split <;> omega

theorem columns_lt (h : n < m) (hz : z ∉ a) :
    columns d z n (a ++ d :: d :: b) < columns d z m (a ++ d :: d :: b) := by
  induction a generalizing n m with
  | nil =>
      have hrest := @columns_mono α _ d z (if d = z then 0 else n + 1)
        (if d = z then 0 else m + 1) (by split <;> omega) (d :: b)
      simp only [List.nil_append, columns, List.head?_cons, and_self,
        if_true] at hrest ⊢
      omega
  | cons c a ih =>
      have hc : c ≠ z := fun hc => hz (hc ▸ List.mem_cons_self)
      have hrest := @ih (n + 1) (m + 1) (by omega)
        (fun hmem => hz (List.mem_cons_of_mem c hmem))
      simp only [List.cons_append, columns, if_neg hc]
      split <;> omega

theorem Quiet.columns_eq_zero (h : Quiet d z x) : columns d z n x = 0 := by
  have hchain := h.chain
  clear h
  induction x generalizing n with
  | nil => rfl
  | cons c x ih =>
      have hhead : ¬ (c = d ∧ x.head? = some d) := by
        cases x with
        | nil => simp
        | cons c' x =>
            simpa using (List.isChain_cons_cons.mp hchain).1
      simp only [columns, if_neg hhead, Nat.zero_add]
      exact ih (List.IsChain.tail hchain)

theorem Quiet.columns_insert (hz : z ≠ d) (h : Quiet d z x) :
    columns d z n (a ++ (x ++ b)) = columns d z n a + columns d z 0 b := by
  have hx : x ≠ [] := by
    rintro rfl
    simpa using h.last
  have hfirst : (x ++ b).head? ≠ some d := by
    rw [List.head?_append_of_ne_nil x hx]
    exact h.head
  have hlast : x.getLast? ≠ some d := by
    rw [h.last]
    simpa using hz
  rw [columns_append fun hboth => hfirst hboth.2,
    columns_append fun hboth => hlast hboth.1, h.columns_eq_zero,
    column_of_getLast? h.last, Nat.zero_add]

theorem Quiet.columns_insert_le (hz : z ≠ d) (h : Quiet d z x) :
    columns d z n (a ++ (x ++ b)) ≤ columns d z n (a ++ b) := by
  rw [h.columns_insert hz]
  exact (Nat.add_le_add_left (columns_mono (Nat.zero_le _) b) _).trans
    columns_append_le

theorem Quiet.columns_insert_lt (hz : z ≠ d) (h : Quiet d z x)
    (hcolumn : 0 < column z n a) {b' : List α} (hb : z ∉ b) :
    columns d z n (a ++ (x ++ (b ++ d :: d :: b'))) <
      columns d z n (a ++ (b ++ d :: d :: b')) := by
  rw [h.columns_insert hz]
  exact (Nat.add_lt_add_left (columns_lt hcolumn hb) _).trans_le columns_append_le

/-! ## Added lines -/

variable {eol s t : List α}

theorem columns_flatten_append {ls : List (List α)} (hz : z ≠ d)
    (hls : ∀ l ∈ ls, l.getLast? = some z) :
    columns d z 0 (ls.flatten ++ b) =
      (ls.map (columns d z 0)).sum + columns d z 0 b := by
  induction ls with
  | nil => simp
  | cons l ls ih =>
      have hl := hls l List.mem_cons_self
      have hlast : l.getLast? ≠ some d := by
        rw [hl]
        simpa using hz
      rw [List.flatten_cons, List.append_assoc,
        columns_append fun hboth => hlast hboth.1, column_of_getLast? hl,
        ih fun l' hl' => hls l' (List.mem_cons_of_mem l hl'), List.map_cons,
        List.sum_cons, Nat.add_assoc]

theorem columns_eq_sum (hz : z ≠ d) (heol : eol.getLast? = some z) :
    columns d z 0 (t ++ b) = ((lines eol t).1.map (columns d z 0)).sum +
      columns d z 0 ((lines eol t).2 ++ b) := by
  have hlast : ∀ l ∈ (lines eol t).1, l.getLast? = some z := by
    intro l hl
    obtain ⟨before, rfl⟩ := suffix_of_mem_linesAfter hl
    simp [List.getLast?_append, heol]
  have hflatten : (lines eol t).1.flatten ++ (lines eol t).2 = t :=
    flatten_linesAfter
  calc columns d z 0 (t ++ b) = columns d z 0 ((lines eol t).1.flatten ++
          ((lines eol t).2 ++ b)) := by
        rw [← List.append_assoc, hflatten]
    _ = _ := columns_flatten_append hz hlast

theorem AddsLines.columns_le (h : AddsLines eol s t) (hz : z ≠ d)
    (heol : eol.getLast? = some z) :
    columns d z 0 (s ++ b) ≤ columns d z 0 (t ++ b) := by
  rw [@columns_eq_sum α _ d z b eol s hz heol,
    @columns_eq_sum α _ d z b eol t hz heol, h.rest]
  refine Nat.add_le_add_right ?_ _
  exact (h.lines.map (columns d z 0)).sum_le_sum fun _ _ => Nat.zero_le _

end ContivVPP.LineEdits
