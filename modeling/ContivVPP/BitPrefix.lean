import Mathlib.Tactic
import Mathlib.Data.List.Infix

/-!
# Prefixes of bit strings

A bit string `p` stands for the set of its extensions: a node of the binary
tree together with everything below it.  Two such sets are nested or disjoint.
Cutting the node `q` out of a node `p` above it leaves the nodes that branch
off the path from `p` down to `q`; there is one of them for each depth.
-/

namespace ContivVPP.BitPrefix

/-- The node that leaves the path to `q` at depth `k`: the first `k` bits of
`q` followed by the complement of the next one. -/
def branch (q : List Bool) (k : ℕ) : List Bool :=
  (q.take (k + 1)).modify k not

@[simp] theorem branch_cons_zero (b : Bool) (q : List Bool) :
    branch (b :: q) 0 = [!b] := by
  simp [branch]

@[simp] theorem branch_cons_succ (b : Bool) (q : List Bool) (k : ℕ) :
    branch (b :: q) (k + 1) = b :: branch q k := by
  simp [branch]

theorem branch_length {q : List Bool} {k : ℕ} (hk : k < q.length) :
    (branch q k).length = k + 1 := by
  simp [branch]
  omega

/-- Going down from the root, a string leaves the path to `q` exactly when
neither of the two extends the other. -/
theorem exists_branch_of_root {q x : List Bool} :
    (∃ k, k < q.length ∧ branch q k <+: x) ↔ ¬ q <+: x ∧ ¬ x <+: q := by
  induction q generalizing x with
  | nil => simp
  | cons b q ih =>
      cases x with
      | nil =>
          simp only [List.nil_prefix, not_true, and_false, iff_false]
          rintro ⟨k, hk, hbranch⟩
          have hlen := branch_length hk
          rw [List.prefix_nil.mp hbranch] at hlen
          simp at hlen
      | cons c x =>
          rw [List.cons_prefix_cons, List.cons_prefix_cons]
          by_cases hbc : b = c
          · subst c
            simp only [true_and]
            rw [← ih]
            constructor
            · rintro ⟨k, hk, hbranch⟩
              cases k with
              | zero => simp at hbranch
              | succ k =>
                  rw [branch_cons_succ, List.cons_prefix_cons] at hbranch
                  exact ⟨k, by simpa using hk, hbranch.2⟩
            · rintro ⟨k, hk, hbranch⟩
              refine ⟨k + 1, by simpa using hk, ?_⟩
              rw [branch_cons_succ, List.cons_prefix_cons]
              exact ⟨rfl, hbranch⟩
          · have hc : c = !b := by cases b <;> cases c <;> simp_all
            simp only [hbc, Ne.symm hbc, false_and, not_false_eq_true,
              and_self, iff_true]
            exact ⟨0, by simp, by simp [hc]⟩

theorem exists_branch_iff_leaves {p q x : List Bool} (hpq : p <+: q) :
    (∃ k, p.length ≤ k ∧ k < q.length ∧ branch q k <+: x) ↔
      p <+: x ∧ ¬ q <+: x ∧ ¬ x <+: q := by
  induction p generalizing q x with
  | nil => simpa using exists_branch_of_root
  | cons b p ih =>
      cases q with
      | nil => simp at hpq
      | cons b' q =>
          rw [List.cons_prefix_cons] at hpq
          obtain ⟨rfl, hpq⟩ := hpq
          have hpos : ∀ {k}, (b :: p).length ≤ k →
              ∃ j, k = j + 1 ∧ p.length ≤ j := by
            intro k hk
            simp only [List.length_cons] at hk
            exact ⟨k - 1, by omega, by omega⟩
          cases x with
          | nil =>
              simp only [List.prefix_nil, reduceCtorEq, false_and, iff_false]
              rintro ⟨k, hpk, hk, hbranch⟩
              have hlen := branch_length hk
              rw [hbranch] at hlen
              simp at hlen
          | cons c x =>
              simp only [List.cons_prefix_cons]
              constructor
              · rintro ⟨k, hpk, hk, hbranch⟩
                obtain ⟨k, rfl, hpj⟩ := hpos hpk
                rw [branch_cons_succ, List.cons_prefix_cons] at hbranch
                obtain ⟨hp, hq, hx⟩ := (ih hpq).mp
                  ⟨k, hpj, by simpa using hk, hbranch.2⟩
                exact ⟨⟨hbranch.1, hp⟩, fun h => hq h.2, fun h => hx h.2⟩
              · rintro ⟨⟨rfl, hp⟩, hq, hx⟩
                obtain ⟨k, hpk, hk, hbranch⟩ := (ih hpq).mpr
                  ⟨hp, fun h => hq ⟨rfl, h⟩, fun h => hx ⟨rfl, h⟩⟩
                refine ⟨k + 1, by simpa using hpk, by simpa using hk, ?_⟩
                rw [branch_cons_succ, List.cons_prefix_cons]
                exact ⟨rfl, hbranch⟩

theorem exists_branch_iff
    {p q x : List Bool} (hpq : p <+: q) (hlen : q.length ≤ x.length) :
    (∃ k, p.length ≤ k ∧ k < q.length ∧ branch q k <+: x) ↔
      p <+: x ∧ ¬ q <+: x := by
  rw [exists_branch_iff_leaves hpq]
  refine and_congr_right fun _ => and_iff_left_of_imp fun hq hx => hq ?_
  rw [hx.eq_of_length_le hlen]

theorem branch_prefix_unique {q x : List Bool} {j k : ℕ}
    (hj : j < q.length) (hk : k < q.length) (hbranch : branch q j <+: x)
    (hbranch' : branch q k <+: x) : j = k := by
  induction q generalizing x j k with
  | nil => simp at hj
  | cons b q ih =>
      cases x with
      | nil =>
          have hlen := branch_length hj
          rw [List.prefix_nil.mp hbranch] at hlen
          simp at hlen
      | cons c x =>
          cases j with
          | zero =>
              cases k with
              | zero => rfl
              | succ k =>
                  simp only [branch_cons_zero, branch_cons_succ,
                    List.cons_prefix_cons] at hbranch hbranch'
                  rw [← hbranch'.1] at hbranch
                  simp at hbranch
          | succ j =>
              cases k with
              | zero =>
                  simp only [branch_cons_zero, branch_cons_succ,
                    List.cons_prefix_cons] at hbranch hbranch'
                  rw [← hbranch.1] at hbranch'
                  simp at hbranch'
              | succ k =>
                  simp only [branch_cons_succ, List.cons_prefix_cons]
                    at hbranch hbranch'
                  rw [ih (by simpa using hj) (by simpa using hk) hbranch.2
                    hbranch'.2]

theorem branch_eq_iff {q p : List Bool} {k : ℕ} {b : Bool} (hk : k < q.length) :
    branch q k = p ++ [b] ↔ k = p.length ∧ p ++ [!b] <+: q := by
  induction q generalizing p k with
  | nil => simp at hk
  | cons c q ih =>
      cases k with
      | zero =>
          cases p with
          | nil => cases b <;> cases c <;> simp
          | cons d p => simp
      | succ k =>
          cases p with
          | nil =>
              have hlen := branch_length (by simpa using hk : k < q.length)
              simp only [branch_cons_succ, List.nil_append, List.cons.injEq,
                List.length_nil, Nat.add_eq_zero_iff, one_ne_zero, and_false,
                false_and, iff_false]
              rintro ⟨_, hnil⟩
              rw [hnil] at hlen
              simp at hlen
          | cons d p =>
              simp only [branch_cons_succ, List.cons_append, List.cons.injEq,
                List.length_cons, Nat.add_right_cancel_iff,
                List.cons_prefix_cons]
              rw [ih (by simpa using hk)]
              tauto

end ContivVPP.BitPrefix
