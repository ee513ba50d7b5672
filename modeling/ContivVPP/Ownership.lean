import Mathlib.Data.Finset.Basic
import Mathlib.Tactic

/-!
# Keys with at most one owner

An owner can claim a set of keys: afterwards it owns these keys and no others.
If owners with disjoint sets claim one after the other, every claimed key ends
up with its owner, in whichever order they do.
-/

namespace ContivVPP.Ownership

variable {κ ι : Type*} [DecidableEq κ] [DecidableEq ι]

def claim (i : ι) (keys : Finset κ) (owner : κ → Option ι) (x : κ) : Option ι :=
  if x ∈ keys then some i else if owner x = some i then none else owner x

variable {i : ι} {keys : Finset κ} {owner : κ → Option ι} {x : κ}

theorem claim_of_mem (h : x ∈ keys) : claim i keys owner x = some i := by
  simp [claim, h]

theorem claim_of_notMem (h : x ∉ keys) (hi : owner x ≠ some i) :
    claim i keys owner x = owner x := by
  simp [claim, h, hi]

theorem claim_eq_some_iff {j : ι} : claim i keys owner x = some j ↔
      (j = i ∧ x ∈ keys) ∨ (j ≠ i ∧ x ∉ keys ∧ owner x = some j) := by
  unfold claim
  split
  next hmem => simp [hmem, eq_comm]
  next hmem =>
    split
    next howner =>
      simp only [reduceCtorEq, hmem, and_false, not_false_eq_true, howner,
        Option.some.injEq, true_and, false_or, false_iff, not_and]
      exact fun hne heq => hne heq.symm
    next howner =>
      simp only [hmem, and_false, not_false_eq_true, true_and, false_or]
      constructor
      · intro heq
        refine ⟨?_, heq⟩
        intro hji
        rw [heq, hji] at howner
        exact howner rfl
      · exact fun h => h.2

theorem claim_claim {other : Finset κ}
    (h : ∀ x ∈ other, x ∈ keys ∨ owner x = some i) :
    claim i keys (claim i other owner) = claim i keys owner := by
  funext x
  by_cases hkeys : x ∈ keys
  · rw [claim_of_mem hkeys, claim_of_mem hkeys]
  · by_cases hother : x ∈ other
    · have howner := (h x hother).resolve_left hkeys
      simp [claim, hkeys, hother, howner]
    · by_cases howner : owner x = some i
      · simp [claim, hkeys, hother, howner]
      · simp [claim, hkeys, hother, howner]

def claimAll (claims : List (ι × Finset κ)) (owner : κ → Option ι) :
    κ → Option ι :=
  claims.foldl (fun owner c => claim c.1 c.2 owner) owner

theorem claimAll_of_forall_notMem {claims : List (ι × Finset κ)}
    (hkeys : ∀ c ∈ claims, x ∉ c.2)
    (howner : ∀ c ∈ claims, owner x ≠ some c.1) :
    claimAll claims owner x = owner x := by
  induction claims generalizing owner with
  | nil => rfl
  | cons c claims ih =>
      have hclaim : claim c.1 c.2 owner x = owner x :=
        claim_of_notMem (hkeys c List.mem_cons_self) (howner c List.mem_cons_self)
      change claimAll claims (claim c.1 c.2 owner) x = owner x
      rw [ih, hclaim]
      · exact fun d hd => hkeys d (List.mem_cons_of_mem c hd)
      · intro d hd
        rw [hclaim]
        exact howner d (List.mem_cons_of_mem c hd)

theorem claimAll_of_mem {claims : List (ι × Finset κ)}
    (hids : (claims.map Prod.fst).Nodup)
    (hdisjoint : claims.Pairwise fun c d => Disjoint c.2 d.2)
    (hc : (i, keys) ∈ claims) (hx : x ∈ keys) :
    claimAll claims owner x = some i := by
  induction claims generalizing owner with
  | nil => simp at hc
  | cons c claims ih =>
      rw [List.map_cons, List.nodup_cons] at hids
      rw [List.pairwise_cons] at hdisjoint
      change claimAll claims (claim c.1 c.2 owner) x = some i
      rcases List.mem_cons.mp hc with heq | hmem
      · have hclaim : claim c.1 c.2 owner x = some i := by
          rw [← heq]
          exact claim_of_mem hx
        rw [claimAll_of_forall_notMem, hclaim]
        · intro d hd hxd
          have hxc : x ∈ c.2 := by rwa [← heq]
          exact Finset.disjoint_left.mp (hdisjoint.1 d hd) hxc hxd
        · intro d hd
          rw [hclaim, show i = c.1 by rw [← heq]]
          intro hid
          exact hids.1 (List.mem_map.mpr ⟨d, hd, (Option.some.inj hid).symm⟩)
      · exact ih hids.2 hdisjoint.2 hmem

end ContivVPP.Ownership
