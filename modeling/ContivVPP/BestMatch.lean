import Mathlib.Data.List.MinMax
import Mathlib.Tactic

/-!
# Deciding by rank

Of the elements of a list that hit, one of the highest rank decides.  With
`List.argmax` it is the first of them; `Decides` leaves the choice open and
says which answers are possible.
-/

namespace ContivVPP.BestMatch

theorem argmax_append_of_forall_le {α : Type*} {f : α → ℕ} {xs ys : List α}
    (hne : xs ≠ []) (hle : ∀ x ∈ xs, ∀ y ∈ ys, f y ≤ f x) :
    (xs ++ ys).argmax f = xs.argmax f := by
  have hsome : xs.argmax f ≠ none := mt List.argmax_eq_none.mp hne
  obtain ⟨best, hbest⟩ := Option.ne_none_iff_exists'.mp hsome
  have hmem := List.argmax_mem hbest
  induction ys using List.reverseRecOn with
  | nil => simp
  | append_singleton ys y ih =>
      have hys : ∀ x ∈ xs, ∀ y ∈ ys, f y ≤ f x := fun x hx y hy =>
        hle x hx y (List.mem_append_left _ hy)
      have hy : f y ≤ f best := hle best hmem y (by simp)
      rw [← List.append_assoc, List.argmax_concat, ih hys, hbest]
      simp [not_lt.mpr hy]

/-- `xs` has an element that decides for `allow`: one of the highest rank
among those that match, or none if nothing matches. -/
def Decides {α : Type*} (hit : α → Prop) (rank : α → ℕ) (allows : α → Bool)
    (xs : List α) (allow : Bool) : Prop :=
  ((∀ x ∈ xs, ¬ hit x) ∧ allow = true) ∨
    ∃ x ∈ xs, hit x ∧ (∀ y ∈ xs, hit y → rank y ≤ rank x) ∧ allow = allows x

variable {α β : Type*} {hit : α → Prop} {rank : α → ℕ} {allows : α → Bool}
  {xs : List α}

theorem decides_congr {hit' : β → Prop} {rank' : β → ℕ}
    {allows' : β → Bool} {ys : List β} {allow : Bool}
    (hto : ∀ x ∈ xs, hit x → ∃ y ∈ ys, hit' y ∧ rank' y = rank x ∧
      allows' y = allows x)
    (hfrom : ∀ y ∈ ys, hit' y → ∃ x ∈ xs, hit x ∧ rank' y = rank x ∧
      allows' y = allows x) :
    Decides hit rank allows xs allow ↔ Decides hit' rank' allows' ys allow := by
  constructor
  · intro h
    rcases h with ⟨hnone, hallow⟩ | ⟨x, hx, hhit, hmax, hallow⟩
    · left
      refine ⟨fun y hy hhit => ?_, hallow⟩
      obtain ⟨x, hx, hhitx, _⟩ := hfrom y hy hhit
      exact hnone x hx hhitx
    · right
      obtain ⟨y, hy, hhity, hrank, hallows⟩ := hto x hx hhit
      refine ⟨y, hy, hhity, fun z hz hhitz => ?_, by rw [hallow, hallows]⟩
      obtain ⟨w, hw, hhitw, hrankw, _⟩ := hfrom z hz hhitz
      rw [hrank, hrankw]
      exact hmax w hw hhitw
  · intro h
    rcases h with ⟨hnone, hallow⟩ | ⟨y, hy, hhit, hmax, hallow⟩
    · left
      refine ⟨fun x hx hhitx => ?_, hallow⟩
      obtain ⟨y, hy, hhity, _⟩ := hto x hx hhitx
      exact hnone y hy hhity
    · right
      obtain ⟨x, hx, hhitx, hrank, hallows⟩ := hfrom y hy hhit
      refine ⟨x, hx, hhitx, fun z hz hhitz => ?_, by rw [hallow, hallows]⟩
      obtain ⟨w, hw, hhitw, hrankw, _⟩ := hto z hz hhitz
      rw [← hrank, ← hrankw]
      exact hmax w hw hhitw

theorem exists_max_hit (rank : α → ℕ) (hhit : ∃ x ∈ xs, hit x) :
    ∃ x ∈ xs, hit x ∧ ∀ y ∈ xs, hit y → rank y ≤ rank x := by
  classical
  obtain ⟨x, hx, hhitx⟩ := hhit
  have hne : xs.filter (fun x => decide (hit x)) ≠ [] :=
    List.ne_nil_of_mem (List.mem_filter.mpr ⟨hx, by simpa using hhitx⟩)
  obtain ⟨m, hm⟩ := Option.ne_none_iff_exists'.mp
    (mt (List.argmax_eq_none (f := rank)).mp hne)
  have hmem := List.mem_filter.mp (List.argmax_mem hm)
  refine ⟨m, hmem.1, by simpa using hmem.2, fun y hy hhity => ?_⟩
  exact List.le_of_mem_argmax (List.mem_filter.mpr ⟨hy, by simpa using hhity⟩) hm

theorem decides_iff_eq_of_hit (hhit : ∃ x ∈ xs, hit x) {verdict : Bool} :
    (∀ allow, Decides hit rank allows xs allow ↔ allow = verdict) ↔
      ∀ x ∈ xs, hit x → (∀ y ∈ xs, hit y → rank y ≤ rank x) →
        allows x = verdict := by
  constructor
  · intro h x hx hhitx hmax
    exact (h (allows x)).mp (Or.inr ⟨x, hx, hhitx, hmax, rfl⟩)
  · intro h allow
    constructor
    · intro hdecides
      rcases hdecides with ⟨hnone, _⟩ | ⟨x, hx, hhitx, hmax, rfl⟩
      · obtain ⟨x, hx, hhitx⟩ := hhit
        exact absurd hhitx (hnone x hx)
      · exact h x hx hhitx hmax
    · intro hallow
      subst hallow
      obtain ⟨x, hx, hhitx, hmax⟩ := exists_max_hit rank hhit
      exact Or.inr ⟨x, hx, hhitx, hmax, (h x hx hhitx hmax).symm⟩

end ContivVPP.BestMatch
