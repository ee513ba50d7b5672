import Mathlib.Tactic

/-!
# Loops that may fail

Loops over a list whose body is a partial function.  A loop that comes to its
end has come to the end of the body for every element.
-/

namespace ContivVPP.PartialLoops

variable {α β γ σ : Type*}

/-! ## One step -/

section Step

universe u

variable {α β : Type u} {x : Option α} {f : α → Option β} {a b : β}

theorem bind_eq_some_iff : (x >>= f) = some b ↔ ∃ y, x = some y ∧ f y = some b :=
  Option.bind_eq_some_iff

theorem pure_eq_some_iff : (pure a : Option β) = some b ↔ a = b :=
  Option.some_inj

end Step

/-! ## Values for all elements -/

section Values

variable {R : α → β → Prop} {xs : List α} {ys : List β}

theorem exists_of_forall₂ (h : List.Forall₂ R xs ys) {x : α} (hx : x ∈ xs) :
    ∃ y ∈ ys, R x y := by
  induction h with
  | nil => cases hx
  | cons hy _ ih =>
      rcases List.mem_cons.mp hx with rfl | hmem
      · exact ⟨_, List.mem_cons_self, hy⟩
      · obtain ⟨y, hy', hR⟩ := ih hmem
        exact ⟨y, List.mem_cons_of_mem _ hy', hR⟩

theorem mem_iff_of_forall₂ (h : List.Forall₂ R xs ys)
    (hR : ∀ {x y y'}, R x y → R x y' → y = y') {y : β} :
    y ∈ ys ↔ ∃ x ∈ xs, R x y := by
  constructor
  · intro hy
    exact exists_of_forall₂ h.flip hy
  · intro hex
    obtain ⟨x, hx, hxy⟩ := hex
    obtain ⟨y', hy', hxy'⟩ := exists_of_forall₂ h hx
    rw [hR hxy hxy']
    exact hy'

theorem exists_forall₂ (h : ∀ x ∈ xs, ∃ y, R x y) :
    ∃ ys, List.Forall₂ R xs ys := by
  induction xs with
  | nil => exact ⟨[], .nil⟩
  | cons x xs ih =>
      obtain ⟨y, hy⟩ := h x List.mem_cons_self
      obtain ⟨ys, hys⟩ := ih fun x' hx' => h x' (List.mem_cons_of_mem x hx')
      exact ⟨y :: ys, .cons hy hys⟩

end Values

theorem mapM_eq_some_iff {f : α → Option β} {xs : List α} {ys : List β} :
    xs.mapM f = some ys ↔ List.Forall₂ (fun x y => f x = some y) xs ys := by
  induction xs generalizing ys with
  | nil =>
      rw [List.mapM_nil, List.forall₂_nil_left_iff]
      simp [eq_comm]
  | cons x xs ih =>
      rw [List.mapM_cons, List.forall₂_cons_left_iff]
      simp only [bind_eq_some_iff, Option.pure_def, Option.some.injEq, ih]
      constructor
      · intro h
        obtain ⟨y, hy, rest, hrest, rfl⟩ := h
        exact ⟨y, rest, hy, hrest, rfl⟩
      · intro h
        obtain ⟨y, rest, hy, hrest, rfl⟩ := h
        exact ⟨y, hy, rest, hrest, rfl⟩

theorem mem_mapM_iff {f : α → Option β} {xs : List α}
    {ys : List β} (h : xs.mapM f = some ys) {y : β} :
    y ∈ ys ↔ ∃ x ∈ xs, f x = some y :=
  mem_iff_of_forall₂ (mapM_eq_some_iff.mp h)
    fun hy hy' => Option.some.inj (hy.symm.trans hy')

theorem exists_of_mapM {f : α → Option β} {xs : List α}
    {ys : List β} (h : xs.mapM f = some ys) {x : α} (hx : x ∈ xs) :
    ∃ y ∈ ys, f x = some y :=
  exists_of_forall₂ (mapM_eq_some_iff.mp h) hx

theorem exists_mapM_iff {f : α → Option β} {xs : List α} {P : α → β → Prop} :
    (∃ ys, xs.mapM f = some ys ∧ List.Forall₂ P xs ys) ↔
      ∀ x ∈ xs, ∃ y, f x = some y ∧ P x y := by
  simp only [mapM_eq_some_iff]
  induction xs with
  | nil => simp
  | cons x xs ih =>
      rw [List.forall_mem_cons, ← ih]
      constructor
      · intro h
        obtain ⟨ys, hys, hP⟩ := h
        cases hys with
        | cons hy hrest =>
            rw [List.forall₂_cons] at hP
            exact ⟨⟨_, hy, hP.1⟩, _, hrest, hP.2⟩
      · intro h
        obtain ⟨⟨y, hy, hyP⟩, ys, hys, hP⟩ := h
        exact ⟨y :: ys, .cons hy hys, .cons hyP hP⟩

theorem mapM_congr {f g : α → Option β} {xs : List α}
    (h : ∀ x ∈ xs, f x = g x) : xs.mapM f = xs.mapM g := by
  induction xs with
  | nil => rfl
  | cons x xs ih =>
      rw [List.forall_mem_cons] at h
      rw [List.mapM_cons, List.mapM_cons, h.1, ih h.2]

/-! ## Errors -/

section Errors

theorem bind_eq_ok_iff {ε : Type*} {α β : Type _} {x : Except ε α}
    {f : α → Except ε β} {b : β} :
    (x >>= f) = .ok b ↔ ∃ a, x = .ok a ∧ f a = .ok b := by
  cases x with
  | error e =>
      constructor
      · intro h
        cases h
      · intro h
        obtain ⟨a, ha, _⟩ := h
        cases ha
  | ok a =>
      constructor
      · exact fun h => ⟨a, rfl, h⟩
      · intro h
        obtain ⟨a', ha, hf⟩ := h
        injection ha with ha
        rw [← ha] at hf
        exact hf

variable {ε : Type*} {f : α → Except ε β} {xs : List α} {ys : List β}

theorem mapM_eq_ok_iff :
    xs.mapM f = .ok ys ↔ List.Forall₂ (fun x y => f x = .ok y) xs ys := by
  induction xs generalizing ys with
  | nil =>
      rw [List.mapM_nil, List.forall₂_nil_left_iff]
      simp [pure, Except.pure, eq_comm]
  | cons x xs ih =>
      rw [List.mapM_cons, List.forall₂_cons_left_iff]
      simp only [bind_eq_ok_iff, pure, Except.pure, Except.ok.injEq, ih]
      constructor
      · intro h
        obtain ⟨y, hy, rest, hrest, rfl⟩ := h
        exact ⟨y, rest, hy, hrest, rfl⟩
      · intro h
        obtain ⟨y, rest, hy, hrest, rfl⟩ := h
        exact ⟨y, hy, rest, hrest, rfl⟩

theorem mem_of_mapM_eq_ok (h : xs.mapM f = .ok ys) (y : β) :
    y ∈ ys ↔ ∃ x ∈ xs, f x = .ok y :=
  mem_iff_of_forall₂ (mapM_eq_ok_iff.mp h)
    fun hy hy' => Except.ok.inj (hy.symm.trans hy')

theorem exists_ok_of_mapM (h : xs.mapM f = .ok ys) {x : α} (hx : x ∈ xs) :
    ∃ y, f x = .ok y := by
  obtain ⟨y, _, hy⟩ := exists_of_forall₂ (mapM_eq_ok_iff.mp h) hx
  exact ⟨y, hy⟩

theorem exists_mapM_ok (h : ∀ x ∈ xs, ∃ y, f x = .ok y) :
    ∃ ys, xs.mapM f = .ok ys := by
  simp only [mapM_eq_ok_iff]
  exact exists_forall₂ h

theorem mapM_eq_ok_map {g : α → β} (h : ∀ x ∈ xs, f x = .ok (g x)) :
    xs.mapM f = .ok (xs.map g) := by
  rw [mapM_eq_ok_iff, List.forall₂_map_right_iff, List.forall₂_same]
  exact h

end Errors

theorem map_eq_map_cases {g : β → γ} {x y : Option β} (h : x.map g = y.map g) :
    x = none ∧ y = none ∨ ∃ a b, x = some a ∧ y = some b ∧ g a = g b := by
  cases x with
  | none =>
      rw [Option.map_none, eq_comm, Option.map_eq_none_iff] at h
      exact Or.inl ⟨rfl, h⟩
  | some a =>
      rw [Option.map_some, eq_comm, Option.map_eq_some_iff] at h
      obtain ⟨b, hb, hview⟩ := h
      exact Or.inr ⟨a, b, rfl, hb, hview.symm⟩

theorem mapM_view_congr {f f' : α → Option β} {g : β → γ}
    {xs : List α} (h : ∀ x ∈ xs, (f x).map g = (f' x).map g) :
    (xs.mapM f).map (List.map g) = (xs.mapM f').map (List.map g) := by
  induction xs with
  | nil => rfl
  | cons x xs ih =>
      have hxs := ih fun y hy => h y (List.mem_cons_of_mem x hy)
      rw [List.mapM_cons, List.mapM_cons]
      rcases map_eq_map_cases (h x List.mem_cons_self) with
        ⟨hx, hx'⟩ | ⟨y, y', hx, hx', hy⟩
      · rw [hx, hx']
        rfl
      · rw [hx, hx']
        rcases map_eq_map_cases hxs with
          ⟨hrest, hrest'⟩ | ⟨ys, ys', hrest, hrest', hys⟩
        · simp [hrest, hrest']
        · simp [hrest, hrest', hy, hys]

/-! ## Loops with a state -/

theorem foldlM_congr {f g : σ → α → Option σ} {xs : List α}
    (h : ∀ s, ∀ x ∈ xs, f s x = g s x) (s : σ) :
    xs.foldlM f s = xs.foldlM g s := by
  induction xs generalizing s with
  | nil => rfl
  | cons x xs ih =>
      rw [List.foldlM_cons, List.foldlM_cons, h s x List.mem_cons_self]
      congr 1
      funext t
      exact ih (fun t y hy => h t y (List.mem_cons_of_mem x hy)) t

theorem foldlM_invariant {f : σ → α → Option σ} {P : σ → Prop}
    {xs : List α} (hstep : ∀ x ∈ xs, ∀ s s', P s → f s x = some s' → P s')
    {s s' : σ} (hs : P s) (h : xs.foldlM f s = some s') : P s' := by
  induction xs generalizing s with
  | nil =>
      obtain rfl := Option.some.inj h
      exact hs
  | cons x xs ih =>
      rw [List.foldlM_cons, bind_eq_some_iff] at h
      obtain ⟨t, ht, hrest⟩ := h
      exact ih (fun y hy => hstep y (List.mem_cons_of_mem x hy))
        (hstep x List.mem_cons_self s t hs ht) hrest

theorem exists_step_of_foldlM {f : σ → α → Option σ} {xs : List α}
    {s s' : σ} (h : xs.foldlM f s = some s') {x : α} (hx : x ∈ xs) :
    ∃ t t', f t x = some t' := by
  induction xs generalizing s with
  | nil => cases hx
  | cons y xs ih =>
      rw [List.foldlM_cons, bind_eq_some_iff] at h
      obtain ⟨t, hstep, hrest⟩ := h
      rcases List.mem_cons.mp hx with rfl | hmem
      · exact ⟨s, t, hstep⟩
      · exact ih hrest hmem

end ContivVPP.PartialLoops
