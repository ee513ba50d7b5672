import Mathlib.Tactic

/-!
# Appending by key

A list that is built by appending an element only if no element with the same
key is there yet.  What ends up in the list are the elements that come first
with their key.
-/

namespace ContivVPP.KeyedAppend

variable {α κ : Type*} (key : α → κ)

/-- `x` occurs in the list before any other element with its key. -/
def First (xs : List α) (x : α) : Prop :=
  ∃ before after, xs = before ++ x :: after ∧ ∀ y ∈ before, key y ≠ key x

def appendNew [DecidableEq κ] (xs : List α) (x : α) : List α :=
  if ∃ y ∈ xs, key y = key x then xs else xs ++ [x]

def appendAllNew [DecidableEq κ] (xs new : List α) : List α :=
  new.foldl (appendNew key) xs

variable {key}

variable {xs : List α} {x : α}

theorem First.mem (h : First key xs x) : x ∈ xs := by
  obtain ⟨before, after, rfl, _⟩ := h
  simp

theorem first_cons_iff {y : α} :
    First key (y :: xs) x ↔ x = y ∨ (key y ≠ key x ∧ First key xs x) := by
  constructor
  · rintro ⟨before, after, heq, hbefore⟩
    cases before with
    | nil =>
        simp only [List.nil_append, List.cons.injEq] at heq
        exact Or.inl heq.1.symm
    | cons z before =>
        simp only [List.cons_append, List.cons.injEq] at heq
        obtain ⟨rfl, rfl⟩ := heq
        exact Or.inr ⟨hbefore y List.mem_cons_self, before, after, rfl,
          fun z hz => hbefore z (List.mem_cons_of_mem _ hz)⟩
  · rintro (rfl | ⟨hkey, before, after, rfl, hbefore⟩)
    · exact ⟨[], xs, rfl, by simp⟩
    · refine ⟨y :: before, after, rfl, ?_⟩
      rw [List.forall_mem_cons]
      exact ⟨hkey, hbefore⟩

theorem exists_first (key : α → κ) (h : x ∈ xs) :
    ∃ y, First key xs y ∧ key y = key x := by
  induction xs with
  | nil => simp at h
  | cons z xs ih =>
      by_cases hkey : key z = key x
      · exact ⟨z, first_cons_iff.mpr (Or.inl rfl), hkey⟩
      · have hmem : x ∈ xs := by
          rcases List.mem_cons.mp h with heq | hmem
          · exact absurd (congrArg key heq.symm) hkey
          · exact hmem
        obtain ⟨y, hy, hyx⟩ := ih hmem
        refine ⟨y, first_cons_iff.mpr (Or.inr ⟨?_, hy⟩), hyx⟩
        rw [hyx]
        exact hkey

theorem first_append_iff {ys : List α} : First key (xs ++ ys) x ↔
      First key xs x ∨ (First key ys x ∧ ∀ y ∈ xs, key y ≠ key x) := by
  induction xs with
  | nil =>
      have hnone : ¬ First key [] x := fun h => by simpa using h.mem
      simp [hnone]
  | cons z xs ih =>
      rw [List.cons_append, first_cons_iff, first_cons_iff, ih,
        List.forall_mem_cons]
      by_cases hz : x = z
      · simp [hz]
      · tauto

theorem first_iff_mem (hinj : ∀ y ∈ xs, ∀ z ∈ xs, key y = key z → y = z) :
    First key xs x ↔ x ∈ xs := by
  constructor
  · exact First.mem
  · intro hx
    obtain ⟨y, hy, hkey⟩ := exists_first key hx
    rwa [← hinj y hy.mem x hx hkey]

/-- If no two blocks share a key, then what comes first in its block comes
first in the list, whatever the order of the blocks. -/
theorem first_flatMap_iff {β : Type*} {f : β → List α} {l : List β}
    (hkeys : l.Pairwise fun b c => ∀ y ∈ f b, ∀ z ∈ f c, key y ≠ key z) :
    First key (l.flatMap f) x ↔ ∃ b ∈ l, First key (f b) x := by
  induction l with
  | nil =>
      have hnone : ¬ First key [] x := fun h => by simpa using h.mem
      simp [hnone]
  | cons b l ih =>
      rw [List.pairwise_cons] at hkeys
      rw [List.flatMap_cons, first_append_iff, ih hkeys.2]
      simp only [List.mem_cons, exists_eq_or_imp]
      refine or_congr_right (and_iff_left_of_imp ?_)
      rintro ⟨c, hc, hx⟩ y hy
      exact hkeys.1 c hc y hy x hx.mem

variable [DecidableEq κ]

variable {new : List α}

theorem mem_appendAllNew : x ∈ appendAllNew key xs new ↔
      x ∈ xs ∨ (First key new x ∧ ∀ y ∈ xs, key y ≠ key x) := by
  induction new generalizing xs with
  | nil =>
      have hnone : ¬ First key [] x := fun h => by simpa using h.mem
      simp [appendAllNew, hnone]
  | cons z new ih =>
      change x ∈ appendAllNew key (appendNew key xs z) new ↔ _
      rw [ih, first_cons_iff]
      unfold appendNew
      by_cases hz : ∃ y ∈ xs, key y = key z
      · rw [if_pos hz]
        obtain ⟨y, hy, hyz⟩ := hz
        constructor
        · rintro (hx | ⟨hx, hnew⟩)
          · exact Or.inl hx
          · exact Or.inr ⟨Or.inr ⟨hyz ▸ hnew y hy, hx⟩, hnew⟩
        · rintro (hx | ⟨rfl | hx, hnew⟩)
          · exact Or.inl hx
          · exact absurd hyz (hnew y hy)
          · exact Or.inr ⟨hx.2, hnew⟩
      · rw [if_neg hz]
        simp only [not_exists, not_and] at hz
        simp only [List.mem_append, List.mem_singleton]
        constructor
        · rintro ((hx | rfl) | ⟨hx, hnew⟩)
          · exact Or.inl hx
          · exact Or.inr ⟨Or.inl rfl, hz⟩
          · exact Or.inr ⟨Or.inr ⟨hnew z (Or.inr rfl), hx⟩,
              fun y hy => hnew y (Or.inl hy)⟩
        · rintro (hx | ⟨rfl | hx, hnew⟩)
          · exact Or.inl (Or.inl hx)
          · exact Or.inl (Or.inr rfl)
          · refine Or.inr ⟨hx.2, ?_⟩
            rintro y (hy | rfl)
            · exact hnew y hy
            · exact hx.1

theorem appendAllNew_of_new (hnodup : (new.map key).Nodup)
    (hnew : ∀ x ∈ new, ∀ y ∈ xs, key y ≠ key x) :
    appendAllNew key xs new = xs ++ new := by
  induction new generalizing xs with
  | nil => simp [appendAllNew]
  | cons z new ih =>
      rw [List.map_cons, List.nodup_cons] at hnodup
      rw [List.forall_mem_cons] at hnew
      change appendAllNew key (appendNew key xs z) new = _
      have hz : ¬ ∃ y ∈ xs, key y = key z := by
        rintro ⟨y, hy, hyz⟩
        exact hnew.1 y hy hyz
      rw [appendNew, if_neg hz, ih hnodup.2]
      · simp
      · intro x hx y hy
        rw [List.mem_append, List.mem_singleton] at hy
        rcases hy with hy | rfl
        · exact hnew.2 x hx y hy
        · intro hkey
          exact hnodup.1 (hkey ▸ List.mem_map_of_mem hx)

theorem appendAllNew_append (xs a b : List α) : appendAllNew key xs (a ++ b) =
      appendAllNew key (appendAllNew key xs a) b := by
  simp [appendAllNew]

theorem appendAllNew_of_old (hold : ∀ x ∈ new, ∃ y ∈ xs, key y = key x) :
    appendAllNew key xs new = xs := by
  induction new with
  | nil => rfl
  | cons z new ih =>
      rw [List.forall_mem_cons] at hold
      change appendAllNew key (appendNew key xs z) new = xs
      rw [appendNew, if_pos hold.1, ih hold.2]

theorem nodup_keys_appendAllNew (h : (xs.map key).Nodup) (new : List α) :
    ((appendAllNew key xs new).map key).Nodup := by
  induction new generalizing xs with
  | nil => exact h
  | cons z new ih =>
      apply ih
      unfold appendNew
      split
      next => exact h
      next hnew =>
        rw [List.map_append, List.nodup_append]
        refine ⟨h, List.nodup_singleton _, ?_⟩
        intro k hk k' hk' heq
        obtain ⟨y, hy, rfl⟩ := List.mem_map.mp hk
        rw [List.map_singleton, List.mem_singleton] at hk'
        exact hnew ⟨y, hy, heq.trans hk'⟩

theorem exists_key_appendAllNew (h : x ∈ new) :
    ∃ y ∈ appendAllNew key [] new, key y = key x := by
  obtain ⟨y, hy, hkey⟩ := exists_first key h
  exact ⟨y, mem_appendAllNew.mpr (Or.inr ⟨hy, by simp⟩), hkey⟩

/-! ## Distinct elements -/

section Distinct

variable {β : Type*} [DecidableEq β] {f : β → List α} {l l' : List β}

def distinct (l : List β) : List β := appendAllNew id [] l

theorem distinct_append (l : List β) (b : β) :
    distinct (l ++ [b]) = if b ∈ l then distinct l else distinct l ++ [b] := by
  have hmem : b ∈ distinct l ↔ b ∈ l := by
    rw [distinct, mem_appendAllNew]
    constructor
    · intro h
      rcases h with h | h
      · cases h
      · exact h.1.mem
    · intro h
      obtain ⟨y, hy, heq⟩ := exists_first id h
      obtain rfl : y = b := heq
      exact Or.inr ⟨hy, by simp⟩
  have hstep : distinct (l ++ [b]) = appendNew id (distinct l) b := by
    rw [distinct, appendAllNew_append]
    rfl
  rw [hstep, appendNew]
  simp only [id_eq, exists_eq_right, hmem]

theorem mem_distinct {b : β} : b ∈ distinct l ↔ b ∈ l := by
  induction l using List.reverseRecOn with
  | nil => rfl
  | append_singleton l c ih =>
      rw [distinct_append]
      split_ifs with hc
      · rw [ih, List.mem_append, List.mem_singleton]
        refine (or_iff_left_of_imp ?_).symm
        intro heq
        rwa [heq]
      · rw [List.mem_append, ih, List.mem_append]

theorem nodup_distinct (l : List β) : (distinct l).Nodup := by
  induction l using List.reverseRecOn with
  | nil => exact List.nodup_nil
  | append_singleton l c ih =>
      rw [distinct_append]
      split_ifs with hc
      · exact ih
      · rw [List.nodup_append]
        refine ⟨ih, List.nodup_singleton c, fun b hb d hd heq => hc ?_⟩
        rw [List.mem_singleton] at hd
        rwa [← hd, ← heq, ← mem_distinct]

theorem distinct_sublist (l : List β) : List.Sublist (distinct l) l := by
  induction l using List.reverseRecOn with
  | nil => exact .slnil
  | append_singleton l c ih =>
      rw [distinct_append]
      split_ifs with hc
      · exact ih.trans (List.sublist_append_left l [c])
      · exact ih.append_right [c]

theorem appendAllNew_flatMap_distinct (f : β → List α) (l : List β) :
    appendAllNew key [] ((distinct l).flatMap f) =
      appendAllNew key [] (l.flatMap f) := by
  induction l using List.reverseRecOn with
  | nil => rfl
  | append_singleton l c ih =>
      have hlast : (l ++ [c]).flatMap f = l.flatMap f ++ f c := by simp
      rw [distinct_append, hlast, appendAllNew_append]
      split_ifs with hc
      · rw [ih, appendAllNew_of_old fun x hx => exists_key_appendAllNew
          (List.mem_flatMap.mpr ⟨c, hc, hx⟩)]
      · rw [List.flatMap_append, appendAllNew_append, ih]
        simp

theorem distinct_eq {le : β → β → Prop}
    (hmem : ∀ b, b ∈ l ↔ b ∈ l') (hl : l.Pairwise le) (hl' : l'.Pairwise le)
    (hantisymm : ∀ a ∈ l, ∀ b ∈ l, le a b → le b a → a = b) :
    distinct l = distinct l' := by
  have hperm : (distinct l).Perm (distinct l') := by
    rw [List.perm_ext_iff_of_nodup (nodup_distinct l) (nodup_distinct l')]
    intro b
    rw [mem_distinct, mem_distinct, hmem]
  refine hperm.eq_of_pairwise ?_ (hl.sublist (distinct_sublist l))
    (hl'.sublist (distinct_sublist l'))
  intro a b ha hb
  exact hantisymm a (mem_distinct.mp ha) b ((hmem b).mpr (mem_distinct.mp hb))

end Distinct

omit [DecidableEq κ] in
theorem eq_of_map_eq {β : Type*} {f : α → β} {ys : List α}
    (h : xs.map f = ys.map f) (hinj : ∀ x ∈ xs, ∀ y ∈ ys, f x = f y → x = y) :
    xs = ys := by
  induction xs generalizing ys with
  | nil =>
      rw [List.map_nil, eq_comm, List.map_eq_nil_iff] at h
      exact h.symm
  | cons x xs ih =>
      cases ys with
      | nil => simp at h
      | cons y ys =>
          rw [List.map_cons, List.map_cons, List.cons.injEq] at h
          rw [hinj x List.mem_cons_self y List.mem_cons_self h.1,
            ih h.2 fun x' hx' y' hy' => hinj x' (List.mem_cons_of_mem x hx')
              y' (List.mem_cons_of_mem y hy')]

end ContivVPP.KeyedAppend
