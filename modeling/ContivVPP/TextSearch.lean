import Mathlib.Data.List.Infix
import Mathlib.Tactic.Common

/-!
# Searching and splitting texts

A pattern of fixed length has one class of characters for each position.  The
searches are for the first position at which a pattern matches, and for all
matches that do not overlap; `split` cuts a text at a separator.
-/

namespace ContivVPP.TextSearch

variable {α : Type*}

abbrev Pattern (α : Type*) := List (α → Bool)

def Pattern.matches : Pattern α → List α → Bool
  | [], _ => true
  | _ :: _, [] => false
  | p :: ps, a :: text => p a && Pattern.matches ps text

def index (pattern : Pattern α) (text : List α) : Option ℕ :=
  text.tails.findIdx? pattern.matches

-- A round consumes the match; as many rounds as characters are enough for a
-- pattern that is not empty.
def indexesFrom (pattern : Pattern α) : ℕ → ℕ → List α → List ℕ
  | 0, _, _ => []
  | fuel + 1, position, text =>
      match index pattern text with
      | none => []
      | some i => (position + i) ::
          indexesFrom pattern fuel (position + (i + pattern.length))
            (text.drop (i + pattern.length))

def indexes (pattern : Pattern α) (text : List α) : List ℕ :=
  indexesFrom pattern text.length 0 text

section

variable [DecidableEq α]

def literal (word : List α) : Pattern α :=
  word.map fun a b => decide (b = a)

def splitFrom (separator : List α) : ℕ → List α → List (List α)
  | 0, text => [text]
  | fuel + 1, text =>
      match index (literal separator) text with
      | none => [text]
      | some i => text.take i ::
          splitFrom separator fuel (text.drop (i + separator.length))

def split (separator text : List α) : List (List α) :=
  splitFrom separator text.length text

end

/-! ## Matches -/

variable {text : List α}

theorem matches_append_iff {p q : Pattern α} :
    (Pattern.matches (p ++ q) text = true) ↔
      p.matches text = true ∧ q.matches (text.drop p.length) = true := by
  induction p generalizing text with
  | nil => simp [Pattern.matches]
  | cons c p ih =>
      cases text with
      | nil => simp [Pattern.matches]
      | cons a text => simp [Pattern.matches, ih, and_assoc]

theorem matches_literal_iff [DecidableEq α] {word : List α} :
    ((literal word).matches text = true) ↔ word <+: text := by
  induction word generalizing text with
  | nil => simp [literal, Pattern.matches]
  | cons w word ih =>
      cases text with
      | nil => simp [literal, Pattern.matches]
      | cons a text =>
          have htail : (Pattern.matches (word.map fun a b => decide (b = a))
              text = true) ↔ word <+: text := ih
          simp only [literal, List.map_cons, Pattern.matches,
            Bool.and_eq_true, decide_eq_true_eq, htail,
            List.cons_prefix_cons]
          exact and_congr_left fun _ => eq_comm

variable {pattern : Pattern α}

theorem index_eq_some {i : ℕ} (h : index pattern text = some i) :
    i ≤ text.length ∧ pattern.matches (text.drop i) = true := by
  obtain ⟨hi, hmatch, -⟩ := List.findIdx?_eq_some_iff_getElem.mp h
  rw [List.length_tails] at hi
  rw [List.getElem_tails] at hmatch
  exact ⟨by omega, hmatch⟩

theorem exists_of_index_literal [DecidableEq α] {word : List α} {i : ℕ}
    (h : index (literal word) text = some i) :
    ∃ t₁ t₂, text = t₁ ++ (word ++ t₂) ∧ t₁.length = i := by
  obtain ⟨hi, hmatch⟩ := index_eq_some h
  obtain ⟨t₂, ht₂⟩ := matches_literal_iff.mp hmatch
  refine ⟨text.take i, t₂, ?_, List.length_take_of_le hi⟩
  rw [ht₂, List.take_append_drop]

theorem index_literal_eq_none_iff [DecidableEq α] {word : List α} :
    index (literal word) text = none ↔ ¬ word <:+: text := by
  rw [index, List.findIdx?_eq_none_iff]
  constructor
  · rintro h ⟨before, after, rfl⟩
    have hsuffix : word ++ after ∈ (before ++ word ++ after).tails := by
      rw [List.mem_tails, List.append_assoc]
      exact List.suffix_append before (word ++ after)
    have hmatch : (literal word).matches (word ++ after) = true :=
      matches_literal_iff.mpr (List.prefix_append word after)
    rw [h _ hsuffix] at hmatch
    simp at hmatch
  · intro h suffix hsuffix
    rw [List.mem_tails] at hsuffix
    rw [Bool.eq_false_iff]
    intro hmatch
    exact h ((matches_literal_iff.mp hmatch).isInfix.trans hsuffix.isInfix)

theorem matches_of_mem_indexesFrom {fuel : ℕ} {position m : ℕ} {whole : List α}
    (h : whole.drop position = text)
    (hm : m ∈ indexesFrom pattern fuel position text) :
    pattern.matches (whole.drop m) = true := by
  induction fuel generalizing position text with
  | zero => simp [indexesFrom] at hm
  | succ fuel ih =>
      cases hindex : index pattern text with
      | none => simp [indexesFrom, hindex] at hm
      | some i =>
          simp only [indexesFrom, hindex, List.mem_cons] at hm
          rcases hm with rfl | hm
          · have hmatch := (index_eq_some hindex).2
            rwa [← h, List.drop_drop] at hmatch
          · refine ih ?_ hm
            rw [← h, List.drop_drop]

theorem matches_of_mem_indexes {m : ℕ} (hm : m ∈ indexes pattern text) :
    pattern.matches (text.drop m) = true :=
  matches_of_mem_indexesFrom (List.drop_zero) hm

/-! ## Splitting -/

variable [DecidableEq α] {separator : List α}

theorem splitFrom_ne_nil (fuel : ℕ) (text : List α) :
    splitFrom separator fuel text ≠ [] := by
  cases fuel with
  | zero => simp [splitFrom]
  | succ fuel =>
      cases hindex : index (literal separator) text with
      | none => simp [splitFrom, hindex]
      | some i => simp [splitFrom, hindex]

theorem intercalate_splitFrom (fuel : ℕ) (text : List α) :
    separator.intercalate (splitFrom separator fuel text) = text := by
  induction fuel generalizing text with
  | zero => simp [splitFrom]
  | succ fuel ih =>
      cases hindex : index (literal separator) text with
      | none => simp [splitFrom, hindex]
      | some i =>
          obtain ⟨t₁, t₂, rfl, rfl⟩ := exists_of_index_literal hindex
          simp only [splitFrom, hindex]
          rw [List.intercalate_cons_of_ne_nil (splitFrom_ne_nil _ _), ih,
            List.take_left, ← List.drop_drop, List.drop_left, List.drop_left,
            List.append_assoc]

theorem intercalate_split (text : List α) :
    separator.intercalate (split separator text) = text :=
  intercalate_splitFrom text.length text

theorem split_ne_nil (separator text : List α) :
    split separator text ≠ [] :=
  splitFrom_ne_nil text.length text

theorem split_of_leading (hne : separator ≠ []) (h : separator <+: text) :
    ∃ rest ≠ [], split separator text = [] :: rest := by
  obtain ⟨after, rfl⟩ := h
  obtain ⟨a, separator, rfl⟩ := List.exists_cons_of_ne_nil hne
  have hindex : index (literal (a :: separator))
      ((a :: separator) ++ after) = some 0 := by
    have hmatch : (literal (a :: separator)).matches
        ((a :: separator) ++ after) = true :=
      matches_literal_iff.mpr (List.prefix_append _ _)
    rw [List.cons_append] at hmatch ⊢
    simp [index, List.findIdx?_cons, hmatch]
  refine ⟨splitFrom (a :: separator) (separator ++ after).length after,
    splitFrom_ne_nil _ _, ?_⟩
  rw [split, List.cons_append, List.length_cons, splitFrom,
    ← List.cons_append, hindex]
  simp

end ContivVPP.TextSearch
