import Mathlib.Data.List.Infix
import Mathlib.Tactic.Common

/-!
# Edits that add lines

A text is read as its complete lines, each with its end of line, and an
unfinished rest.  Insertions are applied one after another at positions of the
text before the first one; they are applied in place just if the positions do
not increase.
-/

namespace ContivVPP.LineEdits

variable {α : Type*} [DecidableEq α]

/-! ## Lines -/

/-- The complete lines and the rest of a text that is read after `line`. -/
def linesAfter (eol : List α) : List α → List α → List (List α) × List α
  | line, [] => ([], line)
  | line, a :: text =>
      if eol <:+ line ++ [a] then
        ((line ++ [a]) :: (linesAfter eol [] text).1, (linesAfter eol [] text).2)
      else linesAfter eol (line ++ [a]) text

def lines (eol text : List α) : List (List α) × List α :=
  linesAfter eol [] text

structure AddsLines (eol s t : List α) : Prop where
  lines : (lines eol s).1.Sublist (lines eol t).1
  rest : (LineEdits.lines eol s).2 = (LineEdits.lines eol t).2

instance (eol s t : List α) : Decidable (AddsLines eol s t) :=
  decidable_of_iff ((lines eol s).1.Sublist (lines eol t).1 ∧
      (lines eol s).2 = (lines eol t).2)
    ⟨fun h => ⟨h.1, h.2⟩, fun h => ⟨h.1, h.2⟩⟩

def Unbordered (eol : List α) : Prop :=
  eol ≠ [] ∧ ∀ w, w <+: eol → w <:+ eol → w = [] ∨ w = eol

def LineStart (eol before : List α) : Prop :=
  before = [] ∨ eol <:+ before

variable {eol s t u line a b x : List α}

omit [DecidableEq α] in
theorem eq_nil_or_of_prefix_concat {c : α} {w : List α}
    (h : w <+: [c]) : w = [] ∨ w = [c] := by
  have hconcat : w <+: [] ++ [c] := h
  rw [List.prefix_concat_iff, List.prefix_nil] at hconcat
  exact hconcat.symm

omit [DecidableEq α] in
theorem unbordered_singleton (c : α) : Unbordered [c] :=
  ⟨by simp, fun _ hw _ => eq_nil_or_of_prefix_concat hw⟩

omit [DecidableEq α] in
theorem unbordered_pair {c d : α} (h : c ≠ d) : Unbordered [c, d] := by
  refine ⟨by simp, fun w hbegin hend => ?_⟩
  have hconcat : w <+: [c] ++ [d] := hbegin
  rw [List.prefix_concat_iff] at hconcat
  rcases hconcat with hwhole | hfirst
  · exact .inr hwhole
  · rcases eq_nil_or_of_prefix_concat hfirst with hnil | rfl
    · exact .inl hnil
    · have hlast := hend.getLast (by simp)
      simp [h] at hlast

theorem linesAfter_append : linesAfter eol line (a ++ b) =
      ((linesAfter eol line a).1 ++
          (linesAfter eol (linesAfter eol line a).2 b).1,
        (linesAfter eol (linesAfter eol line a).2 b).2) := by
  induction a generalizing line with
  | nil => simp [linesAfter]
  | cons c a ih =>
      by_cases hend : eol <:+ line ++ [c]
      · simp [linesAfter, hend, ih]
      · simp [linesAfter, hend, ih]

theorem flatten_linesAfter :
    (linesAfter eol line t).1.flatten ++ (linesAfter eol line t).2 =
      line ++ t := by
  induction t generalizing line with
  | nil => simp [linesAfter]
  | cons c t ih =>
      by_cases hend : eol <:+ line ++ [c]
      · simp [linesAfter, hend, ih]
      · simp [linesAfter, hend, ih]

theorem suffix_of_mem_linesAfter {l : List α}
    (h : l ∈ (linesAfter eol line t).1) : eol <:+ l := by
  induction t generalizing line with
  | nil => simp [linesAfter] at h
  | cons c t ih =>
      by_cases hend : eol <:+ line ++ [c]
      · simp only [linesAfter, hend, if_true, List.mem_cons] at h
        rcases h with rfl | h
        · exact hend
        · exact ih h
      · simp only [linesAfter, hend, if_false] at h
        exact ih h

theorem linesAfter_of_forall (h : ∀ w, w <+: t → w ≠ [] → ¬ eol <:+ line ++ w) :
    linesAfter eol line t = ([], line ++ t) := by
  induction t generalizing line with
  | nil => simp [linesAfter]
  | cons c t ih =>
      have hend : ¬ eol <:+ line ++ [c] := h [c] (by simp) (by simp)
      rw [linesAfter, if_neg hend, ih, List.append_assoc]
      · rfl
      · intro w hw hne
        have hprefix : c :: w <+: c :: t := List.cons_prefix_cons.mpr ⟨rfl, hw⟩
        have hcons := h (c :: w) hprefix (by simp)
        rwa [List.append_cons] at hcons

/-- The end of line is read as such, as it cannot begin in another one. -/
theorem linesAfter_append_eol (h : Unbordered eol) :
    (linesAfter eol line eol).2 = [] := by
  obtain ⟨hne, hborder⟩ := h
  have hlast := List.dropLast_append_getLast hne
  have hbody : linesAfter eol line eol.dropLast = ([], line ++ eol.dropLast) := by
    refine linesAfter_of_forall fun w hw hwne hend => ?_
    have hprefix : w <+: eol := hw.trans (List.dropLast_prefix eol)
    have hlt : w.length < eol.length := by
      have hle := hw.length_le
      have hpos := List.length_pos_of_ne_nil hne
      rw [List.length_dropLast] at hle
      omega
    have hsuffix : w <:+ eol :=
      List.suffix_of_suffix_length_le (List.suffix_append line w) hend hlt.le
    rcases hborder w hprefix hsuffix with hnil | heq
    · exact hwne hnil
    · rw [heq] at hlt
      exact lt_irrefl _ hlt
  have hend : eol <:+ line ++ eol.dropLast ++ [eol.getLast hne] := by
    rw [List.append_assoc, hlast]
    exact List.suffix_append line eol
  have hread : (linesAfter eol line
      (eol.dropLast ++ [eol.getLast hne])).2 = [] := by
    rw [linesAfter_append, hbody]
    simp only [linesAfter, if_pos hend]
  rwa [hlast] at hread

theorem lines_rest_of_lineStart (h : Unbordered eol) (ha : LineStart eol a) :
    (lines eol a).2 = [] := by
  rcases ha with rfl | ⟨before, rfl⟩
  · rfl
  · rw [lines, linesAfter_append]
    exact linesAfter_append_eol h

theorem lines_append (h : Unbordered eol) (ha : LineStart eol a) :
    lines eol (a ++ b) =
      ((lines eol a).1 ++ (lines eol b).1, (lines eol b).2) := by
  have hrest := lines_rest_of_lineStart h ha
  rw [lines] at hrest
  rw [lines, linesAfter_append, hrest]
  rfl

theorem AddsLines.refl (eol s : List α) : AddsLines eol s s :=
  ⟨List.Sublist.refl _, rfl⟩

theorem AddsLines.trans (h₁ : AddsLines eol s t) (h₂ : AddsLines eol t u) :
    AddsLines eol s u :=
  ⟨h₁.lines.trans h₂.lines, h₁.rest.trans h₂.rest⟩

theorem AddsLines.insert (h : Unbordered eol) (ha : LineStart eol a)
    (hx : LineStart eol x) : AddsLines eol (a ++ b) (a ++ (x ++ b)) := by
  constructor
  · rw [lines_append h ha, lines_append h ha, lines_append h hx]
    exact (List.sublist_append_right _ _).append_left _
  · rw [lines_append h ha, lines_append h ha, lines_append h hx]

/-! ## Insertions -/

structure Insertion (α : Type*) where
  insertionPoint : ℕ
  text : List α
  deriving DecidableEq, Repr

def Insertion.apply (i : Insertion α) (document : List α) : List α :=
  document.take i.insertionPoint ++ (i.text ++ document.drop i.insertionPoint)

/-- The insertion in a text whose characters are marked: `true` for those of
the first text. -/
def Insertion.marked (i : Insertion α) : Insertion (α × Bool) :=
  ⟨i.insertionPoint, i.text.map fun c => (c, false)⟩

-- The characters of the first text that stand before the point are as many as
-- the point says.
def InPlaceFrom : List (Insertion α) → List (α × Bool) → Prop
  | [], _ => True
  | i :: is, document =>
      (document.take i.insertionPoint).countP Prod.snd = i.insertionPoint ∧
        InPlaceFrom is (i.marked.apply document)

/-- Each text is inserted at its position of the document as it was before the
first one. -/
def InPlace (document : List α) (is : List (Insertion α)) : Prop :=
  InPlaceFrom is (document.map fun c => (c, true))

def Descending (is : List (Insertion α)) : Prop :=
  is.Pairwise fun i j => j.insertionPoint ≤ i.insertionPoint

omit [DecidableEq α] in
theorem countP_take_iff {document : List (α × Bool)} {p : ℕ}
    (hp : p ≤ document.length) :
    (document.take p).countP Prod.snd = p ↔
      ∀ c ∈ document.take p, c.2 = true := by
  have hlength : (document.take p).length = p := by simp [hp]
  calc (document.take p).countP Prod.snd = p
      ↔ (document.take p).countP Prod.snd = (document.take p).length := by
        rw [hlength]
    _ ↔ ∀ c ∈ document.take p, c.2 = true := List.countP_eq_length

omit [DecidableEq α] in
theorem Insertion.take_apply {i : Insertion α} {document : List α} {q : ℕ}
    (hpoint : i.insertionPoint ≤ document.length)
    (hq : q ≤ i.insertionPoint) :
    (i.apply document).take q = document.take q := by
  have hlength : q ≤ (document.take i.insertionPoint).length := by
    simp only [List.length_take]
    omega
  rw [Insertion.apply, List.take_append_of_le_length hlength,
    List.take_take, min_eq_left hq]

omit [DecidableEq α] in
theorem Insertion.length_apply (i : Insertion α) (document : List α) :
    (i.apply document).length = document.length + i.text.length := by
  simp only [Insertion.apply, List.length_append, List.length_take,
    List.length_drop]
  omega

-- After an insertion only the part before it has no inserted character.
omit [DecidableEq α] in
theorem unmarked_apply_iff {i : Insertion α} {document : List (α × Bool)}
    {q : ℕ} (htext : i.text ≠ [])
    (hpoint : i.insertionPoint ≤ document.length) :
    (∀ c ∈ (i.marked.apply document).take q, c.2 = true) ↔
      q ≤ i.insertionPoint ∧ ∀ c ∈ document.take q, c.2 = true := by
  by_cases hq : q ≤ i.insertionPoint
  · have htake : (i.marked.apply document).take q = document.take q :=
      Insertion.take_apply hpoint hq
    rw [htake]
    exact (and_iff_right hq).symm
  · refine iff_of_false ?_ fun h => hq h.1
    intro hall
    obtain ⟨c, text, hcons⟩ := List.exists_cons_of_ne_nil htext
    have hmem : (c, false) ∈ (i.marked.apply document).take q := by
      refine List.mem_take_iff_getElem.mpr ⟨i.insertionPoint, ?_, ?_⟩
      · have hlength := Insertion.length_apply i.marked document
        simp only [Insertion.marked, hcons, List.map_cons,
          List.length_cons] at hlength
        simp only [Insertion.marked, hcons, List.map_cons]
        omega
      · simp [Insertion.apply, Insertion.marked, hcons, hpoint]
    simpa using hall _ hmem

omit [DecidableEq α] in
theorem inPlaceFrom_iff {is : List (Insertion α)}
    {document : List (α × Bool)} (htext : ∀ i ∈ is, i.text ≠ [])
    (hpoint : ∀ i ∈ is, i.insertionPoint ≤ document.length) :
    InPlaceFrom is document ↔
      (∀ i ∈ is, ∀ c ∈ document.take i.insertionPoint, c.2 = true) ∧
        Descending is := by
  induction is generalizing document with
  | nil => simp [InPlaceFrom, Descending]
  | cons i is ih =>
      have hi := hpoint i List.mem_cons_self
      have hitext := htext i List.mem_cons_self
      have hrest : ∀ j ∈ is, j.insertionPoint ≤
          (i.marked.apply document).length := by
        intro j hj
        have hle := hpoint j (List.mem_cons_of_mem i hj)
        rw [Insertion.length_apply]
        omega
      rw [InPlaceFrom, countP_take_iff hi,
        ih (fun j hj => htext j (List.mem_cons_of_mem i hj)) hrest]
      simp only [unmarked_apply_iff hitext hi, Descending,
        List.pairwise_cons, List.forall_mem_cons, forall_and]
      tauto

omit [DecidableEq α] in
theorem inPlace_iff {is : List (Insertion α)} {document : List α}
    (htext : ∀ i ∈ is, i.text ≠ [])
    (hpoint : ∀ i ∈ is, i.insertionPoint ≤ document.length) :
    InPlace document is ↔ Descending is := by
  rw [InPlace, inPlaceFrom_iff htext (by simpa using hpoint)]
  refine and_iff_right fun i _ c hc => ?_
  obtain ⟨d, -, rfl⟩ := List.mem_map.mp (List.mem_of_mem_take hc)
  rfl

omit [DecidableEq α] in
theorem foldl_apply_rel {R : List α → List α → Prop}
    (hrefl : ∀ d, R d d) (htrans : ∀ {d e f}, R d e → R e f → R d f)
    {document : List α} {is : List (Insertion α)} (hdesc : Descending is)
    (hstep : ∀ i ∈ is, ∀ after, R (document.take i.insertionPoint ++ after)
        (document.take i.insertionPoint ++ (i.text ++ after)))
    {current : List α}
    (hcurrent : ∀ i ∈ is, i.insertionPoint ≤ current.length ∧
      current.take i.insertionPoint = document.take i.insertionPoint) :
    R current (is.foldl (fun d i => i.apply d) current) := by
  induction is generalizing current with
  | nil => exact hrefl current
  | cons i is ih =>
      obtain ⟨hle, hrest⟩ := List.pairwise_cons.mp hdesc
      obtain ⟨hpoint, htake⟩ := hcurrent i List.mem_cons_self
      have hfirst : R current (i.apply current) := by
        have hone := hstep i List.mem_cons_self (current.drop i.insertionPoint)
        rwa [← htake, List.take_append_drop] at hone
      refine htrans hfirst (ih hrest
        (fun j hj => hstep j (List.mem_cons_of_mem i hj)) fun j hj => ?_)
      obtain ⟨hjpoint, hjtake⟩ := hcurrent j (List.mem_cons_of_mem i hj)
      refine ⟨?_, ?_⟩
      · rw [Insertion.length_apply]
        omega
      · rw [Insertion.take_apply hpoint (hle j hj), hjtake]

end ContivVPP.LineEdits
