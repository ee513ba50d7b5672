import Mathlib.Data.List.InsertIdx
import Mathlib.Data.List.ReduceOption
import Mathlib.Tactic

/-!
# Sorted arrays of slots

An array that keeps its elements in the first `numItems` slots and leaves the
others nil, as the rule lists of the caches do.  Elements are found by binary
search with a three-way comparison, inserted by moving the bigger ones to the
right, and removed by moving them back.

`a.Holds items` relates an array to the list of its elements.  The operations
are described on that list.
-/

namespace ContivVPP.SlotArray

/-! ## Binary search -/

-- `sort.Search` halves the interval in every round, so that a round for each
-- index is more than enough.
def searchLoop (f : ℕ → Bool) : ℕ → ℕ → ℕ → ℕ
  | 0, i, _ => i
  | fuel + 1, i, j =>
      if i < j then
        let h := (i + j) / 2
        if f h then searchLoop f fuel i h else searchLoop f fuel (h + 1) j
      else i

/-- `sort.Search`: the least index below `n` with `f`, or `n`. -/
def search (n : ℕ) (f : ℕ → Bool) : ℕ :=
  searchLoop f n 0 n

theorem searchLoop_spec {f : ℕ → Bool} {n : ℕ}
    (hmono : ∀ i j, i ≤ j → j < n → f i = true → f j = true)
    {fuel i j : ℕ} (hfuel : j - i ≤ fuel) (hij : i ≤ j) (hj : j ≤ n)
    (hbelow : ∀ k, k < i → f k = false)
    (habove : ∀ k, j ≤ k → k < n → f k = true) :
    searchLoop f fuel i j ≤ n ∧ (∀ k, k < searchLoop f fuel i j → f k = false) ∧
      ∀ k, searchLoop f fuel i j ≤ k → k < n → f k = true := by
  induction fuel generalizing i j with
  | zero =>
      have heq : i = j := by omega
      subst heq
      exact ⟨hj, hbelow, habove⟩
  | succ fuel ih =>
      rw [searchLoop]
      split
      next hlt =>
        by_cases hf : f ((i + j) / 2) = true
        · rw [if_pos hf]
          apply ih (by omega) (by omega) (by omega) hbelow
          intro k hk hkn
          exact hmono _ k hk hkn hf
        · rw [if_neg hf]
          apply ih (by omega) (by omega) hj _ habove
          intro k hk
          rw [← Bool.not_eq_true]
          intro hfk
          exact hf (hmono k _ (by omega) (by omega) hfk)
      next hge =>
        have heq : i = j := by omega
        subst heq
        exact ⟨hj, hbelow, habove⟩

theorem search_spec {f : ℕ → Bool} {n : ℕ}
    (hmono : ∀ i j, i ≤ j → j < n → f i = true → f j = true) :
    search n f ≤ n ∧ (∀ k, k < search n f → f k = false) ∧
      ∀ k, search n f ≤ k → k < n → f k = true :=
  searchLoop_spec hmono (by omega) (by omega) le_rfl (by omega)
    (fun k hk hkn => by omega)

end ContivVPP.SlotArray

namespace ContivVPP

/-! ## Slots -/

structure SlotArray (α : Type*) where
  numItems : ℕ
  slots : List (Option α)
  deriving DecidableEq, Repr

namespace SlotArray

variable {α : Type*}

def empty : SlotArray α := ⟨0, []⟩

def get? (a : SlotArray α) (i : ℕ) : Option α :=
  (a.slots[i]?).getD none

/-- The index of the first element that is not below the one looked for;
`probe x` compares the latter with `x`. -/
def lookupIdx (probe : α → Ordering) (a : SlotArray α) : ℕ :=
  search a.numItems fun i => ((a.get? i).map fun x => (probe x).isLE).getD false

def shiftRight (idx : ℕ) (slots : List (Option α)) : List (Option α) :=
  slots.take (idx + 1) ++ (slots.drop idx).take (slots.length - (idx + 1))

def shiftLeft (idx : ℕ) (slots : List (Option α)) : List (Option α) :=
  slots.take idx ++ slots.drop (idx + 1) ++ slots.drop (slots.length - 1)

def insertAt (idx : ℕ) (x : α) (a : SlotArray α) : SlotArray α :=
  let slots :=
    if a.numItems = a.slots.length then a.slots ++ [none] else a.slots
  let slots := if idx < a.numItems then shiftRight idx slots else slots
  ⟨a.numItems + 1, slots.set idx (some x)⟩

def removeAt (idx : ℕ) (a : SlotArray α) : SlotArray α :=
  let slots :=
    if idx < a.numItems - 1 then shiftLeft idx a.slots else a.slots
  ⟨a.numItems - 1, slots.set (a.numItems - 1) none⟩

/-- The array consists of the given elements and spare slots. -/
def Holds (a : SlotArray α) (items : List α) : Prop :=
  a.numItems = items.length ∧
    ∃ spare, a.slots = items.map some ++ List.replicate spare none

def items (a : SlotArray α) : List α :=
  (a.slots.take a.numItems).reduceOption

theorem reduceOption_map_some (items : List α) :
    (items.map some).reduceOption = items := by
  induction items with
  | nil => rfl
  | cons x items ih =>
      rw [List.map_cons, List.reduceOption_cons_of_some, ih]

theorem Holds.items_eq {a : SlotArray α} {items : List α}
    (h : a.Holds items) : a.items = items := by
  obtain ⟨hnum, spare, hslots⟩ := h
  rw [SlotArray.items, hslots, hnum,
    List.take_left' (List.length_map _), reduceOption_map_some]

theorem holds_empty : (empty : SlotArray α).Holds [] :=
  ⟨rfl, 0, rfl⟩

theorem Holds.get? {a : SlotArray α} {items : List α} (h : a.Holds items)
    (i : ℕ) : a.get? i = items[i]? := by
  obtain ⟨_, spare, hslots⟩ := h
  rw [SlotArray.get?, hslots]
  by_cases hi : i < items.length
  · rw [List.getElem?_append_left (by simpa using hi)]
    simp [List.getElem?_eq_getElem hi]
  · rw [List.getElem?_append_right (by simpa using hi),
      List.getElem?_replicate, List.getElem?_eq_none (by omega)]
    split <;> rfl

theorem set_shiftRight (left right : List (Option α)) (last x : Option α) :
    (shiftRight left.length (left ++ (right ++ [last]))).set left.length x =
      left ++ x :: right := by
  have hdrop : ((left ++ (right ++ [last])).drop left.length).take
      ((left ++ (right ++ [last])).length - (left.length + 1)) = right := by
    have hlen : (left ++ (right ++ [last])).length - (left.length + 1) =
        right.length := by
      simp only [List.length_append, List.length_singleton]
      omega
    rw [List.drop_left, hlen, List.take_left]
  obtain ⟨y, hy⟩ : ∃ y, (right ++ [last]).take 1 = [y] := by
    cases right with
    | nil => exact ⟨last, rfl⟩
    | cons y right => exact ⟨y, rfl⟩
  rw [shiftRight, hdrop, List.take_append, Nat.add_sub_cancel_left, hy]
  simp

theorem shiftLeft_append (left : List (Option α)) (y : Option α)
    {rest : List (Option α)} (hne : rest ≠ []) :
    shiftLeft left.length (left ++ y :: rest) =
      left ++ rest ++ [rest.getLast hne] := by
  have hdrop : (left ++ y :: rest).drop (left.length + 1) = rest := by
    rw [List.append_cons, show left.length + 1 = (left ++ [y]).length by simp,
      List.drop_left]
  have hlast : (left ++ y :: rest).drop ((left ++ y :: rest).length - 1) =
      [rest.getLast hne] := by
    rw [List.drop_length_sub_one (by simp), List.getLast_append_of_ne_nil,
      List.getLast_cons hne]
    simp
  rw [shiftLeft, hdrop, hlast, List.take_left]

theorem Holds.insertAt {a : SlotArray α} {items : List α}
    (h : a.Holds items) {idx : ℕ} (hidx : idx ≤ items.length) (x : α) :
    (a.insertAt idx x).Holds (items.take idx ++ x :: items.drop idx) := by
  obtain ⟨hnum, spare, hslots⟩ := h
  refine ⟨by simp [SlotArray.insertAt, hnum]; omega, ?_⟩
  have hgrown : ∃ spare', (if a.numItems = a.slots.length then
      a.slots ++ [none] else a.slots) =
      items.map some ++ List.replicate (spare' + 1) none := by
    cases spare with
    | zero =>
        rw [if_pos (by simp [hnum, hslots])]
        exact ⟨0, by simp [hslots]⟩
    | succ spare =>
        rw [if_neg (by simp [hnum, hslots])]
        exact ⟨spare, hslots⟩
  obtain ⟨spare', hgrown⟩ := hgrown
  refine ⟨spare', ?_⟩
  have hsplit : items.map some ++ List.replicate (spare' + 1) none =
      (items.take idx).map some ++ ((items.drop idx).map some ++
        List.replicate spare' none ++ [none]) := by
    rw [List.replicate_succ', ← List.append_assoc, ← List.append_assoc,
      ← List.append_assoc, ← List.map_append, List.take_append_drop]
  have hlen : ((items.take idx).map (@some α)).length = idx := by
    simpa using hidx
  simp only [SlotArray.insertAt]
  rw [hgrown, hnum]
  rcases hidx.lt_or_eq with hlt | heq
  · have hset := set_shiftRight ((items.take idx).map some)
      ((items.drop idx).map some ++ List.replicate spare' none) none (some x)
    rw [hlen] at hset
    rw [if_pos hlt, hsplit, hset]
    simp
  · subst heq
    rw [if_neg (lt_irrefl _), List.set_append_right _ _ (by simp)]
    simp [List.replicate_succ]

theorem Holds.removeAt {a : SlotArray α} {items : List α}
    (h : a.Holds items) {idx : ℕ} (hidx : idx < items.length) :
    (a.removeAt idx).Holds (items.take idx ++ items.drop (idx + 1)) := by
  obtain ⟨hnum, spare, hslots⟩ := h
  refine ⟨by simp [SlotArray.removeAt, hnum]; omega, spare + 1, ?_⟩
  have hitems : items.map some = (items.take idx).map some ++
      some items[idx] :: (items.drop (idx + 1)).map some := by
    rw [← List.map_cons, ← List.drop_eq_getElem_cons hidx, ← List.map_append,
      List.take_append_drop]
  have hlen : ((items.take idx).map (@some α)).length = idx := by
    rw [List.length_map, List.length_take]
    omega
  simp only [SlotArray.removeAt, hnum, hslots, hitems]
  by_cases hlast : idx < items.length - 1
  · have hne : (items.drop (idx + 1)).map some ++
        List.replicate spare (none : Option α) ≠ [] := by
      simp
      omega
    have hshift := shiftLeft_append ((items.take idx).map some)
      (some items[idx]) hne
    have htail : items.length - 1 = ((items.take idx).map (@some α) ++
        (items.drop (idx + 1)).map some).length := by
      simp
      omega
    have hspare : (List.replicate spare none ++
        [((items.drop (idx + 1)).map some ++
          List.replicate spare none).getLast hne]).set 0 none =
        List.replicate (spare + 1) none := by
      cases spare with
      | zero => rfl
      | succ spare =>
          rw [List.getLast_append_of_ne_nil _ (by simp), List.getLast_replicate]
          simp [List.replicate_succ, ← List.replicate_succ']
    rw [hlen] at hshift
    rw [if_pos hlast, List.append_assoc, List.cons_append, hshift,
      ← List.append_assoc, List.append_assoc, htail,
      List.set_append_right _ _ le_rfl, Nat.sub_self, hspare,
      List.map_append]
  · have heq : items.drop (idx + 1) = [] := by
      rw [List.drop_eq_nil_iff]
      omega
    have hidx' : items.length - 1 = ((items.take idx).map (@some α)).length := by
      omega
    rw [if_neg hlast, heq, hidx', List.append_assoc,
      List.set_append_right _ _ le_rfl]
    simp [List.replicate_succ]

/-! ## Sorted arrays -/

/-- The element that compares equal to the one looked for. -/
def lookup (probe : α → Ordering) (a : SlotArray α) : Option α :=
  let idx := a.lookupIdx probe
  if idx < a.numItems ∧ (a.get? idx).map probe = some .eq then a.get? idx
  else none

/-- Insert an element unless one that compares equal is there; the result
says whether it was inserted. -/
def insert (probe : α → Ordering) (x : α) (a : SlotArray α) :
    Bool × SlotArray α :=
  let idx := a.lookupIdx probe
  if idx < a.numItems ∧ (a.get? idx).map probe = some .eq then (false, a)
  else (true, a.insertAt idx x)

def StrictlySorted (cmp : α → α → Ordering) (items : List α) : Prop :=
  items.Pairwise fun x y => cmp x y = .lt

def Follows (cmp : α → α → Ordering) (probe : α → Ordering) : Prop :=
  ∀ x y, (probe x).isLE = true → cmp x y = .lt → probe y = .lt

theorem follows_cmp (cmp : α → α → Ordering) [Std.TransCmp cmp] (x : α) :
    Follows cmp (cmp x) :=
  fun _ _ hle hlt => Std.TransCmp.lt_of_isLE_of_lt hle hlt

section Sorted

variable {cmp : α → α → Ordering} {probe : α → Ordering} {a : SlotArray α}
  {items : List α}

section

variable (h : a.Holds items) (hsorted : StrictlySorted cmp items)
  (hprobe : Follows cmp probe)
include h hsorted hprobe

theorem lookupIdx_spec : a.lookupIdx probe ≤ items.length ∧
      (∀ y ∈ items.take (a.lookupIdx probe), probe y = .gt) ∧
      ∀ y ∈ items.drop (a.lookupIdx probe), (probe y).isLE = true := by
  have hread : ∀ i (hi : i < items.length),
      (((a.get? i).map fun y => (probe y).isLE).getD false) =
        (probe items[i]).isLE := by
    intro i hi
    rw [h.get?, List.getElem?_eq_getElem hi]
    rfl
  have hidx : a.lookupIdx probe = search items.length fun i =>
      ((a.get? i).map fun y => (probe y).isLE).getD false := by
    rw [lookupIdx, h.1]
  have hspec := search_spec (n := items.length) (f := fun i =>
    ((a.get? i).map fun y => (probe y).isLE).getD false) (by
      intro i j hij hj hi
      rw [hread i (by omega)] at hi
      rw [hread j hj]
      rcases hij.eq_or_lt with rfl | hlt
      · exact hi
      · have hlt' := List.pairwise_iff_getElem.mp hsorted i j (by omega) hj hlt
        rw [hprobe _ _ hi hlt']
        rfl)
  rw [← hidx] at hspec
  refine ⟨hspec.1, ?_, ?_⟩
  · intro y hy
    obtain ⟨i, hi, rfl⟩ := List.mem_take_iff_getElem.mp hy
    have hfalse := hspec.2.1 i (by omega)
    rw [hread i (by omega)] at hfalse
    cases hcmp : probe items[i] <;> simp [hcmp] at hfalse ⊢
  · intro y hy
    obtain ⟨i, hi, rfl⟩ := List.mem_drop_iff_getElem.mp hy
    rw [← hread]
    exact hspec.2.2 _ (by omega) (by omega)

theorem get?_lookupIdx_iff {y : α} : (a.lookupIdx probe < a.numItems ∧
        a.get? (a.lookupIdx probe) = some y ∧ probe y = .eq) ↔
      y ∈ items ∧ probe y = .eq := by
  obtain ⟨hle, hbelow, habove⟩ := lookupIdx_spec h hsorted hprobe
  have hsplit := (List.take_append_drop (a.lookupIdx probe) items).symm
  have hread : a.get? (a.lookupIdx probe) =
      (items.drop (a.lookupIdx probe)).head? := by
    rw [h.get?, List.head?_drop]
  constructor
  · intro hget
    refine ⟨?_, hget.2.2⟩
    rw [h.get?] at hget
    exact List.mem_of_getElem? hget.2.1
  · intro hmem
    obtain ⟨hy, heq⟩ := hmem
    have hdrop : y ∈ items.drop (a.lookupIdx probe) := by
      rw [hsplit, List.mem_append] at hy
      rcases hy with hy | hy
      · rw [hbelow y hy] at heq
        simp at heq
      · exact hy
    have hsorted' := hsorted.drop (i := a.lookupIdx probe)
    cases hcons : items.drop (a.lookupIdx probe) with
    | nil => simp [hcons] at hdrop
    | cons z bigger =>
        rw [hcons] at hdrop hsorted' hread habove
        have hyz : y = z := by
          rcases List.mem_cons.mp hdrop with hyz | hbig
          · exact hyz
          · have hzy := List.rel_of_pairwise_cons hsorted' hbig
            have hlt := hprobe z y (habove z List.mem_cons_self) hzy
            rw [heq] at hlt
            simp at hlt
        have hbound : a.lookupIdx probe < a.numItems := by
          have hlength := congrArg List.length hcons
          simp only [List.length_drop, List.length_cons] at hlength
          rw [h.1]
          omega
        exact ⟨hbound, by rw [hread, hyz]; rfl, heq⟩

theorem lookup_eq_some_iff {y : α} :
    a.lookup probe = some y ↔ y ∈ items ∧ probe y = .eq := by
  rw [← get?_lookupIdx_iff h hsorted hprobe, lookup]
  split
  next hfound =>
    constructor
    · intro hget
      refine ⟨hfound.1, hget, ?_⟩
      simpa [hget] using hfound.2
    · intro hget
      exact hget.2.1
  next hmiss =>
    constructor
    · intro hnone
      simp at hnone
    · intro hget
      exact absurd ⟨hget.1, by simp [hget.2.1, hget.2.2]⟩ hmiss

end

theorem insert_spec [Std.TransCmp cmp] (h : a.Holds items)
    (hsorted : StrictlySorted cmp items) (x : α) :
    ((∃ y ∈ items, cmp x y = .eq) ∧ a.insert (cmp x) x = (false, a)) ∨
      ((∀ y ∈ items, cmp x y ≠ .eq) ∧ ∃ smaller bigger,
        items = smaller ++ bigger ∧
        a.insert (cmp x) x = (true, a.insertAt smaller.length x) ∧
        (a.insertAt smaller.length x).Holds (smaller ++ x :: bigger) ∧
        StrictlySorted cmp (smaller ++ x :: bigger)) := by
  have hprobe := follows_cmp cmp x
  obtain ⟨hle, hbelow, habove⟩ := lookupIdx_spec h hsorted hprobe
  have hsplit := (List.take_append_drop (a.lookupIdx (cmp x)) items).symm
  have hlen : (items.take (a.lookupIdx (cmp x))).length =
      a.lookupIdx (cmp x) := by
    rw [List.length_take]
    omega
  by_cases heq : ∃ y ∈ items, cmp x y = .eq
  · refine Or.inl ⟨heq, ?_⟩
    obtain ⟨y, hy, hxy⟩ := heq
    have hget := (get?_lookupIdx_iff h hsorted hprobe).mpr ⟨hy, hxy⟩
    simp [insert, hget.1, hget.2.1, hget.2.2]
  · rw [not_exists] at heq
    simp only [not_and] at heq
    refine Or.inr ⟨heq, items.take (a.lookupIdx (cmp x)),
      items.drop (a.lookupIdx (cmp x)), hsplit, ?_⟩
    rw [hlen]
    refine ⟨?_, h.insertAt hle x, ?_⟩
    · have hmiss : (a.get? (a.lookupIdx (cmp x))).map (cmp x) ≠ some .eq := by
        rw [h.get?]
        intro hsome
        rw [Option.map_eq_some_iff] at hsome
        obtain ⟨y, hy, hxy⟩ := hsome
        exact heq y (List.mem_of_getElem? hy) hxy
      simp [insert, hmiss]
    · rw [StrictlySorted, List.pairwise_append, List.pairwise_cons]
      have hsorted' := hsorted
      rw [StrictlySorted, hsplit, List.pairwise_append] at hsorted'
      have hbigger : ∀ y ∈ items.drop (a.lookupIdx (cmp x)), cmp x y = .lt := by
        intro y hy
        have hne := heq y (List.mem_of_mem_drop hy)
        have hle := habove y hy
        cases hcmp : cmp x y <;> simp [hcmp] at hle hne ⊢
      refine ⟨hsorted'.1, ⟨hbigger, hsorted'.2.1⟩, ?_⟩
      intro y hy z hz
      rcases List.mem_cons.mp hz with rfl | hz
      · exact Std.OrientedCmp.lt_of_gt (hbelow y hy)
      · exact hsorted'.2.2 y hy z hz

end Sorted

/-! ## Arrays without spare slots -/

def Full (a : SlotArray α) : Prop :=
  a.slots.length = a.numItems

theorem full_empty : (empty : SlotArray α).Full := rfl

theorem length_shiftRight {idx : ℕ} {slots : List (Option α)}
    (h : idx < slots.length) :
    (shiftRight idx slots).length = slots.length := by
  simp only [shiftRight, List.length_append, List.length_take, List.length_drop]
  omega

theorem Full.insertAt {a : SlotArray α} (h : a.Full) (idx : ℕ) (x : α) :
    (a.insertAt idx x).Full := by
  simp only [Full] at h
  simp only [SlotArray.insertAt, Full, h, if_true, List.length_set]
  split
  · rw [length_shiftRight] <;> simp <;> omega
  · simp [h]

theorem Full.insert {a : SlotArray α} (h : a.Full) (probe : α → Ordering)
    (x : α) : (a.insert probe x).2.Full := by
  simp only [SlotArray.insert]
  split
  · exact h
  · exact h.insertAt _ x

theorem Holds.slots_eq {a : SlotArray α} {items : List α}
    (h : a.Holds items) (hfull : a.Full) : a.slots = items.map some := by
  obtain ⟨hnum, spare, hslots⟩ := h
  have hspare : spare = 0 := by
    rw [Full, hslots, hnum, List.length_append, List.length_map,
      List.length_replicate] at hfull
    omega
  rw [hslots, hspare, List.replicate_zero, List.append_nil]

end SlotArray

end ContivVPP
