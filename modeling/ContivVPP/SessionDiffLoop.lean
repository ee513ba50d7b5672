import ContivVPP.CompareResults
import ContivVPP.PartialLoops
import ContivVPP.SessionTables

/-!
# Differences of session tables built by any calls

The walk over two lists of rules is a loop with two indexes, which goes on
while either list has rules left.  It stops since every comparison moves at
least one of the indexes, and it finds the difference as sets.

A removal leaves a spare slot, which is nil.  The walk does not come across
these slots, but the table of a namespace that the other side lacks is copied
as a whole.
-/

namespace ContivVPP.SessionCache

open Renderer GoMap ThreeWay

variable {srl : SessionRuleList}

namespace SessionRuleList

/-! ## Calls -/

inductive ListCall
  | insert (rules : List SessionRule)
  | remove (idx : ℕ)

def ListCall.exec (srl : SessionRuleList) : ListCall → SessionRuleList
  | .insert rules => (srl.insert rules).2
  | .remove idx => (srl.remove idx).2

/-- The list is the result of calls on a new one. -/
def Built (srl : SessionRuleList) : Prop :=
  ∃ calls : List ListCall, srl = calls.foldl ListCall.exec SlotArray.empty

theorem Has.remove {rules : List SessionRule} (h : srl.Has rules) (idx : ℕ) :
    ∃ rules', (srl.remove idx).2.Has rules' := by
  unfold SessionRuleList.remove
  split
  next hidx =>
    have hlt : idx < rules.length := h.holds.1 ▸ hidx
    refine ⟨_, h.holds.removeAt hlt, ?_⟩
    rw [← List.eraseIdx_eq_take_drop_succ]
    exact h.sorted.sublist (List.eraseIdx_sublist rules idx)
  next => exact ⟨rules, h⟩

theorem Built.has (h : srl.Built) : srl.Has srl.items := by
  obtain ⟨calls, rfl⟩ := h
  have hrun : ∃ rules, (calls.foldl ListCall.exec SlotArray.empty).Has rules := by
    induction calls using List.reverseRecOn with
    | nil => exact ⟨[], has_empty⟩
    | append_singleton calls call ih =>
        obtain ⟨rules, hrules⟩ := ih
        rw [List.foldl_append]
        cases call with
        | insert new =>
            obtain ⟨rules', hrules', _⟩ := hrules.insert new
            exact ⟨rules', hrules'⟩
        | remove idx => exact hrules.remove idx
  obtain ⟨rules, hrules⟩ := hrun
  rwa [hrules.holds.items_eq]

/-! ## The walk over two lists -/

-- The result is `none` if the fuel does not suffice or a nil rule is compared.
-- A comparison with another result than -1, 0 or 1 would move neither index.
def diffLoop (srl srl2 : SessionRuleList) :
    ℕ → ℕ → ℕ → RuleRefs → RuleRefs → Option (RuleRefs × RuleRefs)
  | 0, idx1, idx2, added, removed =>
      if idx1 < srl.numItems ∨ idx2 < srl2.numItems then none
      else some (added, removed)
  | fuel + 1, idx1, idx2, added, removed =>
      if idx1 < srl.numItems then
        if idx2 < srl2.numItems then
          match srl.get? idx1, srl2.get? idx2 with
          | some r, some r2 =>
              let order := r.compareCode true r2
              if order = 0 then
                diffLoop srl srl2 fuel (idx1 + 1) (idx2 + 1) added removed
              else if order = -1 then
                diffLoop srl srl2 fuel (idx1 + 1) idx2 (added ++ [some r]) removed
              else if order = 1 then
                diffLoop srl srl2 fuel idx1 (idx2 + 1) added
                  (removed ++ [some r2])
              else diffLoop srl srl2 fuel idx1 idx2 added removed
          | _, _ => none
        else
          diffLoop srl srl2 fuel (idx1 + 1) idx2 (added ++ [srl.get? idx1])
            removed
      else if idx2 < srl2.numItems then
        diffLoop srl srl2 fuel idx1 (idx2 + 1) added (removed ++ [srl2.get? idx2])
      else some (added, removed)

theorem diffLoop_eq {srl2 : SessionRuleList} {rules rules2 : List SessionRule}
    (h : srl.Holds rules) (h2 : srl2.Holds rules2) (fuel idx1 idx2 : ℕ)
    (added removed : RuleRefs)
    (hfuel : (rules.length - idx1) + (rules2.length - idx2) ≤ fuel) :
    diffLoop srl srl2 fuel idx1 idx2 added removed =
      let d := SortedDiff.diff (SessionRule.compare true)
        (rules.drop idx1) (rules2.drop idx2)
      some (added ++ d.1.map some, removed ++ d.2.map some) := by
  induction fuel generalizing idx1 idx2 added removed with
  | zero =>
      have hidx1 : rules.length ≤ idx1 := by omega
      have hidx2 : rules2.length ≤ idx2 := by omega
      rw [diffLoop, if_neg (by rw [h.1, h2.1]; omega),
        List.drop_eq_nil_of_le hidx1, List.drop_eq_nil_of_le hidx2]
      simp
  | succ fuel ih =>
      rw [diffLoop, h.1, h2.1]
      rcases Nat.lt_or_ge idx1 rules.length with hidx1 | hidx1
      · rw [if_pos hidx1]
        rcases Nat.lt_or_ge idx2 rules2.length with hidx2 | hidx2
        · rw [if_pos hidx2, h.get?, h2.get?,
            List.getElem?_eq_getElem hidx1, List.getElem?_eq_getElem hidx2,
            List.drop_eq_getElem_cons hidx1,
            List.drop_eq_getElem_cons hidx2]
          simp only [SessionRule.compareCode_eq_code]
          cases hcmp : SessionRule.compare true rules[idx1] rules2[idx2] with
          | eq =>
              rw [SortedDiff.diff_cons_of_eq hcmp]
              exact ih _ _ _ _ (by omega)
          | lt =>
              have hrest := ih (idx1 + 1) idx2 (added ++ [some rules[idx1]])
                removed (by omega)
              rw [SortedDiff.diff_cons_of_lt hcmp,
                ← List.drop_eq_getElem_cons hidx2]
              simpa [code] using hrest
          | gt =>
              have hrest := ih idx1 (idx2 + 1) added
                (removed ++ [some rules2[idx2]]) (by omega)
              rw [SortedDiff.diff_cons_of_gt hcmp,
                ← List.drop_eq_getElem_cons hidx1]
              simpa [code] using hrest
        · -- Only the first list has rules left.
          have hrest := ih (idx1 + 1) idx2 (added ++ [some rules[idx1]])
            removed (by omega)
          rw [if_neg (by omega), h.get?, List.getElem?_eq_getElem hidx1,
            hrest, List.drop_eq_nil_of_le hidx2,
            List.drop_eq_getElem_cons hidx1]
          simp only [SortedDiff.diff_nil_right, List.map_cons,
            List.append_assoc, List.singleton_append]
      · rw [if_neg (by omega), List.drop_eq_nil_of_le hidx1]
        rcases Nat.lt_or_ge idx2 rules2.length with hidx2 | hidx2
        · have hrest := ih idx1 (idx2 + 1) added
            (removed ++ [some rules2[idx2]]) (by omega)
          rw [if_pos hidx2, h2.get?, List.getElem?_eq_getElem hidx2, hrest,
            List.drop_eq_nil_of_le hidx1, List.drop_eq_getElem_cons hidx2]
          simp only [SortedDiff.diff_nil_left, List.map_cons,
            List.append_assoc, List.singleton_append]
        · rw [if_neg (by omega), List.drop_eq_nil_of_le hidx2]
          simp

theorem Has.diffLoop_eq {srl2 : SessionRuleList} (h : srl.Has srl.items)
    (h2 : srl2.Has srl2.items) {fuel : ℕ}
    (hfuel : srl.numItems + srl2.numItems ≤ fuel) :
    diffLoop srl srl2 fuel 0 0 [] [] = some (srl.diff srl2) := by
  rw [h.holds.1, h2.holds.1] at hfuel
  rw [SessionRuleList.diffLoop_eq h.holds h2.holds fuel 0 0 [] [] (by omega)]
  rfl

end SessionRuleList

namespace SessionTables

variable {st st2 : SessionTables}

def diffNamespaceRun (fuel : ℕ) (st2 : SessionTables)
    (acc : RuleRefs × RuleRefs) (ns : UInt32 × SessionRuleList) :
    Option (RuleRefs × RuleRefs) :=
  match st2.locals.lookup ns.1 with
  | some nsRules2 => do
      let d ← ns.2.diffLoop nsRules2 fuel 0 0 [] []
      return (acc.1 ++ d.1, acc.2 ++ d.2)
  | none => some (acc.1 ++ ns.2.slots, acc.2)

/-- `SessionTables.Diff`, with the same bound on the rounds of each walk. -/
def diffRun (fuel : ℕ) (order order2 : RangeOrder (UInt32 × SessionRuleList))
    (st st2 : SessionTables) : Option (RuleRefs × RuleRefs) := do
  let d ← st.global.diffLoop st2.global fuel 0 0 [] []
  let d ← (range order st.locals).foldlM (diffNamespaceRun fuel st2) d
  return (range order2 st2.locals).foldl (diffMissing st) d

def Built (st : SessionTables) : Prop :=
  ∀ table srl, st.list table = some srl → srl.Built

theorem Built.sorted (h : st.Built) : st.Sorted :=
  fun table srl hlist => (h table srl hlist).has

def size (st : SessionTables) : ℕ :=
  st.global.numItems + ((pairs st.locals).map fun ns => ns.2.numItems).sum

theorem numItems_le_size {table : TableID} (h : st.list table = some srl) :
    srl.numItems ≤ st.size := by
  cases table with
  | global =>
      obtain rfl := Option.some.inj h
      exact Nat.le_add_right _ _
  | ofNamespace nsIndex =>
      have hmem : (nsIndex, srl) ∈ pairs st.locals :=
        (@mem_range _ _ _ .insertion _ _ _).mpr h
      have hle := List.single_le_sum (l := (pairs st.locals).map fun ns =>
        ns.2.numItems) (by simp) _ (List.mem_map.mpr ⟨_, hmem, rfl⟩)
      exact hle.trans (Nat.le_add_left _ _)

/-- A round for each rule of either side is enough for every walk. -/
theorem diffRun_eq (order order2 : RangeOrder (UInt32 × SessionRuleList))
    (hst : st.Sorted) (hst2 : st2.Sorted) {fuel : ℕ}
    (hfuel : st.size + st2.size ≤ fuel) :
    diffRun fuel order order2 st st2 = some (st.diff order order2 st2) := by
  have hwalk : ∀ table srl srl2, st.list table = some srl →
      st2.list table = some srl2 →
      srl.diffLoop srl2 fuel 0 0 [] [] = some (srl.diff srl2) := by
    intro table srl srl2 hlist hlist2
    have hle := numItems_le_size hlist
    have hle2 := numItems_le_size hlist2
    exact (hst table srl hlist).diffLoop_eq (hst2 table srl2 hlist2) (by omega)
  have hstep : ∀ acc, ∀ ns ∈ range order st.locals,
      diffNamespaceRun fuel st2 acc ns = pure (diffNamespace st2 acc ns) := by
    intro acc ns hns
    cases hns2 : st2.locals.lookup ns.1 with
    | none => simp [diffNamespaceRun, diffNamespace, hns2]
    | some nsRules2 =>
        have hdiff := hwalk (.ofNamespace ns.1) ns.2 nsRules2
          (mem_range.mp hns) hns2
        simp [diffNamespaceRun, diffNamespace, hns2, hdiff]
  have hloop := PartialLoops.foldlM_congr hstep (st.global.diff st2.global)
  rw [List.foldlM_pure] at hloop
  rw [diffRun, hwalk .global st.global st2.global rfl rfl, diff]
  simp [hloop]

/-! ## When the difference is right -/

def Differs (st st2 : SessionTables) (r : SessionRule) : Prop :=
  ∃ table, r ∈ st.rules table ∧ r ∉ st2.rules table

/-- The lists are sorted, and `Diff` stops with the rules that only one side
has, without nil and without duplicates. -/
structure DiffCorrect (order order2 : RangeOrder (UInt32 × SessionRuleList))
    (st st2 : SessionTables) : Prop where
  sorted : st.Sorted
  sorted2 : st2.Sorted
  result : ∃ added removed, (∃ fuel, ∀ fuel' ≥ fuel,
      diffRun fuel' order order2 st st2 = some (added, removed)) ∧
    Lists added (Differs st st2) ∧ Lists removed (Differs st2 st)

/-- The difference of tables built by any calls is right just if no table of a
namespace of one side only has spare slots, and no rule is missing in the same
way from two tables. -/
theorem diffCorrect_iff (order order2 : RangeOrder (UInt32 × SessionRuleList))
    (hst : st.Built) (hst2 : st2.Built) :
    DiffCorrect order order2 st st2 ↔ (NoSpare st st2 ∧ NoRepeat st st2) ∧
        NoSpare st2 st ∧ NoRepeat st2 st := by
  have hparts := diff_eq_parts order order2 hst.sorted hst2.sorted
  have hadded : Lists (st.diff order order2 st2).1 (Differs st st2) ↔
      NoSpare st st2 ∧ NoRepeat st st2 := by
    rw [hparts]
    exact lists_parts_iff hst.sorted (addedTables_nodup order st)
      fun _ => mem_addedTables_iff.mpr
  have hremoved : Lists (st.diff order order2 st2).2 (Differs st2 st) ↔
      NoSpare st2 st ∧ NoRepeat st2 st := by
    rw [hparts]
    exact lists_parts_iff hst2.sorted
      (removedTables_nodup order order2 st st2) fun _ => mem_removedTables
  rw [← hadded, ← hremoved]
  constructor
  · intro h
    obtain ⟨added, removed, ⟨fuel, hfuel⟩, hlists, hlists2⟩ := h.result
    have hrun := hfuel (max fuel (st.size + st2.size)) (Nat.le_max_left _ _)
    rw [diffRun_eq order order2 hst.sorted hst2.sorted
      (Nat.le_max_right _ _), Option.some.injEq] at hrun
    rw [hrun]
    exact ⟨hlists, hlists2⟩
  · rintro ⟨hlists, hlists2⟩
    refine ⟨hst.sorted, hst2.sorted, _, _, ⟨st.size + st2.size, ?_⟩, hlists,
      hlists2⟩
    intro fuel hfuel
    exact diffRun_eq order order2 hst.sorted hst2.sorted hfuel

def ofCalls (calls : List SessionRuleList.ListCall) : SessionTables :=
  ⟨SlotArray.empty, (∅ : AList fun _ : UInt32 => SessionRuleList).insert 1
    (calls.foldl SessionRuleList.ListCall.exec SlotArray.empty)⟩

theorem ofCalls_built (calls : List SessionRuleList.ListCall) :
    (ofCalls calls).Built := by
  intro table srl hlist
  cases table with
  | global =>
      obtain rfl := Option.some.inj hlist
      exact ⟨[], rfl⟩
  | ofNamespace nsIndex =>
      rcases lookup_insert_eq_some hlist with ⟨_, rfl⟩ | ⟨_, hold⟩
      · exact ⟨calls, rfl⟩
      · simp at hold

theorem new_built : new.Built := by
  intro table srl hlist
  cases table with
  | global =>
      obtain rfl := Option.some.inj hlist
      exact ⟨[], rfl⟩
  | ofNamespace nsIndex => simp [new, list] at hlist

def portRule (lclPort : UInt16) : SessionRule :=
  ⟨ruleProtoTCP, 1, zeroBytes 16, 0, zeroBytes 16, 0, lclPort, 0,
    ruleActionAllow, 1, ruleScopeLocal, zeroBytes 64⟩

def shrinkingCalls : List SessionRuleList.ListCall :=
  [.insert [portRule 80, portRule 443], .remove 0]

/-- If both sides have the namespace, the spare slot does not matter. -/
theorem diffCorrect_of_shrinkingCalls : (ofCalls shrinkingCalls).Built ∧
      DiffCorrect .insertion .insertion (ofCalls shrinkingCalls)
        (ofCalls shrinkingCalls) := by
  have hbuilt := ofCalls_built shrinkingCalls
  refine ⟨hbuilt, (diffCorrect_iff .insertion .insertion hbuilt hbuilt).mpr ?_⟩
  have hspare : NoSpare (ofCalls shrinkingCalls) (ofCalls shrinkingCalls) := by
    intro nsIndex srl hlist hnone
    simp [hlist] at hnone
  have hrepeat : NoRepeat (ofCalls shrinkingCalls) (ofCalls shrinkingCalls) :=
    fun _ _ _ hr hr2 _ _ => absurd hr hr2
  exact ⟨⟨hspare, hrepeat⟩, hspare, hrepeat⟩

/-- Otherwise it is returned as a nil rule. -/
theorem not_diffCorrect_of_shrinkingCalls :
    (ofCalls shrinkingCalls).Built ∧ new.Built ∧
      ¬ DiffCorrect .insertion .insertion (ofCalls shrinkingCalls) new := by
  have hbuilt := ofCalls_built shrinkingCalls
  refine ⟨hbuilt, new_built, ?_⟩
  intro h
  obtain ⟨added, removed, ⟨fuel, hfuel⟩, ⟨rules, hrules, _⟩, _⟩ := h.result
  have hrun := hfuel _ (Nat.le_max_left fuel
    ((ofCalls shrinkingCalls).size + new.size))
  rw [diffRun_eq .insertion .insertion hbuilt.sorted new_built.sorted
    (Nat.le_max_right _ _), Option.some.injEq] at hrun
  have hdiff : ((ofCalls shrinkingCalls).diff .insertion .insertion new).1 =
      [some (portRule 443), none] := by
    decide +kernel
  rw [hrun] at hdiff
  have hnil : none ∈ rules.map some := by
    rw [← hrules, show added = _ from hdiff]
    simp
  simp at hnil

end SessionTables

end ContivVPP.SessionCache
