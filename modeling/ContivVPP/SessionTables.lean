import ContivVPP.SessionRule
import ContivVPP.SortedDiff

/-!
# Session tables and their differences

VPP has one global table of session rules and one local table for each
namespace.  Rules are added and deleted one by one: a rule can be deleted if
the same rule with the same tag is there, and added if no rule is there that
differs in the tag at most.

The lists of a table are sorted without the tag and compared with it.  Two
valid sets of tables differ exactly by what is added and removed, and sending
the removed rules first makes every request succeed.
-/

namespace ContivVPP.SessionCache

open Renderer GoMap

/-! ## Tables -/

inductive TableID
  | global
  | ofNamespace (nsIndex : UInt32)
  deriving DecidableEq

def SessionRule.table (rule : SessionRule) : TableID :=
  if rule.scope = ruleScopeLocal then .ofNamespace rule.appnsIndex
  else .global

structure SessionTables where
  global : SessionRuleList
  locals : AList fun _ : UInt32 => SessionRuleList

abbrev RuleRefs := List (Option SessionRule)

def SessionRuleList.diff (srl srl2 : SessionRuleList) : RuleRefs × RuleRefs :=
  (SortedDiff.diff (SessionRule.compare true) srl.items srl2.items).map
    (List.map some) (List.map some)

namespace SessionTables

def new : SessionTables := ⟨SlotArray.empty, ∅⟩

def list (st : SessionTables) : TableID → Option SessionRuleList
  | .global => some st.global
  | .ofNamespace nsIndex => st.locals.lookup nsIndex

/-- The rules of a table, none if there is no such table. -/
def rules (st : SessionTables) (table : TableID) : List SessionRule :=
  ((st.list table).map SlotArray.items).getD []

-- A namespace of one side only contributes its whole array.
def diffNamespace (st2 : SessionTables) (acc : RuleRefs × RuleRefs)
    (ns : UInt32 × SessionRuleList) : RuleRefs × RuleRefs :=
  match st2.locals.lookup ns.1 with
  | some nsRules2 =>
      (acc.1 ++ (ns.2.diff nsRules2).1, acc.2 ++ (ns.2.diff nsRules2).2)
  | none => (acc.1 ++ ns.2.slots, acc.2)

def diffMissing (st : SessionTables) (acc : RuleRefs × RuleRefs)
    (ns : UInt32 × SessionRuleList) : RuleRefs × RuleRefs :=
  if (st.locals.lookup ns.1).isSome then acc
  else (acc.1, acc.2 ++ ns.2.slots)

def diff (order order2 : RangeOrder (UInt32 × SessionRuleList))
    (st st2 : SessionTables) : RuleRefs × RuleRefs :=
  (range order2 st2.locals).foldl (diffMissing st)
    ((range order st.locals).foldl (diffNamespace st2)
      (st.global.diff st2.global))

end SessionTables

/-! ## Requests to VPP -/

abbrev VPPTables := TableID → List SessionRule

structure SessionRuleAddDel where
  rule : SessionRule
  isAdd : Bool

def addDelRule (table : List SessionRule) (rule : SessionRule)
    (isAdd : Bool) : Option (List SessionRule) :=
  let same := fun rule2 => SessionRule.compare (!isAdd) rule rule2 == .eq
  if table.any same then
    if isAdd then none else some (table.eraseP same)
  else if isAdd then some (table ++ [rule])
  else none

def SessionRuleAddDel.send (vpp : VPPTables) (req : SessionRuleAddDel) :
    Option VPPTables := do
  let table ← addDelRule (vpp req.rule.table) req.rule req.isAdd
  return Function.update vpp req.rule.table table

def sendAll (requests : List SessionRuleAddDel) (vpp : VPPTables) :
    Option VPPTables :=
  requests.foldlM SessionRuleAddDel.send vpp

def makeSessionRuleAddDelReq (add : Bool) (rule : Option SessionRule) :
    Option SessionRuleAddDel :=
  rule.map fun rule => ⟨rule, add⟩

/-- The requests of `updateRules`; nil rules make it crash. -/
def updateRules (add remove : RuleRefs) : Option (List SessionRuleAddDel) := do
  let deletions ← remove.mapM (makeSessionRuleAddDelReq false)
  let additions ← add.mapM (makeSessionRuleAddDelReq true)
  return deletions ++ additions

/-! ## Rules that differ in the tag at most -/

instance : Std.LawfulEqCmp (SessionRule.compare true) where
  eq_of_compare h := SessionRule.compare_true_eq_iff.mp h

def SessionRule.SameUpToTag (a b : SessionRule) : Prop :=
  compare false a b = .eq

variable {a b : SessionRule}

theorem SessionRule.SameUpToTag.table_eq (h : a.SameUpToTag b) :
    a.table = b.table := by
  rw [← compareFields_eq_iff.mp h]
  rfl

theorem SessionRule.SameUpToTag.symm (h : a.SameUpToTag b) : b.SameUpToTag a :=
  Std.OrientedCmp.eq_symm h

instance : Std.Symm fun a b : SessionRule => ¬ a.SameUpToTag b where
  symm _ _ hab hba := hab hba.symm

theorem SessionRule.compare_true_of_lt (h : compare false a b = .lt) :
    compare true a b = .lt := by
  change (compareFields a b).then _ = .lt
  rw [show compareFields a b = .lt from h]
  rfl

namespace SessionRuleList.Has

variable {srl srl2 : SessionRuleList} {rules rules2 : List SessionRule}

theorem nodup (h : srl.Has rules) : rules.Nodup := by
  apply h.sorted.imp
  intro a b hlt heq
  have hself : SessionRule.compare false b b = .eq :=
    Std.ReflCmp.compare_self
  rw [heq, hself] at hlt
  cases hlt

theorem diff_eq (h : srl.Has rules) (h2 : srl2.Has rules2) :
    srl.diff srl2 = ((rules.filter (· ∉ rules2)).map some,
      (rules2.filter (· ∉ rules)).map some) := by
  rw [SessionRuleList.diff, h.holds.items_eq, h2.holds.items_eq,
    SortedDiff.diff_eq_filter (h.sorted.imp SessionRule.compare_true_of_lt)
      (h2.sorted.imp SessionRule.compare_true_of_lt)]
  rfl

end SessionRuleList.Has

/-! ## Valid tables -/

structure SessionRuleList.ValidFor (table : TableID)
    (srl : SessionRuleList) : Prop where
  has : srl.Has srl.items
  full : srl.Full
  placed : ∀ r ∈ srl.items, r.table = table

def SessionTables.Valid (st : SessionTables) : Prop :=
  ∀ table srl, st.list table = some srl → srl.ValidFor table

namespace SessionRuleList.ValidFor

variable {table : TableID} {srl srl2 : SessionRuleList}

theorem empty : ValidFor table SlotArray.empty :=
  ⟨has_empty, SlotArray.full_empty, by simp [SlotArray.empty, SlotArray.items]⟩

theorem slots_eq (h : srl.ValidFor table) : srl.slots = srl.items.map some :=
  h.has.holds.slots_eq h.full

theorem eq_of_sameUpToTag (h : srl.ValidFor table) (ha : a ∈ srl.items)
    (hb : b ∈ srl.items) (hsame : a.SameUpToTag b) :
    a = b := by
  by_contra hne
  have hpair : srl.items.Pairwise fun x y => ¬ x.SameUpToTag y := by
    apply h.has.sorted.imp
    intro x y hlt heq
    rw [SessionRule.SameUpToTag, hlt] at heq
    cases heq
  exact hpair.forall ha hb hne hsame

theorem insert (h : srl.ValidFor table) {new : List SessionRule}
    (hnew : ∀ r ∈ new, r.table = table) :
    (srl.insert new).2.ValidFor table ∧
      (∀ r ∈ (srl.insert new).2.items, r ∈ srl.items ∨ r ∈ new) ∧
      srl.items ⊆ (srl.insert new).2.items ∧
      ∀ r ∈ new, ∃ r' ∈ (srl.insert new).2.items, r.SameUpToTag r' := by
  obtain ⟨rules, hrules, hfrom, hkeep, hall⟩ := h.has.insert new
  have hitems := hrules.holds.items_eq
  have hfull : (srl.insert new).2.Full := by
    refine List.foldlRecOn
      (motive := fun acc : Bool × SessionRuleList => acc.2.Full) new _
      h.full ?_
    intro acc hacc rule _
    exact hacc.insert _ rule
  rw [← hitems] at hrules hfrom hkeep hall
  refine ⟨⟨hrules, hfull, ?_⟩, hfrom, hkeep, hall⟩
  intro r hr
  rcases hfrom r hr with hr | hr
  · exact h.placed r hr
  · exact hnew r hr

end SessionRuleList.ValidFor

namespace SessionTables

variable {st st2 : SessionTables} {table : TableID} {r : SessionRule}

theorem valid_new : new.Valid := by
  intro table srl hlist
  cases table with
  | global =>
      obtain rfl := Option.some.inj hlist
      exact .empty
  | ofNamespace nsIndex => simp [new, list] at hlist

theorem rules_of_list {srl : SessionRuleList}
    (h : st.list table = some srl) : st.rules table = srl.items := by
  simp [rules, h]

theorem rules_of_none (h : st.list table = none) : st.rules table = [] := by
  simp [rules, h]

theorem list_of_mem (h : r ∈ st.rules table) :
    ∃ srl, st.list table = some srl ∧ st.rules table = srl.items := by
  cases hlist : st.list table with
  | none => simp [rules_of_none hlist] at h
  | some srl => exact ⟨srl, rfl, rules_of_list hlist⟩

namespace Valid

theorem table_eq (h : st.Valid) (hr : r ∈ st.rules table) : r.table = table := by
  obtain ⟨srl, hlist, hrules⟩ := list_of_mem hr
  exact (h table srl hlist).placed r (hrules ▸ hr)

theorem nodup (h : st.Valid) (table : TableID) : (st.rules table).Nodup := by
  cases hlist : st.list table with
  | none => simp [rules_of_none hlist]
  | some srl =>
      rw [rules_of_list hlist]
      exact (h table srl hlist).has.nodup

theorem eq_of_sameUpToTag (h : st.Valid) (ha : a ∈ st.rules table)
    (hb : b ∈ st.rules table) (hsame : a.SameUpToTag b) : a = b := by
  obtain ⟨srl, hlist, hrules⟩ := list_of_mem ha
  rw [hrules] at ha hb
  exact (h table srl hlist).eq_of_sameUpToTag ha hb hsame

end Valid

/-! ## The difference, table by table -/

def Lists (refs : RuleRefs) (P : SessionRule → Prop) : Prop :=
  ∃ rules : List SessionRule,
    refs = rules.map some ∧ rules.Nodup ∧ ∀ r, r ∈ rules ↔ P r

theorem Lists.congr {refs : RuleRefs} {P Q : SessionRule → Prop}
    (h : Lists refs P) (hiff : ∀ r, P r ↔ Q r) : Lists refs Q := by
  obtain ⟨rules, hrefs, hnodup, hmem⟩ := h
  exact ⟨rules, hrefs, hnodup, fun r => (hmem r).trans (hiff r)⟩

def Sorted (st : SessionTables) : Prop :=
  ∀ table srl, st.list table = some srl → srl.Has srl.items

def part (st st2 : SessionTables) (table : TableID) : RuleRefs :=
  match st.list table, st2.list table with
  | some srl, some srl2 => (srl.items.filter (· ∉ srl2.items)).map some
  | some srl, none => srl.slots
  | none, _ => []

def addedTables (order : RangeOrder (UInt32 × SessionRuleList))
    (st : SessionTables) : List TableID :=
  .global :: (range order st.locals).map fun ns => .ofNamespace ns.1

def removedTables (order order2 : RangeOrder (UInt32 × SessionRuleList))
    (st st2 : SessionTables) : List TableID :=
  addedTables order st ++ ((range order2 st2.locals).filter fun ns =>
      (st.locals.lookup ns.1).isNone).map fun ns => .ofNamespace ns.1

variable {namespaces : List (UInt32 × SessionRuleList)}

theorem foldl_diffNamespace (hst : st.Sorted) (hst2 : st2.Sorted)
    (hns : ∀ ns ∈ namespaces, st.locals.lookup ns.1 = some ns.2)
    (acc : RuleRefs × RuleRefs) :
    namespaces.foldl (diffNamespace st2) acc =
      (acc.1 ++ namespaces.flatMap fun ns => part st st2 (.ofNamespace ns.1),
        acc.2 ++ namespaces.flatMap fun ns =>
          part st2 st (.ofNamespace ns.1)) := by
  induction namespaces generalizing acc with
  | nil => simp
  | cons ns namespaces ih =>
      have hlist : st.list (.ofNamespace ns.1) = some ns.2 :=
        hns ns List.mem_cons_self
      have hstep : diffNamespace st2 acc ns =
          (acc.1 ++ part st st2 (.ofNamespace ns.1),
            acc.2 ++ part st2 st (.ofNamespace ns.1)) := by
        cases hns2 : st2.locals.lookup ns.1 with
        | none =>
            have hlist2 : st2.list (.ofNamespace ns.1) = none := hns2
            simp [diffNamespace, part, hns2, hlist, hlist2]
        | some nsRules2 =>
            have hlist2 : st2.list (.ofNamespace ns.1) = some nsRules2 :=
              hns2
            simp [diffNamespace, part, hns2, hlist, hlist2,
              (hst _ _ hlist).diff_eq (hst2 _ _ hlist2)]
      rw [List.foldl_cons, hstep,
        ih fun ns' hns' => hns ns' (List.mem_cons_of_mem ns hns')]
      simp

theorem foldl_diffMissing
    (hns : ∀ ns ∈ namespaces, st2.locals.lookup ns.1 = some ns.2)
    (acc : RuleRefs × RuleRefs) :
    namespaces.foldl (diffMissing st) acc =
      (acc.1, acc.2 ++ (namespaces.filter fun ns =>
        (st.locals.lookup ns.1).isNone).flatMap fun ns =>
          part st2 st (.ofNamespace ns.1)) := by
  induction namespaces generalizing acc with
  | nil => simp
  | cons ns namespaces ih =>
      rw [List.foldl_cons,
        ih fun ns' hns' => hns ns' (List.mem_cons_of_mem ns hns')]
      have hlist2 : st2.list (.ofNamespace ns.1) = some ns.2 :=
        hns ns List.mem_cons_self
      cases hns1 : st.locals.lookup ns.1 with
      | some nsRules => simp [diffMissing, hns1]
      | none =>
          have hlist : st.list (.ofNamespace ns.1) = none := hns1
          simp [diffMissing, hns1, part, hlist, hlist2]

theorem diff_eq_parts (order order2 : RangeOrder (UInt32 × SessionRuleList))
    (hst : st.Sorted) (hst2 : st2.Sorted) :
    st.diff order order2 st2 = ((addedTables order st).flatMap (part st st2),
        (removedTables order order2 st st2).flatMap (part st2 st)) := by
  rw [diff, foldl_diffNamespace hst hst2 fun ns hns => mem_range.mp hns,
    foldl_diffMissing fun ns hns => mem_range.mp hns,
    (hst .global _ rfl).diff_eq (hst2 .global _ rfl)]
  simp [addedTables, removedTables, List.flatMap_map, part, list]

theorem tables_nodup (h : (namespaces.map Prod.fst).Nodup) :
    (namespaces.map fun ns => TableID.ofNamespace ns.1).Nodup := by
  have hinj : Function.Injective TableID.ofNamespace :=
    fun _ _ heq => TableID.ofNamespace.inj heq
  have hmap := h.map hinj
  rwa [List.map_map] at hmap

theorem addedTables_nodup (order : RangeOrder (UInt32 × SessionRuleList))
    (st : SessionTables) : (addedTables order st).Nodup := by
  rw [addedTables, List.nodup_cons]
  exact ⟨by simp, tables_nodup (range_keys_nodup order st.locals)⟩

theorem mem_addedTables_iff {order : RangeOrder (UInt32 × SessionRuleList)} :
    table ∈ addedTables order st ↔ st.list table ≠ none := by
  cases table with
  | global => simp [addedTables, list]
  | ofNamespace nsIndex =>
      simp [addedTables, list, mem_range, Option.ne_none_iff_exists']

theorem mem_removedTables {order order2 : RangeOrder (UInt32 × SessionRuleList)}
    (h : st2.list table ≠ none) :
    table ∈ removedTables order order2 st st2 := by
  rw [removedTables, List.mem_append, mem_addedTables_iff]
  cases table with
  | global => exact Or.inl (by simp [list])
  | ofNamespace nsIndex =>
      cases hns : st.locals.lookup nsIndex with
      | some nsRules => exact Or.inl (by simp [list, hns])
      | none =>
          obtain ⟨srl, hsrl⟩ := Option.ne_none_iff_exists'.mp h
          refine Or.inr (List.mem_map.mpr ⟨(nsIndex, srl), ?_, rfl⟩)
          rw [List.mem_filter, mem_range]
          exact ⟨hsrl, by simp [hns]⟩

theorem removedTables_nodup (order order2 : RangeOrder (UInt32 × SessionRuleList))
    (st st2 : SessionTables) :
    (removedTables order order2 st st2).Nodup := by
  have hmissing : (((range order2 st2.locals).filter fun ns =>
      (st.locals.lookup ns.1).isNone).map Prod.fst).Nodup :=
    (range_keys_nodup order2 st2.locals).sublist
      (List.filter_sublist.map Prod.fst)
  refine (addedTables_nodup order st).append (tables_nodup hmissing) ?_
  intro table hadded hmissing
  obtain ⟨ns, hns, rfl⟩ := List.mem_map.mp hmissing
  have hnone := (List.mem_filter.mp hns).2
  exact mem_addedTables_iff.mp hadded (Option.isNone_iff_eq_none.mp hnone)

/-- A namespace that only one side has contributes no nil. -/
def NoSpare (st st2 : SessionTables) : Prop :=
  ∀ nsIndex srl, st.locals.lookup nsIndex = some srl →
    st2.locals.lookup nsIndex = none → srl.Full

/-- No rule is missing on the second side in two tables of the first. -/
def NoRepeat (st st2 : SessionTables) : Prop :=
  ∀ r table table', r ∈ st.rules table → r ∉ st2.rules table →
    r ∈ st.rules table' → r ∉ st2.rules table' → table = table'

theorem part_eq (hst : st.Sorted) (hspare : NoSpare st st2) (table : TableID) :
    part st st2 table =
      ((st.rules table).filter (· ∉ st2.rules table)).map some := by
  cases hlist : st.list table with
  | none => simp [part, rules, hlist]
  | some srl =>
      cases hlist2 : st2.list table with
      | some srl2 => simp [part, rules, hlist, hlist2]
      | none =>
          have hfull : srl.Full := by
            cases table with
            | global => simp [list] at hlist2
            | ofNamespace nsIndex => exact hspare nsIndex srl hlist hlist2
          simp [part, rules, hlist, hlist2,
            (hst table srl hlist).holds.slots_eq hfull]

theorem nodup_of_sorted (hst : st.Sorted) (table : TableID) :
    (st.rules table).Nodup := by
  cases hlist : st.list table with
  | none => simp [rules_of_none hlist]
  | some srl =>
      rw [rules_of_list hlist]
      exact (hst table srl hlist).nodup

theorem list_ne_none (h : r ∈ st.rules table) : st.list table ≠ none := by
  obtain ⟨srl, hlist, _⟩ := list_of_mem h
  simp [hlist]

theorem noSpare_of_none_notMem (hst : st.Sorted) {tables : List TableID}
    (hall : ∀ table, st.list table ≠ none → table ∈ tables)
    (hnone : none ∉ tables.flatMap (part st st2)) : NoSpare st st2 := by
  intro nsIndex srl hlist hlist2
  obtain ⟨hnum, spare, hslots⟩ :=
    (hst (.ofNamespace nsIndex) srl hlist).holds
  have hpart : part st st2 (.ofNamespace nsIndex) = srl.slots := by
    simp [part, list, hlist, hlist2]
  have hspare : spare = 0 := by
    by_contra hne
    apply hnone
    rw [List.mem_flatMap]
    refine ⟨.ofNamespace nsIndex, hall _ (by simp [list, hlist]), ?_⟩
    rw [hpart, hslots]
    simp [hne]
  rw [SlotArray.Full, hnum, hslots, hspare]
  simp

/-- The parts are the rules of one side only, each once, just if there is no
spare slot in them and no rule is in two of them. -/
theorem lists_parts_iff (hst : st.Sorted) {tables : List TableID}
    (hnodup : tables.Nodup)
    (hall : ∀ table, st.list table ≠ none → table ∈ tables) :
    Lists (tables.flatMap (part st st2))
        (fun r => ∃ table, r ∈ st.rules table ∧ r ∉ st2.rules table) ↔
      NoSpare st st2 ∧ NoRepeat st st2 := by
  let only : TableID → List SessionRule := fun table =>
    (st.rules table).filter (· ∉ st2.rules table)
  have hmem : ∀ table r, r ∈ only table ↔
      r ∈ st.rules table ∧ r ∉ st2.rules table := by
    intro table r
    simp [only]
  have hparts : NoSpare st st2 →
      tables.flatMap (part st st2) = (tables.flatMap only).map some := by
    intro hspare
    rw [List.map_flatMap]
    congr 1
    funext table
    exact part_eq hst hspare table
  constructor
  · rintro ⟨rules, hrefs, hrules, _⟩
    have hspare : NoSpare st st2 :=
      noSpare_of_none_notMem hst hall (by simp [hrefs])
    refine ⟨hspare, ?_⟩
    intro r table table' hr hr2 hr' hr2'
    by_contra hne
    rw [hparts hspare] at hrefs
    have hsame := (Option.some_injective SessionRule).list_map hrefs
    rw [← hsame, List.nodup_flatMap] at hrules
    have hsymm : Std.Symm (Function.onFun List.Disjoint only) :=
      ⟨fun _ _ hdisjoint => hdisjoint.symm⟩
    have hdisjoint := hrules.2.forall
      (hall table (list_ne_none hr)) (hall table' (list_ne_none hr')) hne
    exact hdisjoint ((hmem table r).mpr ⟨hr, hr2⟩)
      ((hmem table' r).mpr ⟨hr', hr2'⟩)
  · rintro ⟨hspare, hrepeat⟩
    refine ⟨tables.flatMap only, hparts hspare, ?_, ?_⟩
    · rw [List.nodup_flatMap]
      refine ⟨fun table _ => (nodup_of_sorted hst table).filter _, ?_⟩
      refine hnodup.imp ?_
      intro table table' hne r hr hr'
      rw [hmem] at hr hr'
      exact hne (hrepeat r table table' hr.1 hr.2 hr'.1 hr'.2)
    · intro r
      simp only [List.mem_flatMap, hmem]
      constructor
      · rintro ⟨table, _, hr⟩
        exact ⟨table, hr⟩
      · rintro ⟨table, hr⟩
        exact ⟨table, hall table (list_ne_none hr.1), hr⟩

/-! ## The difference of valid tables -/

def Only (st st2 : SessionTables) (r : SessionRule) : Prop :=
  r ∈ st.rules r.table ∧ r ∉ st2.rules r.table

theorem Valid.sorted (h : st.Valid) : st.Sorted :=
  fun table srl hlist => (h table srl hlist).has

theorem Valid.noSpare (h : st.Valid) : NoSpare st st2 :=
  fun nsIndex srl hlist _ => (h (.ofNamespace nsIndex) srl hlist).full

theorem Valid.noRepeat (h : st.Valid) : NoRepeat st st2 :=
  fun _ _ _ hr _ hr' _ => (h.table_eq hr).symm.trans (h.table_eq hr')

theorem Valid.only_iff (h : st.Valid) :
    (∃ table, r ∈ st.rules table ∧ r ∉ st2.rules table) ↔ Only st st2 r := by
  constructor
  · rintro ⟨table, hr, hr2⟩
    obtain rfl := h.table_eq hr
    exact ⟨hr, hr2⟩
  · exact fun honly => ⟨r.table, honly⟩

theorem diff_spec (order order2 : RangeOrder (UInt32 × SessionRuleList))
    (hst : st.Valid) (hst2 : st2.Valid) :
    Lists (st.diff order order2 st2).1 (Only st st2) ∧
      Lists (st.diff order order2 st2).2 (Only st2 st) := by
  rw [diff_eq_parts order order2 hst.sorted hst2.sorted]
  constructor
  · exact ((lists_parts_iff hst.sorted (addedTables_nodup order st)
      fun _ => mem_addedTables_iff.mpr).mpr
      ⟨hst.noSpare, hst.noRepeat⟩).congr fun _ => hst.only_iff
  · exact ((lists_parts_iff hst2.sorted (removedTables_nodup order order2 st st2)
      fun _ => mem_removedTables).mpr
      ⟨hst2.noSpare, hst2.noRepeat⟩).congr fun _ => hst2.only_iff

end SessionTables

/-! ## Sending the difference -/

section Send

variable {table : List SessionRule} {rule : SessionRule}
  {rules : List SessionRule} {vpp : VPPTables}

theorem addDelRule_delete (h : rule ∈ table) :
    addDelRule table rule false = some (table.erase rule) := by
  have hsame : (fun rule2 => SessionRule.compare true rule rule2 == .eq) =
      fun rule2 => rule == rule2 := by
    funext rule2
    rw [Bool.eq_iff_iff, beq_iff_eq, beq_iff_eq, SessionRule.compare_true_eq_iff]
  have hany : table.any (fun rule2 => rule == rule2) = true := by
    simpa using h
  simp only [addDelRule, Bool.not_false, hsame, hany, if_true]
  rw [List.erase_eq_eraseP]
  rfl

theorem addDelRule_add (h : ∀ r ∈ table, ¬ rule.SameUpToTag r) :
    addDelRule table rule true = some (table ++ [rule]) := by
  have hany : table.any (fun rule2 =>
      SessionRule.compare false rule rule2 == .eq) = false := by
    simpa [SessionRule.SameUpToTag] using h
  simp [addDelRule, hany]

theorem sendAll_delete (hnodup : rules.Nodup)
    (hmem : ∀ r ∈ rules, r ∈ vpp r.table) (hvpp : ∀ t, (vpp t).Nodup) :
    ∃ vpp', sendAll (rules.map (⟨·, false⟩)) vpp = some vpp' ∧
      ∀ t, (vpp' t).Nodup ∧
        ∀ r, r ∈ vpp' t ↔ r ∈ vpp t ∧ ¬ (r ∈ rules ∧ r.table = t) := by
  induction rules generalizing vpp with
  | nil => exact ⟨vpp, rfl, fun t => ⟨hvpp t, by simp⟩⟩
  | cons rule rules ih =>
      rw [List.nodup_cons] at hnodup
      let vpp₁ := Function.update vpp rule.table ((vpp rule.table).erase rule)
      have hsend : SessionRuleAddDel.send vpp ⟨rule, false⟩ = some vpp₁ := by
        simp [SessionRuleAddDel.send, vpp₁,
          addDelRule_delete (hmem rule List.mem_cons_self)]
      have hvpp₁ : ∀ t, (vpp₁ t).Nodup ∧
          ∀ r, r ∈ vpp₁ t ↔ r ∈ vpp t ∧ ¬ (r = rule ∧ r.table = t) := by
        intro t
        by_cases ht : t = rule.table
        · subst ht
          simp only [vpp₁, Function.update_self]
          refine ⟨(hvpp _).erase rule, fun r => ?_⟩
          rw [(hvpp _).mem_erase_iff]
          constructor
          · intro hr
            exact ⟨hr.2, fun heq => hr.1 heq.1⟩
          · intro hr
            exact ⟨fun heq => hr.2 ⟨heq, by rw [heq]⟩, hr.1⟩
        · simp only [vpp₁, Function.update_of_ne ht]
          refine ⟨hvpp t, fun r => (and_iff_left ?_).symm⟩
          intro hr
          exact ht (hr.2.symm.trans (by rw [hr.1]))
      have hrest : ∀ r ∈ rules, r ∈ vpp₁ r.table := by
        intro r hr
        refine ((hvpp₁ r.table).2 r).mpr
          ⟨hmem r (List.mem_cons_of_mem rule hr), fun heq => ?_⟩
        exact hnodup.1 (heq.1 ▸ hr)
      obtain ⟨vpp', hsent, hvpp'⟩ :=
        ih hnodup.2 hrest fun t => (hvpp₁ t).1
      refine ⟨vpp', ?_, fun t => ⟨(hvpp' t).1, fun r => ?_⟩⟩
      · simp only [sendAll, List.map_cons, List.foldlM_cons, hsend]
        exact hsent
      · rw [(hvpp' t).2, (hvpp₁ t).2, List.mem_cons]
        tauto

theorem sendAll_add (hnodup : rules.Pairwise fun a b => ¬ a.SameUpToTag b)
    (hnew : ∀ rule ∈ rules, ∀ r ∈ vpp rule.table, ¬ rule.SameUpToTag r) :
    ∃ vpp', sendAll (rules.map (⟨·, true⟩)) vpp = some vpp' ∧
      ∀ t, (vpp' t).Perm (vpp t ++ rules.filter (·.table = t)) := by
  induction rules generalizing vpp with
  | nil => exact ⟨vpp, rfl, fun t => by simp⟩
  | cons rule rules ih =>
      rw [List.pairwise_cons] at hnodup
      let vpp₁ := Function.update vpp rule.table (vpp rule.table ++ [rule])
      have hsend : SessionRuleAddDel.send vpp ⟨rule, true⟩ = some vpp₁ := by
        simp [SessionRuleAddDel.send, vpp₁,
          addDelRule_add (hnew rule List.mem_cons_self)]
      have hvpp₁ : ∀ t, vpp₁ t = vpp t ++ [rule].filter (·.table = t) := by
        intro t
        by_cases ht : t = rule.table
        · subst ht
          simp [vpp₁]
        · simp [vpp₁, ht, Ne.symm ht]
      have hrest : ∀ rule' ∈ rules, ∀ r ∈ vpp₁ rule'.table,
          ¬ rule'.SameUpToTag r := by
        intro rule' hrule' r hr
        rw [hvpp₁, List.mem_append, List.mem_filter, List.mem_singleton] at hr
        rcases hr with hr | hr
        · exact hnew rule' (List.mem_cons_of_mem rule hrule') r hr
        · rw [hr.1]
          exact fun hsame => hnodup.1 rule' hrule' hsame.symm
      obtain ⟨vpp', hsent, hvpp'⟩ := ih hnodup.2 hrest
      refine ⟨vpp', ?_, fun t => ?_⟩
      · simp only [sendAll, List.map_cons, List.foldlM_cons, hsend]
        exact hsent
      · have hsplit : (rule :: rules).filter (·.table = t) =
            [rule].filter (·.table = t) ++ rules.filter (·.table = t) := by
          rw [← List.filter_append]
          rfl
        rw [hsplit, ← List.append_assoc, ← hvpp₁]
        exact hvpp' t

end Send

namespace SessionTables

variable {st st2 : SessionTables} {vpp : VPPTables}

theorem updateRules_map (added removed : List SessionRule) :
    updateRules (added.map some) (removed.map some) =
      some (removed.map (⟨·, false⟩) ++ added.map (⟨·, true⟩)) := by
  have hreqs : ∀ (add : Bool) (rules : List SessionRule),
      (rules.map some).mapM (makeSessionRuleAddDelReq add) =
        some (rules.map (⟨·, add⟩)) := by
    intro add rules
    induction rules with
    | nil => rfl
    | cons rule rules ih =>
        simp [ih, makeSessionRuleAddDelReq]
  simp [updateRules, hreqs]

theorem sendAll_diff (order order2 : RangeOrder (UInt32 × SessionRuleList))
    (hst : st.Valid) (hst2 : st2.Valid)
    (hvpp : ∀ t, (vpp t).Perm (st2.rules t)) :
    ∃ requests vpp', updateRules (st.diff order order2 st2).1
        (st.diff order order2 st2).2 = some requests ∧
      sendAll requests vpp = some vpp' ∧
      ∀ t, (vpp' t).Perm (st.rules t) := by
  obtain ⟨⟨added, hadded, hnodup, hmem⟩, removed, hremoved, hnodup2, hmem2⟩ :=
    diff_spec order order2 hst hst2
  rw [hadded, hremoved, updateRules_map]
  have hthere : ∀ r ∈ removed, r ∈ vpp r.table := by
    intro r hr
    exact (hvpp r.table).mem_iff.mpr ((hmem2 r).mp hr).1
  obtain ⟨kept, hdeleted, hkept⟩ := sendAll_delete hnodup2 hthere
    fun t => (hvpp t).nodup_iff.mpr (hst2.nodup t)
  -- What the deletions leave is on both sides.
  have hboth : ∀ t r, r ∈ kept t ↔ r ∈ st2.rules t ∧ r ∈ st.rules t := by
    intro t r
    rw [(hkept t).2, (hvpp t).mem_iff, hmem2]
    constructor
    · intro h
      have htable := hst2.table_eq h.1
      subst htable
      exact ⟨h.1, by_contra fun hnot => h.2 ⟨⟨h.1, hnot⟩, rfl⟩⟩
    · intro h
      refine ⟨h.1, fun honly => ?_⟩
      obtain ⟨honly, rfl⟩ := honly
      exact honly.2 h.2
  have halone : ∀ a ∈ added, ∀ b ∈ st.rules a.table, a ≠ b →
      ¬ a.SameUpToTag b := by
    intro a ha b hb hne hsame
    exact hne (hst.eq_of_sameUpToTag ((hmem a).mp ha).1 hb hsame)
  have hpairwise : added.Pairwise fun a b => ¬ a.SameUpToTag b := by
    apply hnodup.imp_of_mem
    intro a b ha hb hne hsame
    exact halone a ha b (hsame.table_eq ▸ ((hmem b).mp hb).1) hne hsame
  have hnew : ∀ a ∈ added, ∀ r ∈ kept a.table, ¬ a.SameUpToTag r := by
    intro a ha r hr
    rw [hboth] at hr
    refine halone a ha r hr.2 fun heq => ?_
    exact ((hmem a).mp ha).2 (heq ▸ hr.1)
  obtain ⟨vpp', hsent, hvpp'⟩ := sendAll_add hpairwise hnew
  refine ⟨_, vpp', rfl, ?_, ?_⟩
  · rw [sendAll, List.foldlM_append]
    rw [sendAll] at hdeleted hsent
    rw [hdeleted]
    exact hsent
  · intro t
    refine (hvpp' t).trans ((List.perm_ext_iff_of_nodup ?_ (hst.nodup t)).mpr ?_)
    · apply (hkept t).1.append (hnodup.filter _)
      intro r hr hr'
      rw [hboth] at hr
      rw [List.mem_filter, decide_eq_true_eq] at hr'
      exact ((hmem r).mp hr'.1).2 (hr'.2 ▸ hr.1)
    · intro r
      rw [List.mem_append, hboth, List.mem_filter, decide_eq_true_eq, hmem]
      constructor
      · intro h
        rcases h with h | h
        · exact h.2
        · exact h.2 ▸ h.1.1
      · intro h
        have htable := hst.table_eq h
        subst htable
        by_cases hin : r ∈ st2.rules r.table
        · exact Or.inl ⟨hin, h⟩
        · exact Or.inr ⟨⟨h, hin⟩, rfl⟩

end SessionTables

end ContivVPP.SessionCache
