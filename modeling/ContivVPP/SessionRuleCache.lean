import ContivVPP.SessionTables

/-!
# The cache of session rules

A transaction of the cache collects the configuration of namespaces.  The
tables that implement it are built when they are asked for: by `Changes`, which
compares them with the cached tables or with what VPP has, and by `Commit`.
-/

namespace ContivVPP.SessionCache

open Renderer GoMap

structure SessionRuleCache where
  config : Config
  tables : SessionTables

structure Txn where
  resync : Bool
  config : Config
  tables : SessionTables
  upToDateTables : Bool

def SessionRuleCache.init : SessionRuleCache := ⟨∅, .new⟩

def SessionRuleCache.newTxn (cache : SessionRuleCache) (resync : Bool) : Txn :=
  ⟨resync, if resync then ∅ else cache.config, .new, false⟩

structure RefreshOrders where
  global : RangeOrder (UInt32 × NamespaceConfig)
  clear : RangeOrder (UInt32 × NamespaceConfig)
  locals : RangeOrder (UInt32 × NamespaceConfig)
  combine : UInt32 → CombineOrders

structure ChangesOrders where
  refresh : RefreshOrders
  added : RangeOrder (UInt32 × SessionRuleList)
  removed : RangeOrder (UInt32 × SessionRuleList)

def insertDumped (tables : SessionTables) (rule : SessionRule) : SessionTables :=
  if rule.scope = ruleScopeLocal then
    let nsRules := (tables.locals.lookup rule.appnsIndex).getD SlotArray.empty
    { tables with
      locals := tables.locals.insert rule.appnsIndex (nsRules.insert [rule]).2 }
  else { tables with global := (tables.global.insert [rule]).2 }

def dumpedTables (rules : List SessionRule) : SessionTables :=
  rules.foldl insertDumped .new

section Txn

variable (md5Hash : String → String) (tagPrefix : String)

def globalRules (ns : UInt32 × NamespaceConfig) : List SessionRule :=
  convertEgressRules md5Hash ns.1 ns.2.ipAddr ns.2.egress tagPrefix

def insertGlobal (srl : SessionRuleList) (ns : UInt32 × NamespaceConfig) :
    SessionRuleList :=
  (SessionRuleList.insert srl (globalRules md5Hash tagPrefix ns)).2

def localRules (orders : CombineOrders) (config : Config)
    (nsIndex : UInt32) : List SessionRule :=
  convertIngressRules md5Hash nsIndex
    ((getCombinedIngressRules orders config nsIndex).getD []) tagPrefix

namespace Txn

def update (txn : Txn) (nsIndex : UInt32) (nsConfig : NamespaceConfig) : Txn :=
  { txn with
    config := txn.config.insert nsIndex nsConfig
    upToDateTables := false }

-- All local tables are cleared before the first one is filled.
def refreshTables (orders : RefreshOrders) (txn : Txn) : Txn :=
  let global := (range orders.global txn.config).foldl
    (insertGlobal md5Hash tagPrefix) SlotArray.empty
  let cleared := modifyAll (fun _ _ => SlotArray.empty)
    (range orders.clear txn.config) txn.tables.locals
  let locals := modifyAll (fun ns nsRules => (SessionRuleList.insert
      (nsRules.getD SlotArray.empty) (localRules md5Hash tagPrefix
        (orders.combine ns.1) txn.config ns.1)).2)
    (range orders.locals txn.config) cleared
  { txn with tables := ⟨global, locals⟩, upToDateTables := true }

def refresh (orders : RefreshOrders) (txn : Txn) : Txn :=
  if txn.upToDateTables then txn
  else txn.refreshTables md5Hash tagPrefix orders

/-- `Changes`, with the transaction that it leaves; `dump` is what VPP
returns, if it does. -/
def changes (orders : ChangesOrders) (dump : Option (List SessionRule))
    (cache : SessionRuleCache) (txn : Txn) :
    Txn × Option (RuleRefs × RuleRefs) :=
  let txn := txn.refresh md5Hash tagPrefix orders.refresh
  (txn,
    if txn.resync then
      dump.map fun currentRules => txn.tables.diff orders.added
        orders.removed (dumpedTables currentRules)
    else some (txn.tables.diff orders.added orders.removed cache.tables))

def commit (orders : RefreshOrders) (txn : Txn) : SessionRuleCache :=
  ⟨txn.config, (txn.refresh md5Hash tagPrefix orders).tables⟩

end Txn

/-! ## Runs -/

inductive TxnCall
  | update (nsIndex : UInt32) (nsConfig : NamespaceConfig)
  | changes (orders : ChangesOrders)

def TxnCall.apply (txn : Txn) : TxnCall → Txn
  | .update nsIndex nsConfig => txn.update nsIndex nsConfig
  | .changes orders => txn.refresh md5Hash tagPrefix orders.refresh

structure CommittedTxn where
  resync : Bool
  calls : List TxnCall
  orders : RefreshOrders

def SessionRuleCache.txnAfter (cache : SessionRuleCache) (resync : Bool)
    (calls : List TxnCall) : Txn :=
  calls.foldl (TxnCall.apply md5Hash tagPrefix) (cache.newTxn resync)

def CommittedTxn.apply (cache : SessionRuleCache) (t : CommittedTxn) :
    SessionRuleCache :=
  (cache.txnAfter md5Hash tagPrefix t.resync t.calls).commit md5Hash
    tagPrefix t.orders

/-- The cache after some transactions have been committed. -/
def cacheAfter (history : List CommittedTxn) : SessionRuleCache :=
  history.foldl (CommittedTxn.apply md5Hash tagPrefix) .init

end Txn

/-! ## Rules are put into their tables -/

section Tables

variable {md5Hash : String → String} {tagPrefix : String}

theorem globalRules_table {ns : UInt32 × NamespaceConfig} :
    ∀ r ∈ globalRules md5Hash tagPrefix ns, r.table = .global := by
  intro r hr
  simp only [globalRules, convertEgressRules, List.mem_flatMap] at hr
  obtain ⟨rule, _, hr⟩ := hr
  unfold convertEgressRule at hr
  split_ifs at hr
  · simp at hr
  · simp only [List.mem_cons, List.not_mem_nil, or_false] at hr
    rcases hr with rfl | rfl <;> rfl
  · rw [List.mem_singleton] at hr
    subst hr
    rfl

variable {nsIndex : UInt32}

theorem localRules_table {orders : CombineOrders} {config : Config} :
    ∀ r ∈ localRules md5Hash tagPrefix orders config nsIndex,
      r.table = .ofNamespace nsIndex := by
  intro r hr
  simp only [localRules, convertIngressRules, List.mem_flatMap] at hr
  obtain ⟨rule, _, hr⟩ := hr
  unfold convertIngressRule at hr
  split_ifs at hr
  · simp at hr
  · simp only [List.mem_cons, List.not_mem_nil, or_false] at hr
    rcases hr with rfl | rfl | rfl | rfl | rfl <;> rfl
  · rw [List.mem_singleton] at hr
    subst hr
    rfl

structure BuiltFrom (srl : SessionRuleList) (table : TableID)
    (rules : List SessionRule) : Prop where
  valid : srl.ValidFor table
  only : ∀ r ∈ srl.items, r ∈ rules
  all : ∀ r ∈ rules, ∃ r' ∈ srl.items, r.SameUpToTag r'

theorem BuiltFrom.empty {table : TableID} : BuiltFrom SlotArray.empty table [] :=
  ⟨.empty, by simp [SlotArray.empty, SlotArray.items],
    by simp⟩

theorem BuiltFrom.insert {srl : SessionRuleList} {table : TableID}
    {rules new : List SessionRule} (h : BuiltFrom srl table rules)
    (hnew : ∀ r ∈ new, r.table = table) :
    BuiltFrom (srl.insert new).2 table (rules ++ new) := by
  obtain ⟨hvalid, hfrom, hkeep, hall⟩ := h.valid.insert hnew
  refine ⟨hvalid, ?_, ?_⟩
  · intro r hr
    rw [List.mem_append]
    exact (hfrom r hr).imp_left (h.only r)
  · intro r hr
    rcases List.mem_append.mp hr with hr | hr
    · obtain ⟨r', hr', hsame⟩ := h.all r hr
      exact ⟨r', hkeep hr', hsame⟩
    · exact hall r hr

theorem BuiltFrom.foldl {namespaces : List (UInt32 × NamespaceConfig)} : BuiltFrom
      (namespaces.foldl (insertGlobal md5Hash tagPrefix) SlotArray.empty)
      .global (namespaces.flatMap (globalRules md5Hash tagPrefix)) := by
  induction namespaces using List.reverseRecOn with
  | nil => exact .empty
  | append_singleton namespaces ns ih =>
      rw [List.foldl_append, List.flatMap_append]
      simpa [insertGlobal] using
        ih.insert (@globalRules_table md5Hash tagPrefix ns)

namespace Txn

variable {orders : RefreshOrders} {txn : Txn}

theorem refresh_config :
    (txn.refresh md5Hash tagPrefix orders).config = txn.config := by
  unfold refresh
  split_ifs <;> rfl

theorem refresh_resync :
    (txn.refresh md5Hash tagPrefix orders).resync = txn.resync := by
  unfold refresh
  split_ifs <;> rfl

theorem refresh_upToDateTables :
    (txn.refresh md5Hash tagPrefix orders).upToDateTables = true := by
  unfold refresh
  split_ifs with h
  · exact h
  · rfl

theorem refresh_refresh {orders' : RefreshOrders} :
    (txn.refresh md5Hash tagPrefix orders).refresh md5Hash tagPrefix
      orders' = txn.refresh md5Hash tagPrefix orders := by
  rw [refresh, if_pos refresh_upToDateTables]

theorem refreshTables_global :
    BuiltFrom (txn.refreshTables md5Hash tagPrefix orders).tables.global
      .global ((range orders.global txn.config).flatMap
        (globalRules md5Hash tagPrefix)) :=
  .foldl

theorem lookup_refreshTables {nsConfig : NamespaceConfig}
    (h : txn.config.lookup nsIndex = some nsConfig) :
    (txn.refreshTables md5Hash tagPrefix orders).tables.locals.lookup nsIndex =
      some (SessionRuleList.insert SlotArray.empty (localRules md5Hash
        tagPrefix (orders.combine nsIndex) txn.config nsIndex)).2 := by
  have hclear := lookup_modifyAll_of_mem
    (f := fun _ _ => (SlotArray.empty : SessionRuleList))
    (m := txn.tables.locals)
    (range_keys_nodup orders.clear txn.config) (mem_range.mpr h)
  refine (lookup_modifyAll_of_mem
    (range_keys_nodup orders.locals txn.config) (mem_range.mpr h)).trans ?_
  rw [hclear]
  rfl

theorem refreshTables_local {nsConfig : NamespaceConfig}
    (h : txn.config.lookup nsIndex = some nsConfig) :
    ∃ srl, (txn.refreshTables md5Hash tagPrefix orders).tables.locals.lookup
        nsIndex = some srl ∧
      BuiltFrom srl (.ofNamespace nsIndex) (localRules md5Hash tagPrefix
        (orders.combine nsIndex) txn.config nsIndex) :=
  ⟨_, lookup_refreshTables h, BuiltFrom.empty.insert localRules_table⟩

theorem refreshTables_locals_of_none (h : txn.config.lookup nsIndex = none) :
    (txn.refreshTables md5Hash tagPrefix orders).tables.locals.lookup
      nsIndex = txn.tables.locals.lookup nsIndex := by
  have hne : ∀ order, ∀ ns ∈ range order txn.config, ns.1 ≠ nsIndex := by
    intro order ns hns heq
    have hlookup := mem_range.mp hns
    rw [heq, h] at hlookup
    cases hlookup
  exact (lookup_modifyAll_of_notMem (hne _)).trans
    (lookup_modifyAll_of_notMem (hne _))

theorem refreshTables_valid (h : txn.tables.Valid) :
    (txn.refreshTables md5Hash tagPrefix orders).tables.Valid := by
  intro table srl hlist
  cases table with
  | global =>
      obtain rfl := Option.some.inj hlist
      exact refreshTables_global.valid
  | ofNamespace nsIndex =>
      cases hconfig : txn.config.lookup nsIndex with
      | none =>
          apply h (.ofNamespace nsIndex) srl
          exact (refreshTables_locals_of_none hconfig).symm.trans hlist
      | some nsConfig =>
          obtain ⟨srl', hlookup, hbuilt⟩ :=
            @refreshTables_local md5Hash tagPrefix _ orders txn _ hconfig
          obtain rfl := Option.some.inj (hlookup.symm.trans hlist)
          exact hbuilt.valid

theorem refresh_valid (h : txn.tables.Valid) :
    (txn.refresh md5Hash tagPrefix orders).tables.Valid := by
  unfold refresh
  split_ifs
  · exact h
  · exact refreshTables_valid h

end Txn

theorem TxnCall.apply_valid {txn : Txn} (call : TxnCall) (h : txn.tables.Valid) :
    (call.apply md5Hash tagPrefix txn).tables.Valid := by
  cases call with
  | update nsIndex nsConfig => exact h
  | changes orders => exact Txn.refresh_valid h

theorem SessionRuleCache.txnAfter_resync {cache : SessionRuleCache}
    {resync : Bool} {calls : List TxnCall} :
    (cache.txnAfter md5Hash tagPrefix resync calls).resync = resync := by
  refine List.foldlRecOn (motive := fun txn : Txn => txn.resync = resync)
    calls _ rfl ?_
  intro txn h call _
  cases call with
  | update nsIndex nsConfig => exact h
  | changes orders => exact Txn.refresh_resync.trans h

theorem SessionRuleCache.txnAfter_valid {cache : SessionRuleCache}
    {resync : Bool} {calls : List TxnCall} :
    (cache.txnAfter md5Hash tagPrefix resync calls).tables.Valid := by
  refine List.foldlRecOn (motive := fun txn : Txn => txn.tables.Valid)
    calls _ SessionTables.valid_new ?_
  intro txn h call _
  exact call.apply_valid h

theorem cacheAfter_valid {history : List CommittedTxn} :
    (cacheAfter md5Hash tagPrefix history).tables.Valid := by
  induction history using List.reverseRecOn with
  | nil => exact SessionTables.valid_new
  | append_singleton history t _ =>
      rw [cacheAfter, List.foldl_append]
      exact Txn.refresh_valid SessionRuleCache.txnAfter_valid

end Tables

/-! ## The tables of a dump -/

structure Dumped (rules : List SessionRule) (st : SessionTables) : Prop where
  valid : st.Valid
  only : ∀ table, ∀ r ∈ st.rules table, r ∈ rules
  all : ∀ r ∈ rules, ∃ r' ∈ st.rules r.table, r.SameUpToTag r'

theorem insertDumped_list {st : SessionTables} {rule : SessionRule}
    {table : TableID} :
    (insertDumped st rule).list table =
      if table = rule.table then
        some (SessionRuleList.insert
          ((st.list table).getD SlotArray.empty) [rule]).2
      else st.list table := by
  unfold insertDumped SessionRule.table
  split_ifs with hscope htable htable
  · subst htable
    simp [SessionTables.list]
  · cases table with
    | global => rfl
    | ofNamespace nsIndex =>
        have hne : nsIndex ≠ rule.appnsIndex := fun heq =>
          htable (heq ▸ rfl)
        simp [SessionTables.list, hne]
  · subst htable
    rfl
  · cases table with
    | global => exact absurd rfl htable
    | ofNamespace nsIndex => rfl

theorem Dumped.insert {rules : List SessionRule} {st : SessionTables}
    (h : Dumped rules st) (rule : SessionRule) :
    Dumped (rules ++ [rule]) (insertDumped st rule) := by
  have hlist : SessionRuleList.ValidFor rule.table
      ((st.list rule.table).getD SlotArray.empty) := by
    cases hlist : st.list rule.table with
    | none => exact .empty
    | some srl => exact h.valid _ srl hlist
  obtain ⟨hvalid, hfrom, hkeep, hall⟩ :=
    hlist.insert (List.forall_mem_singleton.mpr rfl)
  have hself : (insertDumped st rule).rules rule.table =
      (SessionRuleList.insert ((st.list rule.table).getD SlotArray.empty)
        [rule]).2.items := by
    simp [SessionTables.rules, insertDumped_list]
  have hother : ∀ table, table ≠ rule.table →
      (insertDumped st rule).rules table = st.rules table := by
    intro table hne
    simp [SessionTables.rules, insertDumped_list, hne]
  have hbefore : ((st.list rule.table).getD SlotArray.empty).items =
      st.rules rule.table := by
    cases hlist : st.list rule.table with
    | none => simp [SessionTables.rules, hlist]; rfl
    | some srl => simp [SessionTables.rules, hlist]
  rw [hbefore] at hfrom hkeep
  refine ⟨?_, ?_, ?_⟩
  · intro table srl hsrl
    rw [insertDumped_list] at hsrl
    split_ifs at hsrl with htable
    · subst htable
      cases hsrl
      exact hvalid
    · exact h.valid table srl hsrl
  · intro table r hr
    rw [List.mem_append]
    by_cases htable : table = rule.table
    · subst htable
      rw [hself] at hr
      exact (hfrom r hr).imp_left (h.only _ r)
    · rw [hother table htable] at hr
      exact Or.inl (h.only table r hr)
  · intro r hr
    rcases List.mem_append.mp hr with hr | hr
    · obtain ⟨r', hr', hsame⟩ := h.all r hr
      refine ⟨r', ?_, hsame⟩
      by_cases htable : r.table = rule.table
      · rw [htable] at hr' ⊢
        rw [hself]
        exact hkeep hr'
      · rwa [hother r.table htable]
    · obtain rfl := List.mem_singleton.mp hr
      rw [hself]
      exact hall r hr

theorem dumped_dumpedTables (rules : List SessionRule) :
    Dumped rules (dumpedTables rules) := by
  induction rules using List.reverseRecOn with
  | nil =>
      refine ⟨SessionTables.valid_new, ?_, by simp⟩
      intro table r hr
      have hempty : SessionTables.new.rules table = [] := by
        cases table <;> rfl
      rw [dumpedTables, List.foldl_nil, hempty] at hr
      exact hr
  | append_singleton rules rule ih =>
      rw [dumpedTables, List.foldl_append]
      exact ih.insert rule

def DistinctRules (dump : List SessionRule) : Prop :=
  dump.Pairwise fun a b => a.table = b.table → ¬ a.SameUpToTag b

theorem dumpedTables_perm {dump : List SessionRule}
    (h : DistinctRules dump) (table : TableID) :
    (dump.filter (·.table = table)).Perm ((dumpedTables dump).rules table) := by
  have hdumped := dumped_dumpedTables dump
  have hpairwise : dump.Pairwise fun a b => ¬ a.SameUpToTag b :=
    h.imp fun hab hsame => hab hsame.table_eq hsame
  have hnodup : dump.Nodup := by
    apply hpairwise.imp
    intro a b hab heq
    subst heq
    exact hab Std.ReflCmp.compare_self
  refine (List.perm_ext_iff_of_nodup (hnodup.filter _)
    (hdumped.valid.nodup table)).mpr fun r => ?_
  rw [List.mem_filter, decide_eq_true_eq]
  constructor
  · intro hr
    obtain ⟨hmem, rfl⟩ := hr
    obtain ⟨r', hr', hsame⟩ := hdumped.all r hmem
    have heq : r = r' := by
      by_contra hne
      exact hpairwise.forall hmem (hdumped.only _ r' hr') hne hsame
    exact heq ▸ hr'
  · intro hr
    exact ⟨hdumped.only table r hr, hdumped.valid.table_eq hr⟩

/-! ## Changes -/

/-- What VPP has before a transaction is rendered. -/
def VPPInSync (cache : SessionRuleCache) (resync : Bool)
    (dump : List SessionRule) (vpp : VPPTables) : Prop :=
  if resync then
    DistinctRules dump ∧ ∀ table, (vpp table).Perm (dump.filter (·.table = table))
  else ∀ table, (vpp table).Perm (cache.tables.rules table)

section Changes

variable {md5Hash : String → String} {tagPrefix : String}
  {cache : SessionRuleCache} {txn : Txn} {orders : ChangesOrders}
  {dump : List SessionRule} {vpp : VPPTables}

theorem changes_eq_diff (hcache : cache.tables.Valid)
    (hvpp : VPPInSync cache txn.resync dump vpp) :
    ∃ current : SessionTables, current.Valid ∧
      (∀ table, (vpp table).Perm (current.rules table)) ∧
      txn.changes md5Hash tagPrefix orders (some dump) cache =
        (txn.refresh md5Hash tagPrefix orders.refresh,
          some ((txn.refresh md5Hash tagPrefix orders.refresh).tables.diff
            orders.added orders.removed current)) := by
  unfold VPPInSync at hvpp
  split_ifs at hvpp with hresync
  · refine ⟨dumpedTables dump, (dumped_dumpedTables dump).valid, ?_, ?_⟩
    · intro table
      exact (hvpp.2 table).trans (dumpedTables_perm hvpp.1 table)
    · simp [Txn.changes, Txn.refresh_resync, hresync]
  · refine ⟨cache.tables, hcache, hvpp, ?_⟩
    simp [Txn.changes, Txn.refresh_resync, hresync]

/-- All requests for the changes succeed and leave the given tables in VPP,
and rules that stay are not touched. -/
def Renders (vpp : VPPTables) (tables : SessionTables)
    (added removed : RuleRefs) : Prop :=
  ∃ requests vpp', updateRules added removed = some requests ∧
    sendAll requests vpp = some vpp' ∧
    (∀ table, (vpp' table).Perm (tables.rules table)) ∧
    ∀ table, ∀ r ∈ vpp table, r ∈ vpp' table → some r ∉ added ∧ some r ∉ removed

theorem changes_renders (hcache : cache.tables.Valid) (htxn : txn.tables.Valid)
    (hvpp : VPPInSync cache txn.resync dump vpp) :
    ∃ added removed, txn.changes md5Hash tagPrefix orders (some dump) cache =
        (txn.refresh md5Hash tagPrefix orders.refresh, some (added, removed)) ∧
      Renders vpp (txn.refresh md5Hash tagPrefix orders.refresh).tables added
        removed := by
  have hvalid : (txn.refresh md5Hash tagPrefix orders.refresh).tables.Valid :=
    Txn.refresh_valid htxn
  obtain ⟨current, hcurrent, hperm, hchanges⟩ :=
    @changes_eq_diff md5Hash tagPrefix _ _ orders _ _ hcache hvpp
  obtain ⟨requests, vpp', hrequests, hsent, hvpp'⟩ :=
    SessionTables.sendAll_diff orders.added orders.removed hvalid hcurrent hperm
  obtain ⟨⟨added, hadded, _, hmem⟩, removed, hremoved, _, hmem2⟩ :=
    SessionTables.diff_spec orders.added orders.removed hvalid hcurrent
  rw [hadded, hremoved] at hrequests
  refine ⟨added.map some, removed.map some, ?_, requests, vpp', hrequests,
    hsent, hvpp', ?_⟩
  · rw [hchanges, ← hadded, ← hremoved]
  · intro table r hr hr'
    rw [(hperm table).mem_iff] at hr
    rw [(hvpp' table).mem_iff] at hr'
    obtain rfl := hvalid.table_eq hr'
    rw [List.mem_map_of_injective (Option.some_injective _),
      List.mem_map_of_injective (Option.some_injective _), hmem, hmem2]
    exact ⟨fun honly => honly.2 hr, fun honly => honly.2 hr'⟩

end Changes

/-- Whatever was committed before, rendering a transaction turns the tables of
VPP into those of the transaction, and these are cached with its config. -/
theorem cacheAfter_txn_renders (md5Hash : String → String)
    (tagPrefix : String) (history : List CommittedTxn) (resync : Bool)
    (calls : List TxnCall) (orders : ChangesOrders)
    (dump : List SessionRule) (vpp : VPPTables)
    (hvpp : VPPInSync (cacheAfter md5Hash tagPrefix history) resync dump vpp) :
    ∃ txn changed added removed,
      txn = (cacheAfter md5Hash tagPrefix history).txnAfter md5Hash tagPrefix
        resync calls ∧
      txn.changes md5Hash tagPrefix orders (some dump)
        (cacheAfter md5Hash tagPrefix history) =
        (changed, some (added, removed)) ∧
      Renders vpp changed.tables added removed ∧
      ∀ orders', changed.commit md5Hash tagPrefix orders' =
        ⟨txn.config, changed.tables⟩ := by
  obtain ⟨added, removed, hchanges, hrenders⟩ :=
    @changes_renders md5Hash tagPrefix _ ((cacheAfter md5Hash tagPrefix
      history).txnAfter md5Hash tagPrefix resync calls) orders dump vpp
      cacheAfter_valid SessionRuleCache.txnAfter_valid
      (by rwa [SessionRuleCache.txnAfter_resync])
  refine ⟨_, _, added, removed, rfl, hchanges, hrenders, ?_⟩
  intro orders'
  rw [Txn.commit, Txn.refresh_refresh, Txn.refresh_config]

def insertionOrders : RefreshOrders :=
  ⟨.insertion, .insertion, .insertion,
    fun _ => ⟨.insertion, fun _ _ => .insertion⟩⟩

def isolatedIP : Net.IPNet := ⟨[10, 1, 1, 2], [255, 255, 255, 255]⟩

def isolatedRule : ContivRule := ⟨"DENY", .deny, .any, .any, .tcp, 0, 0⟩

def isolatedPod : CommittedTxn :=
  ⟨false, [.update 1 ⟨isolatedIP, [], [isolatedRule]⟩], insertionOrders⟩

def untaggedHalf : SessionRule :=
  { egressRule isolatedIP isolatedRule with rmtPlen := 1 }

/-- A resync finds a rule for the pod without a tag, which is deleted and added
again with its tag. -/
theorem cacheAfter_txn_renders_isolatedPod :
    VPPInSync (cacheAfter id "contiv/vpp-policy-" [isolatedPod]) true
        [untaggedHalf]
        (fun table => [untaggedHalf].filter (·.table = table)) ∧
      ∃ txn changed added removed,
        txn = (cacheAfter id "contiv/vpp-policy-" [isolatedPod]).txnAfter id
          "contiv/vpp-policy-" true isolatedPod.calls ∧
        txn.changes id "contiv/vpp-policy-"
          ⟨insertionOrders, .insertion, .insertion⟩ (some [untaggedHalf])
          (cacheAfter id "contiv/vpp-policy-" [isolatedPod]) =
          (changed, some (added, removed)) ∧
        removed = [some untaggedHalf] ∧
        some (untaggedHalf.withTag id "contiv/vpp-policy-"
          "1-egress-DENY-1/2") ∈ added ∧
        Renders (fun table => [untaggedHalf].filter (·.table = table))
          changed.tables added removed ∧
        ∀ orders', changed.commit id "contiv/vpp-policy-" orders' =
          ⟨txn.config, changed.tables⟩ := by
  have hvpp : VPPInSync (cacheAfter id "contiv/vpp-policy-" [isolatedPod])
      true [untaggedHalf]
      (fun table => [untaggedHalf].filter (·.table = table)) :=
    ⟨List.pairwise_singleton _ _, fun table => .refl _⟩
  have hparts : (((cacheAfter id "contiv/vpp-policy-" [isolatedPod]).txnAfter
      id "contiv/vpp-policy-" true isolatedPod.calls).changes id
        "contiv/vpp-policy-" ⟨insertionOrders, .insertion, .insertion⟩
        (some [untaggedHalf])
        (cacheAfter id "contiv/vpp-policy-" [isolatedPod])).2.map
      (fun parts => decide (parts.2 = [some untaggedHalf] ∧
        some (untaggedHalf.withTag id "contiv/vpp-policy-"
          "1-egress-DENY-1/2") ∈ parts.1)) = some true := by
    decide +kernel
  refine ⟨hvpp, ?_⟩
  obtain ⟨txn, changed, added, removed, rfl, hchanges, hrest⟩ :=
    cacheAfter_txn_renders id "contiv/vpp-policy-" [isolatedPod] true
      isolatedPod.calls ⟨insertionOrders, .insertion, .insertion⟩
      [untaggedHalf] _ hvpp
  rw [hchanges, Option.map_some, Option.some.injEq, decide_eq_true_eq] at hparts
  exact ⟨_, changed, added, removed, rfl, hchanges, hparts.1, hparts.2, hrest⟩

end ContivVPP.SessionCache
