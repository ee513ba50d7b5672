import ContivVPP.AclResync

/-!
# When a resync recovers

A resync transaction compares the configuration with the lists that the cache
has made of the dump.  An ACL that has lost an interface to another one in the
cache is changed in VPP only if the cache sees a difference in its list.  So
the configuration is what VPP ends up with just if every dumped ACL meets the
conditions of `Recovers`.
-/

namespace ContivVPP.AclRenderer

open ContivVPP.Renderer GoMap RuleCache

def Wants (config : Config) (d : TrafficDirection) (x : String)
    (rules : Rules) : Prop :=
  (config.lookup x).map (fun cfg => cfg.rules d) = some rules

def Owns (lists : TrafficDirection → List (ContivRuleList Acl))
    (d : TrafficDirection) (x : String) (rules : Rules) : Prop :=
  (lastWith (lists d) x).map ContivRuleList.rules = some rules

/-- The resync gets rid of a dumped ACL or makes it right.  The list for it
has rules.  If the interfaces that should have these rules are just those
that the list still has in the cache, then the ACL lists no others.  If both
sets are not empty, then the rules of the ACL are as rendered. -/
structure Recovers (config : Config)
    (lists : TrafficDirection → List (ContivRuleList Acl)) (acl : Acl)
    (d : TrafficDirection) (list : ContivRuleList Acl) : Prop where
  rules : list.rules.getD [] ≠ []
  unmoved : (∀ x, Wants config d x list.rules ↔ Owns lists d x list.rules) →
    ∀ d' x, acl.Lists d' x → d' = d ∧ Wants config d x list.rules
  rendered : (∃ x, Wants config d x list.rules) →
    (∃ x, Owns lists d x list.rules) → acl.rules = renderRules list.rules

/-! ## The transaction after a resync -/

structure InResync (config : Config) (aclDump : List Acl)
    (lists : TrafficDirection → List (ContivRuleList Acl)) (s : Txn)
    (upd : TrafficDirection → String → Option Rules) : Prop where
  inTxn : InTxn s upd
  priv : TxnPriv s
  hasLists : HasLists s.1 lists
  owner : ∀ d x rules, Owns lists d x rules ↔
    ∃ b ∈ (s.1.cache.lists d).refs, x ∈ (s.1.heap.lists b).interfaces ∧
      (s.1.heap.lists b).rules = rules
  wants : ∀ d x rules, rules.getD [] ≠ [] →
    (upd d x = some rules ↔ Wants config d x rules)
  covers : ∀ d x b, (s.1.cache.lists d).byInterface x = some b → upd d x ≠ none
  dumped : ∀ d list, list ∈ lists d ↔ ∃ acl ∈ aclDump, DumpedAs acl d list

theorem lastCall_concat (calls : List UpdateCall) (call : UpdateCall)
    (d : TrafficDirection) (x : String) :
    lastCall (calls ++ [call]) d x =
      if x = call.ifName then some (call.rules d) else lastCall calls d x := by
  simp [lastCall, Function.update_apply]

theorem lastCall_append (calls calls' : List UpdateCall)
    (d : TrafficDirection) (x : String) :
    lastCall (calls ++ calls') d x =
      (lastCall calls' d x).or (lastCall calls d x) := by
  induction calls' using List.reverseRecOn with
  | nil => simp [lastCall]
  | append_singleton calls' call ih =>
      rw [← List.append_assoc, lastCall_concat, lastCall_concat, ih]
      split_ifs
      · rfl
      · rfl

theorem lastCall_of_forall {calls : List UpdateCall} {d : TrafficDirection}
    {rules : Rules} (hrules : ∀ call ∈ calls, call.rules d = rules)
    (x : String) : lastCall calls d x =
      if x ∈ calls.map UpdateCall.ifName then some rules else none := by
  induction calls using List.reverseRecOn with
  | nil => rfl
  | append_singleton calls call ih =>
      have hlast := hrules call (by simp)
      have ih := ih fun c hc => hrules c (List.mem_append_left _ hc)
      rw [lastCall_concat, ih, hlast]
      by_cases hx : x = call.ifName
      · simp [hx]
      · simp [hx]

theorem foldl_insert_range (c : CommitChoices) (config : Config) (x : String) :
    x ∈ ((range c.config config).map (updateCall c)).foldl
        (fun set call => insert call.ifName set) (∅ : InterfaceSet) ↔
      config.lookup x ≠ none := by
  have hmem : ∀ (calls : List UpdateCall) (set : InterfaceSet),
      x ∈ calls.foldl (fun set call => insert call.ifName set) set ↔
        x ∈ set ∨ x ∈ calls.map UpdateCall.ifName := by
    intro calls
    induction calls with
    | nil => simp
    | cons call calls ih =>
        intro set
        rw [List.foldl_cons, ih]
        simp only [Finset.mem_insert, List.map_cons, List.mem_cons]
        tauto
  rw [hmem, List.map_map, Option.ne_none_iff_exists']
  simp only [Finset.notMem_empty, false_or, List.mem_map, Function.comp]
  constructor
  · rintro ⟨entry, hentry, hx⟩
    obtain ⟨y, cfg⟩ := entry
    change y = x at hx
    exact ⟨cfg, hx ▸ mem_range.mp hentry⟩
  · rintro ⟨cfg, hcfg⟩
    exact ⟨(x, cfg), mem_range.mpr hcfg, rfl⟩

section Resync

variable {c : ResyncChoices} {config : Config} {aclDump : List Acl}
  {lists : TrafficDirection → List (ContivRuleList Acl)}
  {st₀ st : State Acl}

def configCalls (c : ResyncChoices) (config : Config) : List UpdateCall :=
  (range c.config config).map (updateCall c.toCommitChoices)

def resyncCalls (c : ResyncChoices) (config : Config) (st : State Acl) :
    List UpdateCall :=
  configCalls c config ++
    emptyCalls c ((configCalls c config).foldl update (st, newTxn))

theorem lastCall_emptyCalls (d : TrafficDirection) (x : String) :
    lastCall (emptyCalls c ((configCalls c config).foldl update
        (st, newTxn))) d x =
      if x ∈ st.cache.interfaces ∧ config.lookup x = none then some (some [])
      else none := by
  have hrules : ∀ call ∈ emptyCalls c ((configCalls c config).foldl update
      (st, newTxn)), call.rules d = some [] := by
    intro call hcall
    obtain ⟨ifName, _, heq⟩ := List.mem_map.mp hcall
    rw [← heq]
  obtain ⟨_, hinterfaces, htxn⟩ :=
    foldl_update_cache (s := (st, newTxn)) (configCalls c config)
  have hnames : x ∈ (emptyCalls c ((configCalls c config).foldl update
      (st, newTxn))).map UpdateCall.ifName ↔
      x ∈ st.cache.interfaces ∧ config.lookup x = none := by
    have hcfg := foldl_insert_range c.toCommitChoices config x
    simp only [emptyCalls, List.map_map, List.mem_map, List.mem_filter,
      ContivRuleCache.allInterfaces, c.rest.mem_order, hinterfaces, htxn,
      Function.comp, exists_eq_right, decide_eq_true_eq]
    refine and_congr_right fun _ => ?_
    rw [← not_iff_not, not_not]
    exact hcfg
  rw [lastCall_of_forall hrules]
  simp only [hnames]

theorem lastCall_resyncCalls (d : TrafficDirection) (x : String) :
    lastCall (resyncCalls c config st) d x =
      (if x ∈ st.cache.interfaces ∧ config.lookup x = none
        then some (some []) else none).or
      ((config.lookup x).map fun cfg => cfg.rules d) := by
  rw [resyncCalls, lastCall_append, lastCall_emptyCalls, configCalls,
    lastCall_range]

theorem owns_iff_of_resync (hresync : resync c.resync lists st₀ = .ok st)
    (d : TrafficDirection) (x : String) (rules : Rules) :
    Owns lists d x rules ↔ ∃ b, (st.cache.lists d).byInterface x = some b ∧
      (st.heap.lists b).rules = rules := by
  have hrules := (refines_resync hresync ⟨fun _ _ => none, ∅⟩).rules d x
  change _ = (lastWith (lists d) x).map ContivRuleList.rules at hrules
  rw [Owns, ← hrules, Option.map_eq_some_iff]

theorem mem_interfaces_of_resync
    (hresync : resync c.resync lists st₀ = .ok st) {d : TrafficDirection}
    {x : String} {b : Ref} (hb : (st.cache.lists d).byInterface x = some b) :
    x ∈ st.cache.interfaces := by
  have howns := (owns_iff_of_resync hresync d x _).mpr ⟨b, hb, rfl⟩
  have hlast : lastWith (lists d) x ≠ none := by
    intro hnone
    simp [Owns, hnone] at howns
  have hmem := mem_allInterfaces_of_lastWith hlast
  rw [(refines_resync hresync ⟨fun _ _ => none, ∅⟩).interfaces]
  change x ∈ allInterfaces (lists .ingress) ∪ allInterfaces (lists .egress)
  cases d with
  | ingress => exact Finset.mem_union_left _ hmem
  | egress => exact Finset.mem_union_right _ hmem

theorem inResync (hdump : dumpVppACLConfig aclDump = .ok lists)
    (hresync : resync c.resync lists st₀ = .ok st) :
    InResync config aclDump lists
      ((resyncCalls c config st).foldl update (st, newTxn))
      fun d => lastCall (resyncCalls c config st) d := by
  have hrefines := refines_resync hresync ⟨fun _ _ => none, ∅⟩
  have hnew := inTxn_newTxn hrefines.consistent
  have hin := hnew.foldl_update (resyncCalls c config st)
  obtain ⟨hcache, _, _⟩ :=
    foldl_update_cache (s := (st, newTxn)) (resyncCalls c config st)
  have hsame : ∀ {d b}, b ∈ (st.cache.lists d).refs →
      ((resyncCalls c config st).foldl update (st, newTxn)).1.heap.lists b =
        st.heap.lists b :=
    fun hb => hnew.lists_foldl_update (resyncCalls c config st) hb
  have hhas := hasLists_resync hresync
  have hisList : ∀ {d b list}, b ∈ (st.cache.lists d).refs →
      IsList st.heap b list →
      IsList ((resyncCalls c config st).foldl update (st, newTxn)).1.heap b
        list := by
    intro d b list hb his
    exact ⟨hsame hb ▸ his.id, hsame hb ▸ his.rules, hsame hb ▸ his.priv⟩
  refine ⟨hin, hnew.txnPriv_foldl_update (txnPriv_newTxn st) _, ⟨?_, ?_⟩, ?_,
    ?_, ?_, fun d list => mem_dump hdump⟩
  · intro d b hb
    rw [hcache] at hb
    obtain ⟨list, hmem, hne, his⟩ := hhas.mem d b hb
    exact ⟨list, hmem, hne, hisList hb his⟩
  · intro d list hmem hne
    obtain ⟨b, hb, his⟩ := hhas.all d list hmem hne
    exact ⟨b, hcache ▸ hb, hisList hb his⟩
  · intro d x rules
    rw [owns_iff_of_resync hresync, hcache]
    constructor
    · rintro ⟨b, hb, hrules⟩
      have hb := ((hrefines.consistent.wf d).byInterface_iff x b).mp hb
      refine ⟨b, hb.1, ?_⟩
      rw [hsame hb.1]
      exact ⟨hb.2, hrules⟩
    · rintro ⟨b, hb, hx, hrules⟩
      rw [hsame hb] at hx hrules
      exact ⟨b, ((hrefines.consistent.wf d).byInterface_iff x b).mpr
        ⟨hb, hx⟩, hrules⟩
  · intro d x rules hne
    rw [lastCall_resyncCalls, Wants]
    split_ifs with hempty
    · rw [hempty.2]
      simp only [Option.some_or, Option.some.injEq, Option.map_none,
        reduceCtorEq, iff_false]
      intro heq
      rw [← heq] at hne
      exact hne rfl
    · rw [Option.none_or]
  · intro d x b hb
    rw [hcache] at hb
    have hx := mem_interfaces_of_resync hresync hb
    rw [lastCall_resyncCalls]
    cases hcfg : config.lookup x with
    | none => simp [hx]
    | some cfg => simp

end Resync

/-! ## Lists of the transaction and dumped ACLs -/

def stored (aclDump : List Acl) : VppACLs :=
  fun name => aclDump.find? fun acl => acl.aclName = name

theorem stored_eq_some_iff {aclDump : List Acl}
    (hnames : (aclDump.map Acl.aclName).Nodup) {name : String} {acl : Acl} :
    stored aclDump name = some acl ↔ acl ∈ aclDump ∧ acl.aclName = name := by
  induction aclDump with
  | nil => simp [stored]
  | cons acl' aclDump ih =>
      rw [List.map_cons, List.nodup_cons] at hnames
      have ih := ih hnames.2
      rw [stored] at ih ⊢
      rw [List.find?_cons]
      by_cases hname : acl'.aclName = name
      · simp only [hname, decide_true, Option.some.injEq, List.mem_cons]
        constructor
        · intro heq
          exact ⟨Or.inl heq.symm, heq ▸ hname⟩
        · rintro ⟨hmem, hname'⟩
          rcases hmem with heq | hmem
          · exact heq.symm
          · refine absurd (List.mem_map.mpr ⟨acl, hmem, ?_⟩) hnames.1
            exact hname'.trans hname.symm
      · simp only [hname, decide_false, List.mem_cons]
        rw [ih]
        constructor
        · exact fun h => ⟨Or.inr h.1, h.2⟩
        · rintro ⟨hmem, hname'⟩
          rcases hmem with heq | hmem
          · exact absurd (heq ▸ hname') hname
          · exact ⟨hmem, hname'⟩

section Lists

variable {config : Config} {aclDump : List Acl}
  {lists : TrafficDirection → List (ContivRuleList Acl)} {s : Txn}
  {upd : TrafficDirection → String → Option Rules} {d : TrafficDirection}
  {r b : Ref} {x : String} {acl : Acl} {list : ContivRuleList Acl}

section

variable (h : InResync config aclDump lists s upd)
include h

theorem InResync.mem_interfaces_iff (hr : r ∈ (s.2.lists d).refs) :
    x ∈ (s.1.heap.lists r).interfaces ↔
      upd d x = some (s.1.heap.lists r).rules := by
  have hwf := (h.inTxn.pending d).headWF
  constructor
  · intro hx
    have howner : (s.2.lists d).byInterface x = some r :=
      (hwf.byInterface_iff x r).mpr ⟨hr, hx⟩
    cases hupd : upd d x with
    | none =>
        obtain ⟨b, hb, _⟩ := (h.inTxn.pending d).origin x r howner hupd
        exact absurd hupd (h.covers d x b hb)
    | some rules =>
        obtain ⟨r', hr', hrules⟩ :=
          (h.inTxn.pending d).assigned x rules hupd
        have heq : r = r' := by
          rw [← Option.some.injEq, ← howner]
          exact hr'
        rw [heq]
        exact congrArg some hrules.symm
  · intro hupd
    obtain ⟨r', hr', hrules⟩ := (h.inTxn.pending d).assigned x _ hupd
    have hmem := (hwf.byInterface_iff x r').mp hr'
    rw [hwf.eq_of_rules hr hmem.1 hrules.symm]
    exact hmem.2

theorem InResync.mem_interfaces_iff_wants (hr : r ∈ (s.2.lists d).refs)
    (hrules : (s.1.heap.lists r).rules.getD [] ≠ []) :
    x ∈ (s.1.heap.lists r).interfaces ↔
      Wants config d x (s.1.heap.lists r).rules := by
  rw [h.mem_interfaces_iff hr]
  exact h.wants d x _ hrules

theorem InResync.exists_head {rules : Rules} (hne : rules.getD [] ≠ [])
    (hwants : Wants config d x rules) :
    ∃ r ∈ (s.2.lists d).refs, (s.1.heap.lists r).rules = rules ∧
      x ∈ (s.1.heap.lists r).interfaces := by
  obtain ⟨r, hr, hrules⟩ := (h.inTxn.pending d).assigned x rules
    ((h.wants d x rules hne).mpr hwants)
  have hmem := ((h.inTxn.pending d).headWF.byInterface_iff x r).mp hr
  exact ⟨r, hmem.1, hrules, hmem.2⟩

theorem InResync.exists_acl (hb : b ∈ (s.1.cache.lists d).refs) :
    ∃ acl ∈ aclDump, ∃ list, DumpedAs acl d list ∧
      (s.1.heap.lists b).id = acl.aclName ∧
      (s.1.heap.lists b).priv = some acl ∧
      (s.1.heap.lists b).rules = list.rules := by
  obtain ⟨list, hmem, _, his⟩ := h.hasLists.mem d b hb
  obtain ⟨acl, hacl, hdumped⟩ := (h.dumped d list).mp hmem
  obtain ⟨hid, hpriv, _⟩ := hdumped.spec
  exact ⟨acl, hacl, list, hdumped, his.id.trans hid, his.priv.trans hpriv,
    his.rules⟩

theorem InResync.exists_base (hacl : acl ∈ aclDump)
    (hdumped : DumpedAs acl d list) :
    ∃ b ∈ (s.1.cache.lists d).refs, (s.1.heap.lists b).id = acl.aclName ∧
      (s.1.heap.lists b).priv = some acl ∧
      (s.1.heap.lists b).rules = list.rules ∧
      ∀ x, x ∈ (s.1.heap.lists b).interfaces ↔ Owns lists d x list.rules := by
  obtain ⟨hid, hpriv, hne, _⟩ := hdumped.spec
  obtain ⟨b, hb, his⟩ := h.hasLists.all d list
    ((h.dumped d list).mpr ⟨acl, hacl, hdumped⟩) hne
  refine ⟨b, hb, his.id.trans hid, his.priv.trans hpriv, his.rules, fun x => ?_⟩
  rw [h.owner]
  constructor
  · exact fun hx => ⟨b, hb, hx, his.rules⟩
  · rintro ⟨b', hb', hx, hrules⟩
    have hwf := (h.inTxn.pending d).baseWF
    rw [hwf.eq_of_rules hb hb' (his.rules.trans hrules.symm)]
    exact hx

theorem InResync.lists_of_mem (hb : b ∈ (s.1.cache.lists d).refs)
    (hx : x ∈ (s.1.heap.lists b).interfaces)
    (hpriv : (s.1.heap.lists b).priv = some acl) : acl.Lists d x := by
  have howns := (h.owner d x _).mpr ⟨b, hb, hx, rfl⟩
  rw [Owns, Option.map_eq_some_iff] at howns
  obtain ⟨list, hlast, hrules⟩ := howns
  obtain ⟨hmem, hx'⟩ := mem_of_lastWith hlast
  obtain ⟨acl', hacl', hdumped⟩ := (h.dumped d list).mp hmem
  obtain ⟨_, hpriv', hne, hlists⟩ := hdumped.spec
  obtain ⟨b', hb', his⟩ := h.hasLists.all d list hmem hne
  have heq := (h.inTxn.pending d).baseWF.eq_of_rules hb' hb
    (his.rules.trans hrules)
  have hacl := his.priv
  rw [heq, hpriv, hpriv', Option.some.injEq] at hacl
  rw [hacl]
  exact (hlists x).mp hx'

end

end Lists

/-! ## What VPP has in the end -/

section Verdict

variable {c : CommitChoices} {config : Config} {aclDump : List Acl}
  {lists : TrafficDirection → List (ContivRuleList Acl)} {s : Txn}
  {upd : TrafficDirection → String → Option Rules} {d : TrafficDirection}
  {r : Ref} {x : String} {acl : Acl} {list : ContivRuleList Acl}
  {r' : Renderer}

theorem InResync.previous_eq (h : InResync config aclDump lists s upd)
    (hacl : acl ∈ aclDump) (hdumped : DumpedAs acl d list)
    (hr : r ∈ (s.2.lists d).refs)
    (hrules : (s.1.heap.lists r).rules = list.rules) :
    (s.1.heap.lists r).id = acl.aclName ∧ (s.1.heap.lists r).priv = some acl ∧
      ∀ y, y ∈ previous s d r ↔ Owns lists d y list.rules := by
  obtain ⟨b, hb, hid, hpriv, hrules', hifs⟩ := h.exists_base hacl hdumped
  have hid' : (s.1.heap.lists b).id = (s.1.heap.lists r).id :=
    ((h.inTxn.pending d).id_iff r hr b hb).mpr (hrules'.trans hrules.symm)
  have hcopy : (s.1.heap.lists b).priv = (s.1.heap.lists r).priv :=
    h.priv d r hr b hb hid'
  refine ⟨hid'.symm.trans hid, hcopy.symm.trans hpriv, fun y => ?_⟩
  rw [previous_eq_of_id h.inTxn hb hid', hifs]

theorem InResync.eq_of_id (h : InResync config aclDump lists s upd)
    (hacl : acl ∈ aclDump) (hdumped : DumpedAs acl d list)
    {d' : TrafficDirection} (hr : r ∈ (s.2.lists d').refs)
    (hid : (s.1.heap.lists r).id = acl.aclName) :
    d' = d ∧ (s.1.heap.lists r).rules = list.rules := by
  obtain ⟨b, hb, hid', _, hlist, _⟩ := h.exists_base hacl hdumped
  have hd : d' = d := by
    by_contra hdiff
    exact h.inTxn.id_ne hdiff (Or.inr hr) (Or.inl hb) (hid.trans hid'.symm)
  subst hd
  have hrules : (s.1.heap.lists b).rules = (s.1.heap.lists r).rules :=
    ((h.inTxn.pending d').id_iff r hr b hb).mp (hid'.trans hid.symm)
  exact ⟨rfl, hrules.symm.trans hlist⟩

theorem InResync.exists_previous (h : InResync config aclDump lists s upd)
    (hr : r ∈ (s.2.lists d).refs)
    (hrules : (s.1.heap.lists r).rules.getD [] ≠ [])
    (hprev : previous s d r ≠ ∅) :
    ∃ acl ∈ aclDump, ∃ list, DumpedAs acl d list ∧
      (s.1.heap.lists r).rules = list.rules ∧
      ∀ y ∈ previous s d r, acl.Lists d y := by
  obtain ⟨b, huse, _, hrules', hifs, _⟩ :=
    exists_inUse_of_previous h.inTxn h.priv hr hrules hprev
  obtain ⟨acl, hacl, list, hdumped, _, hpriv, hlist⟩ :=
    h.exists_acl huse.mem
  refine ⟨acl, hacl, list, hdumped, hrules'.symm.trans hlist, ?_⟩
  intro y hy
  exact h.lists_of_mem huse.mem (hifs ▸ hy) hpriv

theorem opValue_eq_some {o : SetOrder String}
    (hvalue : opValue o d (s.1.heap.lists r) (previous s d r) = some acl) :
    (∀ d' y, acl.Lists d' y ↔ d' = d ∧ y ∈ (s.1.heap.lists r).interfaces) ∧
      (previous s d r = ∅ → acl.rules = renderRules (s.1.heap.lists r).rules) ∧
      (previous s d r ≠ ∅ → ∃ acl', (s.1.heap.lists r).priv = some acl' ∧
        acl.rules = acl'.rules) := by
  unfold opValue at hvalue
  split_ifs at hvalue with hprev hne
  · cases hvalue
    exact ⟨fun d' y => lists_renderInterfaces, fun _ => rfl,
      fun hnot => absurd hprev hnot⟩
  · rw [Option.map_eq_some_iff] at hvalue
    obtain ⟨acl', hpriv, heq⟩ := hvalue
    rw [← heq]
    exact ⟨fun d' y => lists_renderInterfaces,
      fun hempty => absurd hempty hprev, fun _ => ⟨acl', hpriv, rfl⟩⟩

section

variable (h : InResync config aclDump lists s upd)
include h

theorem InResync.exists_vpp (hnames : (aclDump.map Acl.aclName).Nodup)
    (hsaved : Saved c (stored aclDump) s r') (hr : r ∈ (s.2.lists d).refs)
    (hrules : (s.1.heap.lists r).rules.getD [] ≠ [])
    (hx : x ∈ (s.1.heap.lists r).interfaces) :
    ∃ acl, r'.vpp (s.1.heap.lists r).id = some acl ∧ acl.Lists d x ∧
      (previous s d r = ∅ → acl.rules = renderRules (s.1.heap.lists r).rules) ∧
      (previous s d r ≠ ∅ → ∃ acl', (s.1.heap.lists r).priv = some acl' ∧
        acl.rules = acl'.rules) := by
  have hne := Finset.ne_empty_of_mem hx
  by_cases hchanged : Changed s d r
  · rw [hsaved.put d r hchanged]
    cases hvalue : opValue c.render d (s.1.heap.lists r) (previous s d r) with
    | none =>
        unfold opValue at hvalue
        split_ifs at hvalue with hprev
        obtain ⟨acl, hacl, list, hdumped, hlist, _⟩ :=
          h.exists_previous hr hrules hprev
        obtain ⟨_, hpriv, _⟩ := h.previous_eq hacl hdumped hr hlist
        simp [hpriv] at hvalue
    | some acl =>
        obtain ⟨hlists, hnew, hold⟩ := opValue_eq_some hvalue
        exact ⟨acl, rfl, (hlists d x).mpr ⟨rfl, hx⟩, hnew, hold⟩
  · have heq : (s.1.heap.lists r).interfaces = previous s d r := by
      by_contra hdiff
      exact hchanged ⟨hr, hrules, hdiff⟩
    have hprev : previous s d r ≠ ∅ := heq ▸ hne
    obtain ⟨acl, hacl, list, hdumped, hlist, hlists⟩ :=
      h.exists_previous hr hrules hprev
    obtain ⟨hid, hpriv, _⟩ := h.previous_eq hacl hdumped hr hlist
    have hvpp : r'.vpp (s.1.heap.lists r).id = some acl := by
      rw [hsaved.rest _ fun d' r₂ hr₂ hid₂ => ?_, stored_eq_some_iff hnames]
      · exact ⟨hacl, hid.symm⟩
      · obtain ⟨hd, heq⟩ := eq_of_changed h.inTxn (Or.inl hr) hr₂ hid₂
        rw [hd, heq] at hr₂
        exact hchanged hr₂
    exact ⟨acl, hvpp, hlists x (heq ▸ hx), fun hempty => absurd hempty hprev,
      fun _ => ⟨acl, hpriv, rfl⟩⟩

theorem InResync.wants_of_untouched (hnames : (aclDump.map Acl.aclName).Nodup)
    (hsaved : Saved c (stored aclDump) s r')
    (henforces : ∀ d x, Enforces r'.vpp d x (effective ((config.lookup x).map
      fun cfg => cfg.rules d))) (hacl : acl ∈ aclDump)
    (hdumped : DumpedAs acl d list)
    (huntouched : ∀ d' r, Changed s d' r → (s.1.heap.lists r).id ≠ acl.aclName)
    {d' : TrafficDirection} (hlists : acl.Lists d' x) :
    d' = d ∧ Wants config d x list.rules ∧ list.rules.getD [] ≠ [] := by
  have hvpp : r'.vpp acl.aclName = some acl := by
    rw [hsaved.rest _ huntouched, stored_eq_some_iff hnames]
    exact ⟨hacl, rfl⟩
  have hne : effective ((config.lookup x).map fun cfg => cfg.rules d') ≠ [] := by
    intro hempty
    exact (henforces d' x).none hempty _ acl hvpp hlists
  obtain ⟨rules, hwants, hrules⟩ : ∃ rules, Wants config d' x rules ∧
      rules.getD [] ≠ [] := by
    unfold Wants
    cases hcfg : (config.lookup x).map fun cfg => cfg.rules d' with
    | none =>
        rw [hcfg] at hne
        exact absurd rfl hne
    | some rules =>
        rw [hcfg] at hne
        exact ⟨rules, rfl, hne⟩
  obtain ⟨r, hr, hrules', hx⟩ := h.exists_head hrules hwants
  obtain ⟨acl', hacl', hlists', _⟩ := h.exists_vpp hnames hsaved hr
    (hrules'.symm ▸ hrules) hx
  obtain ⟨name, _, _, _, _, hunique⟩ := (henforces d' x).unique hne
  have hid : (s.1.heap.lists r).id = acl.aclName :=
    (hunique _ acl' hacl' hlists').trans (hunique _ acl hvpp hlists).symm
  obtain ⟨hd, hlist⟩ := h.eq_of_id hacl hdumped hr hid
  rw [← hlist, hrules', ← hd]
  exact ⟨rfl, hwants, hrules⟩

/-- The ACL is changed just if the interfaces that should have its rules are
not those that its list has in the cache. -/
theorem InResync.untouched_iff (hacl : acl ∈ aclDump)
    (hdumped : DumpedAs acl d list) (hrules : list.rules.getD [] ≠ []) :
    (∀ d' r, Changed s d' r → (s.1.heap.lists r).id ≠ acl.aclName) ↔
      ∀ x, Wants config d x list.rules ↔ Owns lists d x list.rules := by
  obtain ⟨b, hb, hid, _, hlist, hifs⟩ := h.exists_base hacl hdumped
  -- A list of the transaction with these rules stands for the ACL.
  have hsame : ∀ r ∈ (s.2.lists d).refs, (s.1.heap.lists r).rules = list.rules →
      (∀ r', Changed s d r' → (s.1.heap.lists r').id ≠ acl.aclName) →
      ∀ x, Wants config d x list.rules ↔ Owns lists d x list.rules := by
    intro r hr hr' huntouched x
    obtain ⟨hid', _, hprev⟩ := h.previous_eq hacl hdumped hr hr'
    have heq : (s.1.heap.lists r).interfaces = previous s d r := by
      by_contra hdiff
      exact huntouched r ⟨hr, hr' ▸ hrules, hdiff⟩ hid'
    rw [← hprev, ← heq, h.mem_interfaces_iff_wants hr (hr' ▸ hrules), hr']
  constructor
  · intro huntouched x
    constructor
    · intro hwants
      obtain ⟨r, hr, hr', _⟩ := h.exists_head hrules hwants
      exact (hsame r hr hr' (huntouched d) x).mp hwants
    · intro howns
      have hx : (s.1.cache.lists d).byInterface x = some b :=
        ((h.inTxn.pending d).baseWF.byInterface_iff x b).mpr
          ⟨hb, (hifs x).mpr howns⟩
      obtain ⟨r, hr, hid'⟩ :=
        (h.inTxn.pending d).touched x b hx (h.covers d x b hx)
      have hr' : (s.1.heap.lists b).rules = (s.1.heap.lists r).rules :=
        ((h.inTxn.pending d).id_iff r hr b hb).mp hid'.symm
      exact (hsame r hr (hr'.symm.trans hlist) (huntouched d) x).mpr howns
  · intro hiff d' r hchanged hid'
    obtain ⟨hd, hr'⟩ := h.eq_of_id hacl hdumped hchanged.1 hid'
    subst hd
    obtain ⟨_, _, hprev⟩ := h.previous_eq hacl hdumped hchanged.1 hr'
    refine hchanged.2.2 (Finset.ext fun x => ?_)
    rw [hprev, ← hiff, h.mem_interfaces_iff_wants hchanged.1 hchanged.2.1, hr']

theorem InResync.recovers (hnames : (aclDump.map Acl.aclName).Nodup)
    (hsaved : Saved c (stored aclDump) s r')
    (henforces : ∀ d x, Enforces r'.vpp d x (effective ((config.lookup x).map
      fun cfg => cfg.rules d))) (hacl : acl ∈ aclDump)
    (hdumped : DumpedAs acl d list) :
    Recovers config lists acl d list := by
  have hrules : list.rules.getD [] ≠ [] := by
    by_cases huntouched : ∀ d' r, Changed s d' r →
        (s.1.heap.lists r).id ≠ acl.aclName
    · obtain ⟨_, _, hne, hlists⟩ := hdumped.spec
      obtain ⟨x, hx⟩ := Finset.nonempty_iff_ne_empty.mpr hne
      exact (h.wants_of_untouched hnames hsaved henforces hacl hdumped
        huntouched ((hlists x).mp hx)).2.2
    · push Not at huntouched
      obtain ⟨d', r, hchanged, hid'⟩ := huntouched
      rw [← (h.eq_of_id hacl hdumped hchanged.1 hid').2]
      exact hchanged.2.1
  refine ⟨hrules, fun hiff d' x hlists => ?_, fun hwants howns => ?_⟩
  · obtain ⟨hd, hwants, _⟩ := h.wants_of_untouched hnames hsaved henforces
      hacl hdumped ((h.untouched_iff hacl hdumped hrules).mpr hiff) hlists
    exact ⟨hd, hwants⟩
  · obtain ⟨x, hwants⟩ := hwants
    obtain ⟨y, howns⟩ := howns
    obtain ⟨r, hr, hr', hx⟩ := h.exists_head hrules hwants
    obtain ⟨hid, hpriv, hprev⟩ := h.previous_eq hacl hdumped hr hr'
    obtain ⟨acl', hacl', hlists', _, hold⟩ := h.exists_vpp hnames hsaved hr
      (hr' ▸ hrules) hx
    obtain ⟨acl₂, hpriv₂, hrules₂⟩ :=
      hold (Finset.ne_empty_of_mem ((hprev y).mpr howns))
    rw [hpriv, Option.some.injEq] at hpriv₂
    rw [Wants] at hwants
    have heff := henforces d x
    rw [hwants] at heff
    obtain ⟨name, acl₃, hacl₃, _, hrules₃, hunique⟩ := heff.unique hrules
    rw [hunique _ acl' hacl' hlists', hacl₃, Option.some.injEq] at hacl'
    rw [hpriv₂, ← hrules₂, ← hacl']
    exact hrules₃

/-- If all dumped ACLs are recovered, then an ACL that lists an interface in
the end is that of the list of the transaction with the interface. -/
theorem InResync.exists_list (hnames : (aclDump.map Acl.aclName).Nodup)
    (hdump : dumpVppACLConfig aclDump = .ok lists)
    (hsaved : Saved c (stored aclDump) s r')
    (hrecovers : ∀ acl ∈ aclDump, ∀ d list, DumpedAs acl d list → Recovers
      config lists acl d list) {name : String} (hvpp : r'.vpp name = some acl)
    (hlists : acl.Lists d x) :
    ∃ r ∈ (s.2.lists d).refs, (s.1.heap.lists r).id = name ∧
      x ∈ (s.1.heap.lists r).interfaces ∧
      (s.1.heap.lists r).rules.getD [] ≠ [] := by
  by_cases htouched : ∃ d' r, Changed s d' r ∧ (s.1.heap.lists r).id = name
  · obtain ⟨d', r, hr, hid⟩ := htouched
    rw [← hid, hsaved.put d' r hr] at hvpp
    obtain ⟨hlists', _, _⟩ := opValue_eq_some hvpp
    obtain ⟨hd, hx⟩ := (hlists' d x).mp hlists
    subst hd
    exact ⟨r, hr.1, hid, hx, hr.2.1⟩
  · push Not at htouched
    rw [hsaved.rest name htouched, stored_eq_some_iff hnames] at hvpp
    obtain ⟨hacl, hname⟩ := hvpp
    obtain ⟨d', list, hdumped⟩ := exists_dumpedAs hdump hacl hlists
    have hrec := hrecovers acl hacl d' list hdumped
    have huntouched := (h.untouched_iff hacl hdumped hrec.rules).mp
      (hname.symm ▸ htouched)
    obtain ⟨hd, hwants⟩ := hrec.unmoved huntouched d x hlists
    subst hd
    obtain ⟨r, hr, hr', hx⟩ := h.exists_head hrec.rules hwants
    obtain ⟨hid, _, _⟩ := h.previous_eq hacl hdumped hr hr'
    exact ⟨r, hr, hid.trans hname, hx, hr' ▸ hrec.rules⟩

theorem InResync.enforces (hnames : (aclDump.map Acl.aclName).Nodup)
    (hdump : dumpVppACLConfig aclDump = .ok lists)
    (hsaved : Saved c (stored aclDump) s r')
    (hrecovers : ∀ acl ∈ aclDump, ∀ d list, DumpedAs acl d list → Recovers
      config lists acl d list) (d : TrafficDirection) (x : String) :
    Enforces r'.vpp d x
      (effective ((config.lookup x).map fun cfg => cfg.rules d)) := by
  constructor
  · intro hne
    cases hwants : (config.lookup x).map fun cfg => cfg.rules d with
    | none =>
        rw [hwants] at hne
        exact absurd rfl hne
    | some rules =>
        rw [hwants] at hne
        change rules.getD [] ≠ [] at hne
        obtain ⟨r, hr, hr', hx⟩ := h.exists_head hne hwants
        have hne' : (s.1.heap.lists r).rules.getD [] ≠ [] := hr' ▸ hne
        obtain ⟨acl, hvpp, hlists, hnew, hold⟩ :=
          h.exists_vpp hnames hsaved hr hne' hx
        refine ⟨_, acl, hvpp, hlists, ?_, ?_⟩
        · change acl.rules = renderRules rules
          by_cases hprev : previous s d r = ∅
          · rw [hnew hprev, hr']
          · obtain ⟨acl₂, hpriv₂, hrules₂⟩ := hold hprev
            obtain ⟨acl₃, hacl₃, list, hdumped, hlist, _⟩ :=
              h.exists_previous hr hne' hprev
            obtain ⟨_, hpriv₃, howns⟩ := h.previous_eq hacl₃ hdumped hr hlist
            rw [hpriv₃, Option.some.injEq] at hpriv₂
            obtain ⟨y, hy⟩ := Finset.nonempty_iff_ne_empty.mpr hprev
            rw [hrules₂, ← hpriv₂, ← hr', hlist]
            refine (hrecovers acl₃ hacl₃ d list hdumped).rendered ⟨x, ?_⟩
              ⟨y, (howns y).mp hy⟩
            rw [← hlist, hr']
            exact hwants
        · intro name' acl' hvpp' hlists'
          obtain ⟨r₂, hr₂, hid₂, hx₂, _⟩ :=
            h.exists_list hnames hdump hsaved hrecovers hvpp' hlists'
          rw [← hid₂, (h.inTxn.pending d).headWF.eq_of_interface hr₂ hr hx₂ hx]
  · intro hempty name acl hvpp hlists
    obtain ⟨r, hr, _, hx, hne⟩ :=
      h.exists_list hnames hdump hsaved hrecovers hvpp hlists
    have hwants := (h.mem_interfaces_iff_wants hr hne).mp hx
    rw [Wants] at hwants
    rw [hwants] at hempty
    exact hne hempty

end

end Verdict

/-! ## The verdict -/

section Commit

variable {c : ResyncChoices} {config : Config} {aclDump : List Acl}
  {lists : TrafficDirection → List (ContivRuleList Acl)}
  {cache st : State Acl}

theorem commitResync_ok (hdump : dumpVppACLConfig aclDump = .ok lists)
    (hresync : resync c.resync lists cache = .ok st) :
    ∃ r', commitResync c aclDump config ⟨cache, stored aclDump⟩ = .ok r' ∧
      Saved c.toCommitChoices (stored aclDump)
        ((resyncCalls c config st).foldl update (st, newTxn)) r' := by
  have h := @inResync c config aclDump lists cache st hdump hresync
  have hnamed : ∀ d b,
      InUse ((resyncCalls c config st).foldl update (st, newTxn)).1 d b →
      ∃ acl, (((resyncCalls c config st).foldl update
          (st, newTxn)).1.heap.lists b).priv = some acl ∧
        acl.aclName = (((resyncCalls c config st).foldl update
          (st, newTxn)).1.heap.lists b).id := by
    intro d b huse
    obtain ⟨acl, _, _, _, hid, hpriv, _⟩ := h.exists_acl huse.mem
    exact ⟨acl, hpriv, hid.symm⟩
  obtain ⟨r', hok, hsaved⟩ := renderAndSave_ok h.inTxn c.toCommitChoices
    (stored aclDump)
    fun d change hmem => assertable_of_inUse h.inTxn h.priv hnamed hmem
  refine ⟨r', ?_, hsaved⟩
  rw [commitResync, hdump]
  rw [resyncCalls, List.foldl_append] at hok
  simp only [bind, Except.bind, hresync]
  exact hok

/-- A resync transaction succeeds.  VPP then enforces the configuration just if
every dumped ACL is recovered. -/
theorem commitResync_enforces_iff (hnames : (aclDump.map Acl.aclName).Nodup)
    (hdump : dumpVppACLConfig aclDump = .ok lists)
    (hresync : resync c.resync lists cache = .ok st) :
    ∃ r', commitResync c aclDump config ⟨cache, stored aclDump⟩ = .ok r' ∧
      ((∀ d x, Enforces r'.vpp d x
          (effective ((config.lookup x).map fun cfg => cfg.rules d))) ↔
        ∀ acl ∈ aclDump, ∀ d list, DumpedAs acl d list →
          Recovers config lists acl d list) := by
  have h := @inResync c config aclDump lists cache st hdump hresync
  obtain ⟨r', hok, hsaved⟩ :=
    @commitResync_ok c config aclDump lists cache st hdump hresync
  refine ⟨r', hok, fun henforces acl hacl d list hdumped => ?_,
    fun hrecovers d x => ?_⟩
  · exact h.recovers hnames hsaved henforces hacl hdumped
  · exact h.enforces hnames hdump hsaved hrecovers d x

end Commit

/-! ## Two ACLs with the same interface -/

def allowDNS : List ContivRule :=
  [⟨"dns", .permit, .any, .any, .udp, 0, 53⟩]

def staleACL : Acl :=
  ⟨"ingress-1F", renderRules (some allowDNS), some ⟨["tap1"], []⟩⟩

def denyACL (x : String) : Acl :=
  ⟨"ingress-2E", renderRules (some denyRest), some ⟨[x], []⟩⟩

def staleList : ContivRuleList Acl :=
  ⟨"ingress-1F", some allowDNS, {"tap1"}, some staleACL⟩

def denyList (x : String) : ContivRuleList Acl :=
  ⟨"ingress-2E", some denyRest, {x}, some (denyACL x)⟩

def denyConfig : Config :=
  AList.insert "tap1" ⟨some denyRest, none⟩ ∅

def resyncChoices : ResyncChoices where
  config := .insertion
  update _ _ := someChoices
  render := .sorted
  commit _ := .sorted
  resync := .sorted
  rest := .sorted

theorem dump_staleACL (x : String) : dumpVppACLConfig [staleACL, denyACL x] =
      .ok (perDirection [staleList, denyList x] []) := by
  have hdump : dumpVppACLConfig [staleACL, denyACL x] = .ok fun direction =>
        ([(TrafficDirection.ingress, staleList),
          (.ingress, denyList x)].filter fun entry =>
            entry.1 = direction).map Prod.snd := rfl
  rw [hdump]
  congr
  funext d
  cases d <;> rfl

theorem lookup_denyConfig (x : String) : denyConfig.lookup x =
    if x = "tap1" then some ⟨some denyRest, none⟩ else none := by
  by_cases hx : x = "tap1"
  · rw [hx, if_pos rfl]
    exact AList.lookup_insert ∅
  · rw [if_neg hx]
    exact AList.lookup_insert_ne hx

theorem lastWith_denyList (lists : List (ContivRuleList Acl)) (x : String) :
    lastWith (lists ++ [denyList x]) x = some (denyList x) := by
  rw [lastWith_concat, if_pos]
  exact Finset.mem_singleton_self x

theorem resync_staleList {x : String} (hx : x = "tap1" ∨ x = "tap2") :
    ∃ st, resync resyncChoices.resync
      (perDirection [staleList, denyList x] []) init = .ok st := by
  rcases hx with rfl | rfl <;>
    exact resync_ok _ _ (fun d => by cases d <;> decide +kernel)
      (fun d => by cases d <;> decide +kernel)
      (fun d => by cases d <;> decide +kernel)

/-- The interface has been moved from one ACL to the other, but the first one
is still there.  The resync does not remove it. -/
theorem commitResync_keeps_staleACL :
    ∃ r', commitResync resyncChoices [staleACL, denyACL "tap1"] denyConfig
        ⟨init, stored [staleACL, denyACL "tap1"]⟩ = .ok r' ∧
      ¬ ∀ d x, Enforces r'.vpp d x
        (effective ((denyConfig.lookup x).map fun cfg => cfg.rules d)) := by
  obtain ⟨st, hresync⟩ := resync_staleList (Or.inl rfl)
  obtain ⟨r', hok, hsaved⟩ := @commitResync_ok resyncChoices denyConfig _ _
    init st (dump_staleACL "tap1") hresync
  refine ⟨r', hok, fun henforces => ?_⟩
  have hrecovers := (inResync (dump_staleACL "tap1") hresync).recovers
    (by decide)
    hsaved henforces List.mem_cons_self
    (show DumpedAs staleACL .ingress staleList from rfl)
  have hdiff : (some denyRest : Rules) ≠ some allowDNS := by decide
  have hwants : ∀ x, ¬ Wants denyConfig .ingress x (some allowDNS) := by
    intro x hwants
    rw [Wants, lookup_denyConfig] at hwants
    split_ifs at hwants
    · exact hdiff (Option.some.inj hwants)
    · simp at hwants
  have howns : ∀ x, ¬ Owns (perDirection
      [staleList, denyList "tap1"] []) .ingress x (some allowDNS) := by
    intro x howns
    change (lastWith ([staleList] ++ [denyList "tap1"]) x).map _ = _ at howns
    by_cases hx : x = "tap1"
    · rw [hx, lastWith_denyList] at howns
      exact hdiff (Option.some.inj howns)
    · have hnone : lastWith ([staleList] ++ [denyList "tap1"]) x = none := by
        simp [lastWith, staleList, denyList, hx]
      rw [hnone] at howns
      cases howns
  exact hwants "tap1" (hrecovers.unmoved
    (fun x => iff_of_false (hwants x) (howns x)) .ingress "tap1"
    ⟨_, rfl, List.mem_singleton_self "tap1"⟩).2

def denyBoth : Config :=
  AList.insert "tap1" ⟨some denyRest, none⟩
    (AList.insert "tap2" ⟨some denyRest, none⟩ ∅)

/-- The interface is moved to the other ACL, and its former ACL goes. -/
theorem commitResync_enforces_denyBoth :
    ∃ r', commitResync resyncChoices [staleACL, denyACL "tap2"] denyBoth
        ⟨init, stored [staleACL, denyACL "tap2"]⟩ = .ok r' ∧
      ∀ d x, Enforces r'.vpp d x
        (effective ((denyBoth.lookup x).map fun cfg => cfg.rules d)) := by
  obtain ⟨st, hresync⟩ := resync_staleList (Or.inr rfl)
  obtain ⟨r', hok, hiff⟩ := @commitResync_enforces_iff resyncChoices
    denyBoth _ _ init st (by decide) (dump_staleACL "tap2") hresync
  refine ⟨r', hok, hiff.mpr fun acl hacl d list hdumped => ?_⟩
  have howns : Owns (perDirection [staleList, denyList "tap2"] []) .ingress
      "tap1" (some allowDNS) := by
    unfold Owns
    decide +kernel
  have hwants : ¬ Wants denyBoth .ingress "tap1" (some allowDNS) := by
    unfold Wants
    decide +kernel
  have hmoves : Wants denyBoth .ingress "tap1" (some denyRest) ∧
      ¬ Owns (perDirection [staleList, denyList "tap2"] []) .ingress "tap1"
        (some denyRest) := by
    unfold Wants Owns
    decide +kernel
  rcases List.mem_pair.mp hacl with rfl | rfl
  · obtain ⟨rfl, rfl⟩ := Prod.mk.inj (Option.some.inj (Except.ok.inj hdumped))
    exact ⟨by decide, fun hunmoved => absurd ((hunmoved "tap1").mpr howns)
      hwants, fun _ _ => rfl⟩
  · obtain ⟨rfl, rfl⟩ := Prod.mk.inj (Option.some.inj (Except.ok.inj hdumped))
    exact ⟨by decide, fun hunmoved => absurd ((hunmoved "tap1").mp hmoves.1)
      hmoves.2, fun _ _ => rfl⟩

end ContivVPP.AclRenderer
