import ContivVPP.AclDump
import ContivVPP.AclResyncVerdict
import ContivVPP.RuleNetworks

/-!
# Rendering a list and dumping it back

Rendering a rule and reading the ACL rule back keeps everything but the form of
IPv4 networks.  The text of a network does not say whether its address has 4
bytes or 16, and reading it gives 4.  Networks are compared by their bytes, so a
list with an IPv4 network in the 16-byte form, which is what `GetOneHostSubnet`
makes, is not the list that is dumped, and a resync sends it again.
-/

namespace ContivVPP.AclRenderer

open ByteBits Net K8s ContivVPP.Renderer GoMap RuleCache Configurator PartialLoops

/-! ## Networks -/

theorem generatedNetwork_cases {n : IPNet} (h : GeneratedNetwork n) :
    n = .any ∨ n.Comparable ∧ (¬ n.Mapped → n.Canonical) := by
  rcases h with hany | hhost | hblock
  · exact Or.inl hany
  · exact Or.inr ⟨hhost.comparable, hhost.canonical⟩
  · exact Or.inr ⟨hblock.comparable, hblock.canonical⟩

/-- What is read for something that was rendered: nothing has a network in the
16-byte form of IPv4, and it is what was rendered just if that had none. -/
structure ReadBack {α : Type} (mapped : α → Prop) (a b : α) : Prop where
  short : ¬ mapped b
  eq_iff : b = a ↔ ¬ mapped a

theorem dumpNetwork_renderNetwork {n : IPNet} (h : GeneratedNetwork n) :
    ∃ n', dumpNetwork (renderNetwork n) = some n' ∧
      ReadBack IPNet.Mapped n n' := by
  rcases generatedNetwork_cases h with rfl | ⟨hcomparable, hcanonical⟩
  · exact ⟨.any, rfl, by decide, by decide⟩
  · have hread := hcomparable.parseCIDR_string
    have hdump : dumpNetwork (renderNetwork n) = parseCIDR n.string := by
      have hlen : n.ip.length > 0 := by
        rcases hcomparable.valid with hlen | hlen
        · rw [hlen]
          decide
        · rw [hlen]
          decide
      have htext : n.string ≠ "" := by
        intro hempty
        rw [hempty] at hread
        cases hread
      rw [renderNetwork, if_pos hlen, dumpNetwork, if_pos htext]
    rw [hdump]
    by_cases hmapped : n.Mapped
    · refine ⟨_, hread, ?_⟩
      obtain ⟨ip4, hip4⟩ := Option.ne_none_iff_exists'.mp hmapped.2
      have hlen : (norm n.ip).length = 4 := by
        rw [Net.norm, hip4, Option.getD_some]
        exact to4_length hip4
      have hshort : ¬ IPNet.Mapped
          ⟨land (norm n.ip) (onesMask n.matchLen (norm n.ip).length),
            onesMask n.matchLen (norm n.ip).length⟩ := by
        intro hboth
        have hlen' := hboth.1
        simp [land_length, hlen] at hlen'
      refine ⟨hshort, iff_of_false ?_ (not_not.mpr hmapped)⟩
      intro heq
      rw [heq] at hshort
      exact hshort hmapped
    · refine ⟨n, ?_, hmapped, iff_of_true rfl hmapped⟩
      exact hcomparable.parseCIDR_string_iff.mpr (hcanonical hmapped)

/-! ## Rules -/

theorem dumpPort_renderPort (port : UInt16) :
    dumpPort (some (renderPort port)) = some port := by
  by_cases hport : port = 0
  · rw [hport]
    rfl
  · simp [dumpPort, renderPort, hport]

/-- A rule with an IPv4 network in the 16-byte form. -/
def HasMapped (rule : ContivRule) : Prop :=
  rule.srcNetwork.Mapped ∨ rule.destNetwork.Mapped

instance (rule : ContivRule) : Decidable (HasMapped rule) :=
  inferInstanceAs (Decidable (_ ∨ _))

theorem dumpRule_renderRule {rule : ContivRule} (h : HasGeneratedNetworks rule) :
    ∃ rule', dumpRule (renderRule rule) = .ok (some rule') ∧
      ReadBack HasMapped rule rule' := by
  obtain ⟨src, hsrc, hsrcBack⟩ := dumpNetwork_renderNetwork h.1
  obtain ⟨dest, hdest, hdestBack⟩ := dumpNetwork_renderNetwork h.2
  refine ⟨{ rule with srcNetwork := src, destNetwork := dest }, ?_, ?_, ?_⟩
  · have haction : dumpAction (if rule.action = .deny then .deny
        else .reflect) = some rule.action := by
      cases rule.action <;> rfl
    refine dumpRule_eq_some_iff.mpr
      ⟨_, ⟨some (renderPort rule.srcPort), some (renderPort rule.destPort)⟩,
        rfl, haction, rfl, hsrc, hdest, rfl, rfl, ?_,
        dumpPort_renderPort _, dumpPort_renderPort _⟩
    unfold IpRule.transport
    cases rule.protocol <;> rfl
  · exact not_or.mpr ⟨hsrcBack.short, hdestBack.short⟩
  · rw [HasMapped, not_or, ← hsrcBack.eq_iff, ← hdestBack.eq_iff]
    cases rule
    simp

theorem dumpRules_renderRules {rules : List ContivRule}
    (h : ∀ rule ∈ rules, HasGeneratedNetworks rule) :
    ∃ rules', dumpRules (renderRules (some rules)) = .ok rules' ∧
      List.Forall₂ (ReadBack HasMapped) rules rules' := by
  induction rules with
  | nil => exact ⟨[], rfl, .nil⟩
  | cons rule rules ih =>
      obtain ⟨rule', hrule, hback⟩ :=
        dumpRule_renderRule (h rule List.mem_cons_self)
      obtain ⟨rules', hrules, hall⟩ :=
        ih fun rule' hmem => h rule' (List.mem_cons_of_mem _ hmem)
      refine ⟨rule' :: rules', ?_, .cons hback hall⟩
      change dumpRules (renderRule rule :: renderRules (some rules)) = _
      rw [dumpRules_cons, hrule, hrules]
      rfl

theorem ReadBack.list {rules rules' : List ContivRule}
    (h : List.Forall₂ (ReadBack HasMapped) rules rules') :
    ReadBack (fun rules => ∃ rule ∈ rules, HasMapped rule) rules rules' := by
  induction h with
  | nil => exact ⟨by simp, by simp⟩
  | cons hrule _ ih =>
      constructor
      · intro hmapped
        obtain ⟨rule, hmem, hmapped⟩ := hmapped
        rcases List.mem_cons.mp hmem with rfl | hmem
        · exact hrule.short hmapped
        · exact ih.short ⟨rule, hmem, hmapped⟩
      · rw [List.cons_eq_cons, hrule.eq_iff, ih.eq_iff]
        simp

/-- Rules that `generateRules` can produce for policies with parsed blocks. -/
def Generated (rules : List ContivRule) : Prop :=
  ∃ lookupPod direction policies,
    (∀ policy ∈ policies, ∀ m ∈ policy.matchList, m.BlocksParsed) ∧
      generateRules lookupPod direction policies = some rules

theorem Generated.networks {rules : List ContivRule} (h : Generated rules) :
    ∀ rule ∈ rules, HasGeneratedNetworks rule := by
  obtain ⟨lookupPod, direction, policies, hparsed, hrules⟩ := h
  exact generateRules_networks hrules hparsed

/-! ## Lists -/

theorem dumpInterfaces_renderInterfaces (o : SetOrder String)
    (d : TrafficDirection) {set : InterfaceSet} (hne : set ≠ ∅) :
    dumpInterfaces (renderInterfaces o set d) = some (d, set) := by
  have hset := o.toFinset_order set
  have hlen : (o.order set).length > 0 := by
    rw [gt_iff_lt, List.length_pos_iff, ne_eq, ← List.toFinset_eq_empty_iff, hset]
    exact hne
  cases d with
  | ingress => simp only [renderInterfaces, dumpInterfaces, hlen, if_true, hset]
  | egress => simp [renderInterfaces, dumpInterfaces, hlen, hset]

section Lists

variable {o : SetOrder String} {d : TrafficDirection}
  {list : ContivRuleList Acl} {rules rules' : List ContivRule}

theorem dumpedAs_renderACL (hne : list.interfaces ≠ ∅)
    (hrules : dumpRules (renderRules list.rules) = .ok rules') :
    DumpedAs (renderACL o list d) d ⟨list.id, some rules', list.interfaces,
      some (renderACL o list d)⟩ := by
  have hifs : (renderACL o list d).interfaces >>= dumpInterfaces =
      some (d, list.interfaces) :=
    dumpInterfaces_renderInterfaces o d hne
  have hrules' : dumpRules (renderACL o list d).rules = .ok rules' := hrules
  simp only [DumpedAs, dumpACL, hifs, hrules']
  rfl

def kept (o : SetOrder String) (entry : TrafficDirection × ContivRuleList Acl) :
    ContivRuleList Acl :=
  { entry.2 with priv := some (renderACL o entry.2 entry.1) }

theorem dumpACL_kept (hlist : list.rules = some rules)
    (hgen : Generated rules) (hne : list.interfaces ≠ ∅)
    (hshort : ∀ rule ∈ rules, ¬ HasMapped rule) :
    dumpACL (renderACL o list d) = .ok (some (d, kept o (d, list))) := by
  obtain ⟨rules', hdump, hback⟩ := dumpRules_renderRules hgen.networks
  have heq : rules' = rules := by
    rw [(ReadBack.list hback).eq_iff]
    push Not
    exact hshort
  rw [← hlist, heq] at hdump
  have hdumped := dumpedAs_renderACL (o := o) (d := d) hne hdump
  rw [← hlist] at hdumped
  exact hdumped

theorem readBack_of_dumpedAs {d' : TrafficDirection} {list' : ContivRuleList Acl}
    (h : DumpedAs (renderACL o list d) d' list')
    (hlist : list.rules = some rules) (hgen : Generated rules) :
    ∃ rules', list'.rules = some rules' ∧
      ReadBack (fun rules => ∃ rule ∈ rules, HasMapped rule) rules rules' := by
  obtain ⟨rules', hdump, hrules'⟩ := h.dumpRules
  obtain ⟨rules₂, hdump₂, hback⟩ := dumpRules_renderRules hgen.networks
  have hsame : renderRules list.rules = renderRules (some rules) := by
    rw [hlist]
  change dumpRules (renderRules list.rules) = _ at hdump
  rw [hsame, hdump₂] at hdump
  obtain rfl := Except.ok.inj hdump
  exact ⟨_, hrules', ReadBack.list hback⟩

end Lists

/-- The list is what a dump of its ACL gives, up to `Compare`. -/
def RoundTrips (o : SetOrder String) (d : TrafficDirection)
    (list : ContivRuleList Acl) : Prop :=
  ∃ lists list', dumpVppACLConfig [renderACL o list d] = .ok lists ∧
    lists d = [list'] ∧ (∀ d', d' ≠ d → lists d' = []) ∧
    list'.id = list.id ∧ list'.interfaces = list.interfaces ∧
    List.Forall₂ (fun a b => a.compare b = .eq) (list.rules.getD [])
      (list'.rules.getD [])

/-! ## What VPP holds -/

def renderAll (o : SetOrder String)
    (held : List (TrafficDirection × ContivRuleList Acl)) : List Acl :=
  held.map fun entry => renderACL o entry.2 entry.1

theorem dump_renderAll {o : SetOrder String}
    {held : List (TrafficDirection × ContivRuleList Acl)}
    (h : ∀ entry ∈ held, dumpACL (renderACL o entry.2 entry.1) =
      .ok (some (entry.1, kept o entry))) :
    dumpVppACLConfig (renderAll o held) = .ok fun d =>
      (held.filter fun entry => entry.1 = d).map (kept o) := by
  have hmap : (renderAll o held).mapM dumpACL =
      .ok (held.map fun entry => some (entry.1, kept o entry)) := by
    rw [renderAll, List.mapM_map]
    exact mapM_eq_ok_map h
  have hreduce : (held.map fun entry =>
      some (entry.1, kept o entry)).reduceOption =
        held.map fun entry => (entry.1, kept o entry) := by
    have hsome := SlotArray.reduceOption_map_some
      (held.map fun entry => (entry.1, kept o entry))
    rwa [List.map_map] at hsome
  rw [dumpVppACLConfig, hmap]
  change Except.ok _ = _
  rw [hreduce]
  congr 1
  funext d
  rw [List.filter_map, List.map_map]
  rfl

theorem roundTrips_iff_short {o : SetOrder String} {d : TrafficDirection}
    {list : ContivRuleList Acl} {rules : List ContivRule}
    (hlist : list.rules = some rules) (hgen : Generated rules)
    (hne : list.interfaces ≠ ∅) :
    RoundTrips o d list ↔ ∀ rule ∈ rules, ¬ HasMapped rule := by
  constructor
  · intro h
    obtain ⟨lists, list', hdump, hd, _, _, _, hsame⟩ := h
    obtain ⟨acl, hacl, hdumped⟩ :=
      (mem_dump hdump).mp (hd ▸ List.mem_singleton_self list')
    rw [List.mem_singleton.mp hacl] at hdumped
    obtain ⟨rules', hrules', hback⟩ := readBack_of_dumpedAs hdumped hlist hgen
    rw [hlist, hrules'] at hsame
    simp only [Option.getD_some, ContivRule.compare_eq_iff,
      List.forall₂_eq_eq_eq] at hsame
    have hshort := hback.eq_iff.mp hsame.symm
    push Not at hshort
    exact hshort
  · intro hshort
    have hdump := @dump_renderAll o [(d, list)] (by
      intro entry hentry
      rw [List.mem_singleton.mp hentry]
      exact dumpACL_kept hlist hgen hne hshort)
    refine ⟨_, kept o (d, list), hdump, by simp, ?_, rfl, rfl, ?_⟩
    · intro d' hd'
      simp [Ne.symm hd']
    · change List.Forall₂ _ (list.rules.getD []) (list.rules.getD [])
      simp only [ContivRule.compare_eq_iff, List.forall₂_eq_eq_eq]

/-- The lists whose ACLs VPP holds, as the renderer makes them. -/
structure Held (held : List (TrafficDirection × ContivRuleList Acl)) : Prop where
  generated : ∀ entry ∈ held, ∃ rules, entry.2.rules = some rules ∧
    rules ≠ [] ∧ Generated rules
  assigned : ∀ entry ∈ held, entry.2.interfaces ≠ ∅
  named : ∀ entry ∈ held,
    trimPrefix (entry.1.string ++ "-") entry.2.id ≠ none
  distinct : held.Pairwise fun a b => a.1 = b.1 →
    a.2.id ≠ b.2.id ∧ a.2.rules ≠ b.2.rules ∧
      Disjoint a.2.interfaces b.2.interfaces

/-- The configuration has just the rules that VPP holds. -/
def Configures (config : Config)
    (held : List (TrafficDirection × ContivRuleList Acl)) : Prop :=
  ∀ d x rules, rules.getD [] ≠ [] → (Wants config d x rules ↔
      ∃ list, (d, list) ∈ held ∧ list.rules = rules ∧ x ∈ list.interfaces)

/-- A resync succeeds up to the point where changes are rendered, and there are
none. -/
def SendsNothing (c : ResyncChoices) (aclDump : List Acl) (config : Config)
    (cache : State Acl) : Prop :=
  ∃ lists st, dumpVppACLConfig aclDump = .ok lists ∧
    resync c.resync lists cache = .ok st ∧
    ∀ d, changesOf ((resyncCalls c config st).foldl update (st, newTxn)) d = []

section Unchanged

variable {config : Config} {aclDump : List Acl}
  {lists : TrafficDirection → List (ContivRuleList Acl)} {s : Txn}
  {upd : TrafficDirection → String → Option Rules} {d : TrafficDirection}
  {x : String}

theorem InResync.mem_previous_iff
    (h : InResync config aclDump lists s upd) {r : Ref}
    (hr : r ∈ (s.2.lists d).refs) :
    x ∈ previous s d r ↔ Owns lists d x (s.1.heap.lists r).rules := by
  rw [h.owner]
  constructor
  · intro hx
    unfold previous State.interfacesOf at hx
    split at hx
    next b hb =>
      obtain ⟨hmem, hid⟩ :=
        ((h.inTxn.pending d).baseWF.byID_iff _ b).mp hb
      exact ⟨b, hmem, hx, ((h.inTxn.pending d).id_iff r hr b hmem).mp hid⟩
    next => cases hx
  · rintro ⟨b, hb, hx, hrules⟩
    have hid := ((h.inTxn.pending d).id_iff r hr b hb).mpr hrules
    rw [previous_eq_of_id h.inTxn hb hid]
    exact hx

theorem InResync.owns_of_unchanged
    (h : InResync config aclDump lists s upd) {rules : Rules}
    (hne : rules.getD [] ≠ []) (hwants : Wants config d x rules)
    (hnone : ∀ r, ¬ Changed s d r) : Owns lists d x rules := by
  obtain ⟨r, hr, hrules, hx⟩ := h.exists_head hne hwants
  have hsame : (s.1.heap.lists r).interfaces = previous s d r := by
    by_contra hdiff
    exact hnone r ⟨hr, hrules ▸ hne, hdiff⟩
  rw [← hrules, ← h.mem_previous_iff hr, ← hsame]
  exact hx

end Unchanged

section Held

variable {c : ResyncChoices} {o : SetOrder String} {config : Config}
  {held : List (TrafficDirection × ContivRuleList Acl)} {cache : State Acl}

theorem Held.distinct_of_mem (h : Held held)
    {a b : TrafficDirection × ContivRuleList Acl} (ha : a ∈ held)
    (hb : b ∈ held) (hd : a.1 = b.1) {x : String}
    (hxa : x ∈ a.2.interfaces) (hxb : x ∈ b.2.interfaces) : a = b := by
  by_contra hne
  have hsymm : Std.Symm fun a b : TrafficDirection × ContivRuleList Acl =>
      a.1 = b.1 → Disjoint a.2.interfaces b.2.interfaces :=
    ⟨fun a b hab hba => (hab hba.symm).symm⟩
  have hpairwise : held.Pairwise fun a b =>
      a.1 = b.1 → Disjoint a.2.interfaces b.2.interfaces :=
    h.distinct.imp fun hab heq => (hab heq).2.2
  exact Finset.disjoint_left.mp (hpairwise.forall ha hb hne hd) hxa hxb

theorem Held.owns_kept_iff (h : Held held) {d : TrafficDirection}
    {x : String} {rules : Rules} :
    Owns (fun d => (held.filter fun entry => entry.1 = d).map (kept o)) d x
        rules ↔
      ∃ list, (d, list) ∈ held ∧ list.rules = rules ∧ x ∈ list.interfaces := by
  have hmem : ∀ list', list' ∈ (held.filter fun entry => entry.1 = d).map
      (kept o) ↔ ∃ list, (d, list) ∈ held ∧ kept o (d, list) = list' := by
    intro list'
    simp only [List.mem_map, List.mem_filter, decide_eq_true_eq]
    constructor
    · rintro ⟨entry, ⟨hentry, hd⟩, hkept⟩
      subst hd
      exact ⟨entry.2, hentry, hkept⟩
    · rintro ⟨list, hlist, hkept⟩
      exact ⟨(d, list), ⟨hlist, rfl⟩, hkept⟩
  rw [Owns, Option.map_eq_some_iff]
  constructor
  · rintro ⟨list', hlast, hrules⟩
    obtain ⟨hlist', hx⟩ := mem_of_lastWith hlast
    obtain ⟨list, hlist, rfl⟩ := (hmem list').mp hlist'
    exact ⟨list, hlist, hrules, hx⟩
  · rintro ⟨list, hlist, hrules, hx⟩
    obtain ⟨list', hlast⟩ := exists_lastWith ((hmem _).mpr ⟨list, hlist, rfl⟩) hx
    refine ⟨list', hlast, ?_⟩
    obtain ⟨hlist', hx'⟩ := mem_of_lastWith hlast
    obtain ⟨list₂, hlist₂, rfl⟩ := (hmem list').mp hlist'
    have heq := h.distinct_of_mem hlist₂ hlist rfl hx' hx
    rw [← hrules, ← (Prod.mk.inj heq).2]
    rfl

theorem Held.exists_resync (h : Held held) (c : ResyncChoices)
    (o : SetOrder String) (cache : State Acl) :
    ∃ st, resync c.resync (fun d =>
      (held.filter fun entry => entry.1 = d).map (kept o)) cache = .ok st := by
  have hpairwise : ∀ {R : ContivRuleList Acl → ContivRuleList Acl → Prop},
      (held.Pairwise fun a b => a.1 = b.1 → R (kept o a) (kept o b)) →
      ∀ d, ((held.filter fun entry => entry.1 = d).map (kept o)).Pairwise R := by
    intro R hR d
    rw [List.pairwise_map, List.pairwise_filter]
    refine hR.imp fun hab ha hb => hab ?_
    rw [of_decide_eq_true ha, of_decide_eq_true hb]
  refine resync_ok _ _ ?_ ?_ ?_
  · intro d list' hlist'
    obtain ⟨entry, hentry, rfl⟩ := List.mem_map.mp hlist'
    obtain ⟨hentry, hd⟩ := List.mem_filter.mp hentry
    rw [← of_decide_eq_true hd]
    exact h.named entry hentry
  · intro d
    rw [List.Nodup, List.pairwise_map]
    exact hpairwise (h.distinct.imp fun hab heq => (hab heq).1) d
  · intro d
    rw [List.Nodup, List.pairwise_map]
    exact hpairwise (h.distinct.imp fun hab heq => (hab heq).2.1) d

theorem Held.sendsNothing_iff (h : Held held) (hconfig : Configures config held) :
    SendsNothing c (renderAll o held) config cache ↔
      ∀ entry ∈ held, ∀ rule ∈ entry.2.rules.getD [], ¬ HasMapped rule := by
  constructor
  · intro hnothing entry hentry rule hrule hmapped
    obtain ⟨lists, st, hdump, hresync, hnone⟩ := hnothing
    have hin := @inResync c config _ lists cache st hdump hresync
    obtain ⟨d, list⟩ := entry
    obtain ⟨rules, hrules, hne, _⟩ := h.generated _ hentry
    have hne' : list.rules.getD [] ≠ [] := by
      rw [show list.rules = some rules from hrules]
      exact hne
    obtain ⟨x, hx⟩ := Finset.nonempty_iff_ne_empty.mpr (h.assigned _ hentry)
    have howns := hin.owns_of_unchanged hne'
      ((hconfig d x _ hne').mpr ⟨list, hentry, rfl, hx⟩)
      (changesOf_eq_nil_iff.mp (hnone d))
    rw [Owns, Option.map_eq_some_iff] at howns
    obtain ⟨list', hlast, hlist'⟩ := howns
    -- The ACL that the last list with the interface comes from is some other
    -- one, and has been read without the 16-byte form.
    obtain ⟨acl, hacl, hdumped⟩ :=
      (mem_dump hdump).mp (mem_of_lastWith hlast).1
    obtain ⟨entry', hentry', rfl⟩ := List.mem_map.mp hacl
    obtain ⟨rules₂, hrules₂, _, hgen⟩ := h.generated entry' hentry'
    obtain ⟨rules', hrules', hback⟩ :=
      readBack_of_dumpedAs hdumped hrules₂ hgen
    refine hback.short ⟨rule, ?_, hmapped⟩
    change rule ∈ list.rules.getD [] at hrule
    rw [← hlist', hrules'] at hrule
    exact hrule
  · intro hshort
    have hdump := @dump_renderAll o held fun entry hentry => by
      obtain ⟨rules, hrules, _, hgen⟩ := h.generated entry hentry
      refine dumpACL_kept hrules hgen (h.assigned entry hentry) ?_
      have hentry := hshort entry hentry
      rw [hrules] at hentry
      exact hentry
    obtain ⟨st, hresync⟩ := h.exists_resync c o cache
    have hin := @inResync c config _ _ cache st hdump hresync
    refine ⟨_, st, hdump, hresync, fun d => ?_⟩
    rw [changesOf_eq_nil_iff]
    intro r hchanged
    refine hchanged.2.2 (Finset.ext fun x => ?_)
    rw [hin.mem_interfaces_iff_wants hchanged.1 hchanged.2.1,
      hin.mem_previous_iff hchanged.1, h.owns_kept_iff]
    exact hconfig d x _ hchanged.2.1

end Held

/-- Dumping the ACL of a generated list gives the list back, and a resync with
what VPP holds sends nothing, just if no network of the rules is an IPv4
network in the 16-byte form. -/
theorem roundTrips_and_sendsNothing_iff (c : ResyncChoices)
    (o : SetOrder String) :
    (∀ (d : TrafficDirection) (list : ContivRuleList Acl)
      (rules : List ContivRule),
      list.rules = some rules → Generated rules → list.interfaces ≠ ∅ →
        (RoundTrips o d list ↔ ∀ rule ∈ rules, ¬ HasMapped rule)) ∧
    ∀ (config : Config) (cache : State Acl)
      (held : List (TrafficDirection × ContivRuleList Acl)),
      Held held → Configures config held →
        (SendsNothing c (renderAll o held) config cache ↔
          ∀ entry ∈ held, ∀ rule ∈ entry.2.rules.getD [], ¬ HasMapped rule) := by
  constructor
  · intro d list rules hlist hgen hne
    exact roundTrips_iff_short hlist hgen hne
  · intro config cache held hheld hconfig
    exact hheld.sendsNothing_iff hconfig

/-! ## A peer with an IPv4 address -/

def peerPods : LookupPod :=
  fun pod => (true, some ⟨pod.name, pod.ns, [], "10.1.1.1"⟩)

def fromPeer : ContivPolicy where
  id := ⟨"from-peer", "default"⟩
  type := .ingress
  matchList := [⟨.ingress, some [⟨"client", "default"⟩], none, []⟩]

/-- The address of the peer in the form that `ParseIP` gives it. -/
def peerNetwork : IPNet :=
  ⟨[0, 0, 0, 0, 0, 0, 0, 0, 0, 0, 255, 255, 10, 1, 1, 1], [255, 255, 255, 255]⟩

def peerRules : List ContivRule :=
  [⟨"default/from-peer-default/client-TCP:ANY", .permit, peerNetwork, .any,
      .tcp, 0, 0⟩,
    ⟨"default/from-peer-default/client-UDP:ANY", .permit, peerNetwork, .any,
      .udp, 0, 0⟩] ++ denyTheRest

theorem generateRules_fromPeer :
    generateRules peerPods .ingress [fromPeer] = some peerRules := by
  decide +kernel

theorem generated_peerRules : Generated peerRules := by
  refine ⟨peerPods, .ingress, [fromPeer], ?_, generateRules_fromPeer⟩
  intro policy hpolicy m hm block hblock
  rw [List.mem_singleton.mp hpolicy] at hm
  rw [List.mem_singleton.mp hm] at hblock
  cases hblock

def tapList (rules : List ContivRule) : ContivRuleList Acl :=
  ⟨"ingress-1F", some rules, {"tap1"}, none⟩

def tapConfig (rules : List ContivRule) : Config :=
  AList.insert "tap1" ⟨some rules, none⟩ ∅

section Tap

variable {rules : List ContivRule}

theorem held_tapList (hne : rules ≠ []) (hgen : Generated rules) :
    Held [(.ingress, tapList rules)] where
  generated entry hentry := by
    rw [List.mem_singleton.mp hentry]
    exact ⟨rules, rfl, hne, hgen⟩
  assigned entry hentry := by
    rw [List.mem_singleton.mp hentry]
    exact Finset.singleton_ne_empty "tap1"
  named entry hentry := by
    rw [List.mem_singleton.mp hentry]
    change trimPrefix (TrafficDirection.ingress.string ++ "-") "ingress-1F" ≠
      none
    decide
  distinct := List.pairwise_singleton _ _

theorem configures_tapList :
    Configures (tapConfig rules) [(.ingress, tapList rules)] := by
  intro d x rules' hne
  simp only [List.mem_singleton, Prod.mk.injEq]
  have hlookup : (tapConfig rules).lookup x =
      if x = "tap1" then some ⟨some rules, none⟩ else none := by
    by_cases hx : x = "tap1"
    · rw [hx, if_pos rfl]
      exact AList.lookup_insert ∅
    · rw [if_neg hx]
      exact AList.lookup_insert_ne hx
  rw [Wants, hlookup]
  constructor
  · intro hwants
    split_ifs at hwants with hx
    · have hrules := Option.some.inj hwants
      cases d with
      | ingress =>
          exact ⟨tapList rules, ⟨rfl, rfl⟩, hrules,
            hx ▸ Finset.mem_singleton_self "tap1"⟩
      | egress =>
          rw [← hrules] at hne
          exact absurd rfl hne
    · cases hwants
  · rintro ⟨list, ⟨hd, hlist⟩, hrules, hx⟩
    subst hd hlist
    rw [if_pos (Finset.mem_singleton.mp hx), ← hrules]
    rfl

end Tap

/-- The ACL for a peer with an IPv4 address is dumped as other rules, and a
resync with the same rules is not without changes. -/
theorem peerRules_sent_again :
    generateRules peerPods .ingress [fromPeer] = some peerRules ∧
      ¬ RoundTrips .sorted .ingress (tapList peerRules) ∧
      ¬ SendsNothing resyncChoices
        [renderACL .sorted (tapList peerRules) .ingress]
        (tapConfig peerRules) init := by
  have hmapped : ¬ ∀ rule ∈ peerRules, ¬ HasMapped rule := by decide
  refine ⟨generateRules_fromPeer, ?_, ?_⟩
  · rw [roundTrips_iff_short rfl generated_peerRules
      (Finset.singleton_ne_empty "tap1")]
    exact hmapped
  · intro hnothing
    exact hmapped (((held_tapList (by decide) generated_peerRules
      ).sendsNothing_iff configures_tapList).mp hnothing _
        (List.mem_singleton_self _))

/-! ## A block of addresses -/

def fromBlock : ContivPolicy where
  id := ⟨"from-block", "default"⟩
  type := .ingress
  matchList := [⟨.ingress, none, some [⟨⟨[10, 2, 0, 0], [255, 255, 0, 0]⟩,
      [⟨[10, 2, 0, 0], [255, 255, 128, 0]⟩]⟩], []⟩]

def halfBlock : IPNet := ⟨[10, 2, 128, 0], [255, 255, 128, 0]⟩

def blockRules : List ContivRule :=
  [⟨"default/from-block-10.2.128.0/17-TCP:ANY", .permit, halfBlock, .any,
      .tcp, 0, 0⟩,
    ⟨"default/from-block-10.2.128.0/17-UDP:ANY", .permit, halfBlock, .any,
      .udp, 0, 0⟩] ++ denyTheRest

theorem generated_blockRules : Generated blockRules := by
  refine ⟨peerPods, .ingress, [fromBlock], ?_, by decide +kernel⟩
  intro policy hpolicy m hm block hblock
  rw [List.mem_singleton.mp hpolicy] at hm
  rw [List.mem_singleton.mp hm] at hblock
  rw [List.mem_singleton.mp hblock]
  refine ⟨⟨"10.2.0.0/16", by decide +kernel⟩, fun e he => ?_⟩
  rw [List.mem_singleton.mp he]
  exact ⟨"10.2.0.0/17", by decide +kernel⟩

theorem roundTrips_and_sendsNothing_blockRules :
    RoundTrips .sorted .ingress (tapList blockRules) ∧
    SendsNothing resyncChoices [renderACL .sorted (tapList blockRules) .ingress]
      (tapConfig blockRules) init :=
  have hiff := roundTrips_and_sendsNothing_iff resyncChoices .sorted
  have hshort : ∀ rule ∈ blockRules, ¬ HasMapped rule := by decide
  ⟨(hiff.1 .ingress (tapList blockRules) blockRules rfl generated_blockRules
      (Finset.singleton_ne_empty "tap1")).mpr hshort,
    (hiff.2 (tapConfig blockRules) init [(.ingress, tapList blockRules)]
      (held_tapList (by decide) generated_blockRules)
      configures_tapList).mpr fun entry hentry => by
        rw [List.mem_singleton.mp hentry]
        exact hshort⟩

end ContivVPP.AclRenderer
