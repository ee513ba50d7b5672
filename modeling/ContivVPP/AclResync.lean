import Mathlib.Data.List.ReduceOption
import ContivVPP.AclRendererRun

/-!
# Resync of the ACL renderer

A resync transaction dumps the ACLs of VPP, translates them back into lists of
rules for the cache, and then renders the configuration against these lists,
with no rules for the interfaces that it does not mention.

The cache lets an interface be in one list only.  If several dumped ACLs list
it, all but the last lose it in the cache, but not in VPP.
-/

namespace ContivVPP.AclRenderer

open Net ContivVPP.Renderer GoMap RuleCache PartialLoops

/-! ## Dumping -/

def dumpAction : AclAction → Option ActionType
  | .reflect => some .permit
  | .deny => some .deny
  | .permit => none

def dumpNetwork (text : String) : Option IPNet :=
  if text ≠ "" then parseCIDR text else some .any

/-- A range is a single port or all of them, or the rule is skipped. -/
def dumpPort : Option PortRange → Option UInt16
  | none => some 0
  | some range =>
      if range.lowerPort ≠ range.upperPort ∧
          (range.lowerPort ≠ 0 ∨ range.upperPort ≠ maxPortNum) then none
      else some range.lowerPort.toUInt16

def dumpPorts (id : String) (action : ActionType) (src dest : IPNet)
    (protocol : ProtocolType) (ranges : PortRanges) : Option ContivRule := do
  let srcPort ← dumpPort ranges.sourcePortRange
  let destPort ← dumpPort ranges.destinationPortRange
  return ⟨id, action, src, dest, protocol, srcPort, destPort⟩

/-- The rule for an ACL rule, none if the ACL rule is skipped.  A rule without
ports of TCP or UDP makes the code dereference a nil pointer. -/
def dumpRule (aclRule : AclRule) : Except Failure (Option ContivRule) :=
  let head := do
    let action ← aclRule.actions >>= dumpAction
    let aclMatches ← aclRule.aclMatches
    let ipRule ← aclMatches.ipRule
    let src ← ipRule.ip.elim (some IPNet.any) fun ip =>
      dumpNetwork ip.sourceNetwork
    let dest ← ipRule.ip.elim (some IPNet.any) fun ip =>
      dumpNetwork ip.destinationNetwork
    if ipRule.icmp || ipRule.other then none
    else some (action, src, dest, ipRule)
  match head with
  | none => .ok none
  | some (action, src, dest, ipRule) =>
      match ipRule.tcp, ipRule.udp with
      | some tcp, _ =>
          .ok (dumpPorts aclRule.ruleName action src dest .tcp tcp.toPortRanges)
      | none, some udp =>
          .ok (dumpPorts aclRule.ruleName action src dest .udp udp)
      | none, none => .error .panic

def dumpRules (rules : List AclRule) : Except Failure (List ContivRule) := do
  let dumped ← rules.mapM dumpRule
  return dumped.reduceOption

def dumpInterfaces (interfaces : AclInterfaces) :
    Option (TrafficDirection × InterfaceSet) :=
  if interfaces.ingress.length > 0 then
    some (.ingress, interfaces.ingress.toFinset)
  else if interfaces.egress.length > 0 then
    some (.egress, interfaces.egress.toFinset)
  else none

def dumpACL (acl : Acl) :
    Except Failure (Option (TrafficDirection × ContivRuleList Acl)) :=
  match acl.interfaces >>= dumpInterfaces with
  | none => .ok none
  | some (direction, interfaces) => do
      let rules ← dumpRules acl.rules
      return some (direction, ⟨acl.aclName, some rules, interfaces, some acl⟩)

def dumpVppACLConfig (aclDump : List Acl) :
    Except Failure (TrafficDirection → List (ContivRuleList Acl)) := do
  let dumped ← aclDump.mapM dumpACL
  return fun direction =>
    (dumped.reduceOption.filter fun entry => entry.1 = direction).map Prod.snd

/-! ## The transaction -/

structure ResyncChoices extends CommitChoices where
  resync : SetOrder String
  rest : SetOrder String

def emptyCalls (c : ResyncChoices) (s : Txn) : List UpdateCall :=
  ((c.rest.order s.1.cache.allInterfaces).filter fun ifName =>
    ifName ∉ s.2.interfaces).map fun ifName =>
      ⟨ifName, fun _ => some [], c.update ifName⟩

def commitResync (c : ResyncChoices) (aclDump : List Acl) (config : Config)
    (r : Renderer) : Except Failure Renderer := do
  let dumped ← dumpVppACLConfig aclDump
  match resync c.resync dumped r.cache with
  | .error message => .error (.error message)
  | .ok cache =>
      let s := ((range c.config config).map
        (updateCall c.toCommitChoices)).foldl update (cache, newTxn)
      renderAndSave c.toCommitChoices r.vpp ((emptyCalls c s).foldl update s)

/-! ## What a dump has -/

def DumpedAs (acl : Acl) (d : TrafficDirection)
    (list : ContivRuleList Acl) : Prop :=
  dumpACL acl = .ok (some (d, list))

section Dump

variable {acl : Acl} {aclDump : List Acl} {d : TrafficDirection}
  {list : ContivRuleList Acl}
  {lists : TrafficDirection → List (ContivRuleList Acl)}

theorem mem_dump (hdump : dumpVppACLConfig aclDump = .ok lists) :
    list ∈ lists d ↔ ∃ acl ∈ aclDump, DumpedAs acl d list := by
  rw [dumpVppACLConfig, bind_eq_ok_iff] at hdump
  obtain ⟨dumped, hdumped, hlists⟩ := hdump
  injection hlists with hlists
  simp only [← hlists, List.mem_map, List.mem_filter, decide_eq_true_eq,
    List.reduceOption_mem_iff, mem_of_mapM_eq_ok hdumped]
  constructor
  · rintro ⟨entry, ⟨hacl, hd⟩, hlist⟩
    obtain ⟨d', list'⟩ := entry
    rw [← hd, ← hlist]
    exact hacl
  · intro hacl
    exact ⟨(d, list), ⟨hacl, rfl⟩, rfl⟩

theorem dumpInterfaces_eq_none {interfaces : AclInterfaces}
    (h : dumpInterfaces interfaces = none) (d : TrafficDirection) :
    interfaces.of d = [] := by
  unfold dumpInterfaces at h
  split_ifs at h with hin hout
  simp only [gt_iff_lt, List.length_pos_iff, ne_eq, not_not] at hin hout
  cases d
  · exact hin
  · exact hout

theorem dumpInterfaces_eq_some {interfaces : AclInterfaces}
    {set : InterfaceSet} (h : dumpInterfaces interfaces = some (d, set)) :
    set ≠ ∅ ∧ set = (interfaces.of d).toFinset := by
  have hne : ∀ {xs : List String}, xs.length > 0 → xs.toFinset ≠ ∅ := by
    intro xs hlen
    rw [ne_eq, List.toFinset_eq_empty_iff]
    exact List.length_pos_iff.mp hlen
  unfold dumpInterfaces at h
  split_ifs at h with hin hout
  · cases h
    exact ⟨hne hin, rfl⟩
  · cases h
    exact ⟨hne hout, rfl⟩

theorem not_lists_of_skipped (h : dumpACL acl = .ok none) (x : String) :
    ¬ acl.Lists d x := by
  rintro ⟨interfaces, hifs, hx⟩
  rw [dumpACL, hifs] at h
  have hbind : (some interfaces >>= dumpInterfaces) =
    dumpInterfaces interfaces := rfl
  rw [hbind] at h
  cases hdump : dumpInterfaces interfaces with
  | none =>
      rw [dumpInterfaces_eq_none hdump d] at hx
      simp at hx
  | some entry =>
      rw [hdump] at h
      simp only [bind_eq_ok_iff] at h
      obtain ⟨rules, _, hrules⟩ := h
      injection hrules with hrules
      simp at hrules

theorem DumpedAs.spec (h : DumpedAs acl d list) :
    list.id = acl.aclName ∧ list.priv = some acl ∧ list.interfaces ≠ ∅ ∧
      ∀ x, x ∈ list.interfaces ↔ acl.Lists d x := by
  unfold DumpedAs dumpACL at h
  cases hifs : acl.interfaces with
  | none => simp [hifs] at h
  | some interfaces =>
      rw [hifs] at h
      have hbind : (some interfaces >>= dumpInterfaces) =
        dumpInterfaces interfaces := rfl
      rw [hbind] at h
      cases hdump : dumpInterfaces interfaces with
      | none => simp [hdump] at h
      | some entry =>
          obtain ⟨d', set⟩ := entry
          rw [hdump] at h
          simp only [bind_eq_ok_iff] at h
          obtain ⟨rules, _, hrules⟩ := h
          injection hrules with hrules
          injection hrules with hrules
          injection hrules with hd hlist
          rw [hd] at hdump
          obtain ⟨hne, hset⟩ := dumpInterfaces_eq_some hdump
          rw [← hlist]
          refine ⟨rfl, rfl, hne, fun x => ?_⟩
          simp [Acl.Lists, hifs, hset]

theorem exists_dumpedAs (hdump : dumpVppACLConfig aclDump = .ok lists)
    (hacl : acl ∈ aclDump) {x : String} (hlists : acl.Lists d x) :
    ∃ d' list, DumpedAs acl d' list := by
  rw [dumpVppACLConfig, bind_eq_ok_iff] at hdump
  obtain ⟨dumped, hdumped, _⟩ := hdump
  obtain ⟨entry, hentry⟩ := exists_ok_of_mapM hdumped hacl
  cases entry with
  | none => exact absurd hlists (not_lists_of_skipped hentry x)
  | some entry => exact ⟨entry.1, entry.2, hentry⟩

end Dump

end ContivVPP.AclRenderer
