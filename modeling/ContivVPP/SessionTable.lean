import ContivVPP.BestMatch
import ContivVPP.SessionRule

/-!
# What session tables decide

VPP looks a session up in a table: of the rules that match, one with the
longest remote prefix decides, and among those one with an explicit port.  If
there is a tie between rules that allow and rules that deny, either may
decide.  A session that no rule matches is allowed.

A list of Contiv rules is compiled into such a table rule by rule.  What the
table decides can be read off the Contiv rules: each has a rank, which is that
of the session rules made from it, and it covers the sessions that these
match.
-/

namespace ContivVPP.SessionCache

open Net Renderer ByteBits BestMatch

/-! ## Looking up a session -/

structure Session where
  lclIP : IP
  rmtIP : IP
  protocol : ProtocolType
  lclPort : UInt16
  rmtPort : UInt16

def prefixMatches (bytes : Bytes 16) (plen : UInt8) (ip : IP) : Bool :=
  (bits bytes.toList).take plen.toNat == (bits ip).take plen.toNat

def SessionRule.matchesSession (rule : SessionRule) (s : Session) : Bool :=
  (rule.isIP4 == if s.rmtIP.length = 4 then 1 else 0) &&
    rule.transportProto == SessionCache.transportProto s.protocol &&
    prefixMatches rule.lclIP rule.lclPlen s.lclIP &&
    prefixMatches rule.rmtIP rule.rmtPlen s.rmtIP &&
    portMatches rule.lclPort s.lclPort &&
    portMatches rule.rmtPort s.rmtPort

-- The prefix comes first, and an explicit port decides between equal ones.
def SessionRule.rank (rule : SessionRule) : ℕ :=
  2 * rule.rmtPlen.toNat +
    if rule.lclPort = 0 ∧ rule.rmtPort = 0 then 0 else 1

def TableDecides (table : List SessionRule) (s : Session) (allow : Bool) : Prop :=
  Decides (fun r => r.matchesSession s = true) SessionRule.rank
    (fun r => r.actionIndex == ruleActionAllow) table allow

/-! ## Addresses of session rules -/

theorem take_bits_copyBytes {n : ℕ} {dst : Bytes n} {src : List UInt8}
    {len : ℕ} (hsrc : src.length ≤ n) (hlen : len ≤ 8 * src.length) :
    (bits (copyBytes dst src).toList).take len = (bits src).take len := by
  have htake : (src ++ dst.toList.drop src.length).take n =
      src ++ (dst.toList.drop src.length).take (n - src.length) := by
    rw [List.take_append, List.take_of_length_le hsrc]
  change (bits ((src ++ dst.toList.drop src.length).take n)).take len = _
  rw [htake, bits_append, List.take_append_of_le_length]
  rw [bits_length]
  exact hlen

theorem toNat_maskOnes {mask : IPMask} (h : (maskSize mask).1 ≤ 128) :
    (maskOnes mask).toNat = (maskSize mask).1 := by
  rw [maskOnes, Nat.toUInt8, UInt8.toNat_ofNat']
  omega

section Network

variable {n : IPNet}

theorem prefixLen_le_128 (h : n.FamilyMask) : n.prefixLen ≤ 128 := by
  have hle := h.prefixLen_le
  rcases norm_length h.valid with hlen | hlen <;> omega

theorem prefixMatches_networkBytes (h : n.FamilyMask) (hne : n.ip ≠ [])
    {isIP4 : Bool} {src : List UInt8}
    (hsrc : (if isIP4 then to4 n.ip else to16 n.ip) = some src)
    (hlen : src.length ≤ 16) (hfit : n.prefixLen ≤ 8 * src.length) (x : IP) :
    prefixMatches (networkBytes n isIP4).1 (networkBytes n isIP4).2 x =
      ((bits src).take n.prefixLen == (bits x).take n.prefixLen) := by
  have hpos : n.ip.length > 0 := List.length_pos_iff.mpr hne
  have hplen : (maskOnes n.mask).toNat = n.prefixLen :=
    toNat_maskOnes (prefixLen_le_128 h)
  rw [networkBytes, if_pos hpos, hsrc, prefixMatches, hplen, Option.getD_some,
    take_bits_copyBytes hlen hfit]

theorem prefixMatches_network (h : n.FamilyMask) (hne : n.ip ≠ []) {x : IP}
    (hx : (norm x).length = (norm n.ip).length) :
    prefixMatches (networkBytes n (to4 n.ip).isSome).1
        (networkBytes n (to4 n.ip).isSome).2 (norm x) = true ↔
      n.contains x = true := by
  have hle := h.prefixLen_le
  have hsrc : (if (to4 n.ip).isSome then to4 n.ip else to16 n.ip) =
      some (norm n.ip) := by
    cases hto4 : to4 n.ip with
    | some b => simp [Net.norm, hto4]
    | none =>
        have hlen : n.ip.length = 16 := by
          rcases h.valid with h4 | h16
          · rw [to4_of_length_four h4] at hto4
            simp at hto4
          · exact h16
        simp [Net.norm, hto4, to16, hlen, ipv4Len, ipv6Len]
  have hlen : (norm n.ip).length ≤ 16 := by
    rcases norm_length h.valid with hlen | hlen <;> omega
  rw [prefixMatches_networkBytes h hne hsrc hlen hle, beq_iff_eq, h.contains_iff]
  simp [hx]

/-- An IPv4 network in a rule for IPv6 stands for the addresses that start
with as many zeros as its prefix is long. -/
theorem prefixMatches_foreign (h : n.FamilyMask)
    (hto4 : (to4 n.ip).isSome = true) (x : IP) :
    prefixMatches (networkBytes n false).1 (networkBytes n false).2 x =
      (List.replicate n.prefixLen false == (bits x).take n.prefixLen) := by
  obtain ⟨b, hb⟩ := Option.isSome_iff_exists.mp hto4
  have hle : n.prefixLen ≤ 32 := by
    have hle := h.prefixLen_le
    have hlen := to4_length hb
    rw [Net.norm, hb, Option.getD_some, hlen] at hle
    exact hle
  have hsrc : to16 n.ip = some (v4InV6Prefix ++ b) := by
    unfold to4 ipv4Len ipv6Len at hb
    unfold to16 ipv4Len ipv6Len
    split_ifs at hb with h4 h16
    · simp only [Option.some.injEq] at hb
      rw [if_pos h4, hb]
    · simp only [Option.some.injEq] at hb
      rw [if_neg h4, if_pos h16.1, ← hb, ← h16.2, List.take_append_drop]
  have hne : n.ip ≠ [] := by
    intro hnil
    simp [hnil, to4, ipv4Len, ipv6Len] at hto4
  have hlen : (v4InV6Prefix ++ b).length = 16 := by
    simp [to4_length hb, v4InV6Prefix]
  have hzeros : (bits (v4InV6Prefix ++ b)).take n.prefixLen =
      List.replicate n.prefixLen false := by
    have hpre : (bits v4InV6Prefix).take 32 = List.replicate 32 false := by
      decide
    rw [bits_append, List.take_append_of_le_length (by simp [v4InV6Prefix]; omega)]
    have htake := congrArg (List.take n.prefixLen) hpre
    rw [List.take_take, min_eq_left hle, List.take_replicate,
      min_eq_left hle] at htake
    exact htake
  have hsrc' : (if false = true then to4 n.ip else to16 n.ip) =
      some (v4InV6Prefix ++ b) := by
    simpa using hsrc
  rw [prefixMatches_networkBytes h hne hsrc' hlen.le (by omega), hzeros]

end Network

theorem isSome_to4_iff {ip : IP} (h : ValidIP ip) :
    (to4 ip).isSome = true ↔ (norm ip).length = 4 := by
  cases hto4 : to4 ip with
  | some b => simp [Net.norm, hto4, to4_length hto4]
  | none =>
      have hlen : ip.length = 16 := by
        rcases h with h4 | h16
        · rw [to4_of_length_four h4] at hto4
          simp at hto4
        · exact h16
      simp [Net.norm, hto4, hlen]

theorem prefixMatches_halves {x : IP} (hx : x ≠ []) :
    prefixMatches (zeroBytes 16) 1 x = true ∨
      prefixMatches (copyBytes (zeroBytes 16) [0x80]) 1 x = true := by
  cases x with
  | nil => exact absurd rfl hx
  | cons b x =>
      have hlower : (bits (zeroBytes 16).toList).take 1 = [false] := by decide
      have hupper : (bits (copyBytes (zeroBytes 16) [0x80]).toList).take 1 =
          [true] := by
        decide
      have hone : (1 : UInt8).toNat = 1 := rfl
      have hfirst : ∃ bit, (bits (b :: x)).take 1 = [bit] := by
        rw [bits_cons, List.take_append_of_le_length (by simp)]
        exact ⟨_, rfl⟩
      obtain ⟨bit, hbit⟩ := hfirst
      simp only [prefixMatches, hone, hlower, hupper, hbit]
      cases bit <;> simp

/-! ## Contiv rules as the table sees them -/

/-- The direction of the traffic from the point of view of the switch: the
pod sends ingress traffic and receives egress traffic. -/
inductive Direction where
  | ingress
  | egress
  deriving DecidableEq

namespace Direction

def remoteNetwork : Direction → ContivRule → IPNet
  | .ingress => ContivRule.destNetwork
  | .egress => ContivRule.srcNetwork

def ownNetwork : Direction → ContivRule → IPNet
  | .ingress => ContivRule.srcNetwork
  | .egress => ContivRule.destNetwork

def remoteIP : Direction → Traffic → IP
  | .ingress => Traffic.destIP
  | .egress => Traffic.srcIP

def ownIP : Direction → Traffic → IP
  | .ingress => Traffic.srcIP
  | .egress => Traffic.destIP

def session (dir : Direction) (t : Traffic) : Session :=
  match dir with
  | .ingress => ⟨norm t.srcIP, norm t.destIP, t.protocol, t.srcPort, t.destPort⟩
  | .egress => ⟨norm t.destIP, norm t.srcIP, t.protocol, t.destPort, t.srcPort⟩

end Direction

/-- Traffic of the pod with a peer that has an address of the same
version. -/
structure OfPod (dir : Direction) (podIP : IPNet) (t : Traffic) : Prop where
  own : norm (dir.ownIP t) = norm podIP.ip
  version : (norm (dir.remoteIP t)).length = (norm podIP.ip).length

structure RuleOf (dir : Direction) (rule : ContivRule) : Prop where
  own : (dir.ownNetwork rule).ip = []
  srcPort : rule.srcPort = 0
  remote : (dir.remoteNetwork rule).ip = [] ∨ (dir.remoteNetwork rule).FamilyMask

def convertRule (md5Hash : String → String) (dir : Direction)
    (nsIndex : UInt32) (podIP : IPNet) (tagPrefix : String)
    (rule : ContivRule) : List SessionRule :=
  match dir with
  | .ingress => convertIngressRule md5Hash nsIndex tagPrefix rule
  | .egress => convertEgressRule md5Hash nsIndex podIP tagPrefix rule

def isSkipped (dir : Direction) (rule : ContivRule) : Bool :=
  (dir.remoteNetwork rule).ip.isEmpty && rule.destPort == 0 &&
    rule.action == .permit

def ruleRank (dir : Direction) (rule : ContivRule) : ℕ :=
  2 * (if (dir.remoteNetwork rule).ip = [] then 1
    else (dir.remoteNetwork rule).prefixLen) +
    if rule.destPort = 0 then 0 else 1

/-- An IPv4 source in an egress rule of an IPv6 pod, which ends up as a prefix
of zeros that long. -/
def coversForeign (podIP : IPNet) (rule : ContivRule) (t : Traffic) : Bool :=
  (to4 podIP.ip).isNone && (to4 rule.srcNetwork.ip).isSome &&
    List.replicate rule.srcNetwork.prefixLen false ==
      (bits (norm t.srcIP)).take rule.srcNetwork.prefixLen &&
    rule.protocol == t.protocol && portMatches rule.destPort t.destPort

def covers (dir : Direction) (podIP : IPNet) (rule : ContivRule)
    (t : Traffic) : Bool :=
  rule.matchesTraffic t || (dir == .egress && coversForeign podIP rule t)

theorem matchesSession_iff {r : SessionRule} {s : Session} :
    r.matchesSession s = true ↔ (r.isIP4 = if s.rmtIP.length = 4 then 1 else 0) ∧
        r.transportProto = SessionCache.transportProto s.protocol ∧
        prefixMatches r.lclIP r.lclPlen s.lclIP = true ∧
        prefixMatches r.rmtIP r.rmtPlen s.rmtIP = true ∧
        portMatches r.lclPort s.lclPort = true ∧
        portMatches r.rmtPort s.rmtPort = true := by
  simp [SessionRule.matchesSession, and_assoc]

@[simp] theorem matchesSession_withTag (md5Hash : String → String)
    (r : SessionRule) (tagPrefix name : String) (s : Session) :
    (r.withTag md5Hash tagPrefix name).matchesSession s =
      r.matchesSession s := rfl

theorem transportProto_inj {a b : ProtocolType} :
    transportProto a = transportProto b ↔ a = b := by
  cases a <;> cases b <;> decide

theorem prefixMatches_zero (bytes : Bytes 16) (x : IP) :
    prefixMatches bytes 0 x = true := by
  simp [prefixMatches]

theorem norm_ne_nil {ip : IP} (h : ValidIP ip) : norm ip ≠ [] := by
  intro hnil
  rcases norm_length h with hlen | hlen <;> simp [hnil] at hlen

theorem version_and_prefix_iff {n : IPNet} (h : n.FamilyMask)
    (hne : n.ip ≠ []) {x : IP} (hx : ValidIP x) :
    ((if (to4 n.ip).isSome = true then (1 : UInt8) else 0) =
        (if (norm x).length = 4 then 1 else 0) ∧
      prefixMatches (networkBytes n (to4 n.ip).isSome).1
        (networkBytes n (to4 n.ip).isSome).2 (norm x) = true) ↔
      networkMatches n x = true := by
  have hnetwork : networkMatches n x = true ↔ n.contains x = true := by
    simp [networkMatches, hne]
  have hversion : (if (to4 n.ip).isSome = true then (1 : UInt8) else 0) =
      (if (norm x).length = 4 then 1 else 0) ↔
      (norm x).length = (norm n.ip).length := by
    simp only [isSome_to4_iff h.valid]
    rcases norm_length h.valid with hn | hn <;>
      rcases norm_length hx with hx | hx <;> simp [hn, hx]
  rw [hnetwork, hversion]
  constructor
  · intro hboth
    exact (prefixMatches_network h hne hboth.1).mp hboth.2
  · intro hcontains
    have hlen := ((h.contains_iff x).mp hcontains).1
    exact ⟨hlen, (prefixMatches_network h hne hlen).mpr hcontains⟩

def MatchesButRemote (half : SessionRule) (s : Session) : Prop :=
  (half.isIP4 = if s.rmtIP.length = 4 then 1 else 0) ∧
    half.transportProto = SessionCache.transportProto s.protocol ∧
    prefixMatches half.lclIP half.lclPlen s.lclIP = true ∧
    portMatches half.lclPort s.lclPort = true ∧
    portMatches half.rmtPort s.rmtPort = true

theorem matchesSession_halves_iff {half : SessionRule} {s : Session}
    (hip : half.rmtIP = zeroBytes 16) (hplen : half.rmtPlen = 1)
    (hs : s.rmtIP ≠ []) :
    (half.matchesSession s = true ∨ half.upperHalf.matchesSession s = true) ↔
      MatchesButRemote half s := by
  have hhalves := prefixMatches_halves hs
  rw [matchesSession_iff, matchesSession_iff, MatchesButRemote]
  simp only [SessionRule.upperHalf, hip, hplen]
  tauto

structure StandsFor (dir : Direction) (podIP : IPNet) (rule : ContivRule)
    (t : Traffic) (sessionRules : List SessionRule) : Prop where
  sound : ∀ r ∈ sessionRules, r.matchesSession (dir.session t) = true →
    covers dir podIP rule t = true ∧ r.rank = ruleRank dir rule ∧
      r.actionIndex = actionIndex rule.action
  complete : isSkipped dir rule = false → covers dir podIP rule t = true →
    ∃ r ∈ sessionRules, r.matchesSession (dir.session t) = true
  installed : sessionRules ≠ [] → isSkipped dir rule = false

theorem standsFor_of_halves {md5Hash : String → String} {tagPrefix : String}
    {dir : Direction} {podIP : IPNet} {rule : ContivRule} {t : Traffic}
    {sessionRules : List SessionRule} (halves : List SessionRule)
    (hs : (dir.session t).rmtIP ≠ [])
    (hskip : ¬ isSkipped dir rule = true)
    (hfrom : ∀ r ∈ sessionRules, ∃ half ∈ halves, ∃ name,
      r = half.withTag md5Hash tagPrefix name ∨
        r = half.upperHalf.withTag md5Hash tagPrefix name)
    (hto : ∀ half ∈ halves,
      (∃ name, half.withTag md5Hash tagPrefix name ∈ sessionRules) ∧
        ∃ name, half.upperHalf.withTag md5Hash tagPrefix name ∈ sessionRules)
    (hhalf : ∀ half ∈ halves, half.rmtIP = zeroBytes 16 ∧
      half.rmtPlen = 1 ∧ half.rank = ruleRank dir rule ∧
      half.actionIndex = actionIndex rule.action)
    (hcovers : covers dir podIP rule t = true ↔
      ∃ half ∈ halves, MatchesButRemote half (dir.session t)) :
    StandsFor dir podIP rule t sessionRules := by
  refine ⟨?_, ?_, fun _ => by simpa using hskip⟩
  · intro r hr hmatch
    obtain ⟨half, hmem, name, hcases⟩ := hfrom r hr
    obtain ⟨hip, hplen, hrank, haction⟩ := hhalf half hmem
    have hbut := (matchesSession_halves_iff hip hplen hs).mp
      (by rcases hcases with rfl | rfl
          · exact Or.inl hmatch
          · exact Or.inr hmatch)
    refine ⟨hcovers.mpr ⟨half, hmem, hbut⟩, ?_, ?_⟩
    · rcases hcases with rfl | rfl <;> exact hrank
    · rcases hcases with rfl | rfl <;> exact haction
  · intro _ hcov
    obtain ⟨half, hmem, hbut⟩ := hcovers.mp hcov
    obtain ⟨hip, hplen, _⟩ := hhalf half hmem
    obtain ⟨⟨name, hlower⟩, ⟨name', hupper⟩⟩ := hto half hmem
    rcases (matchesSession_halves_iff hip hplen hs).mpr hbut with
      hmatch | hmatch
    · exact ⟨_, hlower, hmatch⟩
    · exact ⟨_, hupper, hmatch⟩

theorem standsFor_singleton {md5Hash : String → String}
    {tagPrefix name : String} {dir : Direction} {podIP : IPNet}
    {rule : ContivRule} {t : Traffic} {r : SessionRule}
    (hne : (dir.remoteNetwork rule).ip ≠ [])
    (hmatch : r.matchesSession (dir.session t) = true ↔
      covers dir podIP rule t = true)
    (hrank : r.rank = ruleRank dir rule)
    (haction : r.actionIndex = actionIndex rule.action) :
    StandsFor dir podIP rule t [r.withTag md5Hash tagPrefix name] := by
  refine ⟨?_, ?_, fun _ => by simp [isSkipped, hne]⟩
  · intro r' hr' hrs
    rw [List.mem_singleton.mp hr'] at hrs ⊢
    rw [matchesSession_withTag] at hrs
    exact ⟨hmatch.mp hrs, hrank, haction⟩
  · intro _ hcovers
    exact ⟨_, List.mem_singleton_self _, hmatch.mpr hcovers⟩

theorem standsFor_nil {d : Direction} {podIP : IPNet} {rule : ContivRule}
    {t : Traffic} (hskip : isSkipped d rule = true) :
    StandsFor d podIP rule t [] :=
  ⟨by simp, fun hnot => by simp [hskip] at hnot, by simp⟩

section Ingress

variable {md5Hash : String → String} {nsIndex : UInt32} {tagPrefix : String}
  {podIP : IPNet} {rule : ContivRule} {t : Traffic}

theorem ingress_covers_iff (h : RuleOf .ingress rule) :
    covers .ingress podIP rule t = true ↔
      networkMatches rule.destNetwork t.destIP = true ∧
        rule.protocol = t.protocol ∧
        portMatches rule.destPort t.destPort = true := by
  have hown : rule.srcNetwork.ip = [] := h.own
  simp [covers, ContivRule.matchesTraffic, networkMatches, hown, h.srcPort,
    and_assoc]

theorem ingress_standsFor_of_network (h : RuleOf .ingress rule)
    (hne : rule.destNetwork.ip ≠ []) :
    StandsFor .ingress podIP rule t
      (convertIngressRule md5Hash nsIndex tagPrefix rule) := by
  have hfamily : rule.destNetwork.FamilyMask := h.remote.resolve_left hne
  have hconvert : convertIngressRule md5Hash nsIndex tagPrefix rule =
      [(ingressRule nsIndex rule).withTag md5Hash tagPrefix
        (toString nsIndex.toNat ++ "-ingress-" ++ rule.id)] := by
    simp [convertIngressRule, hne]
  have hip4 : (!rule.destNetwork.ip.isEmpty && (to4 rule.destNetwork.ip).isSome) =
      (to4 rule.destNetwork.ip).isSome := by
    simp [hne]
  have hmatch : (ingressRule nsIndex rule).matchesSession
      (Direction.ingress.session t) = true ↔
      covers .ingress podIP rule t = true := by
    rw [matchesSession_iff, ingress_covers_iff h,
      ← version_and_prefix_iff hfamily hne t.destValid]
    simp only [ingressRule, hip4, Direction.session, transportProto_inj,
      prefixMatches_zero, h.srcPort, portMatches_zero, true_and]
    tauto
  have hrank : (ingressRule nsIndex rule).rank = ruleRank .ingress rule := by
    have hplen : (maskOnes rule.destNetwork.mask).toNat =
        rule.destNetwork.prefixLen :=
      toNat_maskOnes (prefixLen_le_128 hfamily)
    have hpos : rule.destNetwork.ip.length > 0 := List.length_pos_iff.mpr hne
    simp [SessionRule.rank, ruleRank, ingressRule, networkBytes, hpos, hplen,
      Direction.remoteNetwork, hne, h.srcPort]
  rw [hconvert]
  exact standsFor_singleton hne hmatch hrank rfl

theorem ingress_standsFor_of_no_network (h : RuleOf .ingress rule)
    (hnil : rule.destNetwork.ip = []) :
    StandsFor .ingress podIP rule t
      (convertIngressRule md5Hash nsIndex tagPrefix rule) := by
  by_cases hskip : isSkipped .ingress rule = true
  · have hconvert : convertIngressRule md5Hash nsIndex tagPrefix rule = [] := by
      have hskip' := hskip
      simp only [isSkipped, Direction.remoteNetwork, hnil, Bool.and_eq_true,
        beq_iff_eq] at hskip'
      simp [convertIngressRule, hnil, hskip'.1.2, hskip'.2]
    rw [hconvert]
    exact standsFor_nil hskip
  · have hnot : ¬ (rule.destNetwork.ip.length = 0 ∧ rule.destPort = 0 ∧
        rule.action = .permit) := by
      simpa [isSkipped, Direction.remoteNetwork, hnil] using hskip
    have hconvert := convertIngressRule.eq_1 md5Hash nsIndex tagPrefix rule
    rw [if_neg hnot, if_pos (by simp [hnil])] at hconvert
    rw [hconvert]
    let half6 := { ingressRule nsIndex rule with rmtPlen := 1 }
    let half4 := { half6 with isIP4 := 1 }
    have hempty : networkBytes rule.destNetwork false = (zeroBytes 16, 0) := by
      simp [networkBytes, hnil]
    have hrank : 2 * (1 : UInt8).toNat +
        (if rule.srcPort = 0 ∧ rule.destPort = 0 then 0 else 1) =
        ruleRank .ingress rule := by
      simp [ruleRank, Direction.remoteNetwork, hnil, h.srcPort]
    have hs : (Direction.ingress.session t).rmtIP ≠ [] :=
      norm_ne_nil t.destValid
    apply standsFor_of_halves [half4, half6] hs hskip
    · intro r hr
      simp only [List.mem_cons, List.not_mem_nil, or_false] at hr
      rcases hr with hr | hr | hr | hr | hr
      · exact ⟨half4, by simp, _, Or.inl hr⟩
      · exact ⟨half4, by simp, _, Or.inl hr⟩
      · exact ⟨half4, by simp, _, Or.inr hr⟩
      · exact ⟨half6, by simp, _, Or.inl hr⟩
      · exact ⟨half6, by simp, _, Or.inr hr⟩
    · intro half hhalf
      simp only [List.mem_cons, List.not_mem_nil, or_false] at hhalf
      rcases hhalf with rfl | rfl
      · exact ⟨⟨_, List.mem_of_getElem? (i := 0) rfl⟩,
          ⟨_, List.mem_of_getElem? (i := 2) rfl⟩⟩
      · exact ⟨⟨_, List.mem_of_getElem? (i := 3) rfl⟩,
          ⟨_, List.mem_of_getElem? (i := 4) rfl⟩⟩
    · intro half hhalf
      simp only [List.mem_cons, List.not_mem_nil, or_false] at hhalf
      rcases hhalf with rfl | rfl
      · refine ⟨?_, rfl, hrank, rfl⟩
        simp [half4, half6, ingressRule, hnil, hempty]
      · refine ⟨?_, rfl, hrank, rfl⟩
        simp [half6, ingressRule, hnil, hempty]
    · rw [ingress_covers_iff h]
      by_cases hversion : (norm t.destIP).length = 4 <;>
        simp [MatchesButRemote, half4, half6, ingressRule, hnil,
          networkMatches, Direction.session, transportProto_inj,
          prefixMatches_zero, h.srcPort, hversion]

theorem ingress_standsFor (h : RuleOf .ingress rule) :
    StandsFor .ingress podIP rule t
      (convertIngressRule md5Hash nsIndex tagPrefix rule) := by
  by_cases hne : rule.destNetwork.ip = []
  · exact ingress_standsFor_of_no_network h hne
  · exact ingress_standsFor_of_network h hne

end Ingress

section Egress

variable {md5Hash : String → String} {nsIndex : UInt32} {tagPrefix : String}
  {podIP : IPNet} {rule : ContivRule} {t : Traffic}

theorem egress_matchesTraffic_iff (h : RuleOf .egress rule) :
    rule.matchesTraffic t = true ↔ networkMatches rule.srcNetwork t.srcIP = true ∧
        rule.protocol = t.protocol ∧
        portMatches rule.destPort t.destPort = true := by
  have hown : rule.destNetwork.ip = [] := h.own
  simp [ContivRule.matchesTraffic, networkMatches, hown, h.srcPort, and_assoc]

theorem prefixMatches_own (hpod : podIP.OneHost)
    (hown : norm t.destIP = norm podIP.ip) :
    prefixMatches (copyBytes (zeroBytes 16)
        ((if (to4 podIP.ip).isSome then to4 podIP.ip
          else to16 podIP.ip).getD []))
      (maskOnes podIP.mask) (norm t.destIP) = true := by
  have hpos : podIP.ip.length > 0 := by
    rw [hpod.length]
    decide
  have hmatch := (prefixMatches_network hpod.familyMask
    (List.length_pos_iff.mp hpos) (congrArg List.length hown)).mpr
    ((hpod.contains_iff t.destIP).mpr hown)
  rw [networkBytes, if_pos hpos] at hmatch
  exact hmatch

theorem version_flag_iff (hpod : podIP.OneHost)
    (hversion : (norm t.srcIP).length = (norm podIP.ip).length) :
    (if (to4 podIP.ip).isSome = true then (1 : UInt8) else 0) =
      if (norm t.srcIP).length = 4 then 1 else 0 := by
  rw [hversion]
  simp only [isSome_to4_iff hpod.comparable.valid]

theorem egress_standsFor_of_no_network (h : RuleOf .egress rule)
    (hpod : podIP.OneHost) (ht : OfPod .egress podIP t)
    (hnil : rule.srcNetwork.ip = []) :
    StandsFor .egress podIP rule t
      (convertEgressRule md5Hash nsIndex podIP tagPrefix rule) := by
  have hown : norm t.destIP = norm podIP.ip := ht.own
  have hversion : (norm t.srcIP).length = (norm podIP.ip).length := ht.version
  by_cases hskip : isSkipped .egress rule = true
  · have hconvert : convertEgressRule md5Hash nsIndex podIP tagPrefix rule =
        [] := by
      have hskip' := hskip
      simp only [isSkipped, Direction.remoteNetwork, hnil, Bool.and_eq_true,
        beq_iff_eq] at hskip'
      simp [convertEgressRule, hnil, hskip'.1.2, hskip'.2]
    rw [hconvert]
    exact standsFor_nil hskip
  · have hnot : ¬ (rule.srcNetwork.ip.length = 0 ∧ rule.destPort = 0 ∧
        rule.action = .permit) := by
      simpa [isSkipped, Direction.remoteNetwork, hnil] using hskip
    have hconvert :=
      convertEgressRule.eq_1 md5Hash nsIndex podIP tagPrefix rule
    rw [if_neg hnot, if_pos (by simp [hnil])] at hconvert
    rw [hconvert]
    let half := { egressRule podIP rule with rmtPlen := 1 }
    have hs : (Direction.egress.session t).rmtIP ≠ [] :=
      norm_ne_nil t.srcValid
    apply standsFor_of_halves [half] hs hskip
    · intro r hr
      simp only [List.mem_cons, List.not_mem_nil, or_false] at hr
      rcases hr with hr | hr
      · exact ⟨half, by simp, _, Or.inl hr⟩
      · exact ⟨half, by simp, _, Or.inr hr⟩
    · intro r hr
      rw [List.mem_singleton] at hr
      subst hr
      exact ⟨⟨_, List.mem_of_getElem? (i := 0) rfl⟩,
        ⟨_, List.mem_of_getElem? (i := 1) rfl⟩⟩
    · intro r hr
      rw [List.mem_singleton] at hr
      subst hr
      refine ⟨?_, rfl, ?_, rfl⟩
      · simp [half, egressRule, networkBytes, hnil]
      · simp [half, SessionRule.rank, ruleRank, egressRule,
          Direction.remoteNetwork, hnil, h.srcPort]
    · have hforeign : coversForeign podIP rule t = false := by
        simp [coversForeign, hnil, to4, ipv4Len, ipv6Len]
      have hbut : MatchesButRemote half (Direction.egress.session t) ↔
          rule.protocol = t.protocol ∧
            portMatches rule.destPort t.destPort = true := by
        simp only [MatchesButRemote, half, egressRule, hnil, List.isEmpty_nil,
          Bool.true_or, Bool.and_true, Direction.session, transportProto_inj,
          h.srcPort, portMatches_zero, and_true, prefixMatches_own hpod hown,
          version_flag_iff hpod hversion, true_and]
        exact ⟨fun hboth => hboth.2, fun hboth => ⟨rfl, hboth⟩⟩
      simp only [covers, hforeign, Bool.and_false, Bool.or_false,
        egress_matchesTraffic_iff h, List.mem_singleton, exists_eq_left,
        hbut]
      simp [networkMatches, hnil]

theorem egressRule_matchesSession_iff (h : RuleOf .egress rule)
    (hne : rule.srcNetwork.ip ≠ []) {isIP4 : Bool}
    (hip4 : ((to4 podIP.ip).isSome && (to4 rule.srcNetwork.ip).isSome) = isIP4) :
    (egressRule podIP rule).matchesSession (Direction.egress.session t) = true ↔
      (if isIP4 = true then (1 : UInt8) else 0) =
          (if (norm t.srcIP).length = 4 then 1 else 0) ∧
        rule.protocol = t.protocol ∧
        prefixMatches (copyBytes (zeroBytes 16)
            ((if isIP4 then to4 podIP.ip else to16 podIP.ip).getD []))
          (maskOnes podIP.mask) (norm t.destIP) = true ∧
        prefixMatches (networkBytes rule.srcNetwork isIP4).1
          (networkBytes rule.srcNetwork isIP4).2 (norm t.srcIP) = true ∧
        portMatches rule.destPort t.destPort = true := by
  have hflag : ((to4 podIP.ip).isSome && (rule.srcNetwork.ip.isEmpty ||
      (to4 rule.srcNetwork.ip).isSome)) = isIP4 := by
    rw [List.isEmpty_eq_false_iff.mpr hne, Bool.false_or, hip4]
  rw [matchesSession_iff]
  simp only [egressRule, hflag, Direction.session, transportProto_inj,
    h.srcPort, portMatches_zero, and_true]
  exact Iff.rfl

section

variable (h : RuleOf .egress rule) (hpod : podIP.OneHost)
  (ht : OfPod .egress podIP t)
include h hpod ht

theorem egressRule_covers_of_same_version (hne : rule.srcNetwork.ip ≠ [])
    (hsame : (to4 podIP.ip).isSome = (to4 rule.srcNetwork.ip).isSome) :
    (egressRule podIP rule).matchesSession (Direction.egress.session t) =
        true ↔ covers .egress podIP rule t = true := by
  have hfamily : rule.srcNetwork.FamilyMask := h.remote.resolve_left hne
  have hrmt := version_and_prefix_iff hfamily hne t.srcValid
  have hforeign : coversForeign podIP rule t = false := by
    unfold coversForeign
    rw [← hsame]
    cases to4 podIP.ip <;> simp
  rw [← hsame] at hrmt
  rw [egressRule_matchesSession_iff h hne (by rw [← hsame, Bool.and_self]),
    covers, hforeign, Bool.and_false, Bool.or_false,
    egress_matchesTraffic_iff h, ← hrmt, prefixMatches_own hpod ht.own]
  tauto

/-- A network of the other version matches nothing, but for an IPv6 pod its
session rule does. -/
theorem egressRule_covers_of_other_version (hne : rule.srcNetwork.ip ≠ [])
    (hother : (to4 podIP.ip).isSome ≠ (to4 rule.srcNetwork.ip).isSome) :
    (egressRule podIP rule).matchesSession (Direction.egress.session t) =
        true ↔ covers .egress podIP rule t = true := by
  have hfamily : rule.srcNetwork.FamilyMask := h.remote.resolve_left hne
  have hversion : (norm t.srcIP).length = (norm podIP.ip).length := ht.version
  have hflag : ((to4 podIP.ip).isSome && (to4 rule.srcNetwork.ip).isSome) =
      false := by
    revert hother
    cases (to4 podIP.ip).isSome <;>
      cases (to4 rule.srcNetwork.ip).isSome <;> simp
  have hmiss : ¬ networkMatches rule.srcNetwork t.srcIP = true := by
    intro hmatch
    have hcontains : rule.srcNetwork.contains t.srcIP = true := by
      simpa [networkMatches, hne] using hmatch
    have hlen := ((hfamily.contains_iff _).mp hcontains).1
    apply hother
    rw [Bool.eq_iff_iff, isSome_to4_iff hpod.comparable.valid,
      isSome_to4_iff hfamily.valid, ← hversion, hlen]
  rw [egressRule_matchesSession_iff h hne hflag, covers, Bool.or_eq_true,
    egress_matchesTraffic_iff h]
  cases hpod4 : to4 podIP.ip with
  | some b =>
      -- The rule is for IPv6, and the session is not.
      have hlen : (norm t.srcIP).length = 4 := by
        rw [hversion, ← isSome_to4_iff hpod.comparable.valid, hpod4]
        rfl
      simp [hlen, hmiss, coversForeign, hpod4]
  | none =>
      have hlen : (norm t.srcIP).length ≠ 4 := by
        rw [hversion]
        rw [Ne, ← isSome_to4_iff hpod.comparable.valid, hpod4]
        simp
      have hnet4 : (to4 rule.srcNetwork.ip).isSome = true := by
        rw [hpod4] at hother
        exact Option.isSome_iff_ne_none.mpr (by simpa using hother)
      have hlcl := prefixMatches_own hpod ht.own
      rw [hpod4] at hlcl
      rw [prefixMatches_foreign hfamily hnet4]
      simp only [Option.isSome_none, Bool.false_eq_true, if_false] at hlcl
      simp [hlen, hmiss, coversForeign, hpod4, hnet4, hlcl]
      tauto

theorem egress_standsFor_of_network (hne : rule.srcNetwork.ip ≠ []) :
    StandsFor .egress podIP rule t
      (convertEgressRule md5Hash nsIndex podIP tagPrefix rule) := by
  have hfamily : rule.srcNetwork.FamilyMask := h.remote.resolve_left hne
  have hconvert : convertEgressRule md5Hash nsIndex podIP tagPrefix rule =
      [(egressRule podIP rule).withTag md5Hash tagPrefix
        (toString nsIndex.toNat ++ "-egress-" ++ rule.id)] := by
    simp [convertEgressRule, hne]
  have hrank : (egressRule podIP rule).rank = ruleRank .egress rule := by
    have hplen : (maskOnes rule.srcNetwork.mask).toNat =
        rule.srcNetwork.prefixLen :=
      toNat_maskOnes (prefixLen_le_128 hfamily)
    have hpos : rule.srcNetwork.ip.length > 0 := List.length_pos_iff.mpr hne
    simp [SessionRule.rank, ruleRank, egressRule, networkBytes, hpos, hplen,
      Direction.remoteNetwork, hne, h.srcPort]
  have hmatch : (egressRule podIP rule).matchesSession
      (Direction.egress.session t) = true ↔
      covers .egress podIP rule t = true := by
    by_cases hsame : (to4 podIP.ip).isSome = (to4 rule.srcNetwork.ip).isSome
    · exact egressRule_covers_of_same_version h hpod ht hne hsame
    · exact egressRule_covers_of_other_version h hpod ht hne hsame
  rw [hconvert]
  exact standsFor_singleton hne hmatch hrank rfl

theorem egress_standsFor : StandsFor .egress podIP rule t
      (convertEgressRule md5Hash nsIndex podIP tagPrefix rule) := by
  by_cases hne : rule.srcNetwork.ip = []
  · exact egress_standsFor_of_no_network h hpod ht hne
  · exact egress_standsFor_of_network h hpod ht hne

end

end Egress

theorem convertRule_standsFor {md5Hash : String → String}
    {nsIndex : UInt32} {tagPrefix : String} {dir : Direction}
    {podIP : IPNet} {rule : ContivRule} {t : Traffic} (h : RuleOf dir rule)
    (hpod : podIP.OneHost) (ht : OfPod dir podIP t) :
    StandsFor dir podIP rule t
      (convertRule md5Hash dir nsIndex podIP tagPrefix rule) := by
  cases dir with
  | ingress => exact ingress_standsFor h
  | egress => exact egress_standsFor h hpod ht

end ContivVPP.SessionCache
