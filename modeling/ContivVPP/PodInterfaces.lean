import ContivVPP.CNIServerPool
import ContivVPP.Texts

/-!
# Addresses on the VPP interfaces of pods

The VPP side of the connection of a pod has an address of its own.  Its last
octet is made of a counter that every Add request increments, also one that
fails, and that no Delete request decrements.  So the address is different from
the earlier ones, and it is an address as long as the counter fits an octet:
for the first 254 Add requests of a run.
-/

namespace ContivVPP.Net

theorem parseOctet_repr_eq_none {n : ℕ} (h : 256 ≤ n) :
    parseOctet n.repr.toList = none := by
  rw [parseOctet, dtoi, scanNumber, Nat.toList_repr,
    scanDigits_toDigits (by decide) decDigit_digitChar (by decide)]
  split_ifs with hhead hbig
  · exact if_pos (by omega)
  · rfl
  · rfl

end ContivVPP.Net

namespace ContivVPP.CNIServer

open ByteBits GoMap Ipam Net

/-! ## Addresses -/

def podIfIPPrefix : String := "10.2.1"

def ipAddrForPodVPPIf (counter : Int64) : String :=
  podIfIPPrefix ++ "." ++ toString (counter + 1).toInt ++ "/32"

def podIfAddress (n : ℕ) : String := "10.2.1." ++ n.repr ++ "/32"

theorem ipAddrForPodVPPIf_ofNat {n : ℕ} (h : n + 1 < 2 ^ 63) :
    ipAddrForPodVPPIf (Int64.ofNat n) = podIfAddress (n + 1) := by
  have hnext : (Int64.ofNat n + 1).toInt = ((n + 1 : ℕ) : ℤ) := by
    have hone : (1 : Int64) = Int64.ofNat 1 := rfl
    rw [hone, ← Int64.ofNat_add, Int64.toInt_ofNat_of_lt h]
  rw [ipAddrForPodVPPIf, hnext]
  rfl

theorem podIfAddress_inj {m n : ℕ} : podIfAddress m = podIfAddress n ↔ m = n := by
  refine ⟨fun h => ?_, fun h => by rw [h]⟩
  rw [← String.toList_inj] at h
  simp only [podIfAddress, String.toList_append, List.append_cancel_left_eq,
    List.append_cancel_right_eq] at h
  exact Texts.repr_inj.mp (String.toList_inj.mp h)

def ValidAddress (text : String) : Prop :=
  ∃ n, parseCIDR text = some n ∧ n.ip.length = 4 ∧ maskSize n.mask = (32, 32)

theorem podIfAddress_eq {n : ℕ} (h : n < 256) : podIfAddress n =
      IPNet.string ⟨[10, 2, 1, n.toUInt8], onesMask 32 4⟩ := by
  have hn : n.toUInt8.toNat = n := UInt8.toNat_ofNat_of_lt h
  have hpart : "10.2.1.".toList = (toString (10 : UInt8).toNat).toList ++
      '.' :: ((toString (2 : UInt8).toNat).toList ++
      '.' :: ((toString (1 : UInt8).toNat).toList ++ ['.'])) := rfl
  have hsize : "/32".toList = '/' :: (toString 32).toList := rfl
  rw [← String.toList_inj, string_toList _ _ _ _ (Nat.le_refl 32),
    ipString_toList, hn, podIfAddress, String.toList_append,
    String.toList_append, hpart, hsize]
  simp only [List.append_assoc, List.cons_append, List.nil_append]
  rfl

theorem validAddress_podIfAddress {n : ℕ} (h : n < 256) :
    ValidAddress (podIfAddress n) := by
  have hsize : maskSize (onesMask 32 4) = (32, 32) := by decide
  rw [ValidAddress, podIfAddress_eq h]
  exact ⟨_, parseCIDR_string _ _ _ _ (Nat.le_refl 32), rfl, hsize⟩

theorem parseIPv4_podIfAddress {n : ℕ} (h : 256 ≤ n) :
    parseIPv4 ("10.2.1.".toList ++ n.repr.toList) = none := by
  have hdot : ∀ rest : List Char,
      ('.' :: rest).head?.bind decDigit = none := fun _ => rfl
  have hlast : parseDotOctet ('.' :: n.repr.toList) = none :=
    parseOctet_repr_eq_none h
  change parseIPv4 ((toString (10 : UInt8).toNat).toList ++
    '.' :: ((toString (2 : UInt8).toNat).toList ++
    '.' :: ((toString (1 : UInt8).toNat).toList ++
    '.' :: n.repr.toList))) = none
  simp only [parseIPv4, parseOctet_toString 10 (hdot _),
    parseDotOctet_toString 2 (hdot _), parseDotOctet_toString 1 (hdot _),
    hlast, bind, Option.bind]

/-- A longer number is no octet, and the dots are none of IPv6. -/
theorem not_validAddress_podIfAddress {n : ℕ} (h : 256 ≤ n) :
    ¬ ValidAddress (podIfAddress n) := by
  rintro ⟨net, hnet, _⟩
  have htext : (podIfAddress n).toList =
      ("10.2.1.".toList ++ n.repr.toList) ++ '/' :: ['3', '2'] := by
    rw [podIfAddress, String.toList_append, String.toList_append]
    rfl
  have hslash : '/' ∉ "10.2.1.".toList ++ n.repr.toList := by
    rw [List.mem_append, not_or]
    exact ⟨by decide, fun hmem =>
      absurd (Texts.isDigit_of_mem_repr hmem) (by decide)⟩
  have hv6 : parseIPv6 ("10.2.1.".toList ++ n.repr.toList) = none := rfl
  simp only [parseCIDR, htext, takeWhile_slash hslash, List.drop_left,
    parseIPv4_podIfAddress h, hv6, Option.map_none] at hnet
  cases hnet

/-! ## The server with its counter -/

/-- The server with the counter and with the addresses on the VPP interfaces of
the pods. -/
structure PodServer where
  server : Server
  counter : Int64
  vppIfs : AList fun _ : String => String

/-- The address for the VPP interface of a pod that is added.  There is none
without an address for the pod. -/
def PodServer.newAddress (s : PodServer) (request : CNIRequest) : Option String :=
  match s.server.ipam.nextPodIP request.networkNamespace with
  | .error _ => none
  | .ok _ => some (ipAddrForPodVPPIf (s.counter + 1))

/-- The interfaces are there once the transaction with the agent has been
accepted. -/
def PodServer.step (cfg : ServerConfig) (s : PodServer) : Request → PodServer
  | .add request env =>
      let loopback := if cfg.disableTCPstack then []
        else [loopbackNameFromRequest request]
      let put := External.putInterfaces (interfaceNames cfg request ++ loopback)
      { server := CNIServer.step cfg s.server (.add request env)
        counter := s.counter + 1
        vppIfs :=
          match s.newAddress request, env.error put with
          | some address, none =>
              s.vppIfs.insert (vppIfNameFromRequest cfg request) address
          | _, _ => s.vppIfs }
  | .delete request env =>
      let delete := External.deleteInterfaces (interfaceNames cfg request ++
        [loopbackNameFromRequest request])
      { server := CNIServer.step cfg s.server (.delete request env)
        counter := s.counter
        vppIfs :=
          match env.error delete with
          | none => s.vppIfs.erase (vppIfNameFromRequest cfg request)
          | some _ => s.vppIfs }

def PodServer.run (cfg : ServerConfig) (ipam : IPAM)
    (requests : List Request) : PodServer :=
  requests.foldl (PodServer.step cfg)
    ⟨⟨{ ipam with assignedPodIPs := ∅ }, ∅⟩, 0, ∅⟩

def Request.isAdd : Request → Bool
  | .add _ _ => true
  | .delete _ _ => false

def addCount (requests : List Request) : ℕ := requests.countP Request.isAdd

section Runs

variable {cfg : ServerConfig} {ipam : IPAM} {requests : List Request}
  {request : CNIRequest} {address : String}

theorem PodServer.run_concat (r : Request) :
    PodServer.run cfg ipam (requests ++ [r]) =
      (PodServer.run cfg ipam requests).step cfg r := by
  rw [PodServer.run, List.foldl_append]
  rfl

theorem addCount_concat (r : Request) : addCount (requests ++ [r]) =
    addCount requests + if r.isAdd then 1 else 0 := by
  rw [addCount, List.countP_append, List.countP_singleton]
  rfl

theorem PodServer.run_server : (PodServer.run cfg ipam requests).server =
    CNIServer.run cfg ipam requests := by
  induction requests using List.reverseRecOn with
  | nil => rfl
  | append_singleton requests r ih =>
      rw [PodServer.run_concat, CNIServer.run, List.foldl_append]
      change ((PodServer.run cfg ipam requests).step cfg r).server =
        CNIServer.step cfg (CNIServer.run cfg ipam requests) r
      rw [← ih]
      cases r <;> rfl

/-- The counter counts the Add requests, and each address on an interface was
made of one of its values. -/
structure Numbered (count : ℕ) (s : PodServer) : Prop where
  counter : s.counter = Int64.ofNat count
  address : ∀ name address, s.vppIfs.lookup name = some address →
    ∃ k < count, address = ipAddrForPodVPPIf (Int64.ofNat k + 1)

theorem Numbered.newAddress {count : ℕ} {s : PodServer}
    (h : Numbered count s) (haddress : s.newAddress request = some address) :
    address = ipAddrForPodVPPIf (Int64.ofNat count + 1) := by
  unfold PodServer.newAddress at haddress
  split at haddress
  · cases haddress
  · rw [← h.counter]
    exact (Option.some.inj haddress).symm

theorem Numbered.step {count : ℕ} {s : PodServer} (h : Numbered count s)
    (r : Request) :
    Numbered (count + if r.isAdd then 1 else 0) (s.step cfg r) := by
  cases r with
  | add request env =>
      have hone : (1 : Int64) = Int64.ofNat 1 := rfl
      refine ⟨?_, fun name address hname => ?_⟩
      · change s.counter + 1 = _
        rw [h.counter, hone, ← Int64.ofNat_add]
        rfl
      · have hold : s.vppIfs.lookup name = some address → ∃ k < count + 1,
              address = ipAddrForPodVPPIf (Int64.ofNat k + 1) := by
          intro hlookup
          obtain ⟨k, hk, heq⟩ := h.address name address hlookup
          exact ⟨k, Nat.lt_succ_of_lt hk, heq⟩
        simp only [PodServer.step] at hname
        split at hname
        · next address' hnew _ =>
            rcases lookup_insert_eq_some hname with ⟨_, rfl⟩ | ⟨_, hlookup⟩
            · exact ⟨count, Nat.lt_succ_self count, h.newAddress hnew⟩
            · exact hold hlookup
        · exact hold hname
  | delete request env =>
      refine ⟨h.counter, fun name address hname => ?_⟩
      simp only [PodServer.step] at hname
      split at hname
      · exact h.address name address ((lookup_erase_eq_some hname).2)
      · exact h.address name address hname

theorem PodServer.run_numbered :
    Numbered (addCount requests) (PodServer.run cfg ipam requests) := by
  induction requests using List.reverseRecOn with
  | nil => exact ⟨rfl, fun name address h => by cases h⟩
  | append_singleton requests r ih =>
      rw [PodServer.run_concat, addCount_concat]
      exact ih.step r

end Runs

/-- An address on an interface, and on no other one. -/
structure GoodAddress (s : PodServer) (address : String) : Prop where
  valid : ValidAddress address
  fresh : ∀ name address', s.vppIfs.lookup name = some address' →
    address ≠ address'

/-- The address of an added pod is good for the first 254 Add requests, and for
no other one before the counter overflows. -/
theorem newAddress_good_iff {cfg : ServerConfig} {ipam : IPAM}
    {requests : List Request} {request : CNIRequest} {address : String}
    (hadd : (PodServer.run cfg ipam requests).newAddress request =
      some address) (hcount : addCount requests + 2 < 2 ^ 63) :
    GoodAddress (PodServer.run cfg ipam requests) address ↔
      addCount requests < 254 := by
  have hrun := @PodServer.run_numbered cfg ipam requests
  have htext : ∀ k, k + 2 < 2 ^ 63 →
      ipAddrForPodVPPIf (Int64.ofNat k + 1) = podIfAddress (k + 2) := by
    intro k hk
    have hone : (1 : Int64) = Int64.ofNat 1 := rfl
    rw [hone, ← Int64.ofNat_add, ipAddrForPodVPPIf_ofNat (by omega)]
  have haddress := hrun.newAddress hadd
  rw [htext _ hcount] at haddress
  subst haddress
  constructor
  · intro hgood
    by_contra hge
    exact not_validAddress_podIfAddress (by omega) hgood.valid
  · intro hlt
    refine ⟨validAddress_podIfAddress (by omega), ?_⟩
    intro name address' hname heq
    obtain ⟨k, hk, rfl⟩ := hrun.address name address' hname
    rw [htext k (by omega), podIfAddress_inj] at heq
    omega

def comeAndGone : List Request :=
  [.add (requestFor "a") succeeding, .add (requestFor "b") succeeding,
    .delete (requestFor "a") succeeding]

theorem newAddress_good_iff_comeAndGone :
    (pairs (PodServer.run vethConfig defaultIPAM comeAndGone).vppIfs).map
        Prod.snd = ["10.2.1.3/32"] ∧
      (PodServer.run vethConfig defaultIPAM comeAndGone).newAddress
        (requestFor "c") = some "10.2.1.4/32" ∧
      GoodAddress (PodServer.run vethConfig defaultIPAM comeAndGone)
        "10.2.1.4/32" := by
  have hadd : (PodServer.run vethConfig defaultIPAM comeAndGone).newAddress
      (requestFor "c") = some "10.2.1.4/32" := by decide +kernel
  exact ⟨by decide +kernel, hadd,
    (newAddress_good_iff hadd (by decide)).mpr (by decide)⟩

def churn (k : ℕ) : List Request :=
  (List.replicate k [.add (requestFor "a") succeeding,
    .delete (requestFor "a") succeeding]).flatten

theorem run_churn (k : ℕ) :
    run vethConfig defaultIPAM (churn k) = ⟨defaultIPAM, ∅⟩ := by
  induction k with
  | zero => rfl
  | succ k ih =>
      have hround : churn (k + 1) = churn k ++ churn 1 := by
        rw [churn, List.replicate_succ', List.flatten_append]
        rfl
      rw [hround, run, List.foldl_append, ← run, ih]
      rfl

theorem addCount_churn (k : ℕ) : addCount (churn k) = k := by
  rw [addCount, churn, List.countP_flatten, List.map_replicate,
    List.sum_replicate]
  exact Nat.mul_one k

/-- After 254 pods that are gone, the next one gets a text that is not an
address. -/
theorem not_good_of_churn :
    (PodServer.run vethConfig defaultIPAM (churn 254)).newAddress
        (requestFor "a") = some "10.2.1.256/32" ∧
      ¬ GoodAddress (PodServer.run vethConfig defaultIPAM (churn 254))
        "10.2.1.256/32" := by
  refine ⟨?_, fun hgood => not_validAddress_podIfAddress (n := 256)
    (Nat.le_refl _) hgood.valid⟩
  have hrun := @PodServer.run_numbered vethConfig defaultIPAM (churn 254)
  rw [addCount_churn] at hrun
  rw [PodServer.newAddress, PodServer.run_server, run_churn, hrun.counter]
  decide +kernel

end ContivVPP.CNIServer
