import Mathlib.Tactic
import Mathlib.Data.Nat.Bitwise
import Mathlib.Data.Nat.Digits.Lemmas

/-!
# Byte strings as bit strings

The bits of a byte string are listed from the most significant bit of its
first byte on.  A netmask of `n` leading ones keeps the first `n` bits and
clears the rest, so two masked strings agree exactly when the strings agree on
their first `n` bits.
-/

namespace ContivVPP.ByteBits

def byteBits (b : UInt8) : List Bool :=
  (List.range 8).map fun i => b.toNat.testBit (7 - i)

def bits (bytes : List UInt8) : List Bool :=
  bytes.flatMap byteBits

@[simp] theorem byteBits_length (b : UInt8) : (byteBits b).length = 8 := by
  simp [byteBits]

@[simp] theorem bits_nil : bits [] = [] := rfl

@[simp] theorem bits_cons (b : UInt8) (bytes : List UInt8) :
    bits (b :: bytes) = byteBits b ++ bits bytes := rfl

@[simp] theorem bits_length (bytes : List UInt8) :
    (bits bytes).length = 8 * bytes.length := by
  induction bytes with
  | nil => rfl
  | cons b bytes ih =>
      simp [ih]
      omega

theorem bits_append (a b : List UInt8) : bits (a ++ b) = bits a ++ bits b := by
  induction a with
  | nil => rfl
  | cons x a ih => simp [ih]

theorem byteBits_injective : Function.Injective byteBits := by
  intro a b hab
  apply UInt8.toNat_inj.mp
  apply Nat.eq_of_testBit_eq
  intro i
  by_cases hi : i < 8
  · have hget := congrArg (fun l => l[7 - i]?) hab
    have h7 : 7 - i < 8 := by omega
    have hsub : 7 - (7 - i) = i := by omega
    simpa [byteBits, h7, hsub] using hget
  · have hpow : 2 ^ 8 ≤ 2 ^ i := Nat.pow_le_pow_right (by decide) (by omega)
    rw [Nat.testBit_lt_two_pow (lt_of_lt_of_le a.toNat_lt hpow),
      Nat.testBit_lt_two_pow (lt_of_lt_of_le b.toNat_lt hpow)]

theorem bits_injective : Function.Injective bits := by
  intro a
  induction a with
  | nil =>
      intro b hab
      cases b with
      | nil => rfl
      | cons y b =>
          have hlen := congrArg List.length hab
          simp at hlen
          omega
  | cons x a ih =>
      intro b hab
      cases b with
      | nil =>
          have hlen := congrArg List.length hab
          simp at hlen
      | cons y b =>
          simp only [bits_cons] at hab
          obtain ⟨hbyte, hrest⟩ := List.append_inj hab (by simp)
          rw [byteBits_injective hbyte, ih hrest]

theorem bits_take (bytes : List UInt8) (k : ℕ) :
    bits (bytes.take k) = (bits bytes).take (8 * k) := by
  induction bytes generalizing k with
  | nil => simp
  | cons b bytes ih =>
      cases k with
      | zero => simp
      | succ k =>
          have hshift : 8 * (k + 1) = (byteBits b).length + 8 * k := by
            simp
            omega
          rw [List.take_succ_cons, bits_cons, bits_cons, ih, hshift,
            List.take_length_add_append]

/-! ## Masking -/

def land (a m : List UInt8) : List UInt8 :=
  List.zipWith (· &&& ·) a m

@[simp] theorem land_length (a m : List UInt8) :
    (land a m).length = min a.length m.length := by
  simp [land]

theorem byteBits_and (a b : UInt8) :
    byteBits (a &&& b) = List.zipWith and (byteBits a) (byteBits b) := by
  simp [byteBits, List.zipWith_map, List.zipWith_self, Nat.testBit_and]

theorem bits_land (a m : List UInt8) :
    bits (land a m) = List.zipWith and (bits a) (bits m) := by
  induction a generalizing m with
  | nil => simp [land]
  | cons x a ih =>
      cases m with
      | nil => simp [land]
      | cons y m =>
          have htail := ih m
          simp only [land, List.zipWith_cons_cons, bits_cons] at htail ⊢
          rw [htail, byteBits_and, List.zipWith_append (by simp)]

/-- `CIDRMask` of the given byte length: `ones` leading one bits, then
zeros. -/
def onesMask : ℕ → ℕ → List UInt8
  | _, 0 => []
  | ones, len + 1 =>
      if 8 ≤ ones then 0xff :: onesMask (ones - 8) len
      else (~~~ ((0xff : UInt8) >>> ones.toUInt8)) :: onesMask 0 len

@[simp] theorem onesMask_length (ones len : ℕ) :
    (onesMask ones len).length = len := by
  induction len generalizing ones with
  | zero => rfl
  | succ len ih =>
      simp only [onesMask]
      split <;> simp [ih]

theorem onesMask_drop (ones j len : ℕ) :
    (onesMask ones (j + len)).drop j = onesMask (ones - 8 * j) len := by
  induction j generalizing ones with
  | zero => simp
  | succ j ih =>
      rw [show j + 1 + len = j + len + 1 by omega, onesMask]
      split
      next hbyte =>
        rw [List.drop_succ_cons, ih]
        congr 1
        omega
      next hbyte =>
        rw [List.drop_succ_cons, ih]
        congr 1
        omega

theorem byteBits_maskByte {ones : ℕ} (h : ones < 8) :
    byteBits (~~~ ((0xff : UInt8) >>> ones.toUInt8)) =
      List.replicate ones true ++ List.replicate (8 - ones) false := by
  interval_cases ones <;> decide

theorem bits_onesMask {ones len : ℕ} (h : ones ≤ 8 * len) :
    bits (onesMask ones len) = List.replicate ones true ++
        List.replicate (8 * len - ones) false := by
  induction len generalizing ones with
  | zero =>
      have hones : ones = 0 := by omega
      subst ones
      rfl
  | succ len ih =>
      simp only [onesMask]
      by_cases hbyte : 8 ≤ ones
      · rw [if_pos hbyte, bits_cons, ih (by omega)]
        have hff : byteBits 0xff = List.replicate 8 true := by decide
        rw [hff, ← List.append_assoc, List.replicate_append_replicate]
        congr 2 <;> omega
      · rw [if_neg hbyte, bits_cons, ih (by omega),
          byteBits_maskByte (by omega), List.append_assoc,
          List.replicate_zero, List.nil_append,
          List.replicate_append_replicate]
        congr 2
        omega

theorem zipWith_and_ones_zeros (l : List Bool) (n k : ℕ)
    (hlen : l.length = n + k) :
    List.zipWith and l (List.replicate n true ++ List.replicate k false) =
      l.take n ++ List.replicate k false := by
  induction n generalizing l with
  | zero =>
      have hk : l.length = k := by simpa using hlen
      subst k
      clear hlen
      induction l with
      | nil => rfl
      | cons b l ih => simpa [List.replicate_succ] using ih
  | succ n ih =>
      cases l with
      | nil =>
          simp at hlen
          omega
      | cons b l =>
          have htail := ih l (by simp at hlen; omega)
          simpa [List.replicate_succ] using htail

theorem bits_land_onesMask {a : List UInt8} {ones : ℕ} (h : ones ≤ 8 * a.length) :
    bits (land a (onesMask ones a.length)) = (bits a).take ones ++
        List.replicate (8 * a.length - ones) false := by
  rw [bits_land, bits_onesMask h]
  apply zipWith_and_ones_zeros
  simp
  omega

theorem land_onesMask_eq_iff {a b : List UInt8} {ones : ℕ}
    (hlen : a.length = b.length) (h : ones ≤ 8 * a.length) :
    land a (onesMask ones a.length) = land b (onesMask ones a.length) ↔
      (bits a).take ones = (bits b).take ones := by
  have hb := bits_land_onesMask (a := b) (hlen ▸ h)
  rw [← hlen] at hb
  constructor
  · intro heq
    have hbits := congrArg bits heq
    rw [bits_land_onesMask h, hb] at hbits
    exact List.append_cancel_right hbits
  · intro htake
    apply bits_injective
    rw [bits_land_onesMask h, hb, htake]

/-! ## Flipping one bit -/

def flipBit (bytes : List UInt8) (i : ℕ) : List UInt8 :=
  bytes.modify (i / 8) (· ^^^ ((1 : UInt8) <<< (7 - i % 8).toUInt8))

@[simp] theorem flipBit_length (bytes : List UInt8) (i : ℕ) :
    (flipBit bytes i).length = bytes.length := by
  simp [flipBit]

theorem byteBits_xor_bit (b : UInt8) {i : ℕ} (h : i < 8) :
    byteBits (b ^^^ ((1 : UInt8) <<< (7 - i).toUInt8)) =
      (byteBits b).modify i not := by
  have hpow : ((1 : UInt8) <<< (7 - i).toUInt8).toNat = 2 ^ (7 - i) := by
    interval_cases i <;> decide
  apply List.ext_getElem
  · simp
  intro j hj hj'
  have hj8 : j < 8 := by simpa using hj
  simp only [byteBits, List.getElem_map, List.getElem_range,
    UInt8.toNat_xor, Nat.testBit_xor, hpow, Nat.testBit_two_pow,
    List.getElem_modify]
  by_cases hij : i = j
  · subst j
    simp
  · have hne : ¬ 7 - i = 7 - j := by omega
    simp [hij, hne]

variable {l l' : List Bool}

theorem modify_append_of_lt {f : Bool → Bool} {i : ℕ} (h : i < l.length) :
    (l ++ l').modify i f = l.modify i f ++ l' := by
  induction l generalizing i with
  | nil => simp at h
  | cons b l ih =>
      cases i with
      | zero => simp
      | succ i => simpa using ih (by simpa using h)

theorem modify_append_length_add {α : Type} {f : α → α} {l l' : List α} {i : ℕ} :
    (l ++ l').modify (l.length + i) f = l ++ l'.modify i f := by
  induction l with
  | nil => simp
  | cons b l ih =>
      rw [List.length_cons, Nat.add_right_comm]
      simpa using ih

theorem bits_flipBit (bytes : List UInt8) (i : ℕ) :
    bits (flipBit bytes i) = (bits bytes).modify i not := by
  induction bytes generalizing i with
  | nil => simp [flipBit]
  | cons b bytes ih =>
      by_cases hi : i < 8
      · have hdiv : i / 8 = 0 := by omega
        have hmod : i % 8 = i := by omega
        simp only [flipBit, hdiv, hmod, List.modify_zero_cons, bits_cons]
        rw [byteBits_xor_bit b hi, modify_append_of_lt (by simpa using hi)]
      · obtain ⟨j, rfl⟩ : ∃ j, i = j + 8 := ⟨i - 8, by omega⟩
        have hdiv : (j + 8) / 8 = j / 8 + 1 := by omega
        have hmod : (j + 8) % 8 = j % 8 := by omega
        have htail := ih j
        simp only [flipBit] at htail
        simp only [flipBit, hdiv, hmod, List.modify_succ_cons, bits_cons]
        have hshift : j + 8 = (byteBits b).length + j := by
          simp [Nat.add_comm]
        rw [htail, hshift, modify_append_length_add]

/-! ## Bit strings as numbers -/

def value (l : List Bool) : ℕ :=
  Nat.ofDigits 2 (l.reverse.map Bool.toNat)

theorem toNat_lt_two_of_mem {d : ℕ} (h : d ∈ l.map Bool.toNat) : d < 2 := by
  obtain ⟨b, _, rfl⟩ := List.mem_map.mp h
  cases b <;> decide

theorem value_append (l l' : List Bool) :
    value (l ++ l') = value l' + 2 ^ l'.length * value l := by
  rw [value, List.reverse_append, List.map_append, Nat.ofDigits_append,
    List.length_map, List.length_reverse]
  rfl

theorem value_inj (hlen : l.length = l'.length) :
    value l = value l' ↔ l = l' := by
  constructor
  · intro h
    have hdigits : l.reverse.map Bool.toNat = l'.reverse.map Bool.toNat :=
      Nat.ofDigits_inj_of_len_eq (by decide) (by simp [hlen])
        (fun _ => toNat_lt_two_of_mem) (fun _ => toNat_lt_two_of_mem) h
    exact List.reverse_injective (List.map_injective_iff.mpr
      (Function.LeftInverse.injective Bool.ofNat_toNat) hdigits)
  · exact fun h => by rw [h]

theorem value_take {k : ℕ} (hk : k ≤ l.length) :
    value (l.take k) = value l / 2 ^ (l.length - k) := by
  rw [value, value, Nat.ofDigits_div_pow_eq_ofDigits_drop _ (by decide) _
    (fun _ => toNat_lt_two_of_mem), ← List.map_drop, List.drop_reverse,
    Nat.sub_sub_self hk]

theorem take_eq_take_iff_value {k : ℕ} (hlen : l.length = l'.length)
    (hk : k ≤ l.length) :
    l.take k = l'.take k ↔
      value l / 2 ^ (l.length - k) = value l' / 2 ^ (l.length - k) := by
  have htake : (l.take k).length = (l'.take k).length := by
    rw [List.length_take, List.length_take, hlen]
  rw [← value_inj htake, value_take hk, value_take (hlen ▸ hk), hlen]

theorem value_byteBits (b : UInt8) : value (byteBits b) = b.toNat := by
  have hall : ∀ n < 256, value (byteBits (UInt8.ofNat n)) = n := by
    decide +kernel
  have hb := hall b.toNat b.toNat_lt
  rwa [UInt8.ofNat_toNat] at hb

theorem value_replicate_false (k : ℕ) : value (List.replicate k false) = 0 := by
  induction k with
  | zero => rfl
  | succ k ih =>
      rw [List.replicate_succ', value_append, ih]
      rfl

theorem land_onesMask_eq_self_iff {a : List UInt8} {ones : ℕ}
    (h : ones ≤ 8 * a.length) :
    land a (onesMask ones a.length) = a ↔
      2 ^ (8 * a.length - ones) ∣ value (bits a) := by
  have hvalue : value (bits (land a (onesMask ones a.length))) =
      2 ^ (8 * a.length - ones) *
        (value (bits a) / 2 ^ (8 * a.length - ones)) := by
    rw [bits_land_onesMask h, value_append, value_replicate_false,
      List.length_replicate, value_take (by rw [bits_length]; exact h),
      bits_length, Nat.zero_add]
  rw [← bits_injective.eq_iff, ← value_inj (by simp), hvalue,
    Nat.mul_div_eq_iff_dvd]

end ContivVPP.ByteBits
