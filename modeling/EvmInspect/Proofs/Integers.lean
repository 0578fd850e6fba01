import EvmInspect.Abi.Check
import EvmInspect.Proofs.Bytes
import Mathlib.Tactic.Linarith
/-!
# Widths of integers

When a word fits a declared number of bits, read as an unsigned or a signed integer and read off its
bytes.
-/

namespace EvmInspect

namespace Word

/-- A word has no more bits than declared exactly if its number is below the power of two. -/
theorem fitsUnsigned_iff (w : Word) (bits : Nat) :
    w.fitsUnsigned bits = true ↔ w.toNat < 2 ^ bits := by
  rw [fitsUnsigned, decide_eq_true_eq, bitLength]
  by_cases hzero : w.toNat = 0
  · rw [if_pos hzero, hzero]
    exact iff_of_true (Nat.zero_le _) (Nat.two_pow_pos bits)
  · rw [if_neg hzero, Nat.succ_le_iff, Nat.log2_lt hzero]

/-- Two's complement at a width: the signed value lies in its range. -/
theorem fitsSigned_iff (w : Word) (bits : Nat) :
    w.fitsSigned bits = true ↔
      -(2 ^ (bits - 1) : Int) ≤ w.toInt ∧ w.toInt < (2 ^ (bits - 1) : Int) := by
  by_cases hwide : 256 ≤ bits
  · have hpow : (2 ^ 255 : Int) ≤ 2 ^ (bits - 1) := by
      exact_mod_cast Nat.pow_le_pow_right (by decide) (by omega : 255 ≤ bits - 1)
    have hlow := BitVec.le_toInt w
    have hhigh := BitVec.toInt_lt (x := w)
    simp only [Nat.reduceSub] at hlow hhigh
    simp only [fitsSigned, hwide, decide_true, Bool.true_or, true_iff]
    exact ⟨by omega, by omega⟩
  · have hint : (w.sshiftRight (bits - 1)).toInt = w.toInt / (2 ^ (bits - 1) : Nat) := by
      rw [BitVec.toInt_sshiftRight, Int.shiftRight_eq_div_pow]
    have hpos : (0 : Int) < ((2 ^ (bits - 1) : Nat) : Int) := by
      exact_mod_cast Nat.two_pow_pos (bits - 1)
    have hzero : w.sshiftRight (bits - 1) = 0 ↔ w.toInt / (2 ^ (bits - 1) : Nat) = 0 := by
      rw [← BitVec.toInt_inj, hint]
      rfl
    have hones : w.sshiftRight (bits - 1) = BitVec.allOnes 256 ↔
        w.toInt / (2 ^ (bits - 1) : Nat) = -1 := by
      rw [← BitVec.toInt_inj, hint, BitVec.toInt_allOnes]
      rfl
    simp only [fitsSigned, hwide, decide_false, Bool.false_or, Bool.or_eq_true, beq_iff_eq, hzero,
      hones]
    have hcast : ((2 ^ (bits - 1) : Nat) : Int) = 2 ^ (bits - 1) := by push_cast; rfl
    rw [Int.ediv_eq_iff_of_pos hpos, Int.ediv_eq_iff_of_pos hpos, hcast]
    rw [hcast] at hpos
    constructor
    · rintro (⟨h1, h2⟩ | ⟨h1, h2⟩) <;> constructor <;> linarith
    · rintro ⟨h1, h2⟩
      rcases Int.lt_or_le w.toInt 0 with hneg | hnonneg
      · exact Or.inr ⟨by linarith, by linarith⟩
      · exact Or.inl ⟨by linarith, by linarith⟩

/-- The same range on the unsigned number of the word: below the sign bit, or that close to the
top. -/
theorem fitsSigned_iff_toNat (w : Word) {bits : Nat} (hpos : 1 ≤ bits) (hbits : bits ≤ 256) :
    w.fitsSigned bits = true ↔
      w.toNat < 2 ^ (bits - 1) ∨ 2 ^ 256 - 2 ^ (bits - 1) ≤ w.toNat := by
  have hpow : 2 ^ (bits - 1) ≤ 2 ^ 255 := Nat.pow_le_pow_right (by decide) (by omega)
  have hcast : ((2 ^ (bits - 1) : Nat) : Int) = 2 ^ (bits - 1) := by push_cast; rfl
  have hlt : w.toNat < 2 ^ 256 := w.isLt
  rw [fitsSigned_iff, ← hcast, BitVec.toInt_eq_toNat_cond]
  generalize 2 ^ (bits - 1) = p at hpow
  split <;> omega

end Word

/-! ## Sign extension, byte by byte -/

/-- A number is written with one byte repeated only if it is the number of those bytes. -/
theorem bytesOfNat_all_eq {width n : Nat} (h : n < 256 ^ width) (b : UInt8) :
    (bytesOfNat width n).all (· == b) = true ↔ n = natOfBytes (List.replicate width b) := by
  have hall : (bytesOfNat width n).all (· == b) = true ↔
      bytesOfNat width n = List.replicate width b := by
    simp [List.eq_replicate_iff]
  rw [hall]
  constructor
  · intro heq
    rw [← heq, natOfBytes_bytesOfNat_of_lt h]
  · intro heq
    apply natOfBytes_inj (by simp)
    rw [natOfBytes_bytesOfNat_of_lt h, heq]

theorem natOfBytes_replicate_zero (width : Nat) : natOfBytes (List.replicate width 0) = 0 := by
  rw [← bytesOfNat_zero, natOfBytes_bytesOfNat, Nat.zero_mod]

theorem natOfBytes_replicate_ones (width : Nat) :
    natOfBytes (List.replicate width 255) = 256 ^ width - 1 := by
  induction width with
  | zero => rfl
  | succ width ih =>
    have hpos : 0 < 256 ^ width := Nat.pow_pos (by decide)
    have hbyte : (255 : UInt8).toNat = 255 := rfl
    rw [List.replicate_succ', natOfBytes_concat, ih, hbyte, Nat.pow_succ]
    omega

/-- The first byte of a number written in `width + 1` bytes holds its highest bits. -/
theorem getD_bytesOfNat (width n : Nat) :
    (bytesOfNat (width + 1) n).getD 0 0 = UInt8.ofNat (n / 256 ^ width) := by
  rw [Nat.add_comm, bytesOfNat_add]
  rfl

/-- The strict check looks at the bytes of a signed integer and accepts the words of its range. -/
theorem signExtended_toBytes (w : Word) {bits : Nat} (hdvd : 8 ∣ bits) (hpos : 1 ≤ bits)
    (hbits : bits ≤ 256) : Abi.signExtended w.toBytes bits = w.fitsSigned bits := by
  obtain ⟨k, rfl⟩ : ∃ k, bits = 8 * (k + 1) := ⟨bits / 8 - 1, by omega⟩
  have hk : k ≤ 31 := by omega
  have hwidth : 32 - 8 * (k + 1) / 8 = 31 - k := by omega
  have hbytes : w.toBytes = bytesOfNat ((31 - k) + (k + 1)) w.toNat := by
    rw [Word.toBytes, show (31 - k) + (k + 1) = 32 by omega]
  -- `q` holds the byte with the sign and all bytes before it.
  obtain ⟨q, hq⟩ : ∃ q, q = w.toNat / 256 ^ k := ⟨_, rfl⟩
  have hfront : w.toBytes.take (31 - k) = bytesOfNat (31 - k) (q / 256) := by
    rw [hbytes, take_bytesOfNat, hq, Nat.div_div_eq_div_mul, Nat.pow_succ]
  have hsign : (w.toBytes.getD (31 - k) 0).toNat = q % 256 := by
    have hdrop : w.toBytes.getD (31 - k) 0 = (w.toBytes.drop (31 - k)).getD 0 0 := by
      simp [List.getD_eq_getElem?_getD]
    rw [hdrop, hbytes, drop_bytesOfNat, getD_bytesOfNat, UInt8.toNat_ofNat', ← hq]
  have hP : 0 < 256 ^ k := Nat.pow_pos (by decide)
  have htop : 2 ^ 256 = 256 * 256 ^ (31 - k) * 256 ^ k := by
    rw [← Nat.pow_succ', ← Nat.pow_add, show 31 - k + 1 + k = 32 by omega]
    rfl
  have hhalf : 2 ^ (8 * (k + 1) - 1) = 128 * 256 ^ k := by
    rw [show 8 * (k + 1) - 1 = 7 + 8 * k by omega, Nat.pow_add, Nat.pow_mul]
  have hqlt : q < 256 * 256 ^ (31 - k) := by
    rw [hq, Nat.div_lt_iff_lt_mul hP, ← htop]
    exact w.isLt
  have hfits : w.fitsSigned (8 * (k + 1)) = true ↔ q < 128 ∨ 256 * 256 ^ (31 - k) - 128 ≤ q := by
    rw [Word.fitsSigned_iff_toNat w hpos hbits, hhalf, htop, hq, Nat.div_lt_iff_lt_mul hP,
      Nat.le_div_iff_mul_le hP, Nat.sub_mul]
  have hM : 0 < 256 ^ (31 - k) := Nat.pow_pos (by decide)
  have hdiv : q / 256 < 256 ^ (31 - k) := by omega
  rw [Bool.eq_iff_iff, hfits, Abi.signExtended, hwidth, hsign, hfront]
  split
  · rw [bytesOfNat_all_eq hdiv, natOfBytes_replicate_ones]
    generalize 256 ^ (31 - k) = M at *
    omega
  · rw [bytesOfNat_all_eq hdiv, natOfBytes_replicate_zero]
    generalize 256 ^ (31 - k) = M at *
    omega

theorem Word.fitsSigned_of_le {w : Word} {bits wide : Nat} (hle : bits ≤ wide)
    (h : w.fitsSigned bits = true) : w.fitsSigned wide = true := by
  rw [Word.fitsSigned_iff] at h ⊢
  have hpow : (2 ^ (bits - 1) : Int) ≤ 2 ^ (wide - 1) := by
    exact_mod_cast Nat.pow_le_pow_right (by decide) (by omega : bits - 1 ≤ wide - 1)
  omega

theorem signExtended_zero {word : List UInt8} (hlen : word.length = 32) :
    Abi.signExtended word 0 = word.all (· == 0) := by
  have hend : word.getD 32 0 = 0 := by simp [hlen]
  have hall : word.take 32 = word := List.take_of_length_le (Nat.le_of_eq hlen)
  simp only [Abi.signExtended, Nat.zero_div, Nat.sub_zero, hend, hall]
  rfl

/-- Words that the strict check accepts fit the width, also where that is not made of whole
bytes. -/
theorem fitsSigned_of_signExtended {w : Word} {bits : Nat}
    (h : Abi.signExtended w.toBytes bits = true) : w.fitsSigned bits = true := by
  by_cases hwide : 256 ≤ bits
  · simp [Word.fitsSigned, hwide]
  · have hbytes : Abi.signExtended w.toBytes (8 * (bits / 8)) = true := by
      rw [← h]
      unfold Abi.signExtended
      rw [Nat.mul_div_cancel_left _ (by decide)]
    by_cases hzero : bits / 8 = 0
    · -- no whole byte is left for the value, and the check wants all bytes to be zero
      rw [hzero, Nat.mul_zero, signExtended_zero w.length_toBytes] at hbytes
      have hlt : w.toNat < 256 ^ 32 := w.isLt
      have hw := (bytesOfNat_all_eq hlt 0).1 hbytes
      rw [natOfBytes_replicate_zero] at hw
      rw [Word.fitsSigned_iff, BitVec.toInt_eq_toNat_cond, hw]
      simp
    · rw [signExtended_toBytes w ⟨_, rfl⟩ (by omega) (by omega)] at hbytes
      exact Word.fitsSigned_of_le (by omega) hbytes

end EvmInspect
