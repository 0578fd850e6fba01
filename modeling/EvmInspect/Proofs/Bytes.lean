import EvmInspect.Text.Utf8
import EvmInspect.Word
import Mathlib.Algebra.Group.Nat.Defs
import Mathlib.Data.List.Induction
/-!
# Numbers, words and texts as bytes

Writing a number of a fixed width and reading it back, the parts of a written number, and the same
for words, addresses and texts.
-/

namespace EvmInspect

/-! ## Numbers -/

@[simp] theorem length_bytesOfNat (width n : Nat) : (bytesOfNat width n).length = width := by
  induction width generalizing n with
  | zero => rfl
  | succ width ih => simp [bytesOfNat, ih]

@[simp] theorem natOfBytes_nil : natOfBytes [] = 0 := rfl

theorem natOfBytes_concat (bytes : List UInt8) (b : UInt8) :
    natOfBytes (bytes ++ [b]) = natOfBytes bytes * 256 + b.toNat := by
  simp [natOfBytes]

/-- Only the low bytes of a number survive being written in a fixed width. -/
theorem natOfBytes_bytesOfNat (width n : Nat) :
    natOfBytes (bytesOfNat width n) = n % 256 ^ width := by
  induction width generalizing n with
  | zero => simp [bytesOfNat, Nat.mod_one]
  | succ width ih =>
    have hbyte : (UInt8.ofNat n).toNat = n % 256 := by simp
    rw [bytesOfNat, natOfBytes_concat, ih, hbyte, Nat.pow_succ, Nat.mul_comm (256 ^ width) 256,
      Nat.mod_mul]
    omega

theorem natOfBytes_bytesOfNat_of_lt {width n : Nat} (h : n < 256 ^ width) :
    natOfBytes (bytesOfNat width n) = n := by
  rw [natOfBytes_bytesOfNat, Nat.mod_eq_of_lt h]

theorem natOfBytes_lt (bytes : List UInt8) : natOfBytes bytes < 256 ^ bytes.length := by
  induction bytes using List.reverseRecOn with
  | nil => simp
  | append_singleton bytes b ih =>
    have hb : b.toNat < 256 := b.toNat_lt
    rw [natOfBytes_concat, List.length_append, List.length_singleton, Nat.pow_succ]
    omega

theorem bytesOfNat_natOfBytes (bytes : List UInt8) :
    bytesOfNat bytes.length (natOfBytes bytes) = bytes := by
  induction bytes using List.reverseRecOn with
  | nil => rfl
  | append_singleton bytes b ih =>
    have hb : b.toNat < 256 := b.toNat_lt
    have hhigh : (natOfBytes bytes * 256 + b.toNat) / 256 = natOfBytes bytes := by omega
    have hlow : UInt8.ofNat (natOfBytes bytes * 256 + b.toNat) = b := by
      apply UInt8.toNat_inj.1
      simp only [UInt8.toNat_ofNat']
      omega
    rw [natOfBytes_concat, List.length_append, List.length_singleton, bytesOfNat, hhigh, ih, hlow]

theorem natOfBytes_inj {xs ys : List UInt8} (hlen : xs.length = ys.length)
    (h : natOfBytes xs = natOfBytes ys) : xs = ys := by
  rw [← bytesOfNat_natOfBytes xs, ← bytesOfNat_natOfBytes ys, hlen, h]

/-- A number in `high + low` bytes is its quotient in the high bytes followed by its low bytes. -/
theorem bytesOfNat_add (high low n : Nat) :
    bytesOfNat (high + low) n = bytesOfNat high (n / 256 ^ low) ++ bytesOfNat low n := by
  induction low generalizing n with
  | zero => simp [bytesOfNat]
  | succ low ih =>
    rw [← Nat.add_assoc, bytesOfNat, ih, bytesOfNat, Nat.div_div_eq_div_mul, Nat.pow_succ',
      List.append_assoc]

theorem take_bytesOfNat (high low n : Nat) :
    (bytesOfNat (high + low) n).take high = bytesOfNat high (n / 256 ^ low) := by
  rw [bytesOfNat_add, List.take_left' (length_bytesOfNat _ _)]

theorem drop_bytesOfNat (high low n : Nat) :
    (bytesOfNat (high + low) n).drop high = bytesOfNat low n := by
  rw [bytesOfNat_add, List.drop_left' (length_bytesOfNat _ _)]

theorem bytesOfNat_zero (width : Nat) : bytesOfNat width 0 = List.replicate width 0 := by
  induction width with
  | zero => rfl
  | succ width ih =>
    have hz : UInt8.ofNat 0 = 0 := rfl
    rw [bytesOfNat, Nat.zero_div, ih, hz, List.replicate_succ']

/-! ## Words -/

namespace Word

@[simp] theorem length_toBytes (w : Word) : w.toBytes.length = 32 := length_bytesOfNat _ _

theorem natOfBytes_toBytes (w : Word) : natOfBytes w.toBytes = w.toNat := by
  have hw : w.toNat < 256 ^ 32 := w.isLt
  exact natOfBytes_bytesOfNat_of_lt hw

@[simp] theorem ofBytes_toBytes (w : Word) : ofBytes w.toBytes = w := by
  rw [ofBytes, natOfBytes_toBytes, BitVec.ofNat_toNat, BitVec.setWidth_eq]

theorem toBytes_inj {v w : Word} (h : v.toBytes = w.toBytes) : v = w := by
  rw [← ofBytes_toBytes v, h, ofBytes_toBytes]

theorem toBytes_ofBytes {bytes : List UInt8} (h : bytes.length = 32) :
    (ofBytes bytes).toBytes = bytes := by
  have hlt : natOfBytes bytes < 2 ^ 256 := by
    have := natOfBytes_lt bytes
    rw [h] at this
    exact this
  rw [toBytes, ofBytes, BitVec.toNat_ofNat, Nat.mod_eq_of_lt hlt, ← h]
  exact bytesOfNat_natOfBytes bytes

/-- A truth value is one exactly if it is not zero. -/
theorem bit_eq {w : Word} (hw : w.toNat ≤ 1) : (w == 1) = (w.toNat != 0) := by
  rw [Bool.eq_iff_iff, beq_iff_eq, bne_iff_ne, ← BitVec.toNat_inj]
  have hone : (1 : Word).toNat = 1 := rfl
  omega

theorem toNat_bit {w : Word} (hw : w.toNat ≤ 1) : (if w == 1 then 1 else 0) = w.toNat := by
  rw [bit_eq hw]
  by_cases hzero : w.toNat = 0
  · simp [hzero]
  · simp only [bne_iff_ne, ne_eq, hzero, not_false_eq_true, if_true]
    omega

end Word

namespace Address

theorem toNat_toWord (a : Address) : a.toWord.toNat = a.toNat := by
  have ha : a.toNat < 2 ^ 160 := a.isLt
  rw [toWord, BitVec.toNat_ofNat, Nat.mod_eq_of_lt (Nat.lt_trans ha (by decide))]

@[simp] theorem length_toBytes (a : Address) : a.toBytes.length = 20 := length_bytesOfNat _ _

@[simp] theorem ofBytes_toBytes (a : Address) : ofBytes a.toBytes = a := by
  have ha : a.toNat < 256 ^ 20 := a.isLt
  rw [ofBytes, toBytes, natOfBytes_bytesOfNat_of_lt ha, BitVec.ofNat_toNat, BitVec.setWidth_eq]

/-- An address stands in the low 20 bytes of its word. -/
theorem toBytes_toWord (a : Address) :
    a.toWord.toBytes = List.replicate 12 0 ++ a.toBytes := by
  have ha : a.toNat < 256 ^ 20 := a.isLt
  rw [Word.toBytes, toNat_toWord, show (32 : Nat) = 12 + 20 from rfl, bytesOfNat_add,
    Nat.div_eq_of_lt ha, bytesOfNat_zero, toBytes]

/-- A word that has nothing before its low 20 bytes is the word of an address. -/
theorem toWord_ofNat {w : Word} (h : w.toNat >>> 160 = 0) :
    toWord (BitVec.ofNat 160 w.toNat) = w := by
  have hlt : w.toNat < 2 ^ 160 := by
    rw [Nat.shiftRight_eq_div_pow] at h
    omega
  apply BitVec.eq_of_toNat_eq
  rw [toNat_toWord, BitVec.toNat_ofNat, Nat.mod_eq_of_lt hlt]

end Address

/-! ## Texts -/

namespace Text

@[simp] theorem length_toUtf8 (s : String) : (toUtf8 s).length = s.utf8ByteSize := by
  rfl

@[simp] theorem ofUtf8?_toUtf8 (s : String) : ofUtf8? (toUtf8 s) = some s := by
  have harray : (⟨(toUtf8 s).toArray⟩ : ByteArray) = s.toByteArray := by simp [toUtf8]
  unfold ofUtf8?
  simp only [harray]
  rw [dif_pos s.isValidUTF8]

@[simp] theorem ofUtf8Replacing_toUtf8 (s : String) : ofUtf8Replacing (toUtf8 s) = s := by
  rw [ofUtf8Replacing, ofUtf8?_toUtf8]

theorem utf8ByteSize_ofUtf8Replacing {bytes : List UInt8} (h : (ofUtf8? bytes).isSome = true) :
    (ofUtf8Replacing bytes).utf8ByteSize = bytes.length := by
  unfold ofUtf8Replacing
  cases hs : ofUtf8? bytes with
  | none => simp [hs] at h
  | some s =>
    unfold ofUtf8? at hs
    simp only [Option.dite_none_right_eq_some, Option.some.injEq] at hs
    obtain ⟨hvalid, rfl⟩ := hs
    rfl

end Text

end EvmInspect
