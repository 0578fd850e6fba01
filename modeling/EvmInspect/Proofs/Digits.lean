import EvmInspect.Hex
import EvmInspect.Word.Literal
import Mathlib.Tactic.IntervalCases
/-!
# Digits

Numbers are read back from their decimal digits and from their digits in base 16, and bytes from
the pairs of digits that write them.
-/

namespace EvmInspect

/-! ## Decimal digits -/

theorem foldl_toDigits (n : Nat) :
    (Nat.toDigits 10 n).foldl (fun n c => 10 * n + (c.toNat - 48)) 0 = n :=
  Nat.ofDigitChars_toDigits (by decide) (by decide)

theorem toList_nat (n : Nat) : (toString n).toList = Nat.toDigits 10 n := by
  rw [Nat.toString_eq_repr, Nat.toList_repr]

theorem length_nat (n : Nat) : (toString n).length = (Nat.toDigits 10 n).length := by
  rw [← String.length_toList, toList_nat]

theorem length_toDigits_mono {m n : Nat} (h : m ≤ n) :
    (Nat.toDigits 10 m).length ≤ (Nat.toDigits 10 n).length := by
  have hpos : 0 < (Nat.toDigits 10 n).length := Nat.length_toDigits_pos
  have hlast := (Nat.length_toDigits_le_iff (by decide) hpos).1 (Nat.le_refl _)
  exact (Nat.length_toDigits_le_iff (by decide) hpos).2 (Nat.lt_of_le_of_lt h hlast)

theorem isDigit_toDigits (n : Nat) : ∀ c ∈ Nat.toDigits 10 n, c.isDigit = true :=
  fun _ h => Nat.isDigit_of_mem_toDigits (by decide) (by decide) h

theorem isAlphanum_nat (n : Nat) : ∀ c ∈ (toString n).toList, c.isAlphanum = true := by
  intro c hc
  rw [toList_nat] at hc
  simp [Char.isAlphanum, isDigit_toDigits n c hc]

theorem exists_toDigits_eq_cons (n : Nat) :
    ∃ c s, Nat.toDigits 10 n = c :: s ∧ c.isDigit = true := by
  obtain ⟨c, s, hdigits⟩ := List.exists_cons_of_ne_nil (Nat.toDigits_ne_nil (b := 10) (n := n))
  exact ⟨c, s, hdigits, isDigit_toDigits n c (hdigits ▸ List.mem_cons_self)⟩

theorem head?_toDigits_ne_zero {n : Nat} (h : 0 < n) : (Nat.toDigits 10 n).head? ≠ some '0' := by
  induction n using Nat.strongRecOn with
  | ind n ih =>
    by_cases hn : n < 10
    · rw [Nat.toDigits_of_lt_base hn]
      interval_cases n <;> decide
    · have hhigh := ih (n / 10) (by omega) (by omega)
      rw [Nat.toDigits_of_base_le (by decide) (by omega)]
      cases hdigits : Nat.toDigits 10 (n / 10) with
      | nil => exact absurd hdigits Nat.toDigits_ne_nil
      | cons c cs => simpa [hdigits] using hhigh

/-- A zero in front stands alone. -/
theorem canonical_toDigits (n : Nat) :
    ¬((Nat.toDigits 10 n).head? = some '0' ∧ 1 < (Nat.toDigits 10 n).length) := by
  rintro ⟨hzero, hlong⟩
  by_cases hn : n = 0
  · subst hn
    simp [Nat.toDigits_zero] at hlong
  · exact head?_toDigits_ne_zero (Nat.pos_of_ne_zero hn) hzero

namespace Hex

/-! ## Bytes -/

theorem digit?_digit {n : Nat} (h : n < 16) : digit? (digit n) = some n := by
  interval_cases n <;> rfl

theorem decodeDigits_digits (bytes : List UInt8) : decodeDigits (digits bytes) = some bytes := by
  induction bytes with
  | nil => rfl
  | cons b bytes ih =>
    have hb : b.toNat < 256 := b.toNat_lt
    have hbyte : UInt8.ofNat (16 * (b.toNat / 16) + b.toNat % 16) = b := by
      rw [Nat.div_add_mod, UInt8.ofNat_toNat]
    have hdigits : digits (b :: bytes) =
        digit (b.toNat / 16) :: digit (b.toNat % 16) :: digits bytes := rfl
    rw [hdigits, decodeDigits, digit?_digit (by omega), digit?_digit (by omega), ih]
    exact congrArg (fun b => some (b :: bytes)) hbyte

theorem length_digits (bytes : List UInt8) : (digits bytes).length = 2 * bytes.length := by
  induction bytes with
  | nil => rfl
  | cons b bytes ih =>
    have hcons : (digits (b :: bytes)).length = (digits bytes).length + 2 := rfl
    rw [hcons, ih, List.length_cons, Nat.mul_succ]

theorem exists_digit_of_mem_digits {bytes : List UInt8} {c : Char} (h : c ∈ digits bytes) :
    ∃ n < 16, c = digit n := by
  simp only [digits, List.mem_flatMap, List.mem_cons, List.not_mem_nil, or_false] at h
  obtain ⟨b, -, rfl | rfl⟩ := h
  · have hb : b.toNat < 256 := b.toNat_lt
    exact ⟨b.toNat / 16, by omega, rfl⟩
  · exact ⟨b.toNat % 16, Nat.mod_lt _ (by decide), rfl⟩

theorem isAlphanum_digit {n : Nat} (h : n < 16) :
    (digit n).isAlphanum = true ∧ (digit n).toUpper.isAlphanum = true := by
  interval_cases n <;> decide

theorem isAlphanum_encode (bytes : List UInt8) :
    ∀ c ∈ (encode bytes).toList, c.isAlphanum = true := by
  rw [encode, String.toList_ofList, List.forall_mem_cons, List.forall_mem_cons]
  refine ⟨by decide, by decide, fun c hc => ?_⟩
  obtain ⟨n, hn, rfl⟩ := exists_digit_of_mem_digits hc
  exact (isAlphanum_digit hn).1

@[simp] theorem decode_encode_bytes (bytes : List UInt8) : decode (encode bytes) = some bytes := by
  rw [decode, encode, String.toList_ofList, dropMark, decodeDigits_digits]

end Hex

/-! ## Literals in base 16 -/

namespace Word

theorem digit?_digitChar {d : Nat} (h : d < 16) : digit? d.digitChar = some d := by
  interval_cases d <;> rfl

theorem digitsFrom?_append (base n : Nat) (front back : List Char) :
    digitsFrom? base n (front ++ back) =
      (digitsFrom? base n front).bind fun m => digitsFrom? base m back := by
  induction front generalizing n with
  | nil => rfl
  | cons c front ih =>
    rw [List.cons_append]
    by_cases hc : c = '_'
    · subst hc
      exact ih n
    · cases hd : digit? c with
      | none => simp [digitsFrom?, hd]
      | some d =>
        by_cases hbase : d < base
        · simp [digitsFrom?, hd, hbase, ih]
        · simp [digitsFrom?, hd, hbase]

theorem digitsFrom?_digitChar {d : Nat} (h : d < 16) (n : Nat) :
    digitsFrom? 16 n [d.digitChar] = some (16 * n + d) := by
  have hmark : d.digitChar ≠ '_' := Nat.digitChar_ne '_' (by decide)
  simp [digitsFrom?, digit?_digitChar h, h]

theorem digitsFrom?_toDigits (n : Nat) : digitsFrom? 16 0 (Nat.toDigits 16 n) = some n := by
  induction n using Nat.strongRecOn with
  | ind n ih =>
    by_cases hn : n < 16
    · rw [Nat.toDigits_of_lt_base hn, digitsFrom?_digitChar hn, Nat.mul_zero, Nat.zero_add]
    · rw [Nat.toDigits_of_base_le (by decide) (by omega), digitsFrom?_append,
        ih (n / 16) (by omega), Option.bind_some, digitsFrom?_digitChar (Nat.mod_lt _ (by decide)),
        Nat.div_add_mod]

@[simp] theorem parse?_minimal (w : Word) : parse? (Hex.minimal w.toNat) = some w := by
  have htext : (Hex.minimal w.toNat).toList = '0' :: 'x' :: Nat.toDigits 16 w.toNat := by
    simp [Hex.minimal, Hex.natDigits]
  have hfits : w.toNat >>> 256 = 0 := by
    rw [Nat.shiftRight_eq_div_pow, Nat.div_eq_of_lt w.isLt]
  rw [parse?, htext, splitBase]
  simp only [digitsFrom?_toDigits, hfits, if_true, BitVec.ofNat_toNat, BitVec.setWidth_eq]

end Word

end EvmInspect
