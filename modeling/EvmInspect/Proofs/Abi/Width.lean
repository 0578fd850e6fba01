import EvmInspect.Proofs.Abi.Check
import EvmInspect.Proofs.Ty.Legal
/-!
# Widths that the checks accept

An integer is checked in three ways: the length in bits of an unsigned one, what is left of a signed
one when its value is shifted out, and, in an encoding, the bytes in front of a signed one.  All of
them accept the words whose numbers the declared width holds, up to the first and the last of them.
-/

namespace EvmInspect

variable {w : Word} {bits : Nat}

namespace Abi

variable {region : List UInt8}

theorem wordAt_start (base : Nat) (h : w.toBytes <+: region) :
    wordAt region 0 base = .ok w.toBytes :=
  wordAt_of_starts 0 base w.length_toBytes (by rwa [List.drop_zero])

theorem checkValue_uint_eq_ok (base : Nat) (h : w.toBytes <+: region) :
    checkValue (.uint bits) region base = .ok () ↔ w.fitsUnsigned bits = true := by
  rw [checkValue, wordAt_start base h]
  simp only [bind, Except.bind, require_eq_ok, Word.ofBytes_toBytes]

theorem checkValue_int_eq_ok (base : Nat) (h : w.toBytes <+: region) :
    checkValue (.int bits) region base = .ok () ↔ signExtended w.toBytes bits = true := by
  rw [checkValue, wordAt_start base h]
  simp only [bind, Except.bind, require_eq_ok]

/-- The checks of declared integers accept exactly the numbers of their width, and at the widths of
call types the strict check of an encoding accepts the same words. -/
theorem check_width_exact (w : Word) {bits : Nat} (hpos : 1 ≤ bits) :
    (Ty.checkUnsigned w bits = .ok () ↔ w.toNat < 2 ^ bits) ∧
      (Ty.checkSigned w bits = .ok () ↔
        -(2 ^ (bits - 1) : Int) ≤ w.toInt ∧ w.toInt < (2 ^ (bits - 1) : Int)) ∧
      (8 ∣ bits → bits ≤ 256 → ∀ (region : List UInt8) (base : Nat), w.toBytes <+: region →
        (checkValue (.uint bits) region base = .ok () ↔ Ty.checkUnsigned w bits = .ok ()) ∧
        (checkValue (.int bits) region base = .ok () ↔ Ty.checkSigned w bits = .ok ())) := by
  refine ⟨?_, ?_, fun hdvd hle region base h => ⟨?_, ?_⟩⟩
  · rw [Ty.checkUnsigned_eq_ok, Word.fitsUnsigned_iff]
  · rw [Ty.checkSigned_eq_ok, Word.fitsSigned_iff]
  · rw [checkValue_uint_eq_ok base h, Ty.checkUnsigned_eq_ok]
  · rw [checkValue_int_eq_ok base h, Ty.checkSigned_eq_ok, signExtended_toBytes w hdvd hpos hle]

/-- The least number of 16 bits passes as a signed one, and the number before it does not. -/
theorem check_width_least :
    Ty.checkSigned (Word.ofInt (-32768)) 16 = .ok () ∧
      checkValue (.int 16) (Word.ofInt (-32768)).toBytes 0 = .ok () ∧
      checkValue (.int 16) (Word.ofInt (-32769)).toBytes 0 ≠ .ok () := by
  obtain ⟨-, hleast, hsame⟩ := @check_width_exact (Word.ofInt (-32768)) 16 (by decide)
  obtain ⟨-, hbelow, hsame'⟩ := @check_width_exact (Word.ofInt (-32769)) 16 (by decide)
  have hok : Ty.checkSigned (Word.ofInt (-32768)) 16 = .ok () := hleast.2 (by decide +kernel)
  refine ⟨hok, (hsame (by decide) (by decide) _ 0 (List.prefix_refl _)).2.2 hok, fun h => ?_⟩
  have hfits := hbelow.1 ((hsame' (by decide) (by decide) _ 0 (List.prefix_refl _)).2.1 h)
  exact absurd hfits.1 (by decide +kernel)

end Abi

end EvmInspect
