import EvmInspect.Address
import EvmInspect.Proofs.Bytes
import EvmInspect.Proofs.Digits
/-!
# Addresses are read back from their text

The mixed case of an address's text adds a checksum and takes nothing away: in lower case the text
is the digits again.
-/

namespace EvmInspect

namespace Hex

theorem toLower_digit {n : Nat} (h : n < 16) :
    (digit n).toLower = digit n ∧ (digit n).toUpper.toLower = digit n := by
  interval_cases n <;> decide

end Hex

namespace Address

variable {a b : Address}

def mixed (a : Address) : List Char :=
  (a.digits.zip (Hex.digits (Keccak.digestBytes (a.digits.map fun c => UInt8.ofNat c.toNat)))).map
    fun (c, mark) => if '8' ≤ mark then c.toUpper else c

theorem toList_checksum (a : Address) : a.checksum.toList = '0' :: 'x' :: a.mixed := by
  rw [checksum, String.toList_ofList, mixed]

theorem isAlphanum_checksum (a : Address) : ∀ c ∈ a.checksum.toList, c.isAlphanum = true := by
  rw [toList_checksum, List.forall_mem_cons, List.forall_mem_cons]
  refine ⟨by decide, by decide, fun c hc => ?_⟩
  simp only [mixed, List.mem_map, Prod.exists] at hc
  obtain ⟨d, mark, hmem, rfl⟩ := hc
  obtain ⟨n, hn, rfl⟩ := Hex.exists_digit_of_mem_digits (List.of_mem_zip hmem).1
  split
  · exact (Hex.isAlphanum_digit hn).2
  · exact (Hex.isAlphanum_digit hn).1

theorem map_toLower_mixed (a : Address) : a.mixed.map Char.toLower = a.digits := by
  have hdigest (message : List UInt8) : (Keccak.digestBytes message).length = 32 := rfl
  rw [mixed, List.map_map]
  calc _ = (a.digits.zip _).map Prod.fst := by
        refine List.map_congr_left ?_
        rintro ⟨c, mark⟩ hp
        obtain ⟨n, hn, rfl⟩ := Hex.exists_digit_of_mem_digits (List.of_mem_zip hp).1
        by_cases hmark : '8' ≤ mark
        · simpa [hmark] using (Hex.toLower_digit hn).2
        · simpa [hmark] using (Hex.toLower_digit hn).1
    _ = a.digits := by
        -- the digest has more digits than the address
        rw [List.map_fst_zip]
        rw [digits, Hex.length_digits, Hex.length_digits, hdigest, length_toBytes]
        decide

theorem digits_inj (h : a.digits = b.digits) : a = b := by
  have hbytes := congrArg Hex.decodeDigits h
  rw [digits, digits, Hex.decodeDigits_digits, Hex.decodeDigits_digits, Option.some.injEq] at hbytes
  rw [← ofBytes_toBytes a, hbytes, ofBytes_toBytes]

theorem checksum_inj (h : a.checksum = b.checksum) : a = b := by
  have hmixed := congrArg String.toList h
  rw [toList_checksum, toList_checksum, List.cons.injEq, List.cons.injEq] at hmixed
  apply digits_inj
  rw [← map_toLower_mixed a, hmixed.2.2, map_toLower_mixed]

end Address

end EvmInspect
