import EvmInspect.Abi.Codec
import EvmInspect.Proofs.Basic
/-!
# What decoding yields

Decoding succeeds exactly if each of its three steps does, and parameters that take any bytes give
one value for each type.
-/

namespace EvmInspect.Abi

variable {types : List Ty} {abi : List AbiType} {data region : List UInt8} {values : List Value}

theorem decode_eq_ok :
    decode types data = .ok values ↔ ∃ abi, abiTypes types = .ok abi ∧ check abi data = .ok () ∧
      read abi data = .ok values ∧ checkResults 0 types values = .ok () := by
  unfold decode decodeWith
  rw [bind_eq_ok]
  constructor
  · rintro ⟨abi, habi, h⟩
    refine ⟨abi, habi, ?_⟩
    cases hcheck : check abi data with
    | error fault => simp [hcheck] at h
    | ok =>
      cases hread : read abi data with
      | error fault => simp [hcheck, hread] at h
      | ok read =>
        cases hresults : checkResults 0 types read with
        | error reason =>
          simp [hcheck, hread, hresults] at h
        | ok =>
          simp only [hcheck, hread, hresults, pure_eq_ok] at h
          subst h
          exact ⟨rfl, rfl, hresults⟩
  · rintro ⟨abi, habi, hcheck, hread, hresults⟩
    refine ⟨abi, habi, ?_⟩
    simp only [hcheck, hread, hresults, pure_eq_ok]

theorem length_of_readMembers {pos depth last : Nat}
    (h : readMembers abi region pos depth = .ok (values, last)) : values.length = abi.length := by
  induction abi generalizing pos values last with
  | nil =>
    simp only [readMembers, Except.ok.injEq, Prod.mk.injEq] at h
    rw [← h.1]
    rfl
  | cons a abi ih =>
    simp only [readMembers, bind_eq_ok, pure_eq_ok, Prod.exists, Prod.mk.injEq] at h
    obtain ⟨v, next, -, vs, last', hvs, rfl, -⟩ := h
    rw [List.length_cons, List.length_cons, ih hvs]

theorem length_of_read (habi : AbiType.allEmpty abi = false) (h : read abi data = .ok values) :
    values.length = abi.length := by
  rw [read, habi] at h
  cases hmembers : readMembers abi data 0 0 with
  | error fault => simp [hmembers, Except.map] at h
  | ok p =>
    simp only [hmembers, Except.map, Bool.false_eq_true, if_false, Except.ok.injEq] at h
    rw [← h]
    exact length_of_readMembers hmembers

theorem exists_of_decode_word {t : Ty} (hword : t.isWord = true)
    (h : decode [t] data = .ok values) : ∃ v, values = [v] := by
  obtain ⟨abi, habi, -, hread, -⟩ := decode_eq_ok.1 h
  have hlength : values.length = 1 := by
    cases t <;> simp [Ty.isWord] at hword <;> cases habi <;> exact length_of_read rfl hread
  exact List.length_eq_one_iff.1 hlength

end EvmInspect.Abi
