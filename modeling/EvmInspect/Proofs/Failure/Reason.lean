import EvmInspect.Failure.Expectation
import EvmInspect.Proofs.Abi.RoundTrip
/-!
# Texts of reverts

A source that reverts with a text leaves it behind a selector, in the encoding of one parameter.
The text comes back from there whatever its length and its letters are, and expectations are
compared with it: those of a revert with it alone, and those of any text with it, the compiler's
words and the developer's remark.
-/

namespace EvmInspect

variable {s v : String}

namespace Abi

/-- The standard encoding of a text as the only parameter: the offset of its length, its length in
bytes, and its bytes filled up with zeros to whole words. -/
def textData (s : String) : List UInt8 :=
  bytesOfNat 32 32 ++ (bytesOfNat 32 s.utf8ByteSize ++
    (Text.toUtf8 s ++ List.replicate ((32 - s.utf8ByteSize % 32) % 32) 0))

theorem encodeAll_text (s : String) : Value.encodeAll [.string s] = textData s := by
  simp [Value.encodeAll, Value.parts, Value.assemble, Value.layOut, Value.headsSize,
    Value.isDynamic, Value.encode, Value.numberWord, Value.padded, textData]

theorem utf8ByteSize_le_length_textData (s : String) :
    s.utf8ByteSize ≤ (textData s).length := by
  simp only [textData, List.length_append, Text.length_toUtf8]
  omega

theorem parameters_text : parameters "(string)" = .ok [.string Size.limit] := by
  decide +kernel

theorem forall₂_text :
    List.Forall₂ (fun t a => t.abiType? = some a) [Ty.string Size.limit] [AbiType.string] :=
  .cons rfl .nil

theorem forall₂_legal_text (h : s.utf8ByteSize ≤ Size.limit) :
    List.Forall₂ Ty.Legal [.string Size.limit] [.string s] :=
  .cons (.string h) .nil

theorem encodeSignature_text (h : s.utf8ByteSize ≤ Size.limit) :
    encodeSignature "(string)" [.string s] = .ok (textData s) := by
  rw [encodeSignature, parameters_text, ← encodeAll_text]
  exact encode_of_legal forall₂_text (forall₂_legal_text h)

theorem decodeSignature_text (h : (textData s).length ≤ Size.limit) :
    decodeSignature "(string)" (textData s) = .ok [.string s] := by
  have hlegal := forall₂_legal_text (Nat.le_trans (utf8ByteSize_le_length_textData s) h)
  have hsized : ∀ t ∈ [Ty.string Size.limit], t.wellSized = true := by decide
  have hsolid : ∀ t ∈ [Ty.string Size.limit], t.solid = true := by decide
  have hdepth : Value.nestings [.string s] ≤ depthLimit := by
    simp [Value.nestings, Value.nesting, depthLimit]
  have hdecode := decode_encodeAll forall₂_text hsized hsolid hlegal rfl
    (by rwa [encodeAll_text]) hdepth
  rw [encodeAll_text] at hdecode
  simp only [decodeSignature, parameters_text, bind, Except.bind, hdecode]

end Abi

namespace VmError

theorem payloadText?_text (h : (Abi.textData s).length ≤ Size.limit) :
    payloadText? (textSelector ++ Abi.textData s) = some s := by
  have htake : (textSelector ++ Abi.textData s).take 4 = textSelector :=
    List.take_left' rfl
  have hdrop : (textSelector ++ Abi.textData s).drop 4 = Abi.textData s :=
    List.drop_left' rfl
  rw [payloadText?, if_pos htake, hdrop, Abi.decodeSignature_text h]

theorem text_revert (h : (Abi.textData s).length ≤ Size.limit) :
    (revert (textSelector ++ Abi.textData s)).text = s := by
  rw [text, payloadText?_text h]

end VmError

namespace FailureDetail

variable {d : FailureDetail}

theorem ensure_eq_ok {condition : Bool} {mismatch : Mismatch} :
    ensure condition mismatch = .ok () ↔ condition = true := by
  cases condition <;> simp [ensure]

theorem checkKind_eq_ok :
    d.checkKind = .ok () ↔ ∀ a ∈ d.remark, a.kind ∉ reservedKinds := by
  rw [checkKind]
  cases d.remark with
  | none => simp
  | some a => simp [ensure_eq_ok]

theorem matchRevert_eq_ok :
    d.matchRevert v = .ok () ↔ d.detail = some revertWithReason ∧ d.error.text = v := by
  rw [matchRevert, check_bind_eq_ok, ensure_eq_ok, ensure_eq_ok, beq_iff_eq, beq_iff_eq]

/-- The words of any reason will do, also those of a remark whose kind is reserved. -/
theorem meets_any_eq_ok :
    d.meets (.any v) = .ok () ↔
      v = d.error.text ∨ d.detail = some v ∨ ∃ a ∈ d.remark, a.text = v := by
  rw [meets, ensure_eq_ok, Bool.or_eq_true, Bool.or_eq_true, beq_iff_eq, beq_iff_eq, or_assoc,
    Option.any_eq_true, eq_comm]
  simp

/-- The machine's words alone will not do: the compiler has to say that the source reverts with a
text, and the remark has to be of a kind of its own. -/
theorem meets_revert_eq_ok :
    d.meets (.revert v) = .ok () ↔
      v = d.error.text ∧ d.detail = some revertWithReason ∧
        ∀ a ∈ d.remark, a.kind ∉ reservedKinds := by
  rw [meets, check_bind_eq_ok, checkKind_eq_ok, matchRevert_eq_ok]
  constructor
  · rintro ⟨hkinds, hdetail, htext⟩
    exact ⟨htext.symm, hdetail, hkinds⟩
  · rintro ⟨htext, hdetail, hkinds⟩
    exact ⟨hkinds, hdetail, htext.symm⟩

/-- A failure that carries a text in its standard encoding is put into words by this text.  It is an
expected revert with exactly this text, if the compiler says so and no remark of a reserved kind
stands in the way, and it meets a bare expectation of this text, of the compiler's words and of the
text of the remark. -/
theorem meets_of_textRevert {d : FailureDetail} {s : String}
    (hsize : (Abi.textData s).length ≤ Size.limit)
    (herror : d.error = .revert (VmError.textSelector ++ Abi.textData s)) :
    Abi.encodeSignature "(string)" [.string s] = .ok (Abi.textData s) ∧ d.error.text = s ∧
      ∀ v : String,
        (d.meets (.keyword "vm_error" v) = .ok () ↔
          v = s ∧ d.detail = some "user revert with reason" ∧
            ∀ a ∈ d.remark, a.kind ≠ "vm_error" ∧ a.kind ≠ "compiler") ∧
        (d.meets (.any v) = .ok () ↔
          v = s ∨ d.detail = some v ∨ ∃ a ∈ d.remark, a.text = v) := by
  have htext : d.error.text = s := by rw [herror, VmError.text_revert hsize]
  have hencode := Abi.encodeSignature_text
    (Nat.le_trans (Abi.utf8ByteSize_le_length_textData s) hsize)
  refine ⟨hencode, htext, fun v => ⟨?_, ?_⟩⟩
  · have hkeyword : Expectation.keyword "vm_error" v = .revert v := rfl
    have hkinds : (∀ a ∈ d.remark, a.kind ∉ reservedKinds) ↔
        ∀ a ∈ d.remark, a.kind ≠ "vm_error" ∧ a.kind ≠ "compiler" := by
      simp [reservedKinds]
    rw [hkeyword, meets_revert_eq_ok, hkinds, htext, revertWithReason]
  · rw [meets_any_eq_ok, htext]

/-- A text of several words with a letter of several bytes, next to a remark: the revert is expected
by its text and not by the remark's, which a bare expectation may name as well. -/
theorem meets_of_textRevert_remarked :
    let s := "a payment of 12 € is above the limit of 10 €"
    let d : FailureDetail :=
      { error := .revert (VmError.textSelector ++ Abi.textData s)
        detail := some "user revert with reason"
        remark := some ⟨"dev", "too much"⟩ }
    d.error.text = s ∧ d.meets (.keyword "vm_error" s) = .ok () ∧
      d.meets (.keyword "vm_error" "too much") ≠ .ok () ∧ d.meets (.any "too much") = .ok () := by
  intro s d
  have hsize : (Abi.textData s).length ≤ Size.limit := by decide +kernel
  have hkinds : ∀ a ∈ d.remark, a.kind ≠ "vm_error" ∧ a.kind ≠ "compiler" := by simp [d]
  obtain ⟨-, htext, hmeets⟩ := @meets_of_textRevert d s hsize rfl
  refine ⟨htext, (hmeets s).1.2 ⟨rfl, rfl, hkinds⟩, fun h => ?_,
    (hmeets _).2.2 (.inr (.inr ⟨_, rfl, rfl⟩))⟩
  exact absurd ((hmeets _).1.1 h).1 (by decide)

end FailureDetail

end EvmInspect
