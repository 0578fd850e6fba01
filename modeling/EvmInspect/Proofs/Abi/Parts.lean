import EvmInspect.Abi.Encode
import EvmInspect.Proofs.Bytes
import EvmInspect.Proofs.Basic
/-!
# Where the parts of a sequence stand

An encoded sequence is read from its start: a static part stands at its place among the heads, and
the place of a dynamic part holds the distance to it.  The encoder's arithmetic of heads and tails
is met here once; the check and the reader only see where the parts stand.
-/

namespace EvmInspect.Value

/-! ## Heads and tails -/

@[simp] theorem length_numberWord (n : Nat) : (numberWord n).length = 32 := length_bytesOfNat _ _

def partHead (part : Bool × List UInt8) : Nat := if part.1 then 32 else part.2.length

theorem headsSize_cons (part : Bool × List UInt8) (parts : List (Bool × List UInt8)) :
    headsSize (part :: parts) = partHead part + headsSize parts := rfl

theorem layOut_dynamic (offset : Nat) (body : List UInt8) (parts : List (Bool × List UInt8)) :
    layOut offset ((true, body) :: parts) =
      (numberWord offset ++ (layOut (offset + body.length) parts).1,
        body ++ (layOut (offset + body.length) parts).2) := rfl

theorem layOut_static (offset : Nat) (body : List UInt8) (parts : List (Bool × List UInt8)) :
    layOut offset ((false, body) :: parts) =
      (body ++ (layOut offset parts).1, (layOut offset parts).2) := rfl

theorem length_heads (offset : Nat) (parts : List (Bool × List UInt8)) :
    (layOut offset parts).1.length = headsSize parts := by
  induction parts generalizing offset with
  | nil => rfl
  | cons part parts ih =>
    obtain ⟨dynamic, body⟩ := part
    cases dynamic with
    | true => rw [layOut_dynamic, List.length_append, ih, length_numberWord, headsSize_cons]; rfl
    | false => rw [layOut_static, List.length_append, ih, headsSize_cons]; rfl

theorem assemble_eq (parts : List (Bool × List UInt8)) :
    assemble parts =
      (layOut (headsSize parts) parts).1 ++ (layOut (headsSize parts) parts).2 := rfl

def tailsSize : List (Bool × List UInt8) → Nat
  | [] => 0
  | (dynamic, body) :: rest => (if dynamic then body.length else 0) + tailsSize rest

theorem length_tails (offset : Nat) (parts : List (Bool × List UInt8)) :
    (layOut offset parts).2.length = tailsSize parts := by
  induction parts generalizing offset with
  | nil => rfl
  | cons part parts ih =>
    obtain ⟨dynamic, body⟩ := part
    cases dynamic with
    | true => rw [layOut_dynamic, List.length_append, ih]; rfl
    | false => rw [layOut_static, ih]; simp [tailsSize]

theorem length_assemble (parts : List (Bool × List UInt8)) :
    (assemble parts).length = headsSize parts + tailsSize parts := by
  rw [assemble_eq, List.length_append, length_heads, length_tails]

theorem headsSize_le_length_assemble (parts : List (Bool × List UInt8)) :
    headsSize parts ≤ (assemble parts).length := by
  rw [length_assemble]
  exact Nat.le_add_right _ _

theorem length_assemble_static {parts : List (Bool × List UInt8)}
    (h : ∀ part ∈ parts, part.1 = false) : (assemble parts).length = headsSize parts := by
  have htails : tailsSize parts = 0 := by
    induction parts with
    | nil => rfl
    | cons part parts ih =>
      rw [List.forall_mem_cons] at h
      simp [tailsSize, h.1, ih h.2]
  rw [length_assemble, htails, Nat.add_zero]

/-! ## Places -/

/-- The part stands at `pos` of a region whose heads take `head` bytes: in place, or behind the
distance that is written there, which leads past the heads to bytes inside the region. -/
def Stands (region : List UInt8) (head pos : Nat) (part : Bool × List UInt8) : Prop :=
  if part.1 then
    ∃ offset, head ≤ offset ∧ offset < region.length ∧
      numberWord offset <+: region.drop pos ∧ part.2 <+: region.drop offset
  else part.2 <+: region.drop pos

/-- The parts stand one behind the other from `pos` on. -/
def StandFrom (region : List UInt8) (head : Nat) : (pos : Nat) → List (Bool × List UInt8) → Prop
  | _, [] => True
  | pos, part :: parts =>
    Stands region head pos part ∧ StandFrom region head (pos + partHead part) parts

theorem standFrom_of_layOut {region : List UInt8} {head : Nat} {parts : List (Bool × List UInt8)}
    {pos offset : Nat} (hbody : ∀ part ∈ parts, part.2 ≠ []) (hoffset : head ≤ offset)
    (hheads : (layOut offset parts).1 <+: region.drop pos)
    (htails : (layOut offset parts).2 <+: region.drop offset) :
    StandFrom region head pos parts := by
  induction parts generalizing pos offset with
  | nil => trivial
  | cons part parts ih =>
    obtain ⟨dynamic, body⟩ := part
    have hrest : ∀ p ∈ parts, p.2 ≠ [] := fun p hp => hbody p (List.mem_cons_of_mem _ hp)
    cases dynamic with
    | true =>
      rw [layOut_dynamic] at hheads htails
      obtain ⟨hword, hheads⟩ := append_prefix_drop.1 hheads
      obtain ⟨hhere, htails⟩ := append_prefix_drop.1 htails
      have hinside : offset < region.length := by
        have hlen := hhere.length_le
        have hpos : 0 < body.length := List.length_pos_iff.2 (hbody _ (List.mem_cons_self ..))
        rw [List.length_drop] at hlen
        omega
      rw [length_numberWord] at hheads
      exact ⟨⟨offset, hoffset, hinside, hword, hhere⟩,
        ih hrest (Nat.le_trans hoffset (Nat.le_add_right _ _)) hheads htails⟩
    | false =>
      rw [layOut_static] at hheads htails
      obtain ⟨hhere, hheads⟩ := append_prefix_drop.1 hheads
      exact ⟨hhere, ih hrest hoffset hheads htails⟩

theorem standFrom_of_assemble {region : List UInt8} {parts : List (Bool × List UInt8)}
    (hbody : ∀ part ∈ parts, part.2 ≠ []) (h : assemble parts <+: region) :
    StandFrom region (headsSize parts) 0 parts := by
  rw [assemble_eq, ← List.drop_zero (l := region)] at h
  obtain ⟨hheads, htails⟩ := append_prefix_drop.1 h
  rw [length_heads, Nat.zero_add] at htails
  exact standFrom_of_layOut hbody (Nat.le_refl _) hheads htails

end EvmInspect.Value
