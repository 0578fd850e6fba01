import EvmInspect.Proofs.Ty.Read
import EvmInspect.Proofs.Ty.Shape
import EvmInspect.Proofs.Ty.Token
/-!
# Types that are written

What type text can say.  A condition that the grammar grants wherever it puts a type together holds
at every depth of a type that is read from text: every width is one of an integer or of a fixed
byte string, every length and bound is addressable, and structs and their members have names that
can be read again.
-/

namespace EvmInspect

namespace Ty

variable {W : List Char → Prop} {p : Ty → Bool} {w : List Char} {ls rest : List Lexeme}

/-- The condition holds of each type that the grammar puts together from words of the kind `W`,
whatever its parts are. -/
structure Granted (W : List Char → Prop) (p : Ty → Bool) : Prop where
  elementary : ∀ {w t}, elementary? w = .ok (some t) → t.everywhere p = true
  bool : p .bool = true
  address : p .address = true
  bytes : ∀ {n}, n ≤ Size.limit → p (.bytes n) = true
  string : ∀ {n}, n ≤ Size.limit → p (.string n) = true
  array : ∀ {elem n}, n ≤ Size.limit → p (.array elem n) = true
  dynArray : ∀ {elem n}, n ≤ Size.limit → p (.dynArray elem n) = true
  tuple : ∀ {members}, p (.tuple members) = true
  struct : ∀ {w fields}, W w → FreeName w → (∀ f ∈ fields, W f.1.toList) →
    p (.struct (String.ofList w) fields) = true
  mapping : ∀ {key value}, p (.mapping key value) = true

/-- The condition holds at every depth of the types that the phrase stands for. -/
def Phrase.Everywhere (W : List Char → Prop) (p : Ty → Bool) : Phrase → Prop
  | .type t | .base t => t.everywhere p = true
  | .lengths elem t => elem.everywhere p = true → t.everywhere p = true
  | .members ts => ∀ t ∈ ts, t.everywhere p = true
  | .fields fs => ∀ f ∈ fs, W f.1.toList ∧ f.2.everywhere p = true

theorem Derives.subset {ph : Phrase} (h : Derives ph ls rest) : rest ⊆ ls := by
  induction h with
  | done _ => exact List.Subset.refl _
  | type _ _ ihbase ihlengths => exact List.Subset.trans ihlengths ihbase
  | member _ _ iht ihts | field _ _ iht ihts => grind
  | _ => grind

theorem Derives.granted (hp : Granted W p) {ph : Phrase} (h : Derives ph ls rest)
    (hw : ∀ w, .word w ∈ ls → W w) : ph.Everywhere W p := by
  induction h with
  | type hbase _ ihbase ihlengths =>
    exact ihlengths (fun w h => hw w (hbase.subset h)) (ihbase hw)
  | done _ => exact id
  | length hn _ ih =>
    intro helem
    exact ih (fun w h => hw w (by simp [h])) (by simp [everywhere, hp.array hn.fits, helem])
  | unit => simp [Phrase.Everywhere, everywhere, membersEverywhere, hp.tuple]
  | tuple _ ih =>
    have hmembers := ih (fun w h => hw w (by simp [h]))
    rw [Phrase.Everywhere, everywhere, Bool.and_eq_true, membersEverywhere_iff]
    exact ⟨hp.tuple, hmembers⟩
  | bool => exact hp.bool
  | address => exact hp.address
  | mapping hkey _ ihkey ihvalue =>
    have hkeyed := ihkey (fun w h => hw w (by simp [h]))
    have hvalued := ihvalue (fun w h => hw w (by simp [hkey.subset (List.mem_cons_of_mem _ h)]))
    rw [Phrase.Everywhere] at hkeyed hvalued
    simp [Phrase.Everywhere, everywhere, hp.mapping, hkeyed, hvalued]
  | dynArray _ hn ih =>
    have helem := ih (fun w h => hw w (by simp [h]))
    rw [Phrase.Everywhere] at helem
    simp [Phrase.Everywhere, everywhere, hp.dynArray hn.fits, helem]
  | bytes hn => exact hp.bytes hn.fits
  | string hn => exact hp.string hn.fits
  | elementary h => exact hp.elementary h
  | empty hfree =>
    have hname : p (.struct (String.ofList _) []) = true :=
      hp.struct (hw _ List.mem_cons_self) hfree (by simp)
    simp [Phrase.Everywhere, everywhere, fieldsEverywhere, hname]
  | struct hfree _ ih =>
    have hfields := ih (fun w h => hw w (by simp [h]))
    rw [Phrase.Everywhere, everywhere, Bool.and_eq_true, fieldsEverywhere_eq,
      membersEverywhere_iff]
    refine ⟨hp.struct (hw _ (by simp)) hfree fun f hf => (hfields f hf).1, ?_⟩
    simpa using fun t name hf => (hfields (name, t) hf).2
  | lastMember _ ih => exact List.forall_mem_singleton.2 (ih hw)
  | member ht _ iht ihts =>
    refine List.forall_mem_cons.2 ⟨iht hw, ihts fun w h => ?_⟩
    exact hw w (ht.subset (List.mem_cons_of_mem _ h))
  | lastField _ ih =>
    refine List.forall_mem_singleton.2 ⟨?_, ih fun w h => hw w (by simp [h])⟩
    simpa using hw _ List.mem_cons_self
  | field ht _ iht ihfs =>
    refine List.forall_mem_cons.2 ⟨⟨?_, iht fun w h => hw w (by simp [h])⟩, ihfs fun w h => ?_⟩
    · simpa using hw _ List.mem_cons_self
    · exact hw w (by simp [ht.subset (List.mem_cons_of_mem _ h)])

/-! ## What text can say -/

theorem width_of_elementary? {t : Ty} (h : elementary? w = .ok (some t)) :
    (∃ bits, (t = .uint bits ∨ t = .int bits) ∧ 8 ∣ bits ∧ 1 ≤ bits ∧ bits ≤ 256) ∨
      ∃ size, t = .fixedBytes size ∧ 1 ≤ size ∧ size ≤ 32 := by
  unfold elementary? at h
  simp only at h
  split at h
  · split at h <;> simp at h
  split at h
  · simp at h
  split at h
  · split at h
    · simp at h
    rename_i hsize
    simp only [Except.ok.injEq, Option.some.injEq] at h
    refine .inl ⟨natOfDigits (w.dropWhile fun c => !c.isDigit), ?_, by omega⟩
    rw [← h]
    split
    · exact .inl rfl
    · exact .inr rfl
  split at h
  · split at h
    · simp at h
    rename_i hsize
    simp only [Except.ok.injEq, Option.some.injEq] at h
    exact .inr ⟨_, h.symm, by omega⟩
  · simp at h

theorem granted_hasWidth : Granted W hasWidth where
  elementary h := by
    obtain ⟨bits, rfl | rfl, hbits⟩ | ⟨size, rfl, hsize⟩ := width_of_elementary? h
    · exact decide_eq_true hbits
    · exact decide_eq_true hbits
    · exact decide_eq_true hsize
  bool := rfl
  address := rfl
  bytes _ := rfl
  string _ := rfl
  array _ := rfl
  dynArray _ := rfl
  tuple := rfl
  struct _ _ _ := rfl
  mapping := rfl

theorem granted_hasBound : Granted W hasBound where
  elementary h := by
    obtain ⟨bits, rfl | rfl, -⟩ | ⟨size, rfl, -⟩ := width_of_elementary? h <;> rfl
  bool := rfl
  address := rfl
  bytes h := decide_eq_true h
  string h := decide_eq_true h
  array h := decide_eq_true h
  dynArray h := decide_eq_true h
  tuple := rfl
  struct _ _ _ := rfl
  mapping := rfl

instance : DecidablePred IsName := fun w =>
  inferInstanceAs (Decidable (w ≠ [] ∧ ∀ c ∈ w, isWordChar c = true))

instance : DecidablePred FreeName := fun w =>
  decidable_of_iff (w ∉ keywords ∧ elementary? w = .ok none)
    ⟨fun h => ⟨h.1, h.2⟩, fun h => ⟨h.notKeyword, h.notElementary⟩⟩

/-- A struct has a free word for a name, and its members have words for names. -/
def hasNames : Ty → Bool
  | .struct name fields =>
    IsName name.toList ∧ FreeName name.toList ∧ ∀ f ∈ fields, IsName f.1.toList
  | _ => true

/-- Every name in the type can be written as a word where it stands. -/
def named (t : Ty) : Bool := t.everywhere hasNames

theorem granted_hasNames : Granted IsName hasNames where
  elementary h := by
    obtain ⟨bits, rfl | rfl, -⟩ | ⟨size, rfl, -⟩ := width_of_elementary? h <;> rfl
  bool := rfl
  address := rfl
  bytes _ := rfl
  string _ := rfl
  array _ := rfl
  dynArray _ := rfl
  tuple := rfl
  struct hw hfree hfields := by
    simp only [hasNames, String.toList_ofList, decide_eq_true_eq]
    exact ⟨hw, hfree, hfields⟩
  mapping := rfl

/-- Widths, lengths and bounds in the type are those that type text can write. -/
def Written (t : Ty) : Prop := t.wellSized = true ∧ t.addressable = true

instance : DecidablePred Written := fun t =>
  inferInstanceAs (Decidable (t.wellSized = true ∧ t.addressable = true))

/-- Whatever type a text stands for, its widths, lengths and bounds are in range at every depth. -/
theorem written_of_parse {s : String} {t : Ty} (h : parse s = .ok t) : t.Written := by
  have hderives := parse_eq_ok_iff.1 h
  have hany : ∀ w, .word w ∈ lexemes (tokens s) → True := fun _ _ => trivial
  exact ⟨hderives.granted granted_hasWidth hany, hderives.granted granted_hasBound hany⟩

/-- Structs and members that a text declares have names that can be read again. -/
theorem named_of_parse {s : String} {t : Ty} (h : parse s = .ok t) : t.named = true := by
  have hderives := parse_eq_ok_iff.1 h
  exact hderives.granted granted_hasNames fun w hw => isName_of_mem_spelled hw

end Ty

end EvmInspect
