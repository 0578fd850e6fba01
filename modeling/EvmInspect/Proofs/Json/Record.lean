import EvmInspect.Json.Record
import EvmInspect.Proofs.Bytes
import EvmInspect.Proofs.Json.Text
import EvmInspect.Proofs.Table
/-!
# Records are read back from their documents

For each part of a record, what is read of the document that is written of it.  A reader may
accept more than one document for a value, with fields left out or digits spelled in another way;
it is faithful to a writer if it reads each of its values again from what is written of them.
-/

namespace EvmInspect.Json

variable {α β : Type} {read : Json → Option α} {write : α → Json}

/-! ## Parts of records -/

@[simp] theorem string?_string (s : String) : string? (.string s) = some s := rfl

@[simp] theorem bool?_bool (b : Bool) : bool? (.bool b) = some b := rfl

@[simp] theorem plain?_string (s : String) : plain? (.string s) = some s := rfl

theorem size?_ofNat {n : Nat} (h : n ≤ Size.limit) : size? (ofNat n) = some n := by
  have hfits : (0 : Int) ≤ n ∧ (n : Int) ≤ Size.limit := by omega
  rw [ofNat, size?, if_pos hfits, Int.toNat_natCast]

@[simp] theorem bytes?_ofBytes (bytes : List UInt8) : bytes? (ofBytes bytes) = some bytes :=
  Hex.decode_encode_bytes bytes

theorem fixedBytes?_ofBytes (bytes : List UInt8) :
    fixedBytes? bytes.length (ofBytes bytes) = some bytes := by
  simp [fixedBytes?]

@[simp] theorem word?_ofWord (w : Word) : word? (ofWord w) = some w := by
  have hbytes := fixedBytes?_ofBytes w.toBytes
  rw [Word.length_toBytes] at hbytes
  rw [word?, ofWord, Hex.ofWord, ← ofBytes, hbytes, Option.map_some, Word.ofBytes_toBytes]

@[simp] theorem address?_ofAddress (a : Address) : address? (ofAddress a) = some a := by
  have hbytes := fixedBytes?_ofBytes a.toBytes
  rw [Address.length_toBytes] at hbytes
  rw [address?, ofAddress, ← ofBytes, hbytes, Option.map_some, Address.ofBytes_toBytes]

@[simp] theorem number256?_ofNumber256 (w : Word) : number256? (ofNumber256 w) = some w :=
  Word.parse?_minimal w

theorem list?_array (as : List α) (h : ∀ a ∈ as, read (write a) = some a) :
    list? read (.array (as.map write)) = some as := by
  rw [list?, mapM_eq_some, List.forall₂_map_left_iff, List.forall₂_same]
  exact h

theorem nullable?_ofOption (o : Option α) (hnull : read .null = none)
    (h : ∀ a ∈ o, read (write a) = some a) : nullable? read (ofOption write o) = some o := by
  cases o with
  | none => rfl
  | some a =>
    have ha : read (write a) = some a := h a rfl
    have hne : write a ≠ .null := by
      intro heq
      rw [heq, hnull] at ha
      cases ha
    rw [ofOption, nullable?, ha, Option.map_some]
    exact hne

/-! ## Fields -/

theorem fields?_object {names : List String} {entries : List (String × Json)}
    (h : (entries.map Prod.fst).Nodup) :
    fields? names (.object entries) = some ⟨entries, false⟩ := by
  have honce : (names.all fun name => keyCount name entries ≤ 1) = true := by
    refine List.all_eq_true.2 fun name _ => decide_eq_true ?_
    have hcount := List.nodup_iff_count_le_one.1 h name
    rwa [List.count_eq_countP, List.countP_map] at hcount
  rw [fields?, if_pos honce]

theorem bind_of_eq_some {o : Option α} {a : α} (h : o = some a) (next : α → Option β) :
    (o >>= next) = next a := by
  rw [h]
  rfl

namespace Fields

variable {f : Fields} {name : String} {j : Json} {a : α}

@[simp] theorem get?_cons_self (name : String) (j : Json) (rest : List (String × Json))
    (listed : Bool) : (⟨(name, j) :: rest, listed⟩ : Fields).get? name = some j := by
  rw [get?, Table.lookup_cons, if_pos rfl]

/-- These fields are present, with these values. -/
def Has (f : Fields) : List (String × Json) → Prop
  | [] => True
  | e :: rest => f.get? e.1 = some e.2 ∧ f.Has rest

theorem has_of_mem {entries : List (String × Json)}
    (h : ∀ e ∈ entries, f.get? e.1 = some e.2) : f.Has entries := by
  induction entries with
  | nil => trivial
  | cons e rest ih =>
    rw [List.forall_mem_cons] at h
    exact ⟨h.1, ih h.2⟩

/-! What follows a field goes on with what is read of it. -/

theorem required_bind (h : f.get? name = some j) (hj : read j = some a) (next : α → Option β) :
    (f.required name read >>= next) = next a := by
  rw [required, h, Option.bind_some, hj]
  rfl

theorem orElse_bind {default : α} (h : f.get? name = some j) (hj : read j = some a)
    (next : α → Option β) : (f.orElse name default read >>= next) = next a := by
  simp only [orElse, h, hj]
  rfl

theorem optional_bind {o : Option α} (h : f.get? name = some j) (hj : nullable? read j = some o)
    (next : Option α → Option β) : (f.optional name read >>= next) = next o := by
  simp only [optional, h, hj]
  rfl

theorem optionalOrNone_bind {o : Option α} (h : f.get? name = some j)
    (hj : nullable? read j = some o) (next : Option α → Option β) :
    (f.optionalOrNone name read >>= next) = next o :=
  orElse_bind h hj next

end Fields

/-- An object whose fields have different names is read as a record of these fields. -/
theorem exists_fields {j : Json} {entries : List (String × Json)} (hj : j = .object entries)
    (h : (entries.map Prod.fst).Nodup) :
    ∃ f : Fields, (∀ names, j.fields? names = some f ∧ j.objectFields? names = some f) ∧
      f.Has entries := by
  subst hj
  refine ⟨⟨entries, false⟩, fun names => ⟨fields?_object h, fields?_object h⟩, ?_⟩
  exact Fields.has_of_mem fun e he => (Table.lookup_eq_some h).2 he

/-! ## Readers that are faithful -/

/-- Whatever is read of some document is read of the one that is written of it. -/
def Faithful (read : Json → Option α) (write : α → Json) : Prop :=
  ∀ j a, read j = some a → read (write a) = some a

namespace Faithful

theorem of_forall (h : ∀ a, read (write a) = some a) : Faithful read write := fun _ a _ => h a

theorem string : Faithful string? .string := of_forall string?_string

theorem bool : Faithful bool? .bool := of_forall bool?_bool

theorem bytes : Faithful bytes? ofBytes := of_forall bytes?_ofBytes

theorem size : Faithful size? ofNat := by
  intro j n h
  unfold size? at h
  split at h
  · rename_i m
    split at h
    · rename_i hfits
      cases h
      exact size?_ofNat (by omega)
    · cases h
  · cases h

theorem list (h : Faithful read write) :
    Faithful (list? read) fun as => .array (as.map write) := by
  intro j as has
  unfold list? at has
  split at has
  · have hread := mapM_eq_some.1 has
    exact list?_array as (forall_of_forall₂ (hread.imp fun j a hitem => h j a hitem))
  · cases has

theorem nullable (h : Faithful read write) (hnull : read .null = none) :
    Faithful (nullable? read) (ofOption write) := by
  intro j o ho
  refine nullable?_ofOption o hnull fun a ha => ?_
  unfold nullable? at ho
  split at ho
  · cases ho
    cases ha
  · obtain ⟨b, hb, rfl⟩ := Option.map_eq_some_iff.1 ho
    cases ha
    exact h _ _ hb

variable {f : Fields} {name : String} {next : α → Option β} {b : β}

/-- A record goes on with a value of the field that is read again. -/
theorem required (h : Faithful read write) (hb : (f.required name read >>= next) = some b) :
    ∃ a, read (write a) = some a ∧ next a = some b := by
  obtain ⟨a, ha, hnext⟩ := Option.bind_eq_some_iff.1 hb
  obtain ⟨j, -, hj⟩ := Option.bind_eq_some_iff.1 ha
  exact ⟨a, h j a hj, hnext⟩

theorem orElse {default : α} (h : Faithful read write)
    (hdefault : read (write default) = some default)
    (hb : (f.orElse name default read >>= next) = some b) :
    ∃ a, read (write a) = some a ∧ next a = some b := by
  obtain ⟨a, ha, hnext⟩ := Option.bind_eq_some_iff.1 hb
  refine ⟨a, ?_, hnext⟩
  unfold Fields.orElse at ha
  split at ha
  · exact h _ a ha
  · cases ha
    exact hdefault

theorem optionalOrNone {next : Option α → Option β} (h : Faithful read write)
    (hnull : read .null = none) (hb : (f.optionalOrNone name read >>= next) = some b) :
    ∃ o, nullable? read (ofOption write o) = some o ∧ next o = some b :=
  (h.nullable hnull).orElse rfl hb

end Faithful

/-! ## Documents without anything foreign -/

@[simp] theorem native_object {entries : List (String × Json)} :
    (Json.object entries).Native ↔ ∀ e ∈ entries, e.2.Native :=
  ⟨fun | .object h => h, .object⟩

@[simp] theorem native_array {items : List Json} :
    (Json.array items).Native ↔ ∀ j ∈ items, j.Native :=
  ⟨fun | .array h => h, .array⟩

@[simp] theorem native_string (s : String) : (Json.string s).Native := .string s

@[simp] theorem native_bool (b : Bool) : (Json.bool b).Native := .bool b

@[simp] theorem native_ofNat (n : Nat) : (ofNat n).Native := .int n

@[simp] theorem native_ofBytes (bytes : List UInt8) : (ofBytes bytes).Native := .string _

@[simp] theorem native_ofWord (w : Word) : (ofWord w).Native := .string _

@[simp] theorem native_ofAddress (a : Address) : (ofAddress a).Native := .string _

@[simp] theorem native_ofNumber256 (w : Word) : (ofNumber256 w).Native := .string _

theorem native_ofOption (h : ∀ a, (write a).Native) (o : Option α) :
    (ofOption write o).Native := by
  cases o with
  | none => exact .null
  | some a => exact h a

end EvmInspect.Json
