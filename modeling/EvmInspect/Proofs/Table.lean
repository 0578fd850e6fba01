import EvmInspect.Table
import Mathlib.Data.List.Induction
import Mathlib.Data.List.Nodup
/-!
# Entries of a table

What setting a key does to a list of entries in which no key occurs twice.
-/

namespace EvmInspect.Table

variable {κ ν : Type} [DecidableEq κ]

theorem insertEntry_nil (key : κ) (value : ν) : insertEntry key value [] = [(key, value)] := rfl

theorem insertEntry_cons (key : κ) (value : ν) (e : κ × ν) (rest : List (κ × ν)) :
    insertEntry key value (e :: rest) =
      if e.1 = key then (key, value) :: rest else e :: insertEntry key value rest := rfl

theorem lookup_nil (key : κ) : lookup key ([] : List (κ × ν)) = none := rfl

theorem lookup_cons (key : κ) (e : κ × ν) (rest : List (κ × ν)) :
    lookup key (e :: rest) = if e.1 = key then some e.2 else lookup key rest := rfl

theorem mem_keys_insertEntry {key other : κ} {value : ν} {entries : List (κ × ν)} :
    other ∈ (insertEntry key value entries).map Prod.fst ↔
      other = key ∨ other ∈ entries.map Prod.fst := by
  induction entries with
  | nil => simp [insertEntry_nil]
  | cons e rest ih =>
    rw [insertEntry_cons]
    by_cases h : e.1 = key
    · simp only [h, if_true, List.map_cons, List.mem_cons]
      tauto
    · rw [if_neg h, List.map_cons, List.map_cons, List.mem_cons, List.mem_cons, ih]
      tauto

theorem nodup_keys_insertEntry {key : κ} {value : ν} {entries : List (κ × ν)}
    (h : (entries.map Prod.fst).Nodup) :
    ((insertEntry key value entries).map Prod.fst).Nodup := by
  induction entries with
  | nil => simp [insertEntry_nil]
  | cons e rest ih =>
    rw [List.map_cons, List.nodup_cons] at h
    rw [insertEntry_cons]
    by_cases hkey : e.1 = key
    · rw [if_pos hkey, List.map_cons, List.nodup_cons]
      exact ⟨hkey ▸ h.1, h.2⟩
    · rw [if_neg hkey, List.map_cons, List.nodup_cons, mem_keys_insertEntry]
      exact ⟨by tauto, ih h.2⟩

theorem mem_insertEntry {key : κ} {value : ν} {entries : List (κ × ν)}
    (h : (entries.map Prod.fst).Nodup) {e : κ × ν} :
    e ∈ insertEntry key value entries ↔ e = (key, value) ∨ e.1 ≠ key ∧ e ∈ entries := by
  induction entries with
  | nil => simp [insertEntry_nil]
  | cons d rest ih =>
    rw [List.map_cons, List.nodup_cons] at h
    rw [insertEntry_cons]
    by_cases hkey : d.1 = key
    · have hfresh (he : e ∈ rest) : e.1 ≠ key := by
        intro heq
        exact h.1 (hkey ▸ heq ▸ List.mem_map_of_mem he)
      rw [if_pos hkey, List.mem_cons, List.mem_cons]
      constructor
      · rintro (he | he)
        · exact .inl he
        · exact .inr ⟨hfresh he, .inr he⟩
      · rintro (he | ⟨hne, rfl | he⟩)
        · exact .inl he
        · exact absurd hkey hne
        · exact .inr he
    · rw [if_neg hkey, List.mem_cons, ih h.2, List.mem_cons]
      constructor
      · rintro (rfl | he | ⟨hne, he⟩)
        · exact .inr ⟨hkey, .inl rfl⟩
        · exact .inl he
        · exact .inr ⟨hne, .inr he⟩
      · rintro (he | ⟨hne, he | he⟩)
        · exact .inr (.inl he)
        · exact .inl he
        · exact .inr (.inr ⟨hne, he⟩)

theorem lookup_eq_some {key : κ} {value : ν} {entries : List (κ × ν)}
    (h : (entries.map Prod.fst).Nodup) :
    lookup key entries = some value ↔ (key, value) ∈ entries := by
  induction entries with
  | nil => simp [lookup_nil]
  | cons e rest ih =>
    rw [List.map_cons, List.nodup_cons] at h
    rw [lookup_cons, List.mem_cons]
    by_cases hkey : e.1 = key
    · have hfresh : (key, value) ∉ rest := by
        intro he
        exact h.1 (hkey ▸ List.mem_map_of_mem he)
      rw [if_pos hkey, Option.some.injEq]
      constructor
      · rintro rfl
        exact .inl (by rw [← hkey])
      · rintro (he | he)
        · rw [← he]
        · exact absurd he hfresh
    · rw [if_neg hkey, ih h.2]
      constructor
      · exact .inr
      · rintro (he | he)
        · exact absurd (by rw [← he]) hkey
        · exact he

theorem lookup_insertEntry {key other : κ} {value : ν} {entries : List (κ × ν)} :
    lookup other (insertEntry key value entries) =
      if key = other then some value else lookup other entries := by
  induction entries with
  | nil => rfl
  | cons e rest ih =>
    rw [insertEntry_cons]
    by_cases hkey : e.1 = key
    · rw [if_pos hkey, lookup_cons, lookup_cons, hkey]
      by_cases hother : key = other <;> simp [hother]
    · rw [if_neg hkey, lookup_cons, lookup_cons, ih]
      by_cases hother : key = other
      · subst hother
        simp [hkey]
      · simp [hother]

theorem lookup_append (key : κ) (front back : List (κ × ν)) :
    lookup key (front ++ back) = (lookup key front).or (lookup key back) := by
  induction front with
  | nil => rfl
  | cons e rest ih =>
    rw [List.cons_append, lookup_cons, lookup_cons]
    by_cases hkey : e.1 = key
    · simp [hkey]
    · simp [hkey, ih]

theorem lookup_eq_none {key : κ} {entries : List (κ × ν)} :
    lookup key entries = none ↔ key ∉ entries.map Prod.fst := by
  induction entries with
  | nil => simp [lookup_nil]
  | cons e rest ih =>
    rw [lookup_cons, List.map_cons, List.mem_cons, not_or]
    by_cases hkey : e.1 = key
    · simp [hkey]
    · rw [if_neg hkey, ih]
      tauto

theorem insertEntry_of_notMem {key : κ} {value : ν} {entries : List (κ × ν)}
    (h : key ∉ entries.map Prod.fst) :
    insertEntry key value entries = entries ++ [(key, value)] := by
  induction entries with
  | nil => rfl
  | cons e rest ih =>
    rw [List.map_cons, List.mem_cons, not_or] at h
    rw [insertEntry_cons, if_neg (Ne.symm h.1), ih h.2, List.cons_append]

theorem keys_insertEntry {key : κ} {value : ν} {entries : List (κ × ν)} :
    (insertEntry key value entries).map Prod.fst =
      if key ∈ entries.map Prod.fst then entries.map Prod.fst
      else entries.map Prod.fst ++ [key] := by
  by_cases hmem : key ∈ entries.map Prod.fst
  · rw [if_pos hmem]
    induction entries with
    | nil => exact absurd hmem List.not_mem_nil
    | cons e rest ih =>
      rw [insertEntry_cons]
      by_cases hkey : e.1 = key
      · rw [if_pos hkey, List.map_cons, List.map_cons, hkey]
      · rw [if_neg hkey, List.map_cons, List.map_cons, ih]
        exact (List.mem_cons.1 hmem).resolve_left (Ne.symm hkey)
  · rw [if_neg hmem, insertEntry_of_notMem hmem, List.map_append]
    rfl

theorem entries_foldl_insert {pairs : List (κ × ν)} {t : Table κ ν}
    (h : (t.entries.map Prod.fst ++ pairs.map Prod.fst).Nodup) :
    (pairs.foldl (fun t p => t.insert p.1 p.2) t).entries = t.entries ++ pairs := by
  induction pairs generalizing t with
  | nil => rw [List.foldl_nil, List.append_nil]
  | cons p rest ih =>
    have hfresh : p.1 ∉ t.entries.map Prod.fst := fun hmem =>
      (List.nodup_append.1 h).2.2 p.1 hmem p.1 (by simp) rfl
    have hinsert : (t.insert p.1 p.2).entries = t.entries ++ [p] := insertEntry_of_notMem hfresh
    rw [List.foldl_cons, ih (by simpa [hinsert] using h), hinsert, List.append_assoc,
      List.singleton_append]

theorem entries_ofList {pairs : List (κ × ν)} (h : (pairs.map Prod.fst).Nodup) :
    (ofList pairs).entries = pairs := by
  rw [ofList, entries_foldl_insert (by simpa using h), List.nil_append]

theorem nodup_keys_foldl_insert {pairs : List (κ × ν)} {t : Table κ ν}
    (h : (t.entries.map Prod.fst).Nodup) :
    ((pairs.foldl (fun t p => t.insert p.1 p.2) t).entries.map Prod.fst).Nodup := by
  induction pairs generalizing t with
  | nil => exact h
  | cons p rest ih => exact ih (nodup_keys_insertEntry h)

theorem nodup_keys_ofList (pairs : List (κ × ν)) :
    ((ofList pairs).entries.map Prod.fst).Nodup :=
  nodup_keys_foldl_insert List.nodup_nil

theorem mem_entries_foldl_insert {e : κ × ν} {pairs : List (κ × ν)} {t : Table κ ν}
    (hnodup : (t.entries.map Prod.fst).Nodup)
    (h : e ∈ (pairs.foldl (fun t p => t.insert p.1 p.2) t).entries) :
    e ∈ t.entries ∨ e ∈ pairs := by
  induction pairs generalizing t with
  | nil => exact .inl h
  | cons p rest ih =>
    obtain he | he := ih (nodup_keys_insertEntry hnodup) h
    · obtain rfl | ⟨-, he⟩ := (mem_insertEntry hnodup).1 he
      · exact .inr List.mem_cons_self
      · exact .inl he
    · exact .inr (List.mem_cons_of_mem p he)

theorem mem_of_mem_entries_ofList {e : κ × ν} {pairs : List (κ × ν)}
    (h : e ∈ (ofList pairs).entries) : e ∈ pairs :=
  (mem_entries_foldl_insert (t := ⟨[]⟩) List.nodup_nil h).resolve_left List.not_mem_nil

theorem get?_foldl_insert {key : κ} {pairs : List (κ × ν)} {t : Table κ ν}
    (h : key ∉ pairs.map Prod.fst) :
    (pairs.foldl (fun t p => t.insert p.1 p.2) t).get? key = t.get? key := by
  induction pairs generalizing t with
  | nil => rfl
  | cons p rest ih =>
    rw [List.map_cons, List.mem_cons, not_or] at h
    rw [List.foldl_cons, ih h.2, get?, insert, lookup_insertEntry, if_neg (Ne.symm h.1), get?]

theorem mem_of_lookup {key : κ} {value : ν} {entries : List (κ × ν)}
    (h : lookup key entries = some value) : (key, value) ∈ entries := by
  induction entries with
  | nil => exact nomatch h
  | cons e rest ih =>
    rw [lookup_cons] at h
    by_cases hkey : e.1 = key
    · rw [if_pos hkey, Option.some.injEq] at h
      rw [← hkey, ← h]
      exact List.mem_cons_self
    · rw [if_neg hkey] at h
      exact List.mem_cons_of_mem e (ih h)

theorem get?_ofList_eq (pairs : List (κ × ν)) (key : κ) :
    (ofList pairs).get? key =
      (pairs.reverse.find? fun p => decide (p.1 = key)).map Prod.snd := by
  induction pairs using List.reverseRecOn with
  | nil => rfl
  | append_singleton pairs p ih =>
    have hlast : ofList (pairs ++ [p]) = (ofList pairs).insert p.1 p.2 := by
      rw [ofList, List.foldl_append]
      rfl
    rw [hlast, get?, insert, lookup_insertEntry, List.reverse_append, List.reverse_singleton,
      List.singleton_append, List.find?_cons]
    by_cases hkey : p.1 = key
    · simp [hkey]
    · rw [if_neg hkey, decide_eq_false hkey]
      exact ih

theorem get?_ofList_of_last {key : κ} {value : ν} {before after : List (κ × ν)}
    (h : key ∉ after.map Prod.fst) :
    (ofList (before ++ (key, value) :: after)).get? key = some value := by
  rw [ofList, List.foldl_append, List.foldl_cons, get?_foldl_insert h, get?, insert,
    lookup_insertEntry, if_pos rfl]

end EvmInspect.Table
