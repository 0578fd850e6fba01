import EvmInspect.Storage.Reading
import EvmInspect.Proofs.Table
import Mathlib.Data.List.Nodup
/-!
# Leaves of mappings

The entries of a mapping are a tree, whose leaves are the readings that are no mappings.  In the
tree of a declared type every leaf stands behind the same number of keys.  There, setting the
reading at the end of a path gives that path this leaf and changes nothing at any other path, so
that setting any number of them gives a tree with exactly these leaves.
-/

namespace EvmInspect

namespace Reading

mutual

def leaves : Reading → List (List Key × Reading)
  | .mapping entries => entryLeaves entries
  | .value v => [([], .value v)]
  | .truncated => [([], .truncated)]
  | .invalid reason => [([], .invalid reason)]

def entryLeaves : List (Key × Reading) → List (List Key × Reading)
  | [] => []
  | e :: rest => (e.2.leaves.map fun l => (e.1 :: l.1, l.2)) ++ entryLeaves rest

end

def isMapping : Reading → Bool
  | .mapping _ => true
  | _ => false

/-- Every leaf stands behind exactly `n` keys, and no mapping has a key twice. -/
def Layered : (n : Nat) → Reading → Prop
  | 0, r => r.isMapping = false
  | n + 1, .mapping entries => (entries.map Prod.fst).Nodup ∧ ∀ e ∈ entries, Layered n e.2
  | _ + 1, _ => False

theorem leaves_of_isMapping_eq_false {r : Reading} (h : r.isMapping = false) :
    r.leaves = [([], r)] := by
  cases r <;> simp_all [isMapping, leaves]

theorem Layered.exists_entries {n : Nat} {r : Reading} (h : Layered (n + 1) r) :
    ∃ entries, r = .mapping entries := by
  cases r with
  | mapping entries => exact ⟨entries, rfl⟩
  | value | truncated | invalid => exact absurd h (by simp [Layered])

/-! ## Paths of leaves -/

theorem nil_notMem_entryLeaves (entries : Entries) (x : Reading) :
    ([], x) ∉ entryLeaves entries := by
  induction entries with
  | nil => simp [entryLeaves]
  | cons e rest ih => simp [entryLeaves, ih]

theorem cons_mem_entryLeaves {key : Key} {path : List Key} {x : Reading} {entries : Entries} :
    (key :: path, x) ∈ entryLeaves entries ↔
      ∃ r, (key, r) ∈ entries ∧ (path, x) ∈ r.leaves := by
  induction entries with
  | nil => simp [entryLeaves]
  | cons e rest ih =>
    obtain ⟨k, r⟩ := e
    simp only [entryLeaves, List.mem_append, List.mem_map, ih, List.mem_cons, Prod.mk.injEq,
      List.cons.injEq, Prod.exists]
    constructor
    · rintro (⟨p, y, hmem, ⟨rfl, rfl⟩, rfl⟩ | ⟨s, hs, hmem⟩)
      · exact ⟨r, .inl ⟨rfl, rfl⟩, hmem⟩
      · exact ⟨s, .inr hs, hmem⟩
    · rintro ⟨s, ⟨rfl, rfl⟩ | hs, hmem⟩
      · exact .inl ⟨path, x, hmem, ⟨rfl, rfl⟩, rfl⟩
      · exact .inr ⟨s, hs, hmem⟩

theorem length_of_mem_leaves {n : Nat} {r : Reading} (h : Layered n r) {l : List Key × Reading}
    (hl : l ∈ r.leaves) : l.1.length = n := by
  induction n generalizing r l with
  | zero =>
    rw [leaves_of_isMapping_eq_false h, List.mem_singleton] at hl
    rw [hl]
    rfl
  | succ n ih =>
    obtain ⟨entries, rfl⟩ := h.exists_entries
    obtain ⟨path, x⟩ := l
    cases path with
    | nil => exact absurd hl (nil_notMem_entryLeaves entries x)
    | cons key path =>
      obtain ⟨r, hr, hmem⟩ := cons_mem_entryLeaves.1 hl
      rw [List.length_cons, ih (h.2 _ hr) hmem]

theorem Layered.nodup_paths {n : Nat} {r : Reading} (h : Layered n r) :
    (r.leaves.map Prod.fst).Nodup := by
  induction n generalizing r with
  | zero =>
    rw [leaves_of_isMapping_eq_false h]
    simp
  | succ n ih =>
    obtain ⟨entries, rfl⟩ := h.exists_entries
    obtain ⟨hkeys, hbelow⟩ := h
    rw [leaves]
    induction entries with
    | nil => simp [entryLeaves]
    | cons e rest ihrest =>
      rw [List.map_cons, List.nodup_cons] at hkeys
      rw [List.forall_mem_cons] at hbelow
      have hfirst := (ih hbelow.1).map (List.cons_injective (a := e.1))
      rw [entryLeaves, List.map_append, List.map_map]
      rw [List.map_map] at hfirst
      refine List.Nodup.append hfirst (ihrest hkeys.2 hbelow.2) ?_
      -- the first key tells them apart
      intro path hhere hthere
      obtain ⟨l, -, rfl⟩ := List.mem_map.1 hhere
      obtain ⟨⟨_, x⟩, hmem, heq⟩ := List.mem_map.1 hthere
      simp only [Function.comp] at heq
      subst heq
      obtain ⟨r, hr, -⟩ := cons_mem_entryLeaves.1 hmem
      exact hkeys.1 (List.mem_map.2 ⟨(e.1, r), hr, rfl⟩)

end Reading

namespace Entries

open Reading

/-! ## Setting one leaf -/

def below (key : Key) (entries : Entries) : Entries :=
  match Table.lookup key entries with
  | some r => r.entries
  | none => []

theorem insertPath_cons_cons (reading : Reading) (key next : Key) (path : List Key)
    (entries : Entries) :
    insertPath reading (key :: next :: path) entries =
      Table.insertEntry key (.mapping (insertPath reading (next :: path) (below key entries)))
        entries := rfl

theorem layered_below {n : Nat} {entries : Entries} (key : Key)
    (h : Layered (n + 2) (.mapping entries)) : Layered (n + 1) (.mapping (below key entries)) := by
  unfold below
  cases hkey : Table.lookup key entries with
  | none => simp [Layered]
  | some r =>
    have hr := h.2 _ ((Table.lookup_eq_some h.1).1 hkey)
    obtain ⟨inner, rfl⟩ := hr.exists_entries
    exact hr

theorem mem_entryLeaves_below {n : Nat} {key : Key} {entries : Entries}
    (h : Layered (n + 2) (.mapping entries)) {path : List Key} {x : Reading} :
    (path, x) ∈ entryLeaves (below key entries) ↔ (key :: path, x) ∈ entryLeaves entries := by
  rw [cons_mem_entryLeaves]
  unfold below
  cases hkey : Table.lookup key entries with
  | none =>
    have hfresh := Table.lookup_eq_none.1 hkey
    simp only [entryLeaves, List.not_mem_nil, false_iff, not_exists, not_and]
    intro r hr
    exact absurd (List.mem_map.2 ⟨(key, r), hr, rfl⟩) hfresh
  | some r =>
    obtain ⟨inner, rfl⟩ := (h.2 _ ((Table.lookup_eq_some h.1).1 hkey)).exists_entries
    constructor
    · intro hmem
      exact ⟨_, (Table.lookup_eq_some h.1).1 hkey, hmem⟩
    · rintro ⟨r, hr, hmem⟩
      rw [(Table.lookup_eq_some h.1).2 hr, Option.some.injEq] at hkey
      subst hkey
      exact hmem

theorem layered_insertEntry {n : Nat} {key : Key} {r : Reading} {entries : Entries}
    (h : Layered (n + 1) (.mapping entries)) (hr : Layered n r) :
    Layered (n + 1) (.mapping (Table.insertEntry key r entries)) := by
  refine ⟨Table.nodup_keys_insertEntry h.1, fun e he => ?_⟩
  rcases (Table.mem_insertEntry h.1).1 he with rfl | ⟨-, he⟩
  · exact hr
  · exact h.2 e he

theorem mem_entryLeaves_insertEntry {key k : Key} {r x : Reading} {entries : Entries}
    (h : (entries.map Prod.fst).Nodup) {path : List Key} :
    (k :: path, x) ∈ entryLeaves (Table.insertEntry key r entries) ↔
      k = key ∧ (path, x) ∈ r.leaves ∨ k ≠ key ∧ (k :: path, x) ∈ entryLeaves entries := by
  simp only [cons_mem_entryLeaves, Table.mem_insertEntry h, Prod.mk.injEq]
  constructor
  · rintro ⟨s, ⟨rfl, rfl⟩ | ⟨hne, hs⟩, hmem⟩
    · exact .inl ⟨rfl, hmem⟩
    · exact .inr ⟨hne, s, hs, hmem⟩
  · rintro (⟨rfl, hmem⟩ | ⟨hne, s, hs, hmem⟩)
    · exact ⟨r, .inl ⟨rfl, rfl⟩, hmem⟩
    · exact ⟨s, .inr ⟨hne, hs⟩, hmem⟩

theorem layered_insertPath {n : Nat} {reading : Reading} {path : List Key} {entries : Entries}
    (hleaf : reading.isMapping = false) (hlen : path.length = n + 1)
    (h : Layered (n + 1) (.mapping entries)) :
    Layered (n + 1) (.mapping (insertPath reading path entries)) := by
  induction n generalizing path entries with
  | zero =>
    obtain ⟨key, rfl⟩ := List.length_eq_one_iff.1 hlen
    exact layered_insertEntry h hleaf
  | succ n ih =>
    obtain ⟨key, next, path, rfl⟩ : ∃ key next rest, path = key :: next :: rest := by
      match path, hlen with
      | key :: next :: rest, _ => exact ⟨key, next, rest, rfl⟩
    rw [insertPath_cons_cons]
    exact layered_insertEntry h (ih (Nat.succ.inj hlen) (layered_below key h))

/-- The path that was set leads to the new leaf, and every other one leads where it did. -/
theorem mem_entryLeaves_insertPath {n : Nat} {reading : Reading} {path : List Key}
    {entries : Entries} (hleaf : reading.isMapping = false) (hlen : path.length = n + 1)
    (h : Layered (n + 1) (.mapping entries)) {l : List Key × Reading} :
    l ∈ entryLeaves (insertPath reading path entries) ↔
      l = (path, reading) ∨ l.1 ≠ path ∧ l ∈ entryLeaves entries := by
  induction n generalizing path entries l with
  | zero =>
    obtain ⟨key, rfl⟩ := List.length_eq_one_iff.1 hlen
    obtain ⟨_ | ⟨k, rest⟩, x⟩ := l
    · simp [nil_notMem_entryLeaves]
    · rw [insertPath, mem_entryLeaves_insertEntry h.1, leaves_of_isMapping_eq_false hleaf]
      -- a leaf below one key is below no other one
      have hshort (hmem : (k :: rest, x) ∈ entryLeaves entries) : rest = [] := by
        have hlen := length_of_mem_leaves h hmem
        exact List.length_eq_zero_iff.1 (Nat.succ.inj hlen)
      simp only [List.mem_singleton, Prod.mk.injEq, List.cons.injEq, ne_eq]
      tauto
  | succ n ih =>
    obtain ⟨key, next, path, rfl⟩ : ∃ key next rest, path = key :: next :: rest := by
      match path, hlen with
      | key :: next :: rest, _ => exact ⟨key, next, rest, rfl⟩
    obtain ⟨_ | ⟨k, rest⟩, x⟩ := l
    · simp [nil_notMem_entryLeaves]
    · rw [insertPath_cons_cons, mem_entryLeaves_insertEntry h.1, leaves,
        ih (Nat.succ.inj hlen) (layered_below key h), mem_entryLeaves_below h]
      simp only [Prod.mk.injEq, List.cons.injEq, ne_eq]
      by_cases hk : k = key
      · subst hk
        simp
      · simp [hk]

/-! ## Setting many leaves -/

def insertAll (leaves : List (List Key × Reading)) (entries : Entries) : Entries :=
  leaves.foldl (fun entries l => insertPath l.2 l.1 entries) entries

theorem insertAll_cons (l : List Key × Reading) (leaves : List (List Key × Reading))
    (entries : Entries) :
    insertAll (l :: leaves) entries = insertAll leaves (insertPath l.2 l.1 entries) := rfl

theorem layered_insertAll {n : Nat} {leaves : List (List Key × Reading)} {entries : Entries}
    (hleaf : ∀ l ∈ leaves, l.2.isMapping = false) (hlen : ∀ l ∈ leaves, l.1.length = n + 1)
    (h : Layered (n + 1) (.mapping entries)) :
    Layered (n + 1) (.mapping (insertAll leaves entries)) := by
  induction leaves generalizing entries with
  | nil => exact h
  | cons l leaves ih =>
    rw [List.forall_mem_cons] at hleaf hlen
    rw [insertAll_cons]
    exact ih hleaf.2 hlen.2 (layered_insertPath hleaf.1 hlen.1 h)

theorem mem_entryLeaves_insertAll_iff {n : Nat} {leaves : List (List Key × Reading)}
    {entries : Entries} (hleaf : ∀ l ∈ leaves, l.2.isMapping = false)
    (hlen : ∀ l ∈ leaves, l.1.length = n + 1) (h : Layered (n + 1) (.mapping entries))
    {l : List Key × Reading} :
    l ∈ entryLeaves (insertAll leaves entries) ↔
      (∃ front back, leaves = front ++ l :: back ∧ ∀ m ∈ back, m.1 = l.1 → m = l) ∨
      (∀ m ∈ leaves, m.1 ≠ l.1) ∧ l ∈ entryLeaves entries := by
  induction leaves generalizing entries with
  | nil => simp [insertAll]
  | cons m leaves ih =>
    rw [List.forall_mem_cons] at hleaf hlen
    rw [insertAll_cons, ih hleaf.2 hlen.2 (layered_insertPath hleaf.1 hlen.1 h),
      mem_entryLeaves_insertPath hleaf.1 hlen.1 h, List.forall_mem_cons]
    constructor
    · rintro (⟨front, back, rfl, hlast⟩ | ⟨hnone, rfl | ⟨hne, hl⟩⟩)
      · exact .inl ⟨m :: front, back, rfl, hlast⟩
      · exact .inl ⟨[], leaves, rfl, fun a ha heq => absurd heq (hnone a ha)⟩
      · exact .inr ⟨⟨Ne.symm hne, hnone⟩, hl⟩
    · rintro (⟨_ | ⟨a, front⟩, back, heq, hlast⟩ | ⟨⟨hne, hnone⟩, hl⟩)
      · obtain ⟨rfl, rfl⟩ := List.cons.inj heq
        -- the leaf that is set first is set again, or else nothing is set at its path
        by_cases hm : m ∈ leaves
        · obtain ⟨front, back, rfl⟩ := List.append_of_mem hm
          refine .inl ⟨front, back, rfl, fun a ha => hlast a ?_⟩
          exact List.mem_append_right _ (List.mem_cons_of_mem _ ha)
        · exact .inr ⟨fun a ha hpath => hm (hlast a ha hpath ▸ ha), .inl rfl⟩
      · obtain ⟨-, rfl⟩ := List.cons.inj heq
        exact .inl ⟨front, back, rfl, hlast⟩
      · exact .inr ⟨hnone, .inr ⟨Ne.symm hne, hl⟩⟩

/-- Leaves that are set together are all there, and no others at their paths, provided that none
takes the path of another one. -/
theorem mem_entryLeaves_insertAll {n : Nat} {leaves : List (List Key × Reading)}
    {entries : Entries} (hleaf : ∀ l ∈ leaves, l.2.isMapping = false)
    (hlen : ∀ l ∈ leaves, l.1.length = n + 1)
    (hpath : ∀ l ∈ leaves, ∀ m ∈ leaves, l.1 = m.1 → l = m)
    (h : Layered (n + 1) (.mapping entries)) {l : List Key × Reading} :
    l ∈ entryLeaves (insertAll leaves entries) ↔
      l ∈ leaves ∨ (∀ m ∈ leaves, m.1 ≠ l.1) ∧ l ∈ entryLeaves entries := by
  rw [mem_entryLeaves_insertAll_iff hleaf hlen h]
  apply or_congr_left
  constructor
  · rintro ⟨front, back, rfl, -⟩
    simp
  · intro hl
    obtain ⟨front, back, rfl⟩ := List.append_of_mem hl
    refine ⟨front, back, rfl, fun m hm => hpath m ?_ l hl⟩
    exact List.mem_append_right _ (List.mem_cons_of_mem _ hm)

end Entries

end EvmInspect
