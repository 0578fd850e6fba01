import EvmInspect.Proofs.Storage.Leaves
/-!
# Trees of entries

A path of keys leads from a mapping to the readings below it.  Setting the reading at the end of a
path puts it there, replaces what is in its way, and changes nothing beside the path.  On the way
keys keep their places and a new key comes last.  Whatever is set one after the other in an empty
mapping, no mapping in the tree has a key twice.
-/

namespace EvmInspect

namespace Reading

def follow : Reading → List Key → Option Reading
  | r, [] => some r
  | r, key :: path => (Entries.get? r.entries key).bind fun inner => inner.follow path

/-- The keys of the mapping to which a path leads, in their order; there are none elsewhere. -/
def keysAt (r : Reading) (path : List Key) : List Key :=
  match r.follow path with
  | some inner => inner.entries.map Prod.fst
  | none => []

inductive Distinct : Reading → Prop
  | value (v : Declared) : Distinct (.value v)
  | truncated : Distinct .truncated
  | invalid (reason : String) : Distinct (.invalid reason)
  | mapping {entries : Entries} (hkeys : (entries.map Prod.fst).Nodup)
      (hbelow : ∀ e ∈ entries, Distinct e.2) : Distinct (.mapping entries)

theorem follow_cons (entries : Entries) (key : Key) (path : List Key) :
    (mapping entries).follow (key :: path) =
      (Table.lookup key entries).bind fun inner => inner.follow path := rfl

theorem follow_append (r : Reading) (front back : List Key) :
    r.follow (front ++ back) = (r.follow front).bind fun inner => inner.follow back := by
  induction front generalizing r with
  | nil => rfl
  | cons key front ih =>
    rw [List.cons_append, follow, follow, Option.bind_assoc]
    exact Option.bind_congr fun inner _ => ih inner

theorem keysAt_nil (entries : Entries) : (mapping entries).keysAt [] = entries.map Prod.fst := rfl

theorem keysAt_append {r inner : Reading} {front : List Key} (h : r.follow front = some inner)
    (back : List Key) : r.keysAt (front ++ back) = inner.keysAt back := by
  rw [keysAt, follow_append, h, keysAt]
  rfl

theorem Distinct.of_entries_eq_nil {r : Reading} (h : r.entries = []) : r.Distinct := by
  cases r with
  | value v => exact .value v
  | truncated => exact .truncated
  | invalid reason => exact .invalid reason
  | mapping entries =>
    change entries = [] at h
    subst h
    exact .mapping List.nodup_nil (by simp)

end Reading

namespace Entries

open Reading

variable {reading : Reading} {path : List Key} {entries : Entries}

theorem insertPath_cons (reading : Reading) (key : Key) {path : List Key} (hpath : path ≠ [])
    (entries : Entries) :
    insertPath reading (key :: path) entries =
      Table.insertEntry key (.mapping (insertPath reading path (below key entries))) entries := by
  cases path with
  | nil => exact absurd rfl hpath
  | cons next path => exact insertPath_cons_cons reading key next path entries

theorem exists_insertEntry (reading : Reading) (key : Key) (path : List Key) (entries : Entries) :
    ∃ r, insertPath reading (key :: path) entries = Table.insertEntry key r entries := by
  cases path with
  | nil => exact ⟨reading, rfl⟩
  | cons next path => exact ⟨_, insertPath_cons_cons reading key next path entries⟩

/-! ## Below a key -/

theorem follow_below (key next : Key) (path : List Key) (entries : Entries) :
    (mapping (below key entries)).follow (next :: path) =
      (mapping entries).follow (key :: next :: path) := by
  rw [follow_cons, follow_cons, below]
  cases Table.lookup key entries with
  | none => rfl
  | some r => rfl

theorem keysAt_below (key : Key) (path : List Key) (entries : Entries) :
    (mapping (below key entries)).keysAt path = (mapping entries).keysAt (key :: path) := by
  cases path with
  | nil =>
    rw [keysAt_nil, keysAt, follow_cons, below]
    cases Table.lookup key entries with
    | none => rfl
    | some r => rfl
  | cons next path => rw [keysAt, keysAt, follow_below]

theorem follow_insertEntry_self (key : Key) (r : Reading) (path : List Key) (entries : Entries) :
    (mapping (Table.insertEntry key r entries)).follow (key :: path) = r.follow path := by
  rw [follow_cons, Table.lookup_insertEntry, if_pos rfl]
  rfl

theorem follow_insertEntry_of_ne {key other : Key} (hne : key ≠ other) (r : Reading)
    (path : List Key) (entries : Entries) :
    (mapping (Table.insertEntry key r entries)).follow (other :: path) =
      (mapping entries).follow (other :: path) := by
  rw [follow_cons, follow_cons, Table.lookup_insertEntry, if_neg hne]

theorem distinct_below (key : Key) (h : (mapping entries).Distinct) :
    (mapping (below key entries)).Distinct := by
  obtain ⟨hkeys, hbelow⟩ : (entries.map Prod.fst).Nodup ∧ ∀ e ∈ entries, e.2.Distinct := by
    cases h with
    | mapping hkeys hbelow => exact ⟨hkeys, hbelow⟩
  unfold below
  cases hkey : Table.lookup key entries with
  | none => exact .of_entries_eq_nil rfl
  | some r =>
    have hr := hbelow _ ((Table.lookup_eq_some hkeys).1 hkey)
    cases r with
    | mapping inner => exact hr
    | value | truncated | invalid => exact .of_entries_eq_nil rfl

/-! ## Setting one reading -/

/-- What setting the reading at the end of a path makes of a tree. -/
structure SetAt (path : List Key) (reading : Reading) (before after : Reading) : Prop where
  /-- The path leads to the reading. -/
  found : after.follow path = some reading
  /-- A path that is neither on the way nor goes on behind it leads where it did. -/
  frame : ∀ other, ¬ other <+: path → ¬ path <+: other → after.follow other = before.follow other
  /-- In the mappings on the way the keys keep their places, and the next key of the path comes
  last if it is new. -/
  onTheWay : ∀ front key back, path = front ++ key :: back →
    after.keysAt front =
      if key ∈ before.keysAt front then before.keysAt front else before.keysAt front ++ [key]
  /-- Behind the path there are the keys of the reading. -/
  behind : ∀ rest, after.keysAt (path ++ rest) = reading.keysAt rest
  /-- The mappings beside the path keep their keys. -/
  beside : ∀ other, ¬ other <+: path → ¬ path <+: other → after.keysAt other = before.keysAt other

theorem follow_insertPath_self (reading : Reading) (hpath : path ≠ []) (entries : Entries) :
    (mapping (insertPath reading path entries)).follow path = some reading := by
  induction path generalizing entries with
  | nil => exact absurd rfl hpath
  | cons key path ih =>
    by_cases hrest : path = []
    · subst hrest
      exact follow_insertEntry_self key reading [] entries
    · rw [insertPath_cons reading key hrest, follow_insertEntry_self, ih hrest]

theorem follow_insertPath_of_not_prefix (reading : Reading) (entries : Entries)
    {other : List Key} (hother : ¬ other <+: path) (hpath : ¬ path <+: other) :
    (mapping (insertPath reading path entries)).follow other = (mapping entries).follow other := by
  induction path generalizing entries other with
  | nil => exact absurd (List.nil_prefix) hpath
  | cons key path ih =>
    cases other with
    | nil => exact absurd (List.nil_prefix) hother
    | cons first rest =>
      by_cases hfirst : key = first
      · subst hfirst
        rw [List.prefix_cons_inj] at hother hpath
        have hne : path ≠ [] := by
          rintro rfl
          exact hpath List.nil_prefix
        rw [insertPath_cons reading key hne, follow_insertEntry_self, ih _ hother hpath]
        -- the way below the key is not at its end
        cases rest with
        | nil => exact absurd List.nil_prefix hother
        | cons next rest => exact follow_below key next rest entries
      · obtain ⟨r, hr⟩ := exists_insertEntry reading key path entries
        rw [hr, follow_insertEntry_of_ne hfirst]

theorem keysAt_insertPath (reading : Reading) (front : List Key) (key : Key) (back : List Key)
    (entries : Entries) :
    (mapping (insertPath reading (front ++ key :: back) entries)).keysAt front =
      if key ∈ (mapping entries).keysAt front then (mapping entries).keysAt front
      else (mapping entries).keysAt front ++ [key] := by
  induction front generalizing entries with
  | nil =>
    obtain ⟨r, hr⟩ := exists_insertEntry reading key back entries
    rw [List.nil_append, hr, keysAt_nil, keysAt_nil, Table.keys_insertEntry]
  | cons first front ih =>
    rw [List.cons_append, insertPath_cons reading first (by simp), keysAt,
      follow_insertEntry_self, ← keysAt, ih, keysAt_below]

theorem setAt_insertPath (reading : Reading) (hpath : path ≠ []) (entries : Entries) :
    SetAt path reading (.mapping entries) (.mapping (insertPath reading path entries)) where
  found := follow_insertPath_self reading hpath entries
  frame other hother hbehind := follow_insertPath_of_not_prefix reading entries hother hbehind
  onTheWay := by
    rintro front key back rfl
    exact keysAt_insertPath reading front key back entries
  behind := keysAt_append (follow_insertPath_self reading hpath entries)
  beside other hother hbehind := by
    rw [keysAt, follow_insertPath_of_not_prefix reading entries hother hbehind, keysAt]

theorem distinct_insertEntry (key : Key) (h : (mapping entries).Distinct)
    (hreading : reading.Distinct) :
    (mapping (Table.insertEntry key reading entries)).Distinct := by
  cases h with
  | mapping hkeys hbelow =>
    refine .mapping (Table.nodup_keys_insertEntry hkeys) fun e he => ?_
    obtain rfl | ⟨-, he⟩ := (Table.mem_insertEntry hkeys).1 he
    · exact hreading
    · exact hbelow e he

theorem distinct_insertPath (h : (mapping entries).Distinct) (hreading : reading.Distinct) :
    (mapping (insertPath reading path entries)).Distinct := by
  induction path generalizing entries with
  | nil => exact h
  | cons key path ih =>
    by_cases hpath : path = []
    · subst hpath
      exact distinct_insertEntry key h hreading
    · rw [insertPath_cons reading key hpath]
      exact distinct_insertEntry key h (ih (distinct_below key h))

/-! ## Setting one reading after the other -/

inductive Built : Entries → Prop
  | empty : Built []
  | set {entries : Entries} (path : List Key) (reading : Reading) (hreading : reading.entries = [])
      (h : Built entries) : Built (insertPath reading path entries)

theorem Built.distinct (h : Built entries) : (mapping entries).Distinct := by
  induction h with
  | empty => exact .of_entries_eq_nil rfl
  | set path reading hreading _ ih => exact distinct_insertPath ih (.of_entries_eq_nil hreading)

/-- A tree that is built from the empty one is a map from paths: no mapping in it has a key twice,
and what is set at the end of a path is found there, changes no path beside it and moves no key. -/
theorem pathMap_of_built (h : Built entries) :
    (mapping entries).Distinct ∧ ∀ path reading, path ≠ [] →
      SetAt path reading (.mapping entries) (.mapping (insertPath reading path entries)) :=
  ⟨h.distinct, fun _ reading hpath => setAt_insertPath reading hpath entries⟩

/-- An empty mapping beside a mapping that has taken the place of what was set there first. -/
def regrown : Entries :=
  [(.label "a", .mapping [(.label "b", .truncated)]), (.label "c", .mapping [])]

/-- There the reading at a path of two keys has given way to one at the first of them, and that to
a mapping again.  A second key below the first comes behind the one that is there. -/
theorem pathMap_of_built_regrown :
    Built regrown ∧ (mapping regrown).Distinct ∧ [Key.label "a", .label "d"] ≠ [] ∧
      SetAt [.label "a", .label "d"] (.invalid "e") (.mapping regrown)
        (.mapping [(.label "a", .mapping [(.label "b", .truncated), (.label "d", .invalid "e")]),
          (.label "c", .mapping [])]) := by
  have hbuilt : Built regrown :=
    .set [.label "a", .label "b"] .truncated rfl <|
    .set [.label "c"] (.mapping []) rfl <|
    .set [.label "a"] (.invalid "e") rfl <|
    .set [.label "a", .label "d"] .truncated rfl .empty
  have hmap := pathMap_of_built hbuilt
  have hpath : [Key.label "a", .label "d"] ≠ [] := List.cons_ne_nil _ _
  exact ⟨hbuilt, hmap.1, hpath, hmap.2 _ (.invalid "e") hpath⟩

end Entries

end EvmInspect
