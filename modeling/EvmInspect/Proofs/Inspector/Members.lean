import EvmInspect.Inspector.Basic
import EvmInspect.Proofs.Contract.Immutables
import EvmInspect.Proofs.Storage.Containment
/-!
# One member and all of them

A variable can be asked for by its name, and all variables of storage and all immutables can be
listed.  As long as no two variables have one name, and no function that can be called from outside
has that of a variable, both ways tell the same.  The storage is not listed where reading one of its
variables stops the program, although others can still be asked for.
-/

namespace EvmInspect

theorem sublist_map_filterMap {α β κ : Type} {f : α → Option β} {name : α → κ} {name' : β → κ}
    (as : List α) (h : ∀ a b, f a = some b → name' b = name a) :
    List.Sublist ((as.filterMap f).map name') (as.map name) := by
  induction as with
  | nil => exact List.Sublist.refl []
  | cons a as ih =>
    rw [List.map_cons]
    cases ha : f a with
    | none =>
      rw [List.filterMap_cons_none ha]
      exact ih.cons (name a)
    | some b =>
      rw [List.filterMap_cons_some ha, List.map_cons, h a b ha]
      exact ih.cons_cons (name a)

namespace VariableLocation

def slot? : VariableLocation → Option Nat
  | .storage slot => some slot
  | _ => none

def offset? : VariableLocation → Option Nat
  | .immutable offset => some offset
  | _ => none

end VariableLocation

namespace Artifact

variable {a : Artifact} {v : Variable} {name : String} {n : Nat}
  {place? : VariableLocation → Option Nat}

/-- No two variables have one name, and no function that can be called from outside has the name of
a variable. -/
structure DistinctNames (a : Artifact) : Prop where
  nodup : (a.stateVariables.map Variable.name).Nodup
  apart : ∀ f ∈ a.functions, f.visibility = .external → ∀ v ∈ a.stateVariables, f.name ≠ v.name

/-! ## Variables of one kind -/

def located (a : Artifact) (place? : VariableLocation → Option Nat) : List (Variable × Nat) :=
  a.stateVariables.filterMap fun v => (place? v.location).map fun n => (v, n)

theorem storageVariables_eq : a.storageVariables = a.located VariableLocation.slot? := by
  refine List.filterMap_congr fun v _ => ?_
  cases v.location <;> rfl

theorem immutables_eq : a.immutables = a.located VariableLocation.offset? := by
  refine List.filterMap_congr fun v _ => ?_
  cases v.location <;> rfl

theorem mem_located :
    (v, n) ∈ a.located place? ↔ v ∈ a.stateVariables ∧ place? v.location = some n := by
  simp only [located, List.mem_filterMap, Option.map_eq_some_iff, Prod.mk.injEq]
  constructor
  · rintro ⟨w, hw, m, hm, rfl, rfl⟩
    exact ⟨hw, hm⟩
  · rintro ⟨hv, hn⟩
    exact ⟨v, hv, n, hn, rfl, rfl⟩

theorem DistinctNames.nodup_located (h : a.DistinctNames) :
    ((a.located place?).map fun p => p.1.name).Nodup := by
  refine (sublist_map_filterMap a.stateVariables fun v p hp => ?_).nodup h.nodup
  obtain ⟨n, -, rfl⟩ := Option.map_eq_some_iff.1 hp
  rfl

/-- What a listing of the variables of one kind has under a name. -/
theorem DistinctNames.get?_located (h : a.DistinctNames) (owner : String)
    {read : Variable → Nat → Run Reading} {row : List (String × Reading)} {reading : Reading}
    (hrow : ((a.located place?).mapM fun p => (read p.1 p.2).map fun x => (p.1.name, x)) =
      some row) :
    (Listing.ofList owner row).get? name = some reading ↔
      ∃ v ∈ a.stateVariables, v.name = name ∧ ∃ n, place? v.location = some n ∧
        read v n = some reading := by
  have hfst := map_fst_of_row (fun p : Variable × Nat => p.1.name) hrow
  rw [Listing.get?_ofList (by rw [hfst]; exact h.nodup_located),
    mem_of_row (fun p : Variable × Nat => p.1.name) hrow]
  simp only [Prod.exists, mem_located]
  constructor
  · rintro ⟨v, n, ⟨hv, hn⟩, hname, hreading⟩
    exact ⟨v, hv, hname, n, hn, hreading⟩
  · rintro ⟨v, hv, hname, n, hn, hreading⟩
    exact ⟨v, n, ⟨hv, hn⟩, hname, hreading⟩

theorem DistinctNames.variableNamed?_eq_some (h : a.DistinctNames) :
    a.variableNamed? name = some v ↔ v ∈ a.stateVariables ∧ v.name = name := by
  constructor
  · intro hfound
    exact ⟨List.mem_of_find?_eq_some hfound, by simpa using List.find?_some hfound⟩
  · rintro ⟨hv, rfl⟩
    obtain ⟨w, hw⟩ : ∃ w, a.variableNamed? v.name = some w := by
      rw [← Option.isSome_iff_exists, variableNamed?, List.find?_isSome]
      exact ⟨v, hv, by simp⟩
    have hname : w.name = v.name := by simpa using List.find?_some hw
    rw [hw, List.inj_on_of_nodup_map h.nodup (List.mem_of_find?_eq_some hw) hv hname]

end Artifact

namespace Recording

variable {r : Recording} {config : Config} {address : Address}

/-- Readings of variables in a row.  The written slots and their paths are looked up for the first
mapping only, and kept for those behind it. -/
def readRow (r : Recording) (config : Config) (address : Address) :
    (kept : Option (List (Word × List (List UInt8)))) → List (Variable × Nat) →
    Run (List (String × Reading))
  | _, [] => some []
  | kept, (v, slot) :: rest =>
    if v.ty.isMapping then do
      let paths := kept.getD (r.writtenPaths config address)
      let reading ← r.readMapping config paths address v.ty slot
      let row ← readRow r config address (some paths) rest
      return (v.name, reading) :: row
    else do
      let reading ← r.readValue config address v.ty slot
      let row ← readRow r config address kept rest
      return (v.name, reading) :: row

theorem readRow_eq {kept : Option (List (Word × List (List UInt8)))}
    (hkept : ∀ paths ∈ kept, paths = r.writtenPaths config address) (row : List (Variable × Nat)) :
    r.readRow config address kept row = row.mapM fun p =>
      (r.readWith config (r.writtenPaths config address) address p.1.ty p.2).map
        fun reading => (p.1.name, reading) := by
  induction row generalizing kept with
  | nil => rfl
  | cons p rest ih =>
    obtain ⟨v, slot⟩ := p
    rw [readRow, List.mapM_cons, readWith]
    cases v.ty.isMapping with
    | false =>
      rw [if_neg Bool.false_ne_true, if_neg Bool.false_ne_true, ih hkept]
      cases r.readValue config address v.ty slot <;> rfl
    | true =>
      have hpaths : kept.getD (r.writtenPaths config address) = r.writtenPaths config address := by
        cases kept with
        | none => rfl
        | some paths => exact hkept paths rfl
      have hrest : ∀ paths ∈ some (r.writtenPaths config address),
          paths = r.writtenPaths config address := by simp
      simp only [if_true, hpaths, ih hrest]
      cases r.readMapping config (r.writtenPaths config address) address v.ty slot <;> rfl

end Recording

namespace Inspector

variable {x : Inspector} {c : Contract} {v : Variable} {name : String}

def readAt? (x : Inspector) (c : Contract) (v : Variable) : Run (Option Reading) :=
  match v.location with
  | .storage slot => (x.recording.readVariable x.config c v slot).map some
  | .immutable offset => (c.readImmutable v offset).map some
  | .constant => some none

theorem readMember?_of_mem (h : c.artifact.DistinctNames) (hv : v ∈ c.artifact.stateVariables) :
    x.readMember? c v.name = x.readAt? c v := by
  have hfunction : c.function? v.name = none := by
    rw [Contract.function?, List.find?_eq_none]
    intro f hf hnamed
    rw [Bool.and_eq_true, beq_iff_eq, beq_iff_eq] at hnamed
    exact h.apart f hf hnamed.2 v hv hnamed.1
  rw [readMember?, Contract.member?, hfunction, h.variableNamed?_eq_some.2 ⟨hv, rfl⟩, readAt?]
  cases hlocation : v.location <;> simp [hlocation]

theorem readMember?_of_notMem (h : c.artifact.DistinctNames)
    (hnone : ∀ v ∈ c.artifact.stateVariables, v.name ≠ name) :
    x.readMember? c name = some none := by
  have hvariable : c.artifact.variableNamed? name = none := by
    rw [Option.eq_none_iff_forall_ne_some]
    intro v hv
    obtain ⟨hmem, hname⟩ := h.variableNamed?_eq_some.1 hv
    exact hnone v hmem hname
  rw [readMember?, Contract.member?, hvariable]
  cases c.function? name <;> rfl

theorem readMember?_eq_some (h : c.artifact.DistinctNames) {reading : Reading} :
    x.readMember? c name = some (some reading) ↔
      ∃ v ∈ c.artifact.stateVariables, v.name = name ∧ x.readAt? c v = some (some reading) := by
  constructor
  · intro hread
    by_cases hmem : ∃ v ∈ c.artifact.stateVariables, v.name = name
    · obtain ⟨v, hv, rfl⟩ := hmem
      exact ⟨v, hv, rfl, by rw [← readMember?_of_mem h hv, hread]⟩
    · rw [readMember?_of_notMem h fun v hv hname => hmem ⟨v, hv, hname⟩] at hread
      cases hread
  · rintro ⟨v, hv, rfl, hread⟩
    rw [readMember?_of_mem h hv, hread]

theorem get?_storageDump (h : c.artifact.DistinctNames) {listing : Listing Reading}
    (hdump : x.storageDump c = some listing) {reading : Reading} :
    listing.get? name = some reading ↔
      ∃ v ∈ c.artifact.stateVariables, v.name = name ∧ ∃ slot,
        v.location.slot? = some slot ∧
          x.recording.readVariable x.config c v slot = some reading := by
  obtain ⟨row, rfl, hrow⟩ := Recording.storageDump_eq_some hdump
  rw [Artifact.storageVariables_eq] at hrow
  exact h.get?_located "storage" hrow

theorem get?_immutablesDump (h : c.artifact.DistinctNames) {listing : Listing Reading}
    (hdump : c.immutablesDump = some listing) {reading : Reading} :
    listing.get? name = some reading ↔
      ∃ v ∈ c.artifact.stateVariables, v.name = name ∧ ∃ offset,
        v.location.offset? = some offset ∧ c.readImmutable v offset = some reading := by
  rw [Contract.immutablesDump, Artifact.immutables_eq] at hdump
  obtain ⟨row, hrow, hlisting⟩ := Option.bind_eq_some_iff.1 hdump
  rw [← Option.some.inj hlisting]
  exact h.get?_located "immutables" hrow

theorem readAt?_eq_some {reading : Reading} :
    x.readAt? c v = some (some reading) ↔
      (∃ slot, v.location.slot? = some slot ∧
        x.recording.readVariable x.config c v slot = some reading) ∨
      ∃ offset, v.location.offset? = some offset ∧ c.readImmutable v offset = some reading := by
  rw [readAt?]
  cases v.location <;> simp [VariableLocation.slot?, VariableLocation.offset?]

theorem readMember?_iff (h : c.artifact.DistinctNames) {storage immutables : Listing Reading}
    (hstorage : x.storageDump c = some storage) (himmutables : c.immutablesDump = some immutables)
    {reading : Reading} :
    x.readMember? c name = some (some reading) ↔
      storage.get? name = some reading ∨ immutables.get? name = some reading := by
  rw [readMember?_eq_some h, get?_storageDump h hstorage, get?_immutablesDump h himmutables]
  simp only [readAt?_eq_some, and_or_left, exists_or]

theorem storageDump_eq_none_iff (h : c.artifact.DistinctNames) :
    x.storageDump c = none ↔ ∃ name, x.readMember? c name = none := by
  rw [storageDump, Recording.storageDump_eq_none]
  constructor
  · rintro ⟨⟨v, slot⟩, hp, hnone⟩
    rw [Artifact.storageVariables_eq, Artifact.mem_located] at hp
    refine ⟨v.name, ?_⟩
    rw [readMember?_of_mem h hp.1, readAt?]
    cases hlocation : v.location with
    | storage n =>
      have hslot := hp.2
      rw [hlocation] at hslot
      obtain rfl : n = slot := Option.some.inj hslot
      exact Option.map_eq_none_iff.2 hnone
    | immutable offset => simp [hlocation, VariableLocation.slot?] at hp
    | constant => simp [hlocation, VariableLocation.slot?] at hp
  · rintro ⟨name, hnone⟩
    by_cases hmem : ∃ v ∈ c.artifact.stateVariables, v.name = name
    · obtain ⟨v, hv, rfl⟩ := hmem
      rw [readMember?_of_mem h hv, readAt?] at hnone
      cases hlocation : v.location with
      | storage slot =>
        simp only [hlocation, Option.map_eq_none_iff] at hnone
        refine ⟨(v, slot), ?_, hnone⟩
        rw [Artifact.storageVariables_eq, Artifact.mem_located, hlocation]
        exact ⟨hv, rfl⟩
      | immutable offset => simp [hlocation, Contract.readImmutable_eq] at hnone
      | constant => simp [hlocation] at hnone
    · rw [readMember?_of_notMem h fun v hv hname => hmem ⟨v, hv, hname⟩] at hnone
      cases hnone

/-- The immutables are always listed, and the storage is unless there is a variable at which asking
for it stops the program too.  Where both are, what is read under a name is its entry in one of the
listings, and nothing is read just if neither has one.  The storage dump looks the written slots up
once for all mappings, and shows for each what is read of it alone. -/
theorem readMember?_iff_listed (x : Inspector) (c : Contract) (h : c.artifact.DistinctNames) :
    (∃ immutables, c.immutablesDump = some immutables) ∧
    (x.storageDump c = none ↔ ∃ name, x.readMember? c name = none) ∧
    (∀ storage immutables, x.storageDump c = some storage → c.immutablesDump = some immutables →
      (∀ name reading, x.readMember? c name = some (some reading) ↔
        storage.get? name = some reading ∨ immutables.get? name = some reading) ∧
      ∀ name, x.readMember? c name = some none ↔
        storage.get? name = none ∧ immutables.get? name = none) ∧
    x.storageDump c =
      (x.recording.readRow x.config c.address none c.artifact.storageVariables).map
        (.ofList "storage") ∧
    x.recording.readRow x.config c.address none c.artifact.storageVariables =
      c.artifact.storageVariables.mapM fun p =>
        (x.recording.readVariable x.config c p.1 p.2).map fun reading => (p.1.name, reading) := by
  have hrow : x.recording.readRow x.config c.address none c.artifact.storageVariables =
      c.artifact.storageVariables.mapM fun p =>
        (x.recording.readVariable x.config c p.1 p.2).map fun reading => (p.1.name, reading) :=
    Recording.readRow_eq (by simp) c.artifact.storageVariables
  refine ⟨⟨_, c.immutablesDump_eq⟩, storageDump_eq_none_iff h, ?_, ?_, hrow⟩
  · intro storage immutables hstorage himmutables
    have hiff : ∀ name reading, x.readMember? c name = some (some reading) ↔
        storage.get? name = some reading ∨ immutables.get? name = some reading :=
      fun _ _ => readMember?_iff h hstorage himmutables
    refine ⟨hiff, fun name => ?_⟩
    -- a dump that is there says that asking for the member does not stop
    obtain ⟨found, hfound⟩ : ∃ found, x.readMember? c name = some found := by
      refine Option.ne_none_iff_exists'.1 fun hnone => ?_
      rw [(storageDump_eq_none_iff h).2 ⟨name, hnone⟩] at hstorage
      cases hstorage
    have hname := hiff name
    simp only [hfound, Option.some.injEq] at hname ⊢
    simp only [Option.eq_none_iff_forall_ne_some, ne_eq, hname, not_or, forall_and]
  · rw [hrow, storageDump, Recording.storageDump]
    exact (Option.map_eq_bind ..).symm

/-- A contract with two mappings, a value, an immutable, a constant, and a function that can be
called from outside.  A function inside of it has the name of the value. -/
def treasury : Contract where
  artifact := {
    name := "Treasury"
    stateVariables := [⟨"balances", .mapping (.uint 256) (.uint 256), .storage 0⟩,
      ⟨"total", .uint 256, .storage 1⟩,
      ⟨"shares", .mapping (.uint 256) (.uint 256), .storage 2⟩,
      ⟨"LIMIT", .uint 256, .immutable 0⟩, ⟨"ONE", .uint 256, .constant⟩]
    functions := [{ name := "pay" }, { name := "total", visibility := .internal }]
    immutablesSize := 32 }
  address := 1
  code := bytesOfNat 32 500

/-- Each kind of member is read as it is listed. -/
theorem readMember?_treasury :
    treasury.artifact.DistinctNames ∧
    (∃ x : Inspector, x.recording = Recording.twoEntries ∧
      x.readMember? treasury "balances" = some
        (some (.mapping [(.value ⟨.uint 7 256, .uint 256⟩, .value ⟨.uint 5 256, .uint 256⟩)])) ∧
      x.readMember? treasury "shares" = some (some (.mapping [])) ∧
      x.readMember? treasury "LIMIT" = some (some (.value ⟨.uint 500 256, .uint 256⟩)) ∧
      x.readMember? treasury "ONE" = some none ∧ x.readMember? treasury "pay" = some none) := by
  have hnames : treasury.artifact.DistinctNames := ⟨by decide, by decide⟩
  obtain ⟨-, -, hlisted, -, -⟩ :=
    readMember?_iff_listed { recording := Recording.twoEntries } treasury hnames
  obtain ⟨hsome, hnone⟩ := hlisted _ _ rfl rfl
  exact ⟨hnames, _, rfl, (hsome _ _).2 (.inl rfl), (hsome _ _).2 (.inl rfl),
    (hsome _ _).2 (.inr rfl), (hnone _).2 ⟨rfl, rfl⟩, (hnone _).2 ⟨rfl, rfl⟩⟩

/-- A contract with a variable that stops the program, and a value. -/
def bottomless : Contract where
  artifact := {
    name := "Bottomless"
    stateVariables := [⟨"a", Layout.endless, .storage 0⟩, ⟨"b", .uint 256, .storage 1⟩] }
  address := 1
  code := []

/-- The value can be asked for, and yet it is listed nowhere. -/
theorem readMember?_bottomless :
    bottomless.artifact.DistinctNames ∧
    ∃ x : Inspector,
      x.readMember? bottomless "b" = some (some (.value ⟨.uint 0 256, .uint 256⟩)) ∧
      x.storageDump bottomless = none ∧
      ∃ immutables, bottomless.immutablesDump = some immutables ∧ immutables.get? "b" = none := by
  refine ⟨⟨by decide, by decide⟩, { config := { truncateLimit := none } }, rfl, ?_, _, rfl, rfl⟩
  have hdecode : Recording.decodeAt {} 1 Layout.endless 0 = .error (.storage (.cut 63 32)) := by
    decide +kernel
  refine Recording.storageDump_eq_none.2 ⟨(⟨"a", Layout.endless, .storage 0⟩, 0), by decide, ?_⟩
  exact Recording.ofDecoded_eq_none.2 ⟨_, hdecode, rfl⟩

end Inspector

end EvmInspect
