import EvmInspect.Storage.Path
import EvmInspect.Proofs.Bytes
/-!
# Which paths storage keys have

What a location is derived from, read off the recorded preimages alone, and that a path is found
exactly when a root is within reach.  The bytes noted for a digest need not be its preimage: a
location may be noted as derived from itself, directly or through others, and then it has no root.
-/

namespace EvmInspect.Storage

variable {preimages : Preimages} {root parent location : Word} {key : List UInt8}
  {keys : List (List UInt8)} {depth : Nat}

/-- The preimage of the location, if one is recorded, is too short to hold another location. -/
def IsRoot (preimages : Preimages) (location : Word) : Prop :=
  ∀ bytes, preimages.get? location = some bytes → bytes.length < 32

/-- The location is derived from the root by the keys, the outermost first.  The preimage of each
location on the way is its parent, a word, followed by the key. -/
inductive Derived (preimages : Preimages) (root : Word) : List (List UInt8) → Word → Prop
  | root : Derived preimages root [] root
  | entry {keys : List (List UInt8)} {parent location : Word} {key : List UInt8}
      (hparent : Derived preimages root keys parent)
      (hentry : preimages.get? location = some (parent.toBytes ++ key)) :
      Derived preimages root (keys ++ [key]) location

/-! ## One step -/

theorem step?_eq_some :
    step? preimages location = some (parent, key) ↔
      preimages.get? location = some (parent.toBytes ++ key) := by
  unfold step?
  cases preimages.get? location with
  | none => simp
  | some bytes =>
    simp only [Option.ite_none_right_eq_some, Option.some.injEq, Prod.mk.injEq]
    constructor
    · rintro ⟨hlen, rfl, rfl⟩
      have htake : (bytes.take 32).length = 32 := by
        rw [List.length_take]
        omega
      rw [Word.toBytes_ofBytes htake, List.take_append_drop]
    · intro hbytes
      have hlen := Word.length_toBytes parent
      rw [hbytes, List.take_left' hlen, List.drop_left' hlen, Word.ofBytes_toBytes,
        List.length_append]
      exact ⟨by omega, rfl, rfl⟩

theorem step?_eq_none : step? preimages location = none ↔ IsRoot preimages location := by
  unfold step? IsRoot
  cases preimages.get? location <;> simp

theorem derived_iff_of_isRoot (h : IsRoot preimages location) :
    Derived preimages root keys location ↔ keys = [] ∧ root = location := by
  constructor
  · intro hderived
    cases hderived with
    | root => exact ⟨rfl, rfl⟩
    | entry _ hentry =>
      have hlen := h _ hentry
      rw [List.length_append, Word.length_toBytes] at hlen
      omega
  · rintro ⟨rfl, rfl⟩
    exact .root

theorem derived_iff_of_step? (hroot : IsRoot preimages root)
    (h : step? preimages location = some (parent, key)) :
    Derived preimages root keys location ↔
      ∃ front, keys = front ++ [key] ∧ Derived preimages root front parent := by
  constructor
  · intro hderived
    cases hderived with
    | root =>
      rw [step?_eq_none.2 hroot] at h
      simp at h
    | entry hparent hentry =>
      rw [step?_eq_some.2 hentry, Option.some.injEq, Prod.mk.injEq] at h
      obtain ⟨rfl, rfl⟩ := h
      exact ⟨_, rfl, hparent⟩
  · rintro ⟨front, rfl, hparent⟩
    exact .entry hparent (step?_eq_some.1 h)

/-! ## All steps -/

theorem eq_iff_of_isRoot {below path : List (List UInt8)} (h : IsRoot preimages location) :
    location.toBytes :: below = path ↔
      ∃ root keys, path = root.toBytes :: (keys ++ below) ∧ keys.length ≤ depth ∧
        Derived preimages root keys location ∧ IsRoot preimages root := by
  constructor
  · intro hpath
    exact ⟨location, [], hpath.symm, Nat.zero_le _, .root, h⟩
  · rintro ⟨root, keys, hpath, -, hderived, -⟩
    obtain ⟨rfl, rfl⟩ := (derived_iff_of_isRoot h).1 hderived
    exact hpath.symm

/-- The search finds what the location is derived from within `depth` steps, and nothing else. -/
theorem pathFrom_eq_some {below path : List (List UInt8)} :
    pathFrom preimages depth location below = some path ↔
      ∃ root keys, path = root.toBytes :: (keys ++ below) ∧ keys.length ≤ depth ∧
        Derived preimages root keys location ∧ IsRoot preimages root := by
  -- `below` holds the keys of the steps already taken, which are the last ones of the path
  fun_induction pathFrom preimages depth location below with
  | case1 depth location below hstep =>
    rw [Option.some.injEq]
    exact eq_iff_of_isRoot (step?_eq_none.1 hstep)
  | case2 location below parent key hstep =>
    simp only [reduceCtorEq, false_iff]
    rintro ⟨root, keys, -, hlen, hderived, hroot⟩
    obtain ⟨front, rfl, -⟩ := (derived_iff_of_step? hroot hstep).1 hderived
    rw [List.length_append, List.length_singleton] at hlen
    omega
  | case3 location below parent key hstep depth ih =>
    rw [ih]
    constructor
    · rintro ⟨root, keys, rfl, hlen, hparent, hroot⟩
      have hderived := (derived_iff_of_step? hroot hstep).2 ⟨keys, rfl, hparent⟩
      refine ⟨root, keys ++ [key], by simp, ?_, hderived, hroot⟩
      rw [List.length_append, List.length_singleton]
      omega
    · rintro ⟨root, keys, rfl, hlen, hderived, hroot⟩
      obtain ⟨front, rfl, hparent⟩ := (derived_iff_of_step? hroot hstep).1 hderived
      rw [List.length_append, List.length_singleton] at hlen
      exact ⟨root, front, by simp, by omega, hparent, hroot⟩

theorem path_eq_ok {path : List (List UInt8)} :
    Storage.path preimages location depth = .ok path ↔
      ∃ root keys, path = root.toBytes :: keys ∧ keys.length ≤ depth ∧
        Derived preimages root keys location ∧ IsRoot preimages root := by
  have hsearch : pathFrom preimages depth location [] = some path ↔ _ := pathFrom_eq_some
  simp only [List.append_nil] at hsearch
  rw [← hsearch, Storage.path]
  cases pathFrom preimages depth location [] <;> simp

theorem path_eq_error {e : TooDeep} (h : path preimages location depth = .error e) :
    e = ⟨location, depth⟩ := by
  unfold path at h
  split at h
  · simp at h
  · rw [Except.error.injEq] at h
    exact h.symm

/-- A path is found exactly when the location is derived from some root by no more keys than are
allowed: it is that root's word and the keys.  Otherwise the location is refused. -/
theorem path_eq_ok_iff_derived (preimages : Preimages) (location : Word) (depth : Nat) :
    (∀ root keys, path preimages location depth = .ok (root.toBytes :: keys) ↔
      keys.length ≤ depth ∧ Derived preimages root keys location ∧ IsRoot preimages root) ∧
    ((¬∃ root keys, keys.length ≤ depth ∧ Derived preimages root keys location ∧
        IsRoot preimages root) →
      path preimages location depth = .error ⟨location, depth⟩) := by
  constructor
  · intro root keys
    rw [path_eq_ok]
    constructor
    · rintro ⟨root', keys', heq, h⟩
      obtain ⟨hroot, rfl⟩ := List.cons.inj heq
      rw [Word.toBytes_inj hroot]
      exact h
    · intro h
      exact ⟨root, keys, rfl, h⟩
  · intro h
    cases hpath : path preimages location depth with
    | error e => rw [path_eq_error hpath]
    | ok found =>
      obtain ⟨root, keys, -, hfound⟩ := path_eq_ok.1 hpath
      exact absurd ⟨root, keys, hfound⟩ h

/-! ## Locations without a root -/

theorem Derived.trans {middle : Word} {front back : List (List UInt8)}
    (hfront : Derived preimages root front middle)
    (hback : Derived preimages middle back location) :
    Derived preimages root (front ++ back) location := by
  induction hback with
  | root => rwa [List.append_nil]
  | entry _ hentry ih =>
    rw [← List.append_assoc]
    exact .entry ih hentry

theorem Derived.unique {root' : Word} {keys' : List (List UInt8)}
    (h : Derived preimages root keys location) (hroot : IsRoot preimages root)
    (h' : Derived preimages root' keys' location) (hroot' : IsRoot preimages root') :
    root = root' ∧ keys = keys' := by
  have hfound := path_eq_ok.2
    ⟨root, keys, rfl, Nat.le_max_left keys.length keys'.length, h, hroot⟩
  have hfound' := path_eq_ok.2
    ⟨root', keys', rfl, Nat.le_max_right keys.length keys'.length, h', hroot'⟩
  rw [hfound, Except.ok.injEq, List.cons.injEq] at hfound'
  exact ⟨Word.toBytes_inj hfound'.1, hfound'.2⟩

theorem path_of_cycle (h : Derived preimages location keys location) (hne : keys ≠ [])
    (depth : Nat) : path preimages location depth = .error ⟨location, depth⟩ := by
  cases hpath : path preimages location depth with
  | error e => rw [path_eq_error hpath]
  | ok found =>
    obtain ⟨root, front, -, -, hderived, hroot⟩ := path_eq_ok.1 hpath
    -- going round once more gives another way from the same root
    have hround := hderived.trans h
    obtain ⟨-, hkeys⟩ := hderived.unique hroot hround hroot
    exact absurd (List.self_eq_append_right.1 hkeys) hne

/-- A location noted as its own parent. -/
example : path (Preimages.note {} 5 ((5 : Word).toBytes ++ [1])) 5 8 = .error ⟨5, 8⟩ := by
  decide +kernel

end EvmInspect.Storage
