import EvmInspect.Proofs.Table
import EvmInspect.Source.Index
import Mathlib.Data.Finset.Card
/-!
# The search for an ancestor

From a node the parents lead on, each found in the tree by its number.  Nothing keeps them from
running in a circle, so the search gives up after as many steps as the tree has nodes.  It misses
nothing by that: if a node of the chain is found only later, then some node of the tree was met
twice before it, and the way between the two can be left out.
-/

namespace EvmInspect

namespace SourceIndex

variable {α : Type} {step : α → Option α} {x : SourceIndex} {start n : SourceNode}

def walk? (step : α → Option α) (a : α) : Nat → Option α
  | 0 => some a
  | i + 1 => (walk? step a i).bind step

/-- The node of a number: of nodes with one number the last one counts. -/
def resolve? (nodes : List SourceNode) (id : Nat) : Option SourceNode :=
  nodes.reverse.find? fun n => n.id == id

def above? (nodes : List SourceNode) (start : SourceNode) : Nat → Option SourceNode :=
  walk? (fun n => n.parent.bind (resolve? nodes)) start

/-! ## Steps in a row -/

theorem walk?_zero (a : α) : walk? step a 0 = some a := rfl

theorem walk?_succ (a : α) (i : Nat) : walk? step a (i + 1) = (walk? step a i).bind step := rfl

theorem walk?_succ' (a : α) (i : Nat) :
    walk? step a (i + 1) = (step a).bind fun b => walk? step b i := by
  induction i with
  | zero => exact (Option.bind_fun_some (step a)).symm
  | succ i ih =>
    rw [walk?_succ, ih, Option.bind_assoc]
    rfl

theorem walk?_of_le {a b : α} {i j : Nat} (h : walk? step a j = some b) (hij : i ≤ j) :
    ∃ c, walk? step a i = some c := by
  obtain ⟨k, rfl⟩ := Nat.exists_eq_add_of_le hij
  induction k generalizing b with
  | zero => exact ⟨b, h⟩
  | succ k ih =>
    obtain ⟨c, hc, -⟩ := Option.bind_eq_some_iff.1 h
    exact ih hc (Nat.le_add_right i k)

theorem walk?_add_congr {a : α} {i j : Nat} (h : walk? step a i = walk? step a j) (k : Nat) :
    walk? step a (i + k) = walk? step a (j + k) := by
  induction k with
  | zero => exact h
  | succ k ih =>
    show walk? step a (i + k + 1) = walk? step a (j + k + 1)
    rw [walk?_succ, walk?_succ, ih]

/-- A way with more steps than there are places comes to some place twice. -/
theorem exists_walk?_repeats {places : List α} (hstep : ∀ a b, step a = some b → b ∈ places)
    {a b : α} {i : Nat} (h : walk? step a i = some b) (hlen : places.length < i) :
    ∃ j k, j < k ∧ k ≤ i ∧ walk? step a j = walk? step a k := by
  classical
  have hmaps : ∀ k ∈ Finset.range i, walk? step a (k + 1) ∈ (places.map some).toFinset := by
    intro k hk
    obtain ⟨c, hc⟩ := walk?_of_le h (Finset.mem_range.1 hk)
    obtain ⟨d, -, hd⟩ := Option.bind_eq_some_iff.1 hc
    rw [hc, List.mem_toFinset]
    exact List.mem_map_of_mem (hstep d c hd)
  have hcard : (places.map some).toFinset.card < (Finset.range i).card := by
    have hle := List.toFinset_card_le (places.map some)
    rw [List.length_map] at hle
    rw [Finset.card_range]
    omega
  obtain ⟨j, hj, k, hk, hne, heq⟩ :=
    Finset.exists_ne_map_eq_of_card_lt_of_maps_to hcard hmaps
  rw [Finset.mem_range] at hj hk
  obtain hlt | hlt := Nat.lt_or_gt_of_ne hne
  · exact ⟨j + 1, k + 1, by omega, by omega, heq⟩
  · exact ⟨k + 1, j + 1, by omega, by omega, heq.symm⟩

theorem le_length_of_first {places : List α} (hstep : ∀ a b, step a = some b → b ∈ places)
    {p : α → Prop} {a b : α} {i : Nat} (h : walk? step a i = some b) (hb : p b)
    (hfirst : ∀ j < i, ∀ c, walk? step a j = some c → ¬ p c) : i ≤ places.length := by
  by_contra hlen
  obtain ⟨j, k, hjk, hki, heq⟩ := exists_walk?_repeats hstep h (by omega)
  -- what lies between the two visits is left out
  have hshort : walk? step a (j + (i - k)) = some b := by
    rw [walk?_add_congr heq, Nat.add_sub_cancel' hki, h]
  exact hfirst (j + (i - k)) (by omega) b hshort hb

/-! ## Nodes and their ancestors -/

theorem mem_of_parentOf? {m : SourceNode} (h : x.parentOf? n = some m) :
    m ∈ x.nodes.entries.map Prod.snd := by
  obtain ⟨id, -, hid⟩ := Option.bind_eq_some_iff.1 h
  exact List.mem_map_of_mem (Table.mem_of_lookup hid)

theorem getElem?_chain (count i : Nat) :
    (x.chain count n)[i]? = if i ≤ count then walk? x.parentOf? n i else none := by
  induction count generalizing n i with
  | zero => cases i <;> simp [chain, walk?_zero]
  | succ count ih =>
    cases i with
    | zero => simp [chain, walk?_zero]
    | succ i =>
      rw [chain, List.getElem?_cons_succ, walk?_succ']
      cases x.parentOf? n with
      | none => simp
      | some m => simp [ih]

theorem getElem?_ancestors (i : Nat) :
    (x.ancestors n)[i]? = if i ≤ x.nodes.size then walk? x.parentOf? n i else none :=
  getElem?_chain x.nodes.size i

theorem closest?_eq_some {kinds : List String} {a : SourceNode} :
    x.closest? kinds n = some a ↔ ∃ i, walk? x.parentOf? n i = some a ∧ a.kind ∈ kinds ∧
      ∀ j < i, ∀ b, walk? x.parentOf? n j = some b → b.kind ∉ kinds := by
  rw [closest?, List.find?_eq_some_iff_getElem]
  constructor
  · rintro ⟨hkind, i, hi, hget, hfirst⟩
    have hlen : i ≤ x.nodes.size ∧ walk? x.parentOf? n i = some a := by
      have h := List.getElem?_eq_getElem hi
      rw [hget, getElem?_ancestors] at h
      simpa using h
    refine ⟨i, hlen.2, by simpa using hkind, fun j hj b hb => ?_⟩
    have hjth : (x.ancestors n)[j]? = some b := by
      rw [getElem?_ancestors, if_pos (by omega), hb]
    obtain ⟨hj', rfl⟩ := List.getElem?_eq_some_iff.1 hjth
    simpa using hfirst j hj
  · rintro ⟨i, ha, hkind, hfirst⟩
    have hlen : i ≤ x.nodes.size := by
      have h := le_length_of_first (fun _ _ => mem_of_parentOf?) ha hkind hfirst
      rwa [List.length_map] at h
    have hith : (x.ancestors n)[i]? = some a := by rw [getElem?_ancestors, if_pos hlen, ha]
    obtain ⟨hi, hget⟩ := List.getElem?_eq_some_iff.1 hith
    refine ⟨by simpa using hkind, i, hi, hget, fun j hj => ?_⟩
    have hjth := List.getElem?_eq_getElem (Nat.lt_trans hj hi)
    rw [getElem?_ancestors, if_pos (by omega)] at hjth
    simpa using hfirst j hj _ hjth

theorem closest?_eq_none {kinds : List String} :
    x.closest? kinds n = none ↔
      ∀ i b, walk? x.parentOf? n i = some b → b.kind ∉ kinds := by
  constructor
  · intro hnone i
    -- the nodes before the `i`-th are none of the kinds, so that it would be the first
    induction i using Nat.strong_induction_on with
    | _ i ih =>
      intro b hb hkind
      have hsome : x.closest? kinds n = some b := closest?_eq_some.2 ⟨i, hb, hkind, ih⟩
      rw [hnone] at hsome
      exact nomatch hsome
  · intro h
    rw [Option.eq_none_iff_forall_ne_some]
    intro a ha
    obtain ⟨i, hi, hkind, -⟩ := closest?_eq_some.1 ha
    exact h i a hi hkind

theorem node?_build (map : SourceMap) (nodes : List SourceNode) (id : Nat) :
    (build map nodes).node? id = resolve? nodes id := by
  rw [node?, build, Table.get?_ofList_eq, resolve?, ← List.map_reverse, List.find?_map,
    Option.map_map]
  exact Option.map_id'

theorem walk?_build (map : SourceMap) (nodes : List SourceNode) (start : SourceNode) :
    walk? (build map nodes).parentOf? start = above? nodes start := by
  have hstep : (build map nodes).parentOf? = fun n => n.parent.bind (resolve? nodes) := by
    funext n
    exact congrArg n.parent.bind (funext fun id => node?_build map nodes id)
  rw [hstep]
  rfl

/-- From any node, in the tree or not, the search looks at the first nodes of the chain, at most one
more than the tree has numbers, and then it ends.  The answer is the one for the whole chain, which
goes on without end if the parents run in a circle: the first node of one of the kinds, and no node
just if there is none of them on the chain. -/
theorem closest?_build (map : SourceMap) (nodes : List SourceNode) (kinds : List String)
    (start : SourceNode) :
    (∀ i, ((build map nodes).ancestors start)[i]? =
      if i ≤ (build map nodes).nodes.size then above? nodes start i else none) ∧
    (∀ a, (build map nodes).closest? kinds start = some a ↔
      ∃ i, above? nodes start i = some a ∧ a.kind ∈ kinds ∧
        ∀ j < i, ∀ b, above? nodes start j = some b → b.kind ∉ kinds) ∧
    ((build map nodes).closest? kinds start = none ↔
      ∀ i b, above? nodes start i = some b → b.kind ∉ kinds) := by
  rw [← walk?_build map nodes start]
  exact ⟨fun i => getElem?_ancestors i, fun a => closest?_eq_some, closest?_eq_none⟩

/-- From outside a circle of two nodes, and with the number of one of them, the last step that the
search takes leads to the other. -/
example :
    (build {} [⟨1, "If", 2, 4, 3, 8, some 2, none⟩, ⟨2, "For", 1, 0, 3, 8, some 1, none⟩]).closest?
        ["For"] ⟨1, "Pass", 3, 8, 3, 8, some 1, none⟩ =
      some ⟨2, "For", 1, 0, 3, 8, some 1, none⟩ := by
  decide

end SourceIndex

end EvmInspect
