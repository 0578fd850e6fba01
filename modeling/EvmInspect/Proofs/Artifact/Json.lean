import EvmInspect.Artifact.Json
import EvmInspect.Proofs.Json.Record
import EvmInspect.Proofs.Ty.Text
/-!
# Compiler output is loaded again

Whatever text compiler output is loaded from, what is written of it is loaded as the same output.
Of each record this says that its reader is faithful: fields that were left out are written with
their defaults, types as their own text, and maps with each key once.
-/

namespace EvmInspect

open Json (Faithful alternative? fields?_object exists_fields bind_of_eq_some)
open Json.Fields (required required_bind orElse_bind optionalOrNone_bind)

/-! ## Maps from numbers -/

namespace Json

theorem le_of_numericKey? {s : String} {n : Nat} (h : numericKey? s = some n) :
    n ≤ Size.limit := by
  unfold numericKey? at h
  simp only at h
  split at h
  · cases h
  split at h
  · cases h
  split at h
  · cases h
    assumption
  · cases h

theorem numericKey?_toString {n : Nat} (h : n ≤ Size.limit) :
    numericKey? (toString n) = some n := by
  have hdigits : (toString n).toList = Nat.toDigits 10 n := by simp [toString, Nat.repr]
  have hall : (Nat.toDigits 10 n).all Char.isDigit = true :=
    List.all_eq_true.2 (isDigit_toDigits n)
  unfold numericKey?
  simp only [hdigits, foldl_toDigits, hall, if_neg (canonical_toDigits n), if_pos h]
  simp

variable {α : Type} {read : Json → Option α} {write : α → Json}

/-- A map is read back if no key stands in it twice and all its keys are ones of the machine. -/
theorem numericMap?_tableToJson {t : Table Nat α} (hnodup : (t.entries.map Prod.fst).Nodup)
    (h : ∀ e ∈ t.entries, e.1 ≤ Size.limit ∧ read (write e.2) = some e.2) :
    numericMap? read (SourceMap.tableToJson write t) = some t := by
  obtain ⟨entries⟩ := t
  have hpairs : (entries.map fun e => (toString e.1, write e.2)).mapM (fun e => do
      let key ← numericKey? e.1
      let value ← read e.2
      return (key, value)) = some entries := by
    rw [mapM_eq_some, List.forall₂_map_left_iff, List.forall₂_same]
    intro e he
    obtain ⟨hkey, hvalue⟩ := h e he
    rw [bind_of_eq_some (numericKey?_toString hkey), bind_of_eq_some hvalue]
    rfl
  rw [SourceMap.tableToJson, numericMap?, bind_of_eq_some hpairs]
  exact congrArg (fun entries => some (Table.mk entries)) (Table.entries_ofList hnodup)

theorem Faithful.table (h : Faithful read write) :
    Faithful (numericMap? read) (SourceMap.tableToJson write) := by
  intro j t ht
  unfold numericMap? at ht
  split at ht
  · obtain ⟨pairs, hpairs, ht⟩ := Option.bind_eq_some_iff.1 ht
    cases ht
    have hread : ∀ p ∈ pairs, p.1 ≤ Size.limit ∧ read (write p.2) = some p.2 := by
      refine forall_of_forall₂ ((mapM_eq_some.1 hpairs).imp fun e p hp => ?_)
      obtain ⟨key, hkey, hp⟩ := Option.bind_eq_some_iff.1 hp
      obtain ⟨value, hvalue, hp⟩ := Option.bind_eq_some_iff.1 hp
      cases hp
      exact ⟨le_of_numericKey? hkey, h e.2 value hvalue⟩
    exact numericMap?_tableToJson (Table.nodup_keys_ofList pairs)
      fun e he => hread e (Table.mem_of_mem_entries_ofList he)
  · cases ht

end Json

/-! ## Types and places -/

theorem Ty.faithful : Faithful Ty.ofJson? Ty.toJson := by
  intro j t h
  obtain ⟨s, -, hs⟩ := Option.bind_eq_some_iff.1 h
  have hparse : parse s = .ok t := by
    cases hp : parse s with
    | error e => simp [hp, Except.toOption] at hs
    | ok u =>
      rw [hp] at hs
      cases hs
      rfl
  rw [ofJson?, toJson, Json.string?_string, Option.bind_some,
    parse_text (written_of_parse hparse) (named_of_parse hparse)]
  rfl

theorem VariableLocation.faithful : Faithful ofJson? toJson := by
  intro j l h
  obtain ⟨named, -, h⟩ := Option.bind_eq_some_iff.1 h
  split at h
  · obtain ⟨f, -, h⟩ := Option.bind_eq_some_iff.1 h
    obtain ⟨slot, hslot, h⟩ := Faithful.size.required h
    cases h
    simp [ofJson?, toJson, alternative?, fields?_object, required, hslot]
  · obtain ⟨f, -, h⟩ := Option.bind_eq_some_iff.1 h
    obtain ⟨offset, hoffset, h⟩ := Faithful.size.required h
    cases h
    simp [ofJson?, toJson, alternative?, fields?_object, required, hoffset]
  · cases h
    rfl
  · cases h
    rfl
  · cases h

theorem DataLocation.faithful : Faithful ofJson? fun l => .string l.word :=
  .of_forall fun l => by cases l <;> rfl

theorem Visibility.faithful : Faithful ofJson? fun v => .string v.word :=
  .of_forall fun v => by cases v <;> rfl

theorem Mutability.faithful : Faithful ofJson? fun m => .string m.word :=
  .of_forall fun m => by cases m <;> rfl

theorem FunctionRole.faithful : Faithful ofJson? fun r => .string r.word :=
  .of_forall fun r => by cases r <;> rfl

/-! ## Declarations -/

theorem Variable.faithful : Faithful ofJson? toJson := by
  intro j v h
  obtain ⟨f, -, h⟩ := Option.bind_eq_some_iff.1 h
  obtain ⟨name, hname, h⟩ := Faithful.string.required h
  obtain ⟨ty, hty, h⟩ := Ty.faithful.required h
  obtain ⟨location, hlocation, h⟩ := VariableLocation.faithful.required h
  cases h
  obtain ⟨g, hg, gname, gty, glocation, -⟩ :=
    exists_fields (rfl : toJson ⟨name, ty, location⟩ = .object _) (by simp)
  rw [ofJson?, bind_of_eq_some (hg _).1, required_bind gname hname, required_bind gty hty,
    required_bind glocation hlocation]
  rfl

theorem Argument.faithful : Faithful ofJson? toJson := by
  intro j a h
  obtain ⟨f, -, h⟩ := Option.bind_eq_some_iff.1 h
  obtain ⟨name, hname, h⟩ := Faithful.string.required h
  obtain ⟨ty, hty, h⟩ := Ty.faithful.required h
  cases h
  obtain ⟨g, hg, gname, gty, -⟩ :=
    exists_fields (rfl : toJson ⟨name, ty⟩ = .object _) (by simp)
  rw [ofJson?, bind_of_eq_some (hg _).1, required_bind gname hname, required_bind gty hty]
  rfl

theorem LocalVariable.faithful : Faithful ofJson? toJson := by
  intro j v h
  obtain ⟨f, -, h⟩ := Option.bind_eq_some_iff.1 h
  obtain ⟨name, hname, h⟩ := Faithful.string.required h
  obtain ⟨location, hlocation, h⟩ := DataLocation.faithful.required h
  obtain ⟨position, hposition, h⟩ := Faithful.size.required h
  obtain ⟨ty, hty, h⟩ := Ty.faithful.required h
  cases h
  obtain ⟨g, hg, gname, glocation, gposition, gty, -⟩ :=
    exists_fields (rfl : toJson ⟨name, location, position, ty⟩ = .object _) (by simp)
  rw [ofJson?, bind_of_eq_some (hg _).1, required_bind gname hname,
    required_bind glocation hlocation, required_bind gposition hposition, required_bind gty hty]
  rfl

theorem FrameLayout.faithful : Faithful ofJson? toJson := by
  intro j l h
  obtain ⟨f, -, h⟩ := Option.bind_eq_some_iff.1 h
  obtain ⟨start, hstart, h⟩ := Faithful.size.required h
  obtain ⟨size, hsize, h⟩ := Faithful.size.required h
  obtain ⟨vars, hvars, h⟩ := LocalVariable.faithful.list.orElse rfl h
  cases h
  obtain ⟨g, hg, gstart, gsize, gvars, -⟩ :=
    exists_fields (rfl : toJson ⟨start, size, vars⟩ = .object _) (by simp)
  rw [ofJson?, bind_of_eq_some (hg _).1, required_bind gstart hstart, required_bind gsize hsize,
    orElse_bind gvars hvars]
  rfl

theorem FunctionDecl.faithful : Faithful ofJson? toJson := by
  intro j d h
  obtain ⟨f, -, h⟩ := Option.bind_eq_some_iff.1 h
  obtain ⟨name, hname, h⟩ := Faithful.string.required h
  obtain ⟨visibility, hvisibility, h⟩ := Visibility.faithful.orElse rfl h
  obtain ⟨mutability, hmutability, h⟩ := Mutability.faithful.orElse rfl h
  obtain ⟨required, hrequired, h⟩ := Argument.faithful.list.orElse rfl h
  obtain ⟨defaulted, hdefaulted, h⟩ := Argument.faithful.list.orElse rfl h
  obtain ⟨result, hresult, h⟩ := Ty.faithful.optionalOrNone rfl h
  obtain ⟨layout, hlayout, h⟩ := FrameLayout.faithful.optionalOrNone rfl h
  obtain ⟨role, hrole, h⟩ := FunctionRole.faithful.orElse rfl h
  cases h
  obtain ⟨g, hg, gname, gvisibility, gmutability, grequired, gdefaulted, gresult, glayout, grole,
    -⟩ := exists_fields (rfl : toJson ⟨name, visibility, mutability, required, defaulted, result,
      layout, role⟩ = .object _) (by simp)
  rw [ofJson?, bind_of_eq_some (hg _).1, required_bind gname hname,
    orElse_bind gvisibility hvisibility, orElse_bind gmutability hmutability,
    orElse_bind grequired hrequired, orElse_bind gdefaulted hdefaulted,
    optionalOrNone_bind gresult hresult, optionalOrNone_bind glayout hlayout,
    orElse_bind grole hrole]
  rfl

theorem EventArgument.faithful : Faithful ofJson? toJson := by
  intro j a h
  obtain ⟨f, -, h⟩ := Option.bind_eq_some_iff.1 h
  obtain ⟨name, hname, h⟩ := Faithful.string.required h
  obtain ⟨ty, hty, h⟩ := Ty.faithful.required h
  obtain ⟨indexed, hindexed, h⟩ := Faithful.bool.orElse rfl h
  cases h
  obtain ⟨g, hg, gname, gty, gindexed, -⟩ :=
    exists_fields (rfl : toJson ⟨name, ty, indexed⟩ = .object _) (by simp)
  rw [ofJson?, bind_of_eq_some (hg _).1, required_bind gname hname, required_bind gty hty,
    orElse_bind gindexed hindexed]
  rfl

theorem EventDecl.faithful : Faithful ofJson? toJson := by
  intro j e h
  obtain ⟨f, -, h⟩ := Option.bind_eq_some_iff.1 h
  obtain ⟨name, hname, h⟩ := Faithful.string.required h
  obtain ⟨arguments, harguments, h⟩ := EventArgument.faithful.list.orElse rfl h
  cases h
  obtain ⟨g, hg, gname, garguments, -⟩ :=
    exists_fields (rfl : toJson ⟨name, arguments⟩ = .object _) (by simp)
  rw [ofJson?, bind_of_eq_some (hg _).1, required_bind gname hname,
    orElse_bind garguments harguments]
  rfl

/-! ## Source nodes and maps -/

theorem SourceNode.faithful : Faithful ofJson? toJson := by
  intro j n h
  obtain ⟨f, -, h⟩ := Option.bind_eq_some_iff.1 h
  obtain ⟨id, hid, h⟩ := Faithful.size.required h
  obtain ⟨kind, hkind, h⟩ := Faithful.string.required h
  obtain ⟨line, hline, h⟩ := Faithful.size.required h
  obtain ⟨column, hcolumn, h⟩ := Faithful.size.required h
  obtain ⟨endLine, hendLine, h⟩ := Faithful.size.required h
  obtain ⟨endColumn, hendColumn, h⟩ := Faithful.size.required h
  obtain ⟨parent, hparent, h⟩ := Faithful.size.optionalOrNone rfl h
  obtain ⟨name, hname, h⟩ := Faithful.string.optionalOrNone rfl h
  cases h
  obtain ⟨g, hg, gid, gkind, gline, gcolumn, gendLine, gendColumn, gparent, gname, -⟩ :=
    exists_fields (rfl : toJson ⟨id, kind, line, column, endLine, endColumn, parent, name⟩ =
      .object _) (by simp)
  rw [ofJson?, bind_of_eq_some (hg _).1, required_bind gid hid, required_bind gkind hkind,
    required_bind gline hline, required_bind gcolumn hcolumn, required_bind gendLine hendLine,
    required_bind gendColumn hendColumn, optionalOrNone_bind gparent hparent,
    optionalOrNone_bind gname hname]
  rfl

theorem SourceMap.faithful : Faithful ofJson? toJson := by
  intro j m h
  obtain ⟨f, -, h⟩ := Option.bind_eq_some_iff.1 h
  obtain ⟨nodes, hnodes, h⟩ := Faithful.size.table.orElse rfl h
  obtain ⟨details, hdetails, h⟩ := Faithful.string.table.orElse rfl h
  cases h
  obtain ⟨g, hg, gnodes, gdetails, -⟩ :=
    exists_fields (rfl : toJson ⟨nodes, details⟩ = .object _) (by simp)
  rw [ofJson?, bind_of_eq_some (hg _).1, orElse_bind gnodes hnodes, orElse_bind gdetails hdetails]
  rfl

/-! ## Nothing foreign is written -/

theorem Ty.native_toJson (t : Ty) : t.toJson.Native := .string _

theorem VariableLocation.native_toJson (l : VariableLocation) : l.toJson.Native := by
  cases l <;> simp [toJson]

theorem Variable.native_toJson (v : Variable) : v.toJson.Native := by
  simp [toJson, Ty.native_toJson, VariableLocation.native_toJson]

theorem Argument.native_toJson (a : Argument) : a.toJson.Native := by
  simp [toJson, Ty.native_toJson]

theorem LocalVariable.native_toJson (v : LocalVariable) : v.toJson.Native := by
  simp [toJson, Ty.native_toJson]

theorem FrameLayout.native_toJson (l : FrameLayout) : l.toJson.Native := by
  simp [toJson, LocalVariable.native_toJson]

theorem FunctionDecl.native_toJson (f : FunctionDecl) : f.toJson.Native := by
  have hresult := Json.native_ofOption Ty.native_toJson f.result
  have hlayout := Json.native_ofOption FrameLayout.native_toJson f.layout
  simp [toJson, Argument.native_toJson, hresult, hlayout]

theorem EventArgument.native_toJson (a : EventArgument) : a.toJson.Native := by
  simp [toJson, Ty.native_toJson]

theorem EventDecl.native_toJson (e : EventDecl) : e.toJson.Native := by
  simp [toJson, EventArgument.native_toJson]

theorem SourceNode.native_toJson (n : SourceNode) : n.toJson.Native := by
  have hparent := Json.native_ofOption Json.native_ofNat n.parent
  have hname := Json.native_ofOption Json.native_string n.name
  simp [toJson, hparent, hname]

theorem SourceMap.native_tableToJson {α : Type} {write : α → Json} (h : ∀ a, (write a).Native)
    (t : Table Nat α) : (tableToJson write t).Native := by
  refine .object fun e he => ?_
  obtain ⟨d, -, rfl⟩ := List.mem_map.1 he
  exact h d.2

theorem SourceMap.native_toJson (m : SourceMap) : m.toJson.Native := by
  have hnodes := native_tableToJson Json.native_ofNat m.nodes
  have hdetails := native_tableToJson Json.native_string m.details
  simp [toJson, hnodes, hdetails]

/-! ## Compiler output -/

namespace Artifact

theorem faithful : Faithful ofJson? toJson := by
  intro j a h
  obtain ⟨f, -, h⟩ := Option.bind_eq_some_iff.1 h
  obtain ⟨name, hname, h⟩ := Faithful.string.required h
  obtain ⟨compiler, hcompiler, h⟩ := Faithful.string.orElse rfl h
  obtain ⟨source, hsource, h⟩ := Faithful.string.orElse rfl h
  obtain ⟨initCode, hinitCode, h⟩ := Faithful.bytes.orElse rfl h
  obtain ⟨code, hcode, h⟩ := Faithful.bytes.orElse rfl h
  obtain ⟨sourceMap, hsourceMap, h⟩ := SourceMap.faithful.orElse rfl h
  obtain ⟨nodes, hnodes, h⟩ := SourceNode.faithful.list.orElse rfl h
  obtain ⟨vars, hvars, h⟩ := Variable.faithful.list.orElse rfl h
  obtain ⟨functions, hfunctions, h⟩ := FunctionDecl.faithful.list.orElse rfl h
  obtain ⟨events, hevents, h⟩ := EventDecl.faithful.list.orElse rfl h
  obtain ⟨size, hsize, h⟩ := Faithful.size.orElse rfl h
  cases h
  obtain ⟨g, hg, gname, gcompiler, gsource, ginitCode, gcode, gsourceMap, gnodes, gvars,
    gfunctions, gevents, gsize, -⟩ := exists_fields (rfl : toJson ⟨name, compiler, source,
      initCode, code, sourceMap, nodes, vars, functions, events, size⟩ = .object _) (by simp)
  rw [ofJson?, bind_of_eq_some (hg _).1, required_bind gname hname,
    orElse_bind gcompiler hcompiler, orElse_bind gsource hsource, orElse_bind ginitCode hinitCode,
    orElse_bind gcode hcode, orElse_bind gsourceMap hsourceMap, orElse_bind gnodes hnodes,
    orElse_bind gvars hvars, orElse_bind gfunctions hfunctions, orElse_bind gevents hevents,
    orElse_bind gsize hsize]
  rfl

theorem native_toJson (a : Artifact) : a.toJson.Native := by
  simp [toJson, SourceMap.native_toJson, SourceNode.native_toJson, Variable.native_toJson,
    FunctionDecl.native_toJson, EventDecl.native_toJson]

/-- Whatever text compiler output is loaded from, what is written of it is loaded as the same. -/
theorem load_render_of_load {s : String} {a : Artifact} (h : load s = .ok a) :
    load a.toJson.render = .ok a := by
  have hparse : parse? s = some a := by
    unfold load at h
    split at h
    · cases h
      assumption
    · cases h
  obtain ⟨j, -, hj⟩ := Option.bind_eq_some_iff.1 hparse
  rw [load, parse?, Json.parse_render a.native_toJson, Option.bind_some, faithful j a hj]

/-- A text that leaves most fields out, lists those of some records, spells a type with blanks and
zeros, and gives a key of a map twice. -/
def vaultText : String :=
  "\x7b\"contract_name\":\"V\\u0061\",\"source_map\":[\x7b\"7\":1,\"7\":4\x7d]," ++
  "\"variables\":[[\"a\",\" uint8x \x7b b:int8[03]\x7d\",\x7b\"storage\":[2]\x7d]]," ++
  "\"functions\":[\x7b\"name\":\"f\",\"kind\":\x7b\"fallback\":null\x7d\x7d]\x7d"

def vault : Artifact where
  name := "Va"
  sourceMap := { nodes := ⟨[(7, 4)]⟩ }
  stateVariables := [⟨"a", .struct "uint8x" [("b", .array (.int 8) 3)], .storage 2⟩]
  functions := [{ name := "f", role := .fallback }]

theorem load_render_vault :
    load vaultText = .ok vault ∧ load vault.toJson.render = .ok vault := by
  have h : load vaultText = .ok vault := by decide +kernel
  exact ⟨h, load_render_of_load h⟩

end Artifact

end EvmInspect
