import EvmInspect.Proofs.Json.Record
import EvmInspect.Trace.Json
/-!
# Traces are read back

A stored trace is the trace that was written: whatever its frames are numbered, called or ended by,
however many topics its logs have, and whichever of the optional parts are there.  What has to be
said is only that its numbers are ones of the machine, since a reader takes no others.
-/

namespace EvmInspect

open Json (alternative? objectFields? fields?_object exists_fields bind_of_eq_some size?_ofNat)
open Json.Fields (required required_bind optional_bind)

/-! ## Parts of frames -/

theorem CallKind.ofJson?_toJson (k : CallKind) : ofJson? k.toJson = some k := by
  cases k with
  | call scheme => cases scheme <;> rfl
  | create scheme =>
    cases scheme with
    | create => rfl
    | create2 salt =>
      simp [ofJson?, toJson, CreateScheme.ofJson?, alternative?, objectFields?, fields?_object,
        required]
    | custom address =>
      simp [ofJson?, toJson, CreateScheme.ofJson?, alternative?, objectFields?, fields?_object,
        required]

@[simp] theorem Halt.ofName?_name (reason : Halt) : ofName? reason.name = some reason := by
  cases reason <;> rfl

theorem VmError.ofJson?_toJson (e : VmError) : ofJson? e.toJson = some e := by
  cases e with
  | revert output =>
    simp [ofJson?, toJson, alternative?, objectFields?, fields?_object, required]
  | halt reason =>
    simp [ofJson?, toJson, alternative?, objectFields?, fields?_object, required]

theorem Log.ofJson?_toJson {log : Log} (h : log.id ≤ Size.limit) :
    ofJson? log.toJson = some log := by
  have htopics := Json.list?_array log.topics fun w _ => Json.word?_ofWord w
  obtain ⟨f, hf, id, content, -⟩ := exists_fields (rfl : log.toJson = .object _) (by simp)
  obtain ⟨g, hg, address, topics, data, -⟩ := exists_fields (j := .object
    [("address", .ofAddress log.address), ("topics", .array (log.topics.map .ofWord)),
     ("data", .ofBytes log.data)]) rfl (by simp)
  rw [ofJson?, bind_of_eq_some (hf _).1, required_bind id (size?_ofNat h),
    required_bind content (hg _).2, required_bind address (Json.address?_ofAddress _),
    required_bind topics htopics, required_bind data (Json.bytes?_ofBytes _)]
  rfl

theorem SourceOverride.ofJson?_toJson {o : SourceOverride}
    (h : ∀ node ∈ o.node, node ≤ Size.limit) : ofJson? o.toJson = some o := by
  have hnode := Json.nullable?_ofOption o.node rfl fun n hn => size?_ofNat (h n hn)
  have hdetail := Json.nullable?_ofOption o.detail rfl fun s _ => Json.string?_string s
  obtain ⟨f, hf, node, detail, -⟩ := exists_fields (rfl : o.toJson = .object _) (by simp)
  rw [ofJson?, bind_of_eq_some (hf _).1, optional_bind node hnode, optional_bind detail hdetail]
  rfl

/-! ## Frames -/

/-- All numbers of the frame are ones of the machine. -/
structure Frame.Addressable (f : Frame) : Prop where
  id : f.id ≤ Size.limit
  parent : ∀ p ∈ f.parent, p ≤ Size.limit
  depth : f.depth ≤ Size.limit
  visited : ∀ place ∈ f.visited, place ≤ Size.limit
  logs : ∀ log ∈ f.logs, log.id ≤ Size.limit
  source : ∀ o ∈ f.source, ∀ node ∈ o.node, node ≤ Size.limit

instance : DecidablePred Frame.Addressable := fun f =>
  decidable_of_iff
    (f.id ≤ Size.limit ∧ (∀ p ∈ f.parent, p ≤ Size.limit) ∧ f.depth ≤ Size.limit ∧
      (∀ place ∈ f.visited, place ≤ Size.limit) ∧ (∀ log ∈ f.logs, log.id ≤ Size.limit) ∧
      ∀ o ∈ f.source, ∀ node ∈ o.node, node ≤ Size.limit)
    ⟨fun ⟨id, parent, depth, visited, logs, source⟩ => ⟨id, parent, depth, visited, logs, source⟩,
      fun h => ⟨h.id, h.parent, h.depth, h.visited, h.logs, h.source⟩⟩

theorem Frame.ofJson?_toJson {f : Frame} (h : f.Addressable) : ofJson? f.toJson = some f := by
  have hparent := Json.nullable?_ofOption f.parent rfl fun p hp => size?_ofNat (h.parent p hp)
  have herror := Json.nullable?_ofOption f.error rfl fun e _ => VmError.ofJson?_toJson e
  have hvisited := Json.list?_array f.visited
    fun place hplace => size?_ofNat (h.visited place hplace)
  have hlogs := Json.list?_array f.logs fun log hlog => Log.ofJson?_toJson (h.logs log hlog)
  have hsource := Json.nullable?_ofOption f.source rfl
    fun o ho => SourceOverride.ofJson?_toJson (h.source o ho)
  have htext := Json.nullable?_ofOption f.contractText rfl fun s _ => Json.string?_string s
  obtain ⟨g, hg, id, parent, depth, kind, caller, code, input, output, error, visited, memory,
    logs, source, text, -⟩ := exists_fields (rfl : f.toJson = .object _) (by simp)
  rw [ofJson?, bind_of_eq_some (hg _).1, required_bind id (size?_ofNat h.id),
    optional_bind parent hparent, required_bind depth (size?_ofNat h.depth),
    required_bind kind (CallKind.ofJson?_toJson f.kind),
    required_bind caller (Json.address?_ofAddress f.caller),
    required_bind code (Json.address?_ofAddress f.code),
    required_bind input (Json.bytes?_ofBytes f.input),
    required_bind output (Json.bytes?_ofBytes f.output), optional_bind error herror,
    required_bind visited hvisited, required_bind memory (Json.bytes?_ofBytes f.memory),
    required_bind logs hlogs, optional_bind source hsource, optional_bind text htext]
  rfl

/-! ## Nothing foreign is written -/

theorem CallKind.native_toJson (k : CallKind) : k.toJson.Native := by
  cases k with
  | call scheme => simp [toJson]
  | create scheme => cases scheme <;> simp [toJson]

theorem VmError.native_toJson (e : VmError) : e.toJson.Native := by
  cases e <;> simp [toJson]

theorem Log.native_toJson (log : Log) : log.toJson.Native := by
  simp [toJson]

theorem SourceOverride.native_toJson (o : SourceOverride) : o.toJson.Native := by
  have hnode := Json.native_ofOption Json.native_ofNat o.node
  have hdetail := Json.native_ofOption Json.native_string o.detail
  simp [toJson, hnode, hdetail]

theorem Frame.native_toJson (f : Frame) : f.toJson.Native := by
  have hparent := Json.native_ofOption Json.native_ofNat f.parent
  have herror := Json.native_ofOption VmError.native_toJson f.error
  have hsource := Json.native_ofOption SourceOverride.native_toJson f.source
  have htext := Json.native_ofOption Json.native_string f.contractText
  simp [toJson, hparent, CallKind.native_toJson, herror, Log.native_toJson, hsource, htext]

namespace Trace

theorem native_toJson (t : Trace) : t.toJson.Native := by
  simp [toJson, Frame.native_toJson]

/-! ## Traces -/

/-- All numbers in the trace are ones of the machine. -/
def Addressable (t : Trace) : Prop := ∀ f ∈ t.frames, f.Addressable

instance : DecidablePred Addressable := fun t =>
  inferInstanceAs (Decidable (∀ f ∈ t.frames, f.Addressable))

/-- A trace is read back from its document, and from the text of its document. -/
theorem ofJson?_toJson_of_addressable (t : Trace) (h : t.Addressable) :
    ofJson? t.toJson = some t ∧ (Json.parse t.toJson.render).bind ofJson? = some t := by
  have hframes := Json.list?_array t.frames fun f hf => Frame.ofJson?_toJson (h f hf)
  have hread : ofJson? t.toJson = some t := by
    obtain ⟨f, hf, inner, -⟩ := exists_fields (rfl : t.toJson = .object _) (by simp)
    rw [ofJson?, bind_of_eq_some (hf _).1, required_bind inner hframes]
    rfl
  refine ⟨hread, ?_⟩
  rw [Json.parse_render t.native_toJson, Option.bind_some, hread]

/-- A creation with the largest salt halts below a parent that stands behind it.  Its log has five
topics, its failure is said to come from a node without a word for it, and another frame gives the
word without the node. -/
def twisted : Trace where
  frames :=
    [{ id := Size.limit, parent := some 1, depth := 3,
       kind := .create (.create2 (BitVec.allOnes 256)), caller := 7, code := 8,
       input := [0, 255], error := some (.halt .outOfGas), visited := [0, Size.limit],
       logs := [{ id := Size.limit, topics := [1, 2, 3, 4, 5], data := [9] }],
       source := some { node := some 0 }, contractText := some "\"C\"\n" },
     { error := some (.revert [1]), kind := .create (.custom 3),
       source := some { detail := some "safeadd" } }]

theorem ofJson?_toJson_twisted :
    twisted.Addressable ∧ ofJson? twisted.toJson = some twisted ∧
      (Json.parse twisted.toJson.render).bind ofJson? = some twisted := by
  have h : twisted.Addressable := by decide
  exact ⟨h, ofJson?_toJson_of_addressable twisted h⟩

end Trace

end EvmInspect
