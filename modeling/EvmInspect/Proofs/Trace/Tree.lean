import EvmInspect.Proofs.Digits
import EvmInspect.Proofs.Trace.Preorder
import EvmInspect.Text.Lines
/-!
# Trees as text

The text of a trace has one header for each frame, in pre-order, and under it the frame's details.
The bars in front of a header are those of the frames above it, whichever way the drawing came
there: a level is blank once the frame on it is the last child of its parent.

Headers are told apart from details by their arrow, which stands in no detail.
-/

namespace EvmInspect.Trace

open Relation Walk

variable {t : Trace} {a b f g : Frame} {d e : Drawn}

/-! ## Letters of headers and details -/

/-- The text is part of a line and has no arrow in it. -/
def Clean (s : String) : Prop := ∀ c ∈ s.toList, c ≠ '→' ∧ c ≠ '\n' ∧ c ≠ '\r'

instance (s : String) : Decidable (Clean s) :=
  List.decidableBAll (fun c => c ≠ '→' ∧ c ≠ '\n' ∧ c ≠ '\r') s.toList

theorem Clean.append {s s' : String} (h : Clean s) (h' : Clean s') : Clean (s ++ s') := by
  intro c hc
  rw [String.toList_append, List.mem_append] at hc
  exact hc.elim (h c) (h' c)

theorem clean_join {texts : List String} (h : ∀ s ∈ texts, Clean s) :
    Clean (String.join texts) := by
  intro c hc
  rw [String.toList_join] at hc
  obtain ⟨s, hs, hc⟩ := List.mem_flatMap.1 hc
  exact h s hs c hc

theorem clean_of_isAlphanum {s : String} (h : ∀ c ∈ s.toList, c.isAlphanum = true) : Clean s := by
  intro c hc
  refine ⟨?_, ?_, ?_⟩ <;> rintro rfl <;> exact absurd (h _ hc) (by decide)

theorem clean_hex (data : List UInt8) : Clean (Hex.encode data) :=
  clean_of_isAlphanum (Hex.isAlphanum_encode data)

theorem clean_nat (n : Nat) : Clean (toString n) :=
  clean_of_isAlphanum (isAlphanum_nat n)

theorem clean_blanks (n : Nat) : Clean (String.ofList (List.replicate n ' ')) := by
  intro c hc
  rw [String.toList_ofList] at hc
  rw [List.eq_of_mem_replicate hc]
  decide

theorem clean_dataText (data : List UInt8) : Clean (dataText data) := by
  unfold dataText
  split
  · exact clean_hex data
  · exact ((((clean_hex _).append (by decide)).append (clean_nat _)).append (by decide))

theorem clean_logText (log : Log) : Clean (logText log) := by
  unfold logText
  split
  · exact ((show Clean "anonymous (" by decide).append (clean_nat _)).append (by decide)
  · exact (((((clean_hex _).append (by decide)).append (clean_nat _)).append (by decide)).append
      (clean_nat _)).append (by decide)

theorem exists_letters_name (reason : Halt) :
    ∃ letters, reason.name = String.ofList letters ∧ letters.all Char.isAlphanum = true := by
  cases reason <;> exact ⟨_, rfl, rfl⟩

theorem clean_name (reason : Halt) : Clean reason.name := by
  obtain ⟨letters, hname, hletters⟩ := exists_letters_name reason
  apply clean_of_isAlphanum
  rw [hname, String.toList_ofList]
  exact List.all_eq_true.1 hletters

theorem clean_outcomeText (error : Option VmError) : Clean (outcomeText error) := by
  cases error with
  | none => decide
  | some e =>
    cases e with
    | revert output => exact (show Clean " ✗ revert " by decide).append (clean_dataText output)
    | halt reason => exact (show Clean " ✗ " by decide).append (clean_name reason)

theorem clean_addressText (a : Address) : Clean (addressText a) := by
  unfold addressText
  split
  · decide
  · exact clean_hex _

theorem clean_label (k : CallKind) : Clean k.label := by
  cases k with
  | call scheme => cases scheme <;> decide
  | create scheme =>
    cases scheme with
    | create => exact (by decide : Clean "CREATE")
    | create2 => exact (by decide : Clean "CREATE2")
    | custom => exact (by decide : Clean "CREATE_CUSTOM")

theorem frameText_eq (f : Frame) : ∃ caller code, Clean caller ∧ Clean code ∧
    frameText f = caller ++ "→" ++ code := by
  refine ⟨padRight 12 f.kind.label ++ " " ++ addressText f.caller ++ " ",
    " " ++ addressText f.code ++ outcomeText f.error, ?_, ?_, ?_⟩
  · exact ((((clean_label _).append (clean_blanks _)).append (by decide)).append
      (clean_addressText _)).append (by decide)
  · exact ((show Clean " " by decide).append (clean_addressText _)).append (clean_outcomeText _)
  · have harrow : " → " = " " ++ ("→" ++ " ") := rfl
    simp only [frameText, toString, String.append_assoc, harrow]

/-- The details of a frame, without line ends. -/
def detailTexts (indent : Nat) (f : Frame) : List String :=
  let padding := String.ofList (List.replicate (4 * (indent + 1)) ' ')
  (if 4 < f.input.length then [padding ++ "└ Calldata: " ++ dataText f.input] else []) ++
    f.logs.map fun log => padding ++ "• log #" ++ toString log.id ++ ": " ++ logText log

theorem detailLines_eq (indent : Nat) (f : Frame) :
    detailLines indent f = (detailTexts indent f).map (· ++ "\n") := by
  rw [detailLines, detailTexts, List.map_append, List.map_map]
  congr 1
  split <;> rfl

theorem clean_detailTexts (indent : Nat) (f : Frame) : ∀ s ∈ detailTexts indent f, Clean s := by
  intro s hs
  obtain hs | hs := List.mem_append.1 hs
  · split at hs
    · rw [List.mem_singleton.1 hs]
      exact ((clean_blanks _).append (by decide)).append (clean_dataText _)
    · simp at hs
  · obtain ⟨log, -, rfl⟩ := List.mem_map.1 hs
    exact ((((clean_blanks _).append (by decide)).append (clean_nat _)).append (by decide)).append
      (clean_logText _)

def Drawn.header (d : Drawn) : String :=
  bars d.levels ++ (if d.indent = 0 then "" else corner d.isLast) ++ frameText d.frame

theorem Drawn.header_eq (d : Drawn) : ∃ front back, Clean front ∧ Clean back ∧
    d.header = front ++ "→" ++ back := by
  obtain ⟨caller, code, hcaller, hcode, hframe⟩ := frameText_eq d.frame
  have hbars : Clean (bars d.levels) := by
    apply clean_join
    intro s hs
    obtain ⟨isLast, -, rfl⟩ := List.mem_map.1 hs
    cases isLast <;> decide
  have hcorner : Clean (if d.indent = 0 then "" else corner d.isLast) := by
    split
    · decide
    · cases d.isLast <;> decide
  refine ⟨_, code, (hbars.append hcorner).append hcaller, hcode, ?_⟩
  rw [header, hframe, String.append_assoc, String.append_assoc, String.append_assoc,
    String.append_assoc, String.append_assoc]

def Drawn.texts (d : Drawn) : List String := d.header :: detailTexts d.indent d.frame

theorem Drawn.lines_eq (d : Drawn) : d.lines = d.texts.map (· ++ "\n") := by
  rw [texts, List.map_cons, ← detailLines_eq]
  rfl

theorem Drawn.mem_texts {d : Drawn} {s : String} (h : s ∈ d.texts) :
    '\n' ∉ s.toList ∧ '\r' ∉ s.toList := by
  obtain rfl | h := List.mem_cons.1 h
  · obtain ⟨front, back, hfront, hback, heq⟩ := d.header_eq
    simp only [heq, String.toList_append, List.mem_append, not_or]
    exact ⟨⟨⟨fun h => (hfront _ h).2.1 rfl, by decide⟩, fun h => (hback _ h).2.1 rfl⟩,
      ⟨⟨fun h => (hfront _ h).2.2 rfl, by decide⟩, fun h => (hback _ h).2.2 rfl⟩⟩
  · have hclean := clean_detailTexts _ _ s h
    exact ⟨fun h => (hclean _ h).2.1 rfl, fun h => (hclean _ h).2.2 rfl⟩

theorem Drawn.filter_texts (d : Drawn) :
    (d.texts.map String.toList).filter ('→' ∈ ·) = [d.header.toList] := by
  obtain ⟨front, back, -, -, heq⟩ := d.header_eq
  have harrow : '→' ∈ d.header.toList := by simp [heq]
  have hdetails : ∀ s ∈ detailTexts d.indent d.frame, '→' ∉ s.toList := fun s hs h =>
    (clean_detailTexts _ _ s hs _ h).1 rfl
  rw [texts, List.map_cons, List.filter_cons_of_pos (by simpa using harrow), List.filter_map,
    List.filter_eq_nil_iff.2 (by simpa using hdetails), List.map_nil]

/-! ## Lines -/

theorem linesFrom_append {line w rest : List Char} (hw : '\n' ∉ w) :
    Text.linesFrom line (w ++ '\n' :: rest) =
      Text.dropReturn (line ++ w) :: Text.linesFrom [] rest := by
  induction w generalizing line with
  | nil => simp [Text.linesFrom]
  | cons c w ih =>
    rw [List.mem_cons, not_or] at hw
    rw [List.cons_append, Text.linesFrom, if_neg (Ne.symm hw.1), ih hw.2, List.append_assoc]
    rfl

theorem lines_join {texts : List String}
    (h : ∀ s ∈ texts, '\n' ∉ s.toList ∧ '\r' ∉ s.toList) :
    Text.lines (String.join (texts.map (· ++ "\n"))).toList = texts.map String.toList := by
  induction texts with
  | nil => rfl
  | cons s texts ih =>
    rw [List.forall_mem_cons] at h
    have hreturn : Text.dropReturn s.toList = s.toList := by
      rw [Text.dropReturn, if_neg fun hlast => h.1.2 (List.mem_of_getLast? hlast)]
    have hrest := ih h.2
    rw [Text.lines] at hrest ⊢
    rw [List.map_cons, String.join_cons, String.toList_append, String.toList_append,
      List.append_assoc, show "\n".toList = ['\n'] from rfl, List.singleton_append,
      linesFrom_append h.1.1, List.nil_append, hreturn, hrest, List.map_cons]

theorem join_flatMap {α : Type} (f : α → List String) (as : List α) :
    String.join (as.flatMap f) = String.join (as.map fun a => String.join (f a)) := by
  induction as with
  | nil => rfl
  | cons a as ih => rw [List.flatMap_cons, String.join_append, List.map_cons, String.join_cons, ih]

/-! ## What is drawn -/

def isLastChild (t : Trace) (f : Frame) : Bool := f.parent.bind t.lastChild? == some f

theorem Calls.isLastChild_iff (h : t.Calls g f) :
    t.isLastChild f = true ↔ (t.children g.id).getLast? = some f := by
  rw [isLastChild, h.parent, Option.bind_some, lastChild?_eq_getLast?, beq_iff_eq]

theorem map_fst_markLast (frames : List Frame) : (markLast frames).map Prod.fst = frames := by
  induction frames with
  | nil => rfl
  | cons f rest ih => rw [markLast, List.map_cons, ih]

theorem snd_of_mem_markLast {frames : List Frame} (hnodup : frames.Nodup) {m : Frame × Bool}
    (h : m ∈ markLast frames) : m.2 = true ↔ frames.getLast? = some m.1 := by
  induction frames with
  | nil => simp [markLast] at h
  | cons f rest ih =>
    rw [List.nodup_cons] at hnodup
    rw [markLast, List.mem_cons] at h
    obtain rfl | h := h
    · cases rest with
      | nil => simp
      | cons g rest =>
        -- the first of several frames is not the last, or it would be there twice
        have hne : ¬ (g :: rest).getLast? = some f := fun hlast =>
          hnodup.1 (List.mem_of_getLast? hlast)
        simpa [List.getLast?_cons_cons] using hne
    · have hmem := fst_mem_of_mem_markLast h
      obtain ⟨g, rest, rfl⟩ := List.exists_cons_of_ne_nil (List.ne_nil_of_mem hmem)
      rw [ih hnodup.2 h, List.getLast?_cons_cons]

theorem Built.depth_of_calls (ht : t.Built) (h : t.Calls g f) : f.depth = g.depth + 1 := by
  obtain hroot | ⟨p, hcall, hdepth⟩ := ht.leveled f h.mem
  · simp [h.parent] at hroot
  · rw [hdepth, ht.ordered.numbered.caller_unique hcall h]

theorem Built.depth_lt_of_below (ht : t.Built) (h : t.Below a f) : a.depth < f.depth := by
  induction h with
  | single h => rw [ht.depth_of_calls h]; omega
  | tail _ h ih => rw [ht.depth_of_calls h]; omega

theorem Built.depth_eq_zero_iff (ht : t.Built) (hf : f ∈ t.frames) :
    f.depth = 0 ↔ f.parent = none := by
  obtain hroot | ⟨p, hcall, hdepth⟩ := ht.leveled f hf
  · simp [hroot]
  · simp [hcall.parent, hdepth]

/-- What is drawn has the bars of the frames above it, and says of its frame whether it is the last
child. -/
structure Placed (t : Trace) (d : Drawn) : Prop where
  mem : d.frame ∈ t.frames
  indent : d.indent = d.frame.depth
  isLast : 0 < d.frame.depth → d.isLast = t.isLastChild d.frame
  length : d.levels.length = d.frame.depth - 1
  levels : ∀ a, t.Below a d.frame → 0 < a.depth →
    d.levels[a.depth - 1]? = some (t.isLastChild a)

theorem Built.placed_root (ht : t.Built) (hd : d ∈ t.drawnRoots) : t.Placed d := by
  obtain ⟨r, hr, rfl⟩ := List.mem_map.1 hd
  have hroot := fst_mem_of_mem_markLast hr
  simp only [roots, List.mem_filter, Option.isNone_iff_eq_none] at hroot
  have hdepth := (ht.depth_eq_zero_iff hroot.1).2 hroot.2
  refine ⟨hroot.1, hdepth.symm, fun hpos => absurd hdepth (Nat.ne_of_gt hpos), by simp [hdepth],
    fun a ha => ?_⟩
  have hlt : a.depth < r.1.depth := ht.depth_lt_of_below ha
  omega

/-- The bars of a frame below another are those before the other one and, unless that is a root, one
for it. -/
theorem Built.placed_below (ht : t.Built) (hd : t.Placed d) (he : e ∈ t.drawnBelow d) :
    t.Placed e := by
  obtain ⟨c, hc, rfl⟩ := List.mem_map.1 he
  have hcall : t.Calls d.frame c.1 := ⟨hd.mem, fst_mem_of_mem_markLast hc⟩
  have hdepth := ht.depth_of_calls hcall
  have hindent := hd.indent
  have hlength := hd.length
  have hnodup : (t.children d.frame.id).Nodup := ht.ordered.numbered.nodup.filter _
  refine ⟨hcall.mem, by simp only; omega, fun _ => ?_, ?_, fun a ha hpos => ?_⟩
  · rw [Bool.eq_iff_iff, snd_of_mem_markLast hnodup hc, hcall.isLastChild_iff]
  · simp only
    split
    · omega
    · rw [List.length_append, List.length_singleton]
      omega
  · simp only
    rw [ht.ordered.below_iff hcall] at ha
    have hle : a.depth ≤ d.frame.depth := by
      obtain ha | rfl := ha
      · exact (ht.depth_lt_of_below ha).le
      · exact le_rfl
    rw [if_neg (by omega)]
    obtain ha | rfl := ha
    · have hlt := ht.depth_lt_of_below ha
      rw [List.getElem?_append_left (by omega), hd.levels a ha hpos]
    · rw [List.getElem?_append_right (by omega), hlength, Nat.sub_self, List.getElem?_cons_zero,
        hd.isLast hpos]

theorem Built.placed (ht : t.Built) (hd : d ∈ t.drawn) : t.Placed d := by
  obtain ⟨r, hr, hd⟩ := List.mem_flatMap.1 hd
  exact forall_within (fun _ ha _ hb => ht.placed_below ha hb) (ht.placed_root hr) d hd

theorem Ordered.map_frame_drawn (ht : t.Ordered) :
    t.drawn.map Drawn.frame = t.roots.flatMap fun r => t.subtree r.id := by
  have hbelow : ∀ d : Drawn, (t.drawnBelow d).map Drawn.frame = t.called d.frame := by
    intro d
    rw [drawnBelow, List.map_map, called, ← map_fst_markLast (t.children d.frame.id)]
    simp [Function.comp_def, map_fst_markLast]
  have hroots : t.drawnRoots.map Drawn.frame = t.roots := by
    rw [drawnRoots, List.map_map]
    exact map_fst_markLast t.roots
  rw [drawn, List.map_flatMap]
  simp only [map_within hbelow]
  rw [← List.flatMap_map, hroots]
  refine List.flatMap_congr fun r hr => (ht.subtree_eq_within ?_).symm
  exact (List.mem_filter.1 hr).1

/-! ## The text -/

/-- Above a frame there is one frame at each depth. -/
theorem Built.existsUnique_above (ht : t.Built) (hf : f ∈ t.frames) {j : Nat} (hj : j < f.depth) :
    ∃! a, t.Below a f ∧ a.depth = j := by
  obtain ⟨above, hdepths, habove⟩ := ht.exists_above hf
  have hnodup : (above.map Frame.depth).Nodup := hdepths ▸ List.nodup_range
  obtain ⟨a, ha, rfl⟩ : ∃ a ∈ above, a.depth = j := by
    apply List.mem_map.1
    rw [hdepths]
    exact List.mem_range.2 hj
  refine ⟨a, ⟨(habove a).1 ha, rfl⟩, fun b hb => ?_⟩
  exact List.inj_on_of_nodup_map hnodup ((habove b).2 hb.1) ha hb.2

/-- The line is the header of the frame: behind a segment for each frame above it that is no root,
blank if that is a last child, and behind a corner or a tee, unless the frame is a root itself. -/
structure Heads (t : Trace) (f : Frame) (line : String) : Prop where
  above : ∀ j < f.depth, ∃! a, t.Below a f ∧ a.depth = j
  root : f.depth = 0 → line = frameText f
  nested : 0 < f.depth → ∃ segments : List String, segments.length = f.depth - 1 ∧
    (∀ a, t.Below a f → 0 < a.depth →
      segments[a.depth - 1]? = some (if t.isLastChild a then "    " else "│   ")) ∧
    line = String.join segments ++ (if t.isLastChild f then "└── " else "├── ") ++ frameText f

theorem Built.heads_header (ht : t.Built) (hd : t.Placed d) : t.Heads d.frame d.header where
  above j hj := ht.existsUnique_above hd.mem hj
  root hzero := by
    have hlevels : d.levels = [] := by
      apply List.eq_nil_of_length_eq_zero
      rw [hd.length, hzero]
    rw [Drawn.header, hlevels, hd.indent, if_pos hzero]
    simp [bars]
  nested hpos := by
    refine ⟨d.levels.map fun isLast => if isLast then "    " else "│   ", ?_, fun a ha hdepth => ?_,
      ?_⟩
    · rw [List.length_map, hd.length]
    · rw [List.getElem?_map, hd.levels a ha hdepth, Option.map_some]
    · rw [Drawn.header, hd.indent, if_neg (by omega), hd.isLast hpos]
      rfl

theorem Built.perm_subtrees (ht : t.Built) :
    (t.roots.flatMap fun r => t.subtree r.id).Perm t.frames := by
  have hroots : ∀ r ∈ t.roots, r ∈ t.frames ∧ r.depth = 0 := by
    intro r hr
    simp only [roots, List.mem_filter, Option.isNone_iff_eq_none] at hr
    exact ⟨hr.1, (ht.depth_eq_zero_iff hr.1).2 hr.2⟩
  have hbelow : ∀ r ∈ t.roots, ∀ f ∈ t.subtree r.id, f = r ∨ t.Below r f := fun r hr f hf =>
    (ht.ordered.mem_subtree_iff (hroots r hr).1).1 hf
  refine (List.perm_ext_iff_of_nodup ?_ ht.ordered.numbered.nodup).2 fun f => ?_
  · refine List.nodup_flatMap.2 ⟨fun r hr => ht.ordered.nodup_subtree (hroots r hr).1, ?_⟩
    refine (ht.ordered.numbered.nodup.filter _).pairwise_of_forall_ne ?_
    intro r hr r' hr' hne f hf hf'
    -- both roots would be the one frame above at depth zero
    have hzero := (hroots r hr).2
    have hzero' := (hroots r' hr').2
    obtain rfl | hf := hbelow r hr f hf
    · obtain rfl | hf' := hbelow r' hr' f hf'
      · exact hne rfl
      · have hlt := ht.depth_lt_of_below hf'
        omega
    · obtain rfl | hf' := hbelow r' hr' f hf'
      · have hlt := ht.depth_lt_of_below hf
        omega
      · have hlt := ht.depth_lt_of_below hf
        obtain ⟨a, -, hunique⟩ := ht.existsUnique_above (j := 0) hf.mem (by omega)
        exact hne ((hunique r ⟨hf, hzero⟩).trans (hunique r' ⟨hf', hzero'⟩).symm)
  · rw [List.mem_flatMap]
    constructor
    · rintro ⟨r, hr, hf⟩
      obtain rfl | hf := hbelow r hr f hf
      · exact (hroots f hr).1
      · exact hf.mem
    · intro hf
      have hroot : ∀ r ∈ t.frames, r.depth = 0 → r ∈ t.roots := by
        intro r hr hzero
        simp [roots, hr, (ht.depth_eq_zero_iff hr).1 hzero]
      by_cases hzero : f.depth = 0
      · exact ⟨f, hroot f hf hzero, (ht.ordered.mem_subtree_iff hf).2 (.inl rfl)⟩
      · obtain ⟨r, ⟨hbelow, hdepth⟩, -⟩ := ht.existsUnique_above (j := 0) hf (by omega)
        obtain ⟨c, hcall, -⟩ := TransGen.head'_iff.1 hbelow
        exact ⟨r, hroot r hcall.1 hdepth, (ht.ordered.mem_subtree_iff hcall.1).2 (.inr hbelow)⟩

theorem Built.frames_eq_nil (ht : t.Built) (h : t.roots = []) : t.frames = [] := by
  have hperm := ht.perm_subtrees
  rw [h] at hperm
  exact hperm.symm.eq_nil

theorem filter_lines_treeText (t : Trace) :
    (Text.lines t.treeText.toList).filter ('→' ∈ ·) =
      (t.drawn.map Drawn.header).map String.toList := by
  by_cases hroots : t.roots = []
  · have htext : t.treeText = "<empty trace>\n" := by rw [treeText, hroots]
    have hdrawn : t.drawn = [] := by rw [drawn, drawnRoots, hroots]; rfl
    rw [htext, hdrawn]
    decide
  · have htext : t.treeText = String.join ((t.drawn.flatMap Drawn.texts).map (· ++ "\n")) := by
      rw [treeText_eq hroots, List.map_flatMap]
      exact congrArg String.join (List.flatMap_congr fun d _ => d.lines_eq)
    have hlines : ∀ s ∈ t.drawn.flatMap Drawn.texts, '\n' ∉ s.toList ∧ '\r' ∉ s.toList := by
      intro s hs
      obtain ⟨d, -, hs⟩ := List.mem_flatMap.1 hs
      exact Drawn.mem_texts hs
    rw [htext, lines_join hlines, List.map_flatMap, List.filter_flatMap, List.map_map]
    simp only [Drawn.filter_texts]
    exact List.map_eq_flatMap.symm

/-- The tree of a trace that is built frame by frame shows every frame once, in the pre-order of the
roots as they were added.  The lines with an arrow are the headers, one for each frame, and the text
is made of the headers and, behind each of them, the details of its frame. -/
theorem treeText_of_built (ht : t.Built) :
    let shown := t.roots.flatMap fun r => t.subtree r.id
    shown.Perm t.frames ∧ ∃ heads : List String, List.Forall₂ t.Heads shown heads ∧
      (Text.lines t.treeText.toList).filter ('→' ∈ ·) = heads.map String.toList ∧
      (t.frames ≠ [] → t.treeText = String.join
        (List.zipWith (fun head f => String.join ((head ++ "\n") :: detailLines f.depth f))
          heads shown)) := by
  intro shown
  have hshown : t.drawn.map Drawn.frame = shown := ht.ordered.map_frame_drawn
  refine ⟨ht.perm_subtrees, t.drawn.map Drawn.header, ?_, t.filter_lines_treeText,
    fun hframes => ?_⟩
  · rw [← hshown, List.forall₂_map_left_iff, List.forall₂_map_right_iff, List.forall₂_same]
    exact fun d hd => ht.heads_header (ht.placed hd)
  · have hroots : t.roots ≠ [] := fun h => hframes (ht.frames_eq_nil h)
    have hlines : ∀ d ∈ t.drawn, String.join ((d.header ++ "\n") ::
        detailLines d.frame.depth d.frame) = String.join d.lines := by
      intro d hd
      rw [← (ht.placed hd).indent]
      rfl
    rw [treeText_eq hroots, ← hshown, List.zipWith_map_left, List.zipWith_map_right,
      List.zipWith_self, List.map_congr_left hlines, join_flatMap]

/-- The second child of the root is drawn last, though the child of the first was added after it. -/
theorem treeText_interleaved :
    interleaved.Built ∧
      List.Forall₂ interleaved.Heads (interleaved.roots.flatMap fun r => interleaved.subtree r.id)
        ["CALL         0x0 → 0x0 ✓", "├── CALL         0x0 → 0x0 ✓",
          "│   └── CALL         0x0 → 0x0 ✓", "└── CALL         0x0 → 0x0 ✓"] := by
  obtain ⟨-, heads, hheads, hlines, -⟩ := treeText_of_built built_interleaved
  have hdrawn : interleaved.drawn.map Drawn.header =
      ["CALL         0x0 → 0x0 ✓", "├── CALL         0x0 → 0x0 ✓",
        "│   └── CALL         0x0 → 0x0 ✓", "└── CALL         0x0 → 0x0 ✓"] := by
    decide +kernel
  have hinj : Function.Injective String.toList := fun _ _ h => String.toList_inj.1 h
  rw [filter_lines_treeText] at hlines
  rw [← hdrawn, List.map_injective_iff.2 hinj hlines]
  exact ⟨built_interleaved, hheads⟩

end EvmInspect.Trace
