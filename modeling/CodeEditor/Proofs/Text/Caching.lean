import CodeEditor.Proofs.Text.Coordinates
import CodeEditor.Proofs.Text.Edit
import CodeEditor.Proofs.Text.Utf8

/-!
# What is kept of a text

A document keeps the length and the line index of its text, and cuts its lines out of the
characters. The buffer below is a document as it lies in memory: it reckons its length on from the
edits, finds the line index only when it is asked for it, and cuts lines out of the stored bytes. A
text that is replaced stays where it was, since it may have been handed out.

One invariant relates the two: the buffer has either no line index or that of its text. Every step
keeps it, so that after any sequence of steps both answer as if the text had just been read.
-/

namespace CodeEditor

/-! ## Lines as pieces of the text -/

theorem slice_of_drop {chars rest : List Char} {start : Nat} {c : Char} (n : Nat)
    (h : chars.drop start = c :: rest) :
    Document.slice chars start (start + 1 + n) =
      c :: Document.slice chars (start + 1) (start + 1 + n) := by
  have hrest : chars.drop (start + 1) = rest := by
    rw [← List.drop_drop, h, List.drop_one, List.tail_cons]
  have hlength : start + 1 + n - start = n + 1 := by omega
  rw [Document.slice, Document.slice, h, hrest, hlength, List.take_succ_cons,
    Nat.add_sub_cancel_left]

/-- The ranges of the lines cut the lines out of what is left of a text. -/
theorem map_slice_lineRanges (before chars : List Char) :
    (lineRanges before.length (splitLines chars)).map
        (fun range ↦ Document.slice (before ++ chars) range.start range.stop) =
      splitLines chars := by
  induction chars generalizing before with
  | nil => simp [splitLines, lineRanges, Document.slice]
  | cons c rest ih =>
    have hnext := ih (before ++ [c])
    rw [List.append_assoc, List.singleton_append, List.length_append,
      List.length_singleton] at hnext
    by_cases hc : c = '\n'
    · subst hc
      rw [splitLines_cons_newline, lineRanges, List.map_cons, List.length_nil, Nat.add_zero, hnext]
      simp [Document.slice]
    · obtain ⟨line, more, hrest, hcons⟩ := splitLines_cons_of_ne hc rest
      rw [hrest, lineRanges, List.map_cons, List.cons.injEq] at hnext
      have hstop : before.length + (line.length + 1) = before.length + 1 + line.length := by omega
      rw [hcons, lineRanges, List.map_cons, List.length_cons, hstop, hnext.2,
        slice_of_drop line.length List.drop_left, hnext.1]

theorem slice_range? (chars : List Char) (line : Nat) :
    ((LineIndex.ofChars chars).range? line).map
        (fun range ↦ Document.slice chars range.start range.stop) =
      (splitLines chars)[line]? := by
  have hpieces := map_slice_lineRanges [] chars
  rw [List.nil_append, List.length_nil] at hpieces
  rw [LineIndex.range?_ofChars, ← List.getElem?_map, hpieces]

theorem intercalate_splitLines (text : String) :
    "\n".intercalate ((splitLines text.toList).map String.ofList) = text := by
  apply String.toList_injective
  have hpieces : ((splitLines text.toList).map String.ofList).map String.toList =
      splitLines text.toList := by
    simp [Function.comp_def]
  rw [String.toList_intercalate, hpieces, splitLines_eq_splitOn]
  exact List.intercalate_splitOn '\n'

namespace Utf8

/-- The characters between two bytes, if both are places between characters. -/
def slice? (chars : List Char) (start stop : Nat) : Option (List Char) := do
  let (before, _) ← split? chars stop
  let (_, inside) ← split? before start
  return inside

theorem slice?_offset {chars : List Char} {start stop : Nat} (hle : start ≤ stop)
    (hstop : stop ≤ chars.length) :
    slice? chars (offset chars start) (offset chars stop) =
      some (Document.slice chars start stop) := by
  have hplace : offset chars start = offset (chars.take stop) start := by
    rw [offset, offset, List.take_take, Nat.min_eq_left hle]
  have hlength : start ≤ (chars.take stop).length := by
    rw [List.length_take]
    omega
  rw [slice?, split?_offset hstop, hplace]
  simp only [Option.bind_eq_bind, Option.bind_some, split?_offset hlength]
  exact congrArg some List.drop_take

end Utf8

/-! ## Documents -/

/-- What a document is asked. -/
inductive Document.Step where
  | replace (text : String)
  | setLanguage (language : Language)
  | readIndex
  | readLine (line : Nat)

namespace Document

/-- Reading leaves a document as it is. -/
def step (document : Document) : Step → Document
  | .replace text => (document.replace text).1
  | .setLanguage language => document.withLanguage language
  | .readIndex | .readLine _ => document

/-- The text of a document whose text was another one before the step. -/
def Step.textAfter (text : String) : Step → String
  | .replace text => text
  | _ => text

theorem Coherent.step {document : Document} (h : document.Coherent) (step : Step) :
    (document.step step).Coherent := by
  cases step with
  | replace text =>
    change (document.replace text).1.Coherent
    cases hreplace : document.replace text with
    | mk replaced edit =>
      cases edit with
      | none =>
        rw [(replace_eq_none hreplace).1]
        exact h
      | some edit => exact (replace_eq_some h hreplace).coherent
  | setLanguage language => exact h.withLanguage language
  | readIndex => exact h
  | readLine line => exact h

theorem Coherent.lineText?_eq {document : Document} (h : document.Coherent) (line : Nat) :
    document.lineText? line = (splitLines document.text.toList)[line]?.map String.ofList := by
  rw [lineText?, h.lines_eq, ← slice_range?, Option.map_map]
  rfl

end Document

/-! ## Buffers -/

structure Buffer where
  /-- The texts that were replaced, in the order in which they were put in. -/
  past : Array String
  text : String
  length : Nat
  /-- The line index of the text, once it has been asked for. -/
  index? : Option LineIndex
  language : Language
  revision : Nat

namespace Buffer

def ofText (text : String) (language : Language) : Buffer :=
  { past := #[], text, length := text.toList.length, index? := none, language, revision := 0 }

/-- Where the text lies. -/
def snapshot (buffer : Buffer) : Nat := buffer.past.size

/-- The text that lies at a place. -/
def read? (buffer : Buffer) (place : Nat) : Option String := (buffer.past.push buffer.text)[place]?

/-- The line index, which is kept from then on. -/
def lineIndex (buffer : Buffer) : LineIndex × Buffer :=
  match buffer.index? with
  | some index => (index, buffer)
  | none =>
    let index := LineIndex.ofText buffer.text
    (index, { buffer with index? := some index })

/-- The text of a line, cut out of the bytes. -/
def lineText? (buffer : Buffer) (line : Nat) : Option String × Buffer :=
  let (index, buffer) := buffer.lineIndex
  let chars := buffer.text.toList
  let content := do
    let range ← index.range? line
    let start := Utf8.offset chars range.start
    let stop := Utf8.offset chars (max range.stop range.start)
    Utf8.slice? chars start stop
  (content.map String.ofList, buffer)

/-- Replaces the text, and tells the edit that this was if the text changed. The sum counts the
characters of the new text; the difference is the one that could leave its range. -/
def replace (buffer : Buffer) (text : String) : Except Fault (Buffer × Option Edit) :=
  match Edit.between buffer.text.toList text.toList with
  | none => return (buffer, none)
  | some edit => do
    let kept ← Offset.sub buffer.length edit.deleted
    return ({
      past := buffer.past.push buffer.text
      text
      length := kept + edit.inserted
      index? := none
      language := buffer.language
      revision := buffer.revision + 1 }, some edit)

def step (buffer : Buffer) : Document.Step → Except Fault Buffer
  | .replace text => Prod.fst <$> buffer.replace text
  | .setLanguage language => return { buffer with language }
  | .readIndex => return buffer.lineIndex.2
  | .readLine line => return (buffer.lineText? line).2

def run (buffer : Buffer) (steps : List Document.Step) : Except Fault Buffer :=
  steps.foldlM step buffer

/-! ## The invariant -/

/-- The buffer holds what the document holds, apart from a line index nobody has asked for. -/
structure Holds (buffer : Buffer) (document : Document) : Prop where
  text_eq : buffer.text = document.text
  length_eq : buffer.length = document.length
  index_eq : ∀ index ∈ buffer.index?, index = document.lines
  language_eq : buffer.language = document.language
  revision_eq : buffer.revision = document.revision

variable {buffer : Buffer} {document : Document}

theorem holds_ofText (text : String) (language : Language) :
    (ofText text language).Holds (.ofText text language) where
  text_eq := rfl
  length_eq := rfl
  index_eq := nofun
  language_eq := rfl
  revision_eq := rfl

namespace Holds

theorem lineIndex (h : buffer.Holds document) (hdocument : document.Coherent) :
    buffer.lineIndex.1 = document.lines ∧ buffer.lineIndex.2.Holds document := by
  unfold Buffer.lineIndex
  cases hindex : buffer.index? with
  | some index =>
    constructor
    · exact h.index_eq index hindex
    · exact h
  | none =>
    have hlines : LineIndex.ofText buffer.text = document.lines := by
      rw [h.text_eq, hdocument.lines_eq]
    constructor
    · exact hlines
    · refine { h with index_eq := ?_ }
      intro index hmem
      rw [← Option.some.inj hmem]
      exact hlines

theorem lineText? (h : buffer.Holds document) (hdocument : document.Coherent) (line : Nat) :
    (buffer.lineText? line).1 = document.lineText? line ∧
      (buffer.lineText? line).2.Holds document := by
  obtain ⟨hindex, hnext⟩ := h.lineIndex hdocument
  constructor
  · simp only [Buffer.lineText?, hindex, hnext.text_eq, Document.lineText?, Option.bind_eq_bind]
    cases hrange : document.lines.range? line with
    | none => rfl
    | some range =>
      rw [hdocument.lines_eq] at hrange
      have hinside := (LineIndex.ordered_ofChars document.text.toList).range_le hrange
      rw [LineIndex.length_ofChars] at hinside
      rw [Option.bind_some, Nat.max_eq_left hinside.1, Utf8.slice?_offset hinside.1 hinside.2]
      rfl
  · exact hnext

/-- No more characters are deleted than there are. -/
theorem deleted_le (h : buffer.Holds document) (hdocument : document.Coherent) {text : String}
    {edit : Edit} (hedit : Edit.between buffer.text.toList text.toList = some edit) :
    edit.deleted ≤ buffer.length := by
  have hfits := (Edit.between_fits hedit).1
  rw [h.length_eq, hdocument.length_eq, ← h.text_eq]
  exact Nat.le_trans (Nat.le_add_left _ _) hfits

theorem replace (h : buffer.Holds document) (hdocument : document.Coherent) (text : String) :
    ∃ next, buffer.replace text = .ok (next, (document.replace text).2) ∧
      next.Holds (document.replace text).1 := by
  unfold Buffer.replace Document.replace
  rw [← h.text_eq]
  cases hedit : Edit.between buffer.text.toList text.toList with
  | none => exact ⟨buffer, rfl, h⟩
  | some edit =>
    dsimp only
    rw [Offset.sub_eq_ok (h.deleted_le hdocument hedit)]
    refine ⟨_, rfl, ?_⟩
    exact {
      text_eq := rfl
      length_eq := by rw [h.length_eq]
      index_eq := nofun
      language_eq := h.language_eq
      revision_eq := by rw [h.revision_eq] }

/-- The buffer takes every step, and holds what the document holds behind it. -/
theorem step (h : buffer.Holds document) (hdocument : document.Coherent)
    (step : Document.Step) :
    ∃ next, buffer.step step = .ok next ∧ next.Holds (document.step step) := by
  cases step with
  | replace text =>
    obtain ⟨next, hnext, hholds⟩ := h.replace hdocument text
    exact ⟨next, Fault.map_eq_ok.mpr ⟨_, hnext, rfl⟩, hholds⟩
  | setLanguage language => exact ⟨_, rfl, { h with language_eq := rfl }⟩
  | readIndex => exact ⟨_, rfl, (h.lineIndex hdocument).2⟩
  | readLine line => exact ⟨_, rfl, (h.lineText? hdocument line).2⟩

theorem run (h : buffer.Holds document) (hdocument : document.Coherent)
    (steps : List Document.Step) :
    ∃ next, buffer.run steps = .ok next ∧ next.Holds (steps.foldl Document.step document) ∧
      (steps.foldl Document.step document).Coherent := by
  induction steps generalizing buffer document with
  | nil => exact ⟨buffer, rfl, h, hdocument⟩
  | cons first rest ih =>
    obtain ⟨middle, hfirst, hmiddle⟩ := h.step hdocument first
    obtain ⟨next, hrest, hnext⟩ := ih hmiddle (hdocument.step first)
    exact ⟨next, Fault.bind_eq_ok.mpr ⟨middle, hfirst, hrest⟩, hnext⟩

end Holds

/-! ## Texts that were handed out -/

theorem read?_snapshot (buffer : Buffer) : buffer.read? buffer.snapshot = some buffer.text :=
  Array.getElem?_push_size

theorem replace_eq_ok {text : String} {next : Buffer} {edit : Option Edit}
    (h : buffer.replace text = .ok (next, edit)) :
    (text = buffer.text ∧ next = buffer) ∨
      (text ≠ buffer.text ∧ next.text = text ∧ next.past = buffer.past.push buffer.text ∧
        next.revision = buffer.revision + 1) := by
  unfold replace at h
  split at h
  · rename_i hsame
    left
    exact ⟨(String.toList_injective (Edit.between_eq_none_iff.mp hsame)).symm,
      (congrArg Prod.fst (Except.ok.inj h)).symm⟩
  · rename_i edit hedit
    right
    obtain ⟨kept, -, h⟩ := Fault.bind_eq_ok.mp h
    obtain ⟨rfl, -⟩ := Prod.mk.inj (Except.ok.inj h)
    refine ⟨?_, rfl, rfl, rfl⟩
    rintro rfl
    rw [Edit.between_eq_none_iff.mpr rfl] at hedit
    nomatch hedit

/-- Finding the line index changes nothing else. -/
theorem lineIndex_frame (buffer : Buffer) :
    buffer.lineIndex.2 = { buffer with index? := buffer.lineIndex.2.index? } := by
  unfold lineIndex
  split <;> rfl

/-- What one step does to the texts and the revision. -/
theorem step_cases {step : Document.Step} {next : Buffer} (h : buffer.step step = .ok next) :
    (step.textAfter buffer.text = buffer.text ∧ next.text = buffer.text ∧
        next.past = buffer.past ∧ next.revision = buffer.revision) ∨
      (step.textAfter buffer.text ≠ buffer.text ∧ next.text = step.textAfter buffer.text ∧
        next.past = buffer.past.push buffer.text ∧ next.revision = buffer.revision + 1) := by
  cases step with
  | replace text =>
    obtain ⟨⟨middle, edit⟩, hreplace, rfl⟩ := Fault.map_eq_ok.mp h
    rcases replace_eq_ok hreplace with ⟨hsame, hnext⟩ | hchanged
    · dsimp only at hnext ⊢
      rw [hnext]
      exact Or.inl ⟨hsame, rfl, rfl, rfl⟩
    · exact Or.inr hchanged
  | setLanguage language =>
    obtain rfl := Except.ok.inj h
    exact Or.inl ⟨rfl, rfl, rfl, rfl⟩
  | readIndex =>
    obtain rfl := Except.ok.inj h
    rw [lineIndex_frame]
    exact Or.inl ⟨rfl, rfl, rfl, rfl⟩
  | readLine line =>
    obtain rfl := Except.ok.inj h
    change (_ ∧ buffer.lineIndex.2.text = _ ∧ buffer.lineIndex.2.past = _ ∧
      buffer.lineIndex.2.revision = _) ∨ _
    rw [lineIndex_frame]
    exact Or.inl ⟨rfl, rfl, rfl, rfl⟩

/-- What lies at a place is not written over by a step. -/
theorem read?_of_step {step : Document.Step} {next : Buffer} {place : Nat} {text : String}
    (h : buffer.step step = .ok next) (hread : buffer.read? place = some text) :
    next.read? place = some text := by
  rcases step_cases h with ⟨-, htext, hpast, -⟩ | ⟨-, -, hpast, -⟩
  · rw [read?, htext, hpast]
    exact hread
  · obtain ⟨hplace, hfound⟩ := Array.getElem?_eq_some_iff.mp hread
    rw [read?, hpast, Array.getElem?_push_lt hplace, hfound]

theorem read?_of_run {steps : List Document.Step} {next : Buffer} {place : Nat} {text : String}
    (h : buffer.run steps = .ok next) (hread : buffer.read? place = some text) :
    next.read? place = some text := by
  induction steps generalizing buffer with
  | nil =>
    rw [← Except.ok.inj h]
    exact hread
  | cons first rest ih =>
    obtain ⟨middle, hfirst, hrest⟩ := Fault.bind_eq_ok.mp h
    exact ih hrest (read?_of_step hfirst hread)

theorem run_append_eq_ok {before behind : List Document.Step} {next : Buffer} :
    buffer.run (before ++ behind) = .ok next ↔
      ∃ middle, buffer.run before = .ok middle ∧ middle.run behind = .ok next := by
  rw [run, List.foldlM_append]
  exact Fault.bind_eq_ok

/-! ## Nothing goes stale -/

/-- The buffer answers as the document does. -/
structure Answers (buffer : Buffer) (document : Document) : Prop where
  text_eq : buffer.text = document.text
  length_eq : buffer.length = document.length
  lines_eq : buffer.lineIndex.1 = document.lines
  lineText?_eq : ∀ line, (buffer.lineText? line).1 = document.lineText? line
  language_eq : buffer.language = document.language
  revision_eq : buffer.revision = document.revision

theorem Holds.answers (h : buffer.Holds document) (hdocument : document.Coherent) :
    buffer.Answers document where
  text_eq := h.text_eq
  length_eq := h.length_eq
  lines_eq := (h.lineIndex hdocument).1
  lineText?_eq line := (h.lineText? hdocument line).1
  language_eq := h.language_eq
  revision_eq := h.revision_eq

/-- After any steps a document has the length, the line index and the lines of its text, and the
lines joined give the text. A buffer takes the same steps and gives the same answers; its revision
goes up by one with each step that changes the text, and what was handed out before stays. -/
theorem fresh_of_run (text : String) (language : Language) (steps : List Document.Step) :
    let document := steps.foldl Document.step (.ofText text language)
    let lines := (document.text.toList.splitOn '\n').map String.ofList
    (document.length = document.text.toList.length ∧
      document.lines = .ofText document.text ∧
      (∀ line, document.lineText? line = lines[line]?) ∧
      "\n".intercalate lines = document.text) ∧
    ∃ buffer, (ofText text language).run steps = .ok buffer ∧ buffer.Answers document ∧
      (∀ step, ∃ next, buffer.step step = .ok next ∧ next.text = step.textAfter buffer.text ∧
        next.revision = buffer.revision + if next.text = buffer.text then 0 else 1) ∧
      ∀ taken, ∃ earlier, (ofText text language).run (steps.take taken) = .ok earlier ∧
        buffer.read? earlier.snapshot = some earlier.text := by
  intro document lines
  obtain ⟨buffer, hrun, hholds, hcoherent⟩ :=
    (holds_ofText text language).run (Document.coherent_ofText text language) steps
  have hlines : lines = (splitLines document.text.toList).map String.ofList := by
    rw [splitLines_eq_splitOn]
  refine ⟨⟨hcoherent.length_eq, hcoherent.lines_eq, ?_, ?_⟩,
    buffer, hrun, hholds.answers hcoherent, ?_, ?_⟩
  · intro line
    rw [hlines, List.getElem?_map]
    exact hcoherent.lineText?_eq line
  · rw [hlines]
    exact intercalate_splitLines document.text
  · intro step
    obtain ⟨next, hnext, -⟩ := hholds.step hcoherent step
    refine ⟨next, hnext, ?_⟩
    rcases step_cases hnext with ⟨hafter, htext, -, hrevision⟩ | ⟨hafter, htext, -, hrevision⟩
    · exact ⟨by rw [htext, hafter], by rw [hrevision, htext, if_pos rfl, Nat.add_zero]⟩
    · exact ⟨htext, by rw [hrevision, htext, if_neg hafter]⟩
  · intro taken
    rw [← List.take_append_drop taken steps] at hrun
    obtain ⟨earlier, hbefore, hbehind⟩ := run_append_eq_ok.mp hrun
    exact ⟨earlier, hbefore, read?_of_run hbehind (read?_snapshot earlier)⟩

example : (((ofText "a" .plain).run [.readIndex, .replace "é\n👋", .readLine 0]).map
    fun buffer ↦ ((buffer.lineText? 1).1, buffer.length, buffer.read? 0)).toOption =
      some (some "👋", 3, some "a") := by
  decide

end Buffer

end CodeEditor
