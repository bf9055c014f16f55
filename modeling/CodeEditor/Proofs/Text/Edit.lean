import CodeEditor.Proofs.Fault
import CodeEditor.Text.Document

/-!
# Offsets carried across an edit

An edit fits a text if the piece it deletes lies in the text; the edit recovered from two texts
fits the first, leads to the length of the second and, replayed, to the second itself. Checked
mapping of offsets either leaves its range or agrees with an unchecked map, which is monotone and
keeps the offsets of the text before in the text after.
-/

namespace CodeEditor.Edit

/-- The edit deletes nothing but characters of a text of this length. -/
def Fits (edit : Edit) (length : Nat) : Prop := edit.start + edit.deleted ≤ length

/-- Where an offset goes, without bounds on offsets. -/
def carry (edit : Edit) (offset : Nat) : Nat :=
  if offset ≤ edit.start then offset
  else if edit.start + edit.deleted ≤ offset then offset - edit.deleted + edit.inserted
  else edit.start + edit.inserted

def carryLength (edit : Edit) (length : Nat) : Nat := length - edit.deleted + edit.inserted

theorem carry_mono (edit : Edit) {a b : Nat} (h : a ≤ b) : edit.carry a ≤ edit.carry b := by
  unfold carry
  split
  · split
    · exact h
    · split <;> omega
  · rw [if_neg (show ¬b ≤ edit.start by omega)]
    split <;> split <;> omega

theorem carry_le {edit : Edit} {length offset : Nat} (hfits : edit.Fits length)
    (h : offset ≤ length) : edit.carry offset ≤ edit.carryLength length := by
  unfold Fits at hfits
  unfold carry carryLength
  split
  · omega
  · split <;> omega

theorem newEnd_le {edit : Edit} {length : Nat} (hfits : edit.Fits length) :
    edit.start + edit.inserted ≤ edit.carryLength length := by
  unfold Fits at hfits
  unfold carryLength
  omega

/-! ## Characters that survive -/

/-- The edit does not delete the character at the offset. -/
def Survives (edit : Edit) (offset : Nat) : Prop :=
  offset < edit.start ∨ edit.start + edit.deleted ≤ offset

/-- Where a character that survives comes to stand. -/
def moved (edit : Edit) (offset : Nat) : Nat :=
  if offset < edit.start then offset else offset - edit.deleted + edit.inserted

/-- A boundary stays on its side of every character that survives. -/
theorem carry_le_moved_iff {edit : Edit} {offset : Nat} (h : edit.Survives offset)
    (boundary : Nat) : edit.carry boundary ≤ edit.moved offset ↔ boundary ≤ offset := by
  unfold Survives at h
  unfold carry moved
  split
  · split <;> omega
  · split <;> split <;> omega

/-- Seen from an inserted character, a boundary is where it was from the start of the edit. -/
theorem carry_le_inserted_iff {edit : Edit} {offset : Nat} (hstart : edit.start ≤ offset)
    (hstop : offset < edit.start + edit.inserted) (boundary : Nat) :
    edit.carry boundary ≤ offset ↔ boundary ≤ edit.start := by
  unfold carry
  split
  · omega
  · split <;> omega

theorem moved_lt {edit : Edit} {length offset : Nat} (hfits : edit.Fits length)
    (h : edit.Survives offset) (hoffset : offset < length) :
    edit.moved offset < edit.carryLength length := by
  unfold Fits at hfits
  unfold Survives at h
  unfold moved carryLength
  split <;> omega

/-! ## Checked mapping -/

theorem eq_carry_of_mapOffset {edit : Edit} {offset n : Nat} (h : edit.mapOffset offset = .ok n) :
    n = edit.carry offset := by
  unfold mapOffset at h
  unfold carry
  split at h
  · rename_i hstart
    rw [if_pos hstart]
    exact (Except.ok.inj h).symm
  · rename_i hstart
    rw [if_neg hstart]
    obtain ⟨stop, hstop, h⟩ := Fault.bind_eq_ok.mp h
    rw [Offset.eq_of_add_eq_ok hstop] at h
    split at h
    · rename_i hbehind
      obtain ⟨rest, hrest, h⟩ := Fault.bind_eq_ok.mp h
      rw [if_pos hbehind, Offset.eq_of_add_eq_ok h, Offset.eq_of_sub_eq_ok hrest]
    · rename_i hbehind
      rw [if_neg hbehind, Offset.eq_of_add_eq_ok h]

theorem mapOffset_eq_carry {edit : Edit} {length offset : Nat} (hfits : edit.Fits length)
    (hlength : length < Offset.bound) (hnew : edit.carryLength length < Offset.bound)
    (h : offset ≤ length) : edit.mapOffset offset = .ok (edit.carry offset) := by
  have hend := newEnd_le hfits
  unfold Fits at hfits
  unfold carryLength at hnew hend
  have hold : edit.oldEnd = .ok (edit.start + edit.deleted) := Offset.add_eq_ok (by omega)
  unfold mapOffset carry
  split
  · rfl
  · rw [hold]
    change (if edit.start + edit.deleted ≤ offset then _ else _) = _
    split
    · rw [Offset.sub_eq_ok (by omega)]
      exact Offset.add_eq_ok (by omega)
    · exact Offset.add_eq_ok (by omega)

theorem eq_of_mapRange {edit : Edit} {start stop : Nat} {range : Nat × Nat}
    (h : edit.mapRange start stop = .ok range) :
    range = (edit.carry start, max (edit.carry stop) (edit.carry start)) := by
  obtain ⟨newStart, hstart, h⟩ := Fault.bind_eq_ok.mp h
  obtain ⟨newStop, hstop, h⟩ := Fault.bind_eq_ok.mp h
  rw [← Except.ok.inj h, eq_carry_of_mapOffset hstart, eq_carry_of_mapOffset hstop]

theorem mapRange_eq_carry {edit : Edit} {length start stop : Nat} (hfits : edit.Fits length)
    (hlength : length < Offset.bound) (hnew : edit.carryLength length < Offset.bound)
    (hstart : start ≤ length) (hstop : stop ≤ length) :
    edit.mapRange start stop =
      .ok (edit.carry start, max (edit.carry stop) (edit.carry start)) := by
  unfold mapRange
  rw [mapOffset_eq_carry hfits hlength hnew hstart, mapOffset_eq_carry hfits hlength hnew hstop]
  rfl

theorem eq_of_mapLength {edit : Edit} {length n : Nat} (h : edit.mapLength length = .ok n) :
    n = edit.carryLength length := by
  obtain ⟨rest, hrest, h⟩ := Fault.bind_eq_ok.mp h
  rw [Offset.eq_of_add_eq_ok h, Offset.eq_of_sub_eq_ok hrest, carryLength]

theorem mapLength_eq_carry {edit : Edit} {length : Nat} (hfits : edit.Fits length)
    (hnew : edit.carryLength length < Offset.bound) :
    edit.mapLength length = .ok (edit.carryLength length) := by
  unfold Fits at hfits
  unfold mapLength
  rw [Offset.sub_eq_ok (by omega)]
  exact Offset.add_eq_ok hnew

/-! ## The edit between two texts -/

theorem agreement_le (a b : List Char) : agreement a b ≤ min a.length b.length := by
  unfold agreement
  rw [← List.length_zip]
  exact (List.takeWhile_sublist _).length_le

theorem between_eq_none_iff {old new : List Char} : between old new = none ↔ old = new := by
  unfold between
  split <;> simp_all

theorem between_fits {old new : List Char} {edit : Edit} (h : between old new = some edit) :
    edit.Fits old.length ∧ edit.carryLength old.length = new.length := by
  unfold between at h
  split at h
  · nomatch h
  · rw [← Option.some.inj h]
    have hfront := agreement_le old new
    have hback := agreement_le (old.drop (agreement old new)).reverse
      (new.drop (agreement old new)).reverse
    simp only [List.length_reverse, List.length_drop] at hback
    unfold Fits carryLength
    dsimp only
    omega

/-! ## Replaying an edit -/

theorem take_agreement (a b : List Char) : a.take (agreement a b) = b.take (agreement a b) := by
  induction a generalizing b with
  | nil => simp [agreement]
  | cons x rest ih =>
    cases b with
    | nil => simp [agreement]
    | cons y more =>
      by_cases hsame : x = y
      · have hnext : agreement (x :: rest) (y :: more) = agreement rest more + 1 := by
          simp [agreement, hsame]
        rw [hnext, List.take_succ_cons, List.take_succ_cons, ih more, hsame]
      · simp [agreement, hsame]

/-- Two texts end alike as far as they agree backwards. -/
theorem drop_agreement_reverse (a b : List Char) :
    a.drop (a.length - agreement a.reverse b.reverse) =
      b.drop (b.length - agreement a.reverse b.reverse) := by
  have hreversed := take_agreement a.reverse b.reverse
  rw [List.take_reverse, List.take_reverse] at hreversed
  exact List.reverse_inj.mp hreversed

/-- The old text, with what the new one has between the start of the edit and its new end in
place of what the edit deletes. -/
def replay (edit : Edit) (old new : List Char) : Except Fault (List Char) := do
  let stop ← edit.newEnd
  return old.take edit.start ++ Document.slice new edit.start stop ++
    old.drop (edit.start + edit.deleted)

theorem newEnd_of_mapLength {edit : Edit} {length n : Nat} (hfits : edit.Fits length)
    (h : edit.mapLength length = .ok n) : edit.newEnd = .ok (edit.start + edit.inserted) := by
  obtain ⟨rest, hrest, h⟩ := Fault.bind_eq_ok.mp h
  obtain rfl := Offset.eq_of_sub_eq_ok hrest
  unfold Offset.add at h
  split at h
  · unfold Fits at hfits
    exact Offset.add_eq_ok (by omega)
  · nomatch h

/-- What the edit between two texts deletes of the first stands in for what it inserts into the
second. -/
theorem take_slice_drop_of_between {old new : List Char} {edit : Edit}
    (h : between old new = some edit) :
    old.take edit.start ++ Document.slice new edit.start (edit.start + edit.inserted) ++
      old.drop (edit.start + edit.deleted) = new := by
  unfold between at h
  split at h
  · nomatch h
  · let front := agreement old new
    have hfront : old.take front = new.take front := take_agreement old new
    have hback := drop_agreement_reverse (old.drop front) (new.drop front)
    obtain rfl := Option.some.inj h
    simp only [Document.slice, Nat.add_sub_cancel_left, ← List.drop_drop]
    simp only [List.length_drop] at hback
    calc
      _ = new.take front ++ (new.drop front) := by
        rw [hfront, hback, List.append_assoc, List.take_append_drop]
      _ = new := List.take_append_drop front new

/-- The edit between two texts leads from the first to the second. -/
theorem replay_between {old new : List Char} {edit : Edit} (h : between old new = some edit)
    (hend : edit.newEnd = .ok (edit.start + edit.inserted)) :
    edit.replay old new = .ok new := by
  unfold replay
  rw [hend]
  exact congrArg Except.ok (take_slice_drop_of_between h)

end CodeEditor.Edit

namespace CodeEditor.Document

/-- The length and the line index kept with the text are those of the text. -/
structure Coherent (document : Document) : Prop where
  length_eq : document.length = document.text.toList.length
  lines_eq : document.lines = .ofText document.text

theorem coherent_ofText (text : String) (language : Language) :
    (ofText text language).Coherent := ⟨rfl, rfl⟩

theorem Coherent.withLanguage {document : Document} (h : document.Coherent)
    (language : Language) : (document.withLanguage language).Coherent := ⟨h.length_eq, h.lines_eq⟩

theorem replace_eq_none {document replaced : Document} {text : String}
    (h : document.replace text = (replaced, none)) :
    replaced = document ∧ text = document.text := by
  unfold replace at h
  split at h
  · rename_i hsame
    obtain ⟨rfl, -⟩ := Prod.mk.inj h
    exact ⟨rfl, (String.toList_injective (Edit.between_eq_none_iff.mp hsame)).symm⟩
  · nomatch (Prod.mk.inj h).2

/-- What a replacement that changes the text leaves behind: a coherent document that holds the new
text, and an edit that fits the old text and accounts for the length of the new one. -/
structure Replaced (document : Document) (text : String) (edit : Edit) (replaced : Document) :
    Prop where
  coherent : replaced.Coherent
  text_eq : replaced.text = text
  text_ne : text ≠ document.text
  language_eq : replaced.language = document.language
  between_eq : Edit.between document.text.toList text.toList = some edit
  fits : edit.Fits document.length
  carryLength_eq : edit.carryLength document.length = replaced.length

theorem replace_eq_some {document replaced : Document} {text : String} {edit : Edit}
    (hdocument : document.Coherent) (h : document.replace text = (replaced, some edit)) :
    document.Replaced text edit replaced := by
  unfold replace at h
  split at h
  · nomatch (Prod.mk.inj h).2
  · rename_i edit' hedit
    obtain ⟨rfl, hsome⟩ := Prod.mk.inj h
    obtain rfl := Option.some.inj hsome
    obtain ⟨hfits, hlength⟩ := Edit.between_fits hedit
    rw [← hdocument.length_eq] at hfits hlength
    have hne : text ≠ document.text := by
      rintro rfl
      rw [Edit.between_eq_none_iff.mpr rfl] at hedit
      nomatch hedit
    exact {
      coherent := ⟨hlength, rfl⟩
      text_eq := rfl
      text_ne := hne
      language_eq := rfl
      between_eq := hedit
      fits := hfits
      carryLength_eq := rfl }

theorem revision_of_replace {document replaced : Document} {text : String} {edit : Edit}
    (h : document.replace text = (replaced, some edit)) :
    replaced.revision = document.revision + 1 := by
  unfold replace at h
  split at h
  · nomatch (Prod.mk.inj h).2
  · rw [← (Prod.mk.inj h).1]

end CodeEditor.Document
