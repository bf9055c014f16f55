import CodeEditor.Proofs.Text.Minimal

/-!
# Offsets follow the text

The edit between two texts takes offsets of the first to offsets of the second. It keeps their
order, and takes each character that is not deleted to where the same character stands in the second
text. The edit back undoes this for every offset that was not moved to the end of the insertion.
-/

namespace CodeEditor.Edit

variable {old new : List Char} {edit : Edit} {offset : Nat}

/-! ## Which offsets can be mapped -/

/-- Behind the start of an edit, mapping stops if the end of the deleted piece or the offset that it
leads to is out of range. -/
theorem mapOffset_eq (edit : Edit) (offset : Nat) : edit.mapOffset offset =
    if offset ≤ edit.start ∨
      edit.start + edit.deleted < Offset.bound ∧ edit.carry offset < Offset.bound
    then .ok (edit.carry offset) else .error .overflow := by
  unfold mapOffset oldEnd newEnd carry Offset.add Offset.sub
  by_cases hstart : offset ≤ edit.start
  · rw [if_pos hstart, if_pos (Or.inl hstart), if_pos hstart]
    rfl
  · rw [if_neg hstart, if_neg hstart]
    by_cases hold : edit.start + edit.deleted < Offset.bound
    · rw [if_pos hold]
      change (if edit.start + edit.deleted ≤ offset then _ else _) = _
      split
      · rw [if_pos (show edit.deleted ≤ offset by omega)]
        simp only [hstart, hold, false_or, true_and]
        rfl
      · simp only [hstart, hold, false_or, true_and]
    · rw [if_neg hold]
      simp only [hstart, hold, false_or, false_and, if_false]
      rfl

/-- An offset before one that can be mapped can be mapped, too, and does not come to stand behind
it. -/
theorem exists_mapOffset_le {a b y : Nat} (hle : a ≤ b) (h : edit.mapOffset b = .ok y) :
    ∃ x, edit.mapOffset a = .ok x ∧ x ≤ y := by
  have hmono := edit.carry_mono hle
  rw [eq_carry_of_mapOffset h]
  refine ⟨edit.carry a, ?_, hmono⟩
  rw [mapOffset_eq] at h ⊢
  split at h
  · exact if_pos (by omega)
  · nomatch h

/-- The ends of a range in order are mapped one by one. -/
theorem mapRange_of_le {start stop : Nat} (hle : start ≤ stop) : edit.mapRange start stop =
    (do return (← edit.mapOffset start, ← edit.mapOffset stop)) := by
  have hmono := edit.carry_mono hle
  unfold mapRange
  rw [mapOffset_eq, mapOffset_eq]
  split
  · split
    · change Except.ok _ = Except.ok _
      rw [Nat.max_eq_left hmono]
    · rfl
  · rfl

/-! ## Characters and offsets of the second text -/

/-- A character that survives is found again where the edit moves it. -/
theorem getElem?_moved (h : between old new = some edit) (hsurvives : edit.Survives offset) :
    new[edit.moved offset]? = old[offset]? := by
  have hfits : edit.start + edit.deleted ≤ old.length := (between_fits h).1
  have hinserted : edit.start + edit.inserted ≤ new.length := (between_fits (between_swap h)).1
  have hfront : (old.take edit.start).length = edit.start := by
    rw [List.length_take]
    omega
  have hpiece : (Document.slice new edit.start (edit.start + edit.inserted)).length =
      edit.inserted := by
    rw [Document.slice, List.length_take, List.length_drop]
    omega
  rw [← take_slice_drop_of_between h]
  unfold moved
  split
  · rename_i hbefore
    rw [List.append_assoc, List.getElem?_append_left (by rwa [hfront]),
      List.getElem?_take_of_lt hbefore]
  · have hbehind : edit.start + edit.deleted ≤ offset := hsurvives.resolve_left ‹_›
    rw [List.getElem?_append_right (by rw [List.length_append, hfront, hpiece]; omega),
      List.length_append, hfront, hpiece, List.getElem?_drop]
    congr 1
    omega

/-- The map of offsets takes a character that survives to where the edit moves it, unless the
character is the first one behind an insertion. -/
theorem carry_eq_moved (h : offset < edit.start ∨
    edit.start + edit.deleted ≤ offset ∧ edit.start < offset) :
    edit.carry offset = edit.moved offset := by
  unfold carry moved
  obtain hbefore | ⟨hbehind, hstart⟩ := h
  · rw [if_pos (Nat.le_of_lt hbefore), if_pos hbefore]
  · rw [if_neg (Nat.not_le.mpr hstart), if_pos hbehind, if_neg (Nat.lt_asymm hstart)]

/-- Only offsets in the deleted piece and at its end are not brought back. -/
theorem carry_carry (h : offset ≤ edit.start ∨ edit.start + edit.deleted < offset) :
    carry ⟨edit.start, edit.inserted, edit.deleted⟩ (edit.carry offset) = offset := by
  unfold carry
  dsimp only
  obtain hbefore | hbehind := h
  · rw [if_pos hbefore, if_pos hbefore]
  · rw [if_neg (show ¬offset ≤ edit.start by omega), if_pos (Nat.le_of_lt hbehind),
      if_neg (by omega), if_pos (by omega)]
    omega

/-- The edit between two texts takes the offsets of the first to offsets of the second, in their
order, and ranges by their ends. The characters it does not delete are the same where it takes them,
except that an offset at the start of an insertion stays in front of it. Outside of the deleted
piece and its end, the edit back takes offsets where they came from. -/
theorem mapOffset_follows (h : between old new = some edit) (hold : old.length < Offset.bound)
    (hnew : new.length < Offset.bound) :
    (∀ a b y, a ≤ b → edit.mapOffset b = .ok y → ∃ x, edit.mapOffset a = .ok x ∧ x ≤ y) ∧
    (∀ offset ≤ old.length, ∃ n ≤ new.length, edit.mapOffset offset = .ok n) ∧
    (∀ offset c, old[offset]? = some c →
      offset < edit.start ∨ edit.start + edit.deleted ≤ offset ∧ edit.start < offset →
      ∃ n, edit.mapOffset offset = .ok n ∧ new[n]? = some c) ∧
    (∀ start stop, start ≤ stop → edit.mapRange start stop =
      (do return (← edit.mapOffset start, ← edit.mapOffset stop))) ∧
    ∃ back, between new old = some back ∧ ∀ offset ≤ old.length,
      offset ≤ edit.start ∨ edit.start + edit.deleted < offset →
      edit.mapOffset offset >>= back.mapOffset = .ok offset := by
  obtain ⟨hfits, hlength⟩ := between_fits h
  obtain ⟨hfits', hlength'⟩ := between_fits (between_swap h)
  have hmap : ∀ offset ≤ old.length, edit.mapOffset offset = .ok (edit.carry offset) :=
    fun offset ↦ mapOffset_eq_carry hfits hold (by rwa [hlength])
  have hle : ∀ offset ≤ old.length, edit.carry offset ≤ new.length :=
    fun offset hoffset ↦ hlength ▸ carry_le hfits hoffset
  refine ⟨fun a b y ↦ exists_mapOffset_le, fun offset hoffset ↦ ?_, fun offset c hc hplace ↦ ?_,
    fun start stop ↦ mapRange_of_le, _, between_swap h, fun offset hoffset hplace ↦ ?_⟩
  · exact ⟨_, hle offset hoffset, hmap offset hoffset⟩
  · have hoffset : offset < old.length := (List.getElem?_eq_some_iff.mp hc).1
    refine ⟨_, hmap offset (Nat.le_of_lt hoffset), ?_⟩
    rw [carry_eq_moved hplace, getElem?_moved h (hplace.imp_right And.left), hc]
  · rw [hmap offset hoffset]
    change mapOffset _ (edit.carry offset) = _
    rw [mapOffset_eq_carry hfits' hnew (by rwa [hlength']) (hle offset hoffset), carry_carry hplace]

/-- Of "abcdef", the two characters "cd" become one. What stood behind them moves to the left and
comes back with the edit back; an offset between the two comes to stand behind the new one. -/
theorem mapOffset_follows_replacement :
    ∃ edit back, between "abcdef".toList "abxef".toList = some edit ∧
      between "abxef".toList "abcdef".toList = some back ∧
      edit.mapOffset 3 = .ok 3 ∧ back.mapOffset 3 = .ok 4 ∧
      (∃ n, edit.mapOffset 5 = .ok n ∧ "abxef".toList[n]? = some 'f') ∧
      edit.mapOffset 5 >>= back.mapOffset = .ok 5 := by
  have hbetween : between "abcdef".toList "abxef".toList = some ⟨2, 2, 1⟩ := by decide
  obtain ⟨-, -, hcharacter, -, back, hback, hreturn⟩ :=
    mapOffset_follows hbetween (by decide) (by decide)
  have hswap : back = ⟨2, 1, 2⟩ := Option.some.inj (hback.symm.trans (by decide))
  refine ⟨_, back, hbetween, hback, rfl, by rw [hswap]; rfl, ?_, ?_⟩
  · exact hcharacter 5 'f' (by decide) (by decide)
  · exact hreturn 5 (by decide) (by decide)

end CodeEditor.Edit
