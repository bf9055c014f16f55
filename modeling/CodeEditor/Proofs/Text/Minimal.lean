import CodeEditor.Proofs.Text.Edit

/-!
# The edit between two texts is the least one

The common beginning is taken as long as possible, then the common end of what is left. Although
the two compete where characters repeat, no other piece of the first text can be replaced to give
the second by deleting or by inserting less. The edit back deletes what this one inserts, and
inserts what this one deletes.
-/

namespace CodeEditor

/-- The text with so many characters from the start on replaced by others. -/
def splice (text : List Char) (start deleted : Nat) (inserted : List Char) : List Char :=
  text.take start ++ inserted ++ text.drop (start + deleted)

namespace Edit

variable {old new : List Char} {edit : Edit}

/-! ## How far two texts agree -/

theorem agreement_cons (x y : Char) (a b : List Char) :
    agreement (x :: a) (y :: b) = if x = y then agreement a b + 1 else 0 := by
  unfold agreement
  rw [List.zip_cons_cons, List.takeWhile_cons]
  by_cases h : x = y
  · simp [h]
  · simp [h]

theorem agreement_comm (a b : List Char) : agreement a b = agreement b a := by
  induction a generalizing b with
  | nil => simp [agreement]
  | cons x rest ih =>
    cases b with
    | nil => simp [agreement]
    | cons y more =>
      rw [agreement_cons, agreement_cons, ih more]
      simp only [eq_comm]

/-- Two texts agree at least as far as they begin with the same characters. -/
theorem le_agreement {a b : List Char} {n : Nat} (hsame : a.take n = b.take n)
    (ha : n ≤ a.length) (hb : n ≤ b.length) : n ≤ agreement a b := by
  induction n generalizing a b with
  | zero => exact Nat.zero_le _
  | succ n ih =>
    cases a with
    | nil => nomatch ha
    | cons x rest =>
      cases b with
      | nil => nomatch hb
      | cons y more =>
        obtain ⟨hfirst, hrest⟩ := List.cons.inj hsame
        rw [agreement_cons, if_pos hfirst]
        exact Nat.succ_le_succ
          (ih hrest (Nat.le_of_succ_le_succ ha) (Nat.le_of_succ_le_succ hb))

/-- Read backwards, a text that ends with another begins like it, however much is cut off before. -/
theorem take_reverse_drop_append {front back : List Char} {cut n : Nat} (hback : n ≤ back.length)
    (hcut : cut + n ≤ (front ++ back).length) :
    ((front ++ back).drop cut).reverse.take n = back.reverse.take n := by
  rw [List.reverse_drop, List.take_take, Nat.min_eq_left (by omega), List.reverse_append,
    List.take_append_of_le_length (by rwa [List.length_reverse])]

/-! ## The parts of the edit -/

/-- How many characters two texts have in common at their end, behind their common beginning. -/
def endAgreement (a b : List Char) : Nat :=
  agreement (a.drop (agreement a b)).reverse (b.drop (agreement a b)).reverse

theorem endAgreement_comm (a b : List Char) : endAgreement a b = endAgreement b a := by
  unfold endAgreement
  rw [agreement_comm b a, agreement_comm]

/-- The common beginning and the common end do not overlap in either text. -/
theorem agreement_add_endAgreement_le (a b : List Char) :
    agreement a b + endAgreement a b ≤ min a.length b.length := by
  have hfront := agreement_le a b
  have hback := agreement_le (a.drop (agreement a b)).reverse (b.drop (agreement a b)).reverse
  simp only [List.length_reverse, List.length_drop] at hback
  unfold endAgreement
  omega

theorem between_eq_some_iff : between old new = some edit ↔ old ≠ new ∧
    (⟨agreement old new, old.length - agreement old new - endAgreement old new,
      new.length - agreement old new - endAgreement old new⟩ : Edit) = edit := by
  unfold between
  split
  · rename_i hsame
    exact iff_of_false (by simp) fun h ↦ h.1 hsame
  · rename_i hne
    rw [and_iff_right hne]
    exact Option.some_inj

theorem between_swap (h : between old new = some edit) :
    between new old = some ⟨edit.start, edit.inserted, edit.deleted⟩ := by
  obtain ⟨hne, rfl⟩ := between_eq_some_iff.mp h
  rw [between_eq_some_iff, agreement_comm new old, endAgreement_comm new old]
  exact ⟨hne.symm, rfl⟩

/-! ## Other replacements -/

section

variable {front back removed inserted : List Char}

theorem length_le_agreement (a b : List Char) :
    front.length ≤ agreement (front ++ a) (front ++ b) := by
  refine le_agreement ?_ (by rw [List.length_append]; omega) (by rw [List.length_append]; omega)
  rw [List.take_left, List.take_left]

/-- What two texts share at their end is found as far as their common beginning leaves room. -/
theorem le_endAgreement {a b : List Char} {n : Nat} (hback : n ≤ back.length)
    (ha : agreement (a ++ back) (b ++ back) + n ≤ (a ++ back).length)
    (hb : agreement (a ++ back) (b ++ back) + n ≤ (b ++ back).length) :
    n ≤ endAgreement (a ++ back) (b ++ back) := by
  refine le_agreement ?_ (by rw [List.length_reverse, List.length_drop]; omega)
    (by rw [List.length_reverse, List.length_drop]; omega)
  rw [take_reverse_drop_append hback ha, take_reverse_drop_append hback hb]

/-- A replacement leaves a common beginning and a common end. Either the edit finds all of that end,
or what it finds uses up one of the texts. -/
theorem le_of_between_append
    (h : between (front ++ removed ++ back) (front ++ inserted ++ back) = some edit) :
    edit.deleted ≤ removed.length ∧ edit.inserted ≤ inserted.length := by
  obtain ⟨-, rfl⟩ := between_eq_some_iff.mp h
  have hfront : front.length ≤
      agreement (front ++ removed ++ back) (front ++ inserted ++ back) := by
    rw [List.append_assoc, List.append_assoc]
    exact length_le_agreement _ _
  have hboth := agreement_add_endAgreement_le (front ++ removed ++ back) (front ++ inserted ++ back)
  have hback : ∀ n, n ≤ back.length →
      agreement (front ++ removed ++ back) (front ++ inserted ++ back) + n ≤
        (front ++ removed ++ back).length →
      agreement (front ++ removed ++ back) (front ++ inserted ++ back) + n ≤
        (front ++ inserted ++ back).length →
      n ≤ endAgreement (front ++ removed ++ back) (front ++ inserted ++ back) :=
    fun n ↦ le_endAgreement
  simp only [List.length_append] at hboth hback ⊢
  generalize agreement (front ++ removed ++ back) (front ++ inserted ++ back) = found at *
  generalize endAgreement (front ++ removed ++ back) (front ++ inserted ++ back) = foundBack at *
  have hall := hback back.length
  have hold := hback (front.length + removed.length + back.length - found)
  have hnew := hback (front.length + inserted.length + back.length - found)
  omega

end

/-- The edit between two texts is none exactly if they are equal. Otherwise it replaces a piece of
the first by one of the second and so gives the second; whatever replacement does that deletes and
inserts at least as much; and the edit back is the same with the two lengths swapped. -/
theorem between_least (old new : List Char) :
    (between old new = none ↔ old = new) ∧
    ∀ edit, between old new = some edit →
      edit.start + edit.deleted ≤ old.length ∧ edit.start + edit.inserted ≤ new.length ∧
      splice old edit.start edit.deleted
        (Document.slice new edit.start (edit.start + edit.inserted)) = new ∧
      (∀ start deleted inserted, start + deleted ≤ old.length →
        splice old start deleted inserted = new →
        edit.deleted ≤ deleted ∧ edit.inserted ≤ inserted.length) ∧
      between new old = some ⟨edit.start, edit.inserted, edit.deleted⟩ := by
  refine ⟨between_eq_none_iff, fun edit h ↦ ⟨(between_fits h).1, (between_fits (between_swap h)).1,
    take_slice_drop_of_between h, fun start deleted inserted hfits hsplice ↦ ?_, between_swap h⟩⟩
  have hold : old =
      old.take start ++ (old.drop start).take deleted ++ old.drop (start + deleted) := by
    rw [List.append_assoc, ← List.drop_drop, List.take_append_drop, List.take_append_drop]
  have hremoved : ((old.drop start).take deleted).length = deleted := by
    rw [List.length_take, List.length_drop]
    omega
  have hparts : between (old.take start ++ (old.drop start).take deleted ++
      old.drop (start + deleted)) (old.take start ++ inserted ++ old.drop (start + deleted)) =
        some edit := by
    rw [← hold, ← h, ← hsplice]
    rfl
  rw [← hremoved]
  exact le_of_between_append hparts

/-- Where a character repeats, the common beginning takes all of the shorter text. The one that is
added could stand anywhere, but cannot be spared. -/
theorem between_least_repetition :
    between "aaa".toList "aaaa".toList = some ⟨3, 0, 1⟩ ∧
      between "aaaa".toList "aaa".toList = some ⟨3, 1, 0⟩ ∧
      ∀ start deleted inserted, start + deleted ≤ 3 →
        splice "aaa".toList start deleted inserted = "aaaa".toList → 1 ≤ inserted.length := by
  have hbetween : between "aaa".toList "aaaa".toList = some ⟨3, 0, 1⟩ := by decide
  obtain ⟨-, -, -, hleast, hswap⟩ := (between_least _ _).2 _ hbetween
  exact ⟨hbetween, hswap, fun start deleted inserted hfits hsplice ↦
    (hleast start deleted inserted hfits hsplice).2⟩

end Edit

end CodeEditor
