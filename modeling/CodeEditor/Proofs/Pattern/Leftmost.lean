import CodeEditor.Proofs.Pattern.Bounds

/-!
# Leftmost matches

A pattern that is searched for is found where it first matches, and the match there is the one that a
search from that very place finds.
-/

namespace CodeEditor

variable {α : Type} {text : Array Char} {f : Nat → Option α} {from_ pos : Nat} {found : α}

/-! ## The first place that gives something -/

/-- What is given at the first place, from one on and up to the end of the text, that gives
something. -/
def firstFrom (text : Array Char) (f : Nat → Option α) (from_ : Nat) : Option α :=
  (List.range' from_ (text.size + 1 - from_)).findSome? f

theorem firstFrom_of_le (hle : from_ ≤ text.size) :
    firstFrom text f from_ = (f from_).or (firstFrom text f (from_ + 1)) := by
  obtain ⟨left, hleft⟩ := Nat.exists_eq_add_of_le hle
  have hplaces : text.size + 1 - from_ = left + 1 := by omega
  have hrest : text.size + 1 - (from_ + 1) = left := by omega
  rw [firstFrom, firstFrom, hplaces, hrest, List.range'_succ, List.findSome?_cons]
  cases f from_ <;> rfl

theorem firstFrom_of_gt (hgt : text.size < from_) : firstFrom text f from_ = none := by
  rw [firstFrom, Nat.sub_eq_zero_of_le hgt]
  rfl

/-- Places that give nothing can be passed over. -/
theorem firstFrom_skip (hle : from_ ≤ pos)
    (h : ∀ place, from_ ≤ place → place < pos → f place = none) :
    firstFrom text f from_ = firstFrom text f pos := by
  obtain ⟨count, rfl⟩ := Nat.exists_eq_add_of_le hle
  induction count with
  | zero => rfl
  | succ count ih =>
    rw [ih (Nat.le_add_right _ _) fun place hplace hlt ↦ h place hplace (by omega)]
    rcases Nat.lt_or_ge text.size (from_ + count) with hgt | hle
    · rw [firstFrom_of_gt hgt, firstFrom_of_gt (by omega)]
    · rw [firstFrom_of_le hle, h _ (Nat.le_add_right _ _) (by omega), Option.none_or, Nat.add_assoc]

theorem firstFrom_eq_none_iff : firstFrom text f from_ = none ↔
    ∀ place, from_ ≤ place → place ≤ text.size → f place = none := by
  rw [firstFrom, List.findSome?_eq_none_iff]
  constructor
  · intro h place hfrom hsize
    exact h place (List.mem_range'_1.mpr ⟨hfrom, by omega⟩)
  · intro h place hplace
    obtain ⟨hfrom, hlt⟩ := List.mem_range'_1.mp hplace
    exact h place hfrom (by omega)

theorem firstFrom_eq_some_iff : firstFrom text f from_ = some found ↔
    ∃ place, from_ ≤ place ∧ place ≤ text.size ∧ f place = some found ∧
      ∀ other, from_ ≤ other → other < place → f other = none := by
  constructor
  · intro h
    induction hleft : text.size + 1 - from_ generalizing from_ with
    | zero =>
      rw [firstFrom_of_gt (by omega)] at h
      nomatch h
    | succ left ih =>
      have hle : from_ ≤ text.size := by omega
      rw [firstFrom_of_le hle] at h
      obtain hhere | ⟨hhere, hrest⟩ := Option.or_eq_some_iff.mp h
      · exact ⟨from_, Nat.le_refl _, hle, hhere, fun other hge hlt ↦ by omega⟩
      · obtain ⟨place, hplace, hsize, hfound, hbefore⟩ := ih hrest (by omega)
        refine ⟨place, Nat.le_of_succ_le hplace, hsize, hfound, fun other hge hlt ↦ ?_⟩
        obtain rfl | hgt := Nat.eq_or_lt_of_le hge
        · exact hhere
        · exact hbefore other hgt hlt
  · rintro ⟨place, hplace, hsize, hfound, hbefore⟩
    rw [firstFrom_skip hplace hbefore, firstFrom_of_le hsize, hfound]
    rfl

/-! ## Patterns -/

/-- Searching from a place finds the first match from there on, which does not depend on the
place. -/
def Pattern.Leftmost (text : Array Char) (pattern : Pattern) : Prop :=
  ∀ from_ ≤ text.size, pattern.find? text from_ = firstFrom text (pattern.matchAt? text) from_

instance (text : Array Char) (pattern : Pattern) : Decidable (pattern.Leftmost text) :=
  inferInstanceAs (Decidable (∀ from_ ≤ text.size,
    pattern.find? text from_ = firstFrom text (pattern.matchAt? text) from_))

/-- The match at a place starts there and lies in the text. -/
theorem Pattern.within_matchAt? {pattern : Pattern} {start : Nat} {whole : Match}
    (hstart : start ≤ text.size) (h : pattern.matchAt? text start = some whole) :
    whole.start = start ∧ whole.Within text start := by
  unfold matchAt? at h
  split at h
  · rename_i reached hreached
    cases h
    have hwithin := within_runFrom hstart hreached
    exact ⟨rfl, Nat.le_refl _, hwithin.start_le, hwithin.le_size, hwithin.captures⟩
  · nomatch h

end CodeEditor
