import CodeEditor.Decoration.Render
import CodeEditor.Proofs.Style.Tiling
import Mathlib.Data.List.Pairwise

/-!
# What is drawn tiles the text

The boundaries at which the drawing can change are the offsets of a strictly increasing list that
begins with zero and ends with the length of the text. Each piece between two of them has a
style, so the pieces of a canonical styled text tile it, whatever decorations lie over it.
-/

namespace CodeEditor.Render

/-! ## Repetitions in sorted lists -/

theorem eraseReps_loop (a : Nat) (rest done : List Nat) :
    List.eraseRepsBy.loop (· == ·) a rest done =
      done.reverse ++ List.eraseRepsBy.loop (· == ·) a rest [] := by
  induction rest generalizing a done with
  | nil => exact List.reverse_cons
  | cons b rest ih =>
    rw [List.eraseRepsBy.loop, List.eraseRepsBy.loop]
    split
    · exact ih a done
    · rw [ih b (a :: done), ih b [a], List.reverse_cons, List.append_assoc]
      rfl

theorem eraseReps_cons_cons (a b : Nat) (rest : List Nat) :
    (a :: b :: rest).eraseReps =
      if a = b then (a :: rest).eraseReps else a :: (b :: rest).eraseReps := by
  have hloop : (a :: b :: rest).eraseReps = List.eraseRepsBy.loop (· == ·) a (b :: rest) [] := rfl
  rw [hloop, List.eraseRepsBy.loop]
  by_cases h : a = b
  · rw [if_pos h, beq_iff_eq.mpr h]
    exact eraseReps_loop a rest []
  · rw [if_neg h, beq_eq_false_iff_ne.mpr h]
    exact eraseReps_loop b rest [a]

theorem mem_eraseReps {x : Nat} {offsets : List Nat} : x ∈ offsets.eraseReps ↔ x ∈ offsets := by
  induction offsets with
  | nil => exact Iff.rfl
  | cons a rest ih =>
    cases rest with
    | nil => exact Iff.rfl
    | cons b rest =>
      rw [eraseReps_cons_cons]
      split
      · rename_i h
        subst h
        rw [ih, List.mem_cons, List.mem_cons, List.mem_cons]
        exact ⟨Or.inr, fun h ↦ h.elim Or.inl id⟩
      · rw [List.mem_cons, ih, List.mem_cons (a := x) (b := a)]

theorem eraseReps_increasing {offsets : List Nat} (h : offsets.Pairwise (· ≤ ·)) :
    offsets.eraseReps.Pairwise (· < ·) := by
  induction offsets with
  | nil => exact List.Pairwise.nil
  | cons a rest ih =>
    cases rest with
    | nil => exact List.pairwise_singleton _ _
    | cons b rest =>
      obtain ⟨hle, hrest⟩ := List.pairwise_cons.mp h
      rw [eraseReps_cons_cons]
      split
      · rename_i hab
        rw [hab]
        exact ih hrest
      · rename_i hab
        refine List.pairwise_cons.mpr ⟨fun x hx ↦ ?_, ih hrest⟩
        rcases List.mem_cons.mp (mem_eraseReps.mp hx) with rfl | hx
        · exact Nat.lt_of_le_of_ne (hle x List.mem_cons_self) hab
        · have hbx := (List.pairwise_cons.mp hrest).1 x hx
          have hab' := hle b List.mem_cons_self
          omega

/-! ## Boundaries -/

variable {styled : StyledText} {decorations : List Decoration}

theorem boundaries_increasing (styled : StyledText) (decorations : List Decoration) :
    (boundaries styled decorations).Pairwise (· < ·) := by
  apply eraseReps_increasing
  refine (List.pairwise_mergeSort ?_ ?_ _).imp ?_
  · intro a b c hab hbc
    rw [decide_eq_true_eq] at hab hbc ⊢
    omega
  · intro a b
    rw [Bool.or_eq_true, decide_eq_true_eq, decide_eq_true_eq]
    omega
  · intro a b hab
    exact of_decide_eq_true hab

theorem le_of_mem_boundaries (h : styled.Canonical) {offset : Nat}
    (hoffset : offset ∈ boundaries styled decorations) : offset ≤ styled.length := by
  rcases List.mem_append.mp (List.mem_mergeSort.mp (mem_eraseReps.mp hoffset)) with hspan | hend
  · obtain ⟨span, hspan, hoffset⟩ := List.mem_flatMap.mp hspan
    have hbounds := h.tiles.bounds span hspan
    rcases List.mem_cons.mp hoffset with rfl | hoffset
    · omega
    · rw [List.mem_singleton.mp hoffset]
      exact hbounds.2.2
  · exact of_decide_eq_true (List.mem_filter.mp hend).2

theorem mem_boundaries_of_span {span : Span} (hspan : span ∈ styled.spans) :
    span.start ∈ boundaries styled decorations ∧ span.stop ∈ boundaries styled decorations := by
  have hends : ∀ offset ∈ [span.start, span.stop], offset ∈ boundaries styled decorations := by
    intro offset hoffset
    rw [boundaries, mem_eraseReps, List.mem_mergeSort, List.mem_append]
    exact Or.inl (List.mem_flatMap.mpr ⟨span, hspan, hoffset⟩)
  exact ⟨hends _ List.mem_cons_self, hends _ (List.mem_cons_of_mem _ List.mem_cons_self)⟩

/-- The ends of a text that is not empty are boundaries. -/
theorem ends_mem_boundaries (h : styled.Canonical) (hlength : 0 < styled.length) :
    0 ∈ boundaries styled decorations ∧ styled.length ∈ boundaries styled decorations := by
  obtain ⟨first, hfirst⟩ := h.tiles.find?_contains (Nat.le_refl 0) hlength
  obtain ⟨last, hlast⟩ := h.tiles.find?_contains (Nat.zero_le (styled.length - 1)) (by omega)
  have hfirst' := List.find?_some hfirst
  have hlast' := List.find?_some hlast
  have hbounds := h.tiles.bounds last (List.mem_of_find?_eq_some hlast)
  simp only [Span.contains, Bool.and_eq_true, decide_eq_true_eq] at hfirst' hlast'
  have hstart : first.start = 0 := by omega
  have hstop : last.stop = styled.length := by omega
  rw [← hstart, ← hstop]
  exact ⟨(mem_boundaries_of_span (List.mem_of_find?_eq_some hfirst)).1,
    (mem_boundaries_of_span (List.mem_of_find?_eq_some hlast)).2⟩

theorem mem_boundaries_of_decoration {decoration : Decoration}
    (hdecoration : decoration ∈ decorations) {offset : Nat}
    (hoffset : offset = decoration.start ∨ offset = decoration.stop)
    (hle : offset ≤ styled.length) : offset ∈ boundaries styled decorations := by
  have hend : offset ∈ [decoration.start, decoration.stop] := by
    rwa [List.mem_cons, List.mem_singleton]
  rw [boundaries, mem_eraseReps, List.mem_mergeSort, List.mem_append, List.mem_filter]
  exact Or.inr ⟨List.mem_flatMap.mpr ⟨decoration, hdecoration, hend⟩, decide_eq_true hle⟩

/-- The boundaries lead from zero to the length of the text. -/
theorem boundaries_cases (h : styled.Canonical) (decorations : List Decoration) :
    (boundaries styled decorations = [] ∧ styled.length = 0) ∨
      ∃ rest, boundaries styled decorations = 0 :: rest ∧
        (0 :: rest).getLast (List.cons_ne_nil _ _) = styled.length := by
  have hincreasing := boundaries_increasing styled decorations
  have hle : ∀ offset ∈ boundaries styled decorations, offset ≤ styled.length :=
    fun offset ↦ le_of_mem_boundaries h
  have hends := @ends_mem_boundaries _ decorations h
  generalize boundaries styled decorations = offsets at hincreasing hle hends
  cases offsets with
  | nil =>
    have hempty : ¬0 < styled.length := fun hlength ↦ nomatch (hends hlength).1
    exact Or.inl ⟨rfl, Nat.eq_zero_of_not_pos hempty⟩
  | cons first rest =>
    have hfirst : first = 0 := by
      by_contra hne
      have hlength := hle first List.mem_cons_self
      have hzero := (hends (by omega)).1
      rcases List.mem_cons.mp hzero with hzero | hzero
      · exact hne hzero.symm
      · exact absurd ((List.pairwise_cons.mp hincreasing).1 0 hzero) (Nat.not_lt_zero _)
    subst hfirst
    refine Or.inr ⟨rest, rfl, Nat.le_antisymm (hle _ (List.getLast_mem _)) ?_⟩
    rcases Nat.eq_zero_or_pos styled.length with hzero | hlength
    · rw [hzero]
      exact Nat.zero_le _
    · exact (hincreasing.imp Nat.le_of_lt).rel_getLast (hends hlength).2

/-! ## Pieces -/

/-- The pieces between neighbouring offsets. -/
def pieces (styled : StyledText) (decorations : List Decoration) (theme : Theme)
    (offsets : List Nat) : List Span :=
  (offsets.zip offsets.tail).filterMap fun (start, stop) ↦
    piece? styled decorations theme start stop

theorem piece?_eq_some (h : styled.Canonical) (decorations : List Decoration) (theme : Theme)
    {start : Nat} (hstart : start < styled.length) (stop : Nat) :
    ∃ base, styled.styleAt? start = some base ∧
      piece? styled decorations theme start stop =
        some ⟨start, stop, (decorations.filter fun decoration ↦
          decoration.start ≤ start && stop ≤ decoration.stop).foldl
            (fun style decoration ↦ style.overlay theme decoration.kind) base⟩ := by
  obtain ⟨base, hbase⟩ := h.styleAt?_eq_some hstart
  exact ⟨base, hbase, by rw [piece?, hbase]; rfl⟩

theorem pieces_cons {theme : Theme} {first next : Nat} {piece : Span}
    (h : piece? styled decorations theme first next = some piece) (rest : List Nat) :
    pieces styled decorations theme (first :: next :: rest) =
      piece :: pieces styled decorations theme (next :: rest) := by
  simp only [pieces, List.tail_cons, List.zip_cons_cons, List.filterMap_cons, h]

/-- The pieces between increasing offsets tile the range from the first to the last. -/
theorem pieces_tile (h : styled.Canonical) (decorations : List Decoration) (theme : Theme)
    {first : Nat} {rest : List Nat} (hincreasing : (first :: rest).Pairwise (· < ·))
    (hle : ∀ offset ∈ first :: rest, offset ≤ styled.length) :
    Tiles first ((first :: rest).getLast (List.cons_ne_nil _ _))
      (pieces styled decorations theme (first :: rest)) := by
  induction rest generalizing first with
  | nil => exact (rfl : first = first)
  | cons next rest ih =>
    obtain ⟨hlt, hrest⟩ := List.pairwise_cons.mp hincreasing
    have hnext := hlt next List.mem_cons_self
    have hnextLe := hle next (List.mem_cons_of_mem _ List.mem_cons_self)
    obtain ⟨base, -, hpiece⟩ :=
      piece?_eq_some h decorations theme (show first < styled.length by omega) next
    rw [pieces_cons hpiece, List.getLast_cons_cons]
    exact ⟨rfl, hnext, ih hrest fun offset hoffset ↦ hle offset (List.mem_cons_of_mem _ hoffset)⟩

/-- The pieces of what is drawn tile the text. -/
theorem pieces_boundaries_tile (h : styled.Canonical) (decorations : List Decoration)
    (theme : Theme) :
    Tiles 0 styled.length
      (pieces styled decorations theme (boundaries styled decorations)) := by
  obtain ⟨hnil, hzero⟩ | ⟨rest, hcons, hlast⟩ := boundaries_cases h decorations
  · rw [hnil, hzero]
    exact (rfl : 0 = 0)
  · have hincreasing := boundaries_increasing styled decorations
    have hle : ∀ offset ∈ boundaries styled decorations, offset ≤ styled.length :=
      fun offset ↦ le_of_mem_boundaries h
    rw [hcons] at hincreasing hle ⊢
    rw [← hlast]
    exact pieces_tile h decorations theme hincreasing hle

/-- What is drawn are the joined pieces, or the spans of the text if nothing is decorated. -/
theorem compose_cases (styled : StyledText) (layers : Layers) (theme : Theme) :
    (layers.decorations.filter (!·.isPoint) = [] ∧ compose styled layers theme = styled.spans) ∨
      compose styled layers theme =
        (pieces styled (layers.decorations.filter (!·.isPoint)) theme
          (boundaries styled (layers.decorations.filter (!·.isPoint)))).foldr Span.join [] := by
  unfold compose
  dsimp only
  split
  · rename_i hempty
    exact Or.inl ⟨List.isEmpty_iff.mp hempty, rfl⟩
  · exact Or.inr rfl

/-- The drawing of a canonical styled text tiles the text. -/
theorem compose_tiles (h : styled.Canonical) (layers : Layers) (theme : Theme) :
    Tiles 0 styled.length (compose styled layers theme) := by
  obtain ⟨-, heq⟩ | heq := compose_cases styled layers theme
  · rw [heq]
    exact h.tiles
  · rw [heq]
    exact Span.foldr_join_tiles (pieces_boundaries_tile h _ theme)

end CodeEditor.Render
