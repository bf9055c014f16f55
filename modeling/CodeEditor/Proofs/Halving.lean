/-!
# Searching by halving

An interval of places is halved until what is left begins at the first place that is not before what
is sought. In an ascending list this is as many places in as there are elements before it.
-/

namespace CodeEditor

/-- Halves the places from `low` up to `high` until the first that is not before what is sought. -/
def halve (before : Nat → Bool) (low high : Nat) : Nat :=
  if low < high then
    let middle := (low + high) / 2
    if before middle then halve before (middle + 1) high else halve before low middle
  else low
termination_by high - low

/-- Only the places that are halved count. -/
theorem halve_eq_of_lt {before : Nat → Bool} {place low high : Nat}
    (hplace : ∀ i < high, before i = true ↔ i < place) (hlow : low ≤ place)
    (hhigh : place ≤ high) : halve before low high = place := by
  fun_induction halve before low high with
  | case1 low high hlt middle hbefore ih =>
    have hmiddle : middle < high := by omega
    exact ih hplace ((hplace middle hmiddle).mp hbefore) hhigh
  | case2 low high hlt middle hbehind ih =>
    have hmiddle : middle < high := by omega
    refine ih (fun i hi ↦ hplace i (Nat.lt_trans hi hmiddle)) hlow ?_
    exact Nat.not_lt.mp fun h ↦ hbehind ((hplace middle hmiddle).mpr h)
  | case3 low high hle => omega

theorem halve_eq {before : Nat → Bool} {place low high : Nat}
    (hplace : ∀ i, before i = true ↔ i < place) (hlow : low ≤ place) (hhigh : place ≤ high) :
    halve before low high = place :=
  halve_eq_of_lt (fun i _ ↦ hplace i) hlow hhigh

/-- If every place in front of one that is before what is sought is so as well, then these places
are the first ones. -/
theorem exists_place {before : Nat → Bool} {count : Nat}
    (hbefore : ∀ i j, i ≤ j → j < count → before j = true → before i = true) :
    ∃ place ≤ count, ∀ i < count, before i = true ↔ i < place := by
  induction count with
  | zero => exact ⟨0, Nat.le_refl 0, fun i hi ↦ absurd hi (Nat.not_lt_zero i)⟩
  | succ count ih =>
    cases hlast : before count with
    | true =>
      refine ⟨count + 1, Nat.le_refl _, fun i hi ↦ iff_of_true ?_ hi⟩
      exact hbefore i count (Nat.le_of_lt_succ hi) (Nat.lt_succ_self count) hlast
    | false =>
      obtain ⟨place, hplace, hiff⟩ :=
        ih fun i j hij hj ↦ hbefore i j hij (Nat.lt_succ_of_lt hj)
      refine ⟨place, Nat.le_succ_of_le hplace, fun i hi ↦ ?_⟩
      rcases Nat.lt_succ_iff_lt_or_eq.mp hi with hi | rfl
      · exact hiff i hi
      · rw [hlast]
        exact iff_of_false Bool.false_ne_true (Nat.not_lt.mpr hplace)

/-- The elements before a bound stand in front, so that they are as many as the place behind them
tells. -/
theorem any_getElem?_iff_lt_countP {list : List Nat} {before : Nat → Bool}
    (hincreasing : list.Pairwise (· < ·))
    (hbefore : ∀ {a b : Nat}, a < b → before b = true → before a = true) (i : Nat) :
    (list[i]?).any before = true ↔ i < list.countP before := by
  induction list generalizing i with
  | nil => simp
  | cons first rest ih =>
    obtain ⟨hfirst, hrest⟩ := List.pairwise_cons.mp hincreasing
    by_cases hin : before first = true
    · rw [List.countP_cons_of_pos hin]
      cases i with
      | zero => simp [hin]
      | succ i => simpa using ih hrest i
    · have hout : ∀ a ∈ first :: rest, ¬before a = true := by
        intro a ha hbound
        rcases List.mem_cons.mp ha with rfl | ha
        · exact hin hbound
        · exact hin (hbefore (hfirst a ha) hbound)
      rw [List.countP_eq_zero.mpr hout]
      constructor
      · intro h
        cases hplace : (first :: rest)[i]? with
        | none => simp [hplace] at h
        | some a =>
          rw [hplace] at h
          exact absurd h (hout a (List.mem_of_getElem? hplace))
      · exact fun h ↦ absurd h (Nat.not_lt_zero i)

end CodeEditor
