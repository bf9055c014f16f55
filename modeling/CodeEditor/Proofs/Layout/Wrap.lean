import CodeEditor.Proofs.Layout.Relayout
import Mathlib.Order.Bounds.Basic

/-!
# Wrapping a line into the fewest rows

A wrapping cuts a line, without its carriage returns, into rows in which each character starts at
the first cell or ends within the width. The layout is greedy: a row takes every character that
still fits. Where a tab ends depends on where it starts, but no character ends further to the right
for starting further to the left. So the layout stays ahead of every wrapping, first by rows and
then by cells, and no wrapping has fewer rows. In particular wider rows never need more of them.
-/

namespace CodeEditor

variable {width tabWidth : Nat}

/-! ## Wrappings -/

/-- From a position of a row on, each character starts at the first cell or ends within the width. -/
def FitsRow (width tabWidth : Nat) : (position : Nat) → List Char → Prop
  | _, [] => True
  | position, c :: rest =>
    (position = 0 ∨ position + cellWidth c position tabWidth ≤ max width 1) ∧
      FitsRow width tabWidth (position + cellWidth c position tabWidth) rest

/-- The rows are a way to cut the line, without its carriage returns, at the width. -/
structure IsWrapping (line : List Char) (width tabWidth : Nat) (rows : List (List Char)) :
    Prop where
  ne_nil : rows ≠ []
  content : rows.flatten = line.filter (· ≠ '\r')
  fits : ∀ row ∈ rows, FitsRow width tabWidth 0 row

/-- What fits into a row fits into a wider one. -/
theorem FitsRow.mono {wider position : Nat} {row : List Char} (hwider : width ≤ wider)
    (h : FitsRow width tabWidth position row) : FitsRow wider tabWidth position row := by
  induction row generalizing position with
  | nil => trivial
  | cons c rest ih =>
    obtain ⟨hfits, hrest⟩ := h
    refine ⟨hfits.imp_right fun hle ↦ ?_, ih hrest⟩
    omega

theorem IsWrapping.mono {line : List Char} {wider : Nat} {rows : List (List Char)}
    (hwider : width ≤ wider) (h : IsWrapping line width tabWidth rows) :
    IsWrapping line wider tabWidth rows :=
  ⟨h.ne_nil, h.content, fun row hrow ↦ (h.fits row hrow).mono hwider⟩

/-! ## One character -/

/-- A tab ends at the next tab stop. -/
theorem add_cellWidth_tab (position tabWidth : Nat) :
    position + cellWidth '\t' position tabWidth =
      (position / max tabWidth 1 + 1) * max tabWidth 1 := by
  have hlt : position % max tabWidth 1 < max tabWidth 1 := Nat.mod_lt _ (by omega)
  have hdiv := Nat.div_add_mod' position (max tabWidth 1)
  rw [cellWidth_tab, Nat.succ_mul]
  omega

/-- A character that starts further to the left ends no further to the right. -/
theorem add_cellWidth_mono (c : Char) (tabWidth : Nat) {position other : Nat}
    (h : position ≤ other) :
    position + cellWidth c position tabWidth ≤ other + cellWidth c other tabWidth := by
  by_cases hc : c = '\t'
  · rw [hc, add_cellWidth_tab, add_cellWidth_tab]
    exact Nat.mul_le_mul_right _ (Nat.succ_le_succ (Nat.div_le_div_right h))
  · rw [cellWidth_of_ne_tab hc, cellWidth_of_ne_tab hc]
    exact Nat.add_le_add_right h _

namespace Rows

variable {rows next : Rows} {c : Char}

theorem add_cases (width tabWidth : Nat) (rows : Rows) (c : Char) :
    add width tabWidth rows c = .error .overflow ∨
      ∃ next, add width tabWidth rows c = .ok next := by
  unfold add
  split
  · exact Or.inr ⟨rows, rfl⟩
  · refine Fault.bind_cases (Offset.add_cases _ _) fun reached ↦ ?_
    split
    · exact Fault.bind_cases (Offset.add_cases _ _) fun count ↦ Or.inr ⟨_, rfl⟩
    · exact Or.inr ⟨_, rfl⟩

theorem cases_of_add_eq_ok (hc : c ≠ '\r') (h : add width tabWidth rows c = .ok next) :
    ((rows.cells = 0 ∨ rows.cells + cellWidth c rows.cells tabWidth ≤ max width 1) ∧
      next = ⟨rows.count, rows.cells + cellWidth c rows.cells tabWidth⟩) ∨
    (0 < rows.cells ∧ max width 1 < rows.cells + cellWidth c rows.cells tabWidth ∧
      next = ⟨rows.count + 1, cellWidth c 0 tabWidth⟩) := by
  unfold add at h
  rw [if_neg hc] at h
  obtain ⟨reached, hreached, h⟩ := Fault.bind_eq_ok.mp h
  obtain rfl := Offset.eq_of_add_eq_ok hreached
  split at h
  · rename_i hfull
    rw [Bool.and_eq_true, decide_eq_true_eq, decide_eq_true_eq] at hfull
    obtain ⟨count, hcount, h⟩ := Fault.bind_eq_ok.mp h
    obtain rfl := Offset.eq_of_add_eq_ok hcount
    exact Or.inr ⟨hfull.1, hfull.2, (Except.ok.inj h).symm⟩
  · rename_i hfree
    rw [Bool.and_eq_true, decide_eq_true_eq, decide_eq_true_eq] at hfree
    exact Or.inl ⟨by omega, (Except.ok.inj h).symm⟩

/-- Fewer rows, or as many with the last of them filled no further. -/
def Leads (rows : Rows) (count cells : Nat) : Prop :=
  rows.count < count ∨ rows.count = count ∧ rows.cells ≤ cells

/-- The layout takes a character and stays ahead of a row that takes it too. -/
theorem Leads.add {count position : Nat} (hleads : rows.Leads count position) (hc : c ≠ '\r')
    (hfits : position = 0 ∨ position + cellWidth c position tabWidth ≤ max width 1)
    (h : Rows.add width tabWidth rows c = .ok next) :
    next.Leads count (position + cellWidth c position tabWidth) := by
  obtain hfewer | ⟨hsame, hcells⟩ := hleads
  · obtain ⟨-, rfl⟩ | ⟨-, -, rfl⟩ := cases_of_add_eq_ok hc h
    · exact Or.inl hfewer
    · -- The layout begins its next row, which may be the one that the wrapping is in.
      have hstart := add_cellWidth_mono c tabWidth (Nat.zero_le position)
      rw [Nat.zero_add] at hstart
      unfold Leads
      dsimp only
      omega
  · have hmono := add_cellWidth_mono c tabWidth hcells
    obtain ⟨-, rfl⟩ | ⟨hpos, hfull, -⟩ := cases_of_add_eq_ok hc h
    · exact Or.inr ⟨hsame, hmono⟩
    · omega

theorem Leads.nextRow {count position : Nat} (hleads : rows.Leads count position) :
    rows.Leads (count + 1) 0 := by
  unfold Leads at hleads ⊢
  omega

theorem Leads.addRow {count position : Nat} {row : List Char} (hleads : rows.Leads count position)
    (hrow : '\r' ∉ row) (hfits : FitsRow width tabWidth position row)
    (h : row.foldlM (Rows.add width tabWidth) rows = .ok next) :
    ∃ cells, next.Leads count cells := by
  induction row generalizing rows position with
  | nil =>
    obtain rfl := Except.ok.inj h
    exact ⟨position, hleads⟩
  | cons c rest ih =>
    obtain ⟨hc, hrest⟩ := List.ne_and_not_mem_of_not_mem_cons hrow
    obtain ⟨middle, hmiddle, h⟩ := Fault.bind_eq_ok.mp h
    exact ih (hleads.add hc.symm hfits.1 hmiddle) hrest hfits.2 h

theorem Leads.addRows {count position : Nat} {more : List (List Char)}
    (hleads : rows.Leads count position) (hmore : ∀ row ∈ more, '\r' ∉ row)
    (hfits : ∀ row ∈ more, FitsRow width tabWidth 0 row)
    (h : more.flatten.foldlM (Rows.add width tabWidth) rows = .ok next) :
    next.count ≤ count + more.length := by
  induction more generalizing rows count position with
  | nil =>
    obtain rfl := Except.ok.inj h
    unfold Leads at hleads
    rw [List.length_nil]
    omega
  | cons row rest ih =>
    obtain ⟨hrow, hrest⟩ := List.forall_mem_cons.mp hmore
    obtain ⟨hfit, hfits⟩ := List.forall_mem_cons.mp hfits
    rw [List.flatten_cons, List.foldlM_append] at h
    obtain ⟨middle, hmiddle, h⟩ := Fault.bind_eq_ok.mp h
    obtain ⟨cells, hmiddle⟩ := hleads.nextRow.addRow hrow hfit hmiddle
    have hcount := ih hmiddle hrest hfits h
    rw [List.length_cons]
    omega

/-- The layout is itself a wrapping, the first row of which goes on where it stands. -/
theorem exists_rows {chars : List Char} (hchars : '\r' ∉ chars)
    (h : chars.foldlM (add width tabWidth) rows = .ok next) :
    ∃ (row : List Char) (more : List (List Char)), row ++ more.flatten = chars ∧
      FitsRow width tabWidth rows.cells row ∧ (∀ row ∈ more, FitsRow width tabWidth 0 row) ∧
      next.count = rows.count + more.length := by
  induction chars generalizing rows with
  | nil =>
    obtain rfl := Except.ok.inj h
    exact ⟨[], [], rfl, trivial, nofun, rfl⟩
  | cons c rest ih =>
    obtain ⟨hc, hrest⟩ := List.ne_and_not_mem_of_not_mem_cons hchars
    obtain ⟨middle, hmiddle, h⟩ := Fault.bind_eq_ok.mp h
    obtain ⟨row, more, rfl, hrow, hmore, hcount⟩ := ih hrest h
    obtain ⟨hfits, rfl⟩ | ⟨-, -, rfl⟩ := cases_of_add_eq_ok hc.symm hmiddle
    · exact ⟨c :: row, more, rfl, ⟨hfits, hrow⟩, hmore, hcount⟩
    · refine ⟨[], (c :: row) :: more, rfl, trivial, ?_, ?_⟩
      · refine List.forall_mem_cons.mpr ⟨⟨Or.inl rfl, ?_⟩, hmore⟩
        rwa [Nat.zero_add]
      · rw [hcount, List.length_cons]
        dsimp only
        omega

end Rows

/-! ## A line -/

theorem wrappedRows_cases (line : List Char) (width tabWidth : Nat) :
    wrappedRows line width tabWidth = .error .overflow ∨
      ∃ count, wrappedRows line width tabWidth = .ok count := by
  obtain hstops | ⟨laid, hlaid⟩ :=
    Fault.foldlM_cases (Rows.add_cases width tabWidth) line Rows.first
  · exact Or.inl (by rw [wrappedRows, hstops]; rfl)
  · exact Or.inr (Fault.exists_map_eq_ok ⟨laid, hlaid⟩)

/-- Carriage returns are not laid out. -/
theorem wrappedRows_filter (line : List Char) (width tabWidth : Nat) :
    wrappedRows (line.filter (· ≠ '\r')) width tabWidth = wrappedRows line width tabWidth := by
  have hadd : (fun rows c ↦ if decide (c ≠ '\r') = true then Rows.add width tabWidth rows c
      else pure rows) = Rows.add width tabWidth := by
    funext rows c
    by_cases hc : c = '\r'
    · rw [if_neg (by simpa using hc), Rows.add, if_pos hc]
    · rw [if_pos (by simpa using hc)]
  rw [wrappedRows, wrappedRows, List.foldlM_filter, hadd]

theorem not_mem_filter (line : List Char) : '\r' ∉ line.filter (· ≠ '\r') := by simp

theorem exists_wrapping {line : List Char} {count : Nat}
    (h : wrappedRows line width tabWidth = .ok count) :
    ∃ rows, IsWrapping line width tabWidth rows ∧ rows.length = count := by
  rw [← wrappedRows_filter] at h
  obtain ⟨laid, hlaid, rfl⟩ := Fault.map_eq_ok.mp h
  obtain ⟨row, more, hcontent, hrow, hmore, hcount⟩ := Rows.exists_rows (not_mem_filter line) hlaid
  refine ⟨row :: more, ⟨List.cons_ne_nil _ _, hcontent, ?_⟩, ?_⟩
  · exact List.forall_mem_cons.mpr ⟨hrow, hmore⟩
  · rw [hcount, List.length_cons, Nat.add_comm]
    rfl

theorem IsWrapping.le_length {line : List Char} {rows : List (List Char)} {count : Nat}
    (hrows : IsWrapping line width tabWidth rows)
    (h : wrappedRows line width tabWidth = .ok count) : count ≤ rows.length := by
  rw [← wrappedRows_filter, ← hrows.content] at h
  obtain ⟨laid, hlaid, rfl⟩ := Fault.map_eq_ok.mp h
  have hchars : ∀ row ∈ rows, '\r' ∉ row := by
    intro row hrow hmem
    have hline : '\r' ∈ rows.flatten := List.mem_flatten.mpr ⟨row, hrow, hmem⟩
    rw [hrows.content] at hline
    exact not_mem_filter line hline
  cases rows with
  | nil => exact absurd rfl hrows.ne_nil
  | cons row more =>
    obtain ⟨hrow, hmore⟩ := List.forall_mem_cons.mp hchars
    obtain ⟨hfit, hfits⟩ := List.forall_mem_cons.mp hrows.fits
    rw [List.flatten_cons, List.foldlM_append] at hlaid
    obtain ⟨middle, hmiddle, hlaid⟩ := Fault.bind_eq_ok.mp hlaid
    have hfirst : Rows.first.Leads 1 0 := Or.inr ⟨rfl, Nat.le_refl 0⟩
    obtain ⟨cells, hmiddle⟩ := hfirst.addRow hrow hfit hmiddle
    rw [List.length_cons, Nat.add_comm]
    exact hmiddle.addRows hmore hfits hlaid

/-- A line whose cells can be counted: one more character fits behind the longest row that it can
need, or all of its characters fit into one row. -/
def CellsFit (line : List Char) (width tabWidth : Nat) : Prop :=
  line.length + 1 < Offset.bound ∧
    (LayoutConfig.rowCells width tabWidth + max tabWidth 3 < Offset.bound ∨
      line.length * max tabWidth 3 < Offset.bound)

theorem exists_wrappedRows {line : List Char} (h : CellsFit line width tabWidth) :
    ∃ count, wrappedRows line width tabWidth = .ok count := by
  obtain ⟨hlength, hcells⟩ := h
  have hfirst : Rows.first.cells = 0 := rfl
  have hcount : Rows.first.count = 1 := rfl
  obtain ⟨laid, hlaid, -⟩ := @foldlM_rows_eq_ok width tabWidth line Rows.first
    (by rw [hfirst, Nat.zero_max, Nat.zero_add]; exact hcells) (by omega)
  exact Fault.exists_map_eq_ok ⟨laid, hlaid⟩

/-- Whenever the rows of a line can be counted, and they can if its cells fit, their number is the
least that any wrapping of the line has, and no wider row leads to more of them. -/
theorem wrappedRows_least (line : List Char) (width tabWidth : Nat) :
    (∀ count, wrappedRows line width tabWidth = .ok count →
      IsLeast {n | ∃ rows, IsWrapping line width tabWidth rows ∧ rows.length = n} count ∧
      ∀ wider fewer, width ≤ wider → wrappedRows line wider tabWidth = .ok fewer →
        fewer ≤ count) ∧
    (CellsFit line width tabWidth → ∃ count, wrappedRows line width tabWidth = .ok count) := by
  refine ⟨fun count hcount ↦ ⟨⟨exists_wrapping hcount, ?_⟩, ?_⟩, exists_wrappedRows⟩
  · rintro n ⟨rows, hrows, rfl⟩
    exact hrows.le_length hcount
  · intro wider fewer hwider hfewer
    obtain ⟨rows, hrows, rfl⟩ := exists_wrapping hcount
    exact (hrows.mono hwider).le_length hfewer

/-- A character that is wider than its row leaves no room there, not even for a mark that takes no
cell. -/
theorem wrappedRows_least_wide_mark :
    let line := ['你', '\u0301', 'x']
    CellsFit line 1 4 ∧ wrappedRows line 1 4 = .ok 2 ∧ wrappedRows line 3 4 = .ok 1 ∧
      IsLeast {n | ∃ rows, IsWrapping line 1 4 rows ∧ rows.length = n} 2 ∧ 1 ≤ 2 ∧
      ∃ count, wrappedRows line 1 4 = .ok count := by
  intro line
  have hfits : CellsFit line 1 4 := ⟨by decide, Or.inl (by decide)⟩
  have hcount : wrappedRows line 1 4 = .ok 2 := by decide +kernel
  have hwider : wrappedRows line 3 4 = .ok 1 := by decide +kernel
  obtain ⟨hleast, hexists⟩ := wrappedRows_least line 1 4
  obtain ⟨hminimal, hmono⟩ := hleast 2 hcount
  exact ⟨hfits, hcount, hwider, hminimal, hmono 3 1 (by decide) hwider, hexists hfits⟩

end CodeEditor
