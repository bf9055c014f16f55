import CodeEditor.Pattern.Basic

/-!
# Where matches lie

Whatever an exploration finds, its continuation accepted at a cursor that lies ahead of the one it
began at, within the text, and whose groups lie behind it. Hence a match starts at the place the
search began at or after it, does not leave the text, and has its groups inside.
-/

namespace CodeEditor

variable {text : Array Char} {start : Nat} {cursor last : Cursor} {tried : Tried}
  {next : Continuation}

/-- A cursor that has come from a start and is still in the text, with the groups it closed on
the way. -/
structure Cursor.Within (text : Array Char) (start : Nat) (cursor : Cursor) : Prop where
  start_le : start ≤ cursor.pos
  le_size : cursor.pos ≤ text.size
  captures : ∀ capture ∈ cursor.captures,
    start ≤ capture.start ∧ capture.start ≤ capture.stop ∧ capture.stop ≤ cursor.pos

namespace Cursor.Within

theorem advance (h : cursor.Within text start) (hpos : cursor.pos < text.size) :
    cursor.advance.Within text start := by
  refine ⟨Nat.le_succ_of_le h.start_le, hpos, fun capture hcapture ↦ ?_⟩
  obtain ⟨hstart, hle, hstop⟩ := h.captures capture hcapture
  exact ⟨hstart, hle, Nat.le_succ_of_le hstop⟩

theorem close {reached : Cursor} (h : reached.Within text start) (hcursor : start ≤ cursor.pos)
    (hahead : cursor.pos ≤ reached.pos) (index : Nat) :
    (reached.close index cursor.pos).Within text start := by
  refine ⟨h.start_le, h.le_size, fun capture hcapture ↦ ?_⟩
  obtain rfl | hcapture := List.mem_cons.mp hcapture
  · exact ⟨hcursor, hahead, Nat.le_refl _⟩
  · exact h.captures capture hcapture

end Cursor.Within

/-! ## Explorations -/

/-- The continuation accepted ahead of the cursor. -/
def Accepted (text : Array Char) (start : Nat) (cursor : Cursor) (next : Continuation)
    (last : Cursor) : Prop :=
  ∃ reached tried, reached.Within text start ∧ cursor.pos ≤ reached.pos ∧
    next reached tried = .found last

/-- What is found was accepted ahead of where the exploration began. -/
def GoesAhead (text : Array Char) (start : Nat)
    (explore : Cursor → Tried → Continuation → Outcome) : Prop :=
  ∀ {cursor tried next last}, cursor.Within text start →
    explore cursor tried next = .found last → Accepted text start cursor next last

theorem Accepted.of_accepted {middle : Cursor} (hmiddle : cursor.pos ≤ middle.pos)
    (h : Accepted text start middle next last) : Accepted text start cursor next last := by
  obtain ⟨reached, tried, hreached, hahead, hfound⟩ := h
  exact ⟨reached, tried, hreached, Nat.le_trans hmiddle hahead, hfound⟩

theorem Accepted.here (hcursor : cursor.Within text start) (h : next cursor tried = .found last) :
    Accepted text start cursor next last :=
  ⟨cursor, tried, hcursor, Nat.le_refl _, h⟩

namespace Outcome

variable {preferred other : Tried → Outcome}

theorem firstOf_eq_found (h : firstOf tried preferred other = .found last) :
    ∃ tried, preferred tried = .found last ∨ other tried = .found last := by
  unfold firstOf at h
  split at h
  · rename_i reached hpreferred
    exact ⟨tried, Or.inl (hpreferred.trans h)⟩
  · rename_i failed hpreferred
    exact ⟨failed, Or.inr h⟩

theorem choose_eq_found {mark : Option Nat} {pos : Nat}
    (h : choose mark pos tried preferred other = .found last) :
    ∃ tried, preferred tried = .found last ∨ other tried = .found last := by
  unfold choose at h
  split at h
  · exact firstOf_eq_found h
  · split at h
    · nomatch h
    · exact firstOf_eq_found h

theorem goOnOrStop_eq_found {greedy : Bool} {mark : Option Nat} {pos : Nat}
    {goOn stop : Tried → Outcome} (h : goOnOrStop greedy mark pos tried goOn stop = .found last) :
    ∃ tried, goOn tried = .found last ∨ stop tried = .found last := by
  unfold goOnOrStop at h
  split at h
  · exact choose_eq_found h
  · obtain ⟨tried, h⟩ := choose_eq_found h
    exact ⟨tried, h.symm⟩

end Outcome

open Outcome

namespace Pattern

theorem repeatMore_accepted {mark : Option Nat} {greedy : Bool}
    {body : Cursor → Tried → Continuation → Outcome} (hbody : GoesAhead text start body)
    {left : Nat} (hcursor : cursor.Within text start)
    (h : repeatMore mark greedy body next left cursor tried = .found last) :
    Accepted text start cursor next last := by
  induction left generalizing cursor tried with
  | zero =>
    obtain ⟨tried, h | h⟩ := choose_eq_found h
    · exact .here hcursor h
    · nomatch h
  | succ left ih =>
    obtain ⟨tried, h | h⟩ := goOnOrStop_eq_found h
    · obtain ⟨reached, tried, hreached, hahead, h⟩ := hbody hcursor h
      dsimp only at h
      split at h
      · exact (ih hreached h).of_accepted hahead
      · nomatch h
    · exact .here hcursor h

theorem repeatExactly_accepted {stride : Nat} {body : Exploration}
    (hbody : ∀ shift, GoesAhead text start (body shift)) {count shift : Nat}
    (hcursor : cursor.Within text start)
    (h : repeatExactly stride body next count shift cursor tried = .found last) :
    Accepted text start cursor next last := by
  induction count generalizing shift cursor tried with
  | zero => exact .here hcursor h
  | succ count ih =>
    obtain ⟨reached, tried, hreached, hahead, h⟩ := hbody shift hcursor h
    exact (ih hreached h).of_accepted hahead

theorem repeatUpTo_accepted {stride : Nat} {mark : Option Nat} {greedy : Bool} {body : Exploration}
    (hbody : ∀ shift, GoesAhead text start (body shift)) {count shift : Nat}
    (hcursor : cursor.Within text start)
    (h : repeatUpTo stride mark greedy body next count shift cursor tried = .found last) :
    Accepted text start cursor next last := by
  induction count generalizing shift cursor tried with
  | zero => exact .here hcursor h
  | succ count ih =>
    obtain ⟨tried, h | h⟩ := goOnOrStop_eq_found h
    · obtain ⟨reached, tried, hreached, hahead, h⟩ := hbody shift hcursor h
      exact (ih hreached h).of_accepted hahead
    · exact .here hcursor h

theorem goesAhead_run (text : Array Char) (start : Nat) (pattern : Pattern) (shift : Nat) :
    GoesAhead text start (pattern.run text shift) := by
  induction pattern generalizing shift with
  | empty =>
    intro cursor tried next last hcursor h
    exact .here hcursor h
  | one accepted =>
    intro cursor tried next last hcursor h
    unfold run at h
    split at h
    · rename_i c hc
      split at h
      · obtain ⟨hpos, -⟩ := Array.getElem?_eq_some_iff.mp hc
        exact .of_accepted (Nat.le_succ _) (.here (hcursor.advance hpos) h)
      · nomatch h
    · nomatch h
  | check assertion =>
    intro cursor tried next last hcursor h
    unfold run at h
    split at h
    · exact .here hcursor h
    · nomatch h
  | seq first second ihFirst ihSecond =>
    intro cursor tried next last hcursor h
    obtain ⟨reached, tried, hreached, hahead, h⟩ := ihFirst shift hcursor h
    exact (ihSecond shift hreached h).of_accepted hahead
  | either mark preferred other ihPreferred ihOther =>
    intro cursor tried next last hcursor h
    obtain ⟨tried, h | h⟩ := choose_eq_found h
    · exact ihPreferred shift hcursor h
    · exact ihOther shift hcursor h
  | more mark greedy body ih =>
    intro cursor tried next last hcursor h
    obtain ⟨reached, tried, hreached, hahead, h⟩ := ih shift hcursor h
    exact (repeatMore_accepted (ih shift) hreached h).of_accepted hahead
  | copies count stride body ih =>
    intro cursor tried next last hcursor h
    exact repeatExactly_accepted ih hcursor h
  | upTo count stride mark greedy body ih =>
    intro cursor tried next last hcursor h
    exact repeatUpTo_accepted ih hcursor h
  | group index body ih =>
    intro cursor tried next last hcursor h
    obtain ⟨reached, tried, hreached, hahead, h⟩ := ih shift hcursor h
    exact ⟨_, tried, hreached.close hcursor.start_le hahead index, hahead, h⟩

end Pattern

/-! ## Matches -/

/-- A match that lies in the text from a place on, with its groups inside. -/
structure Match.Within (text : Array Char) (from_ : Nat) (found : Match) : Prop where
  from_le : from_ ≤ found.start
  le : found.start ≤ found.stop
  le_size : found.stop ≤ text.size
  captures : ∀ capture ∈ found.captures,
    found.start ≤ capture.start ∧ capture.start ≤ capture.stop ∧ capture.stop ≤ found.stop

namespace Pattern

variable {pattern : Pattern} {found : Match}

theorem within_runFrom (hstart : start ≤ text.size)
    (h : pattern.runFrom text start tried = .found last) : last.Within text start := by
  have hinitial : Cursor.Within text start ⟨start, []⟩ := ⟨Nat.le_refl _, hstart, nofun⟩
  obtain ⟨reached, tried, hreached, -, h⟩ := goesAhead_run text start pattern 0 hinitial h
  cases h
  exact hreached

theorem within_findWithin {places : Nat} (hplaces : start + places ≤ text.size + 1)
    (h : findWithin text pattern places start tried = some found) : found.Within text start := by
  induction places generalizing start tried with
  | zero => nomatch h
  | succ places ih =>
    unfold findWithin at h
    split at h
    · rename_i reached hreached
      cases h
      have hwithin := within_runFrom (by omega) hreached
      exact ⟨Nat.le_refl _, hwithin.start_le, hwithin.le_size, hwithin.captures⟩
    · have hwithin := ih (by omega) h
      exact ⟨Nat.le_of_succ_le hwithin.from_le, hwithin.le, hwithin.le_size, hwithin.captures⟩

/-- A match lies in the text, from where it was looked for on. -/
theorem within_find? (hstart : start ≤ text.size) (h : pattern.find? text start = some found) :
    found.Within text start :=
  within_findWithin (by omega) h

end Pattern

/-- A group lies inside the match. -/
theorem Match.Within.group? {found : Match} (h : found.Within text start) {index : Nat}
    {taken : Nat × Nat} (htaken : found.group? index = some taken) :
    found.start ≤ taken.1 ∧ taken.1 ≤ taken.2 ∧ taken.2 ≤ found.stop := by
  unfold Match.group? at htaken
  split at htaken
  · cases htaken
    exact ⟨Nat.le_refl _, h.le, Nat.le_refl _⟩
  · obtain ⟨capture, hcapture, rfl⟩ := Option.map_eq_some_iff.mp htaken
    exact h.captures capture (List.mem_of_find?_eq_some hcapture)

end CodeEditor
