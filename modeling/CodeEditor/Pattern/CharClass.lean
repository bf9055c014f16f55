import CodeEditor.Unicode.Space
import CodeEditor.Unicode.Word

/-!
# Character classes

The sets of characters that one place of a pattern accepts: `CharClass.contains` decides
membership, and `CharClass.ranges` lists the members.
-/

namespace CodeEditor

/-- A set of characters, described by ranges, Unicode classes and their combinations. -/
inductive CharClass where
  | any
  | nothing
  | range (first last : Char)
  | word
  | digit
  | space
  | either (a b : CharClass)
  | both (a b : CharClass)
  | except (a : CharClass)
  deriving DecidableEq, Repr

namespace CharClass

def contains : CharClass → Char → Bool
  | any, _ => true
  | nothing, _ => false
  | range first last, c => first.val ≤ c.val && c.val ≤ last.val
  | word, c => Unicode.isWord c
  | digit, c => Unicode.isDigit c
  | space, c => Unicode.isSpace c
  | either a b, c => a.contains c || b.contains c
  | both a b, c => a.contains c && b.contains c
  | except a, c => !a.contains c

def single (c : Char) : CharClass := range c c

def union (classes : List CharClass) : CharClass := classes.foldr either nothing

def ofChars (chars : List Char) : CharClass := union (chars.map single)

/-- Every character outside the class given by its members. -/
def noneOf (chars : List Char) : CharClass := except (ofChars chars)

def minus (a b : CharClass) : CharClass := both a (except b)

/-- The characters in one of two classes but not in both. -/
def inOneOf (a b : CharClass) : CharClass := either (minus a b) (minus b a)

/-- What a dot accepts unless it is told to accept everything. -/
def notNewline : CharClass := except (single '\n')

/-! ## The members as ranges -/

open Unicode in
/-- Ranges that cover the members, in no order. -/
def covering : CharClass → Ranges
  | any => [(0, Ranges.lastCharacter)]
  | nothing => []
  | range first last => if first ≤ last then [(first.toNat, last.toNat)] else []
  | word => wordRanges.toList
  | digit => digitRanges.toList
  | space => spaceRanges
  | either a b => a.covering ++ b.covering
  | both a b =>
    Ranges.complement <| Ranges.merged <|
      Ranges.complement a.covering.merged ++ Ranges.complement b.covering.merged
  | except a => Ranges.complement a.covering.merged

/-- The members as ascending ranges that neither overlap nor touch. -/
def ranges (accepted : CharClass) : Unicode.Ranges := accepted.covering.merged

/-- What lies outside a class between brackets. Where ranges of the class end before the
surrogates and begin after them, the empty gap in between counts with the two characters at its
sides. -/
def outside (inside : CharClass) : CharClass :=
  let ranges := inside.ranges
  if ranges.any (·.2 == Unicode.Ranges.firstSurrogate - 1) &&
      ranges.any (·.1 == Unicode.Ranges.lastSurrogate + 1) then
    either (except inside) (ofChars ['\ud7ff', '\ue000'])
  else except inside

@[simp] theorem contains_single (a c : Char) : (single a).contains c = decide (a = c) := by
  rw [Bool.eq_iff_iff]
  simp only [single, contains, Bool.and_eq_true, decide_eq_true_eq]
  constructor
  · rintro ⟨h₁, h₂⟩
    exact Char.ext (UInt32.le_antisymm h₁ h₂)
  · rintro rfl
    exact ⟨UInt32.le_refl _, UInt32.le_refl _⟩

@[simp] theorem contains_union (classes : List CharClass) (c : Char) :
    (union classes).contains c = classes.any (·.contains c) := by
  induction classes with
  | nil => rfl
  | cons a rest ih =>
    rw [List.any_cons, ← ih]
    rfl

end CharClass

end CodeEditor
