import CodeEditor.Pattern.Expression

/-!
# Reading written patterns step by step

The reader of written patterns carries the unread characters, the groups opened so far and the
flags in force, and stops at the first fault.
-/

namespace CodeEditor

/-- Why a text is not the written form of a pattern. -/
inductive PatternError where
  | unclosedGroup
  | unopenedGroup
  | badGroupName
  | lookAround
  | badFlags
  | nothingToRepeat
  | badRepetition
  | badEscape
  | badReference
  | unclosedClass
  | badRange
  | tooDeep
  | tooLarge
  deriving DecidableEq, Repr

namespace Expression

/-- What flags change in the meaning of what follows them. -/
structure Flags where
  dotAll : Bool := false
  multiLine : Bool := false
  swapGreed : Bool := false
  deriving DecidableEq, Repr

/-- The unread characters, the groups opened so far and the flags in force. -/
structure Reading where
  rest : List Char
  groups : Nat := 0
  names : List (List Char) := []
  flags : Flags := {}

abbrev Reader := StateT Reading (Except PatternError)

/-- What was read, and how many levels of brackets, repetitions, sequences and choices its
deepest part lies inside. -/
structure Nested (α : Type) where
  value : α
  depth : Nat := 0

namespace Nested

/-- The depth of what holds the given parts, at one level more if they are several. -/
def depthOf {α : Type} (parts : List (Nested α)) : Nat :=
  let deepest := parts.foldl (fun depth part ↦ max depth part.depth) 0
  if parts.length < 2 then deepest else deepest + 1

end Nested

namespace Reader

def peek : Reader (Option Char) := do
  return (← get).rest.head?

def skip : Reader Unit := modify fun reading ↦ { reading with rest := reading.rest.drop 1 }

/-- Skips the text if it comes next, and tells whether it did. -/
def skipIf (text : List Char) : Reader Bool := do
  let reading ← get
  if text.isPrefixOf reading.rest then
    set { reading with rest := reading.rest.drop text.length }
    return true
  else
    return false

def takeWhile (accepted : Char → Bool) : Reader (List Char) := do
  let reading ← get
  set { reading with rest := reading.rest.dropWhile accepted }
  return reading.rest.takeWhile accepted

def expect (c : Char) (error : PatternError) : Reader Unit := do
  if !(← skipIf [c]) then throw error

def digitValue (c : Char) : Nat :=
  if c.isDigit then c.toNat - '0'.toNat
  else if 'a' ≤ c && c ≤ 'f' then c.toNat - 'a'.toNat + 10
  else c.toNat - 'A'.toNat + 10

def isHexDigit (c : Char) : Bool :=
  c.isDigit || ('a' ≤ c && c ≤ 'f') || ('A' ≤ c && c ≤ 'F')

def numberOf (base : Nat) (digits : List Char) : Nat :=
  digits.foldl (fun value c ↦ value * base + digitValue c) 0

end Reader

end Expression

end CodeEditor
