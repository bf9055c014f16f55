import CodeEditor.Pattern.Footprint
import CodeEditor.Pattern.Reader.Class

/-!
# Reading written patterns

The written form of patterns: literals and escapes, the dot, classes between brackets, groups,
alternatives, repetitions with their lazy forms, assertions, and the flags that let the dot
accept newlines, give line meaning to the caret and the dollar, or swap greed. Look-around and
references to groups are refused, as are patterns that are nested too deep or whose automata
would grow too large.
-/

namespace CodeEditor

namespace Expression

/-- Expressions may not be nested deeper than this. -/
def nestingLimit : Nat := 250

def repetitionLimit : Nat := UInt32.size

namespace Reader

/-! ## Repetitions -/

/-- A count, which may stand between white space. -/
def count : Reader Nat := do
  let _ ← takeWhile Unicode.isSpace
  let digits ← takeWhile Char.isDigit
  let _ ← takeWhile Unicode.isSpace
  if digits.isEmpty || repetitionLimit ≤ numberOf 10 digits then throw .badRepetition
  return numberOf 10 digits

/-- The bounds between braces, the opening one read. -/
def bounds : Reader (Nat × Option Nat) := do
  let least ← count
  let most ←
    if ← skipIf [','] then
      if (← peek) = some '\x7d' then pure none else some <$> count
    else
      pure (some least)
  expect '\x7d' .badRepetition
  if most.any (· < least) then throw .badRepetition
  return (least, most)

/-- An item of a sequence. Where flags were set an item says nothing. -/
abbrev Item := Nested (Option Expression)

/-- Repeats the item read last. -/
def repeatLast (items : List Item) (least : Nat) (most : Option Nat) : Reader (List Item) := do
  match items with
  | ⟨some body, depth⟩ :: items =>
    let isLazy ← skipIf ['?']
    let greedy := isLazy == (← get).flags.swapGreed
    return ⟨some (.repeated least most greedy body), depth + 1⟩ :: items
  | _ => throw .nothingToRepeat

/-! ## Groups -/

/-- Sets the flags named up to a colon or a closing parenthesis. -/
def flags : (fuel : Nat) → (value : Bool) → (seen : List Char) → Flags → Reader Flags
  | 0, _, _, _ => throw .badFlags
  | fuel + 1, value, seen, current => do
    match ← peek with
    | none => throw .badFlags
    | some c =>
      if c = ':' || c = ')' then
        if seen.head? = some '-' then throw .badFlags else return current
      else if seen.contains c then throw .badFlags
      else
        skip
        match c with
        | '-' => flags fuel false (c :: seen) current
        | 's' => flags fuel value (c :: seen) { current with dotAll := value }
        | 'm' => flags fuel value (c :: seen) { current with multiLine := value }
        | 'U' => flags fuel value (c :: seen) { current with swapGreed := value }
        | 'u' => if value then flags fuel value (c :: seen) current else throw .badFlags
        | _ => throw .badFlags

def isNameStart (c : Char) : Bool := c.isAlpha || c == '_'

def isNameRest (c : Char) : Bool :=
  c.isAlphanum || c == '_' || c == '.' || c == '[' || c == ']'

/-- The name of a group, the opening angle read. -/
def groupName : Reader Unit := do
  let name ← takeWhile isNameRest
  expect '>' .badGroupName
  if !(name.head?.any isNameStart) || (← get).names.contains name then throw .badGroupName
  modify fun reading ↦ { reading with names := name :: reading.names }

/-- What an opening parenthesis opens. -/
inductive Opening where
  | capturing (index : Nat)
  | plain (inside : Flags)
  | flagsOnly

def openGroup : Reader Opening := do
  let capture : Reader Opening := do
    modify fun reading ↦ { reading with groups := reading.groups + 1 }
    return .capturing (← get).groups
  let reading ← get
  match reading.rest with
  | '?' :: '=' :: _ | '?' :: '!' :: _ => throw .lookAround
  | '?' :: '<' :: '=' :: _ | '?' :: '<' :: '!' :: _ => throw .lookAround
  | '?' :: 'P' :: '<' :: rest =>
    set { reading with rest := rest }
    groupName
    capture
  | '?' :: '<' :: rest =>
    set { reading with rest := rest }
    groupName
    capture
  | '?' :: rest =>
    set { reading with rest := rest }
    let inside ← flags (rest.length + 1) true [] reading.flags
    if ← skipIf [':'] then
      return .plain inside
    else
      skip
      if rest.head? = some ')' then throw .nothingToRepeat
      modify fun reading ↦ { reading with flags := inside }
      return .flagsOnly
  | _ => capture

/-! ## Expressions -/

/-- The sequence of items, the latest first. -/
def sequenceOf (items : List Item) : Nested Expression :=
  { value := match items.reverse.filterMap (·.value) with
      | [e] => e
      | parts => series parts
    depth := Nested.depthOf items }

/-- The expression of the branches and items read so far, both with the latest first. -/
def alternatives (branches : List (Nested Expression)) (items : List Item) : Nested Expression :=
  match branches with
  | [] => sequenceOf items
  | branches =>
    let branches := sequenceOf items :: branches
    { value := anyOf (branches.reverse.map (·.value)), depth := Nested.depthOf branches }

def caret : Reader Expression := do
  return .check (if (← get).flags.multiLine then .lineStart else .textStart)

def dollar : Reader Expression := do
  return .check (if (← get).flags.multiLine then .lineEnd else .textEnd)

def dot : Reader Expression := do
  return .one (if (← get).flags.dotAll then .any else .notNewline)

/-- Reads alternatives up to a closing parenthesis or the end. Each step takes a character, so
the length of the text is fuel enough. -/
def expression : (fuel : Nat) → List (Nested Expression) → List Item → Reader (Nested Expression)
  | 0, branches, items => return alternatives branches items
  | fuel + 1, branches, items => do
    let item (e : Expression) := expression fuel branches (⟨some e, 0⟩ :: items)
    match ← peek with
    | none => return alternatives branches items
    | some ')' => return alternatives branches items
    | some c =>
      skip
      match c with
      | '|' => expression fuel (sequenceOf items :: branches) []
      | '(' =>
        let outside := (← get).flags
        match ← openGroup with
        | .flagsOnly => expression fuel branches (⟨none, 0⟩ :: items)
        | .capturing index =>
          let body ← expression fuel [] []
          expect ')' .unclosedGroup
          modify fun reading ↦ { reading with flags := outside }
          expression fuel branches (⟨some (.group index body.value), body.depth + 1⟩ :: items)
        | .plain inside =>
          modify fun reading ↦ { reading with flags := inside }
          let body ← expression fuel [] []
          expect ')' .unclosedGroup
          modify fun reading ↦ { reading with flags := outside }
          expression fuel branches (⟨some body.value, body.depth + 1⟩ :: items)
      | '[' =>
        let accepted ← classMembers.open_ fuel
        expression fuel branches (⟨some (.one accepted.value), accepted.depth⟩ :: items)
      | '?' => expression fuel branches (← repeatLast items 0 (some 1))
      | '*' => expression fuel branches (← repeatLast items 0 none)
      | '+' => expression fuel branches (← repeatLast items 1 none)
      | '\x7b' =>
        if items.isEmpty then throw .nothingToRepeat
        let (least, most) ← bounds
        expression fuel branches (← repeatLast items least most)
      | '^' => item (← caret)
      | '$' => item (← dollar)
      | '.' => item (← dot)
      | '\\' =>
        match ← escaped with
        | .literal c => item (.one (.single c))
        | .accepted accepted => item (.one accepted)
        | .assertion assertion => item (.check assertion)
      | c => item (.one (.single c))

end Reader

/-- The expression that a text writes. -/
def read (text : String) : Except PatternError Expression := do
  let chars := text.toList
  let (expression, reading) ←
    (Reader.expression (chars.length + 1) [] []).run { rest := chars }
  if !reading.rest.isEmpty then throw .unopenedGroup
  if nestingLimit < expression.depth then throw .tooDeep
  if !Footprint.fits expression.value then throw .tooLarge
  return expression.value

end Expression

/-- The pattern that a text writes. -/
def Pattern.read (text : String) : Except PatternError Pattern :=
  Expression.toPattern <$> Expression.read text

end CodeEditor
