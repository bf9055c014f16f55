import CodeEditor.Pattern.Reader.Escape

/-!
# Classes between brackets

The members of a class are characters, ranges, escapes and classes between brackets of their own.
Members that follow each other are joined. Operators between such groups of members keep what both
sides have, what only the left side has, or what only one of them has; they bind equally strong
and group to the left.
-/

namespace CodeEditor.Expression.Reader

/-! ## Members -/

/-- One character or class between brackets. -/
def classItem : Reader (Char ⊕ CharClass) := do
  match ← peek with
  | none => throw .unclosedClass
  | some '\\' =>
    skip
    match ← escaped with
    | .literal c => return .inl c
    | .accepted accepted => return .inr accepted
    | .assertion _ => throw .badEscape
  | some c =>
    skip
    return .inl c

/-- An item or a range. A hyphen before the closing bracket or before another hyphen makes no
range. -/
def classRange : Reader CharClass := do
  let first ← classItem
  match (← get).rest with
  | '-' :: c :: _ =>
    if c = ']' || c = '-' then
      return first.elim .single id
    else
      skip
      match first, ← classItem with
      | .inl low, .inl high => if low ≤ high then return .range low high else throw .badRange
      | _, _ => throw .badRange
  | ['-'] => throw .unclosedClass
  | _ => return first.elim .single id

open CharClass in
/-- The classes of ASCII characters that are written with a name between colons. -/
def classNames : List (String × CharClass) :=
  let digits := range '0' '9'
  let lower := range 'a' 'z'
  let upper := range 'A' 'Z'
  [("alnum", union [digits, upper, lower]),
    ("alpha", union [upper, lower]),
    ("ascii", range '\x00' '\x7f'),
    ("blank", ofChars ['\t', ' ']),
    ("cntrl", union [range '\x00' '\x1f', single '\x7f']),
    ("digit", digits),
    ("graph", range '!' '~'),
    ("lower", lower),
    ("print", range ' ' '~'),
    ("punct", union [range '!' '/', range ':' '@', range '[' '\x60', range '\x7b' '~']),
    ("space", union [range '\t' '\r', single ' ']),
    ("upper", upper),
    ("word", union [digits, upper, single '_', lower]),
    ("xdigit", union [digits, range 'A' 'F', range 'a' 'f'])]

/-- A class with a name, the opening bracket read. Nothing is read if there is no such class. -/
def namedClass? : Reader (Option CharClass) := do
  let reading ← get
  match reading.rest with
  | ':' :: rest =>
    let (negated, rest) := match rest with
      | '^' :: rest => (true, rest)
      | rest => (false, rest)
    match rest.dropWhile (· != ':'), classNames.lookup (.ofList (rest.takeWhile (· != ':'))) with
    | ':' :: ']' :: rest, some accepted =>
      set { reading with rest }
      return some (if negated then .except accepted else accepted)
    | _, _ => return none
  | _ => return none

/-! ## Operators -/

inductive ClassOperator where
  | both
  | minus
  | inOneOf
  deriving DecidableEq, Repr

def ClassOperator.apply : ClassOperator → CharClass → CharClass → CharClass
  | both => .both
  | minus => .minus
  | inOneOf => .inOneOf

/-- Skips an operator if one comes next. -/
def classOperator? : Reader (Option ClassOperator) := do
  if ← skipIf ['&', '&'] then return some .both
  else if ← skipIf ['-', '-'] then return some .minus
  else if ← skipIf ['~', '~'] then return some .inOneOf
  else return none

/-- The class that members make, the latest first. -/
def joined (members : List (Nested CharClass)) : Nested CharClass :=
  match members with
  | [member] => member
  | members =>
    { value := .union (members.reverse.map (·.value)), depth := Nested.depthOf members }

/-- Applies the operator that waits for its right side. -/
def applyWaiting (waiting : Option (ClassOperator × Nested CharClass))
    (right : Nested CharClass) : Nested CharClass :=
  match waiting with
  | none => right
  | some (operator, left) =>
    { value := operator.apply left.value right.value, depth := max left.depth right.depth + 1 }

/-! ## Classes -/

/-- The members of a class up to its closing bracket, and the class they make. -/
def classMembers (negated : Bool) : (fuel : Nat) →
    (waiting : Option (ClassOperator × Nested CharClass)) → (members : List (Nested CharClass)) →
    Reader (Nested CharClass)
  | 0, _, _ => throw .unclosedClass
  | fuel + 1, waiting, members => do
    match ← peek with
    | none => throw .unclosedClass
    | some ']' =>
      skip
      let inside := applyWaiting waiting (joined members)
      return {
        value := if negated then inside.value.outside else inside.value
        depth := inside.depth + 1 }
    | some '[' =>
      skip
      let member ← match ← namedClass? with
        | some accepted => pure { value := accepted }
        | none => open_ fuel
      classMembers negated fuel waiting (member :: members)
    | some _ =>
      match ← classOperator? with
      | some operator =>
        classMembers negated fuel (some (operator, applyWaiting waiting (joined members))) []
      | none =>
        let member ← classRange
        classMembers negated fuel waiting ({ value := member } :: members)
where
  /-- What follows an opening bracket: a caret, hyphens and a first closing bracket. -/
  open_ : (fuel : Nat) → Reader (Nested CharClass)
  | 0 => throw .unclosedClass
  | fuel + 1 => do
    let negated ← skipIf ['^']
    let hyphens ← takeWhile (· == '-')
    let bracket ← if hyphens.isEmpty then skipIf [']'] else pure false
    classMembers negated fuel none
      (((if bracket then [']'] else []) ++ hyphens).map fun c ↦ { value := .single c })

end CodeEditor.Expression.Reader
