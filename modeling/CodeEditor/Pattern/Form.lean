import CodeEditor.Pattern.Expression

/-!
# Forms

The form of an expression leaves out what does not show in its matches: brackets that only group,
bounds of a repetition that say "once", neighbouring literals that could be one. Expressions are
measured by their forms. A form is a list of parts that follow each other, and
`Form.ofExpression` keeps these rules:

* a literal takes at least one character, and no two literals are neighbours;
* a class has more than one member or none;
* branches are not themselves a choice, they are at least two, and they are neither all single
  characters nor all classes;
* a repetition allows other numbers of rounds than one.
-/

namespace CodeEditor

inductive Part where
  | literal (text : List Char)
  | accepted (ranges : Unicode.Ranges)
  | check (assertion : Assertion)
  | either (branches : List (List Part))
  | group (index : Nat) (body : List Part)
  | repeated (least : Nat) (most : Option Nat) (greedy nullable : Bool) (body : List Part)

abbrev Form := List Part

/-! ## Equality -/

mutual

def Part.same : Part → Part → Bool
  | .literal text, .literal text' => text == text'
  | .accepted ranges, .accepted ranges' => ranges == ranges'
  | .check assertion, .check assertion' => assertion == assertion'
  | .either branches, .either branches' => Form.sameAll branches branches'
  | .group index body, .group index' body' => index == index' && Form.same body body'
  | .repeated least most greedy nullable body, .repeated least' most' greedy' nullable' body' =>
    least == least' && most == most' && greedy == greedy' && nullable == nullable' &&
      Form.same body body'
  | _, _ => false

def Form.same : List Part → List Part → Bool
  | [], [] => true
  | part :: rest, part' :: rest' => part.same part' && Form.same rest rest'
  | _, _ => false

def Form.sameAll : List (List Part) → List (List Part) → Bool
  | [], [] => true
  | branch :: rest, branch' :: rest' => Form.same branch branch' && Form.sameAll rest rest'
  | _, _ => false

end

namespace Form

/-- Puts a part in front of a form. -/
def push : Part → Form → Form
  | .literal text, .literal more :: rest => .literal (text ++ more) :: rest
  | part, rest => part :: rest

/-- One form after the other. -/
def join (first second : Form) : Form := first.foldr push second

/-- The characters in a class. -/
def ofRanges (ranges : Unicode.Ranges) : Form :=
  match ranges with
  | [(first, last)] =>
    if first = last then [.literal [Char.ofNat first]] else [.accepted [(first, last)]]
  | ranges => [.accepted ranges]

/-! ## Choices -/

/-- The branches of branches that are choices themselves. -/
def flatten (branches : List Form) : List Form :=
  branches.flatMap fun branch ↦
    match branch with
    | [.either branches] => branches
    | branch => [branch]

def singleCharacter? : Form → Option (Nat × Nat)
  | [.literal [c]] => some (c.toNat, c.toNat)
  | _ => none

def ranges? : Form → Option Unicode.Ranges
  | [.accepted ranges] => some ranges
  | _ => none

def choice : List Form → Form
  | [] => [.accepted []]
  | [branch] => branch
  | branches => [.either branches]

/-- A choice of branches, as a class if they are all single characters or all classes. -/
def merge (branches : List Form) : Form :=
  let branches := flatten branches
  if branches.length < 2 then choice branches
  else
    match branches.mapM singleCharacter? with
    | some ranges => ofRanges (Unicode.Ranges.merged ranges)
    | none =>
      match branches.mapM ranges? with
      | some classes => ofRanges (Unicode.Ranges.merged classes.flatten)
      | none => choice branches

/-- The parts with which two forms begin alike. -/
def commonFront : Form → Form → Form
  | a :: first, b :: second => if a.same b then a :: commonFront first second else []
  | _, _ => []

/-- A choice of branches. If all of them have several parts, what they begin with alike comes
before the choice. -/
def eitherOf (branches : List Form) : Form :=
  match merge branches with
  | [.either (first :: others)] =>
    let several := (first :: others).all (1 < ·.length)
    let front := if several then others.foldl commonFront first else []
    if front.isEmpty then [.either (first :: others)]
    else join front (merge ((first :: others).map (·.drop front.length)))
  | form => form

/-! ## Repetitions -/

/-- Rounds of a body, of which it is known whether it can match without taking a character. -/
def rounds (bounds : Nat × Option Nat) (greedy nullable : Bool) (body : Form) : Form :=
  match bounds with
  | (0, some 0) => []
  | (1, some 1) => body
  | (least, most) => [.repeated least most greedy nullable body]

mutual

def ofExpression : Expression → Form
  | .one accepted => ofRanges accepted.ranges
  | .check assertion => [.check assertion]
  | .series parts => ofParts parts
  | .anyOf branches => eitherOf (ofBranches branches)
  | .group index body => [.group index (ofExpression body)]
  | .repeated least most greedy body =>
    rounds (body.effectiveBounds least most) greedy body.nullable (ofExpression body)

def ofParts : List Expression → Form
  | [] => []
  | part :: rest => join (ofExpression part) (ofParts rest)

def ofBranches : List Expression → List Form
  | [] => []
  | branch :: rest => ofExpression branch :: ofBranches rest

end

end Form

namespace Expression

mutual

/-- Whether every match begins where the assertion holds. -/
def beginsWith (assertion : Assertion) : Expression → Bool
  | one _ => false
  | check checked => checked == assertion
  | series parts => someBeginsWith assertion parts
  | anyOf branches => allBeginWith assertion branches
  | group _ body => body.beginsWith assertion
  | repeated least _ _ body => 0 < least && body.beginsWith assertion

/-- Whether a part with only such parts before it as take nothing begins so. -/
def someBeginsWith (assertion : Assertion) : List Expression → Bool
  | [] => false
  | part :: rest =>
    part.beginsWith assertion || (part.takesNothing && someBeginsWith assertion rest)

def allBeginWith (assertion : Assertion) : List Expression → Bool
  | [] => true
  | branch :: rest => branch.beginsWith assertion && allBeginWith assertion rest

end

mutual

/-- Whether every match ends where the assertion holds. -/
def endsWith (assertion : Assertion) : Expression → Bool
  | one _ => false
  | check checked => checked == assertion
  | series parts => someEndsWith assertion parts
  | anyOf branches => allEndWith assertion branches
  | group _ body => body.endsWith assertion
  | repeated least _ _ body => 0 < least && body.endsWith assertion

/-- Whether a part with only such parts behind it as take nothing ends so. -/
def someEndsWith (assertion : Assertion) : List Expression → Bool
  | [] => false
  | part :: rest =>
    (part.endsWith assertion && allTakeNothing rest) || someEndsWith assertion rest

def allEndWith (assertion : Assertion) : List Expression → Bool
  | [] => true
  | branch :: rest => branch.endsWith assertion && allEndWith assertion rest

end

end Expression

end CodeEditor
