import CodeEditor.Pattern.Reader.Basic

/-!
# Escapes

What a backslash and the characters behind it stand for: a character, a class or an assertion.
-/

namespace CodeEditor.Expression

inductive Escaped where
  | literal (c : Char)
  | accepted (accepted : CharClass)
  | assertion (assertion : Assertion)

namespace Reader

def characterOf (digits : List Char) : Reader Char :=
  let code := numberOf 16 digits
  if code.isValidChar then return Char.ofNat code else throw .badEscape

/-- A character given by its code, in braces or with so many digits. -/
def hexadecimal (count : Nat) : Reader Char := do
  if ← skipIf ['\x7b'] then
    let digits ← takeWhile isHexDigit
    expect '\x7d' .badEscape
    if digits.isEmpty then throw .badEscape
    characterOf digits
  else
    let reading ← get
    let digits := reading.rest.take count
    if digits.length < count || !digits.all isHexDigit then throw .badEscape
    set { reading with rest := reading.rest.drop count }
    characterOf digits

/-- The names of the assertions that are written in braces behind a word boundary. -/
def boundaryNames : List (String × Assertion) :=
  [("start", .wordStart), ("end", .wordEnd), ("start-half", .notAfterWord),
    ("end-half", .notBeforeWord)]

def isBoundaryName (c : Char) : Bool := c.isAlpha || c == '-'

/-- What follows the letter of a word boundary. Braces with anything but a name in them are the
bounds of a repetition. -/
def boundary : Reader Assertion := do
  match (← get).rest with
  | '\x7b' :: c :: _ =>
    if !isBoundaryName c then return .wordBoundary
    skip
    let name := String.ofList (← takeWhile isBoundaryName)
    expect '\x7d' .badEscape
    match boundaryNames.lookup name with
    | some assertion => return assertion
    | none => throw .badEscape
  | ['\x7b'] => throw .badEscape
  | _ => return .wordBoundary

/-- What follows a backslash. Letters and digits that mean nothing are refused, so is every
character outside ASCII. -/
def escaped : Reader Escaped := do
  match ← peek with
  | none => throw .badEscape
  | some c =>
    skip
    match c with
    | 'd' => return .accepted .digit
    | 'D' => return .accepted (.except .digit)
    | 's' => return .accepted .space
    | 'S' => return .accepted (.except .space)
    | 'w' => return .accepted .word
    | 'W' => return .accepted (.except .word)
    | 'b' => return .assertion (← boundary)
    | 'B' => return .assertion .notWordBoundary
    | '<' => return .assertion .wordStart
    | '>' => return .assertion .wordEnd
    | 'A' => return .assertion .textStart
    | 'z' => return .assertion .textEnd
    | 'a' => return .literal '\x07'
    | 'f' => return .literal '\x0c'
    | 't' => return .literal '\t'
    | 'n' => return .literal '\n'
    | 'r' => return .literal '\r'
    | 'v' => return .literal '\x0b'
    | 'x' => return .literal (← hexadecimal 2)
    | 'u' => return .literal (← hexadecimal 4)
    | 'U' => return .literal (← hexadecimal 8)
    | c =>
      if c.isDigit then throw .badReference
      else if c.toNat < 0x80 && !c.isAlpha then return .literal c
      else throw .badEscape

end Reader

end CodeEditor.Expression
