import CodeEditor.Json.Value

/-!
# Reading JSON

A text is cut into tokens, and the tokens are put together by a machine with a stack of the arrays
and objects that are still open. Nothing is tolerated beyond the grammar: no comments, no trailing
commas, no leading zeros, no raw control characters in strings, and nothing but white space
behind the value.
-/

namespace CodeEditor

namespace JsonToken

/-! ## Tokens -/

def isBlank (c : Char) : Bool := c == ' ' || c == '\n' || c == '\t' || c == '\r'

def hexDigit? (c : Char) : Option Nat :=
  if c.isDigit then some (c.toNat - '0'.toNat)
  else if 'a' ≤ c ∧ c ≤ 'f' then some (c.toNat - 'a'.toNat + 10)
  else if 'A' ≤ c ∧ c ≤ 'F' then some (c.toNat - 'A'.toNat + 10)
  else none

def hexCode? (a b c d : Char) : Option Nat := do
  return (((← hexDigit? a) * 16 + (← hexDigit? b)) * 16 + (← hexDigit? c)) * 16 + (← hexDigit? d)

def isHighSurrogate (code : Nat) : Bool := 0xd800 ≤ code && code < 0xdc00

def isLowSurrogate (code : Nat) : Bool := 0xdc00 ≤ code && code < 0xe000

/-- What a backslash before this character stands for. -/
def simpleEscape? : Char → Option Char
  | '"' => some '"'
  | '\\' => some '\\'
  | '/' => some '/'
  | 'b' => some '\x08'
  | 'f' => some '\x0c'
  | 'n' => some '\n'
  | 'r' => some '\r'
  | 't' => some '\t'
  | _ => none

/-- What one place of a written string stands for: a character, or half of a surrogate pair. -/
inductive StringUnit where
  | char (c : Char)
  | half (code : Nat)
  deriving DecidableEq, Repr

def StringUnit.ofCode (code : Nat) : StringUnit :=
  if isHighSurrogate code || isLowSurrogate code then half code else char (Char.ofNat code)

/-- The characters of a string, if every half of a pair is next to its other half. -/
def joinHalves : List StringUnit → Option (List Char)
  | [] => some []
  | .char c :: rest => (c :: ·) <$> joinHalves rest
  | .half high :: .half low :: rest =>
    if isHighSurrogate high && isLowSurrogate low then
      (Char.ofNat (0x10000 + (high - 0xd800) * 0x400 + (low - 0xdc00)) :: ·) <$> joinHalves rest
    else none
  | .half _ :: _ => none

/-- Reads the rest of a string behind its opening quote. What was read so far comes with the
latest first. -/
def string? (read : List StringUnit) : List Char → Option (List StringUnit × List Char)
  | [] => none
  | '"' :: rest => some (read.reverse, rest)
  | '\\' :: 'u' :: a :: b :: c :: d :: rest =>
    match hexCode? a b c d with
    | some code => string? (.ofCode code :: read) rest
    | none => none
  | '\\' :: c :: rest =>
    match simpleEscape? c with
    | some c => string? (.char c :: read) rest
    | none => none
  | c :: rest => if c.toNat < 0x20 || c == '\\' then none else string? (.char c :: read) rest

def digits (chars : List Char) : List Nat × List Char :=
  ((chars.takeWhile Char.isDigit).map fun c ↦ c.toNat - '0'.toNat, chars.dropWhile Char.isDigit)

/-- One digit or more. -/
def digits? (chars : List Char) : Option (List Nat × List Char) :=
  let (read, rest) := digits chars
  if read.isEmpty then none else some (read, rest)

/-- The digits before the point, of which a zero stands alone. -/
def whole? (chars : List Char) : Option (List Nat × List Char) := do
  let (read, rest) ← digits? chars
  if read.head? = some 0 && 1 < read.length then none else some (read, rest)

def fraction? : List Char → Option (Option (List Nat) × List Char)
  | '.' :: rest => (digits? rest).map fun (read, rest) ↦ (some read, rest)
  | chars => some (none, chars)

def sign : List Char → Bool × List Char
  | '-' :: rest => (true, rest)
  | '+' :: rest => (false, rest)
  | chars => (false, chars)

def exponent? : List Char → Option (Option (Bool × List Nat) × List Char)
  | 'e' :: rest | 'E' :: rest =>
    let (negative, rest) := sign rest
    (digits? rest).map fun (read, rest) ↦ (some (negative, read), rest)
  | chars => some (none, chars)

def numeral? (chars : List Char) : Option (Numeral × List Char) := do
  let (negative, chars) := match chars with
    | '-' :: rest => (true, rest)
    | chars => (false, chars)
  let (whole, chars) ← whole? chars
  let (fraction, chars) ← fraction? chars
  let (exponent, chars) ← exponent? chars
  return (⟨negative, whole, fraction, exponent⟩, chars)

/-- The token that a text begins with. -/
def next? : List Char → Option (JsonToken × List Char)
  | '\x7b' :: rest => some (openBrace, rest)
  | '\x7d' :: rest => some (closeBrace, rest)
  | '[' :: rest => some (openBracket, rest)
  | ']' :: rest => some (closeBracket, rest)
  | ':' :: rest => some (colon, rest)
  | ',' :: rest => some (comma, rest)
  | '"' :: rest =>
    (string? [] rest).map fun (units, rest) ↦ (string ((joinHalves units).map String.ofList), rest)
  | 'n' :: 'u' :: 'l' :: 'l' :: rest => some (null, rest)
  | 't' :: 'r' :: 'u' :: 'e' :: rest => some (bool true, rest)
  | 'f' :: 'a' :: 'l' :: 's' :: 'e' :: rest => some (bool false, rest)
  | chars => (numeral? chars).map fun (numeral, rest) ↦ (number numeral, rest)

/-- Every token takes a character, so the length of the text is fuel enough. -/
def readAll : (fuel : Nat) → List JsonToken → List Char → Option (List JsonToken)
  | 0, _, _ => none
  | fuel + 1, read, chars =>
    match chars.dropWhile isBlank with
    | [] => some read.reverse
    | chars =>
      match next? chars with
      | none => none
      | some (token, rest) => readAll fuel (token :: read) rest

end JsonToken

/-! ## Values -/

namespace JsonValue

/-- An open array or object, with what it holds so far, the latest first. An object waits for the
value of its last key. -/
inductive Frame where
  | array (items : List JsonValue)
  | object (members : List (JsonText × JsonValue)) (key : JsonText)

/-- What may come next, inside the frames that are open. -/
inductive Machine where
  | value (open_ : List Frame)
  | firstItem (open_ : List Frame)
  | firstKey (open_ : List Frame)
  | key (members : List (JsonText × JsonValue)) (open_ : List Frame)
  | colon (members : List (JsonText × JsonValue)) (key : JsonText) (open_ : List Frame)
  | done (value : JsonValue) (open_ : List Frame)

namespace Machine

def beginValue (open_ : List Frame) : JsonToken → Option Machine
  | .null => some (done .null open_)
  | .bool b => some (done (.bool b) open_)
  | .number numeral => some (done (.number numeral) open_)
  | .string text => some (done (.string text) open_)
  | .openBracket => some (firstItem open_)
  | .openBrace => some (firstKey open_)
  | _ => none

def step : Machine → JsonToken → Option Machine
  | value open_, token => beginValue open_ token
  | firstItem open_, .closeBracket => some (done (.array []) open_)
  | firstItem open_, token => beginValue (.array [] :: open_) token
  | firstKey open_, .closeBrace => some (done (.object []) open_)
  | firstKey open_, .string text => some (colon [] text open_)
  | firstKey _, _ => none
  | key members open_, .string text => some (colon members text open_)
  | key _ _, _ => none
  | colon members text open_, .colon => some (value (.object members text :: open_))
  | colon _ _ _, _ => none
  | done item (.array items :: open_), .comma => some (value (.array (item :: items) :: open_))
  | done item (.array items :: open_), .closeBracket =>
    some (done (.array (item :: items).reverse) open_)
  | done item (.object members text :: open_), .comma =>
    some (key ((text, item) :: members) open_)
  | done item (.object members text :: open_), .closeBrace =>
    some (done (.object ((text, item) :: members).reverse) open_)
  | done _ _, _ => none

end Machine

def ofTokens? (tokens : List JsonToken) : Option JsonValue :=
  match tokens.foldlM Machine.step (.value []) with
  | some (.done value []) => some value
  | _ => none

/-- The value that a text writes. -/
def read? (text : String) : Option JsonValue := do
  let chars := text.toList
  ofTokens? (← JsonToken.readAll (chars.length + 1) [] chars)

end JsonValue

end CodeEditor
