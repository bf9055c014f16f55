import CodeEditor.Json.Value

/-!
# Writing JSON

Values are written without white space. A string escapes quotes, backslashes and control
characters and leaves every other character as it is.
-/

namespace CodeEditor

namespace JsonToken

def hexDigit (n : Nat) : Char := Nat.digitChar n

def escape (c : Char) : List Char :=
  match c with
  | '"' => ['\\', '"']
  | '\\' => ['\\', '\\']
  | '\x08' => ['\\', 'b']
  | '\x0c' => ['\\', 'f']
  | '\n' => ['\\', 'n']
  | '\r' => ['\\', 'r']
  | '\t' => ['\\', 't']
  | c =>
    if c.toNat < 0x20 then
      ['\\', 'u', '0', '0', hexDigit (c.toNat / 16), hexDigit (c.toNat % 16)]
    else [c]

/-- No text is written as half of a surrogate pair. -/
def writeText : JsonText → List Char
  | some text => '"' :: text.toList.flatMap escape ++ ['"']
  | none => "\"\\ud800\"".toList

def writeDigits (digits : List Nat) : List Char := digits.map Nat.digitChar

def writeNumeral (numeral : Numeral) : List Char :=
  let sign := if numeral.negative then ['-'] else []
  let fraction := match numeral.fraction with
    | some digits => '.' :: writeDigits digits
    | none => []
  let exponent := match numeral.exponent with
    | some (negative, digits) => 'e' :: (if negative then ['-'] else []) ++ writeDigits digits
    | none => []
  sign ++ writeDigits numeral.whole ++ fraction ++ exponent

def write : JsonToken → List Char
  | openBrace => ['\x7b']
  | closeBrace => ['\x7d']
  | openBracket => ['[']
  | closeBracket => [']']
  | colon => [':']
  | comma => [',']
  | null => "null".toList
  | bool true => "true".toList
  | bool false => "false".toList
  | number numeral => writeNumeral numeral
  | string text => writeText text

end JsonToken

/-- The text of a value. -/
def JsonValue.write (value : JsonValue) : String :=
  String.ofList (value.tokens.flatMap JsonToken.write)

end CodeEditor
