/-!
# JSON values

Numbers keep their digits and are only evaluated when they are asked for. A string whose escapes
do not make a text, because they name half of a surrogate pair, is kept as no text; such a string
may stand where nobody reads it.
-/

namespace CodeEditor

/-- A number as it is written. The exponent comes with whether it is negative. -/
structure Numeral where
  negative : Bool := false
  whole : List Nat
  fraction : Option (List Nat) := none
  exponent : Option (Bool × List Nat) := none
  deriving DecidableEq, Repr

/-- What a written string stands for, if its escapes make a text. -/
abbrev JsonText := Option String

inductive JsonValue where
  | null
  | bool (value : Bool)
  | number (numeral : Numeral)
  | string (text : JsonText)
  | array (items : List JsonValue)
  | object (members : List (JsonText × JsonValue))
  deriving Repr

inductive JsonToken where
  | openBrace
  | closeBrace
  | openBracket
  | closeBracket
  | colon
  | comma
  | null
  | bool (value : Bool)
  | number (numeral : Numeral)
  | string (text : JsonText)
  deriving DecidableEq, Repr

namespace JsonValue

def text (text : String) : JsonValue := string (some text)

mutual

/-- The tokens of a value in the order in which it is written. -/
def tokens : JsonValue → List JsonToken
  | null => [.null]
  | bool value => [.bool value]
  | number numeral => [.number numeral]
  | string text => [.string text]
  | array [] => [.openBracket, .closeBracket]
  | array (item :: items) => .openBracket :: item.tokens ++ itemTokens items ++ [.closeBracket]
  | object [] => [.openBrace, .closeBrace]
  | object ((key, value) :: members) =>
    .openBrace :: .string key :: .colon :: value.tokens ++ memberTokens members ++ [.closeBrace]

def itemTokens : List JsonValue → List JsonToken
  | [] => []
  | item :: items => .comma :: item.tokens ++ itemTokens items

def memberTokens : List (JsonText × JsonValue) → List JsonToken
  | [] => []
  | (key, value) :: members =>
    .comma :: .string key :: .colon :: value.tokens ++ memberTokens members

end

end JsonValue

end CodeEditor
