import CodeEditor.Json.Numeral

/-!
# Decoding JSON values

A record is written as an object of its fields, in any order, or as an array of them in the order
of their declaration. An object may have further members, but none of the record's fields twice;
an array may end early, but not be longer than the record. Which fields may be missing is for the
record to say. A name of a finite type is written as a string or as an object whose only member is
that name with no value.
-/

namespace CodeEditor.JsonValue

def nat? (bound : Nat) : JsonValue → Option Nat
  | number numeral => numeral.natBelow? bound
  | _ => none

def byte? (value : JsonValue) : Option UInt8 := (value.nat? 256).map UInt8.ofNat

/-- A natural number of at most 64 bits. -/
def word? (value : JsonValue) : Option Nat := value.nat? Numeral.wordBound

def single? : JsonValue → Option Float32
  | number numeral => numeral.single?
  | _ => none

def bool? : JsonValue → Option Bool
  | bool value => some value
  | _ => none

def text? : JsonValue → Option String
  | string text => text
  | _ => none

def list? (decode : JsonValue → Option α) : JsonValue → Option (List α)
  | array items => items.mapM decode
  | _ => none

def pair? {α β : Type} (first : JsonValue → Option α) (second : JsonValue → Option β) :
    JsonValue → Option (α × β)
  | array [a, b] => do return (← first a, ← second b)
  | _ => none

/-- Nothing is written as null. -/
def optional? (decode : JsonValue → Option α) : JsonValue → Option (Option α)
  | null => some none
  | value => some <$> decode value

def name? (decode : String → Option α) : JsonValue → Option α
  | string (some name) => decode name
  | object [(some name, null)] => decode name
  | _ => none

/-- The value of a field, if there is one; fails if the field is there twice. -/
def member? (members : List (JsonText × JsonValue)) (name : String) :
    Option (Option JsonValue) :=
  match members.filter (·.1 == some name) with
  | [] => some none
  | [(_, value)] => some (some value)
  | _ => none

/-- The values of a record's fields in the order of their declaration. -/
def fields? (names : List String) : JsonValue → Option (List (Option JsonValue))
  | object members =>
    if members.all (·.1.isSome) then names.mapM (member? members) else none
  | array items =>
    if items.length ≤ names.length then
      some (items.map some ++ List.replicate (names.length - items.length) none)
    else none
  | _ => none

/-- A field that has to be there. -/
def required? (decode : JsonValue → Option α) (field : Option JsonValue) : Option α :=
  field.bind decode

/-- A field that may be missing. -/
def withDefault? (decode : JsonValue → Option α) (missing : α) : Option JsonValue → Option α
  | some value => decode value
  | none => some missing

/-- The written form of what may be missing. -/
def ofOption (encode : α → JsonValue) : Option α → JsonValue
  | some value => encode value
  | none => null

end CodeEditor.JsonValue
