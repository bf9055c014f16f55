/-!
# Colours, styles and token kinds
-/

namespace CodeEditor

/-- A colour with red, green, blue and opacity. -/
structure Color where
  r : UInt8
  g : UInt8
  b : UInt8
  a : UInt8
  deriving DecidableEq, Repr

def Color.rgb (r g b : UInt8) : Color := ⟨r, g, b, 0xff⟩

inductive UnderlineStyle where
  | single
  | squiggle
  deriving DecidableEq, Repr

/-- How a character is drawn. -/
structure Style where
  foreground : Option Color := none
  background : Option Color := none
  bold : Bool := false
  italic : Bool := false
  underline : Option UnderlineStyle := none
  underlineColor : Option Color := none
  deriving DecidableEq, Repr, Inhabited

namespace Style

def fg (color : Color) : Style := { foreground := some color }

def withBold (style : Style) : Style := { style with bold := true }

def withItalic (style : Style) : Style := { style with italic := true }

end Style

/-- What a piece of a program text is. -/
inductive TokenKind where
  | plain
  | keyword
  | string
  | comment
  | number
  | type
  | function
  | variableUse
  | attributeUse
  | heading
  | emphasis
  | code
  | link
  deriving DecidableEq, Repr

namespace TokenKind

def all : List TokenKind :=
  [plain, keyword, string, comment, number, type, function, variableUse, attributeUse, heading,
    emphasis, code, link]

def name : TokenKind → String
  | plain => "plain"
  | keyword => "keyword"
  | string => "string"
  | comment => "comment"
  | number => "number"
  | type => "type"
  | function => "function"
  | variableUse => "variable"
  | attributeUse => "attribute"
  | heading => "heading"
  | emphasis => "emphasis"
  | code => "code"
  | link => "link"

def ofName? (name : String) : Option TokenKind := all.find? (·.name == name)

theorem ofName?_name (kind : TokenKind) : ofName? kind.name = some kind := by
  cases kind <;> decide +kernel

end TokenKind

end CodeEditor
