import CodeEditor.Json.Decode
import CodeEditor.Json.Printer
import CodeEditor.Json.Reader
import CodeEditor.Style.Theme

/-!
# Themes as JSON

Colours and themes have to name all their fields; a style may leave out any, which then keeps
its plain value.
-/

namespace CodeEditor

namespace Color

def toJson (color : Color) : JsonValue :=
  let channel (value : UInt8) : JsonValue := .number (.ofNat value.toNat)
  .object [(some "r", channel color.r), (some "g", channel color.g), (some "b", channel color.b),
    (some "a", channel color.a)]

def ofJson? (value : JsonValue) : Option Color := do
  match ← value.fields? ["r", "g", "b", "a"] with
  | [r, g, b, a] =>
    let channel := JsonValue.required? JsonValue.byte?
    return ⟨← channel r, ← channel g, ← channel b, ← channel a⟩
  | _ => none

end Color

namespace UnderlineStyle

def name : UnderlineStyle → String
  | single => "single"
  | squiggle => "squiggle"

def ofName? (name : String) : Option UnderlineStyle :=
  [single, squiggle].find? (·.name == name)

theorem ofName?_name (underline : UnderlineStyle) : ofName? underline.name = some underline := by
  cases underline <;> decide +kernel

end UnderlineStyle

namespace Style

def toJson (style : Style) : JsonValue :=
  let color := JsonValue.ofOption Color.toJson
  .object [
    (some "foreground", color style.foreground),
    (some "background", color style.background),
    (some "bold", .bool style.bold),
    (some "italic", .bool style.italic),
    (some "underline", JsonValue.ofOption (fun underline ↦ .text underline.name) style.underline),
    (some "underline_color", color style.underlineColor)]

def ofJson? (value : JsonValue) : Option Style := do
  let names :=
    ["foreground", "background", "bold", "italic", "underline", "underline_color"]
  match ← value.fields? names with
  | [foreground, background, bold, italic, underline, underlineColor] =>
    let color := JsonValue.withDefault? (JsonValue.optional? Color.ofJson?) none
    let flag := JsonValue.withDefault? JsonValue.bool? false
    let line := JsonValue.optional? (JsonValue.name? UnderlineStyle.ofName?)
    return {
      foreground := ← color foreground
      background := ← color background
      bold := ← flag bold
      italic := ← flag italic
      underline := ← JsonValue.withDefault? line none underline
      underlineColor := ← color underlineColor }
  | _ => none

/-- The style that a JSON text writes. -/
def read? (text : String) : Option Style := (JsonValue.read? text).bind ofJson?

def write (style : Style) : String := style.toJson.write

end Style

namespace Theme

def toJson (theme : Theme) : JsonValue :=
  .object [
    (some "id", .text theme.id),
    (some "plain", theme.plain.toJson),
    (some "tokens", .array (theme.tokens.map fun (kind, style) ↦
      .array [.text kind.name, style.toJson])),
    (some "lint_error", theme.lintError.toJson),
    (some "lint_warning", theme.lintWarning.toJson),
    (some "flash_background", theme.flashBackground.toJson)]

def ofJson? (value : JsonValue) : Option Theme := do
  let names := ["id", "plain", "tokens", "lint_error", "lint_warning", "flash_background"]
  match ← value.fields? names with
  | [id, plain, tokens, lintError, lintWarning, flashBackground] =>
    let entry := JsonValue.pair? (JsonValue.name? TokenKind.ofName?) Style.ofJson?
    let color := JsonValue.required? Color.ofJson?
    return {
      id := ← JsonValue.required? JsonValue.text? id
      plain := ← JsonValue.required? Style.ofJson? plain
      tokens := ← JsonValue.required? (JsonValue.list? entry) tokens
      lintError := ← color lintError
      lintWarning := ← color lintWarning
      flashBackground := ← color flashBackground }
  | _ => none

/-- The theme that a JSON text writes. -/
def read? (text : String) : Option Theme := (JsonValue.read? text).bind ofJson?

def write (theme : Theme) : String := theme.toJson.write

end Theme

end CodeEditor
