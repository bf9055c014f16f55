import CodeEditor.Json.Decode
import CodeEditor.Json.Reader
import CodeEditor.Layout.Basic
import CodeEditor.Style.Theme

/-!
# Settings

What can be configured. Settings may be written as JSON, where any field may be missing; values
that cannot be used are then replaced or moved into their range.
-/

namespace CodeEditor

/-- The size of the text and the name of its theme. -/
structure Display where
  fontSize : Float32 := 14
  themeId : String := Theme.defaultId
  deriving DecidableEq

namespace Display

def minFontSize : Float32 := 10

def maxFontSize : Float32 := 24

/-- Moves a size into its range. An undefined size becomes the default one. -/
def clampFontSize (size : Float32) : Float32 :=
  if size.isNaN then 14 else Extent.clamp minFontSize maxFontSize size

def normalized (display : Display) : Display :=
  { display with fontSize := clampFontSize display.fontSize }

/-- Changes the font size by an amount that has to be finite, and tells whether it changed. -/
def adjustFontSize (display : Display) (delta : Float32) : Display × Bool :=
  if delta.isFinite then
    let size := clampFontSize (display.fontSize + delta)
    ({ display with fontSize := size }, size != display.fontSize)
  else
    (display, false)

def ofJson? (value : JsonValue) : Option Display := do
  match ← value.fields? ["font_size", "theme_id"] with
  | [fontSize, themeId] =>
    let missing : Display := {}
    return {
      fontSize := ← JsonValue.withDefault? JsonValue.single? missing.fontSize fontSize
      themeId := ← JsonValue.withDefault? JsonValue.text? missing.themeId themeId }
  | _ => none

end Display

namespace LayoutConfig

def ofJson? (value : JsonValue) : Option LayoutConfig := do
  match ← value.fields? ["line_height_factor", "wrap_width", "tab_width"] with
  | [lineHeightFactor, wrapWidth, tabWidth] =>
    let missing : LayoutConfig := {}
    let width := JsonValue.optional? JsonValue.word?
    return {
      lineHeightFactor :=
        ← JsonValue.withDefault? JsonValue.single? missing.lineHeightFactor lineHeightFactor
      wrapWidth := ← JsonValue.withDefault? width missing.wrapWidth wrapWidth
      tabWidth := ← JsonValue.withDefault? JsonValue.word? missing.tabWidth tabWidth }
  | _ => none

end LayoutConfig

/-- Times are in milliseconds. -/
structure Settings where
  debounceMs : Nat := 300
  flashMs : Nat := 500
  fontSizeStep : Float32 := 1
  undoLimit : Nat := 200
  display : Display := {}
  layout : LayoutConfig := {}
  deriving DecidableEq

namespace Settings

/-- Keeps a number that is finite and positive. -/
def positiveOr (replacement x : Float32) : Float32 :=
  if x.isFinite && 0 < x then x else replacement

def normalized (settings : Settings) : Settings :=
  { settings with
    fontSizeStep := positiveOr 1 settings.fontSizeStep
    undoLimit := max settings.undoLimit 1
    display := settings.display.normalized
    layout := { settings.layout with
      lineHeightFactor :=
        positiveOr ({} : LayoutConfig).lineHeightFactor settings.layout.lineHeightFactor
      tabWidth := max settings.layout.tabWidth 1 } }

def ofJson? (value : JsonValue) : Option Settings := do
  let names :=
    ["debounce_ms", "flash_ms", "font_size_step", "undo_limit", "display", "layout"]
  match ← value.fields? names with
  | [debounceMs, flashMs, fontSizeStep, undoLimit, display, layout] =>
    let missing : Settings := {}
    return {
      debounceMs := ← JsonValue.withDefault? JsonValue.word? missing.debounceMs debounceMs
      flashMs := ← JsonValue.withDefault? JsonValue.word? missing.flashMs flashMs
      fontSizeStep := ← JsonValue.withDefault? JsonValue.single? missing.fontSizeStep fontSizeStep
      undoLimit := ← JsonValue.withDefault? JsonValue.word? missing.undoLimit undoLimit
      display := ← JsonValue.withDefault? Display.ofJson? missing.display display
      layout := ← JsonValue.withDefault? LayoutConfig.ofJson? missing.layout layout }
  | _ => none

/-- The usable settings that a JSON text writes. -/
def read? (text : String) : Option Settings :=
  ((JsonValue.read? text).bind ofJson?).map normalized

end Settings

end CodeEditor
