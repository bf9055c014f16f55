import CodeEditor.Style.Basic

/-!
# Themes

A theme gives a style to plain text and to each kind of token it lists. Of two entries for one
kind the first counts; a kind without an entry is drawn like plain text.
-/

namespace CodeEditor

structure Theme where
  id : String
  plain : Style
  tokens : List (TokenKind × Style)
  lintError : Color
  lintWarning : Color
  flashBackground : Color
  deriving DecidableEq, Repr

namespace Theme

def styleFor (theme : Theme) (kind : TokenKind) : Style :=
  (theme.tokens.lookup kind).getD theme.plain

def defaultId : String := "light"

def light : Theme :=
  let ink := Color.rgb 0x1f 0x1f 0x24
  { id := defaultId
    plain := .fg ink
    tokens := [
      (.keyword, (Style.fg (.rgb 0x9b 0x23 0x93)).withBold),
      (.string, .fg (.rgb 0xc4 0x1a 0x16)),
      (.comment, (Style.fg (.rgb 0x5d 0x6c 0x79)).withItalic),
      (.number, .fg (.rgb 0x1c 0x00 0xcf)),
      (.type, .fg (.rgb 0x0b 0x4f 0x79)),
      (.function, .fg (.rgb 0x32 0x6d 0x74)),
      (.variableUse, .fg (.rgb 0x3f 0x6e 0x74)),
      (.attributeUse, .fg (.rgb 0x81 0x5f 0x03)),
      (.heading, (Style.fg ink).withBold),
      (.emphasis, (Style.fg ink).withItalic),
      (.code, .fg (.rgb 0x64 0x38 0x20)),
      (.link, .fg (.rgb 0x0e 0x0e 0xff))]
    lintError := .rgb 0xff 0x3b 0x30
    lintWarning := .rgb 0xff 0x95 0x00
    flashBackground := ⟨0xff, 0xd6, 0x0a, 0x80⟩ }

def dark : Theme :=
  let ink := Color.rgb 0xdf 0xdf 0xe0
  { id := "dark"
    plain := .fg ink
    tokens := [
      (.keyword, (Style.fg (.rgb 0xfc 0x5f 0xa3)).withBold),
      (.string, .fg (.rgb 0xfc 0x6a 0x5d)),
      (.comment, (Style.fg (.rgb 0x6c 0x79 0x86)).withItalic),
      (.number, .fg (.rgb 0xd0 0xbf 0x69)),
      (.type, .fg (.rgb 0x5d 0xd8 0xff)),
      (.function, .fg (.rgb 0x67 0xb7 0xa4)),
      (.variableUse, .fg (.rgb 0x41 0xa1 0xc0)),
      (.attributeUse, .fg (.rgb 0xbf 0x85 0x55)),
      (.heading, (Style.fg ink).withBold),
      (.emphasis, (Style.fg ink).withItalic),
      (.code, .fg (.rgb 0xa1 0x67 0xe6)),
      (.link, .fg (.rgb 0x54 0x82 0xff))]
    lintError := .rgb 0xff 0x45 0x3a
    lintWarning := .rgb 0xff 0x9f 0x0a
    flashBackground := ⟨0x7f, 0x6a, 0x00, 0x90⟩ }

/-- The themes that need no registration. -/
def builtin? (id : String) : Option Theme :=
  if id = light.id then some light else if id = dark.id then some dark else none

end Theme

end CodeEditor
