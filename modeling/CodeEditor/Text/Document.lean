import CodeEditor.Language
import CodeEditor.Text.Edit
import CodeEditor.Text.LineIndex

/-!
# Documents

A document is a text with a language. Its text is only ever replaced as a whole; each replacement
that changes it raises the revision. The length and the line index are kept with the text.
-/

namespace CodeEditor

structure Document where
  text : String
  length : Nat
  lines : LineIndex
  language : Language
  revision : Nat
  deriving Repr

namespace Document

def ofText (text : String) (language : Language) : Document :=
  { text, length := text.toList.length, lines := .ofText text, language, revision := 0 }

def isEmpty (document : Document) : Bool := document.length == 0

def withLanguage (document : Document) (language : Language) : Document :=
  { document with language }

/-- Replaces the text, and tells the edit that this was if the text changed. -/
def replace (document : Document) (text : String) : Document × Option Edit :=
  match Edit.between document.text.toList text.toList with
  | none => (document, none)
  | some edit =>
    ({ document with
        text
        length := document.length - edit.deleted + edit.inserted
        lines := .ofText text
        revision := document.revision + 1 },
      some edit)

/-- The characters of a text from the first offset up to the second. -/
def slice (chars : List Char) (start stop : Nat) : List Char :=
  (chars.drop start).take (stop - start)

def lineText? (document : Document) (line : Nat) : Option String :=
  (document.lines.range? line).map fun range ↦
    String.ofList (slice document.text.toList range.start range.stop)

end Document

end CodeEditor
