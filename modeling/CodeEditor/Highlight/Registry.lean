import CodeEditor.Highlight.Builtin
import CodeEditor.Highlight.Request

/-!
# Registered grammars and themes

A registry highlights by the grammars of its languages and the themes it knows, which are kept in
the order of their names. A language without a grammar stays plain.
-/

namespace CodeEditor

structure Registry where
  grammars : List (Language × Grammar)
  themes : List Theme
  deriving DecidableEq, Repr

namespace Registry

def empty : Registry := ⟨[], []⟩

def setGrammar (registry : Registry) (language : Language) (grammar : Grammar) : Registry :=
  { registry with
    grammars := (language, grammar) :: registry.grammars.filter (·.1 != language) }

def grammar? (registry : Registry) (language : Language) : Option Grammar :=
  registry.grammars.lookup language

/-- Puts a theme in its place, instead of one of the same name. -/
def insertTheme (theme : Theme) : List Theme → List Theme
  | [] => [theme]
  | other :: rest =>
    if theme.id < other.id then theme :: other :: rest
    else if theme.id = other.id then theme :: rest
    else other :: insertTheme theme rest

def registerTheme (registry : Registry) (theme : Theme) : Registry :=
  { registry with themes := insertTheme theme registry.themes }

def theme? (registry : Registry) (id : String) : Option Theme :=
  registry.themes.find? (·.id == id)

def themeIds (registry : Registry) : List String := registry.themes.map (·.id)

/-- The known languages and the light and dark themes. -/
def builtin : Registry :=
  let registry := Language.all.foldl (fun registry language ↦
    match Grammar.builtin? language with
    | some grammar => registry.setGrammar language grammar
    | none => registry) empty
  (registry.registerTheme .light).registerTheme .dark

end Registry

/-- The styling of tokens; what lies between them is plain. -/
def StyledText.ofTokens (length : Nat) (tokens : List Token) (theme : Theme) : StyledText :=
  .normalized (tokens.map fun token ↦ ⟨token.start, token.stop, theme.styleFor token.kind⟩) length
    theme.plain

namespace Registry

def highlight (registry : Registry) (request : HighlightRequest) :
    Except HighlightError StyledText :=
  match registry.theme? request.themeId with
  | none => .error (.unknownTheme request.themeId)
  | some theme =>
    let length := request.text.toList.length
    match registry.grammar? request.language with
    | none => .ok (.uniform length theme.plain)
    | some grammar => .ok (.ofTokens length (grammar.tokens request.text) theme)

def highlighter (registry : Registry) : Highlighter := ⟨registry.highlight, registry.theme?⟩

end Registry

end CodeEditor
