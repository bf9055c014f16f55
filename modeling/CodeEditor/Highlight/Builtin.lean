import CodeEditor.Highlight.Grammar
import CodeEditor.Language
import CodeEditor.Pattern.Expression

/-!
# Grammars of the known languages

Comments come first, so that no other token begins inside one, except in the shell, where
variables come before comments because their names may contain the comment token.
-/

namespace CodeEditor.Grammar

open Expression CharClass

/-! ## Common expressions -/

def wordBoundary : Expression := check .wordBoundary

def wholeWord (e : Expression) : Expression := series [wordBoundary, e, wordBoundary]

/-- One of the words, standing alone. -/
def keywords (words : List String) : Expression := wholeWord (anyOf (words.map literal))

def lower : CharClass := range 'a' 'z'
def upper : CharClass := range 'A' 'Z'
def decimal : CharClass := range '0' '9'
def underscore : CharClass := single '_'

def identifierStart : CharClass := union [upper, lower, underscore]

def identifierRest : CharClass := union [upper, lower, decimal, underscore]

/-- Everything from an opening text to the nearest closing one, across lines. -/
def delimited (opening closing : String) : Expression :=
  series [literal opening, fewest (one any), literal closing]

def restOfLine : Expression := zeroOrMore (one notNewline)

/-- Characters between quotes in which a backslash hides the character behind it. -/
def quoted (quote : Char) (hidden plain : CharClass) : Expression :=
  series [char quote, zeroOrMore (anyOf [char '\\' ++ one hidden, one plain]), char quote]

/-- A quoted text that ends on its line. -/
def quotedOnLine (quote : Char) : Expression := quoted quote notNewline (noneOf [quote, '\\', '\n'])

def hexDigits : Expression :=
  oneOrMore (one (union [decimal, range 'a' 'f', range 'A' 'F', underscore]))

def digits : Expression := one digit ++ zeroOrMore (one (union [digit, underscore]))

def number : Expression :=
  wholeWord <| anyOf [
    series [char '0', one (ofChars ['x', 'X']), hexDigits],
    series [char '0', one (ofChars ['b', 'B']), oneOrMore (one (ofChars ['0', '1', '_']))],
    series [
      digits,
      optional (char '.' ++ digits),
      optional (series [one (ofChars ['e', 'E']), optional (one (ofChars ['+', '-'])),
        oneOrMore (one digit)])]]

def capitalised : Expression := wholeWord (one upper ++ zeroOrMore (one identifierRest))

/-- A name, as the first group, before an opening parenthesis. -/
def called : Expression :=
  series [wordBoundary,
    group 1 (one (union [lower, underscore]) ++ zeroOrMore (one identifierRest)),
    zeroOrMore (one space), char '(']

/-! ## Rules -/

/-- Takes what an expression matches. -/
def whole (kind : TokenKind) (e : Expression) : Rule := { pattern := e.toPattern, kind }

/-- Takes the first group of what an expression matches. -/
def firstGroup (kind : TokenKind) (e : Expression) : Rule :=
  { pattern := e.toPattern, kind, group := some 1 }

def commentRules (tokens : CommentTokens) : List Rule :=
  let block := match tokens.blockStart, tokens.blockEnd with
    | some start, some stop => [whole .comment (delimited start stop)]
    | _, _ => []
  let line := match tokens.line with
    | some token => [whole .comment (literal token ++ restOfLine)]
    | none => []
  block ++ line

/-! ## Words -/

def swiftKeywords : List String :=
  ["actor", "any", "as", "associatedtype", "async", "await", "break", "case", "catch", "class",
    "continue", "default", "defer", "deinit", "do", "else", "enum", "extension", "fallthrough",
    "false", "fileprivate", "final", "for", "func", "guard", "if", "import", "in", "init",
    "inout", "internal", "is", "lazy", "let", "mutating", "nil", "open", "override", "private",
    "protocol", "public", "repeat", "rethrows", "return", "self", "Self", "some", "static",
    "struct", "subscript", "super", "switch", "throw", "throws", "true", "try", "typealias",
    "unowned", "var", "weak", "where", "while"]

def pythonKeywords : List String :=
  ["False", "None", "True", "and", "as", "assert", "async", "await", "break", "case", "class",
    "continue", "def", "del", "elif", "else", "except", "finally", "for", "from", "global", "if",
    "import", "in", "is", "lambda", "match", "nonlocal", "not", "or", "pass", "raise", "return",
    "try", "while", "with", "yield"]

def bashKeywords : List String :=
  ["case", "declare", "do", "done", "elif", "else", "esac", "export", "fi", "for", "function",
    "if", "in", "local", "readonly", "return", "select", "then", "time", "until", "while"]

def bashCommands : List String :=
  ["cd", "echo", "eval", "exec", "exit", "printf", "read", "set", "shift", "source", "test",
    "trap", "unset"]

/-! ## The grammars -/

def swift : Grammar :=
  commentRules Language.swift.commentTokens ++ [
    whole .string (delimited "\"\"\"" "\"\"\""),
    whole .string (quotedOnLine '"'),
    whole .attributeUse (series [char '@', one identifierStart, zeroOrMore (one word)]),
    whole .keyword (keywords swiftKeywords),
    whole .number number,
    whole .type capitalised,
    firstGroup .function called]

def python : Grammar :=
  commentRules Language.python.commentTokens ++ [
    whole .string (anyOf [delimited "\"\"\"" "\"\"\"", delimited "'''" "'''"]),
    whole .string (anyOf [quotedOnLine '"', quotedOnLine '\'']),
    whole .attributeUse (series [char '@', one identifierStart,
      zeroOrMore (one (union [word, single '.']))]),
    whole .keyword (keywords pythonKeywords),
    firstGroup .function (series [wordBoundary, anyOf [literal "def", literal "class"],
      oneOrMore (one space), group 1 (one identifierStart ++ zeroOrMore (one word))]),
    whole .number number,
    whole .type capitalised,
    firstGroup .function called]

def bash : Grammar :=
  whole .variableUse (char '$' ++ anyOf [
    series [char '\x7b', zeroOrMore (one (noneOf ['\x7d', '\n'])), char '\x7d'],
    one identifierStart ++ zeroOrMore (one word),
    one (union [decimal, ofChars ['@', '#', '?', '$', '!', '*', '-']])]) ::
  commentRules Language.bash.commentTokens ++ [
    whole .string (anyOf [quoted '"' notNewline (noneOf ['"', '\\']),
      series [char '\'', zeroOrMore (one (noneOf ['\''])), char '\'']]),
    whole .keyword (keywords bashKeywords),
    whole .function (keywords bashCommands),
    firstGroup .function (series [check .lineStart, zeroOrMore (one (ofChars [' ', '\t'])),
      group 1 (one identifierStart ++ zeroOrMore (one (union [word, single '-']))),
      zeroOrMore (one (ofChars [' ', '\t'])), literal "()"]),
    whole .number (wholeWord (oneOrMore (one digit)))]

/-- Characters other than the closing one between two marks on one line. -/
def spanned (opening closing : String) (inner : CharClass) : Expression :=
  series [literal opening, oneOrMore (one inner), literal closing]

def markdown : Grammar :=
  whole .code (series [check .lineStart, literal "```", fewest (one any), check .lineStart,
    literal "```", restOfLine]) ::
  commentRules Language.markdown.commentTokens ++ [
    whole .heading (series [check .lineStart, repeated 1 (some 6) true (char '#'),
      one (ofChars [' ', '\t']), restOfLine]),
    whole .code (spanned "`" "`" (noneOf ['`', '\n'])),
    whole .link (series [optional (char '!'), char '[', zeroOrMore (one (noneOf [']', '\n'])),
      literal "](", zeroOrMore (one (noneOf [')', '\n'])), char ')']),
    whole .emphasis (anyOf [spanned "**" "**" (noneOf ['*', '\n']),
      spanned "__" "__" (noneOf ['_', '\n'])]),
    whole .emphasis (anyOf [spanned "*" "*" (noneOf ['*', '\n']),
      series [wordBoundary, spanned "_" "_" (noneOf ['_', '\n']), wordBoundary]])]

/-- The grammar of a language; plain text has none. -/
def builtin? : Language → Option Grammar
  | .swift => some swift
  | .python => some python
  | .bash => some bash
  | .markdown => some markdown
  | .plain => none

end CodeEditor.Grammar
