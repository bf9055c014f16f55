import CodeEditor.Unicode.Space

/-!
# Languages

The languages a document can be written in, how they are named, and how their comments begin and
end. Names and extensions are compared without regard to the case of ASCII letters.
-/

namespace CodeEditor

/-- The tokens that begin and end comments; a token may be missing. -/
structure CommentTokens where
  line : Option String := none
  blockStart : Option String := none
  blockEnd : Option String := none
  deriving DecidableEq, Repr

namespace CommentTokens

def forLine (token : String) : CommentTokens := { line := some token }

def forBlock (start stop : String) : CommentTokens :=
  { blockStart := some start, blockEnd := some stop }

def forLineAndBlock (token start stop : String) : CommentTokens :=
  { line := some token, blockStart := some start, blockEnd := some stop }

/-- An empty token counts as missing. -/
def hasLine (tokens : CommentTokens) : Bool := tokens.line.any (!·.isEmpty)

def hasBlock (tokens : CommentTokens) : Bool :=
  tokens.blockStart.any (!·.isEmpty) && tokens.blockEnd.any (!·.isEmpty)

end CommentTokens

inductive Language where
  | swift
  | python
  | bash
  | markdown
  | plain
  deriving DecidableEq, Repr, Inhabited

namespace Language

def all : List Language := [swift, python, bash, markdown, plain]

/-- The language of a document about which nothing is known. -/
def fallback : Language := plain

def name : Language → String
  | swift => "swift"
  | python => "python"
  | bash => "bash"
  | markdown => "markdown"
  | plain => "plain"

def extensions : Language → List String
  | swift => ["swift"]
  | python => ["py", "pyw"]
  | bash => ["sh", "bash", "zsh"]
  | markdown => ["md", "markdown"]
  | plain => ["txt"]

def commentTokens : Language → CommentTokens
  | swift => .forLineAndBlock "//" "/*" "*/"
  | python | bash => .forLine "#"
  | markdown => .forBlock "<!--" "-->"
  | plain => {}

/-- The names under which a language is asked for. -/
def tags : Language → List String
  | swift => ["swift"]
  | python => ["python", "py", "python3"]
  | bash => ["bash", "sh", "shell", "zsh"]
  | markdown => ["markdown", "md"]
  | plain => []

def lowercase (text : List Char) : String := String.ofList (text.map Char.toLower)

/-- The language of a tag, which may stand between white space. -/
def ofTag (tag : String) : Language :=
  let wanted := lowercase (Unicode.trim tag.toList)
  (all.find? (·.tags.contains wanted)).getD fallback

/-- The language of a file extension, with or without its leading dots. -/
def ofExtension (extension : String) : Language :=
  let wanted := lowercase (extension.toList.dropWhile (· == '.'))
  (all.find? (·.extensions.contains wanted)).getD fallback

/-- The parts before and after the last dot. -/
def splitLastDot (path : List Char) : Option (List Char × List Char) :=
  match path with
  | [] => none
  | c :: rest =>
    match splitLastDot rest with
    | some (stem, extension) => some (c :: stem, extension)
    | none => if c = '.' then some ([], rest) else none

/-- The language of a file, told by what follows the last dot of its path. A path that begins
with its last dot, or has a slash after it, tells nothing. -/
def ofPath (path : String) : Language :=
  match splitLastDot path.toList with
  | some (stem, extension) =>
    if !stem.isEmpty && !extension.contains '/' then ofExtension (String.ofList extension)
    else fallback
  | none => fallback

end Language

end CodeEditor
