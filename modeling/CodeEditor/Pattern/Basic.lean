import CodeEditor.Pattern.CharClass
import CodeEditor.Pattern.Tried

/-!
# Patterns and their matches

A pattern describes strings of characters. Where it leaves a choice it also says which branch it
prefers, so that among all matches at a place one comes first: an alternative tries its left
branch first, a greedy repetition tries to go on before it stops, a lazy one tries to stop first.
`Pattern.run` explores the branches in that order and hands each way through the pattern to a
continuation; the first way that the continuation accepts is the match.

A choice may carry a mark. What follows a marked choice depends only on the mark and on the place
where the choice is met, so once its branches have been tried there, trying them again would fail
again. A search keeps what it has tried from one start to the next. This makes its work linear in
the length of the text, and it ends the rounds of a repetition that take no character. Counted
repetitions are not unfolded: each copy shifts the marks of the body, so that every copy has marks
of its own.
-/

namespace CodeEditor

/-- Conditions on a place in a text that take no character. -/
inductive Assertion where
  | textStart
  | textEnd
  | lineStart
  | lineEnd
  | wordBoundary
  | notWordBoundary
  | wordStart
  | wordEnd
  | notAfterWord
  | notBeforeWord
  deriving DecidableEq, Repr

inductive Pattern where
  | empty
  | one (accepted : CharClass)
  | check (assertion : Assertion)
  | seq (first second : Pattern)
  | either (mark : Option Nat) (preferred other : Pattern)
  | more (mark : Option Nat) (greedy : Bool) (body : Pattern)
  | copies (count stride : Nat) (body : Pattern)
  | upTo (count stride : Nat) (mark : Option Nat) (greedy : Bool) (body : Pattern)
  | group (index : Nat) (body : Pattern)
  deriving DecidableEq, Repr

/-- The characters that a group took. -/
structure Capture where
  index : Nat
  start : Nat
  stop : Nat
  deriving DecidableEq, Repr

/-- A way through a part of a pattern: where it has come to and the groups it closed, the latest
first. -/
structure Cursor where
  pos : Nat
  captures : List Capture
  deriving DecidableEq, Repr

/-- How an exploration ends: with a way that was accepted, or with the choices tried in vain. -/
inductive Outcome where
  | found (reached : Cursor)
  | failed (tried : Tried)

/-- Where a pattern matched, and what its groups took. -/
structure Match where
  start : Nat
  stop : Nat
  captures : List Capture
  deriving DecidableEq, Repr

namespace Assertion

def isWordAt (text : Array Char) (pos : Nat) : Bool :=
  text[pos]?.any Unicode.isWord

def isWordBefore (text : Array Char) (pos : Nat) : Bool :=
  pos != 0 && isWordAt text (pos - 1)

def holds (text : Array Char) (pos : Nat) : Assertion → Bool
  | textStart => pos == 0
  | textEnd => pos == text.size
  | lineStart => pos == 0 || text[pos - 1]? == some '\n'
  | lineEnd => pos == text.size || text[pos]? == some '\n'
  | wordBoundary => isWordBefore text pos != isWordAt text pos
  | notWordBoundary => isWordBefore text pos == isWordAt text pos
  | wordStart => !isWordBefore text pos && isWordAt text pos
  | wordEnd => isWordBefore text pos && !isWordAt text pos
  | notAfterWord => !isWordBefore text pos
  | notBeforeWord => !isWordAt text pos

end Assertion

namespace Cursor

def advance (cursor : Cursor) : Cursor := { cursor with pos := cursor.pos + 1 }

def close (index start : Nat) (cursor : Cursor) : Cursor :=
  { cursor with captures := ⟨index, start, cursor.pos⟩ :: cursor.captures }

end Cursor

/-- What follows a part of a pattern. -/
abbrev Continuation := Cursor → Tried → Outcome

/-- A part of a pattern up to what follows it, its marks shifted. -/
abbrev Exploration := (shift : Nat) → Cursor → Tried → Continuation → Outcome

namespace Outcome

/-- Tries the second branch where the first fails. -/
@[inline] def firstOf (tried : Tried) (preferred other : Tried → Outcome) : Outcome :=
  match preferred tried with
  | found reached => found reached
  | failed tried => other tried

/-- Meets a choice at a place. A marked choice fails where it was met before. -/
@[inline] def choose (mark : Option Nat) (pos : Nat) (tried : Tried)
    (preferred other : Tried → Outcome) : Outcome :=
  match mark with
  | none => firstOf tried preferred other
  | some mark =>
    if tried.contains pos mark then failed tried
    else firstOf (tried.insert pos mark) preferred other

/-- Meets the choice of a repetition between another round and what follows. -/
@[inline] def goOnOrStop (greedy : Bool) (mark : Option Nat) (pos : Nat) (tried : Tried)
    (goOn stop : Tried → Outcome) : Outcome :=
  if greedy then choose mark pos tried goOn stop else choose mark pos tried stop goOn

end Outcome

open Outcome

/-- The rounds after the first of a repetition. Each round takes a character, so the number of
characters that are left bounds their number. -/
def Pattern.repeatMore (mark : Option Nat) (greedy : Bool)
    (body : Cursor → Tried → Continuation → Outcome) (next : Continuation) :
    Nat → Cursor → Tried → Outcome
  | 0, cursor, tried => choose mark cursor.pos tried (next cursor) failed
  | left + 1, cursor, tried =>
    goOnOrStop greedy mark cursor.pos tried
      (fun tried ↦ body cursor tried fun reached tried ↦
        if cursor.pos < reached.pos then repeatMore mark greedy body next left reached tried
        else failed tried)
      (next cursor)

/-- So many copies of a part, one behind the other. -/
def Pattern.repeatExactly (stride : Nat) (body : Exploration) (next : Continuation) :
    (count shift : Nat) → Cursor → Tried → Outcome
  | 0, _, cursor, tried => next cursor tried
  | count + 1, shift, cursor, tried =>
    body shift cursor tried fun reached tried ↦
      repeatExactly stride body next count (shift + stride) reached tried

/-- Up to so many copies, each of which is only reached through the one before. -/
def Pattern.repeatUpTo (stride : Nat) (mark : Option Nat) (greedy : Bool) (body : Exploration)
    (next : Continuation) : (count shift : Nat) → Cursor → Tried → Outcome
  | 0, _, cursor, tried => next cursor tried
  | count + 1, shift, cursor, tried =>
    goOnOrStop greedy (mark.map (· + shift)) cursor.pos tried
      (fun tried ↦ body shift cursor tried fun reached tried ↦
        repeatUpTo stride mark greedy body next count (shift + stride) reached tried)
      (next cursor)

/-- Explores the ways through a pattern from the cursor, in order of preference, until the
continuation accepts one. -/
def Pattern.run (text : Array Char) : Pattern → Exploration
  | empty, _, cursor, tried, next => next cursor tried
  | one accepted, _, cursor, tried, next =>
    match text[cursor.pos]? with
    | some c => if accepted.contains c then next cursor.advance tried else failed tried
    | none => failed tried
  | check assertion, _, cursor, tried, next =>
    if assertion.holds text cursor.pos then next cursor tried else failed tried
  | seq first second, shift, cursor, tried, next =>
    first.run text shift cursor tried fun reached tried ↦ second.run text shift reached tried next
  | either mark preferred other, shift, cursor, tried, next =>
    choose (mark.map (· + shift)) cursor.pos tried
      (fun tried ↦ preferred.run text shift cursor tried next)
      (fun tried ↦ other.run text shift cursor tried next)
  | more mark greedy body, shift, cursor, tried, next =>
    body.run text shift cursor tried fun reached tried ↦
      repeatMore (mark.map (· + shift)) greedy (body.run text shift) next
        (text.size - reached.pos) reached tried
  | copies count stride body, shift, cursor, tried, next =>
    repeatExactly stride (body.run text) next count shift cursor tried
  | upTo count stride mark greedy body, shift, cursor, tried, next =>
    repeatUpTo stride mark greedy (body.run text) next count shift cursor tried
  | group index body, shift, cursor, tried, next =>
    body.run text shift cursor tried fun reached tried ↦
      next (reached.close index cursor.pos) tried

namespace Pattern

/-- Explores the pattern from a start, except for choices that were tried from an earlier one. -/
def runFrom (text : Array Char) (pattern : Pattern) (start : Nat) (tried : Tried) : Outcome :=
  pattern.run text 0 ⟨start, []⟩ tried fun reached _ ↦ found reached

/-- The preferred match that starts at the given place. -/
def matchAt? (text : Array Char) (pattern : Pattern) (start : Nat) : Option Match :=
  match pattern.runFrom text start { origin := start } with
  | found reached => some ⟨start, reached.pos, reached.captures⟩
  | failed _ => none

/-- Tries so many places in turn. -/
def findWithin (text : Array Char) (pattern : Pattern) :
    (places start : Nat) → Tried → Option Match
  | 0, _, _ => none
  | places + 1, start, tried =>
    match pattern.runFrom text start tried with
    | found reached => some ⟨start, reached.pos, reached.captures⟩
    | failed tried => findWithin text pattern places (start + 1) tried

/-- The leftmost match that starts at the given place or after it. -/
def find? (text : Array Char) (pattern : Pattern) (start : Nat) : Option Match :=
  findWithin text pattern (text.size + 1 - start) start { origin := start }

end Pattern

namespace Match

/-- What a group took; group zero is the whole match. -/
def group? (found : Match) (index : Nat) : Option (Nat × Nat) :=
  if index = 0 then some (found.start, found.stop)
  else (found.captures.find? (·.index == index)).map fun capture ↦ (capture.start, capture.stop)

end Match

end CodeEditor
