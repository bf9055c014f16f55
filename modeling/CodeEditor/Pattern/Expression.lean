import CodeEditor.Pattern.Basic

/-!
# Expressions

What a written pattern says. `Expression.toPattern` prepares it for a search: it gives marks to
the choices that a search could meet twice at one place. A choice that no other choice precedes,
and that is not inside a repetition, is met at most once at each place and needs none.
-/

namespace CodeEditor

inductive Expression where
  | one (accepted : CharClass)
  | check (assertion : Assertion)
  | series (parts : List Expression)
  | anyOf (branches : List Expression)
  | group (index : Nat) (body : Expression)
  | repeated (least : Nat) (most : Option Nat) (greedy : Bool) (body : Expression)

namespace Expression

/-! ## Building expressions -/

instance : Append Expression := ⟨fun first second ↦ series [first, second]⟩

def char (c : Char) : Expression := one (.single c)

/-- The characters of a text, one after the other. -/
def literal (text : String) : Expression := series (text.toList.map char)

def optional (e : Expression) : Expression := repeated 0 (some 1) true e

def oneOrMore (e : Expression) : Expression := repeated 1 none true e

def zeroOrMore (e : Expression) : Expression := repeated 0 none true e

/-- As few rounds as possible, also none. -/
def fewest (e : Expression) : Expression := repeated 0 none false e

/-! ## Properties -/

mutual

/-- Whether the expression can match without taking a character. -/
def nullable : Expression → Bool
  | one _ => false
  | check _ => true
  | series parts => allNullable parts
  | anyOf branches => someNullable branches
  | group _ body => body.nullable
  | repeated least _ _ body => least == 0 || body.nullable

def allNullable : List Expression → Bool
  | [] => true
  | part :: rest => part.nullable && allNullable rest

def someNullable : List Expression → Bool
  | [] => false
  | branch :: rest => branch.nullable || someNullable rest

end

mutual

/-- Whether the expression never takes a character. -/
def takesNothing : Expression → Bool
  | one _ => false
  | check _ => true
  | series parts => allTakeNothing parts
  | anyOf branches => allTakeNothing branches
  | group _ body => body.takesNothing
  | repeated _ most _ body => most == some 0 || body.takesNothing

def allTakeNothing : List Expression → Bool
  | [] => true
  | part :: rest => part.takesNothing && allTakeNothing rest

end

mutual

/-- Whether a search can meet a choice in the expression. -/
def hasChoice : Expression → Bool
  | one _ => false
  | check _ => false
  | series parts => someHaveChoice parts
  | anyOf _ => true
  | group _ body => body.hasChoice
  | repeated least most _ body => most != some least || body.hasChoice

def someHaveChoice : List Expression → Bool
  | [] => false
  | part :: rest => part.hasChoice || someHaveChoice rest

end

/-- The bounds of a repetition. Repeating what takes nothing adds nothing after the first time. -/
def effectiveBounds (body : Expression) (least : Nat) (most : Option Nat) : Nat × Option Nat :=
  if body.takesNothing then (min least 1, some (min (most.getD 1) 1)) else (least, most)

/-! ## Marks

The functions that mark an expression carry the next unused mark along. -/

/-- A mark for a choice, if choices have to be marked here. -/
def markFrom (marking : Bool) (next : Nat) : Option Nat × Nat :=
  if marking then (some next, next + 1) else (none, next)

/-- A choice between a part and nothing. -/
def orNothing (mark : Option Nat) (greedy : Bool) (part : Pattern) : Pattern :=
  if greedy then .either mark part .empty else .either mark .empty part

/-- So many copies of a part, given how to mark one of them. -/
def markCopies (mark : Nat → Pattern × Nat) (count next : Nat) : Pattern × Nat :=
  match count with
  | 0 => (.empty, next)
  | 1 => mark next
  | count =>
    let (body, last) := mark next
    (.copies count (last - next) body, next + count * (last - next))

/-- Up to so many copies of a part, given how to mark one of them. -/
def markOptionalCopies (marking greedy : Bool) (mark : Nat → Pattern × Nat) (count next : Nat) :
    Pattern × Nat :=
  let (choice, first) := markFrom marking next
  let (body, last) := mark first
  match count with
  | 0 => (.empty, next)
  | 1 => (orNothing choice greedy body, last)
  | count => (.upTo count (last - next) choice greedy body, next + count * (last - next))

/-- Two parts one after the other, of which either may be missing. -/
def followedBy (first : Option Pattern) (second : Pattern) : Pattern :=
  match first with
  | none => second
  | some first => .seq first second

mutual

/-- Gives marks to the choices of an expression, if they have to be marked here, and to those
inside its repetitions. -/
def marked (marking : Bool) : Expression → (next : Nat) → Pattern × Nat
  | one accepted, next => (.one accepted, next)
  | check assertion, next => (.check assertion, next)
  | series parts, next => markedParts marking parts next
  | anyOf branches, next => markedBranches marking branches next
  | group index body, next =>
    let (p, next) := body.marked marking next
    (.group index p, next)
  | repeated least most greedy body, next =>
    match body.effectiveBounds least most with
    | (least, some most) =>
      let inside := marking || 1 < most
      let (before, next) := markCopies (body.marked inside) least next
      if most ≤ least then (before, next)
      else
        let (after, next) :=
          markOptionalCopies inside greedy (body.marked inside) (most - least) next
        (followedBy (if least = 0 then none else some before) after, next)
    | (0, none) =>
      -- a body that takes characters is met by its first round as by every other
      let entry := if body.nullable then next + 1 else next
      let (p, last) := body.marked true (entry + 1)
      (orNothing (some entry) greedy (.more (some next) greedy p), last)
    | (least + 1, none) =>
      let (before, next) := markCopies (body.marked true) least next
      let (p, last) := body.marked true (next + 1)
      (followedBy (if least = 0 then none else some before) (.more (some next) greedy p), last)

/-- The parts of a sequence. A choice behind another one can be met along several ways. -/
def markedParts (marking : Bool) : List Expression → (next : Nat) → Pattern × Nat
  | [], next => (.empty, next)
  | [part], next => part.marked marking next
  | part :: rest, next =>
    let (first, next) := part.marked marking next
    let (others, next) := markedParts (marking || part.hasChoice) rest next
    (.seq first others, next)

/-- The branches of a choice. -/
def markedBranches (marking : Bool) : List Expression → (next : Nat) → Pattern × Nat
  | [], next => (.one .nothing, next)
  | [branch], next => branch.marked marking next
  | branch :: rest, next =>
    let (mark, next) := markFrom marking next
    let (first, next) := branch.marked marking next
    let (others, next) := markedBranches marking rest next
    (.either mark first others, next)

end

def toPattern (expression : Expression) : Pattern := (expression.marked false 0).1

end Expression

end CodeEditor
