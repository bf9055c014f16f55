import CodeEditor.Pattern.Basic
import CodeEditor.Style.Basic

/-!
# Grammars

A grammar is a list of rules, each a pattern with the kind of token it finds. The tokenizer
repeatedly takes, of the next finds of all rules, the one that starts first, and of several that
start together the one whose rule stands first; it then goes on behind the token it took.
-/

namespace CodeEditor

/-- A pattern whose matches are tokens. With a group, only what the group took is the token. -/
structure Rule where
  pattern : Pattern
  kind : TokenKind
  group : Option Nat := none
  deriving DecidableEq, Repr

/-- A piece of a text, from its start up to its stop, and what it is. -/
structure Token where
  start : Nat
  stop : Nat
  kind : TokenKind
  deriving DecidableEq, Repr

abbrev Grammar := List Rule

namespace Rule

/-- Follows the matches of the rule's pattern until one gives a token that is not empty. A match
without a token is passed over, and an empty match together with the character behind it. -/
def search (rule : Rule) (text : Array Char) : (fuel from_ : Nat) → Option (Nat × Nat)
  | 0, _ => none
  | fuel + 1, from_ =>
    match rule.pattern.find? text from_ with
    | none => none
    | some found =>
      let next := if found.start < found.stop then some found.stop
        else if found.stop < text.size then some (found.stop + 1) else none
      match found.group? (rule.group.getD 0) with
      | some (start, stop) =>
        if start < stop then some (start, stop) else next.bind (search rule text fuel)
      | none => next.bind (search rule text fuel)

/-- The first token of the rule that its pattern finds from the given place on. -/
def find? (rule : Rule) (text : Array Char) (from_ : Nat) : Option (Nat × Nat) :=
  if from_ ≤ text.size then rule.search text (text.size + 1 - from_) from_ else none

end Rule

namespace Grammar

/-- A rule and its next find. -/
abbrev Slot := Rule × Option (Nat × Nat)

/-- Finds again what lies before the place the tokenizer has come to. -/
def refresh (text : Array Char) (pos : Nat) (slots : List Slot) : List Slot :=
  slots.map fun (rule, next) ↦
    match next with
    | some (start, _) => if start < pos then (rule, rule.find? text pos) else (rule, next)
    | none => (rule, none)

/-- The earliest find; of several with one start, that of the first rule. -/
def earliest? : List Slot → Option (Rule × Nat × Nat)
  | [] => none
  | (rule, next) :: rest =>
    match next, earliest? rest with
    | none, best => best
    | some (start, stop), none => some (rule, start, stop)
    | some (start, stop), some best =>
      if start ≤ best.2.1 then some (rule, start, stop) else some best

/-- Every token takes at least one character, so the length of the text is fuel enough. -/
def scan (text : Array Char) : (fuel pos : Nat) → List Slot → List Token
  | 0, _, _ => []
  | fuel + 1, pos, slots =>
    let slots := refresh text pos slots
    match earliest? slots with
    | none => []
    | some (rule, start, stop) => ⟨start, stop, rule.kind⟩ :: scan text fuel stop slots

/-- The tokens of a text in the order in which they stand. -/
def tokens (grammar : Grammar) (text : String) : List Token :=
  let chars := text.toList.toArray
  scan chars (chars.size + 1) 0 (grammar.map fun rule ↦ (rule, rule.find? chars 0))

end Grammar

end CodeEditor
