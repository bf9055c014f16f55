import Std.Data.HashMap
import CodeEditor.Pattern.Form
import CodeEditor.Unicode.ByteRange

/-!
# Footprints

How much room the automata of a pattern would take. A pattern is fit for use if the automaton that
reads the bytes of a text forward and the one that reads them backward both stay within
`Footprint.limit`. Neither is built here. What is measured is the number of their states and the
bytes these take: every state takes `Footprint.stateSize`, a table of transitions
`Footprint.transitionSize` for each of its entries, and a choice `Footprint.branchSize` for each
of its branches. Counted repetitions have a copy of their body for every round.

A class shares equal states. They are looked up in a table of slots by a hash; where two states
fall into one slot the later takes the place of the earlier, which is then not found again.
-/

namespace CodeEditor.Footprint

open Unicode

inductive Direction where
  | forward
  | backward
  deriving DecidableEq, Repr

/-- The states of an automaton so far and the bytes they take. -/
structure Tally where
  states : Nat := 0
  bytes : Nat := 0

/-- Counts states until they outgrow the limit. -/
abbrev Measure := StateT Tally Option

def limit : Nat := 10 * 1024 * 1024

def stateSize : Nat := 32

def transitionSize : Nat := 8

def branchSize : Nat := 4

def take (states bytes : Nat) : Measure Unit := do
  let tally ← get
  let bytes := tally.bytes + bytes
  if limit < bytes then failure
  set { states := tally.states + states, bytes : Tally }

/-- A state with a table of so many transitions, and its number. -/
def state (entries : Nat) : Measure Nat := do
  let number := (← get).states
  take 1 (stateSize + transitionSize * entries)
  return number

/-- A state without a table and without a choice. -/
def plain : Measure Unit := take 1 stateSize

/-- A state with so many branches. -/
def branching (branches : Nat) : Measure Unit := take 1 (stateSize + branchSize * branches)

/-- So many copies of what is measured. -/
def times : (count : Nat) → Measure Unit → Measure Unit
  | 0, _ => return
  | count + 1, copy => do
    copy
    times count copy

/-! ## Classes -/

/-- States by slot: what their transitions are and their number. -/
abbrev Shared := Std.HashMap Nat (List Nat × Nat)

abbrev ClassMeasure := StateT Shared Measure

/-- The hash of a list of numbers. -/
def hash (values : List Nat) : UInt64 :=
  values.foldl (fun h value ↦ (h ^^^ value.toUInt64) * 1099511628211) 14695981039346656037

/-- The number of the state with the given key: that of its slot, if it is the same, or else that
of a new state. -/
def share (slots entries : Nat) (key : List Nat) : ClassMeasure Nat := do
  let slot := (hash key).toNat % slots
  match (← get)[slot]? with
  | some (known, number) => if known == key then return number
  | none => pure ()
  let number ← state entries
  modify (·.insert slot (key, number))
  return number

/-- A state under construction: its transitions, the latest first, with the numbers of the states
they lead to, and the bytes of a transition that leads to the state under construction after it. -/
structure Unfinished where
  finished : List (ByteRange × Nat) := []
  open_ : Option ByteRange := none

namespace Unfinished

/-- Lets the open transition lead to a state. -/
def close (node : Unfinished) (target : Nat) : Unfinished :=
  match node.open_ with
  | none => node
  | some bytes => { finished := (bytes, target) :: node.finished }

def finish (node : Unfinished) : ClassMeasure Nat :=
  share 10000 node.finished.length <|
    node.finished.reverse.flatMap fun (bytes, target) ↦ [bytes.first, bytes.last, target]

/-- Finishes the states behind the first ones, so many of which stay open. The deepest comes
first. -/
def finishTo (kept : Nat) : List Unfinished → (target : Nat) → ClassMeasure (List Unfinished)
  | [], _ => return []
  | node :: rest, target => do
    let node := node.close target
    if rest.length ≤ kept then return node :: rest
    else finishTo kept rest (← node.finish)

/-- How many bytes of a sequence lead along the open transitions, from the first state on. -/
def commonLength : List Unfinished → List ByteRange → Nat
  | node :: nodes, bytes :: rest =>
    if node.open_ = some bytes then commonLength nodes rest + 1 else 0
  | _, _ => 0

/-- Adds a sequence of bytes that comes after those added before. -/
def addSequence (target : Nat) (nodes : List Unfinished) (sequence : List ByteRange) :
    ClassMeasure (List Unfinished) := do
  let kept := commonLength nodes.reverse sequence
  let nodes ← finishTo kept nodes target
  match nodes, sequence.drop kept with
  | node :: rest, bytes :: behind =>
    return (behind.map fun bytes ↦ { open_ := some bytes }).reverse ++
      { node with open_ := some bytes } :: rest
  | nodes, _ => return nodes

end Unfinished

/-- The states of a class read forward, which share what sequences of bytes begin and end with. -/
def classForward (sequences : List (List ByteRange)) : ClassMeasure Unit := do
  let target ← state 0
  let nodes ← sequences.foldlM (Unfinished.addSequence target) [{}]
  for node in ← Unfinished.finishTo 0 nodes target do
    let _ ← node.finish

/-- The states of a class read backward, which share what sequences of bytes begin with. -/
def classBackward (sequences : List (List ByteRange)) : ClassMeasure Unit := do
  branching sequences.length
  let target ← state 0
  for sequence in sequences do
    let _ ← sequence.foldlM (fun target bytes ↦ share 1000 0 [target, bytes.first, bytes.last])
      target

def ofClass (direction : Direction) (ranges : Ranges) : Measure Unit := do
  if ranges.all (·.2 < 0x80) then
    plain
    let _ ← state ranges.length
  else
    let sequences := ranges.byteSequences
    match direction with
    | .forward => (classForward sequences).run' {}
    | .backward => (classBackward sequences).run' {}

/-! ## Choices between texts

A choice between texts takes the states of a tree in which texts share what they begin with. Where
a text ends, the texts listed after it do not share with those before it. -/

/-- Splits at the empty texts. -/
def splitAtEnds : List (List Nat) → List (List (List Nat))
  | [] => [[]]
  | [] :: rest => [] :: splitAtEnds rest
  | text :: rest =>
    match splitAtEnds rest with
    | [] => [[text]]
    | chunk :: chunks => (text :: chunk) :: chunks

/-- The texts that share their next byte, at each inner node of the tree. Texts that end before
any other text goes on end together. -/
def chunks (texts : List (List Nat)) : List (List (List Nat)) :=
  match texts with
  | [] :: _ => [] :: splitAtEnds (texts.dropWhile List.isEmpty)
  | texts => splitAtEnds texts

/-- The texts with the first byte given, without it. -/
def behind (byte : Nat) (texts : List (List Nat)) : List (List Nat) :=
  texts.filterMap fun text ↦ if text.head? = some byte then some text.tail else none

/-- The node of a tree for texts of which some go on. The tree is no deeper than the longest text
is long. -/
def textNode : (depth : Nat) → List (List Nat) → Measure Unit
  | 0, _ => return
  | depth + 1, texts => do
    let chunks := chunks texts
    let full := chunks.filter (!·.isEmpty)
    for chunk in full do
      let bytes := (chunk.filterMap List.head?).eraseDups
      for byte in bytes do
        let rest := behind byte chunk
        if !rest.all List.isEmpty then textNode depth rest
      let _ ← state (if bytes.length = 1 then 0 else bytes.length)
    branching (full.length + (chunks.length - 1))

/-- The bytes of a text in the order in which they are read. -/
def bytesOf (direction : Direction) (text : List Char) : List Nat :=
  let bytes := (String.ofList text).toUTF8.toList.map UInt8.toNat
  match direction with
  | .forward => bytes
  | .backward => bytes.reverse

def ofTexts (direction : Direction) (texts : List (List Char)) : Measure Unit := do
  let texts := texts.map (bytesOf direction)
  plain
  textNode (texts.foldl (fun depth text ↦ max depth text.length) 0) texts

/-! ## Forms -/

def text? : Form → Option (List Char)
  | [.literal text] => some text
  | _ => none

/-- A part that is there or not, given a measure of it. -/
def optional (part : Measure Unit) : Measure Unit := do
  branching 2
  part

/-- So many copies, one after the other. -/
def exactly (count : Nat) (copy : Measure Unit) : Measure Unit :=
  if count = 0 then plain else times count copy

/-- The rounds of a repetition, given a measure of one of them. -/
def ofRounds (least : Nat) (most : Option Nat) (nullable : Bool) (round : Measure Unit) :
    Measure Unit := do
  match least, most with
  | least, some most =>
    if least = most then exactly least round
    else if least = 0 && most = 1 then
      optional round
      plain
    else
      exactly least round
      plain
      times (most - least) (optional round)
  | 0, none =>
    if nullable then
      round
      branching 2
      branching 2
      plain
    else
      branching 2
      round
  | least + 1, none =>
    times (least + 1) round
    branching 2

mutual

def ofPart (direction : Direction) : Part → Measure Unit
  | .literal text => times (bytesOf direction text).length plain
  | .accepted ranges => ofClass direction ranges
  | .check _ => plain
  | .either branches =>
    match branches.mapM text? with
    | some texts => ofTexts direction texts
    | none => ofBranches direction branches
  | .group _ body =>
    match direction with
    | .forward => do
      plain
      ofForm direction body
      plain
    | .backward => ofForm direction body
  | .repeated least most _ nullable body => ofRounds least most nullable (ofForm direction body)

/-- One form; an empty one still takes a state. -/
def ofForm (direction : Direction) : Form → Measure Unit
  | [] => plain
  | [part] => ofPart direction part
  | part :: rest =>
    match direction with
    | .forward => do
      ofPart direction part
      ofForm direction rest
    | .backward => do
      ofForm direction rest
      ofPart direction part

/-- The branches of a choice. The branching state is added behind the first two. -/
def ofBranches (direction : Direction) : List Form → Measure Unit
  | first :: second :: rest => do
    ofForm direction first
    ofForm direction second
    branching (rest.length + 2)
    plain
    ofMoreBranches direction rest
  | branches => ofMoreBranches direction branches

def ofMoreBranches (direction : Direction) : List Form → Measure Unit
  | [] => return
  | branch :: rest => do
    ofForm direction branch
    ofMoreBranches direction rest

end

/-- A whole automaton. One that need not start at a fixed place begins with a loop over all
bytes, and one that reads forward notes where the whole match starts and stops. -/
def ofPattern (direction : Direction) (anchored : Bool) (form : Form) : Measure Unit := do
  if anchored then plain
  else
    branching 2
    plain
    let _ ← state 1
  match direction with
  | .forward =>
    plain
    ofForm direction form
    plain
  | .backward => ofForm direction form
  plain

/-- Whether both automata of an expression stay within the limit. -/
def fits (e : Expression) : Bool :=
  let form := Form.ofExpression e
  ((ofPattern .forward (e.beginsWith .textStart) form).run {}).isSome &&
    ((ofPattern .backward (e.endsWith .textEnd) form).run {}).isSome

end CodeEditor.Footprint
