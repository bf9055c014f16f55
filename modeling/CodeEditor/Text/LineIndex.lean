import CodeEditor.Fault

/-!
# Lines of a text

A newline ends a line and belongs to no line; a carriage return is content like any other
character. The index keeps the offset at which each line starts and the length of the text, both
in characters, and converts between offsets and pairs of a line and a column.
-/

namespace CodeEditor

/-- The pieces of a text between its newlines. -/
def splitLines (chars : List Char) : List (List Char) :=
  chars.foldr
    (fun c lines ↦
      if c = '\n' then [] :: lines
      else match lines with
        | line :: rest => (c :: line) :: rest
        | [] => [[c]])
    [[]]

/-- The offsets from the start of a line up to its end. -/
structure LineRange where
  start : Nat
  stop : Nat
  deriving DecidableEq, Repr

namespace LineRange

def length (range : LineRange) : Except Fault Nat := Offset.sub range.stop range.start

def isEmpty (range : LineRange) : Bool := range.start == range.stop

/-- The offset behind the last character still belongs to the line. -/
def contains (range : LineRange) (offset : Nat) : Bool :=
  range.start ≤ offset && offset ≤ range.stop

end LineRange

structure LineIndex where
  starts : Array Nat
  length : Nat
  deriving DecidableEq, Repr

namespace LineIndex

/-- The index of the empty text, which has one line. -/
def empty : LineIndex := ⟨#[0], 0⟩

/-- The index of a text that is longer by one character. -/
def push (index : LineIndex) (c : Char) : LineIndex :=
  let length := index.length + 1
  { starts := if c = '\n' then index.starts.push length else index.starts, length }

def ofChars (chars : List Char) : LineIndex := chars.foldl push empty

def ofText (text : String) : LineIndex := ofChars text.toList

@[simp] theorem ofChars_nil : ofChars [] = empty := rfl

theorem ofChars_append_singleton (chars : List Char) (c : Char) :
    ofChars (chars ++ [c]) = (ofChars chars).push c := List.foldl_append

@[simp] theorem length_push (index : LineIndex) (c : Char) :
    (index.push c).length = index.length + 1 := rfl

@[simp] theorem length_ofChars (chars : List Char) : (ofChars chars).length = chars.length := by
  suffices h : ∀ index : LineIndex,
      (chars.foldl push index).length = index.length + chars.length from
    (h empty).trans (Nat.zero_add _)
  induction chars with
  | nil => intro index; rfl
  | cons c rest ih =>
    intro index
    rw [List.foldl_cons, ih, length_push, List.length_cons]
    omega

def count (index : LineIndex) : Nat := index.starts.size

@[simp] theorem count_empty : empty.count = 1 := rfl

@[simp] theorem count_push (index : LineIndex) (c : Char) :
    (index.push c).count = index.count + if c = '\n' then 1 else 0 := by
  unfold push count
  split <;> simp

def isEmpty (index : LineIndex) : Bool := index.length == 0

/-- The range of a line, if there is such a line. -/
def range? (index : LineIndex) (line : Nat) : Option LineRange :=
  index.starts[line]?.map fun start ↦
    ⟨start, match index.starts[line + 1]? with
      | some next => next - 1
      | none => index.length⟩

/-- The range of a line that has to exist. -/
def range (index : LineIndex) (line : Nat) : Except Fault LineRange :=
  match index.range? line with
  | some range => .ok range
  | none => .error (.lineOutOfBounds line index.count)

def startOf (index : LineIndex) (line : Nat) : Except Fault Nat :=
  LineRange.start <$> index.range line

/-- The line of an offset; offsets past the end belong to the last line. -/
def lineOf (index : LineIndex) (offset : Nat) : Nat :=
  index.starts.countP (· ≤ min offset index.length) - 1

/-- The line and column of an offset. -/
def position (index : LineIndex) (offset : Nat) : Nat × Nat :=
  let offset := min offset index.length
  let line := index.lineOf offset
  (line, offset - index.starts.getD line 0)

/-- The offset of a line and column, each as far as there are lines and columns. -/
def offsetOf (index : LineIndex) (line column : Nat) : Nat :=
  match index.range? (min line (index.count - 1)) with
  | some range => range.start + min column (range.stop - range.start)
  | none => 0

end LineIndex

end CodeEditor
