import CodeEditor.Text.LineIndex

/-!
# The flash of a jump target

A jump lets its line flash for a while. Times are counted in milliseconds.
-/

namespace CodeEditor

structure Flashing where
  line : Nat
  deadline : Nat
  deriving DecidableEq, Repr

structure Flash where
  duration : Nat := 500
  current : Option Flashing := none
  deriving DecidableEq, Repr

namespace Flash

/-- Starts flashing the line with the given number, or the nearest that exists, in place of what
flashed before. -/
def start (flash : Flash) (lines : LineIndex) (line now : Nat) :
    Except Fault (Flash × LineRange) := do
  let line := max 1 (min line lines.count)
  let range ← lines.range (line - 1)
  return ({ flash with current := some ⟨line, now + flash.duration⟩ }, range)

/-- Ends a flash that is over, and tells its line. -/
def expire (flash : Flash) (now : Nat) : Flash × Option Nat :=
  match flash.current with
  | some current =>
    if current.deadline ≤ now then ({ flash with current := none }, some current.line)
    else (flash, none)
  | none => (flash, none)

def deadline? (flash : Flash) : Option Nat := flash.current.map (·.deadline)

end Flash

end CodeEditor
