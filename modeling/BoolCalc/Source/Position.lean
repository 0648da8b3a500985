namespace BoolCalc

/-!
# Positions in a text

* `Position` : a byte offset with its line and column;
* `Position.start`, `Position.advance`, `Position.advanceOver` : the start of a text, and the position
  after one character or a run of them;
* `Position.before` : the order by offset, then line, then column.
-/

/-- A place in a text: `offset` counts bytes from `0`, `line` and `column` count from `1`, and columns count
characters. -/
structure Position where
  offset : Nat
  line : Nat
  column : Nat
  deriving DecidableEq, Repr, Inhabited

namespace Position

def start : Position := ⟨0, 1, 1⟩

/-- The position after a character that stands at `p`: a line feed starts the next line. -/
def advance (p : Position) (c : Char) : Position :=
  if c = '\n' then ⟨p.offset + 1, p.line + 1, 1⟩
  else ⟨p.offset + c.utf8Size, p.line, p.column + 1⟩

/-- The position after a run of characters that starts at `p`. -/
def advanceOver (p : Position) (cs : List Char) : Position := cs.foldl advance p

/-- The line and the column as `line:column`. -/
def display (p : Position) : String := s!"{p.line}:{p.column}"

/-- The order of positions: by `offset`, then by `line`, then by `column`. -/
def before (p q : Position) : Bool :=
  p.offset < q.offset ||
    (p.offset == q.offset && (p.line < q.line || (p.line == q.line && p.column < q.column)))

end Position

end BoolCalc
