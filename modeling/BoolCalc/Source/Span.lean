import BoolCalc.Source.Position
import BoolCalc.Text.Lines
import BoolCalc.Text.Measure

namespace BoolCalc

/-!
# Spans of a text

* `Span` : the part of a text between two positions;
* `Span.point`, `Span.merge` : the empty span at a position, the least span over two;
* `Span.slice` : the text of a span;
* `Span.render` : a message with the line it is about and a row of carets under the span.
-/

/-- The part of a text from `start` up to, not including, `stop`. -/
structure Span where
  start : Position
  stop : Position
  deriving DecidableEq, Repr, Inhabited

namespace Span

/-- The empty span at `p`. -/
def point (p : Position) : Span := ⟨p, p⟩

/-- The span of a character that stands at `p`. -/
def ofChar (p : Position) (c : Char) : Span := ⟨p, p.advance c⟩

/-- The least span over `s` and `t`; of two equal ends that of `s` is kept. -/
def merge (s t : Span) : Span :=
  ⟨if s.start.offset ≤ t.start.offset then s.start else t.start,
   if t.stop.offset ≤ s.stop.offset then s.stop else t.stop⟩

/-- The number of bytes between `s.start` and `s.stop`. -/
def length (s : Span) : Nat := s.stop.offset - s.start.offset

def isEmpty (s : Span) : Bool := s.start.offset == s.stop.offset

/-- The part of `text` in the span, `""` when an end is outside the text or inside a character. -/
def slice (s : Span) (text : String) : String :=
  String.ofList ((Text.slice? s.start.offset s.stop.offset text.toList).getD [])

/-- The span as `1:5-7`, or as both positions when the lines differ. -/
def display (s : Span) : String :=
  if s.start.line = s.stop.line then s!"{s.start.line}:{s.start.column}-{s.stop.column}"
  else s!"{s.start.display}-{s.stop.display}"

/-- The number of carets under a span: its columns, but `1` when it is empty or runs over a line end. -/
def caretCount (s : Span) : Nat :=
  if s.start.line = s.stop.line then max (s.stop.column - s.start.column) 1 else 1

/-- The line of `text` that the span starts on, `""` when the text has fewer lines. -/
def firstLine (s : Span) (text : String) : String :=
  ((Text.lines text)[s.start.line - 1]?).getD ""

/-- The `message`, the place, the line and the row of carets, each on a line of its own. -/
def render (s : Span) (text message : String) : String :=
  let gutter := toString s.start.line
  let padding := Text.repeated gutter.length ' '
  let indent := Text.repeated (s.start.column - 1) ' '
  let carets := Text.repeated s.caretCount '^'
  s!"error: {message}\n{padding}--> {s.start.display}\n{padding} |\n{gutter} | " ++
    s!"{s.firstLine text}\n{padding} | {indent}{carets}\n"

end Span

end BoolCalc
