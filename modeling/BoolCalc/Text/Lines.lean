namespace BoolCalc.Text

/-!
# The lines of a text

* `lines` : the lines, each without its end.

A line ends in a line feed, before which one carriage return counts as part of the end. What follows
the last line feed is a line only if it is not empty, and is kept as it stands.
-/

/-- The characters without one `'\r'` at their end. -/
def dropReturn (cs : List Char) : List Char :=
  if cs.getLast? == some '\r' then cs.dropLast else cs

/-- The lines of the characters, without their ends. A last line of no characters is none. -/
def lineChars (cs : List Char) : List (List Char) :=
  let parts := cs.splitOn '\n'
  parts.dropLast.map dropReturn ++ (parts.getLast?.toList.filter fun last => !last.isEmpty)

/-- The lines of the text `s`, without their ends. -/
def lines (s : String) : List String := (lineChars s.toList).map String.ofList

end BoolCalc.Text
