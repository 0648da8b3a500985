namespace BoolCalc.Text

/-!
# Lengths and cuts in bytes

Offsets and lengths count the bytes of the UTF-8 form.

* `byteLength` : the length of a run of characters;
* `dropBytes?`, `cutBytes?` : what follows and what precedes a byte offset, if the offset lies between
  two characters;
* `slice?` : the part between two such offsets.
-/

/-- The sum of `Char.utf8Size`. -/
def byteLength (cs : List Char) : Nat := cs.foldl (fun n c => n + c.utf8Size) 0

/-- What follows byte `n`, if `n` lies between two characters or at an end. -/
def dropBytes? : Nat → List Char → Option (List Char)
  | 0, cs => some cs
  | _ + 1, [] => none
  | n + 1, c :: cs => if c.utf8Size ≤ n + 1 then dropBytes? (n + 1 - c.utf8Size) cs else none

/-- What precedes byte `n`, if `n` lies between two characters or at an end. -/
def cutBytes? : Nat → List Char → Option (List Char)
  | 0, _ => some []
  | _ + 1, [] => none
  | n + 1, c :: cs =>
    if c.utf8Size ≤ n + 1 then (cutBytes? (n + 1 - c.utf8Size) cs).map (c :: ·) else none

/-- The characters from byte `start` up to byte `stop`, if both lie between two characters. -/
def slice? (start stop : Nat) (cs : List Char) : Option (List Char) :=
  if start ≤ stop then (dropBytes? start cs).bind (cutBytes? (stop - start)) else none

/-- The character `c`, `n` times over. -/
def repeated (n : Nat) (c : Char) : String := String.ofList (List.replicate n c)

end BoolCalc.Text
