/-
A program text with the name it is reported under.

The line table holds the byte offsets at which each line starts and stops. A
line feed ends a line and is not part of it, nor is a carriage return right
before it. Messages show the line they are about with a mark under the column.
-/
import SdkUsage.Text.Bytes

namespace SdkUsage

/-- A program text and the file name used in messages. -/
structure Source where
  file : String
  text : String

namespace Source

/-- Characters of the text. -/
def chars (source : Source) : List Char := source.text.toList

/-- Length of the text in bytes. -/
def length (source : Source) : Nat := Text.byteLength source.chars

/-- Entries of the line table for the text from offset `pos` on, where the
current line began at `start` and `afterReturn` tells whether a carriage
return was just read. -/
def lineEntries (start pos : Nat) (afterReturn : Bool) : List Char → List (Nat × Nat)
  | [] => if start < pos then [(start, pos)] else [(pos - 1, pos - 1)]
  | c :: cs =>
    if c = '\n' then
      (start, if afterReturn then pos - 1 else pos) :: lineEntries (pos + 1) (pos + 1) false cs
    else lineEntries start (pos + c.utf8Size) (c = '\r') cs

/-- Start and stop of every line. A text that ends in a line feed has an empty
last line. -/
def lineTable (source : Source) : List (Nat × Nat) :=
  lineEntries 0 0 false source.chars

/-- The line with the given index, counted from zero; empty when there is none. -/
def line (source : Source) (index : Nat) : String :=
  match source.lineTable[index]? with
  | some (start, stop) => String.ofList (Text.slice source.chars start stop)
  | none => ""

/-- A text of spaces. -/
def blanks (n : Nat) : String := String.ofList (List.replicate n ' ')

/-- A text filled up with spaces on the right. -/
def padRight (width : Nat) (text : String) : String := text ++ blanks (width - text.length)

/-- The widest margin a message can put before its mark. -/
def maxMargin : Nat := 65535

/-- A text about a position, with the line it is on and a mark under the column. -/
def excerpt (source : Source) (line col : Nat) (kind text : String) : String :=
  let number := toString line
  let width := number.length + 1
  s!"\n--> {source.file}:{line}:{col}\n{blanks width}|\n"
    ++ s!"{padRight width number}| {source.line (line - 1)}\n"
    ++ s!"{blanks width}| {blanks (col - 1)}^\n{kind}: {text}"

/-- A message about a position. A line beyond the table is named but not shown.
There is no text when the mark would stand further right than `maxMargin`. -/
def message? (source : Source) (line col : Nat) (kind text : String) : Option String :=
  if source.lineTable.length < line then
    some s!"{source.file}: invalid line {line} specified"
  else if maxMargin < col - 1 then none
  else some (source.excerpt line col kind text)

end Source

end SdkUsage
