/-
The place of a piece of a program text: where it starts, as line and column
for messages, and the byte offsets between which it lies.
-/
import SdkUsage.Source
import SdkUsage.Text.Escape

namespace SdkUsage

/-- A piece of a program text. Lines and columns are counted from one, offsets
in bytes from zero. -/
structure Span where
  line : Nat
  col : Nat
  start : Nat
  stop : Nat
  deriving DecidableEq, Inhabited

namespace Span

/-- The text a span covers. -/
def text (span : Span) (source : Source) : String :=
  String.ofList (Text.slice source.chars span.start span.stop)

/-- A message about the start of a span. -/
def message? (span : Span) (source : Source) (kind text : String) : Option String :=
  source.message? span.line span.col kind text

/-- Bytes of a span's text that its summary shows. -/
def summaryLength : Nat := 32

/-- Position and text of a span in one line. A long text is cut, and there is
no summary when the cut would split a character. -/
def summary? (span : Span) (text : String) : Option String :=
  let escaped := Text.escape text.toList
  let shown :=
    if summaryLength < Text.byteLength escaped then
      (Text.cut? summaryLength escaped).map (· ++ "...".toList)
    else some escaped
  shown.map fun shown =>
    s!"{span.line}:{span.col}:{span.start}:{span.stop}, \"" ++ String.ofList shown ++ "\""

end Span

end SdkUsage
