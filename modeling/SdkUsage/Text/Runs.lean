/-
Sets of characters as the character classes of the Unicode standard are, given
by run lengths: how many code points are not in the set, how many then are, and
so on in turn.
-/
namespace SdkUsage.Text

/-- Whether a code point lies in a set, given by the lengths of its gaps and
runs. -/
def inRuns : List Nat → Nat → Bool
  | gap :: run :: rest, code =>
    gap ≤ code && (code < gap + run || inRuns rest (code - (gap + run)))
  | _, _ => false

end SdkUsage.Text
