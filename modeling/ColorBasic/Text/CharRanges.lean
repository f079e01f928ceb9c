/-!
# Character properties given by tables of code points

A property is a list of inclusive ranges of code points in ascending order.
-/

namespace ColorBasic

/-- Text is handled as the list of its characters. -/
abbrev Text := List Char

namespace Text

/-- Whether the code point of a character lies in one of the inclusive ranges. -/
def inRanges (ranges : List (Nat × Nat)) (c : Char) : Bool :=
  ranges.any fun range => range.1 ≤ c.toNat && c.toNat ≤ range.2

end Text
end ColorBasic
