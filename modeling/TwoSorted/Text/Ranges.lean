/-!
# Ranges of characters

A class of characters is listed as the closed ranges of code points that make
it up, in ascending order. The classes are those of Unicode 17.0 throughout, the
version of the toolchain that the program is built with. Version 15.0, which goes
with the oldest toolchain that the program admits, has fewer characters: what it
leaves unassigned is neither a letter nor a digit there and is not printable.
-/

namespace TwoSorted

/-- Whether the code point of `c` lies in one of the closed ranges. -/
def inRanges (ranges : List (Nat × Nat)) (c : Char) : Bool :=
  ranges.any fun (first, last) => first ≤ c.toNat && c.toNat ≤ last

end TwoSorted
