/-! Names compared without regard to the case of the letters A to Z.
Only those twenty-six letters fold; every other character stands for itself. -/
namespace OfferAllocation
namespace Text

/-- The characters of a name with `A` to `Z` made small. -/
def foldAscii (s : String) : List Char := s.toList.map Char.toLower

/-- Equality of names up to the case of ASCII letters. -/
def sameAscii (s t : String) : Bool := foldAscii s == foldAscii t

theorem sameAscii_iff {s t : String} : sameAscii s t = true ↔ foldAscii s = foldAscii t := by
  simp [sameAscii]

end Text
end OfferAllocation
