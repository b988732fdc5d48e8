import OfferAllocation.Text.CaseTable

/-! Full lower-casing of text. A letter has a small form of its own whatever its neighbours, save
the Greek capital sigma, which takes its final form at the end of a word. -/
namespace OfferAllocation
namespace Text

def isCased (c : Char) : Bool :=
  if c.toNat < 0x80 then c.isAlpha else casedRanges.contains c

def isCaseIgnorable (c : Char) : Bool := caseIgnorableRanges.contains c

/-- The small form of a character outside any context; the dotted capital I keeps its dot. -/
def lowerChar (c : Char) : List Char :=
  if c.toNat < 0x80 then [c.toLower]
  else if c = 'İ' then ['i','\u0307']
  else match caseRuns.find? (·.holds c.toNat) with
    | some r => [Char.ofNat (r.lower c.toNat)]
    | none => [c]

/-- The first character that is not passed over is a cased one. -/
def meetsCased (cs : List Char) : Bool :=
  match cs.dropWhile isCaseIgnorable with
  | [] => false
  | c :: _ => isCased c

/-- A sigma ends its word if a letter comes before it and none after it. -/
def lowerSigma (before after : List Char) : Char :=
  if meetsCased before && !meetsCased after then 'ς' else 'σ'

/-- Lower-casing of a text of which `before` has been passed, latest character first. -/
def lowerAfter (before : List Char) : List Char → List Char
  | [] => []
  | c :: cs =>
    (if c = 'Σ' then [lowerSigma before cs] else lowerChar c) ++ lowerAfter (c :: before) cs

def lower (s : String) : List Char := lowerAfter [] s.toList

/-- Equality of texts up to case. -/
def sameLower (s t : String) : Bool := lower s == lower t

theorem sameLower_iff {s t : String} : sameLower s t = true ↔ lower s = lower t := by
  simp [sameLower]

end Text
end OfferAllocation
