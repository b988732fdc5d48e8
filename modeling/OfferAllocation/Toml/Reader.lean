/-! Readers of text: each takes what it reads off the front of the characters that are left, or
fails and takes nothing. -/
namespace OfferAllocation

abbrev Reader (α : Type) := StateT (List Char) Option α

namespace Reader

def peek : Reader (Option Char) := do return (← get).head?

/-- Takes one character of a class. -/
def one (good : Char → Bool) : Reader Char := fun
  | c :: cs => if good c then some (c,cs) else none
  | [] => none

def mark (c : Char) : Reader Unit := do
  let _ ← one (· == c)

def word (cs : List Char) : Reader Unit := cs.forM mark

/-- Takes the longest run of characters of a class, which may be empty. -/
def span (good : Char → Bool) : Reader (List Char) := fun cs =>
  some (cs.takeWhile good,cs.dropWhile good)

def finished : Reader Unit := fun cs => if cs.isEmpty then some ((),cs) else none

/-- Reads again and again, up to the first failure or the first round that takes nothing. -/
def rounds {α : Type} (p : Reader α) (cs : List Char) : List α × List Char :=
  match p cs with
  | none => ([],cs)
  | some (a,rest) =>
    if rest.length < cs.length then
      let (as,rest) := rounds p rest
      (a :: as,rest)
    else ([],cs)
termination_by cs.length

def many {α : Type} (p : Reader α) : Reader (List α) := fun cs => some (rounds p cs)

/-- Any number of items with a separator between each two. -/
def separated {α : Type} (p : Reader α) (separator : Reader Unit) : Reader (List α) :=
  (do
    let a ← p
    let as ← many (do separator; p)
    return a :: as) <|> pure []

def optional (p : Reader Unit) : Reader Unit := p <|> pure ()

end Reader
end OfferAllocation
