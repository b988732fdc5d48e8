import OfferAllocation.Config
import OfferAllocation.Toml.Document

/-! Configuration as text. What is left out has its default, and what is not known is passed over. -/
namespace OfferAllocation

/-- Why a configuration could not be read: there is no file, or its bytes are no text, or the text
is not in order, or it does not describe a configuration. -/
inductive ConfigError
  | missing
  | notText
  | malformed
  | misfit (m : Misfit)
  deriving DecidableEq

/-- A variant is given by its name, or by a table with that one name, for which a table or an array
stands that holds nothing. -/
def variantOfToml {α : Type} (table : List (String × α)) : Toml → Except Misfit α
  | .string s => variantNamed table s
  | .table [(k,v)] => do
    let a ← variantNamed table k
    match v with
    | .table [] => .ok a
    | .array [] => .ok a
    | _ => .error .shape
  | _ => .error .shape

namespace AllocatorSettings

def setMode (c : AllocatorSettings) (v : Toml) : Except Misfit AllocatorSettings := do
  let mode ← variantOfToml FilterMode.table v
  return { c with filterMode := mode }

def setStrategy (c : AllocatorSettings) (v : Toml) : Except Misfit AllocatorSettings := do
  let strategy ← variantOfToml Strategy.table v
  return { c with defaultStrategy := strategy }

def setEntry (c : AllocatorSettings) (e : String × Toml) : Except Misfit AllocatorSettings :=
  if e.1 = "filter_mode" then c.setMode e.2
  else if e.1 = "default_strategy" then c.setStrategy e.2
  else .ok c

/-- An array gives the settings by position, and a point in time gives none of them. -/
def ofToml : Toml → Except Misfit AllocatorSettings
  | .table es => es.foldlM setEntry {}
  | .array [] => .ok {}
  | .array [v] => setMode {} v
  | .array (v :: w :: _) => do
    let c ← setMode {} v
    c.setStrategy w
  | .dateTime _ => .ok {}
  | _ => .error .shape

end AllocatorSettings

namespace Config

def setEntry (c : Config) (e : String × Toml) : Except Misfit Config :=
  if e.1 = "allocator" then do
    let a ← AllocatorSettings.ofToml e.2
    return { c with allocator := a }
  else .ok c

/-- The configuration that the entries of a document describe. -/
def ofEntries (es : List (String × Toml)) : Except Misfit Config := es.foldlM setEntry {}

def ofText (text : String) : Except ConfigError Config :=
  match Toml.parse text with
  | none => .error .malformed
  | some es => match ofEntries es with
    | .ok c => .ok c
    | .error m => .error (.misfit m)

/-- The configuration in a file, given the bytes of the file if it is there. -/
def ofFile : Option ByteArray → Except ConfigError Config
  | none => .error .missing
  | some bytes => match String.fromUTF8? bytes with
    | none => .error .notText
    | some text => ofText text

def toText (c : Config) : String :=
  "[allocator]\nfilter_mode = \"" ++ c.allocator.filterMode.name ++
    "\"\ndefault_strategy = \"" ++ c.allocator.defaultStrategy.name ++ "\"\n"

end Config
end OfferAllocation
