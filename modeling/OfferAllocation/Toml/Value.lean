/-! Trees of configuration text. The entries of a table come in the order in which the text first
names them. -/
namespace OfferAllocation

inductive Toml
  | string (text : String)
  | integer (value : Int)
  | float (value : Float)
  | boolean (value : Bool)
  | dateTime (text : String)
  | array (items : List Toml)
  | table (entries : List (String × Toml))

end OfferAllocation
