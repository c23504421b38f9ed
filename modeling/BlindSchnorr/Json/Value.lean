/-!
# JSON values

A value keeps its numbers as they are spelled and its fields in their order, repetitions
included. A string in which an escaped surrogate stands alone is a legal token without a
content.
-/
namespace BlindSchnorr

/-- The content of a string, or none if it cannot be decoded. -/
abbrev JsonText := Option (List Char)

inductive Json
  | null
  | bool (b : Bool)
  | number (literal : List Char)
  | string (content : JsonText)
  | array (items : List Json)
  | object (fields : List (JsonText × Json))

namespace Json

def digitsValue (ds : List Char) : Nat := ds.foldl (fun acc d => 10 * acc + (d.toNat - 48)) 0

/-- The number that a value spells in digits alone. -/
def natural? : Json → Option Nat
  | number literal => if literal.all Char.isDigit then some (digitsValue literal) else none
  | _ => none

def bool? : Json → Option Bool
  | bool b => some b
  | _ => none

end Json

end BlindSchnorr
