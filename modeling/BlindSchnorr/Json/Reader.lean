import BlindSchnorr.Json.Token

/-!
# Reading JSON

The tokens of a text are read one at a time. The containers that are still open are kept on
a stack, so nesting is not limited.
-/
namespace BlindSchnorr.Json

/-- A container that is still open, around the value being read. Lists are kept newest
first. -/
inductive Frame
  | array (items : List Json)
  | object (fields : List (JsonText × Json)) (key : JsonText)

/-- What is due next. A container may close at once only where nothing has been read in it. -/
inductive Reader
  | value (stack : List Frame) (opened : Bool)
  | key (fields : List (JsonText × Json)) (stack : List Frame) (opened : Bool)
  | colon (fields : List (JsonText × Json)) (key : JsonText) (stack : List Frame)
  | after (v : Json) (stack : List Frame)

namespace Reader

def step : Reader → Token → Option Reader
  | value stack _, .scalar v => some (after v stack)
  | value stack _, .openArray => some (value (.array [] :: stack) true)
  | value stack _, .openObject => some (key [] stack true)
  | value (.array [] :: stack) true, .closeArray => some (after (.array []) stack)
  | key fields stack _, .scalar (.string k) => some (colon fields k stack)
  | key [] stack true, .closeObject => some (after (.object []) stack)
  | colon fields k stack, .colon => some (value (.object fields k :: stack) false)
  | after v (.array items :: stack), .comma => some (value (.array (v :: items) :: stack) false)
  | after v (.array items :: stack), .closeArray => some (after (.array (v :: items).reverse) stack)
  | after v (.object fields k :: stack), .comma => some (key ((k, v) :: fields) stack false)
  | after v (.object fields k :: stack), .closeObject =>
    some (after (.object ((k, v) :: fields).reverse) stack)
  | _, _ => none

def result? : Reader → Option Json
  | after v [] => some v
  | _ => none

end Reader

def parse? (text : String) : Option Json := do
  let ts ← tokens? text.toList
  let r ← ts.foldlM Reader.step (.value [] false)
  r.result?

end BlindSchnorr.Json
