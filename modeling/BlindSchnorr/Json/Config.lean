import BlindSchnorr.Config
import BlindSchnorr.Json.Reader

/-!
# Configurations in JSON

A configuration is an object with the two known keys, each at most once, or an array of the
two values by position. What is missing takes its default and unknown keys are passed over.
The range of the probe window is not checked here.
-/
namespace BlindSchnorr.Config

def windowKey : String := "decompression_probe_window"

def checkKey : String := "blind_self_check"

/-- Reads a probe window, a number of at most 64 bits. -/
def readWindow (v : Json) : Option Nat := v.natural?.filter (· < UInt64.size)

structure Draft where
  window : Option Nat := none
  check : Option Bool := none

namespace Draft

/-- Reads a field. A key that cannot be decoded is refused, as is a known one that comes
again. -/
def read (d : Draft) (field : JsonText × Json) : Option Draft := do
  let key ← field.1
  if key = windowKey.toList then
    if d.window.isSome then none
    else do
      let w ← readWindow field.2
      some { d with window := some w }
  else if key = checkKey.toList then
    if d.check.isSome then none
    else do
      let b ← field.2.bool?
      some { d with check := some b }
  else some d

/-- The configuration of the fields, with defaults for those that are missing. -/
def config (d : Draft) : Config :=
  { probeWindow := d.window.getD ({} : Config).probeWindow
    blindSelfCheck := d.check.getD ({} : Config).blindSelfCheck }

end Draft

def ofJson? : Json → Option Config
  | .array [] => some {}
  | .array [w] => do
    let window ← readWindow w
    some { probeWindow := window }
  | .array [w, b] => do
    let window ← readWindow w
    let check ← b.bool?
    some ⟨window, check⟩
  | .object fields => (fields.foldlM Draft.read {}).map Draft.config
  | _ => none

def parse? (text : String) : Option Config := Json.parse? text >>= ofJson?

/-- A configuration as a JSON object without blanks. -/
def toJson (c : Config) : String :=
  "\x7b\"" ++ windowKey ++ "\":" ++ toString c.probeWindow ++ ",\"" ++ checkKey ++ "\":" ++
    (if c.blindSelfCheck then "true" else "false") ++ "\x7d"

end BlindSchnorr.Config
