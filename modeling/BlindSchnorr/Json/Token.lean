import BlindSchnorr.Json.Value

/-!
# JSON tokens

The characters of a text are read one at a time by a machine with five modes. The rules are
strict: four blanks, no leading zeros, no bare control characters in strings.
-/
namespace BlindSchnorr.Json

/-- A token: a mark of structure or a whole scalar value. -/
inductive Token
  | openArray
  | closeArray
  | openObject
  | closeObject
  | comma
  | colon
  | scalar (v : Json)

def mark? (c : Char) : Option Token :=
  if c = '[' then some .openArray
  else if c = ']' then some .closeArray
  else if c = '\x7b' then some .openObject
  else if c = '\x7d' then some .closeObject
  else if c = ',' then some .comma
  else if c = ':' then some .colon
  else none

def isBlank (c : Char) : Bool := c = ' ' || c = '\t' || c = '\n' || c = '\r'

/-- Whether a character can be part of a number or a word. -/
def isBare (c : Char) : Bool := c.isAlphanum || c = '-' || c = '+' || c = '.'

def isDigits (cs : List Char) : Bool := !cs.isEmpty && cs.all Char.isDigit

/-- The exponent of a number, which may be missing. -/
def isExponent : List Char → Bool
  | [] => true
  | e :: sign :: rest =>
    (e = 'e' || e = 'E') && isDigits (if sign = '+' || sign = '-' then rest else sign :: rest)
  | _ => false

/-- The fraction and the exponent of a number, which may be missing. -/
def isFraction : List Char → Bool
  | '.' :: rest => isDigits (rest.takeWhile Char.isDigit) && isExponent (rest.dropWhile Char.isDigit)
  | rest => isExponent rest

/-- A number without a sign. Zero is the only integer part that starts with a zero. -/
def isUnsigned (cs : List Char) : Bool :=
  let whole := cs.takeWhile Char.isDigit
  isDigits whole && (whole.head? != some '0' || whole.length = 1) &&
    isFraction (cs.dropWhile Char.isDigit)

def isNumber : List Char → Bool
  | '-' :: rest => isUnsigned rest
  | cs => isUnsigned cs

/-- The scalar that a run of bare characters spells. -/
def word? (w : List Char) : Option Json :=
  if w = "true".toList then some (.bool true)
  else if w = "false".toList then some (.bool false)
  else if w = "null".toList then some .null
  else if isNumber w then some (.number w)
  else none

def hexValue? (c : Char) : Option Nat :=
  if c.isDigit then some (c.toNat - 48)
  else if 'a' ≤ c ∧ c ≤ 'f' then some (c.toNat - 87)
  else if 'A' ≤ c ∧ c ≤ 'F' then some (c.toNat - 55)
  else none

/-- The code that a character stands for behind a backslash. -/
def escape? (c : Char) : Option Nat :=
  if c = '"' || c = '\\' || c = '/' then some c.toNat
  else if c = 'b' then some 8
  else if c = 'f' then some 12
  else if c = 'n' then some 10
  else if c = 'r' then some 13
  else if c = 't' then some 9
  else none

/-- The text of a list of codes. Codes of surrogates have to come in pairs, high before low. -/
def decode : List Nat → JsonText
  | [] => some []
  | [u] => if 0xD800 ≤ u ∧ u < 0xE000 then none else some [Char.ofNat u]
  | u :: v :: rest =>
    if 0xD800 ≤ u ∧ u < 0xDC00 ∧ 0xDC00 ≤ v ∧ v < 0xE000 then
      (decode rest).map (Char.ofNat (0x10000 + (u - 0xD800) * 0x400 + (v - 0xDC00)) :: ·)
    else if 0xD800 ≤ u ∧ u < 0xE000 then none
    else (decode (v :: rest)).map (Char.ofNat u :: ·)

/-- What the characters before have begun. Lists are kept newest first. -/
inductive Mode
  | gap
  | word (letters : List Char)
  | string (codes : List Nat)
  | escape (codes : List Nat)
  | hex (left value : Nat) (codes : List Nat)

/-- The state of the reader: its mode and the tokens so far, newest first. -/
structure Lexer where
  mode : Mode := .gap
  tokens : List Token := []

namespace Lexer

/-- Ends a run of bare characters. -/
def close (l : Lexer) : Option Lexer :=
  match l.mode with
  | .gap => some l
  | .word letters => (word? letters.reverse).map fun v => ⟨.gap, .scalar v :: l.tokens⟩
  | _ => none

/-- Reads a character between tokens. -/
def begin (tokens : List Token) (c : Char) : Option Lexer :=
  if isBlank c then some ⟨.gap, tokens⟩
  else if c = '"' then some ⟨.string [], tokens⟩
  else if isBare c then some ⟨.word [c], tokens⟩
  else (mark? c).map fun t => ⟨.gap, t :: tokens⟩

def step (l : Lexer) (c : Char) : Option Lexer :=
  match l.mode with
  | .gap => begin l.tokens c
  | .word letters =>
    if isBare c then some { l with mode := .word (c :: letters) }
    else l.close.bind fun l => begin l.tokens c
  | .string codes =>
    if c = '"' then some ⟨.gap, .scalar (.string (decode codes.reverse)) :: l.tokens⟩
    else if c = '\\' then some { l with mode := .escape codes }
    else if c.toNat < 32 then none
    else some { l with mode := .string (c.toNat :: codes) }
  | .escape codes =>
    if c = 'u' then some { l with mode := .hex 4 0 codes }
    else (escape? c).map fun u => { l with mode := .string (u :: codes) }
  | .hex left value codes =>
    (hexValue? c).map fun d =>
      if left ≤ 1 then { l with mode := .string ((16 * value + d) :: codes) }
      else { l with mode := .hex (left - 1) (16 * value + d) codes }

end Lexer

def tokens? (cs : List Char) : Option (List Token) := do
  let l ← cs.foldlM Lexer.step {}
  let l ← l.close
  some l.tokens.reverse

end BlindSchnorr.Json
