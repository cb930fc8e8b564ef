import Mathlib.Data.List.Basic

/-! Strings as lists of characters, with the searches that requests are taken apart by. -/
namespace AegisOS.Strings

abbrev Text := List Char

/-- Without any number of copies of `pat` at the start; no more copies than characters. -/
def trimStartMatches (pat : Text) : Nat → Text → Text
  | 0, s => s
  | fuel + 1, s => if pat.isPrefixOf s then trimStartMatches pat fuel (s.drop pat.length) else s

/-- What stands before and after the last `c`. -/
def rsplitOnce (c : Char) : Text → Option (Text × Text)
  | [] => none
  | d :: s =>
    match rsplitOnce c s with
    | some (before, after) => some (d :: before, after)
    | none => if d = c then some ([], s) else none

/-- What stands before and after the first `c`. -/
def splitOnce (c : Char) : Text → Option (Text × Text)
  | [] => none
  | d :: s => if d = c then some ([], s) else (splitOnce c s).map fun r => (d :: r.1, r.2)

/-- The characters with the Unicode property White_Space. -/
def isWhite (c : Char) : Bool :=
  let n := c.toNat
  (9 ≤ n ∧ n ≤ 13) ∨ n = 32 ∨ n = 0x85 ∨ n = 0xA0 ∨ n = 0x1680 ∨ (0x2000 ≤ n ∧ n ≤ 0x200A) ∨
    n = 0x2028 ∨ n = 0x2029 ∨ n = 0x202F ∨ n = 0x205F ∨ n = 0x3000

def trim (s : Text) : Text := ((s.dropWhile isWhite).reverse.dropWhile isWhite).reverse

/-- Upper case letters of ASCII become lower case. -/
def lowercase (s : Text) : Text := s.map Char.toLower

def utf8 (s : Text) : List UInt8 := s.flatMap String.utf8EncodeChar

end AegisOS.Strings
