/-! # Decimal numbers

Numbers of 64 bits as they are written on a command line: an optional plus sign and ASCII digits.
The first thing wrong, read from the left, decides the error. -/

namespace Dmg

inductive NumberError where
  | empty
  | digit
  | tooLarge
deriving DecidableEq

def NumberError.message : NumberError → String
  | .empty => "cannot parse integer from empty string"
  | .digit => "invalid digit found in string"
  | .tooLarge => "number too large to fit in target type"

namespace Decimal

/-- The number with the digits of `n` followed by these. -/
def ofDigits : List Char → Nat → Except NumberError Nat
  | [], n => .ok n
  | c :: cs, n =>
    if c.isDigit then
      let n := 10 * n + (c.toNat - '0'.toNat)
      if n < 2 ^ 64 then ofDigits cs n else .error .tooLarge
    else .error .digit

def parse (s : String) : Except NumberError Nat :=
  match s.toList with
  | [] => .error .empty
  | '+' :: c :: cs => ofDigits (c :: cs) 0
  | cs => ofDigits cs 0

end Decimal

end Dmg
