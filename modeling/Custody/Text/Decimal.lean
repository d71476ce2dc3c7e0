/-!
# Whole numbers in decimal

Numbers are written without leading zeros, a negative one behind a minus sign. They are read
more freely: with leading zeros, and with a plus sign where there could be a minus sign.
-/

namespace Custody.Text

def digits (n : Nat) : List Char := Nat.toDigits 10 n

def decimal : Int → List Char
  | .ofNat n => digits n
  | .negSucc n => '-' :: digits (n + 1)

/-- ASCII digits, at least one and nothing else. -/
def readDigits (cs : List Char) : Option Nat :=
  if cs ≠ [] ∧ cs.all Char.isDigit then some (Nat.ofDigitChars 10 cs 0) else none

def readNat : List Char → Option Nat
  | '+' :: cs => readDigits cs
  | cs => readDigits cs

def readInt : List Char → Option Int
  | '-' :: cs => (readDigits cs).map fun n => -(n : Int)
  | cs => (readNat cs).map fun n => (n : Int)

end Custody.Text
