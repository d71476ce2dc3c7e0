/-!
# Tokens of a command line

An argument that begins with two dashes names an option, with a value attached behind an equals
sign or without; one that begins with a single dash is a row of one-letter options, or a
negative number. Two dashes alone end the options, and a single dash alone is an ordinary word.
-/

namespace Custody.CommandLine

inductive Token where
  | escape
  | long (name : List Char) (attached : Option (List Char))
  | short (letters : List Char)
  | word
  deriving DecidableEq, Repr

namespace Token

def ofLong (cs : List Char) : Token :=
  match cs.dropWhile (· ≠ '=') with
  | [] => long cs none
  | _ :: v => long (cs.takeWhile (· ≠ '=')) (some v)

def ofChars : List Char → Token
  | ['-', '-'] => escape
  | '-' :: '-' :: cs => ofLong cs
  | ['-'] => word
  | '-' :: cs => short cs
  | _ => word

end Token

/-- What may follow the whole part of a number: a point with digits or none, and then an `e` with
at least one digit. -/
def looksFractional (cs : List Char) : Bool :=
  let rest := match cs with
    | '.' :: r => r.dropWhile Char.isDigit
    | r => r
  match rest with
  | [] => true
  | c :: r => (c == 'e' || c == 'E') && !r.isEmpty && r.all Char.isDigit

/-- What stands behind the minus sign of a number, by its looks only. -/
def looksNumeric (cs : List Char) : Bool :=
  cs.head?.any Char.isDigit && looksFractional (cs.dropWhile Char.isDigit)

end Custody.CommandLine
