import Custody.Json.Basic
import Custody.Text.Hexadecimal

/-!
# Reading JSON

Reads one value, with blanks wherever JSON allows them. Numbers with a fraction or an exponent
are not read, nor are `null` and escapes for half a surrogate pair: no value here needs them.
The reader is for texts of any origin, so it accepts more than is ever written.
-/

namespace Custody.Json

def isBlank (c : Char) : Bool := c == ' ' || c == '\t' || c == '\n' || c == '\r'

def skip (cs : List Char) : List Char := cs.dropWhile isBlank

/-- The character a short escape stands for. -/
def unletter? : Char → Option Char
  | '"' => some '"'
  | '\\' => some '\\'
  | '/' => some '/'
  | 'b' => some '\x08'
  | 'f' => some '\x0c'
  | 'n' => some '\n'
  | 'r' => some '\r'
  | 't' => some '\t'
  | _ => none

/-- The character with the number that four hexadecimal digits give. -/
def ofHex? (a b c d : Char) : Option Char := do
  let high := (← Text.hexDigit? a) * 16 + (← Text.hexDigit? b)
  let low := (← Text.hexDigit? c) * 16 + (← Text.hexDigit? d)
  Text.charOf? (high * 256 + low)

/-- The rest of a string behind its opening quote, and what follows the string. -/
def readText : List Char → Option (List Char × List Char)
  | [] => none
  | '"' :: rest => some ([], rest)
  | '\\' :: 'u' :: a :: b :: c :: d :: rest => do
    let x ← ofHex? a b c d
    let (xs, after) ← readText rest
    return (x :: xs, after)
  | '\\' :: l :: rest => do
    let x ← unletter? l
    let (xs, after) ← readText rest
    return (x :: xs, after)
  | x :: rest =>
    if x.toNat < 0x20 ∨ x = '\\' then none else do
      let (xs, after) ← readText rest
      return (x :: xs, after)

/-- Digits without a leading zero, unless zero is all there is. -/
def readDigits (cs : List Char) : Option (Nat × List Char) :=
  let ds := cs.takeWhile Char.isDigit
  if ds.head? = some '0' ∧ ds ≠ ['0'] then none
  else (Text.readDigits ds).map fun n => (n, cs.dropWhile Char.isDigit)

def readNumber : List Char → Option (Int × List Char)
  | '-' :: cs => (readDigits cs).map fun (n, rest) => (-(n : Int), rest)
  | cs => (readDigits cs).map fun (n, rest) => ((n : Int), rest)

mutual

/-- The first argument bounds how many brackets and commas may be passed. -/
def readValue : Nat → List Char → Option (Json × List Char)
  | 0, _ => none
  | fuel + 1, cs =>
    match skip cs with
    | '"' :: rest => do
      let (s, after) ← readText rest
      return (text (String.ofList s), after)
    | '[' :: rest =>
      match skip rest with
      | ']' :: after => some (list [], after)
      | _ => do
        let (vs, after) ← readItems fuel rest
        return (list vs, after)
    | '\x7b' :: rest =>
      match skip rest with
      | '\x7d' :: after => some (record [], after)
      | _ => do
        let (ms, after) ← readMembers fuel rest
        return (record ms, after)
    | 't' :: 'r' :: 'u' :: 'e' :: after => some (bool true, after)
    | 'f' :: 'a' :: 'l' :: 's' :: 'e' :: after => some (bool false, after)
    | rest => (readNumber rest).map fun (i, after) => (int i, after)

/-- Items up to and with the closing bracket. -/
def readItems : Nat → List Char → Option (List Json × List Char)
  | 0, _ => none
  | fuel + 1, cs => do
    let (v, rest) ← readValue fuel cs
    match skip rest with
    | ',' :: rest =>
      let (vs, after) ← readItems fuel rest
      return (v :: vs, after)
    | ']' :: after => return ([v], after)
    | _ => none

/-- Members up to and with the closing brace. -/
def readMembers : Nat → List Char → Option (List (String × Json) × List Char)
  | 0, _ => none
  | fuel + 1, cs =>
    match skip cs with
    | '"' :: rest => do
      let (name, rest) ← readText rest
      match skip rest with
      | ':' :: rest =>
        let (v, rest) ← readValue fuel rest
        match skip rest with
        | ',' :: rest =>
          let (ms, after) ← readMembers fuel rest
          return ((String.ofList name, v) :: ms, after)
        | '\x7d' :: after => return ([(String.ofList name, v)], after)
        | _ => none
      | _ => none
    | _ => none

end

/-- The value a whole text holds. -/
def parse? (s : String) : Option Json := do
  let cs := s.toList
  let (v, rest) ← readValue (cs.length + 1) cs
  if (skip rest).isEmpty then some v else none

end Custody.Json
