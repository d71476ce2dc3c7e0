import Custody.Text.Decimal

/-!
# JSON

Values and their compact text: no blanks, members in the order given, whole numbers only. In a
string only the quote, the backslash and the characters below U+0020 are escaped, by their short
form where there is one.
-/

namespace Custody

inductive Json where
  | bool (b : Bool)
  | int (i : Int)
  | text (s : String)
  | list (items : List Json)
  | record (members : List (String × Json))

namespace Json

/-- The letter of a short escape. -/
def letter? : Char → Option Char
  | '"' => some '"'
  | '\\' => some '\\'
  | '\x08' => some 'b'
  | '\x0c' => some 'f'
  | '\n' => some 'n'
  | '\r' => some 'r'
  | '\t' => some 't'
  | _ => none

def writeChar (c : Char) : List Char :=
  match letter? c with
  | some l => ['\\', l]
  | none =>
    if c.toNat < 0x20 then
      ['\\', 'u', '0', '0', Nat.digitChar (c.toNat / 16), Nat.digitChar (c.toNat % 16)]
    else [c]

def writeText (s : String) : List Char := '"' :: (s.toList.flatMap writeChar ++ ['"'])

mutual

def write : Json → List Char
  | bool true => "true".toList
  | bool false => "false".toList
  | int i => Text.decimal i
  | text s => writeText s
  | list items => '[' :: (writeItems items ++ [']'])
  | record members => '\x7b' :: (writeMembers members ++ ['\x7d'])

def writeItems : List Json → List Char
  | [] => []
  | [v] => write v
  | v :: w :: rest => write v ++ ',' :: writeItems (w :: rest)

def writeMembers : List (String × Json) → List Char
  | [] => []
  | [(name, v)] => writeText name ++ ':' :: write v
  | (name, v) :: m :: rest => writeText name ++ ':' :: (write v ++ ',' :: writeMembers (m :: rest))

end

def render (v : Json) : String := String.ofList v.write

end Json

end Custody
