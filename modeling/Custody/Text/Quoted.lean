import Custody.Text.Hexadecimal
import Custody.Text.Unprintable

/-!
# Quoted text

Text between double quotes. The quote, the backslash, the usual line and tab controls and NUL
have a letter of their own behind a backslash; any other character that does not show is
written by its code point in hexadecimal. Everything else, a single quote too, stands for
itself.
-/

namespace Custody.Text

/-- The letter that stands for a character behind a backslash. -/
def quoteLetter? : Char → Option Char
  | '"' => some '"'
  | '\\' => some '\\'
  | '\n' => some 'n'
  | '\r' => some 'r'
  | '\t' => some 't'
  | '\x00' => some '0'
  | _ => none

def quoteChar (c : Char) : List Char :=
  match quoteLetter? c with
  | some l => ['\\', l]
  | none =>
    if isUnprintable c then '\\' :: 'u' :: '\x7b' :: (hex c.toNat ++ ['\x7d']) else [c]

def quoted (s : String) : List Char := '"' :: (s.toList.flatMap quoteChar ++ ['"'])

/-- The character that a letter behind a backslash stands for. -/
def unquoteLetter? : Char → Option Char
  | '"' => some '"'
  | '\\' => some '\\'
  | 'n' => some '\n'
  | 'r' => some '\r'
  | 't' => some '\t'
  | '0' => some '\x00'
  | _ => none

/-- Where a reader of quoted text stands: between characters, behind a backslash, before the
opening brace of a code point, or inside it with the number so far. -/
inductive QuotedPart where
  | plain
  | letter
  | brace
  | number (n : Nat)
  deriving DecidableEq, Repr

/-- The rest of a quoted text, and what follows its closing quote. -/
def readQuotedFrom : QuotedPart → List Char → Option (List Char × List Char)
  | _, [] => none
  | .plain, c :: rest =>
    if c = '"' then some ([], rest)
    else if c = '\\' then readQuotedFrom .letter rest
    else do
      let (cs, after) ← readQuotedFrom .plain rest
      return (c :: cs, after)
  | .letter, l :: rest =>
    if l = 'u' then readQuotedFrom .brace rest
    else do
      let c ← unquoteLetter? l
      let (cs, after) ← readQuotedFrom .plain rest
      return (c :: cs, after)
  | .brace, b :: rest => if b = '\x7b' then readQuotedFrom (.number 0) rest else none
  | .number n, d :: rest =>
    if d = '\x7d' then do
      let c ← charOf? n
      let (cs, after) ← readQuotedFrom .plain rest
      return (c :: cs, after)
    else do readQuotedFrom (.number (n * 16 + (← hexDigit? d))) rest

/-- The text that stands in quotes at the beginning, and what follows it. -/
def readQuoted : List Char → Option (String × List Char)
  | '"' :: cs => (readQuotedFrom .plain cs).map fun (s, after) => (String.ofList s, after)
  | _ => none

end Custody.Text
