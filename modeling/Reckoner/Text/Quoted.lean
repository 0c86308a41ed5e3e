import Reckoner.Text.Printable

/-!
# Quoted text

Text between single quotes, or between double quotes if it holds a single quote and no double one.
The backslash and the quote in use are escaped, and so is every character that is not printable,
with the shortest of the forms `\xNN`, `\uNNNN` and `\UNNNNNNNN` that fits its code point.
-/

namespace Reckoner.Text

/-- A code point in lower-case hexadecimal digits, padded to a width. -/
def hexDigits (width n : Nat) : List Char :=
  let ds := Nat.toDigits 16 n
  List.replicate (width - ds.length) '0' ++ ds

def escape (quote c : Char) : List Char :=
  if c = '\\' || c = quote then ['\\', c]
  else if c = '\n' then ['\\', 'n']
  else if c = '\t' then ['\\', 't']
  else if c = '\r' then ['\\', 'r']
  else if isPrintable c then [c]
  else if c.toNat ≤ 0xff then '\\' :: 'x' :: hexDigits 2 c.toNat
  else if c.toNat ≤ 0xffff then '\\' :: 'u' :: hexDigits 4 c.toNat
  else '\\' :: 'U' :: hexDigits 8 c.toNat

def quoteFor (cs : List Char) : Char := if '\'' ∈ cs ∧ '"' ∉ cs then '"' else '\''

def quoted (text : String) : String :=
  let cs := text.toList
  let quote := quoteFor cs
  .ofList (quote :: cs.flatMap (escape quote) ++ [quote])

end Reckoner.Text
