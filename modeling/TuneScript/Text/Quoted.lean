import TuneScript.Text.Printable

/-!
Quoted texts. A text is quoted with `'`, or with `"` when it holds a `'` and no `"`.
The quote, the backslash and characters without a printed form are escaped.
-/

namespace TuneScript.Text

def singleQuote : Char := Char.ofNat 39
def doubleQuote : Char := Char.ofNat 34

def quoteFor (s : String) : Char :=
  if s.toList.contains singleQuote && !s.toList.contains doubleQuote then doubleQuote
  else singleQuote

/-- `n` in hexadecimal, padded with zeros to `width` digits. -/
def hex (width n : Nat) : List Char :=
  let digits := Nat.toDigits 16 n
  List.replicate (width - digits.length) '0' ++ digits

def escape (quote c : Char) : List Char :=
  if c = quote || c = '\\' then ['\\', c]
  else if c = '\n' then ['\\', 'n']
  else if c = '\t' then ['\\', 't']
  else if c = '\r' then ['\\', 'r']
  else if isPrintable c then [c]
  else if c.toNat < 0x100 then '\\' :: 'x' :: hex 2 c.toNat
  else if c.toNat < 0x10000 then '\\' :: 'u' :: hex 4 c.toNat
  else '\\' :: 'U' :: hex 8 c.toNat

def quoted (s : String) : String :=
  let quote := quoteFor s
  String.ofList (quote :: s.toList.flatMap (escape quote) ++ [quote])

end TuneScript.Text
