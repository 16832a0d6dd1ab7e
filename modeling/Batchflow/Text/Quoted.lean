import Batchflow.Text.Hex
import Batchflow.Text.Printable

/-!
# Quoted text

The form in which reports show a text that somebody else wrote: between double quotes, on one
line, every character visible.  A character that would not show by itself is written as its code
point.
-/

namespace Batchflow.Text

/-- How one character is shown between double quotes. -/
def quoteChar (c : Char) : List Char :=
  if c = '\x00' then ['\\', '0']
  else if c = '\t' then ['\\', 't']
  else if c = '\r' then ['\\', 'r']
  else if c = '\n' then ['\\', 'n']
  else if c = '\\' then ['\\', '\\']
  else if c = '"' then ['\\', '"']
  else if showsAlone c then [c]
  else ['\\', 'u', '{'] ++ hexDigits c.toNat ++ ['}']

/-- A text between double quotes. -/
def quote (s : String) : String :=
  String.ofList ('"' :: s.toList.flatMap quoteChar ++ ['"'])

end Batchflow.Text
