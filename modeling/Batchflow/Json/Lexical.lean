import Batchflow.Json.Value
import Batchflow.Text.Hex

/-!
# The smallest parts of JSON text

Blanks, words, strings.  Everything reads from the front of a list of characters and returns what
is left.  A string that is read has to be text: an escaped surrogate must be followed by its
partner.  A string that is only skipped need not.
-/

namespace Batchflow.Json

/-- The characters that may stand between the parts of JSON text. -/
def isSpace (c : Char) : Bool := c == ' ' || c == '\n' || c == '\t' || c == '\r'

def skipSpace (cs : List Char) : List Char := cs.dropWhile isSpace

def expect? : List Char → List Char → Option (List Char)
  | [], cs => some cs
  | _ :: _, [] => none
  | w :: word, c :: cs => if w = c then expect? word cs else none

/-- What a letter after a backslash stands for, other than a code unit. -/
def unescape? (c : Char) : Option Char :=
  if c = '"' then some '"'
  else if c = '\\' then some '\\'
  else if c = '/' then some '/'
  else if c = 'b' then some '\x08'
  else if c = 'f' then some '\x0c'
  else if c = 'n' then some '\n'
  else if c = 'r' then some '\r'
  else if c = 't' then some '\t'
  else none

def codeUnit? (a b c d : Char) : Option Nat :=
  match Text.hexValue? a, Text.hexValue? b, Text.hexValue? c, Text.hexValue? d with
  | some a, some b, some c, some d => some (4096 * a + 256 * b + 16 * c + d)
  | _, _, _, _ => none

def isLeading (n : Nat) : Bool := 0xD800 ≤ n && n < 0xDC00

def isTrailing (n : Nat) : Bool := 0xDC00 ≤ n && n < 0xE000

def joinSurrogates (leading trailing : Nat) : Char :=
  Char.ofNat (0x10000 + 1024 * (leading - 0xD800) + (trailing - 0xDC00))

/-- Reads a string from behind its opening quote. -/
def readString? : List Char → Option (List Char × List Char)
  | '"' :: cs => some ([], cs)
  | '\\' :: 'u' :: a :: b :: c :: d :: cs =>
    match codeUnit? a b c d with
    | none => none
    | some n =>
      if isTrailing n then none
      else if isLeading n then
        match cs with
        | '\\' :: 'u' :: a :: b :: c :: d :: cs =>
          match codeUnit? a b c d with
          | none => none
          | some m =>
            if isTrailing m then
              match readString? cs with
              | some (s, cs) => some (joinSurrogates n m :: s, cs)
              | none => none
            else none
        | _ => none
      else
        match readString? cs with
        | some (s, cs) => some (Char.ofNat n :: s, cs)
        | none => none
  | '\\' :: e :: cs =>
    match unescape? e with
    | none => none
    | some c =>
      match readString? cs with
      | some (s, cs) => some (c :: s, cs)
      | none => none
  | c :: cs =>
    if c = '\\' ∨ c.toNat < 0x20 then none
    else
      match readString? cs with
      | some (s, cs) => some (c :: s, cs)
      | none => none
  | [] => none

/-- Skips a string from behind its opening quote. -/
def skipString? : List Char → Option (List Char)
  | '"' :: cs => some cs
  | '\\' :: 'u' :: a :: b :: c :: d :: cs =>
    match codeUnit? a b c d with
    | some _ => skipString? cs
    | none => none
  | '\\' :: e :: cs =>
    match unescape? e with
    | some _ => skipString? cs
    | none => none
  | c :: cs => if c = '\\' ∨ c.toNat < 0x20 then none else skipString? cs
  | [] => none

end Batchflow.Json
