import Batchflow.Json.Number

/-!
# JSON values and their compact text

An object keeps its fields in the order in which they were written.
-/

namespace Batchflow

inductive Json where
  | null
  | bool (b : Bool)
  | number (n : Json.Number)
  | string (s : String)
  | array (items : List Json)
  | object (fields : List (String × Json))
  deriving Inhabited

namespace Json

/-- How a character stands in a JSON string. -/
def escapeChar (c : Char) : List Char :=
  if c = '"' then ['\\', '"']
  else if c = '\\' then ['\\', '\\']
  else if c = '\x08' then ['\\', 'b']
  else if c = '\x0c' then ['\\', 'f']
  else if c = '\n' then ['\\', 'n']
  else if c = '\r' then ['\\', 'r']
  else if c = '\t' then ['\\', 't']
  else if c.toNat < 0x20 then
    ['\\', 'u', '0', '0', Nat.digitChar (c.toNat / 16), Nat.digitChar (c.toNat % 16)]
  else [c]

def stringText (s : List Char) : List Char := '"' :: s.flatMap escapeChar ++ ['"']

def commaSeparated : List (List Char) → List Char
  | [] => []
  | [t] => t
  | t :: ts => t ++ ',' :: commaSeparated ts

mutual

/-- The text of a value, without any blanks. -/
def text : Json → List Char
  | .null => ['n', 'u', 'l', 'l']
  | .bool true => ['t', 'r', 'u', 'e']
  | .bool false => ['f', 'a', 'l', 's', 'e']
  | .number n => n.text
  | .string s => stringText s.toList
  | .array items => '[' :: commaSeparated (itemTexts items) ++ [']']
  | .object fields => '{' :: commaSeparated (fieldTexts fields) ++ ['}']

def itemTexts : List Json → List (List Char)
  | [] => []
  | v :: items => text v :: itemTexts items

def fieldTexts : List (String × Json) → List (List Char)
  | [] => []
  | (k, v) :: fields => (stringText k.toList ++ ':' :: text v) :: fieldTexts fields

end

mutual

/-- Equality of values; the order of fields does not count. -/
def same : Json → Json → Bool
  | .null, .null => true
  | .bool a, .bool b => a == b
  | .number m, .number n => m.same n
  | .string s, .string t => s == t
  | .array xs, .array ys => sameItems xs ys
  | .object xs, .object ys => xs.length == ys.length && sameFields xs ys
  | _, _ => false

def sameItems : List Json → List Json → Bool
  | [], [] => true
  | x :: xs, y :: ys => same x y && sameItems xs ys
  | _, _ => false

def sameFields : List (String × Json) → List (String × Json) → Bool
  | [], _ => true
  | (k, v) :: xs, ys =>
    (match ys.lookup k with
      | some w => same v w
      | none => false) && sameFields xs ys

end

instance : BEq Json := ⟨same⟩

/-- Fields in the order of their names, by code point; of fields with one name the last counts. -/
def insertField (k : String) (v : Json) : List (String × Json) → List (String × Json)
  | [] => [(k, v)]
  | (l, w) :: fields =>
    if k = l then (k, v) :: fields
    else if k < l then (k, v) :: (l, w) :: fields
    else (l, w) :: insertField k v fields

mutual

def sorted : Json → Json
  | .array items => .array (sortedItems items)
  | .object fields => .object (sortedFields fields [])
  | v => v

def sortedItems : List Json → List Json
  | [] => []
  | v :: items => sorted v :: sortedItems items

def sortedFields : List (String × Json) → List (String × Json) → List (String × Json)
  | [], done => done
  | (k, v) :: fields, done => sortedFields fields (insertField k (sorted v) done)

end

def field? : Json → String → Option Json
  | .object fields, name => fields.lookup name
  | _, _ => none

end Json

end Batchflow
