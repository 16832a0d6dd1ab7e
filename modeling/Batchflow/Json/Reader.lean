import Batchflow.Json.Lexical

/-!
# Reading and skipping values

A value is read or skipped from the front of a text.  Every nested value takes at least one
character, so the length of the text bounds the depth.
-/

namespace Batchflow.Json

mutual

/-- Reads a value of bounded depth, with the blanks in front of it. -/
def readValue? : Nat → List Char → Option (Json × List Char)
  | 0, _ => none
  | depth + 1, cs =>
    match skipSpace cs with
    | 'n' :: cs => (expect? ['u', 'l', 'l'] cs).map (.null, ·)
    | 't' :: cs => (expect? ['r', 'u', 'e'] cs).map (.bool true, ·)
    | 'f' :: cs => (expect? ['a', 'l', 's', 'e'] cs).map (.bool false, ·)
    | '"' :: cs => (readString? cs).map fun (s, cs) => (.string (String.ofList s), cs)
    | '[' :: cs =>
      match skipSpace cs with
      | ']' :: cs => some (.array [], cs)
      | cs => (readItems? depth cs).map fun (items, cs) => (.array items, cs)
    | '{' :: cs =>
      match skipSpace cs with
      | '}' :: cs => some (.object [], cs)
      | cs => (readFields? depth cs).map fun (fields, cs) => (.object fields, cs)
    | cs =>
      match Numeral.scan? cs with
      | some (x, cs) => x.value?.map (.number ·, cs)
      | none => none

def readItems? : Nat → List Char → Option (List Json × List Char)
  | 0, _ => none
  | depth + 1, cs =>
    match readValue? depth cs with
    | none => none
    | some (v, cs) =>
      match skipSpace cs with
      | ']' :: cs => some ([v], cs)
      | ',' :: cs => (readItems? depth cs).map fun (items, cs) => (v :: items, cs)
      | _ => none

/-- Reads the fields of an object up to its closing brace. -/
def readFields? : Nat → List Char → Option (List (String × Json) × List Char)
  | 0, _ => none
  | depth + 1, cs =>
    match skipSpace cs with
    | '"' :: cs =>
      match readString? cs with
      | none => none
      | some (k, cs) =>
        match skipSpace cs with
        | ':' :: cs =>
          match readValue? depth cs with
          | none => none
          | some (v, cs) =>
            match skipSpace cs with
            | '}' :: cs => some ([(String.ofList k, v)], cs)
            | ',' :: cs =>
              (readFields? depth cs).map fun (fields, cs) => ((String.ofList k, v) :: fields, cs)
            | _ => none
        | _ => none
    | _ => none

end

/-- Reads a text that is one value and blanks. -/
def read? (cs : List Char) : Option Json :=
  match readValue? (2 * cs.length + 1) cs with
  | some (v, cs) => if (skipSpace cs).isEmpty then some v else none
  | none => none

mutual

/-- Skips a value of bounded depth, with the blanks in front of it. -/
def skipValue? : Nat → List Char → Option (List Char)
  | 0, _ => none
  | depth + 1, cs =>
    match skipSpace cs with
    | 'n' :: cs => expect? ['u', 'l', 'l'] cs
    | 't' :: cs => expect? ['r', 'u', 'e'] cs
    | 'f' :: cs => expect? ['a', 'l', 's', 'e'] cs
    | '"' :: cs => skipString? cs
    | '[' :: cs =>
      match skipSpace cs with
      | ']' :: cs => some cs
      | cs => skipItems? depth cs
    | '{' :: cs =>
      match skipSpace cs with
      | '}' :: cs => some cs
      | cs => skipFields? depth cs
    | cs => (Numeral.scan? cs).map (·.2)

def skipItems? : Nat → List Char → Option (List Char)
  | 0, _ => none
  | depth + 1, cs =>
    match skipValue? depth cs with
    | none => none
    | some cs =>
      match skipSpace cs with
      | ']' :: cs => some cs
      | ',' :: cs => skipItems? depth cs
      | _ => none

def skipFields? : Nat → List Char → Option (List Char)
  | 0, _ => none
  | depth + 1, cs =>
    match skipSpace cs with
    | '"' :: cs =>
      match skipString? cs with
      | none => none
      | some cs =>
        match skipSpace cs with
        | ':' :: cs =>
          match skipValue? depth cs with
          | none => none
          | some cs =>
            match skipSpace cs with
            | '}' :: cs => some cs
            | ',' :: cs => skipFields? depth cs
            | _ => none
        | _ => none
    | _ => none

end

def skip? (cs : List Char) : Option (List Char) := skipValue? (2 * cs.length + 1) cs

end Batchflow.Json
