import Batchflow.Json.Reader
import Batchflow.Text.Quoted

/-!
# Reading values of a known shape

A reader of this kind knows what to expect and takes it straight from the text.  It goes from left
to right and reports the first thing that is wrong: text that is not JSON at all, or a value of
the wrong shape.

A record may be written as an object, with its fields in any order, or as the array of its fields.
-/

namespace Batchflow.Json

/-- How a value differs from what was expected. -/
inductive Mismatch where
  | wrongType (found expected : String)
  | wrongValue (found expected : String)
  | wrongLength (length : Nat) (expected : String)
  | missing (field : String)
  | duplicate (field : String)
  | unknown (field expected : String)
  /-- The parts are fine, but there is no value for them. -/
  | refused (reason : String)
  deriving DecidableEq, Repr

def Mismatch.message : Mismatch → String
  | .wrongType found expected => "invalid type: " ++ found ++ ", expected " ++ expected
  | .wrongValue found expected => "invalid value: " ++ found ++ ", expected " ++ expected
  | .wrongLength length expected =>
    "invalid length " ++ Decimal.text length ++ ", expected " ++ expected
  | .missing field => "missing field `" ++ field ++ "`"
  | .duplicate field => "duplicate field `" ++ field ++ "`"
  | .unknown field expected => "unknown field `" ++ field ++ "`, expected " ++ expected
  | .refused reason => reason

inductive Fault where
  /-- The text is not JSON. -/
  | malformed
  | mismatch (m : Mismatch)
  deriving DecidableEq, Repr

/-- What reading gives: a value and the rest of the text. -/
abbrev Part (α : Type) := Except Fault (α × List Char)

def refuse {α : Type} (m : Mismatch) : Except Fault α := .error (.mismatch m)

/-- How a report calls a number. -/
def Number.described (x : Number) : String :=
  match x with
  | .double _ => "floating point `" ++ String.ofList x.text ++ "`"
  | _ => "integer `" ++ String.ofList x.text ++ "`"

def readNumeral? (cs : List Char) : Option (Number × List Char) :=
  match Numeral.scan? cs with
  | none => none
  | some (x, cs) => x.value?.map (·, cs)

/-- How a report calls the value in front.  A list or an object is not looked into. -/
def described? : List Char → Option String
  | 'n' :: cs => (expect? ['u', 'l', 'l'] cs).map fun _ => "null"
  | 't' :: cs => (expect? ['r', 'u', 'e'] cs).map fun _ => "boolean `true`"
  | 'f' :: cs => (expect? ['a', 'l', 's', 'e'] cs).map fun _ => "boolean `false`"
  | '"' :: cs => (readString? cs).map fun (s, _) => "string " ++ Text.quote (String.ofList s)
  | '[' :: _ => some "sequence"
  | '{' :: _ => some "map"
  | cs => (readNumeral? cs).map fun (x, _) => x.described

def wrongType {α : Type} (expected : String) (cs : List Char) : Except Fault α :=
  match described? cs with
  | some found => refuse (.wrongType found expected)
  | none => .error .malformed

def readTextAs (expected : String) (cs : List Char) : Part String :=
  match skipSpace cs with
  | '"' :: cs =>
    match readString? cs with
    | some (s, cs) => .ok (String.ofList s, cs)
    | none => .error .malformed
  | cs => wrongType expected cs

def readText (cs : List Char) : Part String := readTextAs "a string" cs

def readWord {α : Type} (v : α) (word cs : List Char) : Part α :=
  match expect? word cs with
  | some cs => .ok (v, cs)
  | none => .error .malformed

def readBool (cs : List Char) : Part Bool :=
  match skipSpace cs with
  | 't' :: cs => readWord true ['r', 'u', 'e'] cs
  | 'f' :: cs => readWord false ['a', 'l', 's', 'e'] cs
  | cs => wrongType "a boolean" cs

/-- Null, or a value. -/
def readOptional {α : Type} (read : List Char → Part α) (cs : List Char) : Part (Option α) :=
  match skipSpace cs with
  | 'n' :: cs => readWord none ['u', 'l', 'l'] cs
  | cs =>
    match read cs with
    | .ok (v, cs) => .ok (some v, cs)
    | .error e => .error e

def startsNumeral (c : Char) : Bool := c == '-' || c.isDigit

def Number.below (limit : Nat) (expected : String) (x : Number) : Except Fault Nat :=
  match x with
  | .natural n => if n < limit then .ok n else refuse (.wrongValue x.described expected)
  | .negative _ => refuse (.wrongValue x.described expected)
  | .double _ => refuse (.wrongType x.described expected)

def readNatural (limit : Nat) (expected : String) (cs : List Char) : Part Nat :=
  match skipSpace cs with
  | [] => .error .malformed
  | c :: cs =>
    if startsNumeral c then
      match readNumeral? (c :: cs) with
      | none => .error .malformed
      | some (x, cs) =>
        match x.below limit expected with
        | .ok n => .ok (n, cs)
        | .error e => .error e
    else wrongType expected (c :: cs)

def readElements {α : Type} (read : List Char → Part α) : Nat → List Char → Part (List α)
  | 0, _ => .error .malformed
  | fuel + 1, cs =>
    match read cs with
    | .error e => .error e
    | .ok (v, cs) =>
      match skipSpace cs with
      | ']' :: cs => .ok ([v], cs)
      | ',' :: cs =>
        match skipSpace cs with
        | ']' :: _ => .error .malformed
        | cs =>
          match readElements read fuel cs with
          | .ok (vs, cs) => .ok (v :: vs, cs)
          | .error e => .error e
      | _ => .error .malformed

def readList {α : Type} (read : List Char → Part α) (cs : List Char) : Part (List α) :=
  match skipSpace cs with
  | '[' :: cs =>
    match skipSpace cs with
    | ']' :: cs => .ok ([], cs)
    | cs => readElements read (cs.length + 1) cs
  | cs => wrongType "a sequence" cs

/-- A field of a record that is being read into a draft. -/
structure Slot (δ : Type) where
  name : String
  filled : δ → Bool
  /-- Reads the value and puts it into the draft. -/
  read : δ → List Char → Part δ

/-- A slot whose value is put into the draft by `put`. -/
def Slot.of {δ α : Type} (name : String) (get : δ → Option α) (put : δ → α → δ)
    (read : List Char → Part α) : Slot δ where
  name
  filled d := (get d).isSome
  read d cs :=
    match read cs with
    | .ok (v, cs) => .ok (put d v, cs)
    | .error e => .error e

structure Shape (δ α : Type) where
  /-- How a report calls a value of this shape. -/
  expected : String
  /-- How it calls the array of the fields. -/
  expectedArray : String
  /-- How it calls the fields, if no other name is allowed. -/
  expectedFields : Option String
  slots : List (Slot δ)
  empty : δ
  finish : δ → Except Mismatch α

namespace Shape

variable {δ α : Type} (shape : Shape δ α)

def afterColon {β : Type} (read : List Char → Part β) (cs : List Char) : Part β :=
  match skipSpace cs with
  | ':' :: cs => read cs
  | _ => .error .malformed

/-- The value of an unknown field does not count, but it has to be there. -/
def skipMember (d : δ) (cs : List Char) : Part δ :=
  match skip? cs with
  | some cs => .ok (d, cs)
  | none => .error .malformed

def readMember (d : δ) (name : String) (cs : List Char) : Part δ :=
  match shape.slots.find? (·.name == name) with
  | some slot =>
    if slot.filled d then refuse (.duplicate name) else afterColon (slot.read d) cs
  | none =>
    match shape.expectedFields with
    | some expected => refuse (.unknown name expected)
    | none => afterColon (skipMember d) cs

/-- The members of an object up to its closing brace. -/
def readMembers : Nat → δ → List Char → Part δ
  | 0, _, _ => .error .malformed
  | fuel + 1, d, cs =>
    match skipSpace cs with
    | '"' :: cs =>
      match readString? cs with
      | none => .error .malformed
      | some (name, cs) =>
        match shape.readMember d (String.ofList name) cs with
        | .error e => .error e
        | .ok (d, cs) =>
          match skipSpace cs with
          | '}' :: cs => .ok (d, cs)
          | ',' :: cs => readMembers fuel d cs
          | _ => .error .malformed
    | _ => .error .malformed

def readObject (cs : List Char) : Part δ :=
  match skipSpace cs with
  | '}' :: cs => .ok (shape.empty, cs)
  | cs => shape.readMembers (cs.length + 1) shape.empty cs

/-- The fields in their order, after `done` others.  What follows them stays. -/
def readInOrder (expected : String) : Nat → List (Slot δ) → δ → List Char → Part δ
  | _, [], d, cs => .ok (d, cs)
  | done, slot :: slots, d, cs =>
    match skipSpace cs with
    | ']' :: _ => refuse (.wrongLength done expected)
    | ',' :: cs =>
      if done = 0 then .error .malformed
      else
        match skipSpace cs with
        | ']' :: _ => .error .malformed
        | cs =>
          match slot.read d cs with
          | .error e => .error e
          | .ok (d, cs) => readInOrder expected (done + 1) slots d cs
    | cs =>
      if done = 0 then
        match slot.read d cs with
        | .error e => .error e
        | .ok (d, cs) => readInOrder expected (done + 1) slots d cs
      else .error .malformed

/-- The value for a draft, with the rest of the text. -/
def conclude (d : δ) (cs : List Char) : Part α :=
  match shape.finish d with
  | .ok v => .ok (v, cs)
  | .error m => refuse m

/-- The end of an array, after a value was found. -/
def closeArray (v : α) (cs : List Char) : Part α :=
  match skipSpace cs with
  | ']' :: cs => .ok (v, cs)
  | _ => .error .malformed

def read (cs : List Char) : Part α :=
  match skipSpace cs with
  | '{' :: cs =>
    match shape.readObject cs with
    | .ok (d, cs) => shape.conclude d cs
    | .error e => .error e
  | '[' :: cs =>
    match readInOrder shape.expectedArray 0 shape.slots shape.empty cs with
    | .error e => .error e
    | .ok (d, cs) =>
      match shape.conclude d cs with
      | .ok (v, cs) => closeArray v cs
      | .error e => .error e
  | cs => wrongType shape.expected cs

/-- Reads a text that is one value and blanks. -/
def readAll (cs : List Char) : Except Fault α :=
  match shape.read cs with
  | .ok (v, cs) => if (skipSpace cs).isEmpty then .ok v else .error .malformed
  | .error e => .error e

end Shape

end Batchflow.Json
