import Batchflow.Decimal.Natural
import Batchflow.Text.Blank
import Batchflow.Time.Duration

/-!
# Options and where they come from

Every option has a range of legal values, and a number for it may be read from a variable of the
environment.  A value out of range is reported with its name and its bounds, a text that is no
number with the variable it stood in.
-/

namespace Batchflow

/-- Why options cannot be used. -/
inductive ConfigError where
  | outOfRange (option value min max : String)
  | unreadable (name value reason : String)
  deriving DecidableEq, Repr

/-- The wording of a fault in the options. -/
def ConfigError.message : ConfigError → String
  | .outOfRange option value min max =>
    option ++ " = " ++ value ++ " is out of range [" ++ min ++ ", " ++ max ++ "]"
  | .unreadable name value reason =>
    "failed to parse " ++ name ++ "=" ++ value ++ ": " ++ reason

namespace Config

def checkNumber (option : String) (value min max : Nat) : Except ConfigError Unit :=
  if value < min ∨ max < value then
    .error (.outOfRange option (Decimal.text value) (Decimal.text min) (Decimal.text max))
  else .ok ()

def checkDuration (option : String) (value min max : Duration) : Except ConfigError Unit :=
  if value.total < min.total ∨ max.total < value.total then
    .error (.outOfRange option value.text min.text max.text)
  else .ok ()

/-- The text of each variable; a variable that is unset, or whose bytes are no text, has none. -/
abbrev Environment := String → Option String

/-- The number in a variable, after the blanks around it. -/
def readNumber (env : Environment) (name : String) : Except ConfigError (Option UInt64) :=
  match env name with
  | none => .ok none
  | some raw =>
    match Decimal.readNatural (Text.trim raw.toList) with
    | .ok n => .ok (some n)
    | .error fault => .error (.unreadable name raw fault.message)

def readMillis (env : Environment) (name : String) : Except ConfigError (Option Duration) :=
  match readNumber env name with
  | .ok n => .ok (n.map .ofMillis)
  | .error e => .error e

end Config

end Batchflow
