/-!
# Reports of demonstrations

A demonstration prints lines, each at some moment of its clock, and ends well or with an error.
-/

namespace Batchflow.Demo

structure Line where
  time : Nat
  text : String
  deriving DecidableEq, Repr

structure Report where
  lines : List Line
  /-- What went wrong in the end, if anything. -/
  failure : Option String := none

end Batchflow.Demo
