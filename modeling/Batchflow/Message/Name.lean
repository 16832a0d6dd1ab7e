import Batchflow.Decimal.Natural

/-!
# Fresh names

Ids, receipts and traces are names that nobody has used before.  A name is made of its kind and a
number, so names are fresh as long as the numbers of each kind are counted up.
-/

namespace Batchflow

inductive NameKind where
  | message
  | receipt
  | trace
  deriving DecidableEq, Repr

def NameKind.text : NameKind → String
  | .message => "message"
  | .receipt => "receipt"
  | .trace => "trace"

namespace Name

/-- The name of a kind that has some number. -/
def mint (kind : NameKind) (n : Nat) : String :=
  String.ofList ('⟨' :: kind.text.toList ++ ' ' :: Decimal.digits n ++ ['⟩'])

theorem mint_injective {kind : NameKind} {m n : Nat} (h : mint kind m = mint kind n) : m = n := by
  have h := String.ofList_injective h
  simp only [List.cons_append, List.append_assoc, List.cons.injEq, true_and,
    List.append_cancel_left_eq] at h
  exact Decimal.digits_injective (List.append_cancel_right h)

end Name

end Batchflow
