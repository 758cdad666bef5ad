import CentNode.Mining.BlockTemplate

/-!
# The order of fee rates

`CFeeRate` multiplies a signed fee and divides the product by an unsigned size.
The priority queue of `CreateNewBlock` orders transactions by these rates.
-/

namespace CentNode

section

variable {divisor nFeePaid low high : Int} {nSize : Nat}

/-- A fee or an adjusted fee: no more than all coins. -/
def FeeRange (nFeePaid : Int) : Prop :=
  -mainParams.maxMoneyOut ≤ nFeePaid ∧ nFeePaid ≤ mainParams.maxMoneyOut

instance (nFeePaid : Int) : Decidable (FeeRange nFeePaid) := inferInstanceAs (Decidable (_ ∧ _))

theorem FeeRange.bounds (range : FeeRange nFeePaid) :
    -5000000000000000 ≤ nFeePaid ∧ nFeePaid ≤ 5000000000000000 := by
  have limit : mainParams.maxMoneyOut = 5000000000000000 := by decide
  unfold FeeRange at range
  omega

end

section Queue

variable {Priority : Type} (arith : PriorityArith Priority)

variable {arith}

end Queue

end CentNode
