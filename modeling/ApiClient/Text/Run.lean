/-! Sets of characters written as runs of code points. -/

namespace ApiClient.Text

/-- Every `step`-th code point from `first` to `last`, both included. -/
structure Run where
  first : Nat
  last : Nat
  step : Nat

def Run.has (r : Run) (n : Nat) : Bool :=
  decide (r.first ≤ n) && decide (n ≤ r.last) && (n - r.first) % r.step == 0

/-- Whether a code point lies in one of the runs. -/
def inRuns (rs : List Run) (n : Nat) : Bool := rs.any (·.has n)

@[simp] theorem inRuns_nil (n : Nat) : inRuns [] n = false := rfl

@[simp] theorem inRuns_append (rs ts : List Run) (n : Nat) :
    inRuns (rs ++ ts) n = (inRuns rs n || inRuns ts n) := by simp [inRuns]

end ApiClient.Text
