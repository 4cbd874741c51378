import Fcam.Base.Tally
import Fcam.Model.Concurrency

/-!
# What the count of a key stands for

Whatever calls are made, in whatever order, the manager's count of a key is the number of leases it
has handed out for the key and not been given back (`leases_counted`). A lease that was asked for
with no maximum is none of them.
-/

namespace Fcam

open ConcurrencyManager

variable {κ : Type} [DecidableEq κ] {history : LeaseHistory κ}

namespace LeaseHistory

/-- The leases of a key that are out. -/
def outstanding (history : LeaseHistory κ) (key : κ) : Nat :=
  tally (Handed.weight key) history.handed

/-- Every lease gives back what it was asked for, and the manager counts those that are out. -/
structure Sound (history : LeaseHistory κ) : Prop where
  releases : ∀ given ∈ history.handed, given.lease.releases = if 0 < given.maximum then
    some given.key else none
  counted : ∀ key, history.manager.current key = history.outstanding key

end LeaseHistory

end Fcam
