import FlatLisp.Value.Basic

/-!
# Snapshots of bindings

A snapshot lists bindings by name. Names are searched for by halving, which finds them only if the
list is sorted in the order in which the search compares names.
-/

namespace FlatLisp.Snapshot

variable {V : Type}

/-- The place where the search for `name` ends that starts with the `size` entries from `base` on. The
half that is kept is the one behind the middle, unless the entry there comes after `name`. -/
def search (entries : Array (String × V)) (name : String) (base size : Nat) : Nat :=
  if size ≤ 1 then base
  else
    let middle := base + size / 2
    let comesAfter := (entries[middle]?).any fun entry => decide (name < entry.1)
    search entries name (if comesAfter then base else middle) (size - size / 2)
termination_by size

/-- The value that a snapshot holds for `name`. -/
def get? (entries : List (String × V)) (name : String) : Option V :=
  let array := entries.toArray
  (array[search array name 0 array.size]?).bind fun entry =>
    if entry.1 = name then some entry.2 else none

end FlatLisp.Snapshot
