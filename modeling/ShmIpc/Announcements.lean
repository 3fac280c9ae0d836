import ShmIpc.Demultiplex

/-!
# Names that are announced before they are used

A stream of items of which some announce a name and the others use one. In a
scoped stream every use stands behind the announcement of its name, so that
whoever handles the items in order knows the name of every item that comes next.
-/
namespace Announcements

variable {ρ κ : Type} (announces : ρ → Option κ) (name : ρ → κ)

/-- The names announced so far. -/
def announced (xs : List ρ) : List κ := xs.filterMap announces

variable {announces name} {xs ys : List ρ} {x : ρ}

end Announcements
