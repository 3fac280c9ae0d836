import Mathlib.Data.Set.Insert
import Mathlib.Order.BooleanAlgebra.Set

/-!
# Descriptor tables

A process knows what it has open by numbers. What is open stays so as long as
some process has a number for it; a process that ends gives its numbers back.
-/
namespace Descriptors

structure Entry (ε : Type) where
  refersTo : ε
  closeOnExec : Bool

abbrev Table (ε : Type) := Nat → Option (Entry ε)

variable {ε : Type}

def Table.empty : Table ε := fun _ => none

def Table.open (t : Table ε) (fd : Nat) (e : Entry ε) : Table ε := Function.update t fd (some e)

def Table.close (t : Table ε) (fd : Nat) : Table ε := Function.update t fd none

def Table.setCloseOnExec (t : Table ε) (fd : Nat) : Table ε :=
  Function.update t fd ((t fd).map fun e => { e with closeOnExec := true })

/-- The numbers a process has for `x`. -/
def numbers (t : Table ε) (x : ε) : Set Nat := { fd | (t fd).map Entry.refersTo = some x }

variable {t : Table ε} {fd : Nat} {x y : ε}

/-- A number stands for one thing. -/
theorem numbers_disjoint (hx : fd ∈ numbers t x) (hy : fd ∈ numbers t y) : x = y :=
  Option.some.inj (hx.symm.trans hy)

@[simp] theorem numbers_empty (x : ε) : numbers Table.empty x = ∅ := by
  ext n
  simp [numbers, Table.empty]

theorem numbers_open_self (e : Entry ε) :
    numbers (t.open fd e) e.refersTo = insert fd (numbers t e.refersTo) := by
  ext n
  by_cases hn : n = fd
  · subst hn
    simp [numbers, Table.open]
  · simp [numbers, Table.open, hn]

/-- A number that was free takes nothing away. -/
theorem numbers_open_other (e : Entry ε) (hfree : t fd = none) (hne : x ≠ e.refersTo) :
    numbers (t.open fd e) x = numbers t x := by
  ext n
  by_cases hn : n = fd
  · subst hn
    simp [numbers, Table.open, hfree, hne.symm]
  · simp [numbers, Table.open, hn]

theorem numbers_close (t : Table ε) (fd : Nat) (x : ε) :
    numbers (t.close fd) x = numbers t x \ {fd} := by
  ext n
  by_cases hn : n = fd
  · subst hn
    simp [numbers, Table.close]
  · simp [numbers, Table.close, hn]

theorem numbers_close_self (h : numbers t x = {fd}) : numbers (t.close fd) x = ∅ := by
  rw [numbers_close, h, Set.sdiff_self]

/-- What stands elsewhere stays. -/
theorem numbers_close_other (hy : fd ∈ numbers t y) (hne : x ≠ y) :
    numbers (t.close fd) x = numbers t x := by
  rw [numbers_close, Set.sdiff_singleton_eq_self]
  exact fun hx => hne (numbers_disjoint hx hy)

@[simp] theorem numbers_setCloseOnExec (t : Table ε) (fd : Nat) (x : ε) :
    numbers (t.setCloseOnExec fd) x = numbers t x := by
  ext n
  by_cases hn : n = fd
  · subst hn
    cases h : t n <;> simp [numbers, Table.setCloseOnExec, h]
  · simp [numbers, Table.setCloseOnExec, hn]

/-- A program that the process executes still finds something under the number. -/
def Inherited (t : Table ε) (fd : Nat) : Prop := ∃ e, t fd = some e ∧ e.closeOnExec = false

theorem inherited_setCloseOnExec (t : Table ε) (fd n : Nat) :
    Inherited (t.setCloseOnExec fd) n ↔ n ≠ fd ∧ Inherited t n := by
  by_cases hn : n = fd
  · subst hn
    cases h : t n <;> simp [Inherited, Table.setCloseOnExec, h]
  · simp [Inherited, Table.setCloseOnExec, hn]

theorem inherited_close (t : Table ε) (fd n : Nat) :
    Inherited (t.close fd) n ↔ n ≠ fd ∧ Inherited t n := by
  by_cases hn : n = fd
  · subst hn
    simp [Inherited, Table.close]
  · simp [Inherited, Table.close, hn]

end Descriptors
