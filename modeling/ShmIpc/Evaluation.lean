import Mathlib.Algebra.Group.Nat.Defs
import Mathlib.Data.List.Basic

/-!
# One text over two kinds of numbers

A text whose numbers are a parameter is evaluated over machine words and over
the integers alike. An evaluation keeps the outcome of every test it makes, so
that two evaluations are the same if they make the same tests with the same
outcomes and arrive at the same value.
-/
namespace Evaluation

/-- A value, and the outcomes of the tests made on the way to it. -/
structure Traced (β : Type) where
  tests : List Bool
  value : β

instance : Monad Traced where
  pure b := ⟨[], b⟩
  bind x k := ⟨x.tests ++ (k x.value).tests, (k x.value).value⟩

/-- A condition the text branches on. -/
def test (c : Prop) [Decidable c] : Traced Bool := ⟨[decide c], decide c⟩

variable {β β' γ γ' : Type}

@[simp] theorem value_pure (b : β) : (pure b : Traced β).value = b := rfl

@[simp] theorem value_bind (x : Traced β) (k : β → Traced γ) :
    (x >>= k).value = (k x.value).value := rfl

@[simp] theorem value_test (c : Prop) [Decidable c] : (test c).value = decide c := rfl

@[simp] theorem value_ite (c : Prop) [Decidable c] (x y : Traced β) :
    (if c then x else y).value = if c then x.value else y.value := by
  split <;> rfl

/-- The same tests with the same outcomes, and the value of the one read as that of the other. -/
structure Same (f : β → β') (x : Traced β) (y : Traced β') : Prop where
  tests : y.tests = x.tests
  value : y.value = f x.value

theorem Same.pure {f : β → β'} {b : β} {b' : β'} (h : b' = f b) : Same f (pure b) (pure b') :=
  ⟨rfl, h⟩

theorem Same.bind {f : β → β'} {g : γ → γ'} {x : Traced β} {y : Traced β'} {k : β → Traced γ}
    {k' : β' → Traced γ'} (h : Same f x y) (hk : Same g (k x.value) (k' (f x.value))) :
    Same g (x >>= k) (y >>= k') := by
  obtain ⟨ht, hv⟩ := h
  rw [← hv] at hk
  exact ⟨show y.tests ++ _ = x.tests ++ _ by rw [ht, hk.tests], hk.value⟩

/-- A branch on equivalent conditions, and what follows in either case. -/
theorem Same.ite {g : γ → γ'} {c c' : Prop} [Decidable c] [Decidable c'] {x y : Traced γ}
    {x' y' : Traced γ'} (hc : c ↔ c') (hx : c → Same g x x') (hy : ¬ c → Same g y y') :
    Same g (test c >>= fun b => if b = true then x else y)
    (test c' >>= fun b => if b = true then x' else y') := by
  have hsame : Same id (test c) (test c') := by
    constructor <;> simp [test, hc]
  refine hsame.bind ?_
  by_cases h : c
  · simpa [h] using hx h
  · simpa [h] using hy h

/-! ## Words read as integers -/

def val (x : UInt32) : Int := x.toNat

variable {a b : UInt32}

theorem val_lt : a < b ↔ val a < val b := by
  rw [UInt32.lt_iff_toNat_lt, val, val, Int.ofNat_lt]

theorem val_le : a ≤ b ↔ val a ≤ val b := by
  rw [UInt32.le_iff_toNat_le, val, val, Int.ofNat_le]

theorem val_inj : a = b ↔ val a = val b := by
  rw [val, val, Int.natCast_inj, UInt32.toNat_inj]

theorem val_add (h : a.toNat + b.toNat < 2 ^ 32) : val (a + b) = val a + val b := by
  rw [val, UInt32.toNat_add, Nat.mod_eq_of_lt h]
  rfl

theorem val_sub (h : b ≤ a) : val (a - b) = val a - val b := by
  have hle := UInt32.le_iff_toNat_le.mp h
  rw [val, UInt32.toNat_sub_of_le _ _ h, val, val]
  omega

theorem val_mod (a b : UInt32) : val (a % b) = val a % val b := by
  rw [val, UInt32.toNat_mod]
  rfl

end Evaluation
