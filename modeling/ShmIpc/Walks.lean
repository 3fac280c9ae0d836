import Mathlib.Order.Basic
import Mathlib.Data.List.Basic

/-!
# Walks along a partial successor

A structure laid out in memory is often read by a walk: from a position the
reader learns one item and the next position. `Walk next a xs b` says that the
walk from `a` meets exactly the items `xs` and stands at `b` afterwards.
-/
namespace Walks

variable {σ ρ : Type}

inductive Walk (next : σ → Option (ρ × σ)) : σ → List ρ → σ → Prop where
  | nil (a : σ) : Walk next a [] a
  | cons {a b c : σ} {x : ρ} {xs : List ρ} :
      next a = some (x, b) → Walk next b xs c → Walk next a (x :: xs) c

/-- Every successor lies strictly ahead. -/
def Forward [Preorder σ] (next : σ → Option (ρ × σ)) : Prop :=
  ∀ {a b : σ} {x : ρ}, next a = some (x, b) → a < b

section Basic

variable {next : σ → Option (ρ × σ)}

theorem Walk.single {a b : σ} {x : ρ} (h : next a = some (x, b)) : Walk next a [x] b :=
  .cons h (.nil b)

theorem Walk.append {a b c : σ} {xs ys : List ρ} (h : Walk next a xs b) (h' : Walk next b ys c) :
    Walk next a (xs ++ ys) c := by
  induction h with
  | nil a => exact h'
  | cons hn _ ih => exact .cons hn (ih h')

theorem Walk.snoc {a b c : σ} {xs : List ρ} {x : ρ} (h : Walk next a xs b)
    (hn : next b = some (x, c)) : Walk next a (xs ++ [x]) c := h.append (.single hn)

/-- A walk that meets nothing goes nowhere. -/
theorem Walk.eq_of_nil {a b : σ} (h : Walk next a [] b) : a = b := by
  cases h
  rfl

/-- A walk that ends elsewhere takes at least one step. -/
theorem Walk.exists_cons {a c : σ} {xs : List ρ} (h : Walk next a xs c) (hne : a ≠ c) :
    ∃ x b ys, next a = some (x, b) ∧ xs = x :: ys ∧ Walk next b ys c := by
  cases h with
  | nil => exact absurd rfl hne
  | cons hn hw => exact ⟨_, _, _, hn, rfl, hw⟩

end Basic

section Ordered

variable [PartialOrder σ] {next next' : σ → Option (ρ × σ)}

theorem Walk.le (hf : Forward next) {a b : σ} {xs : List ρ} (h : Walk next a xs b) : a ≤ b := by
  induction h with
  | nil => exact le_refl _
  | cons hn _ ih => exact le_trans (le_of_lt (hf hn)) ih

/-- Only the empty walk returns to its start. -/
theorem Walk.eq_nil (hf : Forward next) {a : σ} {xs : List ρ} (h : Walk next a xs a) : xs = [] := by
  cases h with
  | nil => rfl
  | cons hn hw => exact absurd (lt_of_lt_of_le (hf hn) (hw.le hf)) (lt_irrefl _)

/-- Frame rule: a walk depends only on the steps between its two ends. -/
theorem Walk.transfer (hf : Forward next) {a b : σ} {xs : List ρ} (h : Walk next a xs b)
    (he : ∀ c d x, a ≤ c → d ≤ b → next c = some (x, d) → next' c = some (x, d)) :
    Walk next' a xs b := by
  induction h with
  | nil a => exact .nil a
  | cons hn hw ih =>
    refine .cons (he _ _ _ (le_refl _) (hw.le hf) hn) (ih ?_)
    intro c d x hc hd
    exact he c d x (le_trans (le_of_lt (hf hn)) hc) hd

end Ordered

end Walks
