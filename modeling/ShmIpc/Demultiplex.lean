import Mathlib.Data.List.Basic

/-!
# Streams in one sequence of tagged blocks

A sequence of blocks carries one stream for every tag: the payloads of the
blocks with that tag, in their order. Cutting blocks leaves the streams alone,
and a prefix of the sequence carries a prefix of every stream.
-/
namespace Demultiplex

variable {ρ κ β : Type} [DecidableEq κ] {tag : ρ → κ} {payload : ρ → List β}

/-- What the blocks with the tag `k` carry. -/
def stream (tag : ρ → κ) (payload : ρ → List β) (k : κ) (xs : List ρ) : List β :=
  (xs.filter fun x => tag x = k).flatMap payload

@[simp] theorem stream_nil (k : κ) : stream tag payload k [] = [] := rfl

@[simp] theorem stream_append (k : κ) (xs ys : List ρ) :
    stream tag payload k (xs ++ ys) = stream tag payload k xs ++ stream tag payload k ys := by
  simp [stream]

theorem stream_singleton (k : κ) (x : ρ) :
    stream tag payload k [x] = if tag x = k then payload x else [] := by
  by_cases h : tag x = k <;> simp [stream, h]

/-- Blocks of one tag are one block that has been cut. -/
theorem stream_of_tag {j : κ} {xs : List ρ} (h : ∀ x ∈ xs, tag x = j) (k : κ) :
    stream tag payload k xs = if j = k then xs.flatMap payload else [] := by
  by_cases hk : j = k
  · rw [stream, if_pos hk, List.filter_eq_self.mpr fun x hx => decide_eq_true ((h x hx).trans hk)]
  · rw [stream, if_neg hk, List.filter_eq_nil_iff.mpr fun x hx => by simpa [h x hx] using hk]
    rfl

theorem stream_prefix {xs ys : List ρ} (h : xs <+: ys) (k : κ) :
    stream tag payload k xs <+: stream tag payload k ys := by
  obtain ⟨zs, rfl⟩ := h
  rw [stream_append]
  exact List.prefix_append _ _

/-- The element that follows a prefix extends it. -/
theorem prefix_snoc {xs ys : List ρ} {x : ρ} (h : xs <+: ys) (hx : ys[xs.length]? = some x) :
    xs ++ [x] <+: ys := by
  obtain ⟨zs, rfl⟩ := h
  rw [List.getElem?_append_right (Nat.le_refl _), Nat.sub_self] at hx
  cases zs with
  | nil => cases hx
  | cons z zs =>
    obtain rfl : z = x := by simpa using hx
    exact ⟨zs, by simp⟩

end Demultiplex
