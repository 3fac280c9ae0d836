import Mathlib.Algebra.Group.Nat.Defs
import Mathlib.Data.List.Basic

/-!
# Byte-addressed memory and contiguous stores

A memory is a total function from addresses to bytes. A store writes one
contiguous block; it may be executed at once or cut at any byte into two
stores with the same effect. Words of 32 bits are kept in little-endian order.
-/
namespace ByteMemory

abbrev Memory := Nat → UInt8

/-- One contiguous block of bytes to be written at `addr`. -/
structure Store where
  addr : Nat
  len : Nat
  data : Nat → UInt8

def Store.Covers (s : Store) (a : Nat) : Prop := s.addr ≤ a ∧ a < s.addr + s.len

instance (s : Store) (a : Nat) : Decidable (s.Covers a) := inferInstanceAs (Decidable (_ ∧ _))

def apply (m : Memory) (s : Store) : Memory :=
  fun a => if s.Covers a then s.data (a - s.addr) else m a

def applyAll (m : Memory) (ss : List Store) : Memory := ss.foldl apply m

@[simp] theorem applyAll_cons (m : Memory) (s : Store) (ss : List Store) :
    applyAll m (s :: ss) = applyAll (apply m s) ss := rfl

theorem applyAll_append (m : Memory) (ss ts : List Store) :
    applyAll m (ss ++ ts) = applyAll (applyAll m ss) ts := List.foldl_append

theorem apply_inside (m : Memory) (s : Store) (i : Nat) (h : i < s.len) :
    apply m s (s.addr + i) = s.data i := by
  simp [apply, Store.Covers, h]

theorem apply_outside (m : Memory) (s : Store) (a : Nat) (h : ¬ s.Covers a) :
    apply m s a = m a := by simp [apply, h]

theorem applyAll_outside (ss : List Store) (m : Memory) (a : Nat) (h : ∀ s ∈ ss, ¬ s.Covers a) :
    applyAll m ss a = m a := by
  induction ss generalizing m with
  | nil => rfl
  | cons s ss ih =>
    rw [applyAll_cons, ih _ (fun t ht => h t (List.mem_cons_of_mem s ht))]
    exact apply_outside m s a (h s List.mem_cons_self)

/-- The first `k` bytes of a store, and what is left of it afterwards. -/
def Store.front (s : Store) (k : Nat) : Store := ⟨s.addr, k, s.data⟩

def Store.back (s : Store) (k : Nat) : Store := ⟨s.addr + k, s.len - k, fun i => s.data (k + i)⟩

/-- Cutting a store at any byte does not change its effect. -/
theorem apply_front_back (m : Memory) (s : Store) (k : Nat) (h : k ≤ s.len) :
    apply (apply m (s.front k)) (s.back k) = apply m s := by
  funext a
  by_cases hb : s.addr + k ≤ a ∧ a < s.addr + s.len
  · obtain ⟨i, rfl⟩ : ∃ i, a = s.addr + k + i := ⟨a - (s.addr + k), by omega⟩
    have hi : i < (s.back k).len := by simp only [Store.back]; omega
    have h₁ := apply_inside (apply m (s.front k)) (s.back k) i hi
    have h₂ := apply_inside m s (k + i) (by omega)
    rw [← Nat.add_assoc] at h₂
    exact h₁.trans h₂.symm
  · rw [apply_outside _ (s.back k) a (by simp only [Store.Covers, Store.back]; omega)]
    by_cases hf : s.addr ≤ a ∧ a < s.addr + k
    · have hs : s.Covers a := ⟨hf.1, by omega⟩
      have hk : (s.front k).Covers a := hf
      simp only [apply, hs, hk, ↓reduceIte]
      rfl
    · rw [apply_outside m (s.front k) a hf, apply_outside m s a (by unfold Store.Covers; omega)]

/-- Two memories agree on the half-open address range `[lo, hi)`. -/
def AgreeOn (lo hi : Nat) (m m' : Memory) : Prop := ∀ a, lo ≤ a → a < hi → m a = m' a

theorem AgreeOn.mono {lo hi lo' hi' : Nat} {m m' : Memory} (h : AgreeOn lo hi m m')
    (hl : lo ≤ lo') (hh : hi' ≤ hi) : AgreeOn lo' hi' m m' :=
  fun a ha hb => h a (by omega) (by omega)

theorem applyAll_agreeOn (m : Memory) (ss : List Store) (lo hi : Nat)
    (h : ∀ s ∈ ss, s.addr + s.len ≤ lo ∨ hi ≤ s.addr) : AgreeOn lo hi m (applyAll m ss) := by
  intro a ha hb
  refine (applyAll_outside ss m a ?_).symm
  intro s hs hc
  have := h s hs
  unfold Store.Covers at hc
  omega

def wordBytes (w : UInt32) : Nat → UInt8 := fun i => UInt8.ofNat (w.toNat / 256 ^ i)

def storeWord (a : Nat) (w : UInt32) : Store := ⟨a, 4, wordBytes w⟩

def loadWord (m : Memory) (a : Nat) : UInt32 :=
  UInt32.ofNat ((m a).toNat + 256 * (m (a + 1)).toNat + 65536 * (m (a + 2)).toNat +
    16777216 * (m (a + 3)).toNat)

theorem loadWord_congr {m m' : Memory} {a : Nat} (h : AgreeOn a (a + 4) m m') :
    loadWord m a = loadWord m' a := by
  have h₀ := h a (by omega) (by omega)
  have h₁ := h (a + 1) (by omega) (by omega)
  have h₂ := h (a + 2) (by omega) (by omega)
  have h₃ := h (a + 3) (by omega) (by omega)
  simp only [loadWord, h₀, h₁, h₂, h₃]

/-- A word reads back as it was stored. -/
theorem loadWord_apply (m : Memory) (a : Nat) (w : UInt32) :
    loadWord (apply m (storeWord a w)) a = w := by
  have h₀ : apply m (storeWord a w) a = wordBytes w 0 :=
    apply_inside m (storeWord a w) 0 (by simp [storeWord])
  have h₁ : apply m (storeWord a w) (a + 1) = wordBytes w 1 :=
    apply_inside m (storeWord a w) 1 (by simp [storeWord])
  have h₂ : apply m (storeWord a w) (a + 2) = wordBytes w 2 :=
    apply_inside m (storeWord a w) 2 (by simp [storeWord])
  have h₃ : apply m (storeWord a w) (a + 3) = wordBytes w 3 :=
    apply_inside m (storeWord a w) 3 (by simp [storeWord])
  have hw := w.toNat_lt
  apply UInt32.toNat_inj.mp
  simp only [loadWord, h₀, h₁, h₂, h₃, wordBytes, UInt32.toNat_ofNat', UInt8.toNat_ofNat']
  omega

/-- The bytes of `[a, a + n)` in order. -/
def slice (m : Memory) (a n : Nat) : List UInt8 := (List.range n).map (fun i => m (a + i))

theorem slice_congr {m m' : Memory} {a n : Nat} (h : AgreeOn a (a + n) m m') :
    slice m a n = slice m' a n := by
  apply List.map_congr_left
  intro i hi
  have := List.mem_range.mp hi
  exact h (a + i) (by omega) (by omega)

/-- The first `n` bytes behind a data pointer. -/
def firstBytes (data : Nat → UInt8) (n : Nat) : List UInt8 := (List.range n).map data

theorem slice_apply (m : Memory) (s : Store) :
    slice (apply m s) s.addr s.len = firstBytes s.data s.len := by
  apply List.map_congr_left
  intro i hi
  exact apply_inside m s i (List.mem_range.mp hi)

theorem firstBytes_add (data : Nat → UInt8) (k n : Nat) :
    firstBytes data (k + n) = firstBytes data k ++ firstBytes (fun i => data (k + i)) n := by
  simp [firstBytes, List.range_add, List.map_map, Function.comp_def]

/-- Masking the low `k` bits of a word is rounding down to a multiple of `2 ^ k`. -/
theorem and_highBits (k n : Nat) (hk : k ≤ 32) (h : n < 2 ^ 32) :
    n &&& (2 ^ (32 - k) - 1) <<< k = n / 2 ^ k * 2 ^ k := by
  rw [← Nat.shiftLeft_eq, ← Nat.shiftRight_eq_div_pow]
  apply Nat.eq_of_testBit_eq
  intro i
  simp only [Nat.testBit_and, Nat.testBit_shiftLeft, Nat.testBit_shiftRight,
    Nat.testBit_two_pow_sub_one]
  by_cases hi : k ≤ i
  · by_cases hj : i - k < 32 - k
    · simp [hi, hj, show k + (i - k) = i by omega]
    · have hf : n.testBit i = false := Nat.testBit_lt_two_pow
        (Nat.lt_of_lt_of_le h (Nat.pow_le_pow_right (by decide) (by omega)))
      simp [hi, hf, show k + (i - k) = i by omega]
  · simp [hi]

end ByteMemory
