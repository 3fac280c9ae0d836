import Mathlib.Logic.Function.Basic

/-!
# Objects mapped into address spaces

The table of an address space gives for the number of a page the page of an
object behind it. The bytes live in the objects, so what is stored through one
table is loaded through another. A layout says where the objects are in a table
and that nothing else is there.
-/
namespace AddressSpace

/-- A page of an object. -/
structure Page where
  object : Nat
  index : Nat
deriving DecidableEq

abbrev Table := Nat → Option Page
abbrev Bytes := Nat → Nat → UInt8

def Inside (base count n : Nat) : Prop := base ≤ n ∧ n < base + count

instance (base count n : Nat) : Decidable (Inside base count n) :=
  inferInstanceAs (Decidable (_ ∧ _))

/-- No page of the range is in use. -/
def Free (t : Table) (base count : Nat) : Prop := ∀ i < count, (t (base + i)).isNone

instance (t : Table) (base count : Nat) : Decidable (Free t base count) :=
  Nat.decidableBallLT count _

def map (object base count : Nat) (t : Table) : Table :=
  fun n => if Inside base count n then some ⟨object, n - base⟩ else t n

def unmap (base count : Nat) (t : Table) : Table :=
  fun n => if Inside base count n then none else t n

/-- The object with base `b` has its pages from `b` on, and there is no other page in the table. -/
def Layout (t : Table) (base : Nat → Option Nat) (pages : Nat → Nat) : Prop :=
  ∀ n page, t n = some page ↔
    ∃ b, base page.object = some b ∧ page.index < pages page.object ∧ n = b + page.index

variable {t : Table} {base : Nat → Option Nat} {pages : Nat → Nat} {object b count : Nat}

theorem Layout.empty (pages : Nat → Nat) : Layout (fun _ => none) (fun _ => none) pages := by
  intro n page
  constructor
  · intro h
    cases h
  · rintro ⟨b, hb, -⟩
    cases hb

theorem Layout.at (h : Layout t base pages) (hb : base object = some b) {i : Nat}
    (hi : i < pages object) : t (b + i) = some ⟨object, i⟩ := (h _ ⟨object, i⟩).mpr ⟨b, hb, hi, rfl⟩

/-- The layout is only about the pages of the objects that are there. -/
theorem Layout.congr {pages' : Nat → Nat} (h : Layout t base pages)
    (hpages : ∀ k, (base k).isSome → pages' k = pages k) : Layout t base pages' := by
  intro n page
  rw [h n page]
  refine exists_congr fun b => and_congr_right fun hb => ?_
  rw [hpages page.object (by rw [hb]; rfl)]

theorem Layout.absent (h : Layout t base pages) (hnew : base object = none) (n i : Nat) :
    t n ≠ some ⟨object, i⟩ := by
  intro hpage
  obtain ⟨b, hb, -⟩ := (h n _).mp hpage
  cases hnew.symm.trans hb

theorem Free.inside {n : Nat} (h : Free t b count) (hn : Inside b count n) : t n = none := by
  have hi : n - b < count := by
    have := hn.1
    have := hn.2
    omega
  have := h _ hi
  rwa [Nat.add_sub_cancel' hn.1, Option.isNone_iff_eq_none] at this

/-- A new object goes where nothing was, and everything else stays where it is. -/
theorem Layout.map (h : Layout t base pages) (hfree : Free t b (pages object))
    (hnew : base object = none) :
    Layout (map object b (pages object) t) (Function.update base object (some b)) pages := by
  rintro n ⟨k, i⟩
  simp only [AddressSpace.map]
  by_cases hk : k = object
  · subst hk
    simp only [Function.update_self, Option.some.injEq]
    by_cases hn : Inside b (pages k) n
    · rw [if_pos hn, Option.some.injEq, Page.mk.injEq]
      constructor
      · rintro ⟨-, rfl⟩
        exact ⟨b, rfl, by have := hn.1; have := hn.2; omega, (Nat.add_sub_cancel' hn.1).symm⟩
      · rintro ⟨b', rfl, hi, rfl⟩
        exact ⟨rfl, Nat.add_sub_cancel_left ..⟩
    · rw [if_neg hn]
      refine iff_of_false (h.absent hnew n i) ?_
      rintro ⟨b', rfl, hi, rfl⟩
      exact hn ⟨Nat.le_add_right .., Nat.add_lt_add_left hi _⟩
  · rw [Function.update_of_ne hk, ← h n ⟨k, i⟩]
    by_cases hn : Inside b (pages object) n
    · rw [if_pos hn, hfree.inside hn, Option.some.injEq, Page.mk.injEq]
      exact iff_of_false (fun heq => hk heq.1.symm) (fun heq => by cases heq)
    · rw [if_neg hn]

/-- Taking the range of one object out leaves every other object where it is. -/
theorem Layout.unmap (h : Layout t base pages) (hb : base object = some b) :
    Layout (unmap b (pages object) t) (Function.update base object none) pages := by
  rintro n ⟨k, i⟩
  simp only [AddressSpace.unmap]
  have hown : Inside b (pages object) n → t n = some ⟨object, n - b⟩ := by
    intro hn
    have := h.at hb (i := n - b) (by have := hn.1; have := hn.2; omega)
    rwa [Nat.add_sub_cancel' hn.1] at this
  by_cases hk : k = object
  · subst hk
    simp only [Function.update_self]
    refine iff_of_false ?_ (fun ⟨b', hb', _⟩ => by cases hb')
    by_cases hn : Inside b (pages k) n
    · rw [if_pos hn]
      exact fun heq => by cases heq
    · rw [if_neg hn, h n ⟨k, i⟩]
      rintro ⟨b', hb', hi, rfl⟩
      obtain rfl := Option.some.inj (hb.symm.trans hb')
      exact hn ⟨Nat.le_add_right .., Nat.add_lt_add_left hi _⟩
  · rw [Function.update_of_ne hk, ← h n ⟨k, i⟩]
    by_cases hn : Inside b (pages object) n
    · rw [if_pos hn, hown hn, Option.some.injEq, Page.mk.injEq]
      exact iff_of_false (fun heq => by cases heq) (fun heq => hk heq.1.symm)
    · rw [if_neg hn]

/-! ## Loads and stores -/

/-- A byte of an object, given by the page and the offset in it. -/
def offset (size addr : Nat) (page : Page) : Nat := size * page.index + addr % size

/-- `none` is a fault. -/
def load (size addr : Nat) (t : Table) (m : Bytes) : Option UInt8 :=
  (t (addr / size)).map fun page => m page.object (offset size addr page)

def write (object i : Nat) (v : UInt8) (m : Bytes) : Bytes :=
  Function.update m object (Function.update (m object) i v)

def store (size addr : Nat) (v : UInt8) (t : Table) (m : Bytes) : Option Bytes :=
  (t (addr / size)).map fun page => write page.object (offset size addr page) v m

variable {size i : Nat} {m : Bytes}

/-- The address of a byte of an object leads back to the byte. -/
theorem Layout.resolves (h : Layout t base pages) (hsize : 0 < size) (hb : base object = some b)
    (hi : i < size * pages object) :
    t ((size * b + i) / size) = some ⟨object, i / size⟩ ∧ offset size (size * b + i)
    ⟨object, i / size⟩ = i := by
  constructor
  · rw [Nat.mul_add_div hsize]
    exact h.at hb (Nat.div_lt_of_lt_mul hi)
  · rw [offset, Nat.mul_add_mod]
    exact Nat.div_add_mod i size

theorem Layout.load (h : Layout t base pages) (hsize : 0 < size) (hb : base object = some b)
    (hi : i < size * pages object) : load size (size * b + i) t m = some (m object i) := by
  obtain ⟨hat, hoffset⟩ := h.resolves hsize hb hi
  simp only [AddressSpace.load, hat, Option.map_some, hoffset]

theorem Layout.store (h : Layout t base pages) (hsize : 0 < size) (hb : base object = some b)
    (hi : i < size * pages object) (v : UInt8) :
    store size (size * b + i) v t m = some (write object i v m) := by
  obtain ⟨hat, hoffset⟩ := h.resolves hsize hb hi
  simp only [AddressSpace.store, hat, Option.map_some, hoffset]

end AddressSpace
