import Mathlib.Algebra.Group.Nat.Defs
import Mathlib.Data.List.Basic

/-!
# Byte orders

Words of `n` bytes as digits to base 256, and hosts that keep the digits of a
word in either order. On every host the network order of a word is the word
whose bytes in memory stand most significant first.
-/
namespace ByteOrder

inductive Endian where
  | little | big
  deriving DecidableEq, Repr

/-! ## Digits -/

/-- The last `n` digits of a number, most significant first. -/
def digits : Nat → Nat → List UInt8
  | 0, _ => []
  | n + 1, w => UInt8.ofNat (w / 256 ^ n) :: digits n w

def number (bs : List UInt8) : Nat := bs.foldl (fun w b => 256 * w + b.toNat) 0

@[simp] theorem length_digits (n w : Nat) : (digits n w).length = n := by
  induction n with
  | zero => rfl
  | succ n ih => rw [digits, List.length_cons, ih]

theorem foldl_number (bs : List UInt8) (w : Nat) :
    bs.foldl (fun w b => 256 * w + b.toNat) w = 256 ^ bs.length * w + number bs := by
  induction bs generalizing w with
  | nil => simp [number]
  | cons b bs ih =>
    simp only [List.foldl_cons, number, List.length_cons, Nat.mul_zero, Nat.zero_add]
    rw [ih, ih b.toNat, Nat.mul_add, Nat.pow_succ, Nat.add_assoc, Nat.mul_assoc]

theorem number_cons (b : UInt8) (bs : List UInt8) :
    number (b :: bs) = 256 ^ bs.length * b.toNat + number bs := by
  rw [number, List.foldl_cons, foldl_number, Nat.mul_zero, Nat.zero_add]

theorem number_lt (bs : List UInt8) : number bs < 256 ^ bs.length := by
  induction bs with
  | nil => decide
  | cons b bs ih =>
    have hb : b.toNat + 1 ≤ 256 := b.toNat_lt
    have hle := Nat.mul_le_mul_left (256 ^ bs.length) hb
    rw [Nat.mul_add, Nat.mul_one] at hle
    rw [number_cons, List.length_cons, Nat.pow_succ]
    omega

theorem number_digits (n w : Nat) : number (digits n w) = w % 256 ^ n := by
  induction n with
  | zero => simp [digits, number, Nat.mod_one]
  | succ n ih =>
    have hsplit : w % 256 ^ (n + 1) = w % 256 ^ n + 256 ^ n * (w / 256 ^ n % 2 ^ 8) := Nat.mod_mul
    rw [digits, number_cons, length_digits, ih, UInt8.toNat_ofNat', hsplit, Nat.add_comm]

/-- The digits depend on the end of the number only. -/
theorem digits_mod (n w k : Nat) (h : n ≤ k) : digits n (w % 256 ^ k) = digits n w := by
  induction n with
  | zero => rfl
  | succ n ih =>
    obtain ⟨m, rfl⟩ : ∃ m, k = n + (m + 1) := ⟨k - n - 1, by omega⟩
    rw [digits, digits, ih (by omega)]
    congr 1
    apply UInt8.toNat_inj.mp
    rw [UInt8.toNat_ofNat', UInt8.toNat_ofNat', Nat.pow_add,
      Nat.mod_mul_right_div_self, Nat.pow_succ, Nat.mul_comm, Nat.mod_mul_right_mod]

theorem digits_number (bs : List UInt8) : digits bs.length (number bs) = bs := by
  induction bs with
  | nil => rfl
  | cons b bs ih =>
    have hlt := number_lt bs
    have htail : digits bs.length (number (b :: bs)) = bs := by
      rw [← digits_mod _ _ _ (Nat.le_refl _), number_cons, Nat.mul_add_mod_self_left,
        Nat.mod_eq_of_lt hlt, ih]
    rw [List.length_cons, digits, htail, number_cons, Nat.mul_add_div (Nat.pow_pos (by decide)),
      Nat.div_eq_of_lt hlt, Nat.add_zero, UInt8.ofNat_toNat]

theorem number_inj {bs bs' : List UInt8} (hlen : bs.length = bs'.length) :
    number bs = number bs' ↔ bs = bs' := by
  refine ⟨fun h => ?_, congrArg number⟩
  rw [← digits_number bs, h, hlen, digits_number]

/-- The first digits decide. -/
theorem number_lt_of_head {b b' : UInt8} {bs bs' : List UInt8} (hlen : bs.length = bs'.length)
    (h : b < b') : number (b :: bs) < number (b' :: bs') := by
  have hlt := number_lt bs
  have hhead : b.toNat + 1 ≤ b'.toNat := h
  have hle := Nat.mul_le_mul_left (256 ^ bs.length) hhead
  rw [Nat.mul_add, Nat.mul_one] at hle
  rw [number_cons, number_cons, ← hlen]
  omega

/-! ## Hosts -/

/-- The bytes of a word in the memory of a host, lowest address first. -/
def store (host : Endian) (n w : Nat) : List UInt8 :=
  match host with
  | .big => digits n w
  | .little => (digits n w).reverse

/-- The word that a host finds in its memory. -/
def load (host : Endian) (bs : List UInt8) : Nat :=
  match host with
  | .big => number bs
  | .little => number bs.reverse

@[simp] theorem length_store (host : Endian) (n w : Nat) : (store host n w).length = n := by
  cases host <;> simp [store]

theorem load_store (host : Endian) {n w : Nat} (h : w < 256 ^ n) :
    load host (store host n w) = w := by
  cases host <;> simp [load, store, number_digits, Nat.mod_eq_of_lt h]

theorem store_load (host : Endian) (bs : List UInt8) :
    store host bs.length (load host bs) = bs := by
  cases host with
  | big => exact digits_number bs
  | little =>
    have h := digits_number bs.reverse
    rw [List.length_reverse] at h
    simp [store, load, h]

theorem load_lt (host : Endian) (bs : List UInt8) : load host bs < 256 ^ bs.length := by
  cases host with
  | big => exact number_lt bs
  | little =>
    have h := number_lt bs.reverse
    rwa [List.length_reverse] at h

/-- From host to network order: the word whose bytes in memory are the digits. -/
def hton (host : Endian) (n w : Nat) : Nat := load host (digits n w)

/-- From network to host order: the number whose digits are the bytes in memory. -/
def ntoh (host : Endian) (n w : Nat) : Nat := number (store host n w)

theorem store_hton (host : Endian) (n w : Nat) : store host n (hton host n w) = digits n w := by
  have h := store_load host (digits n w)
  rwa [length_digits] at h

theorem ntoh_hton (host : Endian) {n w : Nat} (h : w < 256 ^ n) :
    ntoh host n (hton host n w) = w := by
  rw [ntoh, store_hton, number_digits, Nat.mod_eq_of_lt h]

theorem hton_ntoh (host : Endian) {n w : Nat} (h : w < 256 ^ n) :
    hton host n (ntoh host n w) = w := by
  have hdigits := digits_number (store host n w)
  rw [length_store] at hdigits
  rw [hton, ntoh, hdigits, load_store host h]

theorem hton_lt (host : Endian) (n w : Nat) : hton host n w < 256 ^ n := by
  have h := load_lt host (digits n w)
  rwa [length_digits] at h

theorem ntoh_lt (host : Endian) (n w : Nat) : ntoh host n w < 256 ^ n := by
  have h := number_lt (store host n w)
  rwa [length_store] at h

/-! ## Words of 16 and 32 bits -/

def htonl (host : Endian) (w : UInt32) : UInt32 := UInt32.ofNat (hton host 4 w.toNat)
def ntohl (host : Endian) (w : UInt32) : UInt32 := UInt32.ofNat (ntoh host 4 w.toNat)
def ntohs (host : Endian) (w : UInt16) : UInt16 := UInt16.ofNat (ntoh host 2 w.toNat)

theorem toNat_htonl (host : Endian) (w : UInt32) : (htonl host w).toNat = hton host 4 w.toNat :=
  UInt32.toNat_ofNat_of_lt' (hton_lt host 4 w.toNat)

theorem toNat_ntohl (host : Endian) (w : UInt32) : (ntohl host w).toNat = ntoh host 4 w.toNat :=
  UInt32.toNat_ofNat_of_lt' (ntoh_lt host 4 w.toNat)

theorem toNat_ntohs (host : Endian) (w : UInt16) : (ntohs host w).toNat = ntoh host 2 w.toNat :=
  UInt16.toNat_ofNat_of_lt' (ntoh_lt host 2 w.toNat)

theorem ntohl_htonl (host : Endian) (w : UInt32) : ntohl host (htonl host w) = w := by
  rw [← UInt32.toNat_inj, toNat_ntohl, toNat_htonl, ntoh_hton host w.toNat_lt]

theorem htonl_ntohl (host : Endian) (w : UInt32) : htonl host (ntohl host w) = w := by
  rw [← UInt32.toNat_inj, toNat_htonl, toNat_ntohl, hton_ntoh host w.toNat_lt]

theorem ntohl_inj (host : Endian) {w w' : UInt32} : ntohl host w = ntohl host w' ↔ w = w' := by
  refine ⟨fun h => ?_, congrArg _⟩
  rw [← htonl_ntohl host w, h, htonl_ntohl]

theorem ntohs_inj (host : Endian) {w w' : UInt16} : ntohs host w = ntohs host w' ↔ w = w' := by
  refine ⟨fun h => ?_, congrArg _⟩
  have hnat := congrArg (hton host 2 ∘ UInt16.toNat) h
  simp only [Function.comp_apply, toNat_ntohs] at hnat
  rw [hton_ntoh host w.toNat_lt, hton_ntoh host w'.toNat_lt] at hnat
  exact UInt16.toNat_inj.mp hnat

/-- In memory the network order of a word is its digits, on every host. -/
theorem store_htonl (host : Endian) (w : UInt32) :
    store host 4 (htonl host w).toNat = digits 4 w.toNat := by
  rw [toNat_htonl, store_hton]

/-- A word that looks the same from both ends has one order only. -/
theorem htonl_of_palindrome (host : Endian) {w : UInt32}
    (h : (digits 4 w.toNat).reverse = digits 4 w.toNat) : htonl host w = w := by
  rw [← UInt32.toNat_inj, toNat_htonl]
  have hnumber : number (digits 4 w.toNat) = w.toNat := by
    rw [number_digits]
    exact Nat.mod_eq_of_lt w.toNat_lt
  cases host with
  | big => exact hnumber
  | little =>
    show number (digits 4 w.toNat).reverse = w.toNat
    rw [h, hnumber]

end ByteOrder
