import Mathlib.Order.RelClasses
import ShmIpc.SocketAddress

/-!
# Orders of socket addresses

Every IPv4 or IPv6 address has a number that puts IPv4 before IPv6, and a
second one in which the port breaks ties. The orders and equalities of the
source compare these numbers, whatever the order of bytes of the host.
-/
namespace ShmIpcSocketOrder

open ByteOrder ShmIpcSocketAddress

/-- An address of family `AF_INET` or `AF_INET6`. -/
abbrev InetAddress := { sa : Sockaddr // saIsInetInet6 (some sa) = true }

/-! ## Comparing bytes -/

theorem memcmp_number {xs ys : List UInt8} (hlen : xs.length = ys.length) :
    (memcmp xs ys < 0 ↔ number xs < number ys) ∧ (memcmp xs ys = 0 ↔ number xs = number ys) := by
  induction xs generalizing ys with
  | nil =>
    obtain rfl : ys = [] := List.eq_nil_of_length_eq_zero hlen.symm
    simp [memcmp]
  | cons x xs ih =>
    obtain ⟨y, ys, rfl⟩ : ∃ y ys', ys = y :: ys' := List.exists_cons_of_length_eq_add_one hlen.symm
    replace hlen : xs.length = ys.length := Nat.succ.inj hlen
    have hcases : x < y ∨ x = y ∨ y < x := by
      simpa only [UInt8.lt_iff_toNat_lt, ← UInt8.toNat_inj] using Nat.lt_trichotomy x.toNat y.toNat
    rcases hcases with h | rfl | h
    · have hlt := number_lt_of_head hlen h
      rw [memcmp, if_pos h]
      omega
    · rw [memcmp, if_neg (UInt8.lt_irrefl x), if_neg (UInt8.lt_irrefl x),
        number_cons, number_cons, hlen]
      have := ih hlen
      omega
    · have hlt := number_lt_of_head hlen.symm h
      rw [memcmp, if_neg (UInt8.lt_asymm h), if_pos h]
      omega

/-! ## Numbers of addresses -/

def addrKey (host : Endian) : Sockaddr → Nat
  | .inet sin => (ntohl host sin.sinAddr).toNat
  | .inet6 sin6 => 2 ^ 32 + number sin6.sin6Addr.bytes
  | _ => 0

def key (host : Endian) (sa : Sockaddr) : Nat :=
  2 ^ 16 * addrKey host sa + (saPort host (some sa)).toNat

theorem port_lt (host : Endian) (sa : Sockaddr) : (saPort host (some sa)).toNat < 2 ^ 16 :=
  (saPort host (some sa)).toNat_lt

theorem addrKey_inet_lt (host : Endian) (sin : SockaddrIn) (sin6 : SockaddrIn6) :
    addrKey host (.inet sin) < addrKey host (.inet6 sin6) := by
  have h : (ntohl host sin.sinAddr).toNat < 2 ^ 32 := (ntohl host sin.sinAddr).toNat_lt
  simp only [addrKey]
  omega

theorem key_lt_iff (host : Endian) (sa sa' : Sockaddr) :
    key host sa < key host sa' ↔ addrKey host sa < addrKey host sa' ∨
      addrKey host sa = addrKey host sa' ∧
      (saPort host (some sa)).toNat < (saPort host (some sa')).toNat := by
  have h := port_lt host sa
  have h' := port_lt host sa'
  simp only [key]
  omega

theorem key_eq_iff (host : Endian) (sa sa' : Sockaddr) :
    key host sa = key host sa' ↔ addrKey host sa = addrKey host sa' ∧ saPort host
    (some sa) = saPort host (some sa') := by
  have h := port_lt host sa
  have h' := port_lt host sa'
  rw [← UInt16.toNat_inj]
  simp only [key]
  omega

theorem addrKey_inet_eq (host : Endian) (l r : SockaddrIn) :
    addrKey host (.inet l) = addrKey host (.inet r) ↔ l.sinAddr = r.sinAddr := by
  rw [addrKey, addrKey, UInt32.toNat_inj, ntohl_inj]

theorem length_bytes_eq (a b : In6Addr) : a.bytes.length = b.bytes.length :=
  a.size.trans b.size.symm

theorem addrKey_inet6_eq (host : Endian) (l r : SockaddrIn6) :
    addrKey host (.inet6 l) = addrKey host (.inet6 r) ↔ l.sin6Addr.bytes = r.sin6Addr.bytes := by
  rw [addrKey, addrKey, ← number_inj (length_bytes_eq l.sin6Addr r.sin6Addr)]
  omega

theorem addrKey_inet6_lt (host : Endian) (l r : SockaddrIn6) :
    addrKey host (.inet6 l) < addrKey host (.inet6 r) ↔
    memcmp l.sin6Addr.bytes r.sin6Addr.bytes < 0 := by
  rw [addrKey, addrKey, (memcmp_number (length_bytes_eq l.sin6Addr r.sin6Addr)).1]
  omega

/-! ## What the source compares -/

/-- The four pairs of families. -/
theorem inet_cases {motive : InetAddress → InetAddress → Prop}
    (inet : ∀ l r, motive ⟨.inet l, rfl⟩ ⟨.inet r, rfl⟩)
    (inet_inet6 : ∀ l r, motive ⟨.inet l, rfl⟩ ⟨.inet6 r, rfl⟩)
    (inet6_inet : ∀ l r, motive ⟨.inet6 l, rfl⟩ ⟨.inet r, rfl⟩)
    (inet6 : ∀ l r, motive ⟨.inet6 l, rfl⟩ ⟨.inet6 r, rfl⟩) (a b : InetAddress) : motive a b := by
  obtain ⟨a, ha⟩ := a
  obtain ⟨b, hb⟩ := b
  cases a with
  | inet l =>
    cases b with
    | inet r => exact inet l r
    | inet6 r => exact inet_inet6 l r
    | _ => cases hb
  | inet6 l =>
    cases b with
    | inet r => exact inet6_inet l r
    | inet6 r => exact inet6 l r
    | _ => cases hb
  | _ => cases ha

theorem saLessAddr_key (host : Endian) (a b : InetAddress) :
    saLessAddr host a.1 b.1 = .ok (decide (addrKey host a.1 < addrKey host b.1)) := by
  cases a, b using inet_cases with
  | inet l r => rfl
  | inet_inet6 l r => simp [saLessAddr, addrKey_inet_lt]
  | inet6_inet l r => simp [saLessAddr, Nat.le_of_lt (addrKey_inet_lt host r l)]
  | inet6 l r => simp [saLessAddr, addrKey_inet6_lt]

theorem saLess_key (host : Endian) (a b : InetAddress) :
    saLess host a.1 b.1 = .ok (decide (key host a.1 < key host b.1)) := by
  simp only [key_lt_iff]
  cases a, b using inet_cases with
  | inet l r =>
    by_cases h : l.sinAddr = r.sinAddr
    · simp [saLess, h, addrKey, saPort, UInt16.lt_iff_toNat_lt]
    · have hne := mt (addrKey_inet_eq host l r).mp h
      simp only [addrKey] at hne
      simp [saLess, h, hne, addrKey, UInt32.lt_iff_toNat_lt]
  | inet_inet6 l r => simp [saLess, addrKey_inet_lt]
  | inet6_inet l r =>
    have h := addrKey_inet_lt host r l
    simp [saLess, Nat.lt_asymm h, Nat.ne_of_gt h]
  | inet6 l r =>
    have heq : memcmp l.sin6Addr.bytes r.sin6Addr.bytes = 0 ↔
        addrKey host (.inet6 l) = addrKey host (.inet6 r) := by
      have hlen := length_bytes_eq l.sin6Addr r.sin6Addr
      rw [(memcmp_number hlen).2, number_inj hlen, addrKey_inet6_eq]
    by_cases h : memcmp l.sin6Addr.bytes r.sin6Addr.bytes = 0
    · simp [saLess, h, heq.mp h, saPort, UInt16.lt_iff_toNat_lt]
    · simp [saLess, h, mt heq.mpr h, addrKey_inet6_lt]

theorem saEqualAddr_key (host : Endian) (a b : InetAddress) :
    saEqualAddr a.1 b.1 = .ok (decide (addrKey host a.1 = addrKey host b.1)) := by
  cases a, b using inet_cases with
  | inet l r =>
    simp [saEqualAddr, equalBy, Sockaddr.saFamily, Family.valid, sinEqualAddr,
      addrKey_inet_eq, beq_eq_decide]
  | inet_inet6 l r =>
    simp [saEqualAddr, equalBy, Sockaddr.saFamily, Family.valid,
      Nat.ne_of_lt (addrKey_inet_lt host l r)]
  | inet6_inet l r =>
    simp [saEqualAddr, equalBy, Sockaddr.saFamily, Family.valid,
      Nat.ne_of_gt (addrKey_inet_lt host r l)]
  | inet6 l r =>
    simp [saEqualAddr, equalBy, Sockaddr.saFamily, Family.valid, sin6EqualAddr,
      addrKey_inet6_eq, beq_eq_decide]

theorem saEqual_key (host : Endian) (a b : InetAddress) :
    saEqual a.1 b.1 = .ok (decide (key host a.1 = key host b.1)) := by
  simp only [key_eq_iff]
  cases a, b using inet_cases with
  | inet l r =>
    simp [saEqual, equalBy, Sockaddr.saFamily, Family.valid, sinEqual,
      addrKey_inet_eq, saPort, ntohs_inj, beq_eq_decide, and_comm]
  | inet_inet6 l r =>
    simp [saEqual, equalBy, Sockaddr.saFamily, Family.valid,
      Nat.ne_of_lt (addrKey_inet_lt host l r)]
  | inet6_inet l r =>
    simp [saEqual, equalBy, Sockaddr.saFamily, Family.valid,
      Nat.ne_of_gt (addrKey_inet_lt host r l)]
  | inet6 l r =>
    simp [saEqual, equalBy, Sockaddr.saFamily, Family.valid, sin6Equal,
      addrKey_inet6_eq, saPort, ntohs_inj, beq_eq_decide, and_comm]

/-! ## The orders -/

def Less (host : Endian) (a b : InetAddress) : Prop := saLess host a.1 b.1 = .ok true
def LessAddr (host : Endian) (a b : InetAddress) : Prop := saLessAddr host a.1 b.1 = .ok true
def Equal (a b : InetAddress) : Prop := saEqual a.1 b.1 = .ok true
def EqualAddr (a b : InetAddress) : Prop := saEqualAddr a.1 b.1 = .ok true

theorem less_iff (host : Endian) (a b : InetAddress) :
    Less host a b ↔ key host a.1 < key host b.1 := by
  rw [Less, saLess_key, Except.ok.injEq, decide_eq_true_iff]

theorem lessAddr_iff (host : Endian) (a b : InetAddress) :
    LessAddr host a b ↔ addrKey host a.1 < addrKey host b.1 := by
  rw [LessAddr, saLessAddr_key, Except.ok.injEq, decide_eq_true_iff]

theorem equal_iff (host : Endian) (a b : InetAddress) :
    Equal a b ↔ key host a.1 = key host b.1 := by
  rw [Equal, saEqual_key host, Except.ok.injEq, decide_eq_true_iff]

theorem equalAddr_iff (host : Endian) (a b : InetAddress) :
    EqualAddr a b ↔ addrKey host a.1 = addrKey host b.1 := by
  rw [EqualAddr, saEqualAddr_key host, Except.ok.injEq, decide_eq_true_iff]

/-- A relation that compares numbers is a strict weak order. -/
theorem strictWeakOrder_of_key {α : Type} {r : α → α → Prop} (f : α → Nat)
    (h : ∀ a b, r a b ↔ f a < f b) : IsStrictWeakOrder α r where
  irrefl a := by
    rw [h]
    exact Nat.lt_irrefl _
  trans a b c := by
    rw [h, h, h]
    exact Nat.lt_trans
  incomp_trans a b c := by
    simp only [h]
    omega

/-- The orders of addresses are strict weak orders, and what they do not tell apart is equal. -/
theorem orders_agree (host : Endian) :
    IsStrictWeakOrder InetAddress (Less host) ∧ IsStrictWeakOrder InetAddress (LessAddr host) ∧
    ∀ a b : InetAddress,
      ((saLess host a.1 b.1).isOk ∧ (saLessAddr host a.1 b.1).isOk ∧ (saEqual a.1 b.1).isOk ∧
        (saEqualAddr a.1 b.1).isOk) ∧
      (¬ Less host a b ∧ ¬ Less host b a ↔ Equal a b) ∧
      (¬ LessAddr host a b ∧ ¬ LessAddr host b a ↔ EqualAddr a b) ∧
      (LessAddr host a b → Less host a b) ∧
      (EqualAddr a b → (Less host a b ↔ saPort host (some a.1) < saPort host (some b.1))) := by
  refine ⟨strictWeakOrder_of_key _ (less_iff host),
    strictWeakOrder_of_key _ (lessAddr_iff host), ?_⟩
  intro a b
  refine ⟨?_, ?_, ?_, ?_, ?_⟩
  · rw [saLess_key, saLessAddr_key, saEqual_key host, saEqualAddr_key host]
    exact ⟨rfl, rfl, rfl, rfl⟩
  · rw [less_iff, less_iff, equal_iff host]
    omega
  · rw [lessAddr_iff, lessAddr_iff, equalAddr_iff host]
    omega
  · rw [lessAddr_iff, less_iff, key_lt_iff]
    exact .inl
  · intro h
    rw [equalAddr_iff host] at h
    rw [less_iff, key_lt_iff, UInt16.lt_iff_toNat_lt]
    omega

end ShmIpcSocketOrder
