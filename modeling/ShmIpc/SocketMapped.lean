import ShmIpc.ByteMemory
import ShmIpc.SocketAddress

/-!
# Mapped IPv4 addresses

A mapped address is twelve fixed bytes and the four bytes of an IPv4 address in
network order, on every host. Unmapping leads every address to one of its two
forms, and none of the predicates on addresses tells the forms apart.
-/
namespace ShmIpcSocketMapped

open ByteMemory ByteOrder ShmIpcSocketAddress

/-! ## The last word of an address -/

/-- Four bytes shifted into place are the number with these digits. -/
theorem shifted_toNat (b₀ b₁ b₂ b₃ : UInt8) :
    ((b₀.toUInt32 <<< 24) + (b₁.toUInt32 <<< 16) + (b₂.toUInt32 <<< 8) +
      (b₃.toUInt32 <<< 0)).toNat = number [b₀, b₁, b₂, b₃] := by
  have h₀ := b₀.toNat_lt
  have h₁ := b₁.toNat_lt
  have h₂ := b₂.toNat_lt
  have h₃ := b₃.toNat_lt
  have hnumber : number [b₀, b₁, b₂, b₃] = 256 * (256 * (256 * b₀.toNat + b₁.toNat) + b₂.toNat) +
      b₃.toNat := by
    simp [number]
  simp only [UInt32.toNat_add, UInt32.toNat_shiftLeft, UInt8.toNat_toUInt32,
    UInt32.reduceToNat, Nat.reduceMod, Nat.shiftLeft_eq, hnumber]
  omega

theorem drop_bytes (a : In6Addr) :
    a.bytes.drop 12 = [a.s6Addr 12, a.s6Addr 13, a.s6Addr 14, a.s6Addr 15] := by
  have hsize := a.size
  apply List.ext_getElem
  · simp [hsize]
  intro i hi _
  rw [List.length_drop, hsize] at hi
  rw [List.getElem_drop]
  match i, hi with
  | 0, _ => rfl
  | 1, _ => rfl
  | 2, _ => rfl
  | 3, _ => rfl

theorem lastWord_number (sin6 : SockaddrIn6) :
    (sin6Addr32Index sin6 3).toNat = number (sin6.sin6Addr.bytes.drop 12) := by
  rw [drop_bytes, ← shifted_toNat]
  rfl

theorem lastWord_toNat (sin6 : SockaddrIn6) :
    (sin6Addr32Index sin6 3).toNat =
      256 * (256 * (256 * (sin6.sin6Addr.s6Addr 12).toNat + (sin6.sin6Addr.s6Addr 13).toNat) +
        (sin6.sin6Addr.s6Addr 14).toNat) + (sin6.sin6Addr.s6Addr 15).toNat := by
  rw [lastWord_number, drop_bytes]
  simp [number]

/-! ## Mapping and back -/

/-- What `IN6_IS_ADDR_V4MAPPED` looks for. -/
def mappedPrefix : List UInt8 := List.replicate 10 0 ++ [0xff, 0xff]

theorem length_mappedPrefix : mappedPrefix.length = 12 := rfl

theorem bytes_sin6ToV4mappedIn (host : Endian) (sin : SockaddrIn) :
    (sin6ToV4mappedIn host sin).sin6Addr.bytes = mappedPrefix ++ digits 4
    (ntohl host sin.sinAddr).toNat := by
  simp only [sin6ToV4mappedIn, sin6MakeAddr32, store_htonl]
  rfl

theorem bytes_of_mapped {sin6 : SockaddrIn6} (h : sin6IsV4mapped (some sin6) = true) :
    sin6.sin6Addr.bytes = mappedPrefix ++ sin6.sin6Addr.bytes.drop 12 := by
  have htake : sin6.sin6Addr.bytes.take 12 = mappedPrefix := eq_of_beq h
  rw [← htake, List.take_append_drop]

theorem mapped_sin6ToV4mappedIn (host : Endian) (sin : SockaddrIn) :
    sin6IsV4mapped (some (sin6ToV4mappedIn host sin)) = true := by
  rw [sin6IsV4mapped, in6IsAddrV4mapped, bytes_sin6ToV4mappedIn,
    List.take_left' length_mappedPrefix]
  rfl

theorem lastWord_sin6ToV4mappedIn (host : Endian) (sin : SockaddrIn) :
    sin6Addr32Index (sin6ToV4mappedIn host sin) 3 = ntohl host sin.sinAddr := by
  rw [← UInt32.toNat_inj, lastWord_number, bytes_sin6ToV4mappedIn,
    List.drop_left' length_mappedPrefix, number_digits]
  exact Nat.mod_eq_of_lt (ntohl host sin.sinAddr).toNat_lt

/-- The IPv4 address of a mapped one has its last four bytes, in the order of the network. -/
def unmappedIn (host : Endian) (sin6 : SockaddrIn6) : SockaddrIn where
  sinPort := sin6.sin6Port
  sinAddr := htonl host (UInt32.ofNat (number (sin6.sin6Addr.bytes.drop 12)))

theorem sinAddr_unmappedIn (host : Endian) (sin6 : SockaddrIn6) :
    (unmappedIn host sin6).sinAddr = htonl host (sin6Addr32Index sin6 3) := by
  rw [unmappedIn, ← lastWord_number, UInt32.ofNat_toNat]

theorem sinFromV4mappedIn6_mapped (host : Endian) {sin6 : SockaddrIn6}
    (h : sin6IsV4mapped (some sin6) = true) :
    sinFromV4mappedIn6 host sin6 = .ok (unmappedIn host sin6) := by
  rw [sinFromV4mappedIn6, h, ← sinAddr_unmappedIn]
  rfl

theorem unmappedIn_sin6ToV4mappedIn (host : Endian) (sin : SockaddrIn) :
    unmappedIn host (sin6ToV4mappedIn host sin) = sin := by
  have haddr : (unmappedIn host (sin6ToV4mappedIn host sin)).sinAddr = sin.sinAddr := by
    rw [sinAddr_unmappedIn, lastWord_sin6ToV4mappedIn, htonl_ntohl]
  exact congrArg (SockaddrIn.mk sin.sinPort) haddr

/-- Flow and scope are lost, the address and the port are not. -/
theorem sin6ToV4mappedIn_unmappedIn (host : Endian) {sin6 : SockaddrIn6}
    (h : sin6IsV4mapped (some sin6) = true) :
    sin6Equal (sin6ToV4mappedIn host (unmappedIn host sin6)) sin6 = true := by
  have hword : digits 4 (sin6Addr32Index sin6 3).toNat = sin6.sin6Addr.bytes.drop 12 := by
    have h := digits_number (sin6.sin6Addr.bytes.drop 12)
    rwa [List.length_drop, sin6.sin6Addr.size, ← lastWord_number] at h
  have hbytes : (sin6ToV4mappedIn host (unmappedIn host sin6)).sin6Addr.bytes =
      sin6.sin6Addr.bytes := by
    rw [bytes_sin6ToV4mappedIn, sinAddr_unmappedIn, ntohl_htonl, hword, ← bytes_of_mapped h]
  rw [sin6Equal, hbytes]
  simp [sin6ToV4mappedIn, unmappedIn]

/-! ## Unmapping -/

/-- What `sa_convert` and `sa_copy_unmapped` make of a valid address. -/
def unmapped (host : Endian) : Sockaddr → Sockaddr
  | .inet6 sin6 => if sin6IsV4mapped (some sin6) then .inet (unmappedIn host sin6) else .inet6 sin6
  | sa => sa

theorem unmapped_inet6 (host : Endian) (sin6 : SockaddrIn6) :
    (if sin6IsV4mapped (some sin6) then saFromV4mappedIn6 host sin6 else .ok (saCopyIn6 sin6)) =
      .ok (unmapped host (.inet6 sin6)) := by
  by_cases hm : sin6IsV4mapped (some sin6) = true
  · simp [unmapped, hm, saFromV4mappedIn6, sinFromV4mappedIn6_mapped host hm, Except.map, saFromIn]
  · simp [unmapped, hm, saCopyIn6]

theorem saConvert_ok (host : Endian) {sa : Sockaddr} (h : sa.saFamily.valid = true) :
    saConvert host (some sa) = .ok (unmapped host sa) := by
  cases sa with
  | unspec => rfl
  | inet sin => rfl
  | inet6 sin6 => exact unmapped_inet6 host sin6
  | unix => cases h
  | other number => cases h

theorem saCopyUnmapped_ok (host : Endian) {sa : Sockaddr} (h : sa.saFamily.valid = true) :
    saCopyUnmapped host (some sa) = .ok (unmapped host sa) := by
  cases sa with
  | unspec => rfl
  | inet sin => rfl
  | inet6 sin6 => exact unmapped_inet6 host sin6
  | unix => cases h
  | other number => cases h

theorem unmapped_of_not_mapped (host : Endian) {sa : Sockaddr}
    (h : saIsV4mapped (some sa) = false) : unmapped host sa = sa := by
  cases sa with
  | inet6 sin6 =>
    have hm : sin6IsV4mapped (some sin6) = false := h
    simp [unmapped, hm]
  | _ => rfl

/-- Only a mapped address becomes another one. -/
theorem unmapped_cases (host : Endian) (sa : Sockaddr) :
    (∃ sin6, sa = .inet6 sin6 ∧ sin6IsV4mapped (some sin6) = true ∧
      unmapped host sa = .inet (unmappedIn host sin6)) ∨
    (saIsV4mapped (some sa) = false ∧ unmapped host sa = sa) := by
  by_cases h : saIsV4mapped (some sa) = true
  · cases sa with
    | inet6 sin6 => exact .inl ⟨sin6, rfl, h, if_pos h⟩
    | _ => cases h
  · have hf := eq_false_of_ne_true h
    exact .inr ⟨hf, unmapped_of_not_mapped host hf⟩

theorem saIsV4mapped_unmapped (host : Endian) (sa : Sockaddr) :
    saIsV4mapped (some (unmapped host sa)) = false := by
  rcases unmapped_cases host sa with ⟨_, _, _, h⟩ | ⟨hm, h⟩
  · rw [h]
    rfl
  · rwa [h]

theorem unmapped_unmapped (host : Endian) (sa : Sockaddr) :
    unmapped host (unmapped host sa) = unmapped host sa :=
  unmapped_of_not_mapped host (saIsV4mapped_unmapped host sa)

theorem saPort_unmapped (host : Endian) (sa : Sockaddr) :
    saPort host (some (unmapped host sa)) = saPort host (some sa) := by
  rcases unmapped_cases host sa with ⟨_, rfl, _, h⟩ | ⟨_, h⟩
  · rw [h]
    rfl
  · rw [h]

theorem valid_unmapped (host : Endian) {sa : Sockaddr} (hv : sa.saFamily.valid = true) :
    (unmapped host sa).saFamily.valid = true := by
  rcases unmapped_cases host sa with ⟨_, _, _, h⟩ | ⟨_, h⟩
  · rw [h]
    rfl
  · rwa [h]

theorem unmapped_saToV4mappedIn (host : Endian) (sin : SockaddrIn) :
    unmapped host (saToV4mappedIn host sin) = .inet sin := by
  simp [unmapped, saToV4mappedIn, saFromIn6, mapped_sin6ToV4mappedIn, unmappedIn_sin6ToV4mappedIn]

theorem saEqual_self {sa : Sockaddr} (h : sa.saFamily.valid = true) : saEqual sa sa = .ok true := by
  cases sa with
  | unspec => rfl
  | inet sin => simp [saEqual, equalBy, Sockaddr.saFamily, Family.valid, sinEqual]
  | inet6 sin6 => simp [saEqual, equalBy, Sockaddr.saFamily, Family.valid, sin6Equal]
  | unix => cases h
  | other number => cases h

/-- `c` is what `f` makes of `a`, and is a normal form of it. -/
structure NormalForm (host : Endian) (f : Option Sockaddr → Except String Sockaddr)
    (a c : Sockaddr) : Prop where
  result : f (some a) = .ok c
  notMapped : saIsV4mapped (some c) = false
  port : saPort host (some c) = saPort host (some a)
  same : saIsV4mapped (some a) = false → saEqual c a = .ok true
  idempotent : ∃ c', f (some c) = .ok c' ∧ saEqual c' c = .ok true

theorem normalForm_unmapped (host : Endian) {f : Option Sockaddr → Except String Sockaddr}
    (hf : ∀ {sa : Sockaddr}, sa.saFamily.valid = true → f (some sa) = .ok (unmapped host sa))
    {a : Sockaddr} (h : a.saFamily.valid = true) : NormalForm host f a (unmapped host a) where
  result := hf h
  notMapped := saIsV4mapped_unmapped host a
  port := saPort_unmapped host a
  same := by
    intro hm
    rw [unmapped_of_not_mapped host hm]
    exact saEqual_self h
  idempotent := by
    have hv := valid_unmapped host h
    refine ⟨unmapped host a, ?_, saEqual_self hv⟩
    rw [hf hv, unmapped_unmapped]

/-- Mapping is a bijection onto the mapped addresses, and unmapping picks one of the two forms. -/
theorem mapping_bijective (host : Endian) :
    (∀ s : SockaddrIn, sin6IsV4mapped (some (sin6ToV4mappedIn host s)) = true ∧
      ∃ s', sinFromV4mappedIn6 host (sin6ToV4mappedIn host s) = .ok s' ∧ sinEqual s' s = true) ∧
    (∀ m : SockaddrIn6, sin6IsV4mapped (some m) = true →
      ∃ s, sinFromV4mappedIn6 host m = .ok s ∧ sin6Equal (sin6ToV4mappedIn host s) m = true) ∧
    (∀ a : Sockaddr, a.saFamily.valid = true → ∃ c u, saEqual c u = .ok true ∧
      NormalForm host (saConvert host) a c ∧ NormalForm host (saCopyUnmapped host) a u) ∧
    (∀ s : SockaddrIn, ∃ m c, saToV4mapped host (some (.inet s)) = .ok m ∧
      saConvert host (some m) = .ok c ∧ saEqual c (.inet s) = .ok true) := by
  refine ⟨?_, ?_, ?_, ?_⟩
  · intro s
    refine ⟨mapped_sin6ToV4mappedIn host s, s, ?_, by simp [sinEqual]⟩
    rw [sinFromV4mappedIn6_mapped host (mapped_sin6ToV4mappedIn host s),
      unmappedIn_sin6ToV4mappedIn]
  · intro m hm
    exact ⟨unmappedIn host m, sinFromV4mappedIn6_mapped host hm,
      sin6ToV4mappedIn_unmappedIn host hm⟩
  · intro a h
    exact ⟨unmapped host a, unmapped host a, saEqual_self (valid_unmapped host h),
      normalForm_unmapped host (saConvert_ok host) h, normalForm_unmapped host
      (saCopyUnmapped_ok host) h⟩
  · intro s
    refine ⟨saToV4mappedIn host s, .inet s, rfl, ?_, saEqual_self rfl⟩
    rw [saConvert_ok host rfl, unmapped_saToV4mappedIn]

/-- `::ffff:127.0.0.1` -/
def mappedLocalhost : SockaddrIn6 :=
  { sin6Make with sin6Addr := ⟨mappedPrefix ++ [127, 0, 0, 1], rfl⟩ }

theorem mapping_bijective_localhost :
    (∃ s, sinFromV4mappedIn6 .little mappedLocalhost = .ok s ∧
      sin6Equal (sin6ToV4mappedIn .little s) mappedLocalhost = true) ∧
    (∃ c u, saEqual c u = .ok true ∧ NormalForm .little (saConvert .little)
      (.inet6 mappedLocalhost) c ∧ NormalForm .little (saCopyUnmapped .little)
        (.inet6 mappedLocalhost) u) :=
  ⟨(mapping_bijective .little).2.1 mappedLocalhost rfl, (mapping_bijective .little).2.2.1
    (.inet6 mappedLocalhost) rfl⟩

/-! ## Kinds of addresses -/

/-- The predicates on addresses answer alike. -/
structure SameKinds (host : Endian) (sa sa' : Sockaddr) : Prop where
  any : saIsAny host sa = saIsAny host sa'
  broadcast : saIsBroadcast host sa = saIsBroadcast host sa'
  loopback : saIsLoopback host sa = saIsLoopback host sa'
  linkLocal : saIsLinkLocal host sa = saIsLinkLocal host sa'
  portAny : saIsPortAny host sa = saIsPortAny host sa'

theorem SameKinds.refl (host : Endian) (sa : Sockaddr) : SameKinds host sa sa :=
  ⟨rfl, rfl, rfl, rfl, rfl⟩

/-- Comparing the word itself with a constant that reads the same from both ends. -/
theorem beq_htonl (host : Endian) (w k : UInt32)
    (hk : (digits 4 k.toNat).reverse = digits 4 k.toNat) :
    (w == htonl host k) = (htonl host w == htonl host k) := by
  rw [htonl_of_palindrome host hk, Bool.eq_iff_iff, beq_iff_eq, beq_iff_eq]
  constructor
  · rintro rfl
    exact htonl_of_palindrome host hk
  · intro h
    calc
      w = ntohl host (htonl host w) := (ntohl_htonl host w).symm
      _ = ntohl host (htonl host k) := by rw [h, htonl_of_palindrome host hk]
      _ = k := ntohl_htonl host k

theorem loopback_lastWord (sin6 : SockaddrIn6) :
    (sin6.sin6Addr.s6Addr 12 == 127) = (sin6Addr32Index sin6 3 >>> 24 == 127) := by
  have hword := lastWord_toNat sin6
  have h₁ := (sin6.sin6Addr.s6Addr 13).toNat_lt
  have h₂ := (sin6.sin6Addr.s6Addr 14).toNat_lt
  have h₃ := (sin6.sin6Addr.s6Addr 15).toNat_lt
  rw [Bool.eq_iff_iff, beq_iff_eq, beq_iff_eq, ← UInt8.toNat_inj, ← UInt32.toNat_inj,
    UInt32.toNat_shiftRight, Nat.shiftRight_eq_div_pow, hword]
  simp only [UInt8.reduceToNat, UInt32.reduceToNat, Nat.reduceMod]
  omega

theorem linkLocal_lastWord (sin6 : SockaddrIn6) :
    (sin6.sin6Addr.s6Addr 12 == 169 && sin6.sin6Addr.s6Addr 13 == 254) =
      (sin6Addr32Index sin6 3 &&& 0xffff0000 == 0xa9fe0000) := by
  have hword := lastWord_toNat sin6
  have h₁ := (sin6.sin6Addr.s6Addr 13).toNat_lt
  have h₂ := (sin6.sin6Addr.s6Addr 14).toNat_lt
  have h₃ := (sin6.sin6Addr.s6Addr 15).toNat_lt
  have hmask : (sin6Addr32Index sin6 3 &&& 0xffff0000).toNat = (sin6Addr32Index sin6 3).toNat /
      2 ^ 16 * 2 ^ 16 :=
    and_highBits 16 _ (by decide) (sin6Addr32Index sin6 3).toNat_lt
  rw [Bool.eq_iff_iff, Bool.and_eq_true, beq_iff_eq, beq_iff_eq,
    beq_iff_eq, ← UInt8.toNat_inj, ← UInt8.toNat_inj, ← UInt32.toNat_inj, hmask, hword]
  simp only [UInt8.reduceToNat, UInt32.reduceToNat]
  omega

theorem sameKinds_unmappedIn (host : Endian) {sin6 : SockaddrIn6}
    (h : sin6IsV4mapped (some sin6) = true) :
    SameKinds host (.inet6 sin6) (.inet (unmappedIn host sin6)) where
  any := by
    simp only [saIsAny, saIsV4mapped, h, sinIsAny, sinAddr_unmappedIn, if_true]
    exact beq_htonl host _ inaddrAny rfl
  broadcast := by
    simp only [saIsBroadcast, saIsV4mapped, h, sinIsBroadcast, sinAddr_unmappedIn, if_true]
    exact beq_htonl host _ inaddrBroadcast rfl
  loopback := by
    simp only [saIsLoopback, saIsV4mapped, h, sinIsLoopback,
      sinAddr_unmappedIn, if_true, ntohl_htonl]
    exact loopback_lastWord sin6
  linkLocal := by
    simp only [saIsLinkLocal, saIsV4mapped, h, sinIsLinkLocal,
      sinAddr_unmappedIn, if_true, ntohl_htonl]
    exact linkLocal_lastWord sin6
  portAny := rfl

theorem sameKinds_unmapped (host : Endian) (sa : Sockaddr) :
    SameKinds host sa (unmapped host sa) := by
  rcases unmapped_cases host sa with ⟨sin6, rfl, hm, h⟩ | ⟨_, h⟩
  · rw [h]
    exact sameKinds_unmappedIn host hm
  · rw [h]
    exact .refl host sa

theorem saFamily_valid_of_inet_inet6 {sa : Sockaddr} (h : saIsInetInet6 (some sa) = true) :
    sa.saFamily.valid = true := by
  cases sa with
  | inet sin => rfl
  | inet6 sin6 => rfl
  | _ => cases h

/-- Mapping changes the answer of no predicate, and neither does unmapping. -/
theorem kinds_mapped (host : Endian) :
    (∀ s : SockaddrIn, ∃ m, saToV4mapped host (some (.inet s)) = .ok m ∧
      SameKinds host m (.inet s)) ∧
    (∀ a : Sockaddr, saIsInetInet6 (some a) = true → ∃ c, saConvert host (some a) = .ok c ∧
      SameKinds host a c) := by
  constructor
  · intro s
    refine ⟨saToV4mappedIn host s, rfl, ?_⟩
    have h := sameKinds_unmapped host (saToV4mappedIn host s)
    rwa [unmapped_saToV4mappedIn] at h
  · intro a h
    exact ⟨unmapped host a, saConvert_ok host (saFamily_valid_of_inet_inet6 h),
      sameKinds_unmapped host a⟩

theorem kinds_mapped_localhost :
    saIsLoopback .little (.inet6 mappedLocalhost) = true ∧
    ∃ c, saConvert .little (some (.inet6 mappedLocalhost)) = .ok c ∧ SameKinds .little
    (.inet6 mappedLocalhost) c :=
  ⟨rfl, (kinds_mapped .little).2 (.inet6 mappedLocalhost) rfl⟩

end ShmIpcSocketMapped
