import ShmIpc.ByteOrder

/-!
# Socket addresses

Literal transcription of `torrent/net/socket_address.cc`, as far as it inspects,
converts and compares addresses. The order of bytes of the host is a parameter:
ports and IPv4 addresses are kept as the words that a host reads in network
order. A pointer that may be null is an option.
-/
namespace ShmIpcSocketAddress

open ByteOrder

/-- `sa_family_t`; `AF_LOCAL` is another name of `AF_UNIX`. -/
inductive Family where
  | unspec | inet | inet6 | unix
  | other (number : Nat) : Family
  deriving DecidableEq, Repr

/-- `in6_addr` -/
structure In6Addr where
  bytes : List UInt8
  size : bytes.length = 16
  deriving DecidableEq

def In6Addr.s6Addr (a : In6Addr) (i : Fin 16) : UInt8 := a.bytes.get (i.cast a.size.symm)

structure SockaddrIn where
  sinPort : UInt16
  sinAddr : UInt32
  deriving DecidableEq

structure SockaddrIn6 where
  sin6Port : UInt16
  sin6Flowinfo : UInt32
  sin6Addr : In6Addr
  sin6ScopeId : UInt32
  deriving DecidableEq

/-- `sockaddr` with what it points to; nothing is read from an address of another family. -/
inductive Sockaddr where
  | unspec : Sockaddr
  | inet (sin : SockaddrIn) : Sockaddr
  | inet6 (sin6 : SockaddrIn6) : Sockaddr
  | unix : Sockaddr
  | other (number : Nat) : Sockaddr
  deriving DecidableEq

def Sockaddr.saFamily : Sockaddr → Family
  | .unspec => .unspec
  | .inet _ => .inet
  | .inet6 _ => .inet6
  | .unix => .unix
  | .other number => .other number

def inaddrAny : UInt32 := 0
def inaddrBroadcast : UInt32 := 0xFFFFFFFF

def in6addrAny : In6Addr := ⟨List.replicate 16 0, rfl⟩
def in6addrLoopback : In6Addr := ⟨List.replicate 15 0 ++ [1], rfl⟩

/-- `std::memcmp`, of which the sign matters only. -/
def memcmp : List UInt8 → List UInt8 → Int
  | x :: xs, y :: ys => if x < y then -1 else if y < x then 1 else memcmp xs ys
  | _, _ => 0

/-! ## Words and bytes -/

def sin6Addr32Index (sa : SockaddrIn6) (index : Fin 4) : UInt32 :=
  ((sa.sin6Addr.s6Addr ⟨index * 4 + 0, by omega⟩).toUInt32 <<< 24) +
  ((sa.sin6Addr.s6Addr ⟨index * 4 + 1, by omega⟩).toUInt32 <<< 16) +
  ((sa.sin6Addr.s6Addr ⟨index * 4 + 2, by omega⟩).toUInt32 <<< 8) +
  ((sa.sin6Addr.s6Addr ⟨index * 4 + 3, by omega⟩).toUInt32 <<< 0)

/-- The four words in memory, read as sixteen bytes. -/
def sin6MakeAddr32 (host : Endian) (addr0 addr1 addr2 addr3 : UInt32) : In6Addr where
  bytes := store host 4 (htonl host addr0).toNat ++ store host 4 (htonl host addr1).toNat ++
    store host 4 (htonl host addr2).toNat ++ store host 4 (htonl host addr3).toNat
  size := by simp

/-! ## Kinds of addresses -/

def saIsInetInet6 : Option Sockaddr → Bool
  | some sa => sa.saFamily == .inet || sa.saFamily == .inet6
  | none => false

/-- `IN6_IS_ADDR_V4MAPPED` -/
def in6IsAddrV4mapped (a : In6Addr) : Bool := a.bytes.take 12 == List.replicate 10 0 ++ [0xff, 0xff]

/-- `IN6_IS_ADDR_LOOPBACK` -/
def in6IsAddrLoopback (a : In6Addr) : Bool := a == in6addrLoopback

/-- `IN6_IS_ADDR_LINKLOCAL` -/
def in6IsAddrLinklocal (a : In6Addr) : Bool := a.s6Addr 0 == 0xfe && a.s6Addr 1 &&& 0xc0 == 0x80

/-- `IN6_IS_ADDR_MC_LINKLOCAL` -/
def in6IsAddrMcLinklocal (a : In6Addr) : Bool := a.s6Addr 0 == 0xff && a.s6Addr 1 &&& 0xf == 0x2

def sin6IsV4mapped : Option SockaddrIn6 → Bool
  | some sa => in6IsAddrV4mapped sa.sin6Addr
  | none => false

def saIsV4mapped : Option Sockaddr → Bool
  | some (.inet6 sin6) => sin6IsV4mapped (some sin6)
  | _ => false

def saPort (host : Endian) : Option Sockaddr → UInt16
  | some (.inet sin) => ntohs host sin.sinPort
  | some (.inet6 sin6) => ntohs host sin6.sin6Port
  | _ => 0

def saIsPortAny (host : Endian) (sa : Sockaddr) : Bool := saPort host (some sa) == 0

def sinIsAny (host : Endian) (sa : SockaddrIn) : Bool := sa.sinAddr == htonl host inaddrAny

def sin6IsAny (sa : SockaddrIn6) : Bool := memcmp sa.sin6Addr.bytes in6addrAny.bytes == 0

def saIsAny (host : Endian) : Sockaddr → Bool
  | .inet sin => sinIsAny host sin
  | .inet6 sin6 =>
    if saIsV4mapped (some (.inet6 sin6)) then sin6Addr32Index sin6 3 == htonl host inaddrAny
    else sin6IsAny sin6
  | _ => true

def sinIsBroadcast (host : Endian) (sa : SockaddrIn) : Bool :=
  sa.sinAddr == htonl host inaddrBroadcast

def saIsBroadcast (host : Endian) : Sockaddr → Bool
  | .inet sin => sinIsBroadcast host sin
  | .inet6 sin6 =>
    if saIsV4mapped (some (.inet6 sin6)) then sin6Addr32Index sin6 3 == htonl host inaddrBroadcast
    else false
  | _ => false

def sinIsLoopback (host : Endian) (sa : SockaddrIn) : Bool := ntohl host sa.sinAddr >>> 24 == 127

def sin6IsLoopback (sa : SockaddrIn6) : Bool := in6IsAddrLoopback sa.sin6Addr

def saIsLoopback (host : Endian) : Sockaddr → Bool
  | .inet sin => sinIsLoopback host sin
  | .inet6 sin6 =>
    if saIsV4mapped (some (.inet6 sin6)) then sin6.sin6Addr.s6Addr 12 == 127
    else sin6IsLoopback sin6
  | _ => false

def sinIsLinkLocal (host : Endian) (sa : SockaddrIn) : Bool :=
  ntohl host sa.sinAddr &&& 0xffff0000 == 0xa9fe0000

def sin6IsLinkLocal (sa : SockaddrIn6) : Bool :=
  in6IsAddrLinklocal sa.sin6Addr || in6IsAddrMcLinklocal sa.sin6Addr

def saIsLinkLocal (host : Endian) : Sockaddr → Bool
  | .inet sin => sinIsLinkLocal host sin
  | .inet6 sin6 =>
    if saIsV4mapped (some (.inet6 sin6)) then sin6.sin6Addr.s6Addr 12 == 169 &&
      sin6.sin6Addr.s6Addr 13 == 254
    else sin6IsLinkLocal sin6
  | _ => false

/-- The sizes of `sockaddr`, `sockaddr_in` and `sockaddr_in6`. -/
def saLength : Sockaddr → Except String Nat
  | .unspec => .ok 16
  | .inet _ => .ok 16
  | .inet6 _ => .ok 28
  | _ => .error "torrent::sa_length() sockaddr is not a valid family"

/-! ## Copies and conversions -/

def saMakeUnspec : Sockaddr := .unspec
def sinMake : SockaddrIn := ⟨0, 0⟩
def sin6Make : SockaddrIn6 := ⟨0, 0, in6addrAny, 0⟩

def saCopyIn (sa : SockaddrIn) : Sockaddr := .inet sa
def saCopyIn6 (sa : SockaddrIn6) : Sockaddr := .inet6 sa
def saFromIn (sin : SockaddrIn) : Sockaddr := .inet sin
def saFromIn6 (sin6 : SockaddrIn6) : Sockaddr := .inet6 sin6

def sinFromV4mappedIn6 (host : Endian) (sin6 : SockaddrIn6) : Except String SockaddrIn :=
  if !sin6IsV4mapped (some sin6) then .error
    "torrent::sin6_is_v4mapped() sockaddr_in6 is not v4mapped"
  else .ok { sinMake with sinAddr := htonl host (sin6Addr32Index sin6 3), sinPort := sin6.sin6Port }

def sin6ToV4mappedIn (host : Endian) (sin : SockaddrIn) : SockaddrIn6 :=
  { sin6Make with
    sin6Addr := sin6MakeAddr32 host 0 0 0xffff (ntohl host sin.sinAddr)
    sin6Port := sin.sinPort }

def saFromV4mappedIn6 (host : Endian) (sin6 : SockaddrIn6) : Except String Sockaddr :=
  (sinFromV4mappedIn6 host sin6).map saFromIn

def saToV4mappedIn (host : Endian) (sin : SockaddrIn) : Sockaddr :=
  saFromIn6 (sin6ToV4mappedIn host sin)

def saFromV4mapped (host : Endian) : Option Sockaddr → Except String Sockaddr
  | some (.inet6 sin6) => saFromV4mappedIn6 host sin6
  | _ => .error "torrent::sa_from_v4mapped() sockaddr is not inet6"

def saToV4mapped (host : Endian) : Option Sockaddr → Except String Sockaddr
  | some (.inet sin) => .ok (saToV4mappedIn host sin)
  | _ => .error "torrent::sa_to_v4mapped() sockaddr is not inet"

def saConvert (host : Endian) : Option Sockaddr → Except String Sockaddr
  | none => .ok saMakeUnspec
  | some (.inet sin) => .ok (saCopyIn sin)
  | some (.inet6 sin6) =>
    if sin6IsV4mapped (some sin6) then saFromV4mappedIn6 host sin6 else .ok (saCopyIn6 sin6)
  | some .unspec => .ok saMakeUnspec
  | some _ => .error "torrent::sa_convert() sockaddr is not a valid family"

def saCopy : Option Sockaddr → Except String Sockaddr
  | none => .error "torrent::sa_copy() sockaddr is a nullptr"
  | some (.inet sin) => .ok (saCopyIn sin)
  | some (.inet6 sin6) => .ok (saCopyIn6 sin6)
  | some .unspec => .ok saMakeUnspec
  | some _ => .error "torrent::sa_copy() sockaddr is not a valid family"

def saCopyUnmapped (host : Endian) : Option Sockaddr → Except String Sockaddr
  | none => .error "torrent::sa_copy_unmapped() sockaddr is a nullptr"
  | some (.inet sin) => .ok (saCopyIn sin)
  | some (.inet6 sin6) =>
    if sin6IsV4mapped (some sin6) then saFromV4mappedIn6 host sin6 else .ok (saCopyIn6 sin6)
  | some .unspec => .ok saMakeUnspec
  | some _ => .error "torrent::sa_copy_unmapped() sockaddr is not a valid family"

/-! ## Comparisons -/

def sinEqual (lhs rhs : SockaddrIn) : Bool :=
  lhs.sinPort == rhs.sinPort && lhs.sinAddr == rhs.sinAddr

def sin6Equal (lhs rhs : SockaddrIn6) : Bool :=
  lhs.sin6Port == rhs.sin6Port && lhs.sin6Addr.bytes == rhs.sin6Addr.bytes

def sinEqualAddr (lhs rhs : SockaddrIn) : Bool := lhs.sinAddr == rhs.sinAddr

def sin6EqualAddr (lhs rhs : SockaddrIn6) : Bool := lhs.sin6Addr.bytes == rhs.sin6Addr.bytes

/-- `AF_INET`, `AF_INET6` or `AF_UNSPEC` -/
def Family.valid : Family → Bool
  | .inet | .inet6 | .unspec => true
  | _ => false

/-- What `sa_equal` and `sa_equal_addr` share: the families are checked on the right first. -/
def equalBy (name : String) (inet : SockaddrIn → SockaddrIn → Bool)
    (inet6 : SockaddrIn6 → SockaddrIn6 → Bool) (lhs rhs : Sockaddr) : Except String Bool :=
  if !rhs.saFamily.valid then .error
    ("torrent::" ++ name ++ "() rhs sockaddr is not a valid family")
  else match lhs with
  | .inet lsin =>
    match rhs with
    | .inet rsin => .ok (inet lsin rsin)
    | _ => .ok false
  | .inet6 lsin6 =>
    match rhs with
    | .inet6 rsin6 => .ok (inet6 lsin6 rsin6)
    | _ => .ok false
  | .unspec => .ok (lhs.saFamily == rhs.saFamily)
  | _ => .error ("torrent::" ++ name ++ "() lhs sockaddr is not a valid family")

def saEqual : Sockaddr → Sockaddr → Except String Bool := equalBy "sa_equal" sinEqual sin6Equal
def saEqualAddr : Sockaddr → Sockaddr → Except String Bool :=
  equalBy "sa_equal_addr" sinEqualAddr sin6EqualAddr

def saLess (host : Endian) (lhs rhs : Sockaddr) : Except String Bool :=
  match lhs with
  | .inet lsin =>
    match rhs with
    | .inet rsin =>
      if lsin.sinAddr ≠ rsin.sinAddr then .ok (ntohl host lsin.sinAddr < ntohl host rsin.sinAddr)
      else .ok (ntohs host lsin.sinPort < ntohs host rsin.sinPort)
    | .inet6 _ => .ok true
    | _ => .error "torrent::sa_less() rhs sockaddr is not inet or inet6"
  | .inet6 lsin6 =>
    match rhs with
    | .inet _ => .ok false
    | .inet6 rsin6 =>
      let result := memcmp lsin6.sin6Addr.bytes rsin6.sin6Addr.bytes
      if result ≠ 0 then .ok (result < 0)
      else .ok (ntohs host lsin6.sin6Port < ntohs host rsin6.sin6Port)
    | _ => .error "torrent::sa_less() rhs sockaddr is not inet or inet6"
  | _ => .error "torrent::sa_less() lhs sockaddr is not inet or inet6"

def saLessAddr (host : Endian) (lhs rhs : Sockaddr) : Except String Bool :=
  match lhs with
  | .inet lsin =>
    match rhs with
    | .inet rsin => .ok (ntohl host lsin.sinAddr < ntohl host rsin.sinAddr)
    | .inet6 _ => .ok true
    | _ => .error "torrent::sa_less_addr() rhs sockaddr is not inet or inet6"
  | .inet6 lsin6 =>
    match rhs with
    | .inet _ => .ok false
    | .inet6 rsin6 => .ok (memcmp lsin6.sin6Addr.bytes rsin6.sin6Addr.bytes < 0)
    | _ => .error "torrent::sa_less_addr() rhs sockaddr is not inet or inet6"
  | _ => .error "torrent::sa_less_addr() lhs sockaddr is not inet or inet6"

end ShmIpcSocketAddress
