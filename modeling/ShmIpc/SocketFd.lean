import Mathlib.Data.Finset.Fold
import ShmIpc.SocketMapped

/-!
# Opening, accepting and connecting sockets

Literal transcription of the functions of `torrent/net/fd.cc` that open, accept
and connect sockets. The kernel answers a call from the history of all calls
before it, so any sequence of outcomes is the answers of some kernel. What is
written to the log is left out.
-/
namespace ShmIpcSocketFd

open ByteOrder ShmIpcSocketAddress ShmIpcSocketMapped

/-! ## Calls into the kernel -/

inductive Errno where
  | EINVAL | EINPROGRESS
  | other (number : Nat) : Errno
  deriving DecidableEq, Repr

inductive SocketType where
  | stream | dgram
  deriving DecidableEq, Repr

inductive Protocol where
  | zero | tcp | udp
  deriving DecidableEq, Repr

/-- `SO_REUSEADDR` of `SOL_SOCKET` and `IPV6_V6ONLY` of `IPPROTO_IPV6`. -/
inductive SocketOption where
  | reuseaddr | v6only
  deriving DecidableEq, Repr

inductive FcntlCommand where
  | getfl : FcntlCommand
  | setfl (flags : UInt32) : FcntlCommand
  deriving DecidableEq, Repr

inductive Call where
  | socket (domain : Family) (type : SocketType) (protocol : Protocol) : Call
  | accept (socket : Int) : Call
  | connect (socket : Int) (address : Sockaddr) (addressLen : Nat) : Call
  | fcntl (fildes : Int) (cmd : FcntlCommand) : Call
  | setsockopt (socket : Int) (option : SocketOption) (value : Bool) : Call
  | close (fildes : Int) : Call
  deriving DecidableEq

structure World where
  calls : List Call
  opened : Finset Int
  errno : Errno

/-- What the kernel does with a call, given the calls before it. -/
structure Kernel where
  oNonblock : UInt32
  /-- The error of a call that fails, else what it returns. -/
  reply : List Call → Call → Except Errno UInt32
  /-- The address reported by a call of `accept`. -/
  peer : List Call → Sockaddr
  /-- The descriptor of a socket that is opened. -/
  descriptor : List Call → Finset Int → Int
  descriptor_fresh (calls : List Call) (opened : Finset Int) :
    descriptor calls opened ∉ opened ∧ 0 ≤ descriptor calls opened

/-- The number after those of all open descriptors. -/
def pastOpened (opened : Finset Int) : Int := opened.fold max (-1) id + 1

theorem pastOpened_fresh (opened : Finset Int) :
    pastOpened opened ∉ opened ∧ 0 ≤ pastOpened opened := by
  have hbase : -1 ≤ opened.fold max (-1) id := (Finset.le_fold_max (-1)).mpr (.inl le_rfl)
  have hopened : ∀ fd ∈ opened, fd ≤ opened.fold max (-1) id := by
    intro fd hfd
    exact (Finset.le_fold_max fd).mpr (.inr ⟨fd, hfd, le_refl fd⟩)
  refine ⟨fun h => ?_, ?_⟩
  · have hle := hopened _ h
    simp only [pastOpened] at hle
    omega
  · simp only [pastOpened]
    omega

/-- A kernel without failures, where every connection comes from one address. -/
def willing (peer : Sockaddr) : Kernel where
  oNonblock := 0x800
  reply _ _ := .ok 0
  peer _ := peer
  descriptor _ opened := pastOpened opened
  descriptor_fresh _ opened := pastOpened_fresh opened

variable (k : Kernel)

def invoke (call : Call) (w : World) : Option UInt32 × World :=
  match k.reply w.calls call with
  | .ok value => (some value, { w with calls := w.calls ++ [call] })
  | .error e => (none, { w with calls := w.calls ++ [call], errno := e })

/-- A call that opens a descriptor. -/
def invokeOpen (call : Call) (w : World) : Int × World :=
  match invoke k call w with
  | (some _, w') =>
    let fd := k.descriptor w.calls w.opened
    (fd, { w' with opened := insert fd w'.opened })
  | (none, w') => (-1, w')

/-- `fd__socket` -/
def fdSocketCall (domain : Family) (type : SocketType) (protocol : Protocol)
    (w : World) : Int × World :=
  invokeOpen k (.socket domain type protocol) w

/-- `fd__accept`, with the address it fills in. -/
def fdAcceptCall (socket : Int) (w : World) : (Int × Sockaddr) × World :=
  let (fd, w') := invokeOpen k (.accept socket) w
  ((fd, k.peer w.calls), w')

/-- `fd__close` on a descriptor that is open. -/
def fdCloseCall (fildes : Int) (w : World) : World :=
  { w with calls := w.calls ++ [.close fildes], opened := w.opened.erase fildes }

/-! ## Settings -/

def fdSetNonblock (fd : Int) (w : World) : Bool × World :=
  match invoke k (.fcntl fd .getfl) w with
  | (none, w) => (false, w)
  | (some flags, w) =>
    match invoke k (.fcntl fd (.setfl (flags ||| k.oNonblock))) w with
    | (none, w) => (false, w)
    | (some _, w) => (true, w)

/-- What `fd_set_reuse_address` and `fd_set_v6only` share. -/
def setOption (option : SocketOption) (fd : Int) (state : Bool) (w : World) : Bool × World :=
  match invoke k (.setsockopt fd option state) w with
  | (none, w) => (false, w)
  | (some _, w) => (true, w)

def fdSetReuseAddress (fd : Int) (state : Bool) (w : World) : Bool × World :=
  setOption k .reuseaddr fd state w
def fdSetV6only (fd : Int) (state : Bool) (w : World) : Bool × World :=
  setOption k .v6only fd state w

/-! ## Opening -/

/-- The bits of `fd_flags`, an enumeration over `int`. -/
abbrev FdFlags := UInt32

def fdFlagStream : FdFlags := 0x1
def fdFlagDatagram : FdFlags := 0x10
def fdFlagNonblock : FdFlags := 0x20
def fdFlagReuseAddress : FdFlags := 0x40
def fdFlagV4 : FdFlags := 0x80
def fdFlagV4only : FdFlags := 0x80
def fdFlagV6only : FdFlags := 0x100
def fdFlagV6 : FdFlags := 0x200
def fdFlagAll : FdFlags := 0x3ff

/-- `flags & mask` as a condition. -/
def has (flags mask : FdFlags) : Bool := flags &&& mask != 0

def fdValidFlags (flags : FdFlags) : Bool :=
  (has flags fdFlagStream || has flags fdFlagDatagram) &&
  !(has flags fdFlagStream && has flags fdFlagDatagram) &&
  !(has flags fdFlagV4only && has flags fdFlagV6only) &&
  !(has flags fdFlagV4 && has flags fdFlagV6) &&
  !has flags (~~~fdFlagAll)

def socketType (flags : FdFlags) : Option (SocketType × Protocol) :=
  if has flags fdFlagStream then some (.stream, .tcp)
  else if has flags fdFlagDatagram then some (.dgram, .udp)
  else none

/-- An IPv6 socket is tried first, then an IPv4 one, each unless the flags exclude it. -/
def openSocket (flags : FdFlags) (domain : SocketType) (protocol : Protocol)
    (w : World) : Int × World :=
  let first := if !has flags fdFlagV4only then fdSocketCall k .inet6 domain protocol w else (-1, w)
  if first.1 == -1 && !has flags (fdFlagV6 ||| fdFlagV6only) then fdSocketCall k .inet
    domain protocol first.2
  else first

/-- Settings in turn, each of them if wanted; when one fails the descriptor is closed. -/
def configure (fd : Int) : List (Bool × (World → Bool × World)) → World → Except String Int × World
  | [], w => (.ok fd, w)
  | (wanted, set) :: settings, w =>
    if wanted then
      match set w with
      | (true, w) => configure fd settings w
      | (false, w) => (.ok (-1), fdCloseCall fd w)
    else configure fd settings w

/-- What `fd_open` and `fd_open_local` do with the socket they have opened. -/
def configureOpened (settings : Int → List (Bool × (World → Bool × World))) (opened : Int × World) :
    Except String Int × World :=
  if opened.1 == -1 then (.ok (-1), opened.2) else configure opened.1 (settings opened.1) opened.2

def fdOpen (flags : FdFlags) (w : World) : Except String Int × World :=
  if !fdValidFlags flags then (.error "torrent::fd_open failed: invalid fd_flags", w)
  else match socketType flags with
  | none => (.ok (-1), { w with errno := .EINVAL })
  | some (domain, protocol) =>
    configureOpened (fun fd => [(has flags fdFlagV6only, fdSetV6only k fd true),
      (has flags fdFlagNonblock, fdSetNonblock k fd),
      (has flags fdFlagReuseAddress, fdSetReuseAddress k fd true)])
      (openSocket k flags domain protocol w)

def fdOpenFamily (flags : FdFlags) (family : Family) (w : World) : Except String Int × World :=
  if family != .inet && family != .inet6 then (.ok (-1), { w with errno := .EINVAL })
  else if family == .inet then fdOpen k (flags ||| fdFlagV4) w
  else fdOpen k (flags ||| fdFlagV6) w

def fdOpenLocal (flags : FdFlags) (w : World) : Except String Int × World :=
  if has flags (~~~(fdFlagStream ||| fdFlagNonblock ||| fdFlagReuseAddress)) then
    (.error "torrent::fd_open_local() invalid fd_flags", w)
  else if !has flags fdFlagStream then (.error
    "torrent::fd_open_local() only stream sockets supported", w)
  else
    configureOpened (fun fd => [(has flags fdFlagNonblock, fdSetNonblock k fd),
      (has flags fdFlagReuseAddress, fdSetReuseAddress k fd true)])
      (fdSocketCall k .unix .stream .zero w)

/-! ## Accepting and connecting -/

def fdSapAccept (fd : Int) (w : World) : Except String (Int × Option Sockaddr) × World :=
  match fdAcceptCall k fd w with
  | ((connectionFd, sau), w) =>
    if connectionFd == -1 then (.ok (-1, none), w)
    else match saCopy (some sau) with
    | .error e => (.error e, w)
    | .ok sap => (.ok (connectionFd, some sap), w)

def fdConnect (fd : Int) (sa : Sockaddr) (w : World) : Except String Bool × World :=
  match saLength sa with
  | .error e => (.error e, w)
  | .ok length =>
    match invoke k (.connect fd sa length) w with
    | (some _, w) => (.ok true, w)
    | (none, w) => (.ok (w.errno == .EINPROGRESS), w)

def fdConnectWithFamily (host : Endian) (fd : Int) (sa : Sockaddr) (family : Family) (w : World) :
    Except String Bool × World :=
  match sa with
  | .unspec => (.ok false, { w with errno := .EINVAL })
  | .inet sin =>
    if family == .inet6 then
      match saToV4mapped host (some (.inet sin)) with
      | .error e => (.error e, w)
      | .ok mapped => fdConnect k fd mapped w
    else fdConnect k fd (.inet sin) w
  | .inet6 sin6 =>
    if family == .inet then
      if saIsV4mapped (some (.inet6 sin6)) then
        match saFromV4mapped host (some (.inet6 sin6)) with
        | .error e => (.error e, w)
        | .ok unmapped => fdConnect k fd unmapped w
      else (.ok false, { w with errno := .EINVAL })
    else fdConnect k fd (.inet6 sin6) w
  | _ => (.ok false, { w with errno := .EINVAL })

end ShmIpcSocketFd
