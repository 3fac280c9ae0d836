import ShmIpc.Channel
import ShmIpc.SocketTape

/-!
# The control descriptor

Literal transcription of `torrent/system/ipc/control_fd.cc`, in the variant for
Linux, where the sockets of `create_socket_pair` do not block. Every message is
sent as a frame: its length in two bytes, in network order, and the message.
-/
namespace ShmIpcControlFd

open ShmIpcChannel (Errno)
open SocketTape

abbrev Tape := List (Item Errno)

def maxMessageSize : Nat := 1024

/-- `errno == EAGAIN || errno == EWOULDBLOCK` -/
def WouldBlock (e : Errno) : Prop := e = .EAGAIN ∨ e = .EWOULDBLOCK

instance (e : Errno) : Decidable (WouldBlock e) := inferInstanceAs (Decidable (_ ∨ _))

/-! ## Sending -/

/-- The outcome of one call of `send`. -/
inductive Sent where
  | count (k : Nat) : Sent
  | failed (e : Errno) : Sent

/-- `htons(size)` in memory, and the message behind it. -/
def frame (msg : List UInt8) : List UInt8 :=
  UInt8.ofNat (msg.length / 256) :: UInt8.ofNat msg.length :: msg

/-- The loop around `send`, with the bytes it puts on the socket. The errors come without the
text of `strerror`; there is no result as long as the outcomes do not suffice. -/
def sendLoop : List UInt8 → List Sent → Option (Except String Unit) × List UInt8
  | [], _ => (some (.ok ()), [])
  | _ :: _, [] => (none, [])
  | b :: buf, .count k :: outcomes =>
    let (result, wire) := sendLoop ((b :: buf).drop k) outcomes
    (result, (b :: buf).take k ++ wire)
  | b :: buf, .failed e :: outcomes =>
    if e = .EINTR then sendLoop (b :: buf) outcomes
    else if WouldBlock e then
      (some (.error "ControlFd::send_message_internal(): timed out while sending message."), [])
    else (some (.error "ControlFd::send_message_internal(): failed to send message: "), [])

def sendMessageInternal (isOpen : Bool) (msg : List UInt8) (outcomes : List Sent) :
    Option (Except String Unit) × List UInt8 :=
  if !isOpen then
    (some (.error "ControlFd::send_message_internal() called on closed control fd."), [])
  else if msg.length > maxMessageSize then
    (some (.error
      s!"ControlFd::send_message_internal() message size exceeds maximum: {msg.length}"), [])
  else sendLoop (frame msg) outcomes

/-! ## Receiving -/

/-- What one call of `event_read` does: it returns without a callback, invokes one of the slots,
throws with the received payload, or is still waiting for bytes. -/
inductive Event where
  | quiet : Event
  | slotClosed (e : Errno) : Event
  | slotShutdown (graceful : Bool) : Event
  | slotMessage (msg : List UInt8) : Event
  | throws (text : String) (payload : List UInt8) : Event
  | waiting : Event
  deriving DecidableEq

/-- The outcome of `read_fn`: the filled buffer, or the end of the call. -/
inductive ReadResult where
  | done (buffer : List UInt8) : ReadResult
  | stopped (event : Event) : ReadResult

/-- The loop of `read_fn`, with at most `fuel` calls of `recv`. -/
def readLoop : Nat → Nat → List UInt8 → Tape → ReadResult × Tape
  | 0, _, _, tape => (.stopped .waiting, tape)
  | fuel + 1, size, buffer, tape =>
    if buffer.length < size then
      match recv .EAGAIN (size - buffer.length) tape with
      | (.closed, tape) => (.stopped (.slotClosed .EPIPE), tape)
      | (.failed e, tape) =>
        if e = .EINTR then readLoop fuel size buffer tape
        else if WouldBlock e then
          if buffer.length = 0 then (.stopped .quiet, tape) else readLoop fuel size buffer tape
        else (.stopped (.slotClosed e), tape)
      | (.bytes bs, tape) => readLoop fuel size (buffer ++ bs) tape
    else (.done buffer, tape)

/-- Every call of `recv` takes something off the tape, so these calls are enough. -/
def readFn (size : Nat) (tape : Tape) : ReadResult × Tape := readLoop (tape.length + 1) size [] tape

/-- `ntohs` of the two length bytes. -/
def messageSize : List UInt8 → Nat
  | [hi, lo] => 256 * hi.toNat + lo.toNat
  | _ => 0

def ascii (s : String) : List UInt8 := s.toList.map fun c => UInt8.ofNat c.toNat

/-- `strncmp(buffer, prefix, n) == 0`, for a text of `n` characters. -/
def startsWith (buffer : List UInt8) (text : String) : Bool := buffer.take text.length == ascii text

/-- The callback for a complete message. -/
def dispatch (buffer : List UInt8) : Event :=
  if buffer.length ≥ 9 ∧ startsWith buffer "SHUTDOWN:" then
    if buffer.length = 17 ∧ startsWith (buffer.drop 9) "GRACEFUL" then .slotShutdown true
    else if buffer.length = 17 ∧ startsWith (buffer.drop 9) "FORCEFUL" then .slotShutdown false
    else .throws "ControlFd::event_read() received invalid shutdown message: " buffer
  else .slotMessage buffer

def eventRead (tape : Tape) : Event × Tape :=
  match readFn 2 tape with
  | (.stopped event, tape) => (event, tape)
  | (.done header, tape) =>
    if messageSize header > maxMessageSize then (.slotClosed Errno.EIO, tape)
    else
      match readFn (messageSize header) tape with
      | (.stopped event, tape) => (event, tape)
      | (.done buffer, tape) => (dispatch buffer, tape)

/-- What successive calls of `event_read` pass on until the tape is exhausted, in at most `n`
calls. -/
def serve : Nat → Tape → List Event
  | 0, _ => []
  | _ + 1, [] => []
  | n + 1, x :: tape =>
    match eventRead (x :: tape) with
    | (.quiet, rest) => serve n rest
    | (.waiting, _) => [.waiting]
    | (event, rest) => event :: serve n rest

end ShmIpcControlFd
