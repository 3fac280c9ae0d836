import Mathlib.Logic.Function.Basic
import ShmIpc.ChannelPlacement
import ShmIpc.Flags

/-!
# The router

Literal transcription of `torrent/system/ipc/router.{h,cc}`. A router multiplexes
one write channel and one read channel by handler ids; the top four bits of an id
are control flags. What it does is transcribed once for every channel with the
operations of `Channel`: the shared-memory channel itself, and the reliable
queue that the comments of the router take for granted.
-/
namespace ShmIpcRouter

open ByteMemory Flags ShmIpcChannel ShmIpcPlacement

/-! ## Channels -/

/-- What a router uses of a channel. -/
class ChannelOps (κ : Type) where
  write : κ → (id size : UInt32) → (data : Option (Nat → UInt8)) → Except String WriteResult × κ
  readHeader : κ → Except String (Option HeaderPtr) × κ
  consumeHeader : κ → HeaderPtr → Except String Unit × κ
  headerId : κ → HeaderPtr → UInt32
  headerSize : κ → HeaderPtr → UInt32
  headerData : κ → HeaderPtr → List UInt8
  consumerState : κ → UInt32
  setConsumerState : κ → UInt32 → κ

instance : ChannelOps Channel where
  write := ShmIpcChannel.write
  readHeader := ShmIpcChannel.readHeader
  consumeHeader := ShmIpcChannel.consumeHeader
  headerId c h := idAt c.mAddr h
  headerSize c h := sizeAt c.mAddr h
  headerData c h := dataAt c.mAddr h
  consumerState := Channel.mConsumerState
  setConsumerState c s := { c with mConsumerState := s }

/-- A queue of records that never runs full and that takes records without payload as well. -/
structure Fifo where
  records : List Record
  consumerState : UInt32

def Fifo.empty : Fifo := ⟨[], 0⟩

def Fifo.write (c : Fifo) (id size : UInt32) (data : Option (Nat → UInt8)) :
    Except String WriteResult × Fifo :=
  if id = 0 then (.error "Channel::write() invalid id", c)
  else match data with
  | none =>
    if size = 0 then (.ok (0, none), { c with records := c.records ++ [⟨id, []⟩] })
    else (.error "Channel::write() data is null", c)
  | some data =>
    (.ok (size.toInt32.toInt, none),
      { c with records := c.records ++ [⟨id, firstBytes data size.toNat⟩] })

/-- The record in front of the queue, or an empty one. -/
def Fifo.front (c : Fifo) : Record := c.records.headD ⟨0, []⟩

instance : ChannelOps Fifo where
  write := Fifo.write
  readHeader c := (.ok (if c.records.isEmpty then none else some 0), c)
  consumeHeader c _ := (.ok (), { c with records := c.records.tail })
  headerId c _ := c.front.id
  headerSize c _ := UInt32.ofNat c.front.payload.length
  headerData c _ := c.front.payload
  consumerState := Fifo.consumerState
  setConsumerState c s := { c with consumerState := s }

/-! ## Handlers -/

def flagClose : UInt32 := 0x80000000
def flagMask : UInt32 := 0xF0000000

theorem unmasked {id : UInt32} (h : id &&& flagMask = 0) : id &&& ~~~flagMask = id := lower_unset h

theorem unflagged {id : UInt32} (h : id &&& flagMask = 0) : id &&& flagClose = 0 := by
  rw [show flagClose = flagMask &&& flagClose from rfl, ← UInt32.and_assoc, h, UInt32.zero_and]

/-- The id of a close record leads to the handler of the closed id. -/
theorem closeId_unmasked {id : UInt32} (h : id &&& flagMask = 0) :
    (id ||| flagClose) &&& ~~~flagMask = id := by
  rw [or_and_distrib, unmasked h, show flagClose &&& ~~~flagMask = 0 from rfl, UInt32.or_zero]

theorem closeId_flagged (id : UInt32) : (id ||| flagClose) &&& flagClose ≠ 0 := by
  rw [or_and_distrib, UInt32.and_self, Ne, UInt32.or_eq_zero_iff]
  exact fun h => absurd h.2 (by decide)

theorem closeId_ne_zero (id : UInt32) : id ||| flagClose ≠ 0 := by
  rw [Ne, UInt32.or_eq_zero_iff]
  exact fun h => absurd h.2 (by decide)

/-- The two callbacks of an id, of which a null one marks a closed direction. -/
structure RouterHandler (φ : Type) where
  onRead : Option φ
  onError : Option φ

variable {φ κ : Type}

def RouterHandler.isClosedRead (h : RouterHandler φ) : Bool := h.onRead.isNone
def RouterHandler.isClosedWrite (h : RouterHandler φ) : Bool := h.onError.isNone

/-- The invocation of a callback of the handler of `id`. -/
structure Call (φ : Type) where
  id : UInt32
  callback : φ
  data : List UInt8

/-- `interrupts` counts the bytes sent on `m_wakeup_fd`; `calls` lists the callbacks invoked so
far. -/
structure Router (κ φ : Type) where
  readChannel : κ
  writeChannel : κ
  nextId : UInt32
  handlers : UInt32 → Option (RouterHandler φ)
  interrupts : Nat
  calls : List (Call φ)

def Router.setHandler (r : Router κ φ) (id : UInt32) (h : RouterHandler φ) : Router κ φ :=
  { r with handlers := Function.update r.handlers id (some h) }

def Router.erase (r : Router κ φ) (id : UInt32) : Router κ φ :=
  { r with handlers := Function.update r.handlers id none }

/-- A router right after its construction. -/
def Router.create (readChannel writeChannel : κ) : Router κ φ :=
  ⟨readChannel, writeChannel, 1, fun _ => none, 0, []⟩

def tryRegisterHandler (r : Router κ φ) (id : UInt32) (onRead onError : Option φ) :
    Except String Bool × Router κ φ :=
  if id &&& flagMask ≠ 0 then
    (.error "Router::try_register_handler(): id has reserved bits set", r)
  else if (r.handlers id).isSome then (.ok false, r)
  else if onRead.isNone then
    (.error "Router::try_register_handler(): on_read handler is required", r)
  else if onError.isNone then
    (.error "Router::try_register_handler(): on_error handler is required", r)
  else (.ok true, r.setHandler id ⟨onRead, onError⟩)

def registerHandler (r : Router κ φ) (id : UInt32) (onRead onError : Option φ) :
    Except String Unit × Router κ φ :=
  match tryRegisterHandler r id onRead onError with
  | (.error msg, r) => (.error msg, r)
  | (.ok false, r) => (.error "Router::register_handler(): id already in use", r)
  | (.ok true, r) => (.ok (), r)

/-- The loop of the `register_handler` that picks an id itself, from `id` on and in at most `n`
rounds. -/
def searchId (onRead onError : Option φ) :
    Nat → UInt32 → Router κ φ → Option (Except String UInt32) × Router κ φ
  | 0, _, r => (none, r)
  | n + 1, id, r =>
    match tryRegisterHandler r id onRead onError with
    | (.error msg, r) => (some (.error msg), r)
    | (.ok true, r) => (some (.ok id), { r with nextId := id + 1 })
    | (.ok false, r) =>
      if id + 1 = 0 then (some (.error "Router::register_handler(): no available ids"), r)
      else searchId onRead onError n (id + 1) r

def registerNextHandler (n : Nat) (r : Router κ φ) (onRead onError : Option φ) :
    Option (Except String UInt32) × Router κ φ :=
  searchId onRead onError n r.nextId r

section Search

variable {onRead onError : Option φ} {n k : Nat} {id : UInt32} {r : Router κ φ}

end Search

/-! ## Closing and writing -/

section Operations

variable [ChannelOps κ]

def close (r : Router κ φ) (id : UInt32) : Except String Unit × Router κ φ :=
  match r.handlers id with
  | none => (.error "Router::close(): id not found", r)
  | some handler =>
    if handler.isClosedWrite then (.error "Router::close(): handler already closed for write", r)
    else if handler.isClosedRead then (.ok (), r.erase id)
    else
      let r := r.setHandler id { handler with onError := none }
      match ChannelOps.write r.writeChannel (id ||| flagClose) 0 none with
      | (.error msg, c) => (.error msg, { r with writeChannel := c })
      | (.ok (result, _), c) =>
        if result ≠ 0 then
          (.error "Router::close(): failed to write close event to channel",
            { r with writeChannel := c })
        else (.ok (), { r with writeChannel := c })

/-- The compare-exchange behind a write, and the byte it makes `WakeupFd::send_interrupt` send. -/
def Router.interruptReader (r : Router κ φ) : Router κ φ :=
  if ChannelOps.consumerState r.writeChannel = flagPolling then
    { r with
      writeChannel := ChannelOps.setConsumerState r.writeChannel (flagPolling ||| flagInterrupted)
      interrupts := r.interrupts + 1 }
  else r

/-- The assertion in front of `Router::write` ends the process like an exception that nobody
catches. -/
def write (r : Router κ φ) (id size : UInt32) (data : Option (Nat → UInt8)) :
    Except String WriteResult × Router κ φ :=
  match r.handlers id with
  | none => (.error "assert(m_handlers.find(id) != m_handlers.end())", r)
  | some _ =>
    match ChannelOps.write r.writeChannel id size data with
    | (.error msg, c) => (.error msg, { r with writeChannel := c })
    | (.ok (result, err), c) =>
      if result < 0 then (.ok (result, err), { r with writeChannel := c })
      else (.ok (result, err), { r with writeChannel := c }.interruptReader)

/-! ## Reading -/

/-- The call of `on_read` for the record at `header`. Whatever the callback does with the router
are further operations, in between this one and the next. -/
def Router.deliver (r : Router κ φ) (id : UInt32) (handler : RouterHandler φ)
    (header : HeaderPtr) : Router κ φ :=
  match handler.onRead with
  | some f =>
    if ChannelOps.headerSize r.readChannel header ≠ 0 then
      { r with calls := r.calls ++ [⟨id, f, ChannelOps.headerData r.readChannel header⟩] }
    else r
  | none => r

def Router.consume (r : Router κ φ) (header : HeaderPtr) : Except String Bool × Router κ φ :=
  match ChannelOps.consumeHeader r.readChannel header with
  | (.error msg, c) => (.error msg, { r with readChannel := c })
  | (.ok (), c) => (.ok true, { r with readChannel := c })

/-- One round of the loop of `process_reads`; the result is false if the channel is empty. -/
def processRead (r : Router κ φ) : Except String Bool × Router κ φ :=
  match ChannelOps.readHeader r.readChannel with
  | (.error msg, c) => (.error msg, { r with readChannel := c })
  | (.ok none, c) => (.ok false, { r with readChannel := c })
  | (.ok (some header), c) =>
    let r := { r with readChannel := c }
    let headerId := ChannelOps.headerId c header
    let id := headerId &&& ~~~flagMask
    match r.handlers id with
    | none => (.error "Router::process_reads(): received data for unknown handler id", r)
    | some handler =>
      let r := r.deliver id handler header
      if headerId &&& flagClose ≠ 0 then
        if handler.isClosedRead then (r.erase id).consume header
        else if ChannelOps.headerSize c header ≠ 0 then
          (.error "Router::process_reads(): close message with non-zero size", r)
        else (r.setHandler id { handler with onRead := none }).consume header
      else r.consume header

/-- `process_reads` with at most `n` rounds. -/
def processReads : Nat → Router κ φ → Option (Except String Unit) × Router κ φ
  | 0, r => (none, r)
  | n + 1, r =>
    match processRead r with
    | (.error msg, r) => (some (.error msg), r)
    | (.ok false, r) => (some (.ok ()), r)
    | (.ok true, r) => processReads n r

/-- `process_reads`, a store of `consumer_state`, and `process_reads` again. -/
def processReadsAround (state : UInt32) (n : Nat) (r : Router κ φ) :
    Option (Except String Unit) × Router κ φ :=
  match processReads n r with
  | (some (.ok ()), r) =>
    processReads n { r with readChannel := ChannelOps.setConsumerState r.readChannel state }
  | stopped => stopped

def processReadsPrePolling (n : Nat) (r : Router κ φ) : Option (Except String Unit) × Router κ φ :=
  processReadsAround flagPolling n r

def processReadsPostPolling (n : Nat) (r : Router κ φ) : Option (Except String Unit) × Router κ φ :=
  processReadsAround 0 n r

end Operations

/-! ## Reading from a queue -/

section Queue

variable {r : Router Fifo φ}

/-- The channel once its front record has been consumed. -/
def Fifo.rest (c : Fifo) : Fifo := { c with records := c.records.tail }

/-- The handler of an id once a record has been processed. -/
def settled (handler : RouterHandler φ) (isClose : Bool) : Option (RouterHandler φ) :=
  if isClose then
    if handler.isClosedRead then none else some { handler with onRead := none }
  else some handler

/-- Reading never opens or closes the write half of a handler. -/
theorem settled_closedWrite {handler h : RouterHandler φ} {isClose : Bool}
    (hs : settled handler isClose = some h) : h.isClosedWrite = handler.isClosedWrite := by
  obtain ⟨onRead, onError⟩ := handler
  cases isClose <;> cases onRead <;> cases hs <;> rfl

theorem processRead_nil (h : r.readChannel.records = []) : processRead r = (.ok false, r) := by
  simp [processRead, ChannelOps.readHeader, h]

/-- A round on a nonempty queue meets an unknown id or a close record with payload, or it takes
the front record away and settles its handler. -/
inductive Round (r : Router Fifo φ) (x : Record) : Except String Bool × Router Fifo φ → Prop where
  | unknown : r.handlers (x.id &&& ~~~flagMask) = none →
      Round r x (.error "Router::process_reads(): received data for unknown handler id", r)
  | oversized {handler : RouterHandler φ} : r.handlers (x.id &&& ~~~flagMask) = some handler →
      x.id &&& flagClose ≠ 0 → UInt32.ofNat x.payload.length ≠ 0 →
      Round r x (.error "Router::process_reads(): close message with non-zero size",
        r.deliver (x.id &&& ~~~flagMask) handler 0)
  | settled {handler : RouterHandler φ} : r.handlers (x.id &&& ~~~flagMask) = some handler →
      Round r x (.ok true, { r.deliver (x.id &&& ~~~flagMask) handler 0 with
        readChannel := r.readChannel.rest
        handlers := Function.update r.handlers (x.id &&& ~~~flagMask)
          (settled handler (decide (x.id &&& flagClose ≠ 0))) })

theorem deliver_eq (r : Router κ φ) [ChannelOps κ] (id : UInt32) (handler : RouterHandler φ)
    (header : HeaderPtr) :
    r.deliver id handler header = { r with calls := (r.deliver id handler header).calls } := by
  unfold Router.deliver
  split
  · split <;> rfl
  · rfl

theorem processRead_cons {x : Record} {xs : List Record} (h : r.readChannel.records = x :: xs) :
    Round r x (processRead r) := by
  have hread : ChannelOps.readHeader r.readChannel = (.ok (some 0), r.readChannel) := by
    simp [ChannelOps.readHeader, h]
  have hid : ChannelOps.headerId r.readChannel 0 = x.id := by
    simp [ChannelOps.headerId, Fifo.front, h]
  have hsize : ChannelOps.headerSize r.readChannel 0 = UInt32.ofNat x.payload.length := by
    simp [ChannelOps.headerSize, Fifo.front, h]
  simp only [processRead, hread, hid, hsize]
  split
  · rename_i hnone
    exact .unknown hnone
  · rename_i handler hsome
    have hdeliver := deliver_eq r (x.id &&& ~~~flagMask) handler 0
    have hround := Round.settled (r := r) (x := x) hsome
    split
    · rename_i hflag
      split
      · rename_i hclosed
        simp only [settled, hflag, hclosed, ne_eq, not_false_eq_true,
          decide_true, ↓reduceIte] at hround
        rw [hdeliver] at hround ⊢
        exact hround
      · rename_i hopen
        split
        · rename_i hne
          exact .oversized hsome hflag hne
        · simp only [settled, hflag, hopen, ne_eq, not_false_eq_true,
            decide_true, ↓reduceIte] at hround
          rw [hdeliver] at hround ⊢
          exact hround
    · rename_i hdata
      have hsame : Function.update r.handlers (x.id &&& ~~~flagMask)
          (some handler) = r.handlers := by
        rw [← hsome, Function.update_eq_self]
      simp only [settled, hdata, decide_false, Bool.false_eq_true, ↓reduceIte, hsame] at hround
      rw [hdeliver] at hround ⊢
      exact hround

/-- A close that goes through erases a handler the peer has closed, or it sends a close record. -/
theorem close_ok {r' : Router Fifo φ} {id : UInt32} (h : close r id = (.ok (), r')) :
    ∃ handler, r.handlers id = some handler ∧ handler.isClosedWrite = false ∧
      ((handler.isClosedRead = true ∧ r' = r.erase id) ∨
        (handler.isClosedRead = false ∧ r' = { r.setHandler id { handler with onError := none } with
          writeChannel := { r.writeChannel with
            records := r.writeChannel.records ++ [⟨id ||| flagClose, []⟩] } })) := by
  simp only [close] at h
  split at h
  · cases h
  · rename_i handler hsome
    split at h
    · cases h
    · rename_i hwrite
      refine ⟨handler, hsome, by simpa using hwrite, ?_⟩
      split at h
      · rename_i hread
        cases h
        exact .inl ⟨hread, rfl⟩
      · rename_i hread
        simp only [ChannelOps.write, Fifo.write, Router.setHandler, closeId_ne_zero,
          ne_eq, not_true_eq_false, ↓reduceIte] at h
        cases h
        exact .inr ⟨by simpa using hread, rfl⟩

theorem fifoWrite_ok {c c' : Fifo} {id size : UInt32} {data : Option (Nat → UInt8)}
    {res : WriteResult} (h : ChannelOps.write c id size data = (.ok res, c')) :
    ∃ payload, c' = { c with records := c.records ++ [⟨id, payload⟩] } := by
  simp only [ChannelOps.write, Fifo.write] at h
  split at h
  · cases h
  · cases data with
    | none =>
      simp only at h
      split at h
      · cases h
        exact ⟨[], rfl⟩
      · cases h
    | some data =>
      cases h
      exact ⟨_, rfl⟩

theorem interruptReader_eq (r : Router Fifo φ) :
    ∃ state n, r.interruptReader =
      { r with writeChannel := ⟨r.writeChannel.records, state⟩, interrupts := n } := by
  unfold Router.interruptReader
  split
  · exact ⟨_, _, rfl⟩
  · exact ⟨r.writeChannel.consumerState, r.interrupts, rfl⟩

/-- A write that goes through appends one record of its id. -/
theorem write_ok {r' : Router Fifo φ} {id size : UInt32} {data : Option (Nat → UInt8)}
    {res : WriteResult} (h : write r id size data = (.ok res, r')) :
    (r.handlers id).isSome ∧ ∃ payload state n, r' = { r with
      writeChannel := ⟨r.writeChannel.records ++ [⟨id, payload⟩], state⟩
      interrupts := n } := by
  simp only [write] at h
  split at h
  · cases h
  · rename_i handler hsome
    refine ⟨by rw [hsome]; rfl, ?_⟩
    split at h
    · cases h
    · rename_i result err c hwrite
      obtain ⟨payload, rfl⟩ := fifoWrite_ok hwrite
      split at h
      · cases h
        exact ⟨payload, _, _, rfl⟩
      · obtain ⟨state, n, heq⟩ := interruptReader_eq
          { r with writeChannel := { r.writeChannel with
            records := r.writeChannel.records ++ [⟨id, payload⟩] } }
        rw [heq] at h
        cases h
        exact ⟨payload, state, n, rfl⟩

end Queue

end ShmIpcRouter
