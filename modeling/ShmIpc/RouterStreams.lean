import ShmIpc.Demultiplex
import ShmIpc.Handshake
import ShmIpc.ChannelFifo
import ShmIpc.Router

/-!
# The streams of two routers

Two routers over a pair of shared-memory channels. A round of `process_reads`
is cut in two where `on_read` runs, so that whatever the callback does, and
whatever the peer does meanwhile, takes place between the halves, while the
loop holds its iterator and its header. Nobody closes an id.
-/
namespace ShmIpcRouterStreams

open ByteMemory LabelledRun Demultiplex Handshake ShmIpcChannel ShmIpcPlacement ShmIpcRing
  ShmIpcSession ShmIpcRouter

/-! ## A round in two halves -/

section Round

variable {κ φ : Type} [ChannelOps κ]

/-- The key behind the iterator of the loop, and the header. -/
abbrev InHand := UInt32 × HeaderPtr

/-- A round up to the call of `on_read`. Without a header the loop ends. -/
def beginRound (r : Router κ φ) : Except String (Option InHand) × Router κ φ :=
  match ChannelOps.readHeader r.readChannel with
  | (.error msg, c) => (.error msg, { r with readChannel := c })
  | (.ok none, c) => (.ok none, { r with readChannel := c })
  | (.ok (some header), c) =>
    let r := { r with readChannel := c }
    let id := ChannelOps.headerId c header &&& ~~~flagMask
    match r.handlers id with
    | none => (.error "Router::process_reads(): received data for unknown handler id", r)
    | some handler => (.ok (some (id, header)), r.deliver id handler header)

/-- The rest of the round. The iterator is looked at again for a close record only; it would dangle
if the callback had erased its handler. -/
def endRound (r : Router κ φ) : InHand → Except String Bool × Router κ φ
  | (id, header) =>
    if ChannelOps.headerId r.readChannel header &&& flagClose ≠ 0 then
      match r.handlers id with
      | none => (.error "dangling iterator", r)
      | some handler =>
        if handler.isClosedRead then (r.erase id).consume header
        else if ChannelOps.headerSize r.readChannel header ≠ 0 then
          (.error "Router::process_reads(): close message with non-zero size", r)
        else (r.setHandler id { handler with onRead := none }).consume header
    else r.consume header

/-- With nothing in between the halves are one round of the loop. -/
theorem processRead_eq (r : Router κ φ) :
    processRead r = match beginRound r with
    | (.error msg, r) => (.error msg, r)
    | (.ok none, r) => (.ok false, r)
    | (.ok (some inHand), r) => endRound r inHand := by
  rcases hread : ChannelOps.readHeader r.readChannel with ⟨res, c⟩
  simp only [processRead, beginRound, hread]
  cases res with
  | error msg => rfl
  | ok header =>
    cases header with
    | none => rfl
    | some header =>
      dsimp only
      cases hh : r.handlers (ChannelOps.headerId c header &&& ~~~flagMask) with
      | none => rfl
      | some handler =>
        dsimp only
        rw [deliver_eq]
        simp only [endRound, hh]

end Round

/-! ## The system -/

/-- `inHand` is where the loop of a side stands inside `on_read`. What a side has published on its
write channel, consumed from its read channel, and been told to be accepted is kept as well. -/
structure Streams (φ : Type) where
  routers : Side → Router Channel φ
  inHand : Side → Option InHand
  published : Side → List Record
  consumed : Side → List Record
  accepted : Side → List Record

inductive Act (φ : Type) where
  | write (a : Side) (id size : UInt32) (data : Option (Nat → UInt8)) : Act φ
  | registerHandler (a : Side) (id : UInt32) (onRead onError : Option φ) : Act φ
  | tryRegisterHandler (a : Side) (id : UInt32) (onRead onError : Option φ) : Act φ
  | registerNextHandler (a : Side) (n : Nat) (onRead onError : Option φ) : Act φ
  | storeConsumerState (a : Side) (state : UInt32) : Act φ
  | beginRound (a : Side) : Act φ
  | endRound (a : Side) : Act φ

variable {φ : Type}

/-- What one side does to the two channels the other side sees. -/
def Streams.put (s : Streams φ) (a : Side) (r : Router Channel φ) : Streams φ :=
  { s with routers := fun b =>
      if b = a then r
        else { s.routers b with readChannel := r.writeChannel, writeChannel := r.readChannel } }

/-- The records that an accepted write puts into the channel. -/
def publishedBy (c : Channel) (id size : UInt32) : Option (Nat → UInt8) → List Record
  | none => []
  | some data => (writtenSlots c id size data).map Slot.record

/-- The first `n` bytes of the data of a write. -/
def acceptedBytes (n : Int) : Option (Nat → UInt8) → List UInt8
  | none => []
  | some data => firstBytes data n.toNat

/-- One act of either side. There is no next state if a round throws; a failed call of another kind
ends without an effect. -/
def step (s : Streams φ) : Act φ → Option (Streams φ)
  | .write a id size data =>
    match ShmIpcRouter.write (s.routers a) id size data with
    | (.ok (n, none), r) => some { s.put a r with
        published := Function.update s.published a
          (s.published a ++ publishedBy (s.routers a).writeChannel id size data)
        accepted := Function.update s.accepted a (s.accepted a ++ [⟨id, acceptedBytes n data⟩]) }
    | (_, r) => some (s.put a r)
  | .registerHandler a id onRead onError =>
    some (s.put a (ShmIpcRouter.registerHandler (s.routers a) id onRead onError).2)
  | .tryRegisterHandler a id onRead onError =>
    some (s.put a (ShmIpcRouter.tryRegisterHandler (s.routers a) id onRead onError).2)
  | .registerNextHandler a n onRead onError =>
    match ShmIpcRouter.registerNextHandler n (s.routers a) onRead onError with
    | (none, _) => none
    | (some _, r) => some (s.put a r)
  -- between the two calls of `process_reads` that surround a poll
  | .storeConsumerState a state =>
    some (s.put a
      { s.routers a with readChannel := { (s.routers a).readChannel with
        mConsumerState := state } })
  | .beginRound a =>
    match s.inHand a with
    | some _ => none
    | none =>
      match ShmIpcRouterStreams.beginRound (s.routers a) with
      | (.ok inHand, r) => some { s.put a r with inHand := Function.update s.inHand a inHand }
      | (.error _, _) => none
  | .endRound a =>
    match s.inHand a with
    | none => none
    | some inHand =>
      match ShmIpcRouterStreams.endRound (s.routers a) inHand with
      | (.ok _, r) => some { s.put a r with
          inHand := Function.update s.inHand a none
          consumed := Function.update s.consumed a
            (s.consumed a ++ [recordAt (s.routers a).readChannel.mAddr inHand.2]) }
      | (.error _, _) => none

/-! ## The assumptions -/

/-- What a channel hands out is the next published record, or nothing when there is none. -/
def HandsOut (published consumed : List Record) (m : Memory) :
    Except String (Option HeaderPtr) → Prop
  | .error _ => True
  | .ok none => consumed.length = published.length
  | .ok (some header) => published[consumed.length]? = some (recordAt m header)

instance (published consumed : List Record) (m : Memory) :
    ∀ result, Decidable (HandsOut published consumed m result)
  | .error _ => .isTrue trivial
  | .ok none => inferInstanceAs (Decidable (_ = _))
  | .ok (some _) => inferInstanceAs (Decidable (_ = _))

/-- The read channel of `a` delivers in order and exactly once. -/
def Delivers (s : Streams φ) (a : Side) : Prop :=
  HandsOut (s.published a.other) (s.consumed a) (s.routers a).readChannel.mAddr
    (readHeader (s.routers a).readChannel).1

/-- The receiver has registered the id of the record that it processes next. -/
def Registered (s : Streams φ) (a : Side) : Prop :=
  (s.published a.other)[(s.consumed a).length]?.all fun x => ((s.routers a).handlers x.id).isSome

instance (s : Streams φ) (a : Side) : Decidable (Delivers s a) :=
  inferInstanceAs (Decidable (HandsOut _ _ _ _))

instance (s : Streams φ) (a : Side) : Decidable (Registered s a) :=
  inferInstanceAs (Decidable (_ = true))

def Admitted (s : Streams φ) : Act φ → Prop
  | .beginRound a => Delivers s a ∧ Registered s a
  | _ => True

instance (s : Streams φ) : ∀ act, Decidable (Admitted s act)
  | .write .. | .registerHandler .. | .tryRegisterHandler .. | .registerNextHandler .. =>
    .isTrue trivial
  | .storeConsumerState .. | .endRound _ => .isTrue trivial
  | .beginRound _ => inferInstanceAs (Decidable (_ ∧ _))

/-- Two routers right after their construction over two channels right after theirs. -/
def connect (channels : Side → Channel) : Streams φ where
  routers a := Router.create (channels a.other) (channels a)
  inHand _ := none
  published _ := []
  consumed _ := []
  accepted _ := []

/-- A channel right after the factory has initialised it. -/
def Fresh (c : Channel) : Prop :=
  ∃ size self raw, SegmentSize size ∧ channelInitialize self size raw = (.ok (), c)

/-! ## One direction -/

/-- One direction, with its channel as the writer and as the reader see it. -/
structure Lane (φ : Type) where
  sent : Channel
  read : Channel
  inHand : Option InHand
  published : List Record
  consumed : List Record
  accepted : List Record
  calls : List (ShmIpcRouter.Call φ)

/-- What side `a` sends to the other one. -/
def lane (s : Streams φ) (a : Side) : Lane φ where
  sent := (s.routers a).writeChannel
  read := (s.routers a.other).readChannel
  inHand := s.inHand a.other
  published := s.published a
  consumed := s.consumed a.other
  accepted := s.accepted a
  calls := (s.routers a.other).calls

def Lane.session (l : Lane φ) : Session := ⟨l.sent, l.inHand.map Prod.snd, l.published, l.consumed⟩

/-- The record that `on_read` is running for. -/
def Lane.current (l : Lane φ) : List Record :=
  match l.inHand with
  | none => []
  | some x => [recordAt l.sent.mAddr x.2]

/-- The bytes of the records of one id. -/
def bytesOf (id : UInt32) (rs : List Record) : List UInt8 := stream Record.id Record.payload id rs

/-- The bytes passed to the callbacks of one id. -/
def passedTo (id : UInt32) (calls : List (ShmIpcRouter.Call φ)) : List UInt8 :=
  stream ShmIpcRouter.Call.id ShmIpcRouter.Call.data id calls

/-- The channel is a session of its own, the records seen so far are the first published ones, and
the callbacks have been passed exactly these. -/
structure Flow (l : Lane φ) : Prop where
  joined : l.read = l.sent
  session : ∃ unread past, Inv l.session unread past
  seen : l.consumed ++ l.current <+: l.published
  plain : ∀ x ∈ l.published, x.id &&& flagMask = 0
  accepted : ∀ id, bytesOf id l.published = bytesOf id l.accepted
  passed : ∀ id, passedTo id l.calls = bytesOf id (l.consumed ++ l.current)

variable {l : Lane φ} {unread past : List Slot}

/-- `consumer_state` is no business of the records. -/
def Lane.setState (l : Lane φ) (state : UInt32) : Lane φ :=
  { l with sent := { l.sent with mConsumerState := state }, read := { l.sent with
    mConsumerState := state } }

theorem flow_setState (hl : Flow l) (state : UInt32) : Flow (l.setState state) := by
  obtain ⟨unread, past, hi⟩ := hl.session
  exact ⟨rfl, ⟨unread, past, ⟨hi.formed.sized, hi.formed.ring, hi.formed.lap⟩, hi.small, hi.held⟩,
    hl.seen, hl.plain, hl.accepted, hl.passed⟩

/-! ### Writing -/

/-- A write of the channel publishes nothing and changes nothing, or it publishes records of its id
with the bytes that it reports. -/
theorem channel_write {s : Session} (hi : Inv s unread past) (id size : UInt32)
    (data : Option (Nat → UInt8)) :
      (∃ res, ShmIpcChannel.write s.channel id size data = (res, s.channel) ∧
        (res = .ok (-1, some .EAGAIN) ∨ ∃ msg, res = .error msg)) ∨
    ∃ (n : Nat) (c : Channel), ShmIpcChannel.write s.channel id size data = (.ok (n, none), c) ∧
      (∀ x ∈ publishedBy s.channel id size data, x.id = id) ∧
      (publishedBy s.channel id size data).flatMap Record.payload = acceptedBytes n data ∧
      ∃ new, Inv { s with
        channel := c, published := s.published ++ publishedBy s.channel id size data }
        (unread ++ new) past := by
  by_cases hid : id = 0
  · exact .inl ⟨_, by subst hid; rfl, .inr ⟨_, rfl⟩⟩
  cases data with
  | none => exact .inl ⟨_, by simp only [ShmIpcChannel.write, hid, ↓reduceIte]; rfl, .inr ⟨_, rfl⟩⟩
  | some d =>
    by_cases hsize : size = 0
    · exact .inl ⟨_, by simp only [ShmIpcChannel.write, hid, hsize, ↓reduceIte]; rfl, .inr ⟨_, rfl⟩⟩
    rcases write_spec hi.formed hi.small d hid hsize with
      ⟨_, hw⟩ | ⟨e, n, c, hw, _, _, hcarry, hc, hf⟩
    · exact .inl ⟨_, hw, .inl rfl⟩
    · exact .inr ⟨n, c, hw, hcarry.ids, hcarry.bytes, writtenSlots s.channel id size d,
        inv_publish hi hc hf _⟩

/-- More records behind the unread ones do not touch the record in hand. -/
theorem current_publish (accepted : List Record) {c : Channel}
    {published : List Record} {new : List Slot} (hi : Inv l.session unread past)
    (hi' : Inv { l.session with channel := c, published := published } (unread ++ new) past) :
    Lane.current { l with sent := c, read := c, published := published, accepted := accepted } =
    l.current := by
  cases hh : l.inHand with
  | none => simp only [Lane.current, hh]
  | some x =>
    have hheld : l.session.held = some x.2 := by simp only [Lane.session, hh, Option.map_some]
    obtain ⟨y, rest, rfl, hy⟩ := held_record hi hheld
    obtain ⟨z, rest', heq, hz⟩ := held_record hi' (h := x.2) hheld
    obtain ⟨rfl, _⟩ := List.cons.inj heq
    have hrec : recordAt c.mAddr x.2 = recordAt l.sent.mAddr x.2 := hz.trans hy.symm
    simp only [Lane.current, hh, hrec]

theorem flow_publish (hl : Flow l) {id : UInt32} (hid : id &&& flagMask = 0) {c : Channel}
    {rs : List Record} {bytes : List UInt8} (hi : Inv l.session unread past) {new : List Slot}
    (hi' : Inv { l.session with channel := c, published := l.published ++ rs } (unread ++ new) past)
    (hids : ∀ x ∈ rs, x.id = id) (hbytes : rs.flatMap Record.payload = bytes) :
    Flow { l with
      sent := c, read := c, published := l.published ++ rs,
      accepted := l.accepted ++ [⟨id, bytes⟩] } := by
  have hcur := current_publish (l.accepted ++ [⟨id, bytes⟩]) hi hi'
  refine ⟨rfl, ⟨_, _, hi'⟩, ?_, fun x hx => ?_, fun k => ?_, fun k => ?_⟩
  · rw [hcur]
    exact hl.seen.trans (List.prefix_append _ _)
  · rcases List.mem_append.mp hx with hx | hx
    · exact hl.plain x hx
    · rw [hids x hx]
      exact hid
  · have hold := hl.accepted k
    simp only [bytesOf] at hold ⊢
    rw [stream_append, stream_append, hold, stream_of_tag hids, stream_singleton, hbytes]
  · rw [hcur]
    exact hl.passed k

/-! ### Reading -/

/-- A record in hand extends what has been seen, if it is the next published one. -/
theorem flow_begin (hl : Flow l) (hnone : l.inHand = none) (inHand : InHand)
    {calls : List (ShmIpcRouter.Call φ)} (hheader : inHand.2 = l.sent.mReadOffset)
    (hne : l.sent.mReadOffset ≠ l.sent.mWriteOffset)
    (hnext : l.published[l.consumed.length]? = some (recordAt l.sent.mAddr inHand.2))
    (hcalls : ∀ k, passedTo k calls = passedTo k l.calls ++ bytesOf k
      [recordAt l.sent.mAddr inHand.2]) : Flow
      { l with inHand := some inHand, calls := calls } := by
  have hcur : l.current = [] := by simp only [Lane.current, hnone]
  have hnew : Lane.current { l with inHand := some inHand, calls := calls } =
    [recordAt l.sent.mAddr inHand.2] := rfl
  obtain ⟨unread, past, hi⟩ := hl.session
  have hseen := hl.seen
  rw [hcur, List.append_nil] at hseen
  refine ⟨hl.joined, ⟨unread, past, hi.formed, hi.small, ?_⟩, ?_, hl.plain,
    hl.accepted, fun k => ?_⟩
  · intro h hh
    obtain rfl : inHand.2 = h := by simpa [Lane.session] using hh
    exact ⟨hheader, hne⟩
  · rw [hnew]
    exact prefix_snoc hseen hnext
  · have hold := hl.passed k
    rw [hcur, List.append_nil] at hold
    rw [hnew, hcalls, hold]
    simp only [bytesOf, stream_append]

theorem flow_end (hl : Flow l) {inHand : InHand} (hin : l.inHand = some inHand) {c : Channel}
    (hc : ShmIpcChannel.consumeHeader l.sent inHand.2 = (.ok (), c)) :
    Flow { l with
      sent := c
      read := c
      inHand := none
      consumed := l.consumed ++ [recordAt l.sent.mAddr inHand.2] } := by
  have hcur : l.current = [recordAt l.sent.mAddr inHand.2] := by simp only [Lane.current, hin]
  have hseen := hl.seen
  have hpassed := hl.passed
  rw [hcur] at hseen hpassed
  have hstep : ShmIpcSession.step l.session .consumeHeader = some
      ⟨c, none, l.published, l.consumed ++ [recordAt l.sent.mAddr inHand.2]⟩ := by
    simp only [ShmIpcSession.step, Lane.session, hin, Option.map_some, hc]
  refine ⟨rfl, inv_step hl.session hstep, ?_, hl.plain, hl.accepted, fun k => ?_⟩
  · simpa [Lane.current] using hseen
  · simpa [Lane.current] using hpassed k

/-- The callback of a handler is passed the record at the header, or the record is empty. -/
theorem passed_deliver (r : Router Channel φ) (id : UInt32) {handler : RouterHandler φ}
    (hopen : handler.onRead.isSome) (header : HeaderPtr)
    (hid : (recordAt r.readChannel.mAddr header).id = id) (k : UInt32) :
      passedTo k (r.deliver id handler header).calls = passedTo k r.calls ++ bytesOf k
      [recordAt r.readChannel.mAddr header] := by
  obtain ⟨f, hf⟩ := Option.isSome_iff_exists.mp hopen
  simp only [Router.deliver, hf, bytesOf, stream_singleton, hid]
  by_cases hsize : ChannelOps.headerSize r.readChannel header ≠ 0
  · rw [if_pos hsize]
    simp only [passedTo, stream_append, stream_singleton]
    rfl
  · have hsize' : sizeAt r.readChannel.mAddr header = 0 := not_not.mp hsize
    have hempty : (recordAt r.readChannel.mAddr header).payload = [] := by
      simp [recordAt, dataAt, hsize', slice]
    rw [if_neg hsize, hempty, ite_self, List.append_nil]

/-! ## Both directions -/

/-- Every handler is open for reading, under an id without reserved bits. -/
def Open (r : Router Channel φ) : Prop :=
  ∀ id handler, r.handlers id = some handler → id &&& flagMask = 0 ∧ handler.onRead.isSome

structure Sound (s : Streams φ) : Prop where
  flow : ∀ a, Flow (lane s a)
  tables : ∀ a, Open (s.routers a)

variable {s t : Streams φ} {a : Side} {r : Router Channel φ}

@[simp] theorem put_self (s : Streams φ) (a : Side) (r : Router Channel φ) :
    (s.put a r).routers a = r := by
  simp [Streams.put]

@[simp] theorem put_other (s : Streams φ) (a : Side) (r : Router Channel φ) :
    (s.put a r).routers a.other =
    { s.routers a.other with readChannel := r.writeChannel, writeChannel := r.readChannel } := by
  simp [Streams.put]

theorem open_put (hs : Sound s) (hr : Open r) (b : Side) : Open ((s.put a r).routers b) := by
  rcases eq_or_other a b with rfl | rfl
  · rw [put_self]
    exact hr
  · rw [put_other]
    exact hs.tables a.other

/-- An act that leaves the read channel and the callbacks of its side alone leaves the other
direction alone. -/
theorem flow_other (hs : Sound s) (hread : r.readChannel = (s.routers a).readChannel)
    (hcalls : r.calls = (s.routers a).calls) :
    Flow { lane s a.other with
      sent := r.readChannel, read := r.readChannel, calls := r.calls } := by
  have hj : (s.routers a.other.other).readChannel = (s.routers a.other).writeChannel :=
    (hs.flow a.other).joined
  rw [other_other] at hj
  have heq :
      { lane s a.other with sent := r.readChannel, read := r.readChannel, calls := r.calls } =
      lane s a.other := by
    simp only [lane, other_other, hread, hcalls, hj]
  rw [heq]
  exact hs.flow a.other

theorem flow_self (hs : Sound s) (hwrite : r.writeChannel = (s.routers a).writeChannel) :
    Flow { lane s a with sent := r.writeChannel, read := r.writeChannel } := by
  have hj : (s.routers a.other).readChannel = (s.routers a).writeChannel := (hs.flow a).joined
  have heq : { lane s a with sent := r.writeChannel, read := r.writeChannel } = lane s a := by
    simp only [lane, hwrite, hj]
  rw [heq]
  exact hs.flow a

/-- What a registration leaves alone. -/
structure Quiet (r r' : Router Channel φ) : Prop where
  read : r'.readChannel = r.readChannel
  write : r'.writeChannel = r.writeChannel
  calls : r'.calls = r.calls
  tables : Open r → Open r'

theorem Quiet.refl (r : Router Channel φ) : Quiet r r := ⟨rfl, rfl, rfl, fun h => h⟩

theorem Quiet.trans {r r' r'' : Router Channel φ} (h : Quiet r r')
    (h' : Quiet r' r'') : Quiet r r'' :=
  ⟨h'.read.trans h.read, h'.write.trans h.write, h'.calls.trans h.calls, fun hr =>
    h'.tables (h.tables hr)⟩

theorem quiet_tryRegisterHandler (r : Router Channel φ) (id : UInt32) (onRead onError : Option φ) :
    Quiet r (tryRegisterHandler r id onRead onError).2 := by
  unfold tryRegisterHandler
  split
  · exact .refl r
  split
  · exact .refl r
  split
  · exact .refl r
  split
  · exact .refl r
  · rename_i hmask _ hread _
    refine ⟨rfl, rfl, rfl, fun hr k handler hk => ?_⟩
    by_cases h : k = id
    · subst h
      obtain rfl : ⟨onRead, onError⟩ = handler := by simpa [Router.setHandler] using hk
      exact ⟨not_not.mp hmask, by simpa [Option.isSome_iff_ne_none] using hread⟩
    · simp only [Router.setHandler, Function.update_of_ne h] at hk
      exact hr k handler hk

theorem quiet_registerHandler (r : Router Channel φ) (id : UInt32) (onRead onError : Option φ) :
    Quiet r (ShmIpcRouter.registerHandler r id onRead onError).2 := by
  have h := quiet_tryRegisterHandler r id onRead onError
  unfold ShmIpcRouter.registerHandler
  split <;> simp_all

theorem quiet_searchId (onRead onError : Option φ) (n : Nat) (id : UInt32) (r : Router Channel φ) :
    Quiet r (searchId onRead onError n id r).2 := by
  induction n generalizing id r with
  | zero => exact .refl r
  | succ n ih =>
    have h := quiet_tryRegisterHandler r id onRead onError
    rw [searchId]
    split
    · simp_all
    · rename_i heq
      rw [heq] at h
      exact ⟨h.read, h.write, h.calls, h.tables⟩
    · rename_i heq
      rw [heq] at h
      split
      · exact h
      · exact h.trans (ih (id + 1) _)

theorem sound_quiet (hs : Sound s) (h : Quiet (s.routers a) r) : Sound (s.put a r) := by
  refine ⟨fun b => ?_, open_put hs (h.tables (hs.tables a))⟩
  rcases eq_or_other a b with rfl | rfl
  · convert flow_self hs h.write using 1
    simp [lane, Streams.put]
  · convert flow_other hs h.read h.calls using 1
    simp [lane, Streams.put]

/-! ### A write -/

theorem interruptReader_channel (r : Router Channel φ) :
    ∃ state n, r.interruptReader = { r with
      writeChannel := { r.writeChannel with mConsumerState := state }, interrupts := n } := by
  unfold Router.interruptReader
  split
  · exact ⟨_, _, rfl⟩
  · exact ⟨r.writeChannel.mConsumerState, r.interrupts, rfl⟩

/-- `Router::write` changes nothing, or it is a write of the channel for a registered id. -/
theorem router_write {u : Session} (hi : Inv u unread past) (hu : u.channel = r.writeChannel)
    (id size : UInt32) (data : Option (Nat → UInt8)) :
    (∃ res, ShmIpcRouter.write r id size data = (res, r) ∧ ∀ n, res ≠ .ok (n, none)) ∨
    ∃ (n : Nat) (c : Channel) (state : UInt32) (k : Nat), ShmIpcRouter.write r id size data =
        (.ok (n, none),
          { r with writeChannel := { c with mConsumerState := state }, interrupts := k }) ∧
      (r.handlers id).isSome ∧
      (∀ x ∈ publishedBy r.writeChannel id size data, x.id = id) ∧
      (publishedBy r.writeChannel id size data).flatMap Record.payload = acceptedBytes n data ∧
      ∃ new, Inv { u with
        channel := c, published := u.published ++ publishedBy r.writeChannel id size data }
        (unread ++ new) past := by
  cases hh : r.handlers id with
  | none => exact .inl ⟨_, by simp only [ShmIpcRouter.write, hh]; rfl, by simp⟩
  | some handler =>
    have hw := channel_write hi id size data
    rw [hu] at hw
    rcases hw with ⟨res, hw, hres⟩ | ⟨n, c, hw, hids, hbytes, new, hi'⟩
    · have hops : ChannelOps.write r.writeChannel id size data = (res, r.writeChannel) := hw
      rcases hres with rfl | ⟨msg, rfl⟩
      · exact .inl ⟨_, by simp only [ShmIpcRouter.write, hh, hops]; rfl, by simp⟩
      · exact .inl ⟨_, by simp only [ShmIpcRouter.write, hh, hops]; rfl, by simp⟩
    · have hops : ChannelOps.write r.writeChannel id size data = (.ok ((n : Int), none), c) := hw
      have hneg : ¬((n : Int) < 0) := Int.not_lt.mpr (Int.natCast_nonneg n)
      obtain ⟨state, k, hint⟩ := interruptReader_channel { r with writeChannel := c }
      refine .inr ⟨n, c, state, k, ?_, rfl, hids, hbytes, new, hi'⟩
      simp only [ShmIpcRouter.write, hh, hops, hneg, ↓reduceIte, hint]

theorem sound_write (hs : Sound s) {id size : UInt32} {data : Option (Nat → UInt8)}
    (h : step s (.write a id size data) = some t) : Sound t := by
  obtain ⟨unread, past, hi⟩ := (hs.flow a).session
  simp only [step] at h
  rcases router_write (r := s.routers a) hi rfl id size data with
    ⟨res, hw, hres⟩ | ⟨n, c, state, k, hw, hsome, hids, hbytes, new, hi'⟩
  · have hput : s.put a (s.routers a) = t := by
      rw [hw] at h
      split at h
      · rename_i m r' heq
        obtain ⟨rfl, _⟩ := Prod.mk.inj heq
        exact absurd rfl (hres m)
      · rename_i heq
        obtain ⟨_, rfl⟩ := Prod.mk.inj heq
        exact Option.some.inj h
    subst hput
    exact sound_quiet hs (.refl _)
  · simp only [hw, Option.some.injEq] at h
    subst h
    obtain ⟨handler, hh⟩ := Option.isSome_iff_exists.mp hsome
    have hpub := flow_setState (flow_publish (hs.flow a) (hs.tables a id handler hh).1 hi
      hi' hids hbytes) state
    refine ⟨fun b => ?_, open_put hs (hs.tables a)⟩
    rcases eq_or_other a b with rfl | rfl
    · convert hpub using 1
      simp [lane, Streams.put, Lane.setState]
    · convert flow_other hs (r := s.routers a) rfl rfl using 1
      simp [lane, Streams.put]

/-! ### A round -/

theorem sound_storeConsumerState (hs : Sound s) {state : UInt32}
    (h : step s (.storeConsumerState a state) = some t) : Sound t := by
  simp only [step, Option.some.injEq] at h
  subst h
  refine ⟨fun b => ?_, open_put hs (hs.tables a)⟩
  rcases eq_or_other a b with rfl | rfl
  · convert flow_self hs (r := s.routers b) rfl using 1
    simp [lane, Streams.put]
  · convert flow_setState (flow_other hs (r := s.routers a) rfl rfl) state using 1
    simp [lane, Streams.put, Lane.setState]

/-- What the first half of a round does: the channel is empty, or a handler is there for the record
that comes next. -/
inductive Begins (s : Streams φ) (a : Side) :
    Except String (Option InHand) × Router Channel φ → Prop where
  | idle : (readHeader (s.routers a).readChannel).1 = .ok none → Begins s a (.ok none, s.routers a)
  | record {id : UInt32} {handler : RouterHandler φ} : (s.routers a).handlers id = some handler →
      (s.routers a).readChannel.mReadOffset ≠ (s.routers a).readChannel.mWriteOffset →
      (recordAt (s.routers a).readChannel.mAddr (s.routers a).readChannel.mReadOffset).id = id →
      (s.published a.other)[(s.consumed a).length]? =
        some (recordAt (s.routers a).readChannel.mAddr (s.routers a).readChannel.mReadOffset) →
      Begins s a (.ok (some (id, (s.routers a).readChannel.mReadOffset)),
        (s.routers a).deliver id handler (s.routers a).readChannel.mReadOffset)

theorem begins_of_admitted (hs : Sound s) (hadm : Admitted s (.beginRound a)) :
    Begins s a (beginRound (s.routers a)) := by
  obtain ⟨hdel, hreg⟩ := hadm
  have hl := hs.flow a.other
  obtain ⟨unread, past, hi⟩ := hl.session
  have hj : (s.routers a).readChannel = (s.routers a.other).writeChannel := by
    simpa [lane] using hl.joined
  have hread := readHeader_spec hi.formed
  have hchan : (lane s a.other).session.channel = (s.routers a).readChannel := hj.symm
  rw [hchan] at hread
  have hops : ChannelOps.readHeader (s.routers a).readChannel = _ := hread
  by_cases heq : (s.routers a).readChannel.mReadOffset = (s.routers a).readChannel.mWriteOffset
  · rw [if_pos heq] at hops
    simp only [beginRound, hops]
    exact .idle (by rw [hread, if_pos heq])
  · rw [if_neg heq] at hops hread
    simp only [Delivers, hread, HandsOut] at hdel
    have hplain := hl.plain _ (List.mem_of_getElem? hdel)
    simp only [Registered, hdel, Option.all_some] at hreg
    obtain ⟨handler, hh⟩ := Option.isSome_iff_exists.mp hreg
    have hid : ChannelOps.headerId (s.routers a).readChannel
        (s.routers a).readChannel.mReadOffset &&& ~~~flagMask =
        (recordAt (s.routers a).readChannel.mAddr (s.routers a).readChannel.mReadOffset).id :=
        unmasked hplain
    simp only [beginRound, hops, hid, hh]
    exact .record hh heq rfl hdel

theorem sound_begin (hs : Sound s) (hadm : Admitted s (.beginRound a))
    (h : step s (.beginRound a) = some t) : Sound t := by
  have hbegins := begins_of_admitted hs hadm
  simp only [step] at h
  split at h
  · cases h
  rename_i hnone
  split at h
  · rename_i inHand r hround
    rw [hround] at hbegins
    cases h
    cases hbegins with
    | idle _ =>
      have heq : { s.put a (s.routers a) with inHand := Function.update s.inHand a none } = s.put a
          (s.routers a) := by
        rw [← hnone, Function.update_eq_self]
        rfl
      rw [heq]
      exact sound_quiet hs (.refl _)
    | record hh hne hid hnext =>
      rename_i id handler
      have hcalls := passed_deliver (s.routers a) id (hs.tables a id handler hh).2 _ hid
      rw [deliver_eq]
      generalize ((s.routers a).deliver id handler (s.routers a).readChannel.mReadOffset).calls =
        calls at hcalls ⊢
      refine ⟨fun b => ?_, open_put hs (hs.tables a)⟩
      rcases eq_or_other a b with rfl | rfl
      · convert flow_self hs (r := s.routers b) rfl using 1
        simp [lane, Streams.put]
      · have hflow := flow_other hs (r := s.routers a) rfl rfl
        convert flow_begin hflow ?_ (id, (s.routers a).readChannel.mReadOffset) rfl
          hne ?_ hcalls using 1
        · simp [lane, Streams.put]
        · simpa [lane] using hnone
        · simpa [lane] using hnext
  · cases h

/-- The second half of a round consumes the record. -/
theorem endRound_ok (hs : Sound s) {x : InHand} (hin : s.inHand a = some x) :
    ∃ c, endRound (s.routers a) x = (.ok true, { s.routers a with readChannel := c }) ∧
      ShmIpcChannel.consumeHeader (s.routers a).readChannel x.2 = (.ok (), c) := by
  have hl := hs.flow a.other
  obtain ⟨unread, past, hi⟩ := hl.session
  have hj : (s.routers a).readChannel = (s.routers a.other).writeChannel := by
    simpa [lane] using hl.joined
  have hheld : (lane s a.other).session.held = some x.2 := by simp [lane, Lane.session, hin]
  obtain ⟨c, hc⟩ := (ShmIpcFifo.neverThrows_of_inv hi).consumes x.2 hheld
  have hchan : (lane s a.other).session.channel = (s.routers a).readChannel := hj.symm
  rw [hchan] at hc
  have hcur : (lane s a.other).current = [recordAt (s.routers a).readChannel.mAddr x.2] := by
    simp [lane, Lane.current, hin, hj]
  have hmem : recordAt (s.routers a).readChannel.mAddr x.2 ∈ s.published a.other := by
    have hseen := hl.seen
    rw [hcur] at hseen
    exact hseen.subset (by simp)
  have hflag : ChannelOps.headerId (s.routers a).readChannel x.2 &&& flagClose = 0 :=
    unflagged (hl.plain _ hmem)
  have hops : ChannelOps.consumeHeader (s.routers a).readChannel x.2 = (.ok (), c) := hc
  refine ⟨c, ?_, hc⟩
  simp only [endRound, hflag, ne_eq, not_true_eq_false, ↓reduceIte, Router.consume, hops]

theorem sound_end (hs : Sound s) (h : step s (.endRound a) = some t) : Sound t := by
  simp only [step] at h
  split at h
  · cases h
  rename_i x hin
  obtain ⟨c, hround, hc⟩ := endRound_ok hs hin
  simp only [hround, Option.some.injEq] at h
  subst h
  refine ⟨fun b => ?_, open_put hs (hs.tables a)⟩
  rcases eq_or_other a b with rfl | rfl
  · convert flow_self hs (r := s.routers b) rfl using 1
    simp [lane, Streams.put]
  · have hflow := flow_other hs (r := s.routers a) rfl rfl
    convert flow_end hflow ?_ hc using 1
    · simp [lane, Streams.put]
    · simpa [lane] using hin

/-! ## Every run -/

theorem sound_step {act : Act φ} (hs : Sound s) (h : guarded Admitted (ofFun step) s act t) :
    Sound t := by
  obtain ⟨hadm, h⟩ := h
  simp only [ofFun] at h
  cases act with
  | write a id size data => exact sound_write hs h
  | registerHandler a id onRead onError =>
    cases h
    exact sound_quiet hs (quiet_registerHandler ..)
  | tryRegisterHandler a id onRead onError =>
    cases h
    exact sound_quiet hs (quiet_tryRegisterHandler ..)
  | registerNextHandler a n onRead onError =>
    have hq := quiet_searchId onRead onError n (s.routers a).nextId (s.routers a)
    simp only [step, registerNextHandler] at h
    split at h
    · cases h
    · rename_i heq
      rw [heq] at hq
      cases h
      exact sound_quiet hs hq
  | storeConsumerState a state => exact sound_storeConsumerState hs h
  | beginRound a => exact sound_begin hs hadm h
  | endRound a => exact sound_end hs h

theorem sound_connect {channels : Side → Channel} (h : ∀ a, Fresh (channels a)) :
    Sound (connect channels : Streams φ) := by
  refine ⟨fun a => ?_, fun a id handler hh => by simp [connect, Router.create] at hh⟩
  obtain ⟨size, self, raw, hsize, hinit⟩ := h a
  have hi := inv_opened (s := (lane (connect channels : Streams φ) a).session) hsize
    ⟨⟨self, raw, hinit⟩, rfl, rfl, rfl⟩
  refine ⟨?_, ⟨[], [], hi⟩, ?_, ?_, fun _ => rfl, fun _ => rfl⟩
  · simp [lane, connect, Router.create]
  · simp [lane, connect, Lane.current]
  · simp [lane, connect]

/-- No round throws: neither one that begins, nor one that goes on behind the callback. -/
structure NeverThrows (s : Streams φ) (a : Side) : Prop where
  begins : Delivers s a → Registered s a → ∃ inHand r, beginRound (s.routers a) = (.ok inHand, r)
  ends : ∀ x, s.inHand a = some x → ∃ r, endRound (s.routers a) x = (.ok true, r)

/-- What the callbacks of `id` on the other side have been passed, and what the writes of `id` on
side `a` have reported as accepted. -/
structure Demultiplexes (s : Streams φ) (a : Side) (id : UInt32) : Prop where
  inOrder : passedTo id (s.routers a.other).calls <+: bytesOf id (s.accepted a)
  complete : Delivers s a.other → (readHeader (s.routers a.other).readChannel).1 = .ok none →
    passedTo id (s.routers a.other).calls = bytesOf id (s.accepted a)

theorem neverThrows_of_sound (hs : Sound s) (a : Side) : NeverThrows s a := by
  refine ⟨fun hdel hreg => ?_, fun x hin => ?_⟩
  · have hbegins := begins_of_admitted (a := a) hs ⟨hdel, hreg⟩
    generalize beginRound (s.routers a) = result at hbegins
    cases hbegins with
    | idle _ => exact ⟨_, _, rfl⟩
    | record _ _ _ _ => exact ⟨_, _, rfl⟩
  · obtain ⟨c, hround, _⟩ := endRound_ok hs hin
    exact ⟨_, hround⟩

theorem demultiplexes_of_sound (hs : Sound s) (a : Side) (id : UInt32) : Demultiplexes s a id := by
  have hl := hs.flow a
  have hpassed : passedTo id (s.routers a.other).calls = bytesOf id
      ((lane s a).consumed ++ (lane s a).current) :=
    hl.passed id
  have haccepted : bytesOf id (s.accepted a) = bytesOf id (s.published a) := (hl.accepted id).symm
  refine ⟨?_, fun hdel hnull => ?_⟩
  · rw [hpassed, haccepted]
    exact stream_prefix hl.seen id
  · simp only [Delivers, hnull, HandsOut, other_other] at hdel
    have hall : (lane s a).consumed ++ (lane s a).current = s.published a := by
      refine hl.seen.eq_of_length_le ?_
      rw [List.length_append]
      exact Nat.le_trans (Nat.le_of_eq hdel.symm) (Nat.le_add_right _ _)
    rw [hpassed, haccepted, hall]

/-- Channels of one page each, over segments full of arbitrary bytes. -/
def pages : Side → Channel := fun _ => ShmIpcFifo.onePage.channel

theorem pages_fresh (a : Side) : Fresh (pages a) := ⟨4096, 4096, _, ShmIpcFifo.onePage_size, rfl⟩

/-- The callback for the first block registers another handler and writes back while the peer writes
on. -/
def answered : List (Act Unit) :=
  [.registerHandler .left 1 (some ()) (some ()), .registerHandler .right 1 (some ()) (some ()),
    .registerHandler .left 2 (some ()) (some ()), .write .left 1 3 (some fun i => UInt8.ofNat i),
    .write .left 2 2 (some fun _ => 7), .beginRound .right, .registerNextHandler .right 3
    (some ()) (some ()), .write .right 1 1 (some fun _ => 9), .write .left 1 2 (some fun _ => 5),
    .endRound .right, .beginRound .right, .endRound .right, .beginRound .right, .endRound .right,
    .beginRound .right]

end ShmIpcRouterStreams
