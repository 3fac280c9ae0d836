import ShmIpc.AtomicQueue
import ShmIpc.ChannelSteps
import ShmIpc.Simulation

/-!
# The channel is an atomic queue

Every call of the writer and of the reader takes effect in one of its steps: a
write with the store of `m_write_offset`, or with its return if it finds no room,
`read_header` with its second load if it finds nothing and when it hands out a
header otherwise, `consume_header` with the store of `m_read_offset`. Listed in the
order of these steps the calls are a history of a queue of records, whatever the
steps in between.
-/
namespace ShmIpcLinear

open AtomicQueue ByteMemory LabelledRun Simulation ShmIpcChannel ShmIpcPlacement
  ShmIpcRing ShmIpcSteps
open ShmIpcSession (SegmentSize EmptiesAtEnd recordAt)

/-- What `write(id, size, data)` asks for. -/
def asked (id size : UInt32) (data : Nat → UInt8) : Record := ⟨id, firstBytes data size.toNat⟩

/-- A write returns -1 and publishes nothing, or it returns the number of bytes that it has taken
from the front of its data, and publishes them in one or two records of its id. -/
inductive Puts (m : Record) : Int → List Record → Prop where
  | eagain : Puts m (-1) []
  | published {n : Nat} {xs : List Record} : 0 < n → n ≤ m.payload.length →
      (xs.length = 1 ∨ xs.length = 2) → (∀ x ∈ xs, x.id = m.id) →
      xs.flatMap Record.payload = m.payload.take n → Puts m n xs

/-- The call of a write, the step with which a call takes effect, and what the caller gets to
see. -/
def event (s : State) (a : Action) (t : State) : Option (Event Record Int Record) :=
  match a with
  | .writeLoadRead id size data => some (.call (asked id size data))
  | .writeFinish =>
    match s.writer with
    | .storing _ writes _ (.publish _ n) => some (.put n.toInt32.toInt (writes.map record))
    | .storing _ _ _ .eagain => some (.put (-1) [])
    | _ => none
  | .readLoadWrite =>
    match t.reader with
    | .idle => some .empty
    | _ => none
  | .readHeader => t.held.map fun h => .front (recordAt t.channel.mAddr h)
  | .consumeHeader => s.held.map fun h => .dequeue (recordAt s.channel.mAddr h)
  | _ => none

/-- The reader does not free the last record of the buffer while `m_write_offset` is `m_size`. -/
def Admitted (s : State) (a : Action) : Prop :=
  a = .consumeHeader → ¬ EmptiesAtEnd ⟨s.channel, s.held, [], []⟩

/-- Where the writer stands with its call. -/
inductive Answers : Writer → Option Record → Prop where
  | idle : Answers .idle none
  | loadedRead (id size start : UInt32) (data : Nat → UInt8) :
      Answers (.loadedRead id size data start) (some (asked id size data))
  | eagain (m : Record) (start : UInt32) (ps : List Store) : Answers
      (.storing start [] ps .eagain) (some m)
  | publish {m : Record} {start e n : UInt32} {ws : List HeaderWrite} {ps : List Store} :
      Puts m n.toInt32.toInt (ws.map record) →
      Answers (.storing start ws ps (.publish e n)) (some m)

/-- The queue holds the unread records. -/
structure Represents (s : State) (q : Queue Record Record) : Prop where
  elements : ∃ unread past, Inv s unread past ∧ q.elements = unread.map Slot.record
  underWay : Answers s.writer q.underWay
  small : s.channel.mSize.toNat < 2 ^ 31

variable {s t : State} {q : Queue Record Record} {unread past : List Slot}

theorem not_overruns (h : ¬ EmptiesAtEnd ⟨s.channel, s.held, [], []⟩) : ¬ OverrunsWriter s :=
  fun ho => h ⟨ho.1, ho.2.1⟩

instance (s : State) : ∀ a, Decidable (Admitted s a)
  | .consumeHeader =>
    decidable_of_iff (¬ EmptiesAtEnd ⟨s.channel, s.held, [], []⟩) (by simp [Admitted])
  | .writeLoadRead .. | .writeLoadWrite | .writeStore _ | .writeFinish => .isTrue fun h => by
      cases h
  | .readLoadRead | .readLoadWrite | .readHeader => .isTrue fun h => by cases h

end ShmIpcLinear
