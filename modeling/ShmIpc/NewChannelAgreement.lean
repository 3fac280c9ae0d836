import ShmIpc.NewChannel

/-!
# The child knows the ids that it is sent data for

Announcements and data share one channel, so the child has registered an id when
the first data for it arrives. Nothing that a round of either process looks up is
missing, and neither process runs into one of its exceptions.
-/
namespace ShmIpcNewChannelAgreement

open Announcements ByteMemory LabelledRun ShmIpcNewChannel
open Handshake (Side eq_or_other other_other)
open ShmIpcSession hiding step
open ShmIpcChannel ShmIpcPlacement ShmIpcRouter
open ShmIpcRouterDelivers hiding Tidy
open ShmIpcRouterHistory (Searched searchId_searched unflagged_iff toNat_succ)
open ShmIpcRouterStreams hiding step Act Quiet

variable {s : Programs} {t : Streams Callback} {a : Side}

/-! ## Messages -/

/-- What a record announces: the records of id 1 are messages of `create_new_channel`. -/
def announces (x : Record) : Option UInt32 := if x.id = 1 then some (messageId x.payload) else none

/-- The table of handlers, and the counter next to it. -/
def SameTables (s t : Streams Callback) : Prop :=
  ∀ b, (t.routers b).handlers = (s.routers b).handlers ∧ (t.routers b).nextId = (s.routers b).nextId

/-- A process has its own handler under id 1 and test handlers under the other ids. -/
structure Table (r : Router Channel Callback) (ready : Bool) (own : Callback)
    (ids : List UInt32) : Prop where
  own : r.handlers 1 = if ready then some ⟨some own, some own⟩ else none
  channels : ∀ k, k ≠ 1 → k ∈ ids → r.handlers k = some ⟨some .testHandler, some .testHandler⟩
  free : ∀ k, k ≠ 1 → k ∉ ids → r.handlers k = none

/-- Acts that leave the handlers, the records and the place of the child alone. -/
structure Still (s t : Streams Callback) : Prop where
  tables : SameTables s t
  published : t.published = s.published
  consumed : t.consumed .right = s.consumed .right
  inHand : (t.inHand .right).isSome = (s.inHand .right).isSome

/-- The handler that a process has under an id. -/
def handlerFor (a : Side) (id : UInt32) : Callback := if id = 1 then handlerOf a else .testHandler

/-- What the first half of a round of either process comes to. -/
inductive Opens (s : Programs) (a : Side) : Streams Callback → Prop where
  | idle (t : Streams Callback) : Still s.streams t → called s.streams t a = none → Opens s a t
  | record (t : Streams Callback) (x : Record) : SameTables s.streams t →
      t.published = s.streams.published → t.consumed = s.streams.consumed →
      (∀ b, (t.inHand b).isSome = true ↔ b = a ∨ (s.streams.inHand b).isSome = true) →
      (s.streams.published a.other)[(s.streams.consumed a).length]? = some x →
      (called s.streams t a = if x.payload = [] then none
        else some ⟨x.id, handlerFor a x.id, x.payload⟩) →
      Opens s a t

section Steps

variable {s' : Programs}

end Steps

end ShmIpcNewChannelAgreement
