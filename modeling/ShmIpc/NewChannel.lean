import ShmIpc.Announcements
import ShmIpc.RouterDelivers
import ShmIpc.RouterHistory

/-!
# How the two processes agree on ids

Literal transcription of the handlers of `parent.cc` and `child.cc`, over the two
routers. `ParentHandler::create_new_channel` takes an id and tells the child under
id 1, where `ChildHandler::on_read` registers the id it is told. The parent writes
to the ids it has created and the child to those it has been told, whenever they
like; between any two steps of one process the other one may take its own.
-/
namespace ShmIpcNewChannel

open Announcements ByteMemory LabelledRun
open Handshake (Side eq_or_other other_other)
open ShmIpcChannel ShmIpcPlacement ShmIpcSession ShmIpcRouter ShmIpcRouterDelivers
open ShmIpcRouterHistory (Searched searchId_searched unflagged_iff)
open ShmIpcRouterStreams hiding step Act

/-! ## The handlers -/

/-- Which of the handlers `on_read` and `on_error` have captured. -/
inductive Callback where
  | parentHandler | childHandler | testHandler
  deriving DecidableEq

/-- The handler that a process registers for id 1. -/
def handlerOf : Side → Callback
  | .left => .parentHandler
  | .right => .childHandler

/-- `NewChannelMessage`, read from the first bytes of a block. -/
def messageId (data : List UInt8) : UInt32 := loadWord (fun i => data.getD i 0) 0

/-- `ParentHandler::on_read` is a test of what happens when a callback throws. -/
def parentOnRead (data : List UInt8) : Except String Unit :=
  if data.length = 0 then .error "PARENT:HANDLER: received close message"
  else .error "PARENT:HANDLER: throwing error as test"

/-- `ChildHandler::on_read`; the new channel is in the list before it is registered. -/
def childOnRead (r : Router Channel Callback) (channels : List UInt32) (data : List UInt8) :
    Except String Unit × Router Channel Callback × List UInt32 :=
  if data.length = 0 then (.ok (), r, channels)
  else if data.length ≠ 4 then
    (.error "CHILD:HANDLER: received message with invalid size for new channel message", r,
      channels)
  else
    let id := messageId data
    let (result, r) := registerHandler r id (some .testHandler) (some .testHandler)
    (result, r, channels ++ [id])

/-! ## The processes -/

/-- `announcing` is the id that `create_new_channel` has registered and not sent yet, `pending` the
block that `ChildHandler::on_read` has been passed and not acted on yet. -/
structure Programs where
  streams : Streams Callback
  ready : Side → Bool
  announcing : Option UInt32
  created : List UInt32
  pending : Option (List UInt8)
  channels : List UInt32

inductive Act where
  | start (a : Side) : Act
  | createNewChannel (n : Nat) : Act
  | announce : Act
  | write (a : Side) (id size : UInt32) (data : Option (Nat → UInt8)) : Act
  | storeConsumerState (a : Side) (state : UInt32) : Act
  | beginRound (a : Side) : Act
  | onRead : Act
  | endRound (a : Side) : Act

/-- The process is inside of `create_new_channel` or of `ChildHandler::on_read`. -/
def Programs.busy (s : Programs) : Side → Bool
  | .left => s.announcing.isSome
  | .right => s.pending.isSome

/-- The ids that a process may write to. -/
def Programs.targets (s : Programs) : Side → List UInt32
  | .left => s.created
  | .right => s.channels

/-- The callback that the round has called, if any. -/
def called (s t : Streams Callback) (a : Side) : Option (Call Callback) :=
  ((t.routers a).calls.drop (s.routers a).calls.length).head?

/-- One act of either process. There is no next state if something throws. -/
def step (s : Programs) : Act → Option Programs
  | .start a =>
    if s.ready a = false ∧ s.busy a = false then
      match registerHandler (s.streams.routers a) 1 (some (handlerOf a)) (some (handlerOf a)) with
      | (.ok (), r) =>
        some { s with streams := s.streams.put a r, ready := Function.update s.ready a true }
      | (.error _, _) => none
    else none
  | .createNewChannel n =>
    if s.ready .left = true ∧ s.busy .left = false then
      match registerNextHandler n (s.streams.routers .left) (some .testHandler)
        (some .testHandler) with
      | (some (.ok id), r) =>
        some { s with streams := s.streams.put .left r, announcing := some id }
      | _ => none
    else none
  | .announce =>
    match s.announcing with
    | none => none
    | some id =>
      match (ShmIpcRouter.write (s.streams.routers .left) 1 4 (some (wordBytes id))).1 with
      | .ok (result, _) =>
        if result ≠ 4 then none
        else (ShmIpcRouterStreams.step s.streams (.write .left 1 4 (some (wordBytes id)))).map
          fun t =>
          { s with streams := t, announcing := none, created := s.created ++ [id] }
      | .error _ => none
  | .write a id size data =>
    if s.busy a = false ∧ id ∈ s.targets a then
      (ShmIpcRouterStreams.step s.streams (.write a id size data)).map fun t =>
        { s with streams := t }
    else none
  | .storeConsumerState a state =>
    if s.busy a = false then
      (ShmIpcRouterStreams.step s.streams (.storeConsumerState a state)).map fun t =>
        { s with streams := t }
    else none
  | .beginRound a =>
    if s.ready a = true ∧ s.busy a = false then
      (ShmIpcRouterStreams.step s.streams (.beginRound a)).bind fun t =>
        match called s.streams t a with
        | none => some { s with streams := t }
        | some call =>
          match call.callback with
          | .parentHandler =>
            match parentOnRead call.data with
            | .ok () => some { s with streams := t }
            | .error _ => none
          | .childHandler => some { s with streams := t, pending := some call.data }
          | .testHandler => some { s with streams := t }
    else none
  | .onRead =>
    match s.pending with
    | none => none
    | some data =>
      match childOnRead (s.streams.routers .right) s.channels data with
      | (.ok (), r, channels) =>
        some { s with streams := s.streams.put .right r, pending := none, channels := channels }
      | (.error _, _, _) => none
  | .endRound a =>
    if s.busy a = false then
      (ShmIpcRouterStreams.step s.streams (.endRound a)).map fun t => { s with streams := t }
    else none

/-- No round frees the last record of a buffer while the write offset is at the end. -/
def Tidy (s : Programs) : Act → Prop
  | .endRound a => ¬ EmptiesAtEnd (lane s.streams a.other).session
  | _ => True

instance (s : Programs) : ∀ act, Decidable (Tidy s act)
  | .start _ | .createNewChannel _ | .announce | .write .. => .isTrue trivial
  | .storeConsumerState .. | .beginRound _ | .onRead => .isTrue trivial
  | .endRound _ => inferInstanceAs (Decidable (¬ _))

end ShmIpcNewChannel
