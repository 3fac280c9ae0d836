import ShmIpc.ChangeLog

/-!
# The kqueue poll

Literal transcription of `torrent/system/poll_kqueue.cc` and of what `event.h`
keeps in an `Event`. A `PollEvent*` is an index into a heap from which nothing
is taken away, so that a stale pointer stays a stale pointer. A `throw` keeps
what was stored before it, and calls of `kevent` succeed.
-/
namespace ShmIpcPoll

open ChangeLog

abbrev EventId := Nat
abbrev PollEventId := Nat

def flagRead : UInt32 := 0x1
def flagWrite : UInt32 := 0x2
def flagError : UInt32 := 0x4

structure Event where
  typeName : String
  mFileDesc : Int
  mPollEvent : Option PollEventId

structure PollEvent where
  mask : UInt32
  event : Option EventId

/-- `EVFILT_READ` and `EVFILT_WRITE` -/
inductive Filter where
  | read | write
  deriving DecidableEq

/-- `EV_ADD` and `EV_DELETE` -/
inductive ChangeOp where
  | add | delete

/-- A `void*` that is null or a `PollEvent*`. -/
abbrev Udata := Option PollEventId

/-- The kernel knows a filter by its descriptor and its kind. -/
abbrev Change := ChangeLog.Change (Int × Filter) Udata

/-- The members of `Poll` and `PollInternal` with the objects they refer to. `mChanges` is the part
of the array that `m_changed_events` counts, and `kernel` the filters registered with the kqueue. -/
structure Poll where
  events : EventId → Event
  pollEvents : PollEventId → PollEvent
  nextPollEvent : PollEventId
  mTable : Int → Option PollEventId
  mMaxEvents : Nat
  mChanges : List Change
  kernel : Int × Filter → Option Udata
  mProcessing : Bool
  mClosedEvents : List PollEventId

/-- The poll that `Poll::create` returns. -/
def create (events : EventId → Event) : Poll where
  events := events
  pollEvents := fun _ => ⟨0, none⟩
  nextPollEvent := 0
  mTable := fun _ => none
  mMaxEvents := 1024
  mChanges := []
  kernel := fun _ => none
  mProcessing := false
  mClosedEvents := []

/-- A call that may throw, with the state it leaves behind. -/
abbrev Result := Except String Unit × Poll

/-- The next statement is reached unless the call has thrown. -/
def andThen {σ : Type} (r : Except String Unit × σ) (f : σ → Except String Unit × σ) :
    Except String Unit × σ :=
  match r with
  | (.ok (), s) => f s
  | (.error msg, s) => (.error msg, s)

def printNameFdStr (e : Event) : String := "name:" ++ e.typeName ++ " fd:" ++ toString e.mFileDesc

/-! ## `PollInternal` -/

def eventMask (p : Poll) (e : EventId) : Except String UInt32 :=
  let event := p.events e
  if event.mFileDesc = -1 then
    .error ("PollInternal::event_mask() invalid file descriptor for event: " ++
      printNameFdStr event)
  else match p.mTable event.mFileDesc with
  | none => .error ("PollInternal::event_mask() event not found: " ++ printNameFdStr event)
  | some q =>
    if (p.pollEvents q).event ≠ some e then
      .error ("PollInternal::event_mask() event mismatch: " ++ printNameFdStr event)
    else .ok (p.pollEvents q).mask

/-- The store goes through `m_poll_event`, which is set whenever `event_mask` has returned. -/
def setEventMask (p : Poll) (e : EventId) (mask : UInt32) : Result :=
  let event := p.events e
  if event.mFileDesc = -1 then
    (.error ("PollInternal::set_event_mask() invalid file descriptor for event: " ++
      printNameFdStr event), p)
  else match event.mPollEvent with
  | none => (.ok (), p)
  | some q =>
    (.ok (),
      { p with pollEvents := Function.update p.pollEvents q { p.pollEvents q with mask := mask } })

/-- `kevent` takes the pending changes in their order. -/
def flush (p : Poll) : Poll :=
  if p.mChanges = [] then p else { p with kernel := applyLog p.kernel p.mChanges, mChanges := [] }

/-- `EV_SET` -/
def evSet (ident : Int) (filter : Filter) (op : ChangeOp) (udata : Udata) : Change :=
  match op with
  | .add => ⟨(ident, filter), some udata⟩
  | .delete => ⟨(ident, filter), none⟩

def modify (p : Poll) (e : EventId) (op : ChangeOp) (filter : Filter) : Poll :=
  let p := if p.mChanges.length = p.mMaxEvents then flush p else p
  { p with mChanges := p.mChanges ++ [evSet (p.events e).mFileDesc filter op
    (p.events e).mPollEvent] }

/-! ## `Poll` -/

/-- `Poll::open` -/
def openEvent (p : Poll) (e : EventId) : Result :=
  let event := p.events e
  if event.mFileDesc = -1 then
    (.error ("Poll::open() invalid file descriptor for event: " ++ printNameFdStr event), p)
  else if event.mPollEvent ≠ none then
    (.error ("Poll::open() called but the event is already associated with a poll: " ++
      printNameFdStr event), p)
  else if p.mTable event.mFileDesc ≠ none then
    (.error ("Poll::open() event already exists: " ++ printNameFdStr event), p)
  else
    let q := p.nextPollEvent
    (.ok (), { p with
      events := Function.update p.events e { event with mPollEvent := some q }
      pollEvents := Function.update p.pollEvents q ⟨0, some e⟩
      nextPollEvent := q + 1
      mTable := Function.update p.mTable event.mFileDesc (some q) })

def close (p : Poll) (e : EventId) : Result :=
  let event := p.events e
  match event.mPollEvent with
  | none => (.ok (), p)
  | some q =>
    if (p.pollEvents q).event ≠ some e then
      (.error ("Poll::close() event mismatch: " ++ printNameFdStr event), p)
    else match eventMask p e with
    | .error msg => (.error msg, p)
    | .ok mask =>
      if mask ≠ 0 then
        (.error ("Poll::close() called but the file descriptor is active: " ++
          printNameFdStr event), p)
      else if p.mTable event.mFileDesc = none then
        (.error ("Poll::close() event not found: " ++ printNameFdStr event), p)
      else
        let p := flush { p with mTable := Function.update p.mTable event.mFileDesc none }
        (.ok (), { p with
          mClosedEvents := if p.mProcessing then p.mClosedEvents ++ [q] else p.mClosedEvents
          pollEvents := Function.update p.pollEvents q { p.pollEvents q with event := none }
          events := Function.update p.events e { event with mPollEvent := none } })

/-- What the three `insert` calls share; the kernel always monitors errors and has no filter for
them. -/
def insertFlag (flag : UInt32) (filter : Option Filter) (p : Poll) (e : EventId) : Result :=
  match eventMask p e with
  | .error msg => (.error msg, p)
  | .ok mask =>
    if mask &&& flag ≠ 0 then (.ok (), p)
    else andThen (setEventMask p e (mask ||| flag)) fun p =>
      match filter with
      | none => (.ok (), p)
      | some f => (.ok (), modify p e .add f)

/-- What the three `remove` calls share. -/
def removeFlag (flag : UInt32) (filter : Option Filter) (p : Poll) (e : EventId) : Result :=
  match eventMask p e with
  | .error msg => (.error msg, p)
  | .ok mask =>
    if mask &&& flag = 0 then (.ok (), p)
    else andThen (setEventMask p e (mask &&& ~~~flag)) fun p =>
      match filter with
      | none => (.ok (), p)
      | some f => (.ok (), modify p e .delete f)

def insertRead : Poll → EventId → Result := insertFlag flagRead (some .read)
def insertWrite : Poll → EventId → Result := insertFlag flagWrite (some .write)
def insertError : Poll → EventId → Result := insertFlag flagError none
def removeRead : Poll → EventId → Result := removeFlag flagRead (some .read)
def removeWrite : Poll → EventId → Result := removeFlag flagWrite (some .write)
def removeError : Poll → EventId → Result := removeFlag flagError none

def openAndInsertRead (p : Poll) (e : EventId) : Result :=
  andThen (openEvent p e) fun p => insertRead p e

def openAndInsertReadWrite (p : Poll) (e : EventId) : Result :=
  andThen (openEvent p e) fun p => andThen (insertRead p e) fun p => insertWrite p e

def openAndInsertWrite (p : Poll) (e : EventId) : Result :=
  andThen (openEvent p e) fun p => insertWrite p e

def removeAndClose (p : Poll) (e : EventId) : Result :=
  andThen (removeRead p e) fun p => andThen (removeWrite p e) fun p => andThen (removeError p e)
    fun p => close p e

/-- The call of `kevent` in `Poll::poll`. The changes are consumed even if it returns early. -/
def pollChanges (p : Poll) : Poll :=
  { p with kernel := applyLog p.kernel p.mChanges, mChanges := [] }

/-- The system drops the filters of a descriptor that is closed. -/
def dropFilters (p : Poll) (fd : Int) : Poll :=
  { p with kernel := fun key => if key.1 = fd then none else p.kernel key }

/-- `Event::set_file_descriptor` -/
def setFileDescriptor (p : Poll) (e : EventId) (fd : Int) : Poll :=
  { p with events := Function.update p.events e { p.events e with mFileDesc := fd } }

/-- The calls that change the poll. -/
inductive Call where
  | openEvent (e : EventId) : Call
  | openAndInsertRead (e : EventId) : Call
  | openAndInsertReadWrite (e : EventId) : Call
  | openAndInsertWrite (e : EventId) : Call
  | close (e : EventId) : Call
  | insertRead (e : EventId) : Call
  | insertWrite (e : EventId) : Call
  | insertError (e : EventId) : Call
  | removeRead (e : EventId) : Call
  | removeWrite (e : EventId) : Call
  | removeError (e : EventId) : Call
  | removeAndClose (e : EventId) : Call

def Call.event : Call → EventId
  | .openEvent e | .openAndInsertRead e | .openAndInsertReadWrite e => e
  | .openAndInsertWrite e | .close e => e
  | .insertRead e | .insertWrite e | .insertError e => e
  | .removeRead e | .removeWrite e | .removeError e | .removeAndClose e => e

def Call.perform (p : Poll) : Call → Result
  | .openEvent e => ShmIpcPoll.openEvent p e
  | .openAndInsertRead e => ShmIpcPoll.openAndInsertRead p e
  | .openAndInsertReadWrite e => ShmIpcPoll.openAndInsertReadWrite p e
  | .openAndInsertWrite e => ShmIpcPoll.openAndInsertWrite p e
  | .close e => ShmIpcPoll.close p e
  | .insertRead e => ShmIpcPoll.insertRead p e
  | .insertWrite e => ShmIpcPoll.insertWrite p e
  | .insertError e => ShmIpcPoll.insertError p e
  | .removeRead e => ShmIpcPoll.removeRead p e
  | .removeWrite e => ShmIpcPoll.removeWrite p e
  | .removeError e => ShmIpcPoll.removeError p e
  | .removeAndClose e => ShmIpcPoll.removeAndClose p e

/-! ## Dispatch -/

/-- The kinds of entries `kevent` returns, `EVFILT_USER` among them. -/
inductive EventFilter where
  | read | write | user
  deriving DecidableEq

/-- A `struct kevent` as `process` looks at it: its filter, `EV_ERROR` in its flags, its `udata`. -/
structure Entry where
  filter : EventFilter
  evError : Bool
  udata : Udata

/-- Which member of `Event` is called. -/
inductive Callback where
  | eventRead | eventWrite | eventError
  deriving DecidableEq

/-- How the body of the loop in `process` goes on for one entry. -/
inductive Dispatch where
  | skip : Dispatch
  | throws (msg : String) : Dispatch
  | call (callback : Callback) (q : PollEventId) : Dispatch

/-- The body up to a callback. A null `udata` comes with `EVFILT_USER` and without `EV_ERROR`
only. -/
def dispatch (p : Poll) (entry : Entry) : Dispatch :=
  match entry.udata with
  | none => .skip
  | some q =>
    let pollEvent := p.pollEvents q
    if entry.evError then
      match pollEvent.event with
      | none => .skip
      | some e =>
        if pollEvent.mask &&& flagError = 0 then
          .throws ("Poll::process() received error event for event not in error: " ++
            printNameFdStr (p.events e))
        else .call .eventError q
    else if entry.filter = .read ∧ pollEvent.mask &&& flagRead ≠ 0 then .call .eventRead q
    else if entry.filter = .write ∧ pollEvent.mask &&& flagWrite ≠ 0 then .call .eventWrite q
    else .skip

/-- The check behind a callback, with the name that was taken in front of it. -/
def afterCallback (p : Poll) (callback : Callback) (q : PollEventId) (info : String) :
    Except String Unit :=
  if callback = .eventError ∧ (p.pollEvents q).mask ≠ 0 then
    .error ("Poll::process() event_error called but event mask not cleared: " ++ info)
  else .ok ()

/-- Where the thread of the poll stands: outside of `process`, in its loop in front of the entries
`rest`, or inside a callback, with the name that was taken in front of it. -/
inductive Place where
  | outside : Place
  | walking (rest : List Entry) : Place
  | calling (callback : Callback) (q : PollEventId) (info : String) (rest : List Entry) : Place

/-- `count` is what `process` is going to return. -/
structure Loop where
  poll : Poll
  place : Place
  count : Nat

inductive Act where
  | call (c : Call) : Act
  | setFileDescriptor (e : EventId) (fd : Int) : Act
  | closeDescriptor (fd : Int) : Act
  | interrupted : Act
  | doPoll (batch : List Entry) : Act
  | next : Act
  | returned : Act
  | thrown : Act
  | finish : Act

/-- The name in `event_info`. -/
def eventInfo (p : Poll) (q : PollEventId) : String :=
  match (p.pollEvents q).event with
  | some e => printNameFdStr (p.events e)
  | none => ""

/-- One act of the program or of the system. Calls are made from outside and from callbacks; a
call that throws keeps its effects, and an exception that leaves `process` ends it where it is. -/
def step (m : Loop) : Act → Option Loop
  | .call c =>
    match m.place with
    | .walking _ => none
    | _ => some { m with poll := (c.perform m.poll).2 }
  | .setFileDescriptor e fd =>
    match m.place with
    | .walking _ => none
    | _ => some { m with poll := ShmIpcPoll.setFileDescriptor m.poll e fd }
  | .closeDescriptor fd =>
    match m.place with
    | .walking _ => none
    | _ => some { m with poll := dropFilters m.poll fd }
  -- `kevent` fails with `EINTR` and `do_poll` returns
  | .interrupted =>
    match m.place with
    | .outside => some { m with poll := pollChanges m.poll }
    | _ => none
  | .doPoll batch =>
    match m.place with
    | .outside => some {
        poll := { pollChanges m.poll with mProcessing := true, mClosedEvents := [] }
        place := .walking batch
        count := 0 }
    | _ => none
  | .next =>
    match m.place with
    | .walking (entry :: rest) =>
      match dispatch m.poll entry with
      | .skip =>
        some { m with
          place := .walking rest, count := if entry.evError then m.count + 1 else m.count }
      | .throws _ => some { m with place := .outside }
      | .call callback q => some { m with
          place := .calling callback q (eventInfo m.poll q) rest
          count := m.count + 1 }
    | _ => none
  | .returned =>
    match m.place with
    | .calling callback q info rest =>
      match afterCallback m.poll callback q info with
      | .ok () => some { m with place := .walking rest }
      | .error _ => some { m with place := .outside }
    | _ => none
  | .thrown =>
    match m.place with
    | .calling _ _ _ _ => some { m with place := .outside }
    | _ => none
  | .finish =>
    match m.place with
    | .walking [] => some { m with
        poll := { m.poll with mProcessing := false, mClosedEvents := [] }
        place := .outside }
    | _ => none

/-- An entry is for the user event, or for a `PollEvent` that is in the table. -/
def Returned (p : Poll) (entry : Entry) : Prop :=
  (entry.filter = .user ∧ entry.evError = false ∧ entry.udata = none) ∨
    ∃ q fd, entry.udata = some q ∧ p.mTable fd = some q

/-- What the program and the system keep to: an `Event` keeps its descriptor as long as it is open
in the poll, a descriptor in the table is not closed, and the entries are those of the table. -/
def Admitted (m : Loop) : Act → Prop
  | .setFileDescriptor e _ => (m.poll.events e).mPollEvent = none
  | .closeDescriptor fd => m.poll.mTable fd = none
  | .doPoll batch => ∀ entry ∈ batch, Returned m.poll entry
  | _ => True

/-- A thread right after `Poll::create`, with any number of events. -/
def Created (m : Loop) : Prop :=
  ∃ events, (∀ e, (events e).mPollEvent = none) ∧ m = ⟨create events, .outside, 0⟩

end ShmIpcPoll
