import ShmIpc.PollProcess
import ShmIpc.RouterFds

/-!
# A process and its poll

Literal transcription of `parent_process` and `child_process` from `open_fds` on,
as far as they use the poll of the thread, which no one else uses. The second
call of `process` in a round finds no events and is left out.
-/
namespace ShmIpcProcessPoll

open LabelledRun ShmIpcPoll ShmIpcPollTable ShmIpcRouterFds
open ShmIpcControlFd (Tape)

/-- Where a process stands. -/
inductive Place where
  /-- in front of `open_fds` -/
  | setup
  /-- in the loop and outside of `process` -/
  | looping
  /-- in `process` -/
  | processing
  /-- in the destructor of the future of `WakeupFd::event_read` -/
  | blocked
  /-- in front of the last `close_fds` -/
  | leaving
  /-- in front of the destructors of the Router and of the poll -/
  | returned
  /-- behind `::exit(220)`, in front of the destructor of the poll -/
  | exited
  deriving DecidableEq

structure Process where
  place : Place
  router : State

inductive Act where
  | openFds
  /-- `kevent` fails with `EINTR` -/
  | interrupted
  | doPoll (batch : List Entry)
  /-- `process` looks at the next entry -/
  | next
  | controlEventRead (tape : Tape)
  | wakeupEventRead (reads : List Read)
  /-- `event_write` or `event_error`, which throw for both descriptors -/
  | eventThrows
  /-- `process` returns -/
  | finish
  /-- a `break`, or an exception from elsewhere in the loop -/
  | leave
  | closeFds
  /-- the `exit(220)` of the future -/
  | exit

/-- An act of the loop of the poll. -/
def Process.onLoop (p : Process) (place : Place) (a : ShmIpcPoll.Act) : Option Process :=
  (ShmIpcPoll.step p.router.loop a).map fun loop =>
    ⟨place, ⟨loop, p.router.closes, p.router.made ++ [a]⟩⟩

/-- A callback returns to `process`, or its exception ends the loop. -/
def Process.afterCallback (p : Process) (r : Outcome) : Option Process :=
  if r.1.toBool then Process.onLoop ⟨p.place, p.router.put r⟩ .processing .returned
  else Process.onLoop ⟨p.place, p.router.put r⟩ .leaving .thrown

/-- The next entry makes `process` throw. -/
def nextThrows (m : Loop) : Bool :=
  match m.place with
  | .walking (entry :: _) =>
    match dispatch m.poll entry with
    | .throws _ => true
    | _ => false
  | _ => false

/-- The running callback is not `event_read`. -/
def throwing (m : Loop) : Bool :=
  match m.place with
  | .calling callback _ _ _ => callback ≠ .eventRead
  | _ => false

/-- `WakeupFd::event_read` meets the end of the stream. -/
def meetsEnd : List Read → Bool
  | .zero :: _ => true
  | .failed e :: reads => if e = .EINTR then meetsEnd reads else false
  | _ => false

def step (p : Process) : Act → Option Process
  | .openFds =>
    if p.place = .setup then
      some ⟨if (openFds p.router.fds).1.toBool then .looping else .returned,
        p.router.put (openFds p.router.fds)⟩
    else none
  | .interrupted => if p.place = .looping then p.onLoop .looping .interrupted else none
  | .doPoll batch => if p.place = .looping then p.onLoop .processing (.doPoll batch) else none
  | .next =>
    if p.place = .processing then p.onLoop
      (if nextThrows p.router.loop then .leaving else .processing) .next else none
  | .controlEventRead tape =>
    if p.place = .processing ∧ reading p.router.loop control then
      (controlEventRead p.router.fds tape).bind p.afterCallback
    else none
  | .wakeupEventRead reads =>
    if p.place = .processing ∧ reading p.router.loop wakeup then
      (wakeupEventRead p.router.fds reads).bind fun r =>
        if r.1.toBool && meetsEnd reads then some ⟨.blocked, p.router.put r⟩ else p.afterCallback r
    else none
  | .eventThrows =>
    if p.place = .processing ∧ throwing p.router.loop then p.onLoop .leaving .thrown else none
  | .finish => if p.place = .processing then p.onLoop .looping .finish else none
  | .leave => if p.place = .looping then some { p with place := .leaving } else none
  | .closeFds =>
    if p.place = .leaving then some ⟨.returned, p.router.put (closeFds p.router.fds)⟩ else none
  | .exit => if p.place = .blocked then some { p with place := .exited } else none

/-- `kevent` returns entries for what is in the table. -/
def Admitted (p : Process) : Act → Prop
  | .doPoll batch => ∀ entry ∈ batch, Returned p.router.loop.poll entry
  | _ => True

/-- The Router has been constructed over two descriptors of its own, and its thread has a new
poll. -/
structure Started (p : Process) : Prop where
  place : p.place = .setup
  closes : p.router.closes = []
  made : p.router.made = []
  created : Created p.router.loop
  valid : ∀ e, Mine e → 2 < (p.router.loop.poll.events e).mFileDesc
  distinct : ∀ e, Mine e → ∀ e', e' ≠ e →
    (p.router.loop.poll.events e').mFileDesc ≠ (p.router.loop.poll.events e).mFileDesc

/-- The assertion of `Event::~Event`. -/
def EventAssertion (p : Poll) (e : EventId) : Prop := (p.events e).mPollEvent = none

/-- The assertion of `Poll::~Poll`. -/
def PollAssertion (p : Poll) : Prop := ∀ fd, p.mTable fd = none

end ShmIpcProcessPoll
