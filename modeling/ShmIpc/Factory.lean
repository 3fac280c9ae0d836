import ShmIpc.Descriptors
import ShmIpc.Handshake
import ShmIpc.LabelledRun
import ShmIpc.WakeupPair

/-!
# The factory

`RouterFactory::initialize`, the `fork` of `main`, and `create_parent_router` and
`create_child_router` with the constructor of the router, call by call, as far as
they deal with descriptors. The left process is the parent.
-/
namespace ShmIpcFactory

open Descriptors LabelledRun
open Handshake (Side)
open ShmIpcWakeupPair (Build)

/-- The members `m_control_fds`, `m_keepalive_fds` and `m_wakeup_fds` of the factory. -/
inductive Pair where
  | control | keepalive | wakeup
  deriving DecidableEq

/-- What a descriptor of the factory refers to. -/
inductive File where
  | endOf (pair : Pair) (side : Side) : File
  | event : File
  deriving DecidableEq

/-- The descriptor for a side; with `USE_EVENT_FD` both sides share the one for wakeups. -/
def file (build : Build) (pair : Pair) (side : Side) : File :=
  match build, pair with
  | .eventFd, .wakeup => .event
  | _, _ => .endOf pair side

/-! ## Scripts -/

inductive Call where
  /-- `socketpair` or `eventfd` -/
  | create (pair : Pair) : Call
  /-- the timeouts and `O_NONBLOCK` of an end -/
  | setUp (pair : Pair) (side : Side) : Call
  | close (pair : Pair) (side : Side) : Call
  | setCloseOnExec (pair : Pair) (side : Side) : Call
  deriving DecidableEq

def createSocketPair (pair : Pair) : List Call :=
  [.create pair, .setUp pair .left, .setUp pair .right]

/-- `WakeupFd::create_fd_pair` -/
def createFdPair : Build → List Call
  | .eventFd => [.create .wakeup]
  | .socketPair => createSocketPair .wakeup

/-- `RouterFactory::initialize` behind the segments -/
def factoryInitialize (build : Build) : List Call :=
  createSocketPair .control ++ createSocketPair .keepalive ++ createFdPair build

/-- `WakeupFd::open` -/
def wakeupOpen (a : Side) : Build → List Call
  | .eventFd => [.setCloseOnExec .wakeup a]
  | .socketPair => [.close .wakeup a.other, .setCloseOnExec .wakeup a]

/-- What `create_parent_router` and `create_child_router` share. -/
def createRouter (build : Build) (a : Side) : List Call :=
  [.close .control a.other, .close .keepalive a.other, .setCloseOnExec .control a,
    .setCloseOnExec .keepalive a] ++ wakeupOpen a build

def createParentRouter (build : Build) : List Call := createRouter build .left
def createChildRouter (build : Build) : List Call := createRouter build .right

/-! ## Processes -/

/-- Where a process stands: in front of the rest of a script, or with its router, of which the
control and the wakeup descriptor may have been closed. -/
inductive Place where
  | absent : Place
  | initializing (todo : List Call) : Place
  | creating (todo : List Call) : Place
  | ready (control wakeup : Bool) : Place
  | gone : Place
  deriving DecidableEq

structure Process where
  table : Table File
  place : Place

/-- `fds` are the members of the factory, which the child inherits. -/
structure System where
  fds : Pair → Side → Nat
  processes : Side → Process

def System.set (s : System) (a : Side) (p : Process) : System :=
  { s with processes := Function.update s.processes a p }

inductive Act where
  /-- the next call of the script; `socketpair` chooses the two numbers, `eventfd` the first one -/
  | call (a : Side) (fd₁ fd₂ : Nat) : Act
  | fork : Act
  /-- the constructor of the router returns -/
  | created (a : Side) : Act
  | closeControl (a : Side) : Act
  | closeWakeup (a : Side) : Act
  /-- a return from `main`, an exception that nobody catches, or a signal -/
  | exit (a : Side) : Act

variable (build : Build) (sockCloexec : Bool)

/-- The table behind a `create`. -/
def opened (t : Table File) (pair : Pair) (fd₁ fd₂ : Nat) : Table File :=
  match file build pair .left with
  | .event => t.open fd₁ ⟨.event, false⟩
  | .endOf .. => (t.open fd₁ ⟨.endOf pair .left, sockCloexec⟩).open fd₂
      ⟨.endOf pair .right, sockCloexec⟩

/-- The numbers that a `create` stores. -/
def numbered (pair : Pair) (fd₁ fd₂ : Nat) : Side → Nat
  | .left => fd₁
  | .right => if file build pair .left = .event then fd₁ else fd₂

/-- One call of a process, which goes on at `place`. There is no next state if the call throws, as
`fd_close` does for the numbers of stdin, stdout and stderr. -/
def perform (s : System) (a : Side) (place : Place) (fd₁ fd₂ : Nat) : Call → Option System
  | .create pair =>
    if ((s.processes a).table fd₁).isNone ∧ ((s.processes a).table fd₂).isNone ∧ fd₁ ≠ fd₂ then
      some { s.set a ⟨opened build sockCloexec (s.processes a).table pair fd₁ fd₂, place⟩ with
        fds := Function.update s.fds pair (numbered build pair fd₁ fd₂) }
    else none
  | .setUp .. => some (s.set a ⟨(s.processes a).table, place⟩)
  | .close pair side =>
    if pair = .wakeup ∧ s.fds pair side ≤ 2 then none
    else some (s.set a ⟨(s.processes a).table.close (s.fds pair side), place⟩)
  | .setCloseOnExec pair side =>
    some (s.set a ⟨(s.processes a).table.setCloseOnExec (s.fds pair side), place⟩)

def step (s : System) : Act → Option System
  | .call a fd₁ fd₂ =>
    match (s.processes a).place with
    | .initializing (c :: todo) => perform build sockCloexec s a (.initializing todo) fd₁ fd₂ c
    | .creating (c :: todo) => perform build sockCloexec s a (.creating todo) fd₁ fd₂ c
    | _ => none
  | .fork =>
    if (s.processes .left).place = .initializing [] then
      some ((s.set .left ⟨(s.processes .left).table, .creating (createParentRouter build)⟩).set
        .right ⟨(s.processes .left).table, .creating (createChildRouter build)⟩)
    else none
  | .created a =>
    if (s.processes a).place = .creating
      [] then some (s.set a ⟨(s.processes a).table, .ready true true⟩) else none
  | .closeControl a =>
    match (s.processes a).place with
    | .ready true wakeup =>
      if s.fds .control a ≤ 2 then none
      else some (s.set a ⟨(s.processes a).table.close (s.fds .control a), .ready false wakeup⟩)
    | _ => none
  | .closeWakeup a =>
    match (s.processes a).place with
    | .ready control true =>
      if s.fds .wakeup a ≤ 2 then none
      else some (s.set a ⟨(s.processes a).table.close (s.fds .wakeup a), .ready control false⟩)
    | _ => none
  | .exit a =>
    match (s.processes a).place with
    | .absent | .gone => none
    | _ => some (s.set a ⟨Table.empty, .gone⟩)

/-- The parent in front of `initialize`, with an empty table: what it has inherited itself refers to
none of the files of the model. -/
structure Started (s : System) : Prop where
  parent : (s.processes .left).place = .initializing (factoryInitialize build)
  others : ∀ x, numbers (s.processes .left).table x = ∅
  child : s.processes .right = ⟨Table.empty, .absent⟩

end ShmIpcFactory
