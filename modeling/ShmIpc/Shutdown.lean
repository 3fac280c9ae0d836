import ShmIpc.ControlKinds
import ShmIpc.Handshake
import ShmIpc.LabelledRun

/-!
# Shutting down

Literal transcription of the loops of `parent_process` and `child_process`, of
the slots they register with the control descriptor, of the signal handlers of
`main.cc` and of what `main` does behind an exception, as far as they decide when
a process stops. The left side is the parent. Messages are whole: a frame is far
smaller than the socket buffer.
-/
namespace ShmIpcShutdown

open Handshake (Side)
open LabelledRun ShmIpcControlFd ShmIpcControlKinds

/-! ## Processes -/

/-- Where a process stands. -/
inductive Place where
  /-- behind `register_signal_shutdown`, in front of the loop -/
  | setup
  /-- in front of the test of `g_should_shutdown` -/
  | top
  /-- in `send_graceful_shutdown` or `send_forceful_shutdown` -/
  | sending (graceful : Bool)
  /-- in the rest of the round, up to the batch of `do_poll` -/
  | body
  /-- behind the entry of the control descriptor in that batch -/
  | polled
  /-- in the destructor of the future of `WakeupFd::event_read` -/
  | blocked
  /-- in front of the last `close_fds` -/
  | leaving
  /-- in the `::wait` of `main`, behind an exception in front of the `try` -/
  | waiting
  | gone
  deriving DecidableEq

/-- The flags of `main.cc`, `shutdown_timestamp` (zero as long as it is not set) and which of the
two descriptors are open. `inbox` has been sent to the process and not been received, `received`
has. -/
structure Process where
  place : Place
  shouldShutdown : Bool
  shouldGracefulShutdown : Bool
  shouldForcedShutdown : Bool
  controlFdClosed : Bool
  shutdownTimestamp : Nat
  controlFd : Bool
  wakeupFd : Bool
  inbox : List (List UInt8)
  received : List (List UInt8)
  sent : List (List UInt8)

/-- `now` is what `steady_clock` shows, in nanoseconds. -/
structure System where
  processes : Side → Process
  now : Nat

def System.set (s : System) (a : Side) (p : Process) : System :=
  { s with processes := Function.update s.processes a p }

/-- The `5s` behind which a process waits no longer for the other one. -/
def patience : Nat := 5000000000

def Process.closeFds (p : Process) : Process := { p with controlFd := false, wakeupFd := false }

/-- The end of a process closes whatever is still open. -/
def Process.exit (p : Process) : Process := { p.closeFds with place := .gone }

/-! ## The slots of the control descriptor -/

def handleControlClosed (p : Process) : Process :=
  { p with shouldShutdown := true, controlFdClosed := true }.closeFds

def handleControlShutdown (graceful : Bool) (p : Process) : Process :=
  { p with
    shouldShutdown := true, shouldGracefulShutdown := graceful, shouldForcedShutdown := !graceful }

/-- What `event_read` does with the next message, and where it leaves the process. -/
def Process.receive (p : Process) (msg : List UInt8) : Process :=
  match dispatch msg with
  | .slotShutdown graceful => { handleControlShutdown graceful p with place := .polled }
  | .throws _ _ => { p with place := .leaving }
  | _ => { p with place := .polled }

/-! ## The head of the loop -/

/-- From the test of `g_should_shutdown` to where the round goes on. -/
def headOfLoop (a : Side) (now : Nat) (p : Process) : Process :=
  if p.shouldShutdown then
    if p.controlFdClosed then { p with place := .leaving }
    else if a = .right ∧ p.shouldGracefulShutdown then { p with place := .leaving }
    else if a = .right ∧ p.shouldForcedShutdown then { p with place := .leaving }
    else if p.shutdownTimestamp = 0 then { p with shutdownTimestamp := now, place := .sending true }
    else if patience < now - p.shutdownTimestamp then { p with place := .sending false }
    else { p with place := .body }
  else { p with place := .body }

def shutdownMsg (graceful : Bool) : List UInt8 :=
  (if graceful then Call.sendGracefulShutdown else Call.sendForcefulShutdown).payload

/-- How the text of `do_panic` begins. -/
def panicText : List UInt8 := ascii "Process terminated due to signal: g_router : "

/-! ## Steps -/

inductive Act where
  /-- the descriptors are put into the poll, and the loop begins -/
  | start
  /-- SIGTERM or SIGINT -/
  | signal
  | test
  /-- the message of the place `sending` is sent -/
  | send
  /-- an exception, also one for a message that cannot be sent -/
  | throw
  /-- the `::wait` returns, and `main` -/
  | wait
  /-- the batch of `do_poll` has nothing for the control descriptor -/
  | poll
  /-- the batch calls `ControlFd::event_read` -/
  | receive
  /-- the batch calls `WakeupFd::event_read` at the end of the peer's stream, in front of the entry
  of the control descriptor or behind it -/
  | wakeupClosed
  /-- the rest of the round behind the batch -/
  | endRound
  | closeFds
  /-- the `exit(220)` -/
  | exit
  /-- a signal that ends in `do_panic`, with the rest of its text -/
  | panic (stack : List UInt8)
  /-- SIGKILL -/
  | kill

inductive Label where
  | tick : Label
  | act (a : Side) (act : Act) : Label

/-- A message on its way to the other side. -/
def System.post (s : System) (a : Side) (msg : List UInt8) : System where
  processes b := if b = a then { s.processes a with sent := (s.processes a).sent ++ [msg] }
    else { s.processes b with inbox := (s.processes b).inbox ++ [msg] }
  now := s.now

/-- `send` meets an open descriptor on both sides. -/
def System.canSend (s : System) (a : Side) : Bool :=
  (s.processes a).controlFd && (s.processes a.other).controlFd

/-- `recv` on the control descriptor has something to return: a message, or the end of the
stream. -/
def System.readable (s : System) (a : Side) : Bool :=
  !(s.processes a).inbox.isEmpty || !(s.processes a.other).controlFd

def actStep (s : System) (a : Side) : Act → Option System
  | .start =>
    if (s.processes a).place = .setup then some (s.set a { s.processes a with place := .top })
      else none
  | .signal =>
    if (s.processes a).place = .gone then none
      else some (s.set a { s.processes a with shouldShutdown := true })
  | .test =>
    if (s.processes a).place = .top then some (s.set a (headOfLoop a s.now (s.processes a)))
      else none
  | .send =>
    match (s.processes a).place with
    | .sending graceful =>
      if s.canSend a then
        some ((s.set a { s.processes a with place := if graceful then .top else .leaving }).post a
          (shutdownMsg graceful))
      else none
    | _ => none
  | .throw =>
    match (s.processes a).place with
    -- in front of the `try` nothing closes the descriptors but the end of the process, and the
    -- parent waits for the child first
    | .setup =>
      if a = .left then some (s.set a { s.processes a with place := .waiting })
      else some (s.set a (s.processes a).exit)
    | .sending _ | .body | .polled => some (s.set a { s.processes a with place := .leaving })
    | _ => none
  | .wait =>
    if a = .left ∧ (s.processes a).place = .waiting ∧ (s.processes a.other).place = .gone then
      some (s.set a (s.processes a).exit)
    else none
  | .poll =>
    if (s.processes a).place = .body then some (s.set a { s.processes a with place := .polled })
      else none
  | .receive =>
    if (s.processes a).place = .body ∧ (s.processes a).controlFd then
      match (s.processes a).inbox with
      | msg :: rest => some (s.set a
          ({ s.processes a with inbox := rest, received := (s.processes
            a).received ++ [msg] }.receive msg))
      | [] =>
        if (s.processes a.other).controlFd then none
        else some (s.set a { handleControlClosed (s.processes a) with place := .polled })
    else none
  | .wakeupClosed =>
    if ((s.processes a).place = .body ∨ (s.processes a).place = .polled) ∧
        (s.processes a).wakeupFd ∧ !(s.processes a.other).wakeupFd then
      some (s.set a { s.processes a with wakeupFd := false, place := .blocked })
    else none
  | .endRound =>
    if (s.processes a).place = .polled then some (s.set a { s.processes a with place := .top })
      else none
  | .closeFds =>
    if (s.processes a).place = .leaving then some (s.set a (s.processes a).exit) else none
  | .exit =>
    if (s.processes a).place = .blocked then some (s.set a (s.processes a).exit) else none
  | .panic stack =>
    if (s.processes a).place = .gone then none
    -- only the child has a `g_router`
    else if a = .right ∧ s.canSend a ∧ (panicText ++ stack).length ≤ maxMessageSize then
      some ((s.post a (panicText ++ stack)).set a
        ((s.post a (panicText ++ stack)).processes a).exit)
    else some (s.set a (s.processes a).exit)
  | .kill => if (s.processes a).place = .gone then none else some (s.set a (s.processes a).exit)

def step (s : System) : Label → Option System
  | .tick => some { s with now := s.now + 1 }
  | .act a act => actStep s a act

/-- A process right after `register_signal_shutdown`. -/
def Process.created : Process where
  place := .setup
  shouldShutdown := false
  shouldGracefulShutdown := false
  shouldForcedShutdown := false
  controlFdClosed := false
  shutdownTimestamp := 0
  controlFd := true
  wakeupFd := true
  inbox := []
  received := []
  sent := []

/-- Both processes are about to run, on a machine that has been up for some time. -/
def Started (s : System) : Prop := (∀ a, s.processes a = Process.created) ∧ 0 < s.now

/-! ## What a step can do -/

/-- The steps that only move on. -/
inductive Moves : Act → Place → Place → Prop where
  | start : Moves .start .setup .top
  | poll : Moves .poll .body .polled
  | endRound : Moves .endRound .polled .top
  | throwSending (graceful : Bool) : Moves .throw (.sending graceful) .leaving
  | throwBody : Moves .throw .body .leaving
  | throwPolled : Moves .throw .polled .leaving

/-- The steps that end a process, and from where. -/
inductive Ends : Act → Place → Prop where
  | throw : Ends .throw .setup
  | closeFds : Ends .closeFds .leaving
  | exit : Ends .exit .blocked
  | panic {place : Place} (stack : List UInt8) : place ≠ .gone → Ends (.panic stack) place
  | kill {place : Place} : place ≠ .gone → Ends .kill place

inductive Effect (s : System) (a : Side) : Act → System → Prop where
  | moved {act : Act} {place : Place} : Moves act (s.processes a).place place →
      Effect s a act (s.set a { s.processes a with place := place })
  | signalled : (s.processes a).place ≠ .gone →
      Effect s a .signal (s.set a { s.processes a with shouldShutdown := true })
  | tested : (s.processes a).place = .top →
      Effect s a .test (s.set a (headOfLoop a s.now (s.processes a)))
  | sent {graceful : Bool} : (s.processes a).place = .sending graceful → s.canSend a = true →
      Effect s a .send
        ((s.set a { s.processes a with place := if graceful then .top else .leaving }).post a
        (shutdownMsg graceful))
  | message {msg : List UInt8} {rest : List (List UInt8)} : (s.processes a).place = .body →
      (s.processes a).controlFd = true → (s.processes a).inbox = msg :: rest →
      Effect s a .receive (s.set a ({ s.processes a with
        inbox := rest, received := (s.processes a).received ++ [msg] }.receive msg))
  | closed : (s.processes a).place = .body → (s.processes a).controlFd = true →
      (s.processes a).inbox = [] → (s.processes a.other).controlFd = false →
      Effect s a .receive (s.set a { handleControlClosed (s.processes a) with place := .polled })
  | waits : a = .left → (s.processes a).place = .setup →
      Effect s a .throw (s.set a { s.processes a with place := .waiting })
  | reaps : a = .left → (s.processes a).place = .waiting → (s.processes a.other).place = .gone →
      Effect s a .wait (s.set a (s.processes a).exit)
  | wakeupClosed : (s.processes a).place = .body ∨ (s.processes a).place = .polled →
      (s.processes a).wakeupFd = true → (s.processes a.other).wakeupFd = false →
      Effect s a .wakeupClosed (s.set a { s.processes a with wakeupFd := false, place := .blocked })
  | panicked {stack : List UInt8} : (s.processes a).place ≠ .gone → s.canSend a = true →
      Effect s a (.panic stack) ((s.post a (panicText ++ stack)).set a
        ((s.post a (panicText ++ stack)).processes a).exit)
  | ended {act : Act} : Ends act (s.processes a).place →
      Effect s a act (s.set a (s.processes a).exit)

theorem effect_of_step {s t : System} {a : Side} {act : Act} (h : actStep s a act = some t) :
    Effect s a act t := by
  cases act with
  | start =>
    simp only [actStep] at h
    split at h
    · rename_i hp
      cases h
      exact .moved (hp ▸ .start)
    · cases h
  | signal =>
    simp only [actStep] at h
    split at h
    · cases h
    · rename_i hp
      cases h
      exact .signalled hp
  | test =>
    simp only [actStep] at h
    split at h
    · rename_i hp
      cases h
      exact .tested hp
    · cases h
  | send =>
    simp only [actStep] at h
    split at h
    · rename_i hp
      split at h
      · rename_i hcan
        cases h
        exact .sent hp hcan
      · cases h
    · cases h
  | throw =>
    simp only [actStep] at h
    split at h
    · rename_i hp
      split at h
      · rename_i ha
        cases h
        exact .waits ha hp
      · cases h
        exact .ended (hp ▸ .throw)
    · rename_i graceful hp
      cases h
      exact .moved (hp ▸ .throwSending graceful)
    · rename_i hp
      cases h
      exact .moved (hp ▸ .throwBody)
    · rename_i hp
      cases h
      exact .moved (hp ▸ .throwPolled)
    · cases h
  | wait =>
    simp only [actStep] at h
    split at h
    · rename_i hp
      cases h
      exact .reaps hp.1 hp.2.1 hp.2.2
    · cases h
  | poll =>
    simp only [actStep] at h
    split at h
    · rename_i hp
      cases h
      exact .moved (hp ▸ .poll)
    · cases h
  | receive =>
    simp only [actStep] at h
    split at h
    · rename_i hp
      split at h
      · rename_i hin
        cases h
        exact .message hp.1 hp.2 hin
      · rename_i hin
        split at h
        · cases h
        · rename_i hpeer
          cases h
          exact .closed hp.1 hp.2 hin (Bool.eq_false_iff.mpr hpeer)
    · cases h
  | wakeupClosed =>
    simp only [actStep] at h
    split at h
    · rename_i hp
      cases h
      exact .wakeupClosed hp.1 hp.2.1 (by simpa using hp.2.2)
    · cases h
  | endRound =>
    simp only [actStep] at h
    split at h
    · rename_i hp
      cases h
      exact .moved (hp ▸ .endRound)
    · cases h
  | closeFds =>
    simp only [actStep] at h
    split at h
    · rename_i hp
      cases h
      exact .ended (hp ▸ .closeFds)
    · cases h
  | exit =>
    simp only [actStep] at h
    split at h
    · rename_i hp
      cases h
      exact .ended (hp ▸ .exit)
    · cases h
  | panic stack =>
    simp only [actStep] at h
    split at h
    · cases h
    · rename_i hp
      split at h
      · rename_i hsend
        cases h
        exact .panicked hp hsend.2.1
      · cases h
        exact .ended (.panic stack hp)
  | kill =>
    simp only [actStep] at h
    split at h
    · cases h
    · rename_i hp
      cases h
      exact .ended (.kill hp)

/-- The child stops as soon as it has been told to, the parent waits for the child. -/
def Told (a : Side) (p : Process) : Prop :=
  a = .right ∧ (p.shouldGracefulShutdown = true ∨ p.shouldForcedShutdown = true)

/-- The ways out of the test at the head of the loop. -/
inductive Head (a : Side) (now : Nat) (p : Process) : Process → Prop where
  | running : p.shouldShutdown = false → Head a now p { p with place := .body }
  | controlClosed : p.shouldShutdown = true → p.controlFdClosed = true →
      Head a now p { p with place := .leaving }
  | told : p.shouldShutdown = true → p.controlFdClosed = false → Told a p →
      Head a now p { p with place := .leaving }
  | first : p.shouldShutdown = true → p.controlFdClosed = false → ¬ Told a p →
      p.shutdownTimestamp = 0 → Head a now p
      { p with shutdownTimestamp := now, place := .sending true }
  | late : p.shouldShutdown = true → p.controlFdClosed = false → ¬ Told a p →
      p.shutdownTimestamp ≠ 0 → patience < now - p.shutdownTimestamp →
      Head a now p { p with place := .sending false }
  | waiting : p.shouldShutdown = true → p.controlFdClosed = false → ¬ Told a p →
      p.shutdownTimestamp ≠ 0 → now - p.shutdownTimestamp ≤ patience →
      Head a now p { p with place := .body }

theorem head_cases (a : Side) (now : Nat) (p : Process) : Head a now p (headOfLoop a now p) := by
  unfold headOfLoop
  split
  case isFalse h => exact .running (Bool.eq_false_iff.mpr h)
  case isTrue h =>
    split
    case isTrue hc => exact .controlClosed h hc
    case isFalse hc =>
      have hc := Bool.eq_false_iff.mpr hc
      split
      case isTrue hg => exact .told h hc ⟨hg.1, .inl hg.2⟩
      case isFalse hg =>
        split
        case isTrue hf => exact .told h hc ⟨hf.1, .inr hf.2⟩
        case isFalse hf =>
          have hnot : ¬ Told a p := fun ht => ht.2.elim (fun h => hg ⟨ht.1, h⟩)
            fun h => hf ⟨ht.1, h⟩
          split
          case isTrue h0 => exact .first h hc hnot h0
          case isFalse h0 =>
            split
            case isTrue hlate => exact .late h hc hnot h0 hlate
            case isFalse hlate => exact .waiting h hc hnot h0 (Nat.not_lt.mp hlate)

end ShmIpcShutdown
