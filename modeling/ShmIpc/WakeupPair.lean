import Mathlib.Algebra.Group.Nat.Defs
import ShmIpc.LabelledRun
import ShmIpc.Handshake

/-!
# The two builds of the wakeup descriptors

`WakeupFd` is compiled over a socket pair or, with `USE_EVENT_FD`, over one
event descriptor that both processes share. An interrupt is owed to a side from
the `send_interrupt` of the other side until its own `event_read`; the
descriptor of a side it is owed to should stay readable.
-/
namespace ShmIpcWakeupPair

open LabelledRun Handshake

abbrev Fd := Nat

/-- Whether `USE_EVENT_FD` is defined. -/
inductive Build where
  | eventFd | socketPair
  deriving DecidableEq

/-- `WakeupFd::create_fd_pair`, with the descriptors the system hands out. -/
def createFdPair : Build → Fd → Fd → Fd × Fd
  | .eventFd, fd, _ => (fd, fd)
  | .socketPair, fd₁, fd₂ => (fd₁, fd₂)

/-- `WakeupFd::open`: the descriptor the event keeps and the one it closes, if any. -/
def wakeupOpen (build : Build) (fdPair : Fd × Fd) (isParent closeOnExec : Bool) :
    Except String (Fd × Option Fd) := do
  let kept ← match build with
    | .eventFd =>
      if fdPair.1 ≠ fdPair.2 then
        .error "WakeupFd::add_to_poll() eventfd should have the same fd for both ends"
      else .ok (fdPair.1, none)
    | .socketPair =>
      if isParent then .ok (fdPair.1, some fdPair.2) else .ok (fdPair.2, some fdPair.1)
  if closeOnExec then .ok kept
  else .error "WakeupFd::add_to_poll() fd_set_close_on_exec() failed"

theorem open_eventFd (fd : Fd) (isParent : Bool) :
    wakeupOpen .eventFd (fd, fd) isParent true = .ok (fd, none) := by
  simp only [wakeupOpen, ne_eq, not_true_eq_false, ↓reduceIte]
  rfl

theorem open_socketPair (fdPair : Fd × Fd) (isParent : Bool) :
    wakeupOpen .socketPair fdPair isParent true =
      .ok (if isParent then (fdPair.1, some fdPair.2) else (fdPair.2, some fdPair.1)) := by
  cases isParent <;> rfl

/-- `pending` is the counter of an event descriptor, or the bytes waiting at an end of the pair.
`owed a` says that an interrupt was sent to side `a` since its last `event_read`. -/
structure State where
  fdPair : Fd × Fd
  fd : Side → Fd
  pending : Fd → Nat
  owed : Side → Bool

/-- Where a write to `d` becomes readable. -/
def sink (build : Build) (fdPair : Fd × Fd) (d : Fd) : Fd :=
  match build with
  | .eventFd => d
  | .socketPair => if d = fdPair.1 then fdPair.2 else fdPair.1

/-- How much may be pending before a write fails with `EAGAIN`: an event counter stops short of
`2^64 - 1`, and `buffer` is what a socket takes. -/
def room (buffer : Nat) : Build → Nat
  | .eventFd => 2 ^ 64 - 2
  | .socketPair => buffer

/-- What one read leaves pending. -/
def readLeaves : Build → Nat → Nat
  | .eventFd, _ => 0
  | .socketPair, n => n - 1

inductive Act where
  | sendInterrupt (a : Side) : Act
  | eventRead (a : Side) : Act

section Steps

variable (build : Build) (buffer : Nat)

/-- `send_interrupt` returns on `EAGAIN` as well. -/
def sendInterrupt (s : State) (a : Side) : State :=
  let d := sink build s.fdPair (s.fd a)
  { s with
    pending := if s.pending d + 1 ≤ room buffer build then Function.update s.pending d
      (s.pending d + 1) else s.pending
    owed := Function.update s.owed a.other true }

/-- `event_read` of a descriptor with nothing pending fails with `EAGAIN` and returns. -/
def eventRead (s : State) (a : Side) : State :=
  { s with
    pending := Function.update s.pending (s.fd a) (readLeaves build (s.pending (s.fd a)))
    owed := Function.update s.owed a false }

def next (s : State) : Act → State
  | .sendInterrupt a => sendInterrupt build buffer s a
  | .eventRead a => eventRead build s a

def step (s : State) (act : Act) : Option State := some (next build buffer s act)

/-- Both sides have opened the descriptors that the factory made. -/
structure Opened (s : State) : Prop where
  made : ∃ fd₁ fd₂, fd₁ ≠ fd₂ ∧ s.fdPair = createFdPair build fd₁ fd₂
  opened : ∀ a, ∃ closed, wakeupOpen build s.fdPair (a == .left) true = .ok (s.fd a, closed)
  nothing_pending : ∀ d, s.pending d = 0
  nothing_owed : ∀ a, s.owed a = false

end Steps

/-- Every interrupt owed to a side makes its descriptor readable. -/
def Wakes (s : State) : Prop := ∀ a, s.owed a = true → 0 < s.pending (s.fd a)

/-- A side reads only while no interrupt it sent is owed to the other side. -/
def Admitted (s : State) (act : Act) : Prop := ∀ a, act = .eventRead a → s.owed a.other = false

variable {build : Build} {buffer : Nat} {s s₀ : State} {acts : List Act}

/-- A send leaves something to read at its sink and takes nothing away elsewhere. -/
theorem pending_sendInterrupt (hroom : 0 < room buffer build) (a : Side) :
    0 < (sendInterrupt build buffer s a).pending (sink build s.fdPair (s.fd a)) ∧
      ∀ d, s.pending d ≤ (sendInterrupt build buffer s a).pending d := by
  simp only [sendInterrupt]
  split
  · refine ⟨by simp, fun d => ?_⟩
    by_cases hd : d = sink build s.fdPair (s.fd a)
    · subst hd; simp
    · simp [Function.update_of_ne hd]
  · exact ⟨by omega, fun d => Nat.le_refl _⟩

/-- A send keeps what is owed readable if its sink is the descriptor of the other side. -/
theorem wakes_sendInterrupt (hroom : 0 < room buffer build) {a : Side}
    (hsink : sink build s.fdPair (s.fd a) = s.fd a.other) (hs : Wakes s) :
    Wakes (sendInterrupt build buffer s a) := by
  obtain ⟨hnew, hold⟩ := pending_sendInterrupt (s := s) hroom a
  rw [hsink] at hnew
  intro b hb
  by_cases hba : b = a.other
  · subst hba
    exact hnew
  · have hb' : s.owed b = true := by
      rw [← hb]; simp [sendInterrupt, Function.update_of_ne hba]
    exact Nat.lt_of_lt_of_le (hs b hb') (hold (s.fd b))

theorem frame_next (build : Build) (buffer : Nat) (s : State) (act : Act) :
    (next build buffer s act).fd = s.fd ∧ (next build buffer s act).fdPair = s.fdPair := by
  cases act <;> exact ⟨rfl, rfl⟩

/-! ## The socket pair -/

/-- Each side holds its own end. -/
def OwnEnds (s : State) : Prop := s.fdPair = (s.fd .left, s.fd .right) ∧ s.fd .left ≠ s.fd .right

theorem ownEnds_opened (h : Opened .socketPair s) : OwnEnds s := by
  obtain ⟨fd₁, fd₂, hne, hpair⟩ := h.made
  obtain ⟨_, hl⟩ := h.opened .left
  obtain ⟨_, hr⟩ := h.opened .right
  rw [hpair] at hl hr
  simp only [createFdPair, open_socketPair, Except.ok.injEq] at hl hr
  have hl' : fd₁ = s.fd .left := congrArg Prod.fst hl
  have hr' : fd₂ = s.fd .right := congrArg Prod.fst hr
  rw [OwnEnds, hpair, ← hl', ← hr']
  exact ⟨rfl, hne⟩

theorem wakes_socketPair_step (hbuf : 0 < buffer) (ho : OwnEnds s) (hs : Wakes s) (act : Act) :
    Wakes (next .socketPair buffer s act) := by
  obtain ⟨hpair, hne⟩ := ho
  cases act with
  | sendInterrupt a =>
    refine wakes_sendInterrupt (show 0 < room buffer .socketPair from hbuf) ?_ hs
    cases a <;> simp [sink, hpair, Side.other, hne.symm]
  | eventRead a =>
    intro b hb
    have hba : b ≠ a := by
      rintro rfl
      simp [next, eventRead] at hb
    have hfd : s.fd b ≠ s.fd a := by
      cases a <;> cases b <;> simp_all [Ne.symm]
    have hb' : s.owed b = true := by
      rw [← hb]; simp [next, eventRead, Function.update_of_ne hba]
    simpa [next, eventRead, Function.update_of_ne hfd] using hs b hb'

/-- Over a socket pair every interrupt stays readable until the other side reads. -/
theorem socketPair_wakes (hbuf : 0 < buffer) (h₀ : Opened .socketPair s₀)
    (h : Run (ofFun (step .socketPair buffer)) s₀ acts s) : Wakes s := by
  have hinv := h.invariant (fun u => OwnEnds u ∧ Wakes u)
    ⟨ownEnds_opened h₀, fun a ha => by simp [h₀.nothing_owed a] at ha⟩ ?_
  · exact hinv.2
  · intro u act v ⟨ho, hw⟩ huv
    cases huv
    obtain ⟨hfd, hpair⟩ := frame_next .socketPair buffer u act
    exact ⟨by rw [OwnEnds, hfd, hpair]; exact ho, wakes_socketPair_step hbuf ho hw act⟩

/-! ## The shared event descriptor -/

theorem shared_opened (h : Opened .eventFd s) (a : Side) : s.fd a = s.fdPair.1 := by
  obtain ⟨fd₁, fd₂, _, hpair⟩ := h.made
  obtain ⟨_, ha⟩ := h.opened a
  rw [hpair] at ha ⊢
  simp only [createFdPair, open_eventFd, Except.ok.injEq] at ha
  exact (congrArg Prod.fst ha).symm

/-- A step keeps what is owed readable exactly if it is admitted. -/
theorem wakes_eventFd_step (hshared : ∀ a, s.fd a = s.fdPair.1) (hs : Wakes s) (act : Act) :
    Wakes (next .eventFd buffer s act) ↔ Admitted s act := by
  cases act with
  | sendInterrupt a =>
    refine iff_of_true (wakes_sendInterrupt (show 0 < room buffer .eventFd by simp [room]) ?_ hs)
      nofun
    rw [hshared a.other, ← hshared a]
    rfl
  | eventRead a =>
    have hfd : s.fd a.other = s.fd a := by rw [hshared, hshared]
    constructor
    · rintro hw b ⟨⟩
      have hb : (next .eventFd buffer s (.eventRead a)).owed a.other = s.owed a.other := by
        simp [next, eventRead]
      by_contra howed
      have := hw a.other (by rw [hb]; simpa using howed)
      simp [next, eventRead, hfd, readLeaves] at this
    · intro hadm b hb
      rcases eq_or_other a b with rfl | rfl
      · simp [next, eventRead] at hb
      · have hno := hadm a rfl
        simp [next, eventRead, hno] at hb

/-- Over the shared descriptor interrupts stay readable as long as no side reads while an
interrupt of its own is owed to the other; the first such read loses it. -/
theorem eventFd_wakes_iff (h₀ : Opened .eventFd s₀)
    (h : Run (guarded Admitted (ofFun (step .eventFd buffer))) s₀ acts s) :
    Wakes s ∧ ∀ act t, step .eventFd buffer s act = some t → (Wakes t ↔ Admitted s act) := by
  have hinv := h.invariant (fun u => (∀ a, u.fd a = u.fdPair.1) ∧ Wakes u)
    ⟨shared_opened h₀, fun a ha => by simp [h₀.nothing_owed a] at ha⟩ ?_
  · refine ⟨hinv.2, ?_⟩
    rintro act t ⟨⟩
    exact wakes_eventFd_step hinv.1 hinv.2 act
  · intro u act v ⟨hsh, hw⟩ ⟨hadm, huv⟩
    cases huv
    obtain ⟨hfd, hpair⟩ := frame_next .eventFd buffer u act
    exact ⟨by rw [hfd, hpair]; exact hsh, (wakes_eventFd_step hsh hw act).mpr hadm⟩

/-- The factory's event descriptor 5, opened by both sides. -/
def fresh : State := ⟨(5, 5), fun _ => 5, fun _ => 0, fun _ => false⟩

theorem fresh_opened : Opened .eventFd fresh :=
  ⟨⟨5, 6, by decide, rfl⟩, fun a => ⟨none, by cases a <;> rfl⟩, fun _ => rfl, fun _ => rfl⟩

theorem eventFd_wakes_one :
    ∃ s, Run (guarded Admitted (ofFun (step .eventFd 1))) fresh
      [.sendInterrupt .left, .eventRead .right] s ∧ Wakes s := by
  have hrun : Run (guarded Admitted (ofFun (step .eventFd 1))) fresh
      [.sendInterrupt .left, .eventRead .right] _ :=
    .cons ⟨nofun, rfl⟩ (.single ⟨by rintro a ⟨⟩; rfl, rfl⟩)
  exact ⟨_, hrun, (eventFd_wakes_iff fresh_opened hrun).1⟩

/-- The parent reads back its own interrupt, and nothing wakes the child. -/
theorem own_interrupt_consumed :
    ∃ s, Run (ofFun (step .eventFd 1)) fresh [.sendInterrupt .left, .eventRead .left] s ∧
      ¬ Wakes s := by
  refine ⟨_, .cons rfl (.single rfl), fun hw => ?_⟩
  have := hw .right rfl
  exact absurd this (by decide)

end ShmIpcWakeupPair
