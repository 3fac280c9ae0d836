import Mathlib.Data.List.Basic
import ShmIpc.LabelledRun

/-!
# Interrupting a poll

The event loop around `Poll::poll` and any number of calls of `do_interrupt`,
cut into their atomic operations. `kevent` with the user event triggered returns
at once and, because of `EV_CLEAR`, takes the trigger back when it reports it.
-/
namespace ShmIpcPollInterrupt

open LabelledRun

def flagPolling : UInt32 := 0x1
def flagInterrupted : UInt32 := 0x2
def flagStateMask : UInt32 := 0x3

/-- `Thread::has_any_callbacks` -/
def hasAnyCallbacks : Bool := false

/-- Where the loop thread stands: in front of its test of `g_should_shutdown`, between the test and
the `fetch_or`, and inside `Poll::poll` with the timeout it has settled on. -/
inductive Loop where
  | testing : Loop
  | entering : Loop
  | armed (timeout : Nat) : Loop
  | waiting (timeout : Nat) : Loop
  | returned : Loop
  | left : Loop
  deriving DecidableEq

/-- `poking` calls of `do_interrupt` have passed their compare-exchange and not yet poked the user
event. `requested` says that a call has completed since `poll` last returned. -/
structure State where
  shouldShutdown : Bool
  mPollingState : UInt32
  userEvent : Bool
  loop : Loop
  poking : Nat
  requested : Bool

inductive Act where
  | signal : Act
  | exchange : Act
  | poke : Act
  | test (leave : Bool) : Act
  | fetchOr (timeout : Nat) : Act
  | kevent : Act
  | wake (user : Bool) : Act
  | fetchAnd : Act

def step (s : State) : Act → Option State
  -- `do_signal_shutdown` stores its flag and calls `do_interrupt`; other threads only do the latter
  | .signal => some { s with shouldShutdown := true }
  | .exchange =>
    if s.mPollingState = flagPolling then
      some { s with mPollingState := flagPolling ||| flagInterrupted, poking := s.poking + 1 }
    else some { s with requested := true }
  | .poke =>
    match s.poking with
    | 0 => none
    | n + 1 => some { s with userEvent := true, poking := n, requested := true }
  -- the loop may poll again after a shutdown request, until the shutdown is over
  | .test leave =>
    if s.loop ≠ .testing then none
    else if leave then if s.shouldShutdown then some { s with loop := .left } else none
    else some { s with loop := .entering }
  | .fetchOr timeout =>
    if s.loop ≠ .entering then none
    else
      let timeout := if s.mPollingState &&& flagInterrupted ≠ 0 ∨
        hasAnyCallbacks = true then 0 else timeout
      some { s with mPollingState := s.mPollingState ||| flagPolling, loop := .armed timeout }
  | .kevent =>
    match s.loop with
    | .armed timeout => some { s with loop := .waiting timeout }
    | _ => none
  -- `kevent` returns with the user event, or without it on a descriptor, a signal or its timeout
  | .wake user =>
    match s.loop with
    | .waiting _ =>
      if user then if s.userEvent then some { s with userEvent := false, loop := .returned }
        else none
      else some { s with loop := .returned }
    | _ => none
  | .fetchAnd =>
    if s.loop ≠ .returned then none
    else some { s with
      mPollingState := s.mPollingState &&& ~~~flagStateMask, loop := .testing, requested := false }

/-- The state `Poll::create` leaves behind. -/
def created : State := ⟨false, 0, false, .testing, 0, false⟩

/-- The loop thread is about to call `kevent` with a timeout and without the user event, although
an interrupt has been requested. -/
def Missed (s : State) : Prop :=
  s.requested = true ∧ ∃ timeout, s.loop = .armed timeout ∧ timeout ≠ 0 ∧ s.userEvent = false

/-- The next call of `kevent` is still to come and has not settled on a zero timeout. -/
def Loop.Exposed : Loop → Prop
  | .testing => True
  | .entering => True
  | .armed timeout => timeout ≠ 0
  | _ => False

/-- A call of `do_interrupt` that finds nothing to do while `kevent` is still to come finds the
user event triggered already. -/
def Admitted (s : State) (a : Act) : Prop :=
  match a with
  | .exchange => s.mPollingState ≠ flagPolling → s.loop.Exposed → s.userEvent = true
  | _ => True

/-- The polling state goes with the position of the loop thread, and a request keeps the user
event triggered until `kevent` is called. -/
structure Inv (s : State) : Prop where
  idle : s.loop = .testing ∨ s.loop = .entering → s.mPollingState = 0
  polling : s.loop ≠ .testing → s.loop ≠ .entering → s.loop ≠ .left →
    s.mPollingState = flagPolling ∨ s.mPollingState = flagPolling ||| flagInterrupted
  heard : s.loop.Exposed → s.requested = true → s.userEvent = true

theorem inv_created : Inv created := ⟨fun _ => rfl, by simp [created], by simp [created]⟩

variable {s t : State} {acts : List Act}

theorem inv_exchange (hi : Inv s) (hadm : Admitted s .exchange) (h : step s .exchange = some t) :
    Inv t := by
  simp only [step] at h
  split at h
  · rename_i hst
    cases h
    refine ⟨fun hl => ?_, fun _ _ _ => .inr rfl, hi.heard⟩
    have h0 := hi.idle hl
    rw [hst] at h0
    exact absurd h0 (by decide)
  · rename_i hst
    cases h
    exact ⟨hi.idle, hi.polling, fun he _ => hadm hst he⟩

/-- With no flag set `fetch_or` keeps the timeout of the caller. -/
theorem fetchOr_eq (hl : s.loop = .entering) (h0 : s.mPollingState = 0) (timeout : Nat) :
    step s (.fetchOr timeout) =
    some { s with mPollingState := flagPolling, loop := .armed timeout } := by
  simp only [step, hl, h0, ne_eq, not_true_eq_false, ↓reduceIte]
  rfl

theorem inv_step {a : Act} (hi : Inv s) (h : guarded Admitted (ofFun step) s a t) : Inv t := by
  obtain ⟨hadm, h⟩ := h
  cases a with
  | signal =>
    cases h
    exact ⟨hi.idle, hi.polling, hi.heard⟩
  | exchange => exact inv_exchange hi hadm h
  | poke =>
    simp only [ofFun, step] at h
    split at h
    · cases h
    · cases h
      exact ⟨hi.idle, hi.polling, fun _ _ => rfl⟩
  | test leave =>
    simp only [ofFun, step] at h
    split at h
    · cases h
    · rename_i hl
      have hl := not_not.mp hl
      split at h
      · split at h
        · cases h
          exact ⟨by simp, by simp, by simp [Loop.Exposed]⟩
        · cases h
      · cases h
        exact ⟨fun _ => hi.idle (.inl hl), by simp, fun _ => hi.heard (by simp [hl, Loop.Exposed])⟩
  | fetchOr timeout =>
    have hl : s.loop = .entering := by
      by_contra hl
      simp [ofFun, step, hl] at h
    rw [ofFun, fetchOr_eq hl (hi.idle (.inr hl))] at h
    cases h
    exact ⟨by simp, fun _ _ _ => .inl rfl, fun _ => hi.heard (by simp [hl, Loop.Exposed])⟩
  | kevent =>
    simp only [ofFun, step] at h
    split at h
    · rename_i hl
      cases h
      refine ⟨by simp, fun _ _ _ => hi.polling ?_ ?_ ?_, by simp [Loop.Exposed]⟩ <;> simp [hl]
    · cases h
  | wake user =>
    simp only [ofFun, step] at h
    split at h
    · rename_i hl
      have hp := hi.polling (by simp [hl]) (by simp [hl]) (by simp [hl])
      split at h
      · split at h
        · cases h
          exact ⟨by simp, fun _ _ _ => hp, by simp [Loop.Exposed]⟩
        · cases h
      · cases h
        exact ⟨by simp, fun _ _ _ => hp, by simp [Loop.Exposed]⟩
    · cases h
  | fetchAnd =>
    simp only [ofFun, step] at h
    split at h
    · cases h
    · rename_i hl
      have hl := not_not.mp hl
      cases h
      have hp := hi.polling (by simp [hl]) (by simp [hl]) (by simp [hl])
      refine ⟨fun _ => ?_, by simp, by simp⟩
      show s.mPollingState &&& ~~~flagStateMask = 0
      rcases hp with hp | hp
      · rw [hp]; decide
      · rw [hp]; decide

theorem not_missed_of_inv (hi : Inv s) : ¬ Missed s := by
  rintro ⟨hreq, timeout, hl, hne, hue⟩
  have := hi.heard (by rw [hl]; exact hne) hreq
  rw [hue] at this
  cases this

/-- The acts of the loop thread. -/
def Act.OfLoop : Act → Prop
  | .signal => False
  | .exchange => False
  | .poke => False
  | _ => True

/-- From a position in front of `kevent` the loop thread goes on to call it. -/
theorem missed_of_exposed (hidle : s.loop = .testing ∨ s.loop = .entering → s.mPollingState = 0)
    (hexp : s.loop.Exposed) (hreq : s.requested = true) (hue : s.userEvent = false) :
    ∃ acts u, (∀ a ∈ acts, a.OfLoop) ∧ Run (ofFun step) s acts u ∧ Missed u := by
  cases hl : s.loop with
  | testing =>
    have htest : step s (.test false) = some { s with loop := .entering } := by simp [step, hl]
    have hfetch := fetchOr_eq (s := { s with loop := .entering }) rfl (hidle (.inl hl)) 1
    exact ⟨_, _, by simp [Act.OfLoop], .cons htest (.single hfetch), hreq, 1, rfl, by decide, hue⟩
  | entering =>
    exact ⟨_, _, by simp [Act.OfLoop], .single (fetchOr_eq hl (hidle (.inr hl)) 1), hreq,
      1, rfl, by decide, hue⟩
  | armed timeout =>
    rw [hl] at hexp
    exact ⟨[], s, by simp, .nil s, hreq, timeout, hl, hexp, hue⟩
  | waiting timeout => rw [hl] at hexp; exact hexp.elim
  | returned => rw [hl] at hexp; exact hexp.elim
  | left => rw [hl] at hexp; exact hexp.elim

/-- A `do_interrupt` that is not admitted is missed if the loop thread goes on. -/
theorem missed_of_not_admitted (hi : Inv s) (hadm : ¬ Admitted s .exchange)
    (h : step s .exchange = some t) :
    ∃ acts u, (∀ a ∈ acts, a.OfLoop) ∧ Run (ofFun step) t acts u ∧ Missed u := by
  have hst : s.mPollingState ≠ flagPolling := fun he => hadm fun hne => absurd he hne
  have hexp : s.loop.Exposed := by
    by_contra he
    exact hadm fun _ he' => absurd he' he
  have hue : s.userEvent = false := by
    by_contra hu
    exact hadm fun _ _ => by simpa using hu
  rw [step, if_neg hst] at h
  cases h
  exact missed_of_exposed hi.idle hexp rfl hue

/-- Interrupts and the loop in any order: no request is missed as long as every `do_interrupt` is
admitted, and the loop thread can miss the first one that is not. -/
theorem requests_not_missed (h : Run (guarded Admitted (ofFun step)) created acts s) :
    ¬ Missed s ∧ ∀ t, step s .exchange = some t → ¬ Admitted s .exchange →
      ∃ loopActs u, (∀ a ∈ loopActs, a.OfLoop) ∧ Run (ofFun step) t loopActs u ∧ Missed u := by
  have hi : Inv s := h.invariant Inv inv_created fun _ _ _ => inv_step
  exact ⟨not_missed_of_inv hi, fun t ht hadm => missed_of_not_admitted hi hadm ht⟩

/-- An interrupt inside the poll. -/
theorem requests_not_missed_armed :
    ∃ s, Run (guarded Admitted (ofFun step)) created
        [.test false, .fetchOr 500000, .signal, .exchange, .poke, .exchange] s ∧
          s.requested = true ∧ ¬ Missed s := by
  have hrun : Run (guarded Admitted (ofFun step)) created
      [.test false, .fetchOr 500000, .signal, .exchange, .poke, .exchange] _ :=
    .cons ⟨trivial, rfl⟩ (.cons ⟨trivial, rfl⟩
      (.cons ⟨trivial, rfl⟩ (.cons ⟨fun hne => absurd rfl hne, rfl⟩
        (.cons ⟨trivial, rfl⟩ (.single ⟨fun _ _ => rfl, rfl⟩)))))
  exact ⟨_, hrun, rfl, (requests_not_missed hrun).1⟩

/-- A signal between the test of `g_should_shutdown` and the `fetch_or`. -/
theorem signal_before_poll_missed :
    ∃ s, Run (ofFun step) created [.test false, .signal, .exchange, .fetchOr 500000] s ∧ Missed s :=
  ⟨_, .cons rfl (.cons rfl (.cons rfl (.single rfl))), rfl, 500000, rfl, by decide, rfl⟩

end ShmIpcPollInterrupt
