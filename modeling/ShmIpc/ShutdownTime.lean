import ShmIpc.ShutdownSafety

/-!
# How long a shutdown takes

The shutdown on a machine that keeps time: every place is left within a bound of
its own, the `::wait` of the parent behind the end of the child, and a poll passes
over a readable control descriptor only if a signal interrupts it. From the first
cause on both processes end in a bounded time, unless only a parent that has
thrown in front of its loop knows of it.
-/
namespace ShmIpcShutdownTime

open Handshake (Side eq_or_other)
open LabelledRun ShmIpcShutdown ShmIpcShutdownSafety

/-! ## Time -/

/-- The longest stay in each place, in nanoseconds; in `::wait` it is counted from the end of the
child. -/
structure Bounds where
  setup : Nat
  top : Nat
  sending : Nat
  body : Nat
  polled : Nat
  blocked : Nat
  leaving : Nat
  waiting : Nat

def Bounds.stay (b : Bounds) : Place → Nat
  | .setup => b.setup
  | .top => b.top
  | .sending _ => b.sending
  | .body => b.body
  | .polled => b.polled
  | .blocked => b.blocked
  | .leaving => b.leaving
  | .waiting => b.waiting
  | .gone => 0

/-- `since` is when each process came to its place. -/
structure Timed where
  system : System
  since : Side → Nat

def Timed.place (s : Timed) (a : Side) : Place := (s.system.processes a).place

def Timed.now (s : Timed) : Nat := s.system.now

/-- The process does not depend on the end of the other one. -/
def Running (place : Place) : Prop := place ≠ .waiting ∧ place ≠ .gone

instance decidableRunning (place : Place) : Decidable (Running place) :=
  inferInstanceAs (Decidable (_ ∧ _))

/-- The process has not stayed longer than it may. -/
structure OnTime (b : Bounds) (s : Timed) (a : Side) : Prop where
  stays : Running (s.place a) → s.system.now ≤ s.since a + b.stay (s.place a)
  waits : s.place a = .waiting → s.place a.other = .gone →
    s.system.now ≤ max (s.since a) (s.since a.other) + b.waiting

def Timely (b : Bounds) (s : Timed) : Prop := ∀ a, OnTime b s a

/-- `kevent` reports a readable descriptor again and again, unless a signal interrupts it. -/
def PollsWell (s : System) : Label → Prop
  | .act a .poll => s.readable a = true → (s.processes a).shouldShutdown = true
  | _ => True

def clockedStep (s : Timed) (l : Label) : Option Timed :=
  (step s.system l).map fun t =>
    ⟨t, fun a => if (t.processes a).place = s.place a then s.since a else s.system.now⟩

/-- The steps that keep the time. -/
def timed (b : Bounds) (s : Timed) (l : Label) (t : Timed) : Prop :=
  PollsWell s.system l ∧ clockedStep s l = some t ∧ Timely b t

/-- Both processes are about to run, and have just come there. -/
def StartedAt (s : Timed) : Prop := Started s.system ∧ ∀ a, s.since a = s.system.now

variable {b : Bounds} {s t : Timed} {l : Label}

/-- When a process came to its place, once a step has been taken. -/
def arrival (s t : System) (a : Side) (since : Nat) : Nat :=
  if (t.processes a).place = (s.processes a).place then since else s.now

theorem since_eq (h : timed b s l t) (a : Side) :
    t.since a = arrival s.system t.system a (s.since a) := by
  obtain ⟨_, h, _⟩ := h
  obtain ⟨u, _, rfl⟩ := Option.map_eq_some_iff.mp h
  rfl

theorem timed_tick (h : timed b s .tick t) :
    t = ⟨{ s.system with now := s.system.now + 1 }, s.since⟩ := by
  obtain ⟨_, h, _⟩ := h
  simp only [clockedStep, step, Option.map_some, Option.some.injEq] at h
  subst h
  simp [Timed.place]

theorem timed_act {a : Side} {act : Act} (h : timed b s (.act a act) t) :
    Effect s.system a act t.system := by
  obtain ⟨_, h, _⟩ := h
  obtain ⟨u, hu, rfl⟩ := Option.map_eq_some_iff.mp h
  exact effect_of_step hu

/-- What a step of the other side leaves alone. -/
structure Untouched (p q : Process) : Prop where
  place : q.place = p.place
  shouldShutdown : q.shouldShutdown = p.shouldShutdown
  shutdownTimestamp : q.shutdownTimestamp = p.shutdownTimestamp
  controlFd : q.controlFd = p.controlFd

theorem Untouched.refl (p : Process) : Untouched p p := ⟨rfl, rfl, rfl, rfl⟩

theorem effect_now {s t : System} {a : Side} {act : Act} (h : Effect s a act t) :
    t.now = s.now := by
  cases h <;> rfl

/-- A side that posts nothing leaves the other one as it is. -/
theorem effect_other {s t : System} {a : Side} {act : Act} (h : Effect s a act t) :
    Untouched (s.processes a.other) (t.processes a.other) := by
  cases h with
  | sent _ _ => rw [post_other, set_other]; exact ⟨rfl, rfl, rfl, rfl⟩
  | panicked _ _ => rw [set_other, post_other]; exact ⟨rfl, rfl, rfl, rfl⟩
  | _ => rw [set_other]; exact .refl _

theorem effect_lives {s t : System} {a : Side} {act : Act} (h : Effect s a act t) :
    (s.processes a).place ≠ .gone := by
  intro hgone
  cases h with
  | moved hm =>
    rw [hgone] at hm
    cases hm
  | signalled hp => exact hp hgone
  | panicked hp _ => exact hp hgone
  | ended he =>
    generalize hplace : (s.processes a).place = place at he
    rw [hgone] at hplace
    subst hplace
    cases he <;> contradiction
  | tested hp => cases hgone.symm.trans hp
  | sent hp _ => cases hgone.symm.trans hp
  | message hp _ _ => cases hgone.symm.trans hp
  | closed hp _ _ _ => cases hgone.symm.trans hp
  | waits _ hp => cases hgone.symm.trans hp
  | reaps _ hp _ => cases hgone.symm.trans hp
  | wakeupClosed hp _ _ =>
    exact hp.elim (fun hp => nomatch hgone.symm.trans hp) fun hp => nomatch hgone.symm.trans hp

/-- No step leads back in front of the loop, and only the parent gets into `::wait`, from there. -/
theorem effect_place {s t : System} {a : Side} {act : Act} (h : Effect s a act t) :
    (t.processes a).place = (s.processes a).place ∨ (t.processes a).place ≠ .setup ∧
      ((t.processes a).place = .waiting → a = .left ∧ (s.processes a).place = .setup) := by
  cases h with
  | @moved _ place hm =>
    rw [set_self]
    refine .inr ?_
    generalize (s.processes a).place = old at hm
    cases hm <;> simp
  | signalled _ => exact .inl (by rw [set_self])
  | tested hp =>
    rw [set_self]
    have hhead := head_cases a s.now (s.processes a)
    generalize headOfLoop a s.now (s.processes a) = q at hhead ⊢
    cases hhead <;> exact .inr ⟨nofun, nofun⟩
  | @sent graceful _ _ =>
    rw [post_self, set_self]
    cases graceful <;> exact .inr ⟨nofun, nofun⟩
  | @message msg rest _ _ _ =>
    rw [set_self]
    rcases receive_cases { s.processes a with
        inbox := rest, received := (s.processes a).received ++ [msg] } msg with
      ⟨graceful, _, heq⟩ | ⟨_, heq | heq⟩ <;> rw [heq] <;> exact .inr ⟨nofun, nofun⟩
  | waits ha hp => exact .inr (by rw [set_self]; exact ⟨nofun, fun _ => ⟨ha, hp⟩⟩)
  | closed _ _ _ _ | reaps _ _ _ | wakeupClosed _ _ _ | panicked _ _ | ended _ =>
    rw [set_self]
    exact .inr ⟨nofun, nofun⟩

/-! ## What holds all the time -/

structure Aware (now : Nat) (p : Process) : Prop where
  timestamp : p.shutdownTimestamp ≤ now
  setup : p.place = .setup → p.shutdownTimestamp = 0
  sending : ∀ graceful, p.place = .sending graceful → p.shouldShutdown = true
  messages : p.sent.length ≤ (announcements p.sent).length + if p.place = .gone then 1 else 0

section
variable {now : Nat} {p : Process}

theorem aware_later (hp : Aware now p) : Aware (now + 1) p :=
  { hp with timestamp := Nat.le_succ_of_le hp.timestamp }

theorem Aware.messages_le (hp : Aware now p) (h : p.place ≠ .gone) :
    p.sent.length ≤ (announcements p.sent).length := by
  have hle := hp.messages
  rwa [if_neg h] at hle

/-- At a place where the loop goes on, only flags have changed. -/
theorem aware_place (hp : Aware now p) (hlives : p.place ≠ .gone) {place : Place}
    (hsetup : place ≠ .setup) (hsending : ∀ graceful, place ≠ .sending graceful) :
    Aware now { p with place := place } :=
  ⟨hp.timestamp, fun h => absurd h hsetup, fun graceful h => absurd h (hsending graceful),
    Nat.le_add_right_of_le (hp.messages_le hlives)⟩

theorem aware_tested {a : Side} (hp : Aware now p) (hlives : p.place ≠ .gone) :
    Aware now (headOfLoop a now p) := by
  have hmsgs := Nat.le_add_right_of_le (k := 0) (hp.messages_le hlives)
  have hhead := head_cases a now p
  generalize headOfLoop a now p = q at hhead ⊢
  cases hhead with
  | first hs _ _ _ => exact ⟨Nat.le_refl now, nofun, fun _ _ => hs, hmsgs⟩
  | late hs _ _ _ _ => exact ⟨hp.timestamp, nofun, fun _ _ => hs, hmsgs⟩
  | _ => exact aware_place hp hlives nofun nofun

end

theorem aware_effect {s t : System} {a : Side} {act : Act} (h : Effect s a act t)
    (hp : Aware s.now (s.processes a)) : Aware t.now (t.processes a) := by
  have hlives := effect_lives h
  have hmsgs := hp.messages_le hlives
  cases h with
  | moved hm =>
    rw [set_self]
    refine aware_place hp hlives ?_ ?_ <;>
      generalize (s.processes a).place = place at hm <;> cases hm <;> simp
  | signalled _ =>
    rw [set_self]
    exact { hp with sending := fun _ _ => rfl }
  | tested _ =>
    rw [set_self]
    exact aware_tested hp hlives
  | @sent graceful _ _ =>
    rw [post_self, set_self]
    have hcount : ((s.processes a).sent ++ [shutdownMsg graceful]).length ≤
        (announcements ((s.processes a).sent ++ [shutdownMsg graceful])).length := by
      rw [announcements_append, asksFor_shutdownMsg, List.length_append, List.length_append]
      exact Nat.add_le_add_right hmsgs 1
    refine ⟨hp.timestamp, fun h => ?_, fun k h => ?_, Nat.le_add_right_of_le hcount⟩ <;>
      cases graceful <;> cases h
  | @message msg rest _ _ _ =>
    rw [set_self]
    rcases receive_cases
      { s.processes a with inbox := rest, received := (s.processes a).received ++ [msg] } msg with
      ⟨graceful, _, heq⟩ | ⟨_, heq | heq⟩
    all_goals
      rw [heq]
      exact ⟨hp.timestamp, nofun, nofun, hmsgs⟩
  | closed _ _ _ _ =>
    rw [set_self]
    exact ⟨hp.timestamp, nofun, fun _ _ => rfl, hmsgs⟩
  | waits _ _ | wakeupClosed _ _ _ =>
    rw [set_self]
    exact ⟨hp.timestamp, nofun, nofun, hmsgs⟩
  | @panicked stack _ _ =>
    rw [set_self, post_self]
    have hcount : ((s.processes a).sent ++ [panicText ++ stack]).length ≤
        (announcements ((s.processes a).sent ++ [panicText ++ stack])).length + 1 := by
      rw [announcements_append, asksFor_panic, List.length_append,
        Option.toList_none, List.append_nil]
      exact Nat.add_le_add_right hmsgs 1
    exact ⟨hp.timestamp, nofun, nofun, hcount⟩
  | reaps _ _ _ | ended _ =>
    rw [set_self]
    exact ⟨hp.timestamp, nofun, nofun, Nat.le_add_right_of_le hmsgs⟩

/-- What a step of the other side changes is of no interest here. -/
theorem aware_other {s t : System} {a : Side} {act : Act} (h : Effect s a act t)
    (hp : Aware s.now (s.processes a.other)) : Aware t.now (t.processes a.other) := by
  rw [effect_now h]
  cases h with
  | sent _ _ => rw [post_other, set_other]; exact { hp with }
  | panicked _ _ => rw [set_other, post_other]; exact { hp with }
  | _ => rw [set_other]; exact hp

structure Kept (b : Bounds) (s : Timed) : Prop where
  sound : Sound s.system
  since : ∀ a, s.since a ≤ s.system.now
  aware : ∀ a, Aware s.system.now (s.system.processes a)
  child : s.place .right ≠ .waiting
  timely : Timely b s

theorem kept_step (hs : Kept b s) (h : timed b s l t) : Kept b t := by
  have htimely := h.2.2
  cases l with
  | tick =>
    have ht := timed_tick h
    subst ht
    exact ⟨sound_step (l := .tick) hs.sound rfl, fun a => Nat.le_succ_of_le (hs.since a),
      fun a => aware_later (hs.aware a), hs.child, htimely⟩
  | act a act =>
    have he := timed_act h
    have hnow := effect_now he
    refine ⟨sound_effect hs.sound he, fun c => ?_, fun c => ?_, fun hwaiting => ?_, htimely⟩
    · rw [since_eq h, arrival, hnow]
      split
      · exact hs.since c
      · exact Nat.le_refl _
    · rcases eq_or_other a c with rfl | rfl
      · exact aware_effect he (hs.aware c)
      · exact aware_other he (hs.aware a.other)
    · cases a with
      | left => exact hs.child ((effect_other he).place.symm.trans hwaiting)
      | right =>
        rcases effect_place he with hsame | ⟨_, honly⟩
        · exact hs.child (hsame.symm.trans hwaiting)
        · exact nomatch (honly hwaiting).1

/-! ## A process that knows -/

/-- The process has been asked to stop, or it has stopped. -/
def Noticed (s : Timed) (a : Side) : Prop :=
  (s.system.processes a).shouldShutdown = true ∨ s.place a = .gone

variable {d now : Nat} {p : Process}

variable {labels : List Label}

instance decidableOnTime (b : Bounds) (s : Timed) (a : Side) : Decidable (OnTime b s a) :=
  decidable_of_iff ((Running (s.place a) → s.system.now ≤ s.since a + b.stay (s.place a)) ∧
      (s.place a = .waiting → s.place a.other = .gone →
        s.system.now ≤ max (s.since a) (s.since a.other) + b.waiting))
    ⟨fun h => ⟨h.1, h.2⟩, fun h => ⟨h.stays, h.waits⟩⟩

instance decidableTimely (b : Bounds) (s : Timed) : Decidable (Timely b s) :=
  decidable_of_iff (OnTime b s .left ∧ OnTime b s .right)
    (by
      refine ⟨fun h => ?_, fun h => ⟨h .left, h .right⟩⟩
      rintro (_ | _)
      · exact h.1
      · exact h.2)

instance decidablePollsWell (s : System) : ∀ l, Decidable (PollsWell s l)
  | .act _ .poll => inferInstanceAs (Decidable (_ → _))
  | .tick | .act _ .start | .act _ .signal | .act _ .test | .act _ .send | .act _ .throw =>
    .isTrue trivial
  | .act _ .receive | .act _ .wakeupClosed | .act _ .endRound | .act _ .closeFds => .isTrue trivial
  | .act _ .exit | .act _ .wait | .act _ (.panic _) | .act _ .kill => .isTrue trivial

def startedAt : Timed := ⟨started, fun _ => 1⟩

/-- The parent has been asked and waits; nothing reaches the child, which is at the head of its
loop. -/
structure Untold (b : Bounds) (s : Timed) : Prop where
  noticed : Noticed s .left
  parent : s.place .left = .waiting
  control : (s.system.processes .left).controlFd = true
  child : s.place .right = .top
  unaware : (s.system.processes .right).shouldShutdown = false
  inbox : (s.system.processes .right).inbox = []
  onTime : s.system.now ≤ s.since .right + b.top

/-- The child has just come to another place. -/
def Timed.child (s : Timed) (place : Place) : Timed :=
  ⟨s.system.set .right { s.system.processes .right with place := place },
    Function.update s.since .right s.system.now⟩

@[simp] theorem child_left (s : Timed) (place : Place) :
    (s.child place).system.processes .left = s.system.processes .left :=
  set_other s.system .right _

@[simp] theorem child_right (s : Timed) (place : Place) :
    (s.child place).system.processes .right = { s.system.processes .right with place := place } :=
  set_self ..

@[simp] theorem child_now (s : Timed) (place : Place) :
    (s.child place).system.now = s.system.now := rfl

@[simp] theorem child_child (s : Timed) (place place' : Place) :
    (s.child place).child place' = s.child place' := by
  simp [Timed.child, System.set]

theorem onTime_now {a : Side} (h : s.system.now ≤ s.since a) : OnTime b s a :=
  ⟨fun _ => Nat.le_add_right_of_le h, fun _ _ => by omega⟩

/-- A step of the child alone, with the parent in `::wait`. -/
theorem child_step {act : Act} {place : Place}
    (hstep : step s.system (.act .right act) = some (s.child place).system)
    (hpolls : PollsWell s.system (.act .right act)) (hparent : s.place .left = .waiting)
    (hmoves : place ≠ s.place .right) (hrun : Running place) :
    timed b s (.act .right act) (s.child place) := by
  refine ⟨hpolls, ?_, ?_⟩
  · have hsince : (s.child place).since = fun a =>
        if ((s.child place).system.processes a).place = s.place a then s.since a
        else s.system.now := by
      funext a
      cases a with
      | left =>
        rw [child_left]
        exact (if_pos rfl).symm
      | right => simp [hmoves, Timed.child]
    rw [clockedStep, hstep, Option.map_some, ← hsince]
  · rintro (_ | _)
    · refine ⟨fun h => absurd hparent ?_, fun _ hgone => absurd ?_ hrun.2⟩
      · simpa [Timed.place] using h.1
      · simpa [Timed.place, Handshake.Side.other] using hgone
    · exact onTime_now (by simp [Timed.child])

/-- A nanosecond passes with the parent in `::wait` and the child at the head of its loop. -/
theorem child_tick (hb : 0 < b.top) (hparent : s.place .left = .waiting)
    (hchild : s.place .right = .top) (hsince : s.since .right = s.system.now) :
    timed b s .tick ⟨{ s.system with now := s.system.now + 1 }, s.since⟩ := by
  refine ⟨trivial, by simp [clockedStep, step, Timed.place], ?_⟩
  rintro (_ | _)
  · exact ⟨fun h => absurd hparent h.1, fun _ hgone => nomatch hchild.symm.trans hgone⟩
  · refine ⟨fun _ => ?_, fun hwaiting => nomatch hchild.symm.trans hwaiting⟩
    change s.system.now + 1 ≤ s.since .right + b.stay (s.place .right)
    rw [hsince, hchild]
    exact Nat.add_le_add_left hb _

/-- The child goes once through its loop while a nanosecond passes. -/
theorem untold_round (hb : 0 < b.top) (hs : Untold b s) :
    ∃ labels t, Run (timed b) s labels t ∧ Untold b t ∧ t.now = s.now + 1 := by
  have hparent (place : Place) : (s.child place).place .left = .waiting := by
    simpa [Timed.place] using hs.parent
  have hplace (place : Place) : (s.child place).place .right = place := by simp [Timed.place]
  have htop : (s.system.processes .right).place = .top := hs.child
  have htest : timed b s (.act .right .test) (s.child .body) := by
    refine child_step ?_ trivial hs.parent (by simp [hs.child]) (by simp [Running])
    simp [step, actStep, htop, headOfLoop, hs.unaware, Timed.child]
  have hpoll : timed b (s.child .body) (.act .right .poll) (s.child .polled) := by
    rw [← child_child s .body .polled]
    refine child_step ?_ ?_ (hparent _) (by simp [hplace]) (by simp [Running])
    · simp [step, actStep, Timed.child]
    · intro hread
      simp [System.readable, hs.inbox, hs.control, Handshake.Side.other] at hread
  have hround : timed b (s.child .polled) (.act .right .endRound) (s.child .top) := by
    rw [← child_child s .polled .top]
    refine child_step ?_ trivial (hparent _) (by simp [hplace]) (by simp [Running])
    simp [step, actStep, Timed.child]
  have hsince : (s.child .top).since .right = s.system.now := by simp [Timed.child]
  refine ⟨_, _, .cons htest (.cons hpoll (.cons hround (.single
    (child_tick hb (hparent _) (hplace _) hsince)))), ?_, rfl⟩
  refine ⟨.inl ?_, hparent .top, ?_, hplace .top, ?_, ?_, ?_⟩
  · simpa using hs.noticed.resolve_right fun h => absurd (hs.parent.symm.trans h) (by decide)
  · simpa using hs.control
  · simpa using hs.unaware
  · simpa using hs.inbox
  · change s.system.now + 1 ≤ (s.child .top).since .right + b.top
    rw [hsince]
    exact Nat.add_le_add_left hb _

/-- A step that is taken at once. -/
theorem clocked_now {u : System} (hstep : step s.system l = some u)
    (hnow : ∀ a, s.since a = s.system.now) : clockedStep s l = some ⟨u, fun _ => s.system.now⟩ := by
  rw [clockedStep, hstep, Option.map_some]
  simp only [hnow, ite_self]

/-- The parent is asked, throws and waits, and the child comes to its loop. -/
theorem untold_start (b : Bounds) :
    ∃ labels t, Run (timed b) startedAt labels t ∧ Untold b t := by
  let asked : Timed :=
    ⟨started.set .left { Process.created with shouldShutdown := true }, fun _ => 1⟩
  let waits : Timed :=
    ⟨asked.system.set .left { asked.system.processes .left with place := .waiting }, fun _ => 1⟩
  have hsignal : timed b startedAt (.act .left .signal) asked := by
    exact ⟨trivial, clocked_now rfl fun _ => rfl, fun a => onTime_now (Nat.le_refl 1)⟩
  have hthrow : timed b asked (.act .left .throw) waits := by
    exact ⟨trivial, clocked_now rfl fun _ => rfl, fun a => onTime_now (Nat.le_refl 1)⟩
  have hstart : timed b waits (.act .right .start) (waits.child .top) :=
    child_step rfl trivial rfl nofun ⟨nofun, nofun⟩
  exact ⟨_, _, .cons hsignal (.cons hthrow (.single hstart)),
    ⟨.inl rfl, rfl, rfl, rfl, rfl, rfl, Nat.le_add_right _ _⟩⟩

/-- A parent that is asked and then throws in front of its loop waits, however long, for a child
that nobody tells. -/
theorem never_told (hb : 0 < b.top) (n : Nat) :
    ∃ labels t, Run (timed b) startedAt labels t ∧ Untold b t ∧ n ≤ t.now := by
  induction n with
  | zero =>
    obtain ⟨labels, t, ht, huntold⟩ := untold_start b
    exact ⟨labels, t, ht, huntold, Nat.zero_le _⟩
  | succ n ih =>
    obtain ⟨labels, s, hs, huntold, hn⟩ := ih
    obtain ⟨labels', t, ht, huntold', hnow⟩ := untold_round hb huntold
    exact ⟨labels ++ labels', t, hs.append ht, huntold', by omega⟩

end ShmIpcShutdownTime
