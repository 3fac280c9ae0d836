import ShmIpc.Shutdown

/-!
# What a shutdown never does

In every interleaving of the two processes, the signals, the exceptions and the
panics, each process announces its end at most twice, in the fixed order, and
never on a closed descriptor.
-/
namespace ShmIpcShutdownSafety

open Handshake (Side eq_or_other)
open LabelledRun ShmIpcControlFd ShmIpcControlKinds ShmIpcShutdown

/-! ## Announcements -/

/-- The kind of shutdown that a message asks for, `true` for a graceful one. -/
def asksFor (msg : List UInt8) : Option Bool :=
  match dispatch msg with
  | .slotShutdown graceful => some graceful
  | _ => none

def announcements (msgs : List (List UInt8)) : List Bool := msgs.filterMap asksFor

@[simp] theorem announcements_nil : announcements [] = [] := rfl

theorem announcements_append (msgs : List (List UInt8)) (msg : List UInt8) :
    announcements (msgs ++ [msg]) = announcements msgs ++ (asksFor msg).toList := by
  simp only [announcements, List.filterMap_append]
  cases h : asksFor msg <;> simp [h]

@[simp] theorem asksFor_shutdownMsg (graceful : Bool) :
    asksFor (shutdownMsg graceful) = some graceful := by
  cases graceful <;> decide

/-- The text of a panic is no announcement, whatever the stack looks like. -/
@[simp] theorem asksFor_panic (stack : List UInt8) : asksFor (panicText ++ stack) = none := by
  have hfree : ¬ Reserved (panicText ++ stack) := by
    have hlen : 9 ≤ panicText.length := by decide
    rw [Reserved, startsWith, show "SHUTDOWN:".length = 9 from rfl,
      List.take_append_of_le_length hlen]
    decide
  rw [asksFor, dispatch_free hfree]

/-- The two flags that the last announcement leaves behind. -/
def flagsAfter (msgs : List (List UInt8)) : Bool × Bool :=
  match (announcements msgs).getLast? with
  | none => (false, false)
  | some graceful => (graceful, !graceful)

theorem flagsAfter_append (msgs : List (List UInt8)) (msg : List UInt8) :
    flagsAfter (msgs ++ [msg]) = match asksFor msg with
      | none => flagsAfter msgs
      | some graceful => (graceful, !graceful) := by
  cases h : asksFor msg with
  | none => simp [flagsAfter, announcements_append, h]
  | some graceful => simp [flagsAfter, announcements_append, h]

theorem flagsAfter_none {msgs : List (List UInt8)} (h : flagsAfter msgs = (false, false)) :
    announcements msgs = [] := by
  unfold flagsAfter at h
  split at h
  case h_1 hlast => exact List.getLast?_eq_none_iff.mp hlast
  case h_2 graceful hlast => cases graceful <;> cases h

/-! ## One process -/

/-- The places where a process neither sends nor is about to end. -/
def Working : Place → Prop
  | .setup | .top | .body | .polled | .blocked | .waiting => True
  | .sending _ | .leaving | .gone => False

theorem Working.ne {place place' : Place} (h : Working place)
    (h' : ¬ Working place') : place ≠ place' :=
  fun heq => h' (heq ▸ h)

structure Sane (a : Side) (now : Nat) (p : Process) : Prop where
  closed : p.controlFdClosed = true → p.shouldShutdown = true ∧ p.controlFd = false ∧
    p.wakeupFd = false
  opened : p.place ≠ .gone → p.controlFdClosed = false → p.controlFd = true
  gone : p.place = .gone → p.controlFd = false ∧ p.wakeupFd = false
  flags : (p.shouldGracefulShutdown, p.shouldForcedShutdown) = flagsAfter p.received
  sending : ∀ graceful, p.place = .sending graceful →
    p.controlFdClosed = false ∧ ¬ Told a p ∧ p.shutdownTimestamp ≠ 0 ∧
    announcements p.sent = if graceful then [] else [true]
  working : Working p.place → announcements p.sent = if p.shutdownTimestamp = 0 then [] else [true]
  shape : announcements p.sent <+: [true, false]
  unset : p.shutdownTimestamp = 0 → announcements p.sent = []
  late : p.place = .sending false ∨ announcements p.sent = [true, false] →
    patience < now - p.shutdownTimestamp

theorem sane_created (a : Side) (now : Nat) : Sane a now Process.created := by
  constructor <;> simp [Process.created, flagsAfter]

theorem sane_later {a : Side} {now : Nat} {p : Process} (hp : Sane a now p) : Sane a (now + 1) p :=
  { hp with late := fun h => by have := hp.late h; omega }

/-- What a process has not received yet does not matter. -/
theorem sane_inbox {a : Side} {now : Nat} {p : Process} (hp : Sane a now p)
    (inbox : List (List UInt8)) : Sane a now { p with inbox := inbox } :=
  ⟨hp.closed, hp.opened, hp.gone, hp.flags, hp.sending, hp.working, hp.shape, hp.unset, hp.late⟩

variable {a : Side} {now : Nat} {p : Process}

theorem sane_working {place : Place} (hp : Sane a now p) (h : Working p.place)
    (h' : Working place) : Sane a now { p with place := place } where
  closed := hp.closed
  opened _ := hp.opened (h.ne id)
  gone hg := absurd hg (h'.ne id)
  flags := hp.flags
  sending _ hs := absurd hs (h'.ne id)
  working _ := hp.working h
  shape := hp.shape
  unset := hp.unset
  late hl := hl.elim (fun hs => absurd hs (h'.ne id)) fun hl => hp.late (.inr hl)

theorem sane_leaving (hp : Sane a now p) (h : p.place ≠ .gone) :
    Sane a now { p with place := .leaving } where
  closed := hp.closed
  opened _ := hp.opened h
  gone := nofun
  flags := hp.flags
  sending := nofun
  working := nofun
  shape := hp.shape
  unset := hp.unset
  late hl := hl.elim nofun fun hl => hp.late (.inr hl)

theorem sane_exit (hp : Sane a now p) : Sane a now p.exit where
  closed h := ⟨(hp.closed h).1, rfl, rfl⟩
  opened h := absurd rfl h
  gone _ := ⟨rfl, rfl⟩
  flags := hp.flags
  sending := nofun
  working := nofun
  shape := hp.shape
  unset := hp.unset
  late hl := hl.elim nofun fun hl => hp.late (.inr hl)

theorem sane_moved {act : Act} {place : Place} (hp : Sane a now p) (h : Moves act p.place place) :
    Sane a now { p with place := place } := by
  cases hplace : p.place <;> rw [hplace] at h <;> cases h
  · exact sane_working hp (by rw [hplace]; trivial) trivial
  · exact sane_leaving hp (by rw [hplace]; exact nofun)
  · exact sane_working hp (by rw [hplace]; trivial) trivial
  · exact sane_leaving hp (by rw [hplace]; exact nofun)
  · exact sane_working hp (by rw [hplace]; trivial) trivial
  · exact sane_leaving hp (by rw [hplace]; exact nofun)

theorem sane_signalled (hp : Sane a now p) : Sane a now { p with shouldShutdown := true } :=
  { hp with closed := fun h => ⟨rfl, (hp.closed h).2⟩ }

theorem sane_wakeupClosed (hp : Sane a now p) : Sane a now { p with wakeupFd := false } :=
  { hp with
    closed := fun h => ⟨(hp.closed h).1, (hp.closed h).2.1, rfl⟩
    gone := fun h => ⟨(hp.gone h).1, rfl⟩ }

/-- The end of the stream is only noticed with the descriptor open, so never twice. -/
theorem sane_closed (hp : Sane a now p) (h : Working p.place) :
    Sane a now (handleControlClosed p) :=
  { hp with
    closed := fun _ => ⟨rfl, rfl, rfl⟩
    opened := nofun
    gone := fun _ => ⟨rfl, rfl⟩
    sending := fun _ hs => absurd hs (h.ne id) }

/-- A received message is an announcement, or it changes no flag. -/
theorem receive_cases (p : Process) (msg : List UInt8) :
    (∃ graceful, asksFor msg = some graceful ∧
      p.receive msg = { handleControlShutdown graceful p with place := .polled }) ∨
    asksFor msg = none ∧ (p.receive msg = { p with place := .leaving } ∨
      p.receive msg = { p with place := .polled }) := by
  unfold Process.receive asksFor
  cases dispatch msg with
  | slotShutdown graceful => exact .inl ⟨graceful, rfl, rfl⟩
  | throws _ _ => exact .inr ⟨rfl, .inl rfl⟩
  | _ => exact .inr ⟨rfl, .inr rfl⟩

theorem sane_received (hp : Sane a now p) (h : Working p.place) (msg : List UInt8) :
    Sane a now ({ p with received := p.received ++ [msg] }.receive msg) := by
  have hflags := flagsAfter_append p.received msg
  rcases receive_cases { p with received := p.received ++ [msg] } msg with
    ⟨graceful, hasks, heq⟩ | ⟨hasks, heq⟩
  · rw [hasks] at hflags
    rw [heq]
    refine sane_working (p := handleControlShutdown graceful
      { p with received := p.received ++ [msg] }) ?_ h trivial
    exact { hp with
      closed := fun h => ⟨rfl, (hp.closed h).2⟩
      flags := hflags.symm
      sending := fun _ hs => absurd hs (h.ne id) }
  · rw [hasks] at hflags
    have hrec : Sane a now { p with received := p.received ++ [msg] } :=
      { hp with flags := hp.flags.trans hflags.symm }
    rcases heq with heq | heq <;> rw [heq]
    · exact sane_leaving hrec (h.ne id)
    · exact sane_working hrec h trivial

/-! ### The head of the loop -/

theorem sane_tested (hnow : 0 < now) (hp : Sane a now p) (h : p.place = .top) :
    Sane a now (headOfLoop a now p) := by
  have hw : Working p.place := by rw [h]; trivial
  have hann := hp.working hw
  have hopen := hp.opened (h ▸ nofun)
  have hhead := head_cases a now p
  generalize headOfLoop a now p = q at hhead ⊢
  cases hhead with
  | running _ => exact sane_working hp hw trivial
  | controlClosed _ _ => exact sane_leaving hp (h ▸ nofun)
  | told _ _ _ => exact sane_leaving hp (h ▸ nofun)
  | first hs hc ht h0 =>
    rw [if_pos h0] at hann
    refine ⟨hp.closed, fun _ => hopen, nofun, hp.flags, fun graceful hg => ?_, nofun,
      hp.shape, fun _ => hann, ?_⟩
    · cases hg
      exact ⟨hc, ht, Nat.ne_of_gt hnow, hann⟩
    · rintro (hl | hl)
      · cases hl
      · simp [hann] at hl
  | late hs hc ht h0 hlate =>
    rw [if_neg h0] at hann
    refine ⟨hp.closed, fun _ => hopen, nofun, hp.flags, fun graceful hg => ?_, nofun, hp.shape,
      hp.unset, fun _ => hlate⟩
    cases hg
    exact ⟨hc, ht, h0, hann⟩
  | waiting _ _ _ _ _ => exact sane_working hp hw trivial

/-- Behind a graceful announcement the process goes on, behind a forceful one it ends. -/
theorem sane_sent {graceful : Bool} (hp : Sane a now p) (h : p.place = .sending graceful) :
    Sane a now { p with
      place := if graceful then .top else .leaving
      sent := p.sent ++ [shutdownMsg graceful] } := by
  obtain ⟨hc, ht, h0, hann⟩ := hp.sending graceful h
  have hopen := hp.opened (h ▸ nofun)
  have hnew : announcements (p.sent ++ [shutdownMsg graceful]) = if graceful then [true]
      else [true, false] := by
    rw [announcements_append, asksFor_shutdownMsg, hann]
    cases graceful <;> rfl
  cases graceful with
  | true =>
    refine ⟨hp.closed, fun _ => hopen, nofun, hp.flags, nofun, fun _ => ?_, ?_,
      fun h => absurd h h0, ?_⟩
    · exact hnew.trans (if_neg h0).symm
    · rw [hnew]
      exact ⟨[false], rfl⟩
    · rintro (hl | hl)
      · cases hl
      · rw [hnew] at hl
        cases hl
  | false =>
    refine ⟨hp.closed, fun _ => hopen, nofun, hp.flags, nofun, nofun, ?_,
      fun h => absurd h h0, fun _ => ?_⟩
    · rw [hnew]
      exact ⟨[], rfl⟩
    · exact hp.late (.inl h)

theorem sane_panicked (hp : Sane a now p) (stack : List UInt8) :
    Sane a now { p with sent := p.sent ++ [panicText ++ stack] }.exit := by
  refine sane_exit (p := { p with sent := p.sent ++ [panicText ++ stack] }) ?_
  have hsame : announcements (p.sent ++ [panicText ++ stack]) = announcements p.sent := by
    rw [announcements_append, asksFor_panic, Option.toList_none, List.append_nil]
  exact {
    closed := hp.closed
    opened := hp.opened
    gone := hp.gone
    flags := hp.flags
    sending := fun graceful h => by rw [hsame]; exact hp.sending graceful h
    working := fun h => by rw [hsame]; exact hp.working h
    shape := by rw [hsame]; exact hp.shape
    unset := fun h => by rw [hsame]; exact hp.unset h
    late := fun h => by rw [hsame] at h; exact hp.late h }

/-! ## Both processes -/

/-- What a process has sent the other one has received, or it is still on its way, in order. -/
def Linked (s : System) : Prop :=
  ∀ a : Side, (s.processes a).sent = (s.processes a.other).received ++ (s.processes a.other).inbox

structure Sound (s : System) : Prop where
  clock : 0 < s.now
  sane : ∀ a, Sane a s.now (s.processes a)
  linked : Linked s

theorem sound_started {s : System} (h : Started s) : Sound s := by
  refine ⟨h.2, fun a => ?_, fun a => ?_⟩
  · rw [h.1]
    exact sane_created a s.now
  · rw [h.1, h.1]
    rfl

variable {s t : System} {act : Act}

@[simp] theorem set_self (s : System) (a : Side) (p : Process) : (s.set a p).processes a = p := by
  simp [System.set]

@[simp] theorem set_other (s : System) (a : Side) (p : Process) :
    (s.set a p).processes a.other = s.processes a.other := by simp [System.set]

@[simp] theorem set_now (s : System) (a : Side) (p : Process) : (s.set a p).now = s.now := rfl

@[simp] theorem post_self (s : System) (a : Side) (msg : List UInt8) :
    (s.post a msg).processes a = { s.processes a with sent := (s.processes a).sent ++ [msg] } := by
  simp [System.post]

@[simp] theorem post_other (s : System) (a : Side) (msg : List UInt8) :
    (s.post a msg).processes a.other =
    { s.processes a.other with inbox := (s.processes a.other).inbox ++ [msg] } := by
  simp [System.post]

@[simp] theorem post_now (s : System) (a : Side) (msg : List UInt8) : (s.post a msg).now = s.now :=
  rfl

/-- A step of one side that touches neither its messages nor the other process. -/
theorem sound_set (hs : Sound s) {p : Process} (hp : Sane a s.now p)
    (hsent : p.sent = (s.processes a).sent)
    (hin : p.received ++ p.inbox = (s.processes a).received ++ (s.processes a).inbox) :
    Sound (s.set a p) := by
  refine ⟨hs.clock, fun b => ?_, fun b => ?_⟩
  · rcases eq_or_other a b with rfl | rfl
    · rwa [set_self]
    · rw [set_other]
      exact hs.sane _
  · rcases eq_or_other a b with rfl | rfl
    · rw [set_self, set_other, hsent]
      exact hs.linked _
    · rw [set_other, Handshake.other_other, set_self, hin]
      have h := hs.linked a.other
      rwa [Handshake.other_other] at h

/-- A message is on its way until the other side receives it. -/
theorem sound_post (hs : Sound s) {p : Process} {msg : List UInt8} (hp : Sane a s.now p)
    (hsent : p.sent = (s.processes a).sent ++ [msg]) (hrec : p.received = (s.processes a).received)
    (hin : p.inbox = (s.processes a).inbox) : Sound ((s.post a msg).set a p) := by
  refine ⟨hs.clock, fun b => ?_, fun b => ?_⟩
  · rcases eq_or_other a b with rfl | rfl
    · rwa [set_self]
    · rw [set_other, post_other]
      exact sane_inbox (hs.sane _) _
  · rcases eq_or_other a b with rfl | rfl
    · rw [set_self, set_other, post_other, hsent, hs.linked b, List.append_assoc]
    · rw [set_other, Handshake.other_other, set_self, post_other, hrec, hin]
      have h := hs.linked a.other
      rwa [Handshake.other_other] at h

theorem sound_effect (hs : Sound s) (h : Effect s a act t) : Sound t := by
  have hp := hs.sane a
  cases h with
  | moved hm => exact sound_set hs (sane_moved hp hm) rfl rfl
  | signalled _ => exact sound_set hs (sane_signalled hp) rfl rfl
  | tested htop =>
    have hq := sane_tested hs.clock hp htop
    have hhead := head_cases a s.now (s.processes a)
    generalize headOfLoop a s.now (s.processes a) = q at hq hhead ⊢
    cases hhead <;> exact sound_set hs hq rfl rfl
  | @sent graceful hplace _ =>
    have hq := sound_post hs (sane_sent hp hplace) rfl rfl rfl
    convert hq using 1
    simp only [System.post, System.set, System.mk.injEq, and_true]
    funext b
    rcases eq_or_other a b with rfl | rfl
    · simp
    · simp
  | @message msg rest hplace _ hin =>
    have hq := sane_received (p := { s.processes a with inbox := rest }) (sane_inbox hp rest)
      (by rw [show _ = _ from hplace]; trivial) msg
    rcases receive_cases
      { s.processes a with inbox := rest, received := (s.processes a).received ++ [msg] } msg with
      ⟨graceful, _, heq⟩ | ⟨_, heq | heq⟩
    all_goals
      rw [heq] at hq ⊢
      refine sound_set hs hq rfl ?_
      simp [handleControlShutdown, hin]
  | closed hplace _ _ _ =>
    have hw : Working (s.processes a).place := by rw [hplace]; trivial
    exact sound_set hs (sane_working (sane_closed hp hw) hw trivial) rfl rfl
  | waits _ hplace =>
    have hw : Working (s.processes a).place := by rw [hplace]; trivial
    exact sound_set hs (sane_working hp hw trivial) rfl rfl
  | reaps _ _ _ => exact sound_set hs (sane_exit hp) rfl rfl
  | wakeupClosed hplace _ _ =>
    have hw : Working (s.processes a).place := by
      rcases hplace with hplace | hplace <;> rw [hplace] <;> trivial
    exact sound_set hs (sane_working (sane_wakeupClosed hp) hw trivial) rfl rfl
  | @panicked stack _ _ =>
    refine sound_post hs ?_ ?_ ?_ ?_
    · rw [post_self]
      exact sane_panicked hp stack
    all_goals
      rw [post_self]
      rfl
  | ended _ => exact sound_set hs (sane_exit hp) rfl rfl

theorem sound_step {l : Label} (hs : Sound s) (h : step s l = some t) : Sound t := by
  cases l with
  | tick =>
    cases h
    exact ⟨Nat.lt_succ_of_lt hs.clock, fun a => sane_later (hs.sane a), hs.linked⟩
  | act a act => exact sound_effect hs (effect_of_step h)

theorem sound_run {s₀ : System} {labels : List Label} (h₀ : Started s₀)
    (h : Run (ofFun step) s₀ labels s) : Sound s :=
  h.invariant Sound (sound_started h₀) fun _ _ _ => sound_step

/-- What holds of a process whatever happens to the two. -/
structure Disciplined (s : System) (a : Side) : Prop where
  /-- No message is sent on a closed descriptor. -/
  open_sending : ∀ graceful, (s.processes a).place = .sending graceful →
    (s.processes a).controlFd = true
  /-- The descriptor stays open until the other end is seen closed or the process has ended. -/
  open_until : (s.processes a).controlFd = false ↔
    (s.processes a).controlFdClosed = true ∨ (s.processes a).place = .gone
  /-- One graceful announcement, and behind it one forceful one. -/
  order : announcements (s.processes a).sent <+: [true, false]
  /-- The forceful one comes more than five seconds after the decision to send the graceful one. -/
  late : false ∈ announcements (s.processes a).sent →
    patience < s.now - (s.processes a).shutdownTimestamp
  /-- A child that has been told to stop does not announce anything any more. -/
  told : a = .right → ∀ graceful, (s.processes a).place = .sending graceful →
    announcements (s.processes a).received = []
  /-- The two flags are those of the last announcement received, and never both set. -/
  flags : ((s.processes a).shouldGracefulShutdown, (s.processes a).shouldForcedShutdown) =
    flagsAfter (s.processes a).received
  /-- Messages arrive in order, each once. -/
  arrive : (s.processes a).received <+: (s.processes a.other).sent

theorem disciplined_of_sound (hs : Sound s) (a : Side) : Disciplined s a := by
  have hp := hs.sane a
  refine ⟨fun graceful h => ?_, ⟨fun h => ?_, fun h => ?_⟩, hp.shape, fun h => ?_,
    fun ha graceful h => ?_, hp.flags, ?_⟩
  · exact hp.opened (h ▸ nofun) (hp.sending graceful h).1
  · by_cases hg : (s.processes a).place = .gone
    · exact .inr hg
    · refine .inl (Bool.not_eq_false _ ▸ fun hc => ?_)
      rw [hp.opened hg hc] at h
      cases h
  · exact h.elim (fun h => (hp.closed h).2.1) fun h => (hp.gone h).1
  · refine hp.late (.inr ?_)
    have hshape := hp.shape
    generalize announcements (s.processes a).sent = l at h hshape
    match l, hshape with
    | [], _ => cases h
    | [x], hshape => simp_all
    | [x, y], hshape => exact hshape.eq_of_length rfl
    | _ :: _ :: _ :: _, hshape => exact absurd hshape.length_le (by simp)
  · have hnot := (hp.sending graceful h).2.1
    refine flagsAfter_none (hp.flags.symm.trans (Prod.ext ?_ ?_))
    · exact Bool.eq_false_iff.mpr fun hg => hnot ⟨ha, .inl hg⟩
    · exact Bool.eq_false_iff.mpr fun hf => hnot ⟨ha, .inr hf⟩
  · have h := hs.linked a.other
    rw [Handshake.other_other] at h
    exact h ▸ List.prefix_append _ _

theorem shutdown_disciplined {s₀ : System} {labels : List Label} (h₀ : Started s₀)
    (h : Run (ofFun step) s₀ labels s) (a : Side) : Disciplined s a :=
  disciplined_of_sound (sound_run h₀ h) a

def started : System := ⟨fun _ => Process.created, 1⟩

theorem started_started : Started started := ⟨fun _ => rfl, Nat.one_pos⟩

/-- The parent is asked to stop, tells the child, and ends behind it. -/
def asked : List Label :=
  [.act .left .start, .act .right .start, .act .left .signal, .act .left .test,
    .act .left .send, .act .right .test, .act .right .receive, .act .right .endRound,
    .act .right .test, .act .right .closeFds, .act .left .test, .act .left .receive,
    .act .left .endRound, .act .left .test, .act .left .closeFds]

theorem shutdown_disciplined_asked :
    ∃ s, Run (ofFun step) started asked s ∧ (∀ a, (s.processes a).place = .gone) ∧
      ∀ a, Disciplined s a := by
  have heval : (runFun step asked started).map
      (fun s => ((s.processes .left).place, (s.processes .right).place)) = some (.gone, .gone) := by
    decide
  obtain ⟨s, hs, hgone⟩ := Option.map_eq_some_iff.mp heval
  obtain ⟨hleft, hright⟩ := Prod.mk.inj hgone
  have hrun := run_of_runFun hs
  refine ⟨s, hrun, fun a => ?_, shutdown_disciplined started_started hrun⟩
  cases a with
  | left => exact hleft
  | right => exact hright

end ShmIpcShutdownSafety
