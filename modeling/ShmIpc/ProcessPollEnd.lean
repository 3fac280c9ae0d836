import ShmIpc.ProcessPoll

/-!
# How a process leaves its poll

The process keeps to what the poll asks of its users. When it returns both events
are out of the poll and each descriptor has been closed once, but `::exit(220)`
finds the control descriptor in the table.
-/
namespace ShmIpcProcessPollEnd

open LabelledRun ShmIpcPollTable ShmIpcProcessPoll
open ShmIpcPoll hiding Act Admitted Place step
open ShmIpcRouterFds hiding Act Admitted step
open ShmIpcControlFd (Tape WouldBlock)

variable {F : EventId → Int} {s s' : Fds} {poll poll' : Poll} {e e' : EventId}
    {p p' p₀ : Process} {a : Act}
  {acts : List Act}

/-! ## What the poll asks of its users -/

abbrev PollRun := Run (guarded ShmIpcPoll.Admitted (ofFun ShmIpcPoll.step))

/-- What has been done to the poll on the way from one to the other is a run of a poll that is used
from outside of `process` or from a callback, and the poll admits each act of it when it is made. -/
def Makes (s s' : Fds) : Prop :=
  ∃ bs, s'.made = s.made ++ bs ∧
    ∀ m : Loop, callable m.place → m.poll = s.poll → PollRun m bs { m with poll := s'.poll }

theorem Makes.refl (s : Fds) : Makes s s := by
  refine ⟨[], (List.append_nil _).symm, ?_⟩
  rintro m - hpoll
  rw [← hpoll]
  exact .nil m

theorem Makes.trans {s₁ s₂ s₃ : Fds} (h : Makes s₁ s₂) (h' : Makes s₂ s₃) : Makes s₁ s₃ := by
  obtain ⟨bs, hbs, hrun⟩ := h
  obtain ⟨cs, hcs, hrun'⟩ := h'
  refine ⟨bs ++ cs, by rw [hcs, hbs, List.append_assoc], fun m hm hpoll => ?_⟩
  exact (hrun m hm hpoll).append (hrun' { m with poll := s₂.poll } hm rfl)

/-- What is done to the poll from outside of `process` or from a callback. -/
theorem step_callable {m : Loop} (hm : callable m.place) :
    (∀ c, ShmIpcPoll.step m (.call c) = some { m with poll := (c.perform m.poll).2 }) ∧
      (∀ fd, ShmIpcPoll.step m (.closeDescriptor fd) =
        some { m with poll := dropFilters m.poll fd }) ∧
      ∀ e fd, ShmIpcPoll.step m (.setFileDescriptor e fd) =
        some { m with poll := setFileDescriptor m.poll e fd } := by
  obtain ⟨poll, place, count⟩ := m
  cases place with
  | walking rest => cases hm
  | outside => exact ⟨fun _ => rfl, fun _ => rfl, fun _ _ => rfl⟩
  | calling callback q info rest => exact ⟨fun _ => rfl, fun _ => rfl, fun _ _ => rfl⟩

/-- One act of the poll that is logged when it is made. -/
theorem makes_single {s s' : Fds} {b : ShmIpcPoll.Act} (hmade : s'.made = s.made ++ [b])
    (hadm : ∀ m : Loop, m.poll = s.poll → ShmIpcPoll.Admitted m b)
    (hstep : ∀ m : Loop, callable m.place → m.poll = s.poll →
      ShmIpcPoll.step m b = some { m with poll := s'.poll }) : Makes s s' :=
  ⟨[b], hmade, fun m hm hpoll => .single ⟨hadm m hpoll, hstep m hm hpoll⟩⟩

theorem makes_onPoll (s : Fds) (c : Call) : Makes s (onPoll s c).2 := by
  refine makes_single (b := .call c) rfl (fun _ _ => trivial) fun m hm hpoll => ?_
  rw [(step_callable hm).1, hpoll]
  rfl

/-- `fd_close` of a descriptor that is not in the table. -/
theorem makes_fdClose (s : Fds) {fd : Int} (h : s.poll.mTable fd = none)
    (hstd : ¬ (fd = 0 ∨ fd = 1 ∨ fd = 2)) : Makes s (fdClose s fd).2 := by
  rw [fdClose, if_neg hstd]
  have hadm : ∀ m : Loop, m.poll = s.poll → ShmIpcPoll.Admitted m (.closeDescriptor fd) := by
    rintro m hpoll
    change m.poll.mTable fd = none
    rw [hpoll, h]
  refine makes_single rfl hadm fun m hm hpoll => ?_
  rw [(step_callable hm).2.1, hpoll]

theorem makes_forget (s : Fds) {e : EventId} (h : (s.poll.events e).mPollEvent = none) :
    Makes s (forget s e) := by
  have hadm : ∀ m : Loop, m.poll = s.poll → ShmIpcPoll.Admitted m (.setFileDescriptor e (-1)) := by
    rintro m hpoll
    change (m.poll.events e).mPollEvent = none
    rw [hpoll, h]
  refine makes_single rfl hadm fun m hm hpoll => ?_
  rw [(step_callable hm).2.2, hpoll]
  rfl

/-- Everything that has been done to the poll between two moments is a run of it, and the poll
admits each act of it when it is made. -/
def AsAsked (t t' : State) : Prop :=
  ∃ bs, t'.made = t.made ++ bs ∧ PollRun t.loop bs t'.loop

theorem AsAsked.refl (t : State) : AsAsked t t := ⟨[], (List.append_nil _).symm, .nil _⟩

theorem AsAsked.trans {t₁ t₂ t₃ : State} (h : AsAsked t₁ t₂) (h' : AsAsked t₂ t₃) :
    AsAsked t₁ t₃ := by
  obtain ⟨bs, hbs, hrun⟩ := h
  obtain ⟨cs, hcs, hrun'⟩ := h'
  exact ⟨bs ++ cs, by rw [hcs, hbs, List.append_assoc], hrun.append hrun'⟩

theorem Makes.asAsked {t : State} {r : Outcome} (h : Makes t.fds r.2)
    (hcall : callable t.loop.place) : AsAsked t (t.put r) := by
  obtain ⟨bs, hbs, hrun⟩ := h
  exact ⟨bs, hbs, hrun t.loop hcall rfl⟩

/-! ## One event -/

/-- The event is in the poll, under a descriptor that nobody has closed. -/
structure Polled (F : EventId → Int) (s : Fds) (e : EventId) : Prop where
  unclosed : Unclosed (F e) e s
  pollEvent : (s.poll.events e).mPollEvent ≠ none

/-- The event is out of the poll, and its descriptor is among those that have been closed. -/
structure Closed (F : EventId → Int) (s : Fds) (e : EventId) : Prop where
  gone : Gone s.poll e
  logged : F e ∈ s.closes.map Prod.fst

/-- `open_and_insert_read` gets to its end for an event with a descriptor of its own. -/
theorem openAndInsertRead_open (hfd : (poll.events e).mFileDesc ≠ -1)
    (hpe : (poll.events e).mPollEvent = none)
    (htable : poll.mTable (poll.events e).mFileDesc = none) :
    ∃ poll', openAndInsertRead poll e = (.ok (), poll') ∧ (poll'.events e).mPollEvent ≠ none := by
  have hopened : openEvent poll e = (.ok (), opened poll e) := by
    simp only [openEvent, hpe, htable, if_neg hfd, ne_eq, not_true_eq_false, if_false]
    rfl
  have hfound : (opened poll e).mTable (poll.events e).mFileDesc = some poll.nextPollEvent := by
    simp [opened]
  have hl : Linked (opened poll e) (poll.events e).mFileDesc poll.nextPollEvent e :=
    ⟨hfd, Nat.lt_succ_self _, by simp [opened], by simp [opened], by simp [opened]⟩
  have hmask : eventMask (opened poll e) e = .ok 0 := by
    rw [eventMask_linked hfound hl]
    simp [opened]
  obtain ⟨kernel, changes, heq, -⟩ :=
    modify_eq (remasked (opened poll e) poll.nextPollEvent flagRead (opened poll e).kernel
      (opened poll e).mChanges) e .add .read
  have hinsert : openAndInsertRead poll e =
      (.ok (), remasked (opened poll e) poll.nextPollEvent flagRead kernel changes) := by
    have hset := setEventMask_eq hl (0 ||| flagRead)
    rw [UInt32.zero_or] at hset
    simp only [openAndInsertRead, hopened, andThen, insertRead, insertFlag, hmask,
      UInt32.zero_and, ne_eq, not_true_eq_false, if_false, UInt32.zero_or, hset, heq]
    rfl
  refine ⟨_, hinsert, ?_⟩
  change ((opened poll e).events e).mPollEvent ≠ none
  rw [hl.pollEvent]
  exact Option.some_ne_none _

/-- What `close` leaves behind for an event in the poll. -/
structure Ending (F : EventId → Int) (s s' : Fds) (e : EventId) : Prop where
  tidy : Tidy F s'
  closed : Closed F s' e
  closes : s'.closes.map Prod.fst = s.closes.map Prod.fst ++ [F e]
  frame : ∀ e', e' ≠ e → s'.poll.events e' = s.poll.events e'
  makes : Makes s s'

/-- `close` takes the event out of the poll, closes the descriptor and forgets it. -/
theorem closeEvent_polled_eq (hF : ∀ e, Mine e → 2 < F e) (hs : Tidy F s) (he : Mine e)
    (h : Polled F s e) : ∃ s₁, onPoll s (.removeAndClose e) = (.ok (), s₁) ∧
      TakenOut s.poll s₁.poll e ∧ s₁.closes = s.closes ∧ s₁.poll.mTable (F e) = none ∧
      closeEvent e s = (.ok (), forget (fdClose s₁ (F e)).2 e) := by
  obtain ⟨q, hq⟩ := Option.ne_none_iff_exists'.mp h.pollEvent
  obtain ⟨poll', hremove, ht⟩ := removeAndClose_open hs.sound hq
  have hremoved := onPoll_eq (c := .removeAndClose e) hremove
  have hpos := hF e he
  have hfd : ¬ F e = -1 := by omega
  have hstd : ¬ (F e = 0 ∨ F e = 1 ∨ F e = 2) := by omega
  have hfd' : (poll'.events e).mFileDesc = F e := by simp [ht.events, h.unclosed.fileDesc]
  have htable : poll'.mTable (F e) = none := by
    rw [ht.table, h.unclosed.fileDesc, Function.update_self]
  refine ⟨_, hremoved, ht, rfl, htable, ?_⟩
  simp only [closeEvent, h.unclosed.fileDesc, hfd, if_false, if_pos h.pollEvent, hremoved, andThen,
    hfd', fdClose, hstd]

theorem closeEvent_ending (hF : ∀ e, Mine e → 2 < F e) (hs : Tidy F s) (he : Mine e)
    (h : Polled F s e) : ∃ s', closeEvent e s = (.ok (), s') ∧ Ending F s s' e := by
  obtain ⟨s₁, hremove, ht, hcl, htable, heq⟩ := closeEvent_polled_eq hF hs he h
  obtain ⟨s', heq', hcloses⟩ := closeEvent_closes hF hs he
  obtain rfl := (Prod.mk.inj (heq.symm.trans heq')).2
  have hpos := hF e he
  have hstd : ¬ (F e = 0 ∨ F e = 1 ∨ F e = 2) := by omega
  have hdropped : (fdClose s₁ (F e)).2.poll = s₁.poll := by
    rw [fdClose, if_neg hstd]
    exact dropFilters_eq ht.sound htable
  have hlogged : (fdClose s₁ (F e)).2.closes = s.closes ++ [(F e, s₁.poll)] := by
    rw [fdClose, if_neg hstd, hcl]
  have hout : ((fdClose s₁ (F e)).2.poll.events e).mPollEvent = none := by
    rw [hdropped]
    simp [ht.events]
  refine ⟨_, heq, hcloses.tidy, ⟨hcloses.gone, ?_⟩, ?_, fun e' hne => ?_, ?_⟩
  · simp [forget, hlogged]
  · simp [forget, hlogged]
  · simp only [forget, setFileDescriptor, hdropped, ht.events, Function.update_of_ne hne]
  · have hremoved := makes_onPoll s (.removeAndClose e)
    rw [hremove] at hremoved
    exact (hremoved.trans (makes_fdClose s₁ htable hstd)).trans (makes_forget _ hout)

theorem closeEvent_closed (h : Closed F s e) : closeEvent e s = (.ok (), s) := by
  rw [closeEvent, if_pos h.gone.fileDesc]

theorem Ending.closed_other (h : Ending F s s' e) (hne : e' ≠ e) (hc : Closed F s e') :
    Closed F s' e' := by
  refine ⟨⟨?_, ?_⟩, ?_⟩
  · rw [h.frame e' hne]
    exact hc.gone.fileDesc
  · rw [h.frame e' hne]
    exact hc.gone.pollEvent
  · rw [h.closes]
    exact List.mem_append_left _ hc.logged

theorem Ending.polled_other (h : Ending F s s' e) (he' : Mine e') (hne : e' ≠ e)
    (hp : Polled F s e') : Polled F s' e' := by
  have hpe : (s'.poll.events e').mPollEvent ≠ none := by
    rw [h.frame e' hne]
    exact hp.pollEvent
  rcases h.tidy.fate e' he' with hu | hg
  · exact ⟨hu, hpe⟩
  · exact absurd hg.pollEvent hpe

/-! ## Both events -/

/-- In the loop both events are in the poll, or both are closed. -/
def Both (F : EventId → Int) (s : Fds) : Prop :=
  (Polled F s control ∧ Polled F s wakeup) ∨ (Closed F s control ∧ Closed F s wakeup)

def Inside (place : Place) : Prop := place = .looping ∨ place = .processing ∨ place = .leaving

/-- What has become of the two events when the process stands at a place. -/
inductive Stands (F : EventId → Int) (s : Fds) : Place → Prop where
  | setup : (∀ e, Mine e → Unclosed (F e) e s ∧ (s.poll.events e).mPollEvent = none) →
      Stands F s .setup
  | inside {place : Place} : Inside place → Both F s → Stands F s place
  | returned : Closed F s control → Closed F s wakeup → Stands F s .returned
  -- only the end of the wakeup stream closes one of them
  | half {place : Place} : place = .blocked ∨ place = .exited → Polled F s control →
      Closed F s wakeup → Stands F s place

structure Inv (F : EventId → Int) (p : Process) : Prop where
  tidy : Tidy F p.router.fds
  others : ∀ e, ¬ Mine e → (p.router.loop.poll.events e).mPollEvent = none
  stands : Stands F p.router.fds p.place
  outside : p.place = .setup ∨ p.place = .looping ∨ p.place = .leaving →
    p.router.loop.place = .outside

theorem Stands.both {place : Place} (h : Stands F s place) (hin : Inside place) : Both F s := by
  cases h with
  | inside _ hb => exact hb
  | setup _ => rcases hin with hp | hp | hp <;> cases hp
  | returned _ _ => rcases hin with hp | hp | hp <;> cases hp
  | half hplace _ _ => rcases hplace with rfl | rfl <;> rcases hin with hp | hp | hp <;> cases hp

theorem wakeup_ne_control : wakeup ≠ control := by decide

/-- What `close_fds` leaves behind. -/
structure BothClosed (F : EventId → Int) (s s' : Fds) : Prop where
  tidy : Tidy F s'
  control : Closed F s' control
  wakeup : Closed F s' wakeup
  frame : ∀ e, ¬ Mine e → s'.poll.events e = s.poll.events e
  makes : Makes s s'

/-- `close_fds` in the loop closes both events, or finds them closed. -/
theorem closeFds_both (hF : ∀ e, Mine e → 2 < F e) (hs : Tidy F s) (h : Both F s) :
    ∃ s', closeFds s = (.ok (), s') ∧ BothClosed F s s' := by
  rcases h with ⟨hc, hw⟩ | ⟨hc, hw⟩
  · obtain ⟨s₁, h₁, hend₁⟩ := closeEvent_ending hF hs (.inl rfl) hc
    have hw₁ := hend₁.polled_other (.inr rfl) wakeup_ne_control hw
    obtain ⟨s₂, h₂, hend₂⟩ := closeEvent_ending hF hend₁.tidy (.inr rfl) hw₁
    refine ⟨s₂, ?_, hend₂.tidy, hend₂.closed_other wakeup_ne_control.symm hend₁.closed,
      hend₂.closed, fun e he => ?_, hend₁.makes.trans hend₂.makes⟩
    · simp only [closeFds, controlClose, wakeupClose, h₁, h₂, andThen]
    · rw [hend₂.frame e fun heq => he (.inr heq), hend₁.frame e fun heq => he (.inl heq)]
  · refine ⟨s, ?_, hs, hc, hw, fun _ _ => rfl, .refl _⟩
    simp only [closeFds, controlClose, wakeupClose, closeEvent_closed hc,
      closeEvent_closed hw, andThen]

/-- An event with a descriptor of its own goes into the poll. -/
theorem openAndInsertRead_polled (hF : ∀ e, Mine e → 2 < F e) (hs : Tidy F s) (he : Mine e)
    (hu : Unclosed (F e) e s) (hpe : (s.poll.events e).mPollEvent = none) :
    ∃ s', onPoll s (.openAndInsertRead e) = (.ok (), s') ∧ Tidy F s' ∧ Polled F s' e ∧
      EventFrame s.poll s'.poll e ∧ s'.closes = s.closes := by
  have hfd : (s.poll.events e).mFileDesc ≠ -1 := by
    have := hF e he
    rw [hu.fileDesc]
    omega
  have htable : s.poll.mTable (s.poll.events e).mFileDesc = none := by
    rw [hu.fileDesc]
    exact untabled_of_alone hs hu hpe
  obtain ⟨poll', heq, hopen⟩ := openAndInsertRead_open hfd hpe htable
  have hframe : EventFrame s.poll poll' e := by
    have := eventFrame_perform (p := s.poll) (.openAndInsertRead e)
    rwa [Call.perform, heq] at this
  have hopened := onPoll_eq (c := .openAndInsertRead e) heq
  have htidy := tidy_openAndInsertRead hs e
  rw [hopened] at htidy
  refine ⟨_, hopened, htidy, ⟨⟨?_, fun e' hne => ?_, hu.fresh⟩, hopen⟩, hframe, rfl⟩
  · exact (hframe.fileDesc e).trans hu.fileDesc
  · rw [hframe.fileDesc]
    exact hu.alone e' hne

/-- The other events keep their descriptors when one goes into the poll. -/
theorem unclosed_frame {fd : Int} (hu : Unclosed fd e' s) (hframe : EventFrame s.poll s'.poll e)
    (hcl : s'.closes = s.closes) : Unclosed fd e' s' := by
  refine ⟨(hframe.fileDesc _).trans hu.fileDesc, fun e'' hne => ?_, ?_⟩
  · rw [hframe.fileDesc]
    exact hu.alone e'' hne
  · rw [hcl]
    exact hu.fresh

/-- `open_fds` gets to its end. -/
theorem openFds_both (hF : ∀ e, Mine e → 2 < F e) (hs : Tidy F s)
    (h : ∀ e, Mine e → Unclosed (F e) e s ∧ (s.poll.events e).mPollEvent = none) :
    ∃ s', openFds s = (.ok (), s') ∧ Tidy F s' ∧ Both F s' ∧
      (∀ e, ¬ Mine e → (s'.poll.events e).mPollEvent = (s.poll.events e).mPollEvent) ∧
      Makes s s' := by
  obtain ⟨hu, hpe⟩ := h control (.inl rfl)
  obtain ⟨s₁, h₁, hs₁, hc₁, hframe₁, hcl₁⟩ := openAndInsertRead_polled hF hs (.inl rfl) hu hpe
  obtain ⟨hu', hpe'⟩ := h wakeup (.inr rfl)
  have hu₁ := unclosed_frame hu' hframe₁ hcl₁
  have hpe₁ := (hframe₁.pollEvent _ wakeup_ne_control).trans hpe'
  obtain ⟨s₂, h₂, hs₂, hw₂, hframe₂, hcl₂⟩ := openAndInsertRead_polled hF hs₁ (.inr rfl) hu₁ hpe₁
  have hc₂ : Polled F s₂ control := by
    refine ⟨unclosed_frame hc₁.unclosed hframe₂ hcl₂, ?_⟩
    rw [hframe₂.pollEvent _ wakeup_ne_control.symm]
    exact hc₁.pollEvent
  refine ⟨s₂, ?_, hs₂, .inl ⟨hc₂, hw₂⟩, fun e he => ?_, ?_⟩
  · simp only [openFds, h₁, h₂, andThen]
  · exact (hframe₂.pollEvent e fun heq => he (.inr heq)).trans
      (hframe₁.pollEvent e fun heq => he (.inl heq))
  · have hmakes₁ := makes_onPoll s (.openAndInsertRead control)
    have hmakes₂ := makes_onPoll s₁ (.openAndInsertRead wakeup)
    rw [h₁] at hmakes₁
    rw [h₂] at hmakes₂
    exact hmakes₁.trans hmakes₂

/-! ## Steps -/

/-- The acts of the loop of the poll that call nothing. -/
def Quiet : ShmIpcPoll.Act → Prop
  | .call _ | .setFileDescriptor _ _ | .closeDescriptor _ => False
  | _ => True

variable {m m' : Loop} {b : ShmIpcPoll.Act}

theorem quiet_events (hq : Quiet b) (h : ShmIpcPoll.step m b = some m') :
    m'.poll.events = m.poll.events := by
  cases effect_of_step h with
  | call | setFileDescriptor | closeDescriptor => exact hq.elim
  | interrupted | doPoll | skip | throws | callback | returned | complained | thrown | finish => rfl

theorem quiet_foreign (hq : Quiet b) : Foreign m.poll b := by
  cases b with
  | call | setFileDescriptor | closeDescriptor => exact hq.elim
  | interrupted | doPoll | next | returned | thrown | finish => exact trivial

theorem Both.congr (h : Both F s) (hev : s'.poll.events = s.poll.events)
    (hcl : s'.closes = s.closes) : Both F s' := by
  have hpolled : ∀ e, Polled F s e → Polled F s' e := by
    intro e he
    refine ⟨⟨?_, ?_, ?_⟩, ?_⟩
    · rw [hev]
      exact he.unclosed.fileDesc
    · rw [hev]
      exact he.unclosed.alone
    · rw [hcl]
      exact he.unclosed.fresh
    · rw [hev]
      exact he.pollEvent
  have hclosed : ∀ e, Closed F s e → Closed F s' e := by
    intro e he
    refine ⟨⟨?_, ?_⟩, ?_⟩
    · rw [hev]
      exact he.gone.fileDesc
    · rw [hev]
      exact he.gone.pollEvent
    · rw [hcl]
      exact he.logged
  rcases h with ⟨hc, hw⟩ | ⟨hc, hw⟩
  · exact .inl ⟨hpolled _ hc, hpolled _ hw⟩
  · exact .inr ⟨hclosed _ hc, hclosed _ hw⟩

/-- The process stands where it stood in front of an act of the loop, or elsewhere in it. -/
theorem inv_onLoop (hF : ∀ e, Mine e → 2 < F e) {u : State} {place place' : Place}
    (ht : Tidy F u.fds) (ho : ∀ e, ¬ Mine e → (u.loop.poll.events e).mPollEvent = none)
    (hb : Both F u.fds) (hq : Quiet b) (hadm : ShmIpcPoll.Admitted u.loop b)
    (h : Process.onLoop ⟨place, u⟩ place' b = some p') (hin : Inside place')
    (hout : ∀ m', ShmIpcPoll.step u.loop b = some m' → place' ≠ .processing → m'.place = .outside) :
    Inv F p' ∧ AsAsked u p'.router := by
  obtain ⟨m', hm', rfl⟩ := Option.map_eq_some_iff.mp h
  have hev := quiet_events hq hm'
  refine ⟨⟨?_, fun e he => ?_, ?_, fun hplace => ?_⟩, [b], rfl, .single ⟨hadm, hm'⟩⟩
  · exact tidy_foreign hF ht rfl hadm (quiet_foreign hq) hm'
  · change (m'.poll.events e).mPollEvent = none
    rw [hev]
    exact ho e he
  · exact .inside hin (hb.congr hev rfl)
  · refine hout m' hm' fun hproc => ?_
    change place' = _ ∨ place' = _ ∨ place' = _ at hplace
    rw [hproc] at hplace
    rcases hplace with h | h | h <;> cases h

theorem thrown_outside (h : ShmIpcPoll.step m .thrown = some m') : m'.place = .outside := by
  cases effect_of_step h with
  | thrown => rfl

theorem inv_afterCallback (hF : ∀ e, Mine e → 2 < F e) {r : Outcome} (ht : Tidy F r.2)
    (ho : ∀ e, ¬ Mine e → (r.2.poll.events e).mPollEvent = none) (hb : Both F r.2)
    (hmakes : Makes p.router.fds r.2) (hcall : callable p.router.loop.place)
    (h : p.afterCallback r = some p') : Inv F p' ∧ AsAsked p.router p'.router := by
  have hkept : Inv F p' ∧ AsAsked (p.router.put r) p'.router := by
    simp only [Process.afterCallback] at h
    split at h
    · exact inv_onLoop hF (u := p.router.put r) ht ho hb (b := .returned) trivial trivial h
        (.inr (.inl rfl)) fun _ _ hne => absurd rfl hne
    · exact inv_onLoop hF (u := p.router.put r) ht ho hb (b := .thrown) trivial trivial h
        (.inr (.inr rfl)) fun _ hm' _ => thrown_outside hm'
  exact ⟨hkept.1, (hmakes.asAsked hcall).trans hkept.2⟩

theorem reading_callable (h : reading m e = true) : callable m.place = true := by
  unfold reading at h
  split at h
  · rename_i hplace
    rw [hplace]
    rfl
  · cases h

/-- An event whose callback is running is in the poll. -/
theorem reading_polled (hp : Sound m.poll) (h : reading m e = true) :
    (m.poll.events e).mPollEvent ≠ none := by
  unfold reading at h
  split at h
  · rename_i q info rest hplace
    have hevent : (m.poll.pollEvents q).event = some e := by simpa using h
    by_cases htabled : ∃ fd, m.poll.mTable fd = some q
    · obtain ⟨fd, hfd⟩ := htabled
      obtain ⟨e', hl⟩ := hp.table fd q hfd
      obtain rfl := Option.some.inj (hevent.symm.trans hl.event)
      rw [hl.pollEvent]
      exact Option.some_ne_none q
    · have hdead := (hp.dead q fun fd hfd => htabled ⟨fd, hfd⟩).2
      cases hdead.symm.trans hevent
  · cases h

theorem controlEventRead_cases {tape : Tape} {r : Outcome} (h : controlEventRead s tape = some r) :
    r = closeFds s ∨ r.2 = s := by
  simp only [controlEventRead] at h
  split at h
  · cases h
  · exact .inl (Option.some.inj h).symm
  · exact .inr (by rw [← Option.some.inj h])
  · exact .inr (by rw [← Option.some.inj h])

theorem wakeupEventRead_cases {reads : List Read} {r : Outcome}
    (h : wakeupEventRead s reads = some r) :
    (meetsEnd reads = true ∧ r = wakeupClose s) ∨ (meetsEnd reads = false ∧ r.2 = s) := by
  induction reads with
  | nil => cases h
  | cons x reads ih =>
    cases x with
    | value => exact .inr ⟨rfl, by rw [← Option.some.inj h]⟩
    | zero => exact .inl ⟨rfl, (Option.some.inj h).symm⟩
    | other => exact .inr ⟨rfl, by rw [← Option.some.inj h]⟩
    | failed e =>
      simp only [wakeupEventRead] at h
      simp only [meetsEnd]
      by_cases hintr : e = .EINTR
      · rw [if_pos hintr] at h ⊢
        exact ih h
      · rw [if_neg hintr] at h ⊢
        refine .inr ⟨rfl, ?_⟩
        split at h
        all_goals rw [← Option.some.inj h]

theorem next_outside (h : ShmIpcPoll.step m .next = some m') (ht : nextThrows m = true) :
    m'.place = .outside := by
  obtain ⟨poll, place, count⟩ := m
  cases place with
  | outside => cases ht
  | calling callback q info rest => cases ht
  | walking rest =>
    cases rest with
    | nil => cases ht
    | cons entry rest =>
      simp only [nextThrows] at ht
      simp only [ShmIpcPoll.step] at h
      cases hd : dispatch poll entry with
      | skip => simp [hd] at ht
      | call callback q => simp [hd] at ht
      | throws msg =>
        rw [hd] at h
        rw [← Option.some.inj h]

theorem finish_outside (h : ShmIpcPoll.step m .finish = some m') : m'.place = .outside := by
  cases effect_of_step h with
  | finish => rfl

theorem interrupted_outside (h : ShmIpcPoll.step m .interrupted = some m') :
    m'.place = .outside := by
  cases effect_of_step h with
  | interrupted hplace => exact hplace

theorem callable_outside (h : m.place = .outside) : callable m.place = true := by rw [h]; rfl

theorem inv_openFds (hF : ∀ e, Mine e → 2 < F e) (h : Inv F p) (hplace : p.place = .setup)
    (hp' : p' = ⟨if (openFds p.router.fds).1.toBool then .looping else .returned,
      p.router.put (openFds p.router.fds)⟩) :
    Inv F p' ∧ AsAsked p.router p'.router := by
  have hout := h.outside (.inl hplace)
  have hsetup : ∀ e, Mine e → Unclosed (F e) e p.router.fds ∧
      (p.router.fds.poll.events e).mPollEvent = none := by
    have hstands := h.stands
    rw [hplace] at hstands
    cases hstands with
    | setup hall => exact hall
    | inside hin _ => rcases hin with hp | hp | hp <;> cases hp
    | half hhalf _ _ => rcases hhalf with hp | hp <;> cases hp
  obtain ⟨s', heq, ht, hb, hothers, hmakes⟩ := openFds_both hF h.tidy hsetup
  rw [heq] at hp'
  subst hp'
  refine ⟨⟨ht, fun e he => ?_, .inside (.inl rfl) hb, fun _ => hout⟩,
    hmakes.asAsked (callable_outside hout)⟩
  exact (hothers e he).trans (h.others e he)

/-- The callback of the control descriptor closes both events or changes nothing. -/
theorem inv_controlEventRead (hF : ∀ e, Mine e → 2 < F e) (h : Inv F p)
    (hplace : p.place = .processing) (hreading : reading p.router.loop control = true)
    {tape : Tape} {r : Outcome} (hr : controlEventRead p.router.fds tape = some r)
    (hafter : p.afterCallback r = some p') : Inv F p' ∧ AsAsked p.router p'.router := by
  have hb := h.stands.both (.inr (.inl hplace))
  have hcall := reading_callable hreading
  rcases controlEventRead_cases hr with rfl | hsame
  · obtain ⟨s', heq, hclosed⟩ := closeFds_both hF h.tidy hb
    rw [heq] at hafter
    have hothers : ∀ e, ¬ Mine e → (s'.poll.events e).mPollEvent = none := by
      intro e he
      rw [hclosed.frame e he]
      exact h.others e he
    exact inv_afterCallback hF (r := (.ok (), s')) hclosed.tidy hothers
      (.inr ⟨hclosed.control, hclosed.wakeup⟩) hclosed.makes hcall hafter
  · obtain ⟨res, s'⟩ := r
    obtain rfl : s' = p.router.fds := hsame
    exact inv_afterCallback hF h.tidy h.others hb (.refl _) hcall hafter

/-- The callback of the wakeup descriptor closes its event and blocks, or changes nothing. -/
theorem inv_wakeupEventRead (hF : ∀ e, Mine e → 2 < F e) (h : Inv F p)
    (hplace : p.place = .processing) (hreading : reading p.router.loop wakeup = true)
    {reads : List Read} {r : Outcome} (hr : wakeupEventRead p.router.fds reads = some r)
    (hafter : (if r.1.toBool && meetsEnd reads then some ⟨.blocked, p.router.put r⟩
      else p.afterCallback r) = some p') :
    Inv F p' ∧ AsAsked p.router p'.router := by
  have hb := h.stands.both (.inr (.inl hplace))
  have hcall := reading_callable hreading
  rcases wakeupEventRead_cases hr with ⟨hend, rfl⟩ | ⟨hend, hsame⟩
  · rcases hb with ⟨hcp, hwp⟩ | ⟨-, hwc⟩
    · obtain ⟨s', heq, hending⟩ := closeEvent_ending hF h.tidy (.inr rfl) hwp
      rw [wakeupClose, heq, hend] at hafter
      obtain rfl := (Option.some.inj hafter).symm
      refine ⟨⟨hending.tidy, fun e he => ?_, ?_, fun hplace => ?_⟩, hending.makes.asAsked hcall⟩
      · change (s'.poll.events e).mPollEvent = none
        rw [hending.frame e fun heq => he (.inr heq)]
        exact h.others e he
      · exact .half (.inl rfl) (hending.polled_other (.inl rfl) wakeup_ne_control.symm hcp)
          hending.closed
      · rcases hplace with hp | hp | hp <;> cases hp
    -- a closed event is out of the poll and has no callback
    · exact absurd hwc.gone.pollEvent (reading_polled h.tidy.sound hreading)
  · obtain ⟨res, s'⟩ := r
    obtain rfl : s' = p.router.fds := hsame
    simp only [hend, Bool.and_false, Bool.false_eq_true, if_false] at hafter
    exact inv_afterCallback hF h.tidy h.others hb (.refl _) hcall hafter

/-- Every step keeps the invariant and uses the poll as the poll asks. -/
theorem step_kept (hF : ∀ e, Mine e → 2 < F e) (h : Inv F p)
    (hstep : guarded Admitted (ofFun step) p a p') : Inv F p' ∧ AsAsked p.router p'.router := by
  obtain ⟨hadm, hstep⟩ := hstep
  have hstands := h.stands
  cases a with
  | openFds =>
    simp only [ofFun, step] at hstep
    split at hstep
    · exact inv_openFds hF h (by assumption) (Option.some.inj hstep).symm
    · cases hstep
  | interrupted =>
    simp only [ofFun, step] at hstep
    split at hstep
    · rename_i hplace
      exact inv_onLoop hF h.tidy h.others (hstands.both (.inl hplace)) (b := .interrupted) trivial
        trivial hstep (.inl rfl) fun _ hm' _ => interrupted_outside hm'
    · cases hstep
  | doPoll batch =>
    simp only [ofFun, step] at hstep
    split at hstep
    · rename_i hplace
      exact inv_onLoop hF h.tidy h.others (hstands.both (.inl hplace)) (b := .doPoll batch)
        trivial hadm hstep (.inr (.inl rfl)) fun _ _ hne => absurd rfl hne
    · cases hstep
  | next =>
    simp only [ofFun, step] at hstep
    split at hstep
    · rename_i hplace
      have hb := hstands.both (.inr (.inl hplace))
      cases hthrows : nextThrows p.router.loop with
      | true =>
        rw [hthrows, if_pos rfl] at hstep
        exact inv_onLoop hF h.tidy h.others hb (b := .next) trivial trivial hstep (.inr (.inr rfl))
          fun _ hm' _ => next_outside hm' hthrows
      | false =>
        rw [hthrows, if_neg Bool.false_ne_true] at hstep
        exact inv_onLoop hF h.tidy h.others hb (b := .next) trivial trivial hstep (.inr (.inl rfl))
          fun _ _ hne => absurd rfl hne
    · cases hstep
  | controlEventRead tape =>
    simp only [ofFun, step] at hstep
    split at hstep
    · rename_i hc
      obtain ⟨r, hr, hafter⟩ := Option.bind_eq_some_iff.mp hstep
      exact inv_controlEventRead hF h hc.1 hc.2 hr hafter
    · cases hstep
  | wakeupEventRead reads =>
    simp only [ofFun, step] at hstep
    split at hstep
    · rename_i hc
      obtain ⟨r, hr, hafter⟩ := Option.bind_eq_some_iff.mp hstep
      exact inv_wakeupEventRead hF h hc.1 hc.2 hr hafter
    · cases hstep
  | eventThrows =>
    simp only [ofFun, step] at hstep
    split at hstep
    · rename_i hc
      exact inv_onLoop hF h.tidy h.others (hstands.both (.inr (.inl hc.1))) (b := .thrown)
        trivial trivial hstep (.inr (.inr rfl)) fun _ hm' _ => thrown_outside hm'
    · cases hstep
  | finish =>
    simp only [ofFun, step] at hstep
    split at hstep
    · rename_i hplace
      exact inv_onLoop hF h.tidy h.others (hstands.both (.inr (.inl hplace))) (b := .finish)
        trivial trivial hstep (.inl rfl) fun _ hm' _ => finish_outside hm'
    · cases hstep
  | leave =>
    simp only [ofFun, step] at hstep
    split at hstep
    · rename_i hplace
      obtain rfl := Option.some.inj hstep
      exact ⟨⟨h.tidy, h.others, .inside (.inr (.inr rfl)) (hstands.both (.inl hplace)),
        fun _ => h.outside (.inr (.inl hplace))⟩, .refl _⟩
    · cases hstep
  | closeFds =>
    simp only [ofFun, step] at hstep
    split at hstep
    · rename_i hplace
      obtain ⟨s', heq, hclosed⟩ := closeFds_both hF h.tidy (hstands.both (.inr (.inr hplace)))
      rw [heq] at hstep
      obtain rfl := Option.some.inj hstep
      have hout := h.outside (.inr (.inr hplace))
      refine ⟨⟨hclosed.tidy, fun e he => ?_,
        .returned hclosed.control hclosed.wakeup, fun _ => hout⟩, hclosed.makes.asAsked
        (callable_outside hout)⟩
      change (s'.poll.events e).mPollEvent = none
      rw [hclosed.frame e he]
      exact h.others e he
    · cases hstep
  | exit =>
    simp only [ofFun, step] at hstep
    split at hstep
    · rename_i hplace
      obtain rfl := Option.some.inj hstep
      refine ⟨⟨h.tidy, h.others, ?_, fun hplace => ?_⟩, .refl _⟩
      · rw [hplace] at hstands
        cases hstands with
        | inside hin _ => rcases hin with hp | hp | hp <;> cases hp
        | half _ hc hw => exact .half (.inr rfl) hc hw
      · rcases hplace with hp | hp | hp <;> cases hp
    · cases hstep

/-! ## Runs -/

abbrev ProcessRun := Run (guarded Admitted (ofFun step))

/-- The descriptor that the Router was constructed with. -/
def handed (p₀ : Process) (e : EventId) : Int := (p₀.router.loop.poll.events e).mFileDesc

theorem inv_started (h₀ : Started p₀) : Inv (handed p₀) p₀ := by
  obtain ⟨events, hev, hloop⟩ := h₀.created
  have hpe : ∀ e, (p₀.router.loop.poll.events e).mPollEvent = none := by
    intro e
    rw [hloop]
    exact hev e
  have hunclosed : ∀ e, Mine e → Unclosed (handed p₀ e) e p₀.router.fds := by
    intro e he
    refine ⟨rfl, h₀.distinct e he, ?_⟩
    change handed p₀ e ∉ p₀.router.closes.map Prod.fst
    simp [h₀.closes]
  refine ⟨⟨?_, fun e he => .inl (hunclosed e he), ?_, ?_, ?_⟩, fun e _ => hpe e, ?_, fun _ => ?_⟩
  · change Sound p₀.router.loop.poll
    rw [hloop]
    exact sound_create hev
  · change ∀ x ∈ p₀.router.closes, _
    simp [h₀.closes]
  · change (p₀.router.closes.map Prod.fst).Nodup
    simp [h₀.closes]
  · change ∀ x ∈ p₀.router.closes, _
    simp [h₀.closes]
  · rw [h₀.place]
    exact .setup fun e he => ⟨hunclosed e he, hpe e⟩
  · rw [hloop]

theorem run_kept (hF : ∀ e, Mine e → 2 < F e) (h : ProcessRun p acts p') (hi : Inv F p) :
    Inv F p' ∧ AsAsked p.router p'.router := by
  induction h with
  | nil p => exact ⟨hi, .refl _⟩
  | cons hstep _ ih =>
    obtain ⟨hkept, hasked⟩ := step_kept hF hi hstep
    obtain ⟨hend, hasked'⟩ := ih hkept
    exact ⟨hend, hasked.trans hasked'⟩

/-- What a process has done to its poll, act by act, is a run of the poll in which the poll admits
each act at the moment the process makes it. -/
theorem poll_used_as_asked (h₀ : Started p₀) (h : ProcessRun p₀ acts p) :
    PollRun p₀.router.loop p.router.made p.router.loop := by
  obtain ⟨bs, hmade, hbs⟩ := (run_kept h₀.valid h (inv_started h₀)).2
  rw [h₀.made, List.nil_append] at hmade
  rw [hmade]
  exact hbs

/-- A process whose Router has the descriptors 5 and 6. -/
def waiting : Process := ⟨.setup, fresh⟩

theorem waiting_started : Started waiting where
  place := rfl
  closes := rfl
  made := rfl
  created := ⟨_, fun _ => rfl, rfl⟩
  valid := fresh_constructed.valid
  distinct := fresh_constructed.distinct

/-- Entries for the wakeup and the control descriptor. -/
def bothPolled (evError : Bool) : List Entry := [⟨.read, false, some 1⟩, ⟨.read, evError, some 0⟩]

theorem bothPolled_admitted (evError : Bool) (p : Process)
    (h₀ : p.router.loop.poll.mTable 5 = some 0) (h₁ : p.router.loop.poll.mTable 6 = some 1) :
    Admitted p (.doPoll (bothPolled evError)) := by
  intro entry he
  simp only [bothPolled, List.mem_cons, List.not_mem_nil, or_false] at he
  rcases he with rfl | rfl
  · exact .inr ⟨1, 6, rfl, h₁⟩
  · exact .inr ⟨0, 5, rfl, h₀⟩

/-- The control descriptor is at its end: its callback closes both, the process leaves the loop and
closes what is closed already. -/
theorem poll_used_as_asked_hangup :
    ∃ p, ProcessRun waiting [.openFds, .doPoll (bothPolled false), .next, .wakeupEventRead [.value],
        .next, .controlEventRead [.eof], .finish, .leave, .closeFds] p ∧
      p.router.made = [.call (.openAndInsertRead 0), .call (.openAndInsertRead 1),
        .doPoll (bothPolled false), .next, .returned, .next,
        .call (.removeAndClose 0), .closeDescriptor 5, .setFileDescriptor 0 (-1),
        .call (.removeAndClose 1), .closeDescriptor 6, .setFileDescriptor 1 (-1),
        .returned, .finish] ∧
      PollRun waiting.router.loop p.router.made p.router.loop := by
  have hrun : ProcessRun waiting [.openFds, .doPoll (bothPolled false), .next,
      .wakeupEventRead [.value], .next, .controlEventRead [.eof], .finish, .leave, .closeFds] _ :=
    .cons ⟨trivial, rfl⟩ (.cons ⟨bothPolled_admitted _ _ rfl rfl, rfl⟩ (.cons ⟨trivial, rfl⟩
      (.cons ⟨trivial, rfl⟩ (.cons ⟨trivial, rfl⟩ (.cons ⟨trivial, rfl⟩ (.cons ⟨trivial, rfl⟩
      (.cons ⟨trivial, rfl⟩ (.single ⟨trivial, rfl⟩))))))))
  exact ⟨_, hrun, rfl, poll_used_as_asked waiting_started hrun⟩

/-- The process has returned. -/
structure Clean (p₀ p : Process) : Prop where
  poll : PollAssertion p.router.loop.poll
  events : ∀ e, Mine e → EventAssertion p.router.loop.poll e
  closes : (p.router.closes.map Prod.fst).Perm [handed p₀ control, handed p₀ wakeup]

/-- The process has called `::exit`. -/
structure Dirty (p₀ p : Process) : Prop where
  control : p.router.loop.poll.mTable (handed p₀ control) ≠ none
  poll : ¬ PollAssertion p.router.loop.poll
  closes : p.router.closes.map Prod.fst = [handed p₀ wakeup]

theorem pollAssertion_of_gone (hs : Sound poll) (h : ∀ e, (poll.events e).mPollEvent = none) :
    PollAssertion poll := by
  intro fd
  cases ht : poll.mTable fd with
  | none => rfl
  | some q =>
    obtain ⟨e, hl⟩ := hs.table fd q ht
    cases hl.pollEvent.symm.trans (h e)

theorem Polled.tabled (hs : Sound s.poll) (h : Polled F s e) : s.poll.mTable (F e) ≠ none := by
  obtain ⟨q, hq⟩ := Option.ne_none_iff_exists'.mp h.pollEvent
  rw [← h.unclosed.fileDesc, (hs.event e q hq).1]
  exact Option.some_ne_none q

theorem closes_mem (hs : Tidy F s) {fd : Int} (h : fd ∈ s.closes.map Prod.fst) :
    fd = F control ∨ fd = F wakeup := by
  obtain ⟨x, hx, rfl⟩ := List.mem_map.mp h
  obtain ⟨e, he, heq⟩ := hs.mine x hx
  rcases he with rfl | rfl
  · exact .inl heq
  · exact .inr heq

theorem clean_of_inv (h₀ : Started p₀) (h : Inv (handed p₀) p)
    (hc : Closed (handed p₀) p.router.fds control) (hw : Closed (handed p₀) p.router.fds wakeup) :
    Clean p₀ p := by
  have hmine : ∀ e, Mine e → (p.router.loop.poll.events e).mPollEvent = none := by
    rintro e (rfl | rfl)
    · exact hc.gone.pollEvent
    · exact hw.gone.pollEvent
  have hne : handed p₀ control ≠ handed p₀ wakeup := h₀.distinct wakeup (.inr rfl) control
    wakeup_ne_control.symm
  refine ⟨pollAssertion_of_gone h.tidy.sound fun e => ?_, hmine, ?_⟩
  · by_cases he : Mine e
    · exact hmine e he
    · exact h.others e he
  · refine (List.perm_ext_iff_of_nodup h.tidy.once (by simpa using hne)).mpr fun fd =>
      ⟨fun hfd => ?_, fun hfd => ?_⟩
    · simpa using closes_mem h.tidy hfd
    · rcases List.mem_pair.mp hfd with rfl | rfl
      · exact hc.logged
      · exact hw.logged

theorem dirty_of_inv (h : Inv (handed p₀) p) (hc : Polled (handed p₀) p.router.fds control)
    (hw : Closed (handed p₀) p.router.fds wakeup) : Dirty p₀ p := by
  have hcontrol := hc.tabled h.tidy.sound
  refine ⟨hcontrol, fun hempty => hcontrol (hempty _), List.perm_singleton.mp ?_⟩
  refine (List.perm_ext_iff_of_nodup h.tidy.once (by simp)).mpr fun fd =>
    ⟨fun hfd => ?_, fun hfd => ?_⟩
  · rcases closes_mem h.tidy hfd with rfl | rfl
    · exact absurd hfd hc.unclosed.fresh
    · exact List.mem_singleton_self _
  · obtain rfl := List.mem_singleton.mp hfd
    exact hw.logged

/-- A process that returns has closed each descriptor once and destroys an empty poll; one that
calls `::exit` destroys a poll in which its control descriptor still is. -/
theorem assertions_at_the_end (h₀ : Started p₀) (h : ProcessRun p₀ acts p) :
    (p.place = .returned → Clean p₀ p) ∧ (p.place = .exited → Dirty p₀ p) := by
  have hi := (run_kept h₀.valid h (inv_started h₀)).1
  have hstands := hi.stands
  refine ⟨fun hplace => ?_, fun hplace => ?_⟩
  · rw [hplace] at hstands
    cases hstands with
    | inside hin _ => rcases hin with hp | hp | hp <;> cases hp
    | returned hc hw => exact clean_of_inv h₀ hi hc hw
    | half hhalf _ _ => rcases hhalf with hp | hp <;> cases hp
  · rw [hplace] at hstands
    cases hstands with
    | inside hin _ => rcases hin with hp | hp | hp <;> cases hp
    | half _ hc hw => exact dirty_of_inv hi hc hw

/-- `process` throws for an error of the control descriptor; or the wakeup stream is at its end. -/
theorem assertions_at_the_end_both :
    (∃ p, ProcessRun waiting [.openFds, .doPoll (bothPolled true), .next,
      .wakeupEventRead [.value], .next, .closeFds] p ∧ Clean waiting p) ∧
    ∃ p, ProcessRun waiting [.openFds, .interrupted, .doPoll (bothPolled false), .next,
      .wakeupEventRead [.failed .EINTR, .zero], .exit] p ∧ Dirty waiting p := by
  have hthrows : ProcessRun waiting
      [.openFds, .doPoll (bothPolled true), .next, .wakeupEventRead [.value], .next, .closeFds] _ :=
    .cons ⟨trivial, rfl⟩ (.cons ⟨bothPolled_admitted _ _ rfl rfl, rfl⟩
      (.cons ⟨trivial, rfl⟩ (.cons ⟨trivial, rfl⟩ (.cons ⟨trivial, rfl⟩ (.single ⟨trivial, rfl⟩)))))
  have hends : ProcessRun waiting [.openFds, .interrupted, .doPoll (bothPolled false), .next,
      .wakeupEventRead [.failed .EINTR, .zero], .exit] _ :=
    .cons ⟨trivial, rfl⟩ (.cons ⟨trivial, rfl⟩
      (.cons ⟨bothPolled_admitted _ _ rfl rfl, rfl⟩
      (.cons ⟨trivial, rfl⟩ (.cons ⟨trivial, rfl⟩ (.single ⟨trivial, rfl⟩)))))
  exact ⟨⟨_, hthrows, (assertions_at_the_end waiting_started hthrows).1 rfl⟩,
    ⟨_, hends, (assertions_at_the_end waiting_started hends).2 rfl⟩⟩

end ShmIpcProcessPollEnd
