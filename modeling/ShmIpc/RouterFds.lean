import ShmIpc.ControlFd
import ShmIpc.PollTable

/-!
# The descriptors of a Router

`open_fds`, `close_fds` and `send_fatal_error` over the poll of the thread, and
the two ways back into them from a callback: the closed slot of the control
descriptor, which calls `close_fds`, and the end of file on the wakeup
descriptor. `::close` succeeds, as `kevent` does.
-/
namespace ShmIpcRouterFds

open LabelledRun ShmIpcPoll ShmIpcPollTable
open ShmIpcChannel (Errno)
open ShmIpcControlFd (Sent Tape WouldBlock)

/-- `m_control_fd` -/
def control : EventId := 0

/-- `m_wakeup_fd` -/
def wakeup : EventId := 1

/-- The poll; the descriptors passed to `fd_close` so far, each with the poll at that moment; and,
as ghost state, everything that has been done to the poll, in its order. -/
structure Fds where
  poll : Poll
  closes : List (Int × Poll)
  made : List ShmIpcPoll.Act

abbrev Outcome := Except String Unit × Fds

def onPoll (s : Fds) (c : Call) : Outcome :=
  ((c.perform s.poll).1, ⟨(c.perform s.poll).2, s.closes, s.made ++ [.call c]⟩)

/-- `fd_close` of `torrent/net/fd.cc` -/
def fdClose (s : Fds) (fd : Int) : Outcome :=
  let closes := s.closes ++ [(fd, s.poll)]
  if fd = 0 ∨ fd = 1 ∨ fd = 2 then
    (.error "torrent::fd_close: tried to close stdin/out/err", { s with closes := closes })
  else (.ok (), ⟨dropFilters s.poll fd, closes, s.made ++ [.closeDescriptor fd]⟩)

/-- `m_fileDesc = -1` -/
def forget (s : Fds) (e : EventId) : Fds :=
  ⟨setFileDescriptor s.poll e (-1), s.closes, s.made ++ [.setFileDescriptor e (-1)]⟩

/-- What `ControlFd::close` and `WakeupFd::close` share. -/
def closeEvent (e : EventId) (s : Fds) : Outcome :=
  if (s.poll.events e).mFileDesc = -1 then (.ok (), s)
  else
    andThen (if (s.poll.events e).mPollEvent ≠ none then onPoll s (.removeAndClose e)
      else (.ok (), s)) fun s =>
    andThen (fdClose s (s.poll.events e).mFileDesc) fun s =>
    (.ok (), forget s e)

/-- `ControlFd::close` -/
def controlClose : Fds → Outcome := closeEvent control

/-- `WakeupFd::close` -/
def wakeupClose : Fds → Outcome := closeEvent wakeup

def openFds (s : Fds) : Outcome :=
  andThen (onPoll s (.openAndInsertRead control)) fun s => onPoll s (.openAndInsertRead wakeup)

def closeFds (s : Fds) : Outcome := andThen (controlClose s) wakeupClose

/-- There is no result as long as the outcomes of `send` do not suffice. -/
def sendFatalError (s : Fds) (msg : List UInt8) (outcomes : List Sent) : Option Outcome :=
  match (ShmIpcControlFd.sendMessageInternal
    ((s.poll.events control).mFileDesc != -1) msg outcomes).1 with
  | none => none
  | some (.error text) => some (.error text, s)
  | some (.ok ()) => some (andThen (onPoll s (.removeAndClose control)) controlClose)

/-- `ControlFd::event_read`, where the closed slot calls `close_fds`. What the other slots call are
acts of their own. -/
def controlEventRead (s : Fds) (tape : Tape) : Option Outcome :=
  match (ShmIpcControlFd.eventRead tape).1 with
  | .waiting => none
  | .slotClosed _ => some (closeFds s)
  | .throws text _ => some (.error text, s)
  | _ => some (.ok (), s)

/-- The outcome of `read` on the wakeup descriptor: a whole value, the end of the file, a failure,
or another number of bytes. -/
inductive Read where
  | value : Read
  | zero : Read
  | failed (e : Errno) : Read
  | other : Read

/-- `WakeupFd::event_read`. The errors come without the name of the thread. -/
def wakeupEventRead (s : Fds) : List Read → Option Outcome
  | [] => none
  | .value :: _ => some (.ok (), s)
  | .zero :: _ => some (wakeupClose s)
  | .failed e :: reads =>
    if e = .EINTR then wakeupEventRead s reads
    else if WouldBlock e then some (.ok (), s)
    else some (.error "WakeupFd::event_read() read failed: ", s)
  | .other :: _ => some (.error "WakeupFd::event_read() read returned unexpected value: ", s)

/-! ## Runs -/

/-- The thread of the Router. -/
structure State where
  loop : Loop
  closes : List (Int × Poll)
  made : List ShmIpcPoll.Act

def State.fds (s : State) : Fds := ⟨s.loop.poll, s.closes, s.made⟩

/-- An exception that leaves a callback is an act `thrown` of the poll. -/
def State.put (s : State) (r : Outcome) : State :=
  ⟨{ s.loop with poll := r.2.poll }, r.2.closes, r.2.made⟩

/-- What is called from outside of `process` or from any callback. -/
def callable : Place → Bool
  | .walking _ => false
  | _ => true

/-- The running callback is `event_read` of `e`. -/
def reading (m : Loop) (e : EventId) : Bool :=
  match m.place with
  | .calling .eventRead q _ _ => (m.poll.pollEvents q).event == some e
  | _ => false

inductive Act where
  | openFds : Act
  | closeFds : Act
  | sendFatalError (msg : List UInt8) (outcomes : List Sent) : Act
  | controlEventRead (tape : Tape) : Act
  | wakeupEventRead (reads : List Read) : Act
  | poll (a : ShmIpcPoll.Act) : Act

def step (s : State) : Act → Option State
  | .openFds => if callable s.loop.place then some (s.put (openFds s.fds)) else none
  | .closeFds => if callable s.loop.place then some (s.put (closeFds s.fds)) else none
  | .sendFatalError msg outcomes =>
    if callable s.loop.place then (sendFatalError s.fds msg outcomes).map s.put else none
  | .controlEventRead tape => if reading s.loop control then (controlEventRead s.fds tape).map s.put
      else none
  | .wakeupEventRead reads => if reading s.loop wakeup then (wakeupEventRead s.fds reads).map s.put
      else none
  | .poll a =>
    (ShmIpcPoll.step s.loop a).map fun loop => { s with loop := loop, made := s.made ++ [a] }

/-- The events of the Router. -/
def Mine (e : EventId) : Prop := e = control ∨ e = wakeup

/-- The Router has the descriptor open. -/
def HasOpen (p : Poll) (fd : Int) : Prop := fd ≠ -1 ∧ ∃ e, Mine e ∧ (p.events e).mFileDesc = fd

/-- What the rest of the thread does with the poll it does to other events and descriptors. -/
def Foreign (p : Poll) : ShmIpcPoll.Act → Prop
  | .call c => ¬Mine c.event
  | .setFileDescriptor e fd => ¬Mine e ∧ ¬HasOpen p fd
  | .closeDescriptor fd => ¬HasOpen p fd
  | _ => True

def Admitted (s : State) : Act → Prop
  | .poll a => ShmIpcPoll.Admitted s.loop a ∧ Foreign s.loop.poll a
  | _ => True

/-- A Router that has just been constructed, at any point of the run of its thread: it has two
descriptors that no one else has. -/
structure Constructed (s : State) : Prop where
  reached : ∃ m₀ acts, Created m₀ ∧
    Run (guarded ShmIpcPoll.Admitted (ofFun ShmIpcPoll.step)) m₀ acts s.loop
  closes : s.closes = []
  valid : ∀ e, Mine e → 2 < (s.loop.poll.events e).mFileDesc
  distinct : ∀ e, Mine e → ∀ e', e' ≠ e →
    (s.loop.poll.events e').mFileDesc ≠ (s.loop.poll.events e).mFileDesc

/-! ## The invariant -/

/-- No entry of the table refers to the descriptor, and no filter of the kernel is left on it. -/
structure Unreferenced (p : Poll) (fd : Int) : Prop where
  table : p.mTable fd = none
  events : ∀ fd' q e, p.mTable fd' = some q → (p.pollEvents q).event = some e →
    (p.events e).mFileDesc ≠ fd
  filters : ∀ f, p.kernel (fd, f) = none

theorem unreferenced_of_sound {p : Poll} {fd : Int} (hp : Sound p) (h : p.mTable fd = none) :
    Unreferenced p fd := by
  refine ⟨h, ?_, kernel_untabled hp h⟩
  rintro fd' q e htable hevent rfl
  obtain ⟨e', hl⟩ := hp.table fd' q htable
  obtain rfl : e = e' := Option.some.inj (hevent.symm.trans hl.event)
  rw [hl.fileDesc, htable] at h
  cases h

/-- The event still has the descriptor it was given, alone, and nobody has closed it. -/
structure Unclosed (F : Int) (e : EventId) (s : Fds) : Prop where
  fileDesc : (s.poll.events e).mFileDesc = F
  alone : ∀ e', e' ≠ e → (s.poll.events e').mFileDesc ≠ F
  fresh : F ∉ s.closes.map Prod.fst

structure Gone (p : Poll) (e : EventId) : Prop where
  fileDesc : (p.events e).mFileDesc = -1
  pollEvent : (p.events e).mPollEvent = none

/-- `F` are the descriptors that were handed to the Router. -/
structure Tidy (F : EventId → Int) (s : Fds) : Prop where
  sound : Sound s.poll
  fate : ∀ e, Mine e → Unclosed (F e) e s ∨ Gone s.poll e
  mine : ∀ x ∈ s.closes, ∃ e, Mine e ∧ x.1 = F e
  once : (s.closes.map Prod.fst).Nodup
  unreferenced : ∀ x ∈ s.closes, Unreferenced x.2 x.1

variable {F : EventId → Int} {s : Fds} {p' : Poll} {e : EventId} {made : List ShmIpcPoll.Act}

/-- A change of the poll that gives the descriptors of the Router to nobody else. -/
theorem tidy_frame (hs : Tidy F s) (hp : Sound p')
    (hmine : ∀ e, Mine e → (p'.events e).mFileDesc = (s.poll.events e).mFileDesc)
    (halone : ∀ e, Mine e → Unclosed (F e) e s → ∀ e', e' ≠ e → (p'.events e').mFileDesc ≠ F e)
    (hgone : ∀ e, Mine e → Gone s.poll e → (p'.events e).mPollEvent = none) :
    Tidy F ⟨p', s.closes, made⟩ := by
  refine ⟨hp, fun e he => ?_, hs.mine, hs.once, hs.unreferenced⟩
  rcases hs.fate e he with hu | hg
  · exact .inl ⟨(hmine e he).trans hu.fileDesc, halone e he hu, hu.fresh⟩
  · exact .inr ⟨(hmine e he).trans hg.fileDesc, hgone e he hg⟩

theorem tidy_made (hs : Tidy F s) : Tidy F ⟨s.poll, s.closes, made⟩ :=
  tidy_frame hs hs.sound (fun _ _ => rfl) (fun _ _ hu => hu.alone) fun _ _ hg => hg.pollEvent

/-- The descriptors stay, and so does the association of every other event. -/
theorem tidy_eventFrame (hs : Tidy F s) (hp : Sound p') (hf : EventFrame s.poll p' e)
    (hgone : Mine e → Gone s.poll e → (p'.events e).mPollEvent = none) :
    Tidy F ⟨p', s.closes, made⟩ := by
  refine tidy_frame hs hp (fun e' _ => hf.fileDesc e') (fun e' _ hu e'' hne => ?_)
    fun e' he' hg => ?_
  · rw [hf.fileDesc]
    exact hu.alone e'' hne
  · by_cases h : e' = e
    · subst h
      exact hgone he' hg
    · rw [hf.pollEvent e' h]
      exact hg.pollEvent

theorem tidy_takenOut (hs : Tidy F s) (ht : TakenOut s.poll p' e) : Tidy F ⟨p', s.closes, made⟩ :=
  tidy_eventFrame hs ht.sound (.of_update ht.events) fun _ _ => by simp [ht.events]

theorem onPoll_eq {c : Call} {res : Except String Unit} (h : c.perform s.poll = (res, p')) :
    onPoll s c = (res, ⟨p', s.closes, s.made ++ [.call c]⟩) := by
  simp only [onPoll, h]

/-! ## Closing -/

/-- A descriptor that only an event without an association has is not in the table. -/
theorem untabled_of_alone (hs : Tidy F s) (hu : Unclosed (F e) e s)
    (hpe : (s.poll.events e).mPollEvent = none) : s.poll.mTable (F e) = none := by
  cases ht : s.poll.mTable (F e) with
  | none => rfl
  | some q =>
    obtain ⟨e', hl⟩ := hs.sound.table _ q ht
    obtain rfl : e' = e := by
      by_contra hne
      exact hu.alone e' hne hl.fileDesc
    rw [hl.pollEvent] at hpe
    cases hpe

/-- The descriptor goes to `fd_close` when the event is out of the poll. -/
theorem tidy_fdClose (hF : ∀ e, Mine e → 2 < F e) (hs : Tidy F s) (he : Mine e)
    (hu : Unclosed (F e) e s) (hpe : (s.poll.events e).mPollEvent = none) :
    Tidy F ⟨setFileDescriptor s.poll e (-1), s.closes ++ [(F e, s.poll)], made⟩ := by
  have htable := untabled_of_alone hs hu hpe
  refine ⟨sound_setFileDescriptor hs.sound hpe (-1), fun e' he' => ?_, ?_, ?_, ?_⟩
  · by_cases h : e' = e
    · subst h
      exact .inr ⟨by simp [setFileDescriptor], by simpa [setFileDescriptor] using hpe⟩
    · rcases hs.fate e' he' with hu' | hg
      · have hne : F e' ≠ F e := by
          rw [← hu'.fileDesc]
          exact hu.alone e' h
        refine .inl ⟨?_, fun e'' h'' => ?_, ?_⟩
        · simpa [setFileDescriptor, Function.update_of_ne h] using hu'.fileDesc
        · by_cases h₂ : e'' = e
          · subst h₂
            have := hF e' he'
            simp only [setFileDescriptor, Function.update_self]
            omega
          · simpa [setFileDescriptor, Function.update_of_ne h₂] using hu'.alone e'' h''
        · simpa [hne] using hu'.fresh
      · exact .inr ⟨by simpa [setFileDescriptor, Function.update_of_ne h] using hg.fileDesc,
          by simpa [setFileDescriptor, Function.update_of_ne h] using hg.pollEvent⟩
  · intro x hx
    rcases List.mem_append.mp hx with h | h
    · exact hs.mine x h
    · rw [List.mem_singleton.mp h]
      exact ⟨e, he, rfl⟩
  · rw [List.map_append, List.nodup_append]
    refine ⟨hs.once, by simp, ?_⟩
    rintro fd hfd _ hfd' rfl
    obtain rfl : fd = F e := by simpa using hfd'
    exact hu.fresh hfd
  · intro x hx
    rcases List.mem_append.mp hx with h | h
    · exact hs.unreferenced x h
    · rw [List.mem_singleton.mp h]
      exact unreferenced_of_sound hs.sound htable

/-- What `close` leaves behind for an event of the Router. -/
structure Closes (F : EventId → Int) (s s' : Fds) (e : EventId) : Prop where
  tidy : Tidy F s'
  gone : Gone s'.poll e
  others : ∀ e', e' ≠ e → Gone s.poll e' → Gone s'.poll e'

theorem closeEvent_unpolled (hF : ∀ e, Mine e → 2 < F e) (hs : Tidy F s) (he : Mine e)
    (hu : Unclosed (F e) e s) (hpe : (s.poll.events e).mPollEvent = none) :
    ∃ s', closeEvent e s = (.ok (), s') ∧ Closes F s s' e := by
  have hpos := hF e he
  have hfd : ¬F e = -1 := by omega
  have hstd : ¬(F e = 0 ∨ F e = 1 ∨ F e = 2) := by omega
  refine ⟨⟨setFileDescriptor s.poll e (-1), s.closes ++ [(F e, s.poll)],
    s.made ++ [.closeDescriptor (F e)] ++ [.setFileDescriptor e (-1)]⟩, ?_, ?_, ?_, ?_⟩
  · simp only [closeEvent, hu.fileDesc, hpe, fdClose, forget, andThen, hfd, hstd,
      dropFilters_eq hs.sound (untabled_of_alone hs hu hpe), ne_eq, not_true_eq_false, ↓reduceIte]
  · exact tidy_fdClose hF hs he hu hpe
  · exact ⟨by simp [setFileDescriptor], by simpa [setFileDescriptor] using hpe⟩
  · intro e' hne hg
    exact ⟨by simpa [setFileDescriptor, Function.update_of_ne hne] using hg.fileDesc,
      by simpa [setFileDescriptor, Function.update_of_ne hne] using hg.pollEvent⟩

/-- `close` of an event in the poll is `remove_and_close` and then `close` of an event outside of
it. -/
theorem closeEvent_polled (hfd : (s.poll.events e).mFileDesc ≠ -1)
    (hpe : (s.poll.events e).mPollEvent ≠ none) (h : removeAndClose s.poll e = (.ok (), p'))
    (ht : TakenOut s.poll p' e) :
    closeEvent e s = closeEvent e ⟨p', s.closes, s.made ++ [.call (.removeAndClose e)]⟩ := by
  have hfd' : (p'.events e).mFileDesc = (s.poll.events e).mFileDesc := by simp [ht.events]
  have hpe' : (p'.events e).mPollEvent = none := by simp [ht.events]
  have hremoved := onPoll_eq (c := .removeAndClose e) h
  simp only [closeEvent, hfd', hfd, hpe', if_pos hpe, hremoved, andThen, ne_eq, not_true_eq_false,
    ↓reduceIte]

/-- `close` returns for each event of the Router, in the poll or not, closed before or not. -/
theorem closeEvent_closes (hF : ∀ e, Mine e → 2 < F e) (hs : Tidy F s) (he : Mine e) :
    ∃ s', closeEvent e s = (.ok (), s') ∧ Closes F s s' e := by
  rcases hs.fate e he with hu | hg
  · cases hpe : (s.poll.events e).mPollEvent with
    | none => exact closeEvent_unpolled hF hs he hu hpe
    | some q =>
      obtain ⟨p', h, ht⟩ := removeAndClose_open hs.sound hpe
      have hfd : (s.poll.events e).mFileDesc ≠ -1 := by
        have := hF e he
        rw [hu.fileDesc]
        omega
      have hf : EventFrame s.poll p' e := .of_update ht.events
      have hu' : Unclosed (F e) e ⟨p', s.closes, s.made ++ [.call (.removeAndClose e)]⟩ := by
        refine ⟨(hf.fileDesc e).trans hu.fileDesc, fun e' hne => ?_, hu.fresh⟩
        rw [hf.fileDesc]
        exact hu.alone e' hne
      obtain ⟨s', h', hc⟩ := closeEvent_unpolled hF (tidy_takenOut hs ht) he hu'
        (by simp [ht.events])
      refine ⟨s', ?_, hc.tidy, hc.gone, fun e' hne hg => hc.others e' hne ?_⟩
      · rw [closeEvent_polled hfd (by simp [hpe]) h ht]
        exact h'
      · exact ⟨(hf.fileDesc e').trans hg.fileDesc, (hf.pollEvent e' hne).trans hg.pollEvent⟩
  · exact ⟨s, by rw [closeEvent, if_pos hg.fileDesc], hs, hg, fun _ _ h => h⟩

theorem closeFds_closes (hF : ∀ e, Mine e → 2 < F e) (hs : Tidy F s) :
    ∃ s', closeFds s = (.ok (), s') ∧ Tidy F s' ∧ Gone s'.poll control ∧ Gone s'.poll wakeup := by
  obtain ⟨s₁, h₁, hc₁⟩ := closeEvent_closes hF hs (.inl rfl : Mine control)
  obtain ⟨s₂, h₂, hc₂⟩ := closeEvent_closes hF hc₁.tidy (.inr rfl : Mine wakeup)
  refine ⟨s₂, ?_, hc₂.tidy, hc₂.others control (by decide) hc₁.gone, hc₂.gone⟩
  simp only [closeFds, controlClose, wakeupClose, h₁, h₂, andThen]

/-! ## The other calls -/

theorem tidy_openAndInsertRead (hs : Tidy F s) (e : EventId) :
    Tidy F (onPoll s (.openAndInsertRead e)).2 := by
  refine tidy_eventFrame hs (keeps_perform hs.sound (.openAndInsertRead e)).sound
    (eventFrame_perform (.openAndInsertRead e)) fun _ hg => ?_
  -- an event without a descriptor is not opened
  have hfd : (s.poll.events e).mFileDesc = -1 := hg.fileDesc
  have h : (openAndInsertRead s.poll e).2 = s.poll := by
    simp only [openAndInsertRead, openEvent, if_pos hfd, andThen]
  show ((openAndInsertRead s.poll e).2.events e).mPollEvent = none
  rw [h]
  exact hg.pollEvent

theorem tidy_openFds (hs : Tidy F s) : Tidy F (openFds s).2 := by
  have h₁ := tidy_openAndInsertRead hs control
  unfold openFds
  generalize onPoll s (.openAndInsertRead control) = r at h₁ ⊢
  obtain ⟨res, s₁⟩ := r
  cases res with
  | error msg => exact h₁
  | ok u => exact tidy_openAndInsertRead h₁ wakeup

/-- After the message the event is taken out of the poll, or `remove_and_close` has thrown. -/
theorem tidy_sendFatalError (hF : ∀ e, Mine e → 2 < F e) (hs : Tidy F s) {msg : List UInt8}
    {outcomes : List Sent} {r : Outcome} (h : sendFatalError s msg outcomes = some r) :
    Tidy F r.2 := by
  simp only [sendFatalError] at h
  split at h
  · cases h
  · cases h; exact hs
  · cases h
    cases hpe : (s.poll.events control).mPollEvent with
    | none =>
      obtain ⟨text, hr⟩ := removeAndClose_unopened hs.sound hpe
      rw [onPoll_eq (c := .removeAndClose control) hr]
      exact tidy_made hs
    | some q =>
      obtain ⟨p', hr, ht⟩ := removeAndClose_open hs.sound hpe
      have hs' : Tidy F ⟨p', s.closes, s.made ++ [.call (.removeAndClose control)]⟩ :=
        tidy_takenOut hs ht
      obtain ⟨s', hc, hcl⟩ := closeEvent_closes hF hs' (.inl rfl : Mine control)
      rw [onPoll_eq (c := .removeAndClose control) hr]
      simp only [andThen, controlClose, hc]
      exact hcl.tidy

theorem tidy_controlEventRead (hF : ∀ e, Mine e → 2 < F e) (hs : Tidy F s)
    {tape : Tape} {r : Outcome} (h : controlEventRead s tape = some r) : Tidy F r.2 := by
  simp only [controlEventRead] at h
  split at h
  · cases h
  · cases h
    obtain ⟨s', hc, ht, _⟩ := closeFds_closes hF hs
    rw [hc]
    exact ht
  · cases h; exact hs
  · cases h; exact hs

theorem tidy_wakeupEventRead (hF : ∀ e, Mine e → 2 < F e) (hs : Tidy F s)
    {reads : List Read} {r : Outcome} (h : wakeupEventRead s reads = some r) : Tidy F r.2 := by
  induction reads with
  | nil => cases h
  | cons x reads ih =>
    cases x with
    | value => cases h; exact hs
    | zero =>
      cases h
      obtain ⟨s', hc, hcl⟩ := closeEvent_closes hF hs (.inr rfl : Mine wakeup)
      rw [wakeupClose, hc]
      exact hcl.tidy
    | failed e =>
      simp only [wakeupEventRead] at h
      split at h
      · exact ih h
      · split at h <;> cases h <;> exact hs
    | other => cases h; exact hs

/-! ## The rest of the thread -/

/-- A descriptor that the Router does not have open goes to an event that is not of the Router. -/
theorem tidy_setFileDescriptor (hF : ∀ e, Mine e → 2 < F e) (hs : Tidy F s) {fd : Int}
    (hp : Sound (setFileDescriptor s.poll e fd)) (hne : ¬Mine e) (hopen : ¬HasOpen s.poll fd) :
    Tidy F ⟨setFileDescriptor s.poll e fd, s.closes, made⟩ := by
  have hother (e' : EventId) (h : e' ≠ e) : (setFileDescriptor s.poll e fd).events e' =
      s.poll.events e' :=
    Function.update_of_ne h ..
  have hmine (e' : EventId) (he' : Mine e') : e' ≠ e := by
    rintro rfl
    exact hne he'
  refine tidy_frame hs hp (fun e' he' => by rw [hother e' (hmine e' he')])
    (fun e' he' hu e'' h => ?_) fun e' he' hg => by
    rw [hother e' (hmine e' he')]; exact hg.pollEvent
  by_cases h' : e'' = e
  · subst h'
    have hfd : ((setFileDescriptor s.poll e'' fd).events e'').mFileDesc = fd := by
      simp [setFileDescriptor]
    rw [hfd]
    rintro rfl
    have hpos := hF e' he'
    exact hopen ⟨by omega, e', he', hu.fileDesc⟩
  · rw [hother e'' h']
    exact hu.alone e'' h

/-- What the rest of the thread does leaves the events of the Router alone. -/
theorem tidy_foreign (hF : ∀ e, Mine e → 2 < F e) (hs : Tidy F s) {m m' : Loop}
    (hm : m.poll = s.poll) {a : ShmIpcPoll.Act} (hadm : ShmIpcPoll.Admitted m a)
    (hfor : Foreign m.poll a) (h : ShmIpcPoll.step m a = some m') :
    Tidy F ⟨m'.poll, s.closes, made⟩ := by
  have hp : Sound m'.poll := sound_step (hm ▸ hs.sound) ⟨hadm, h⟩
  have hsame (hev : m'.poll.events = m.poll.events) : Tidy F ⟨m'.poll, s.closes, made⟩ := by
    refine tidy_eventFrame hs hp (.of_eq (e := control) (by rw [hev, hm])) fun _ hg => ?_
    rw [hev, hm]
    exact hg.pollEvent
  cases effect_of_step h with
  | call c =>
    rw [hm] at hp ⊢
    exact tidy_eventFrame hs hp (eventFrame_perform c) fun he _ => absurd he hfor
  | setFileDescriptor e fd =>
    rw [hm] at hp hfor ⊢
    exact tidy_setFileDescriptor hF hs hp hfor.1 hfor.2
  | closeDescriptor fd => exact hsame rfl
  | interrupted _ => exact hsame rfl
  | doPoll batch _ => exact hsame rfl
  | skip _ _ => exact hsame rfl
  | throws _ => exact hsame rfl
  | callback _ _ _ _ => exact hsame rfl
  | returned _ => exact hsame rfl
  | complained => exact hsame rfl
  | thrown => exact hsame rfl
  | finish _ => exact hsame rfl

/-! ## Every run -/

variable {t t' t₀ : State} {acts : List Act}

theorem tidy_step (hF : ∀ e, Mine e → 2 < F e) (ht : Tidy F t.fds) {a : Act}
    (h : guarded Admitted (ofFun step) t a t') : Tidy F t'.fds := by
  obtain ⟨hadm, h⟩ := h
  simp only [ofFun] at h
  cases a with
  | openFds =>
    simp only [step] at h
    split at h
    · cases h; exact tidy_openFds ht
    · cases h
  | closeFds =>
    simp only [step] at h
    split at h
    · cases h
      obtain ⟨s', hc, hs', _⟩ := closeFds_closes hF ht
      rw [hc]
      exact hs'
    · cases h
  | sendFatalError msg outcomes =>
    simp only [step] at h
    split at h
    · obtain ⟨r, hr, rfl⟩ := Option.map_eq_some_iff.mp h
      exact tidy_sendFatalError hF ht hr
    · cases h
  | controlEventRead tape =>
    simp only [step] at h
    split at h
    · obtain ⟨r, hr, rfl⟩ := Option.map_eq_some_iff.mp h
      exact tidy_controlEventRead hF ht hr
    · cases h
  | wakeupEventRead reads =>
    simp only [step] at h
    split at h
    · obtain ⟨r, hr, rfl⟩ := Option.map_eq_some_iff.mp h
      exact tidy_wakeupEventRead hF ht hr
    · cases h
  | poll a =>
    simp only [step] at h
    obtain ⟨m', hm', rfl⟩ := Option.map_eq_some_iff.mp h
    exact tidy_foreign hF ht rfl hadm.1 hadm.2 hm'

theorem tidy_constructed (h : Constructed t) :
    Tidy (fun e => (t.loop.poll.events e).mFileDesc) t.fds := by
  obtain ⟨m₀, as, hcreated, hrun⟩ := h.reached
  refine ⟨sound_run hcreated hrun, fun e he => .inl ⟨rfl, h.distinct e he, ?_⟩, ?_, ?_, ?_⟩ <;>
    simp [State.fds, h.closes]

/-- Everything passed to `fd_close` is a descriptor that was handed to the Router, no descriptor is
passed twice, and at that moment nothing in the poll refers to it. -/
structure ClosedOnce (t₀ t : State) : Prop where
  mine : ∀ x ∈ t.closes, ∃ e, Mine e ∧ x.1 = (t₀.loop.poll.events e).mFileDesc
  once : (t.closes.map Prod.fst).Nodup
  unreferenced : ∀ x ∈ t.closes, Unreferenced x.2 x.1

/-- The event has no descriptor and no association, and no entry of the table is for it. -/
structure Cleared (p : Poll) (e : EventId) : Prop where
  fileDesc : (p.events e).mFileDesc = -1
  pollEvent : (p.events e).mPollEvent = none
  table : ∀ fd q, p.mTable fd = some q → (p.pollEvents q).event ≠ some e

theorem cleared_of_gone {p : Poll} (hp : Sound p) {e : EventId} (h : Gone p e) : Cleared p e := by
  refine ⟨h.fileDesc, h.pollEvent, fun fd q htable hevent => ?_⟩
  obtain ⟨e', hl⟩ := hp.table fd q htable
  obtain rfl : e = e' := Option.some.inj (hevent.symm.trans hl.event)
  have hpe := h.pollEvent
  rw [hl.pollEvent] at hpe
  cases hpe

/-- `close_fds` returns, and both events are closed then. -/
def CloseFdsClears (t : State) : Prop :=
  ∃ s', closeFds t.fds = (.ok (), s') ∧ Cleared s'.poll control ∧ Cleared s'.poll wakeup

/-- In every run each descriptor is closed once at most and never while it is polled, and
`close_fds` clears both events from wherever it is called. -/
theorem descriptors_closed_once (h₀ : Constructed t₀)
    (h : Run (guarded Admitted (ofFun step)) t₀ acts t) : ClosedOnce t₀ t ∧ CloseFdsClears t := by
  have ht := h.invariant (fun u => Tidy _ u.fds) (tidy_constructed h₀) fun _ _ _ hu hstep =>
    tidy_step h₀.valid hu hstep
  obtain ⟨s', hc, hs', hcontrol, hwakeup⟩ := closeFds_closes h₀.valid ht
  exact ⟨⟨ht.mine, ht.once, ht.unreferenced⟩,
    s', hc, cleared_of_gone hs'.sound hcontrol, cleared_of_gone hs'.sound hwakeup⟩

/-- A Router with the descriptors 5 and 6. -/
def fresh : State := ⟨⟨create fun e => ⟨"ipc-channel", 5 + (e : Int), none⟩, .outside, 0⟩, [], []⟩

theorem fresh_constructed : Constructed fresh where
  reached := ⟨_, [], ⟨_, fun _ => rfl, rfl⟩, .nil _⟩
  closes := rfl
  valid := by rintro e (rfl | rfl) <;> decide
  distinct := by
    intro e _ e' hne heq
    exact hne (Int.ofNat_inj.mp (Int.add_left_cancel heq))

/-- The peer goes away while both descriptors are in a batch; the entry for the wakeup descriptor is
still to come when the closed slot has called `close_fds`. -/
theorem descriptors_closed_once_hangup :
    ∃ t, Run (guarded Admitted (ofFun step)) fresh [.openFds,
        .poll (.doPoll [⟨.read, false, some 0⟩, ⟨.read, false, some 1⟩]), .poll .next,
        .controlEventRead [.eof], .poll .returned, .poll .next, .poll .finish, .sendFatalError
          [1, 2] [], .closeFds] t ∧
      t.closes.map Prod.fst = [5, 6] ∧ ClosedOnce fresh t ∧ CloseFdsClears t := by
  have hbatch (p : Poll) (h₀ : p.mTable 5 = some 0) (h₁ : p.mTable 6 = some 1) :
      ∀ entry ∈ [⟨.read, false, some 0⟩, ⟨.read, false, some 1⟩], Returned p entry := by
    intro entry he
    simp only [List.mem_cons, List.not_mem_nil, or_false] at he
    rcases he with rfl | rfl
    · exact .inr ⟨0, 5, rfl, h₀⟩
    · exact .inr ⟨1, 6, rfl, h₁⟩
  have hrun : Run (guarded Admitted (ofFun step)) fresh [.openFds,
      .poll (.doPoll [⟨.read, false, some 0⟩, ⟨.read, false, some 1⟩]), .poll .next,
      .controlEventRead [.eof], .poll .returned, .poll .next, .poll .finish, .sendFatalError [1, 2]
        [], .closeFds] _ :=
    .cons ⟨trivial, rfl⟩ (.cons ⟨⟨hbatch _ rfl rfl, trivial⟩, rfl⟩ (.cons ⟨⟨trivial, trivial⟩, rfl⟩
      (.cons ⟨trivial, rfl⟩ (.cons ⟨⟨trivial, trivial⟩, rfl⟩ (.cons ⟨⟨trivial, trivial⟩, rfl⟩
      (.cons ⟨⟨trivial, trivial⟩, rfl⟩ (.cons ⟨trivial, rfl⟩ (.single ⟨trivial, rfl⟩))))))))
  have h := descriptors_closed_once fresh_constructed hrun
  exact ⟨_, hrun, rfl, h.1, h.2⟩

end ShmIpcRouterFds
