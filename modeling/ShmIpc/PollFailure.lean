import ShmIpc.PollTable

/-!
# Polls whose `kevent` fails

The calls of the poll once more, with any outcome of the `kevent` in `flush`. They
change the table or the mask before the call that may fail, and so they leave
no trace of themselves when they throw only if `kevent` is not the one to fail.
-/
namespace ShmIpcPollFailure

open ChangeLog Flags LabelledRun ShmIpcPoll ShmIpcPollTable

/-- The outcome of the call of `kevent` in `flush`, of which a failing one may have taken some
changes. -/
inductive Kevent where
  | taken : Kevent
  | failed (kernel : Int × Filter → Option Udata) : Kevent

/-- The error comes without the text of `strerror`. -/
def flush (kevent : Kevent) (p : Poll) : Result :=
  if p.mChanges = [] then (.ok (), p)
  else match kevent with
  | .taken => (.ok (), { p with kernel := applyLog p.kernel p.mChanges, mChanges := [] })
  | .failed kernel => (.error "PollInternal::flush() error: ", { p with kernel := kernel })

def modify (kevent : Kevent) (p : Poll) (e : EventId) (op : ChangeOp) (filter : Filter) : Result :=
  andThen (if p.mChanges.length = p.mMaxEvents then flush kevent p else (.ok (), p)) fun p =>
    (.ok (),
      { p with mChanges := p.mChanges ++ [evSet (p.events e).mFileDesc filter op
        (p.events e).mPollEvent] })

def close (kevent : Kevent) (p : Poll) (e : EventId) : Result :=
  let event := p.events e
  match event.mPollEvent with
  | none => (.ok (), p)
  | some q =>
    if (p.pollEvents q).event ≠ some e then
      (.error ("Poll::close() event mismatch: " ++ printNameFdStr event), p)
    else match eventMask p e with
    | .error msg => (.error msg, p)
    | .ok mask =>
      if mask ≠ 0 then
        (.error ("Poll::close() called but the file descriptor is active: " ++
          printNameFdStr event), p)
      else if p.mTable event.mFileDesc = none then
        (.error ("Poll::close() event not found: " ++ printNameFdStr event), p)
      else andThen (flush kevent { p with mTable := Function.update p.mTable event.mFileDesc none })
        fun p =>
        (.ok (), { p with
          mClosedEvents := if p.mProcessing then p.mClosedEvents ++ [q] else p.mClosedEvents
          pollEvents := Function.update p.pollEvents q { p.pollEvents q with event := none }
          events := Function.update p.events e { event with mPollEvent := none } })

/-- A new mask, and the change of the filter that goes with it. -/
def changeMask (kevent : Kevent) (p : Poll) (e : EventId) (mask : UInt32) (op : ChangeOp)
    (filter : Filter) : Result :=
  andThen (setEventMask p e mask) fun p => modify kevent p e op filter

/-- What `insert_read` and `insert_write` share. -/
def insertFlag (flag : UInt32) (filter : Filter) (kevent : Kevent) (p : Poll)
    (e : EventId) : Result :=
  match eventMask p e with
  | .error msg => (.error msg, p)
  | .ok mask =>
    if mask &&& flag ≠ 0 then (.ok (), p) else changeMask kevent p e (mask ||| flag) .add filter

/-- What `remove_read` and `remove_write` share. -/
def removeFlag (flag : UInt32) (filter : Filter) (kevent : Kevent) (p : Poll)
    (e : EventId) : Result :=
  match eventMask p e with
  | .error msg => (.error msg, p)
  | .ok mask =>
    if mask &&& flag = 0 then (.ok (), p) else changeMask kevent p e
      (mask &&& ~~~flag) .delete filter

def insertRead : Kevent → Poll → EventId → Result := insertFlag flagRead .read
def insertWrite : Kevent → Poll → EventId → Result := insertFlag flagWrite .write
def removeRead : Kevent → Poll → EventId → Result := removeFlag flagRead .read
def removeWrite : Kevent → Poll → EventId → Result := removeFlag flagWrite .write

/-! ### Nothing fails -/

theorem flush_taken (p : Poll) : flush .taken p = (.ok (), ShmIpcPoll.flush p) := by
  unfold flush ShmIpcPoll.flush
  split <;> rfl

theorem modify_taken (p : Poll) (e : EventId) (op : ChangeOp) (filter : Filter) :
    modify .taken p e op filter = (.ok (), ShmIpcPoll.modify p e op filter) := by
  simp only [modify, ShmIpcPoll.modify, flush_taken]
  split <;> rfl

theorem close_taken (p : Poll) (e : EventId) : close .taken p e = ShmIpcPoll.close p e := by
  simp only [close, flush_taken, andThen]
  rfl

theorem insertFlag_taken (flag : UInt32) (filter : Filter) (p : Poll) (e : EventId) :
    insertFlag flag filter .taken p e = ShmIpcPoll.insertFlag flag (some filter) p e := by
  simp only [insertFlag, changeMask, modify_taken]
  rfl

theorem removeFlag_taken (flag : UInt32) (filter : Filter) (p : Poll) (e : EventId) :
    removeFlag flag filter .taken p e = ShmIpcPoll.removeFlag flag (some filter) p e := by
  simp only [removeFlag, changeMask, modify_taken]
  rfl

/-! ## Operations that throw -/

inductive Op where
  | close | insertRead | insertWrite | removeRead | removeWrite

def Op.perform (kevent : Kevent) (p : Poll) (e : EventId) : Op → Result
  | .close => ShmIpcPollFailure.close kevent p e
  | .insertRead => ShmIpcPollFailure.insertRead kevent p e
  | .insertWrite => ShmIpcPollFailure.insertWrite kevent p e
  | .removeRead => ShmIpcPollFailure.removeRead kevent p e
  | .removeWrite => ShmIpcPollFailure.removeWrite kevent p e

/-- The table, the events, their `PollEvent`s and the pending changes are as before. -/
structure Unchanged (p p' : Poll) : Prop where
  table : p'.mTable = p.mTable
  events : p'.events = p.events
  pollEvents : p'.pollEvents = p.pollEvents
  changes : p'.mChanges = p.mChanges

theorem Unchanged.refl (p : Poll) : Unchanged p p := ⟨rfl, rfl, rfl, rfl⟩

def Atomic (kevent : Kevent) (p : Poll) (e : EventId) (op : Op) : Prop :=
  ∀ msg p', op.perform kevent p e = (.error msg, p') → Unchanged p p'

/-- The buffer is full, so that `modify` flushes it. -/
def Full (p : Poll) : Prop := p.mChanges ≠ [] ∧ p.mChanges.length = p.mMaxEvents

/-- The operation gets as far as `kevent`. -/
def Op.Flushes (p : Poll) (e : EventId) : Op → Prop
  | .close => p.mChanges ≠ [] ∧ eventMask p e = .ok 0 ∧
      ∃ q, (p.events e).mPollEvent = some q ∧ (p.pollEvents q).event = some e
  | .insertRead => Full p ∧ ∃ mask, eventMask p e = .ok mask ∧ mask &&& flagRead = 0
  | .insertWrite => Full p ∧ ∃ mask, eventMask p e = .ok mask ∧ mask &&& flagWrite = 0
  | .removeRead => Full p ∧ ∃ mask, eventMask p e = .ok mask ∧ mask &&& flagRead ≠ 0
  | .removeWrite => Full p ∧ ∃ mask, eventMask p e = .ok mask ∧ mask &&& flagWrite ≠ 0

/-- How an operation ends: refused by a check in front of `kevent`, with a return, or spoiled by
it. -/
inductive Ending (kevent : Kevent) (p : Poll) (flushes : Prop) : Result → Prop where
  | refused (msg : String) : ¬ flushes → Ending kevent p flushes (.error msg, p)
  | returned (p' : Poll) : (flushes → kevent = .taken) → Ending kevent p flushes (.ok (), p')
  | spoiled {msg : String} {kernel : Int × Filter → Option Udata} {p' : Poll} :
      kevent = .failed kernel → flushes → ¬ Unchanged p p' →
      Ending kevent p flushes (.error msg, p')

variable {kevent : Kevent} {p : Poll} {e : EventId}

theorem Ending.atomic_iff {flushes : Prop} {r : Result} (h : Ending kevent p flushes r) :
    (∀ msg p', r = (.error msg, p') → Unchanged p p') ↔ ∀ kernel,
      kevent = .failed kernel → ¬ flushes := by
  cases h with
  | refused msg hno =>
    refine ⟨fun _ _ _ => hno, fun _ msg' p' heq => ?_⟩
    cases heq
    exact .refl p
  | returned p' htaken =>
    refine ⟨fun _ kernel hfailed hflushes => ?_, nofun⟩
    rw [htaken hflushes] at hfailed
    cases hfailed
  | spoiled hfailed hflushes hchanged =>
    exact ⟨fun hall => absurd (hall _ _ rfl) hchanged, fun hno => absurd hflushes (hno _ hfailed)⟩

theorem Ending.congr {flushes flushes' : Prop} {r : Result} (h : Ending kevent p flushes r)
    (hiff : flushes ↔ flushes') : Ending kevent p flushes' r :=
  propext hiff ▸ h

/-! ### One ending for each operation -/

theorem flush_empty (h : p.mChanges = []) : flush kevent p = (.ok (), p) := by
  unfold flush
  rw [if_pos h]

theorem flush_failed (h : p.mChanges ≠ []) (kernel : Int × Filter → Option Udata) :
    flush (.failed kernel) p = (.error "PollInternal::flush() error: ",
      { p with kernel := kernel }) := by
  unfold flush
  rw [if_neg h]

theorem modify_failed (h : Full p) (kernel : Int × Filter → Option Udata) (op : ChangeOp)
    (filter : Filter) :
    modify (.failed kernel) p e op filter =
    (.error "PollInternal::flush() error: ", { p with kernel := kernel }) := by
  rw [modify, if_pos h.2, flush_failed h.1]
  rfl

theorem modify_room (h : Full p → kevent = .taken) (op : ChangeOp) (filter : Filter) :
    ∃ p', modify kevent p e op filter = (.ok (), p') := by
  by_cases hfull : p.mChanges.length = p.mMaxEvents
  · by_cases hempty : p.mChanges = []
    · rw [modify, if_pos hfull, flush_empty hempty]
      exact ⟨_, rfl⟩
    · rw [h ⟨hempty, hfull⟩, modify_taken]
      exact ⟨_, rfl⟩
  · rw [modify, if_neg hfull]
    exact ⟨_, rfl⟩

theorem eventMask_found {mask : UInt32} (h : eventMask p e = .ok mask) :
    p.mTable (p.events e).mFileDesc ≠ none := by
  intro hnone
  simp only [eventMask, hnone] at h
  split at h <;> cases h

/-- What `close` has done before the flush. -/
def erased (p : Poll) (e : EventId) : Poll :=
  { p with mTable := Function.update p.mTable (p.events e).mFileDesc none }

/-- `close` erases the entry of the table before the flush. -/
theorem close_ending (kevent : Kevent) (p : Poll) (e : EventId) :
    Ending kevent p (Op.close.Flushes p e) (close kevent p e) := by
  simp only [close]
  split
  · rename_i hnone
    refine .returned p ?_
    rintro ⟨_, _, q, hq, _⟩
    rw [hnone] at hq
    cases hq
  rename_i q hq
  split
  · rename_i hother
    refine .refused _ ?_
    rintro ⟨_, _, q', hq', hevent⟩
    rw [hq] at hq'
    cases hq'
    exact hother hevent
  rename_i hevent
  split
  · rename_i hmask
    refine .refused _ ?_
    rintro ⟨_, hzero, _⟩
    rw [hmask] at hzero
    cases hzero
  rename_i mask hmask
  split
  · rename_i hactive
    refine .refused _ ?_
    rintro ⟨_, hzero, _⟩
    rw [hmask] at hzero
    cases hzero
    exact hactive rfl
  rename_i hzero
  rw [not_not.mp hzero] at hmask
  rw [if_neg (eventMask_found hmask)]
  show Ending kevent p _ (andThen (flush kevent (erased p e)) _)
  by_cases hempty : p.mChanges = []
  · rw [flush_empty (p := erased p e) hempty]
    exact .returned _ fun h => absurd hempty h.1
  · cases kevent with
    | taken =>
      rw [flush_taken]
      exact .returned _ fun _ => rfl
    | failed kernel =>
      rw [flush_failed (p := erased p e) hempty]
      refine .spoiled rfl ⟨hempty, hmask, q, hq, not_not.mp hevent⟩ fun h => ?_
      refine eventMask_found hmask ?_
      rw [← h.table]
      exact Function.update_self _ _ _

/-- A change of the mask is there before `modify` finds the buffer full. -/
theorem changeMask_ending (hp : Linkage p) {mask mask' : UInt32} (hmask : eventMask p e = .ok mask)
    (hne : mask' ≠ mask) (op : ChangeOp) (filter : Filter) :
    Ending kevent p (Full p) (changeMask kevent p e mask' op filter) := by
  obtain ⟨q, _, hl, rfl⟩ := eventMask_ok hp hmask
  rw [changeMask, setEventMask_eq hl]
  show Ending kevent p (Full p) (modify kevent (remasked p q mask' p.kernel p.mChanges) e op filter)
  by_cases hfailed : Full p → kevent = .taken
  · obtain ⟨p', heq⟩ := modify_room (p := remasked p q mask' p.kernel p.mChanges)
      (e := e) hfailed op filter
    rw [heq]
    exact .returned p' hfailed
  · obtain ⟨hfull, hne'⟩ := Classical.not_imp.mp hfailed
    cases kevent with
    | taken => exact absurd rfl hne'
    | failed kernel =>
      rw [modify_failed (p := remasked p q mask' p.kernel p.mChanges) hfull]
      refine .spoiled rfl hfull fun h => hne ?_
      rw [← h.pollEvents]
      exact (remasked_mask p q mask' p.kernel p.mChanges).symm

theorem insertFlag_ending (hp : Linkage p) {flag : UInt32} (hflag : flag ≠ 0) (filter : Filter) :
    Ending kevent p (Full p ∧ ∃ mask, eventMask p e = .ok mask ∧ mask &&& flag = 0)
      (insertFlag flag filter kevent p e) := by
  unfold insertFlag
  split
  · rename_i hmask
    refine .refused _ ?_
    rintro ⟨_, mask, hok, _⟩
    rw [hmask] at hok
    cases hok
  · rename_i mask hmask
    split
    · rename_i hset
      refine .returned p ?_
      rintro ⟨_, mask', hok, hclear⟩
      rw [hmask] at hok
      cases hok
      exact absurd hclear hset
    · rename_i hset
      have hclear := not_not.mp hset
      exact (changeMask_ending hp hmask (raise_ne hflag hclear) .add filter).congr
        ⟨fun h => ⟨h, mask, hmask, hclear⟩, And.left⟩

theorem removeFlag_ending (hp : Linkage p) (flag : UInt32) (filter : Filter) :
    Ending kevent p (Full p ∧ ∃ mask, eventMask p e = .ok mask ∧ mask &&& flag ≠ 0)
      (removeFlag flag filter kevent p e) := by
  unfold removeFlag
  split
  · rename_i hmask
    refine .refused _ ?_
    rintro ⟨_, mask, hok, _⟩
    rw [hmask] at hok
    cases hok
  · rename_i mask hmask
    split
    · rename_i hclear
      refine .returned p ?_
      rintro ⟨_, mask', hok, hset⟩
      rw [hmask] at hok
      cases hok
      exact absurd hclear hset
    · rename_i hset
      exact (changeMask_ending hp hmask (lower_ne hset) .delete filter).congr
        ⟨fun h => ⟨h, mask, hmask, hset⟩, And.left⟩

theorem op_ending (hp : Linkage p) (op : Op) :
    Ending kevent p (op.Flushes p e) (op.perform kevent p e) := by
  cases op with
  | close => exact close_ending kevent p e
  | insertRead => exact insertFlag_ending hp (by decide) .read
  | insertWrite => exact insertFlag_ending hp (by decide) .write
  | removeRead => exact removeFlag_ending hp flagRead .read
  | removeWrite => exact removeFlag_ending hp flagWrite .write

/-! ## Runs -/

/-- What happens to a poll: its calls, each of which may throw; the `kevent` of `Poll::poll`, which
takes the changes and leaves the filters of the kernel in any state; and the two ends of `process`.
The calls that open and insert, or remove and close, are several of these. -/
inductive Act where
  | perform (op : Op) (e : EventId) (kevent : Kevent) : Act
  | openEvent (e : EventId) : Act
  | insertError (e : EventId) : Act
  | removeError (e : EventId) : Act
  | setFileDescriptor (e : EventId) (fd : Int) : Act
  | closeDescriptor (fd : Int) : Act
  | poll (kernel : Int × Filter → Option Udata) : Act
  | beginProcess : Act
  | endProcess : Act

def apply (p : Poll) : Act → Poll
  | .perform op e kevent => (op.perform kevent p e).2
  | .openEvent e => (ShmIpcPoll.openEvent p e).2
  | .insertError e => (ShmIpcPoll.insertError p e).2
  | .removeError e => (ShmIpcPoll.removeError p e).2
  | .setFileDescriptor e fd => ShmIpcPoll.setFileDescriptor p e fd
  | .closeDescriptor fd => dropFilters p fd
  | .poll kernel => { p with kernel := kernel, mChanges := [] }
  | .beginProcess => { p with mProcessing := true, mClosedEvents := [] }
  | .endProcess => { p with mProcessing := false, mClosedEvents := [] }

def step (p : Poll) (a : Act) : Option Poll := some (apply p a)

/-- An `Event` keeps its descriptor as long as it is associated with the poll. -/
def Admitted (p : Poll) : Act → Prop
  | .setFileDescriptor e _ => (p.events e).mPollEvent = none
  | _ => True

/-- Nothing is added to the table, and the links of its entries stay. -/
structure Frame (p p' : Poll) : Prop where
  table : ∀ fd q, p'.mTable fd = some q → p.mTable fd = some q
  events : p'.events = p.events
  next : p'.nextPollEvent = p.nextPollEvent
  event : ∀ q, (p'.pollEvents q).event = (p.pollEvents q).event

theorem Frame.refl (p : Poll) : Frame p p := ⟨fun _ _ h => h, rfl, rfl, fun _ => rfl⟩

theorem Frame.trans {p p' p'' : Poll} (h : Frame p p') (h' : Frame p' p'') : Frame p p'' :=
  ⟨fun fd q ht => h.table fd q (h'.table fd q ht), h'.events.trans h.events, h'.next.trans h.next,
    fun q => (h'.event q).trans (h.event q)⟩

theorem Frame.linkage {p' : Poll} (h : Frame p p') (hp : Linkage p) : Linkage p' := by
  intro fd q ht
  obtain ⟨e, hl⟩ := hp fd q (h.table fd q ht)
  refine ⟨e, hl.valid, ?_, ?_, ?_, ?_⟩
  · rw [h.next]
    exact hl.allocated
  · rw [h.events]
    exact hl.fileDesc
  · rw [h.events]
    exact hl.pollEvent
  · rw [h.event]
    exact hl.event

theorem frame_andThen {r : Result} {f : Poll → Result} (hr : Frame p r.2)
    (hf : ∀ p', Frame p' (f p').2) : Frame p (andThen r f).2 := by
  obtain ⟨res, p'⟩ := r
  cases res with
  | error msg => exact hr
  | ok u => exact hr.trans (hf p')

theorem frame_flush (kevent : Kevent) (p : Poll) : Frame p (flush kevent p).2 := by
  unfold flush
  split
  · exact .refl p
  · cases kevent <;> exact ⟨fun _ _ h => h, rfl, rfl, fun _ => rfl⟩

theorem frame_modify (kevent : Kevent) (p : Poll) (e : EventId) (op : ChangeOp) (filter : Filter) :
    Frame p (modify kevent p e op filter).2 := by
  refine frame_andThen ?_ fun p' => ⟨fun _ _ h => h, rfl, rfl, fun _ => rfl⟩
  split
  · exact frame_flush kevent p
  · exact .refl p

theorem frame_setEventMask (p : Poll) (e : EventId) (mask : UInt32) :
    Frame p (setEventMask p e mask).2 := by
  simp only [setEventMask]
  split
  · exact .refl p
  · split
    · exact .refl p
    · exact ⟨fun _ _ h => h, rfl, rfl, remasked_event p _ mask p.kernel p.mChanges⟩

theorem frame_insertFlag (flag : UInt32) (filter : Filter) (kevent : Kevent)
    (p : Poll) (e : EventId) : Frame p (insertFlag flag filter kevent p e).2 := by
  unfold insertFlag
  split
  · exact .refl p
  · split
    · exact .refl p
    · exact frame_andThen (frame_setEventMask p e _) fun p' => frame_modify kevent p' e _ _

theorem frame_removeFlag (flag : UInt32) (filter : Filter) (kevent : Kevent)
    (p : Poll) (e : EventId) : Frame p (removeFlag flag filter kevent p e).2 := by
  unfold removeFlag
  split
  · exact .refl p
  · split
    · exact .refl p
    · exact frame_andThen (frame_setEventMask p e _) fun p' => frame_modify kevent p' e _ _

theorem frame_insertError (p : Poll) (e : EventId) : Frame p (ShmIpcPoll.insertError p e).2 := by
  unfold ShmIpcPoll.insertError ShmIpcPoll.insertFlag
  split
  · exact .refl p
  · split
    · exact .refl p
    · exact frame_andThen (frame_setEventMask p e _) fun p' => .refl p'

theorem frame_removeError (p : Poll) (e : EventId) : Frame p (ShmIpcPoll.removeError p e).2 := by
  unfold ShmIpcPoll.removeError ShmIpcPoll.removeFlag
  split
  · exact .refl p
  · split
    · exact .refl p
    · exact frame_andThen (frame_setEventMask p e _) fun p' => .refl p'

theorem frame_erased (p : Poll) (e : EventId) : Frame p (erased p e) := by
  refine ⟨fun fd q h => ?_, rfl, rfl, fun _ => rfl⟩
  have hfd : fd ≠ (p.events e).mFileDesc := by
    rintro rfl
    simp [erased] at h
  simpa [erased, Function.update_of_ne hfd] using h

/-- An event whose entry is gone is taken apart from its `PollEvent`. -/
theorem linkage_unlinked (hp : Linkage p) {q : PollEventId} (hq : (p.pollEvents q).event = some e)
    (hfd : p.mTable (p.events e).mFileDesc = none) (closedEvents : List PollEventId) :
    Linkage { p with
      mClosedEvents := closedEvents
      pollEvents := Function.update p.pollEvents q { p.pollEvents q with event := none }
      events := Function.update p.events e { p.events e with mPollEvent := none } } := by
  intro fd q' ht
  obtain ⟨e', hl⟩ := hp fd q' ht
  have hne : e' ≠ e := by
    rintro rfl
    rw [hl.fileDesc] at hfd
    rw [show p.mTable fd = some q' from ht] at hfd
    cases hfd
  have hq' : q' ≠ q := by
    rintro rfl
    exact hne (Option.some.inj (hl.event.symm.trans hq))
  refine ⟨e', hl.valid, hl.allocated, ?_, ?_, ?_⟩
  · simpa [Function.update_of_ne hne] using hl.fileDesc
  · simpa [Function.update_of_ne hne] using hl.pollEvent
  · simpa [Function.update_of_ne hq'] using hl.event

theorem linkage_close (hp : Linkage p) (kevent : Kevent) : Linkage (close kevent p e).2 := by
  simp only [close]
  split
  · exact hp
  rename_i q _
  split
  · exact hp
  rename_i hevent
  split
  · exact hp
  split
  · exact hp
  split
  · exact hp
  have hflush := frame_flush kevent (erased p e)
  have hlinkage := ((frame_erased p e).trans hflush).linkage hp
  show Linkage (andThen (flush kevent (erased p e)) _).2
  generalize flush kevent (erased p e) = result at hflush hlinkage
  obtain ⟨res, p'⟩ := result
  cases res with
  | error msg => exact hlinkage
  | ok u =>
    have hevents : p'.events = p.events := hflush.events
    have hgone : p'.mTable (p'.events e).mFileDesc = none := by
      rw [hevents, Option.eq_none_iff_forall_ne_some]
      intro q' hq'
      have := hflush.table _ _ hq'
      simp [erased] at this
    have hq : (p'.pollEvents q).event = some e := (hflush.event q).trans (not_not.mp hevent)
    have hunlinked := linkage_unlinked hlinkage hq hgone
      (if p'.mProcessing then p'.mClosedEvents ++ [q] else p'.mClosedEvents)
    rw [hevents] at hunlinked
    simpa only [andThen, hevents] using hunlinked

theorem linkage_openEvent (hp : Linkage p) : Linkage (openEvent p e).2 := by
  simp only [openEvent]
  split
  · exact hp
  rename_i hfd
  split
  · exact hp
  rename_i hpe
  split
  · exact hp
  · exact linkage_opened hp hfd (not_not.mp hpe)

theorem linkage_step {p' : Poll} {a : Act} (hp : Linkage p)
    (h : guarded Admitted (ofFun step) p a p') : Linkage p' := by
  obtain ⟨hadmitted, h⟩ := h
  cases h
  cases a with
  | perform op e kevent =>
    cases op with
    | close => exact linkage_close hp kevent
    | insertRead => exact (frame_insertFlag flagRead .read kevent p e).linkage hp
    | insertWrite => exact (frame_insertFlag flagWrite .write kevent p e).linkage hp
    | removeRead => exact (frame_removeFlag flagRead .read kevent p e).linkage hp
    | removeWrite => exact (frame_removeFlag flagWrite .write kevent p e).linkage hp
  | openEvent e => exact linkage_openEvent hp
  | insertError e => exact (frame_insertError p e).linkage hp
  | removeError e => exact (frame_removeError p e).linkage hp
  | setFileDescriptor e fd => exact linkage_setFileDescriptor hp hadmitted fd
  | closeDescriptor fd =>
    have hsame : Frame p (apply p (.closeDescriptor fd)) := ⟨fun _ _ h => h, rfl, rfl, fun _ => rfl⟩
    exact hsame.linkage hp
  | poll kernel =>
    have hsame : Frame p (apply p (.poll kernel)) := ⟨fun _ _ h => h, rfl, rfl, fun _ => rfl⟩
    exact hsame.linkage hp
  | beginProcess =>
    have hsame : Frame p (apply p .beginProcess) := ⟨fun _ _ h => h, rfl, rfl, fun _ => rfl⟩
    exact hsame.linkage hp
  | endProcess =>
    have hsame : Frame p (apply p .endProcess) := ⟨fun _ _ h => h, rfl, rfl, fun _ => rfl⟩
    exact hsame.linkage hp

theorem linkage_run {events : EventId → Event} {acts : List Act}
    (h : Run (guarded Admitted (ofFun step)) (create events) acts p) : Linkage p := by
  refine h.invariant Linkage (fun fd q ht => ?_) fun _ _ _ => linkage_step
  cases ht

/-- An operation that throws has left no trace if and only if it did not get as far as a `kevent`
that failed. -/
theorem failures_atomic_iff {events : EventId → Event} {acts : List Act}
    (h : Run (guarded Admitted (ofFun step)) (create events) acts p) (kevent : Kevent)
    (e : EventId) (op : Op) :
    Atomic kevent p e op ↔ ∀ kernel, kevent = .failed kernel → ¬ op.Flushes p e :=
  (op_ending (linkage_run h) op).atomic_iff

/-! ### A close that is spoiled -/

/-- One event under descriptor 5. -/
def oneEvent : Poll := create fun _ => ⟨"ipc-channel", 5, none⟩

theorem failures_atomic_one_event :
    ∃ p, Run (guarded Admitted (ofFun step)) oneEvent
      [.openEvent 0, .perform .insertRead 0 .taken] p ∧
        Atomic (.failed fun _ => none) p 0 .close := by
  have hrun : Run (guarded Admitted (ofFun step)) oneEvent
      [.openEvent 0, .perform .insertRead 0 .taken] _ :=
    .cons ⟨trivial, rfl⟩ (.single ⟨trivial, rfl⟩)
  refine ⟨_, hrun, (failures_atomic_iff hrun _ 0 .close).mpr ?_⟩
  -- the mask is not empty, and `close` complains about that
  rintro _ _ ⟨_, hmask, _⟩
  exact absurd (Except.ok.inj hmask) (by decide)

/-- A close whose `kevent` fails: the table has lost the descriptor, but the event is still
associated with the poll, and neither `close` nor `remove_and_close` will ever get it out. -/
theorem spoiled_close :
    ∃ p p', Run (guarded Admitted (ofFun step)) oneEvent
        [.openEvent 0, .perform .insertRead 0 .taken, .perform .removeRead 0 .taken] p ∧
      close (.failed fun _ => none) p 0 = (.error "PollInternal::flush() error: ", p') ∧
      p.mTable 5 = some 0 ∧ p'.mTable 5 = none ∧ (p'.events 0).mPollEvent = some 0 ∧
      close .taken p' 0 =
        (.error "PollInternal::event_mask() event not found: name:ipc-channel fd:5", p') ∧
      removeAndClose p' 0 =
        (.error "PollInternal::event_mask() event not found: name:ipc-channel fd:5", p') ∧
      ¬ Atomic (.failed fun _ => none) p 0 .close := by
  have hrun : Run (guarded Admitted (ofFun step)) oneEvent
      [.openEvent 0, .perform .insertRead 0 .taken, .perform .removeRead 0 .taken] _ :=
    .cons ⟨trivial, rfl⟩ (.cons ⟨trivial, rfl⟩ (.single ⟨trivial, rfl⟩))
  refine ⟨_, _, hrun, rfl, rfl, rfl, rfl, rfl, rfl, fun hatomic => ?_⟩
  have htable := congrFun (hatomic _ _ rfl).table 5
  cases htable

end ShmIpcPollFailure
