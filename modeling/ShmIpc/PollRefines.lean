import ShmIpc.PollProcess
import ShmIpc.PollRegistry
import ShmIpc.Simulation

/-!
# The poll is a registry of interests

The table, the `PollEvent`s with their masks and the list of closed events do what the
registry says: each call has its result, and `process` answers to the entries of
a batch as to notes, whatever the callbacks do in between.
-/
namespace ShmIpcPollRefines

open Flags LabelledRun Simulation ShmIpcPoll ShmIpcPollTable ShmIpcPollProcess ShmIpcPollRegistry

def interest (mask : UInt32) : Interest := fun c => mask &&& callbackFlag c ≠ 0

def registry (p : Poll) : Registry where
  fileDesc e := (p.events e).mFileDesc
  typeName e := (p.events e).typeName
  registered fd := (p.mTable fd).bind fun q => (p.pollEvents q).event.map fun e =>
    (e, interest (p.pollEvents q).mask)

def note (p : Poll) (entry : Entry) : Note :=
  ⟨entry.filter, entry.evError, entry.udata.bind fun q => (p.pollEvents q).event⟩

def stand (p : Poll) : Place → Stand
  | .outside => .outside
  | .walking rest => .walking (rest.map (note p))
  | .calling callback q info rest => .calling callback (p.pollEvents q).event info
      (rest.map (note p))

def watch (m : Loop) : Watch := ⟨registry m.poll, stand m.poll m.place, m.count⟩

/-! ## Masks -/

section Masks

variable {mask : UInt32}

theorem interest_iff {c : Callback} : interest mask c = true ↔ mask &&& callbackFlag c ≠ 0 :=
  decide_eq_true_iff

theorem interest_raise (mask : UInt32) (c : Callback) :
    interest (mask ||| callbackFlag c) = Function.update (interest mask) c true := by
  funext c'
  by_cases h : c' = c
  · subst h
    have hself : callbackFlag c' &&& callbackFlag c' ≠ 0 := by cases c' <;> decide
    simp only [interest, or_and_distrib, ne_eq, UInt32.or_eq_zero_iff,
      Function.update_self, decide_eq_true_eq]
    exact fun hz => hself hz.2
  · have hother : callbackFlag c &&& callbackFlag c' = 0 := by
      cases c <;> cases c' <;> first | rfl | exact absurd rfl h
    simp only [interest, or_and_distrib, hother, UInt32.or_zero, Function.update_of_ne h]

theorem interest_lower (mask : UInt32) (c : Callback) :
    interest (mask &&& ~~~callbackFlag c) = Function.update (interest mask) c false := by
  funext c'
  by_cases h : c' = c
  · subst h
    simp [interest, UInt32.and_assoc]
  · have hother : ~~~callbackFlag c &&& callbackFlag c' = callbackFlag c' := by
      cases c <;> cases c' <;> first | rfl | exact absurd rfl h
    simp only [interest, UInt32.and_assoc, hother, Function.update_of_ne h]

theorem any_interest (h : mask &&& allFlags = mask) : (interest mask).any = true ↔ mask ≠ 0 := by
  have hmask : mask = (mask &&& flagRead) ||| (mask &&& flagWrite) ||| (mask &&& flagError) := by
    rw [← and_or_distrib, ← and_or_distrib]
    exact h.symm
  have hzero : mask = 0 ↔ (mask &&& flagRead = 0 ∧ mask &&& flagWrite = 0) ∧
      mask &&& flagError = 0 := by
    conv_lhs => rw [hmask]
    rw [UInt32.or_eq_zero_iff, UInt32.or_eq_zero_iff]
  rw [ne_eq, hzero]
  simp only [Interest.any, Bool.or_eq_true, interest_iff, callbackFlag]
  tauto

end Masks

variable {p : Poll} {e : EventId} {q : PollEventId} {fd : Int}

/-! ## The registry behind the table -/

theorem registered_linked (htable : p.mTable fd = some q) (hl : Linked p fd q e) :
    (registry p).registered fd = some (e, interest (p.pollEvents q).mask) := by
  simp [registry, htable, hl.event]

theorem registered_none (h : p.mTable fd = none) : (registry p).registered fd = none := by
  simp [registry, h]

/-- Everything that has an event is in the table. -/
theorem linked_of_event (hp : Sound p) (h : (p.pollEvents q).event = some e) :
    p.mTable (p.events e).mFileDesc = some q ∧ Linked p (p.events e).mFileDesc q e := by
  by_cases htabled : ∃ fd, p.mTable fd = some q
  · obtain ⟨fd, ht⟩ := htabled
    obtain ⟨e', hl⟩ := hp.table fd q ht
    obtain rfl : e = e' := Option.some.inj (h.symm.trans hl.event)
    obtain rfl := hl.fileDesc
    exact ⟨ht, hl⟩
  · have hdead := (hp.dead q fun fd ht => htabled ⟨fd, ht⟩).2
    rw [h] at hdead
    cases hdead

theorem holds_of_event (hp : Sound p) (h : (p.pollEvents q).event = some e) :
    (registry p).holds e = true := by
  obtain ⟨htable, hl⟩ := linked_of_event hp h
  have hreg := registered_linked htable hl
  rw [Registry.holds, show (registry p).fileDesc e = (p.events e).mFileDesc from rfl, hreg]
  simp

theorem holds_iff (hp : Sound p) :
    (registry p).holds e = true ↔ (p.events e).mPollEvent ≠ none := by
  constructor
  · intro h
    rw [Registry.holds, show (registry p).fileDesc e = (p.events e).mFileDesc from rfl] at h
    cases ht : p.mTable (p.events e).mFileDesc with
    | none =>
      rw [registered_none ht] at h
      cases h
    | some q =>
      obtain ⟨e', hl⟩ := hp.table _ q ht
      rw [registered_linked ht hl] at h
      obtain rfl : e' = e := by simpa using h
      rw [hl.pollEvent]
      simp
  · intro h
    obtain ⟨q, hq⟩ := Option.ne_none_iff_exists'.mp h
    exact holds_of_event hp (hp.event e q hq).2

theorem wants_of_event (hp : Sound p) (h : (p.pollEvents q).event = some e) :
    (registry p).wants e = interest (p.pollEvents q).mask := by
  obtain ⟨htable, hl⟩ := linked_of_event hp h
  funext c
  rw [Registry.wants, show (registry p).fileDesc e = (p.events e).mFileDesc from rfl,
    registered_linked htable hl]
  simp

theorem lookup_registry (hp : Linkage p) (e : EventId) :
    (registry p).lookup e = (eventMask p e).map interest := by
  simp only [Registry.lookup, eventMask,
    show (registry p).fileDesc e = (p.events e).mFileDesc from rfl]
  split
  · rfl
  · cases ht : p.mTable (p.events e).mFileDesc with
    | none =>
      rw [registered_none ht]
      rfl
    | some q =>
      obtain ⟨e', hl⟩ := hp _ q ht
      simp only [registered_linked ht hl, hl.event, ne_eq, Option.some.injEq]
      by_cases he : e' = e
      · rw [if_pos he, if_neg (not_not.mpr he)]
        rfl
      · rw [if_neg he, if_pos he]
        rfl

/-! ## One call -/

/-- A call on `e` does to the poll what the abstract one does to the registry: an event that has
left takes its `PollEvent`s with it, and no other is touched. -/
structure Commutes (p : Poll) (e : EventId) (r : Result) (o : Outcome) : Prop where
  result : r.1 = o.1
  registry : registry r.2 = o.2
  sound : Sound r.2
  events : ∀ q < p.nextPollEvent, (r.2.pollEvents q).event =
    if o.2.holds e then (p.pollEvents q).event else cancelled e (p.pollEvents q).event
  allocated : p.nextPollEvent ≤ r.2.nextPollEvent

theorem commutes_same (hp : Sound p) (res : Except String Unit) :
    Commutes p e (res, p) (res, registry p) where
  result := rfl
  registry := rfl
  sound := hp
  events q _ := by
    split
    · rfl
    · rename_i hno
      rw [cancelled, if_neg fun h => hno (holds_of_event hp h)]
  allocated := Nat.le_refl _

theorem cancelled_cancelled (e : EventId) (event : Option EventId) :
    cancelled e (cancelled e event) = cancelled e event := by
  by_cases h : event = some e
  · simp [cancelled, h]
  · simp [cancelled, h]

theorem commutes_andThen {r : Result} {o : Outcome} {f : Poll → Result} {g : Registry → Outcome}
    (h : Commutes p e r o) (hf : ∀ p', Sound p' → Commutes p' e (f p')
      (g (ShmIpcPollRefines.registry p')))
    (hg : ∀ {r}, (g r).2.holds e = true → r.holds e = true) :
    Commutes p e (andThen r f) (andThen o g) := by
  obtain ⟨res, p'⟩ := r
  obtain ⟨res', r'⟩ := o
  obtain rfl : res = res' := h.result
  cases res with
  | error msg => exact h
  | ok u =>
    have hnext := hf p' h.sound
    rw [h.registry] at hnext
    refine ⟨hnext.result, hnext.registry, hnext.sound, fun q hq => ?_,
      Nat.le_trans h.allocated hnext.allocated⟩
    have h₁ : (p'.pollEvents q).event = if r'.holds e then (p.pollEvents q).event
        else cancelled e (p.pollEvents q).event :=
      h.events q hq
    have h₂ := hnext.events q (Nat.lt_of_lt_of_le hq h.allocated)
    change ((f p').2.pollEvents q).event = if (g r').2.holds e then _ else _
    rw [h₂]
    by_cases hholds : (g r').2.holds e = true
    · rw [if_pos hholds, if_pos hholds, h₁, if_pos (hg hholds)]
    · rw [if_neg hholds, if_neg hholds, h₁]
      split
      · rfl
      · rw [cancelled_cancelled]

/-- The registry behind another mask. -/
theorem registry_remasked (hp : Sound p) (htable : p.mTable fd = some q)
    (hl : Linked p fd q e) (mask : UInt32) (kernel : Int × Filter → Option Udata)
    (changes : List Change) :
    registry (remasked p q mask kernel changes) = (registry p).put e (some (interest mask)) := by
  have hfd : (registry p).fileDesc e = fd := hl.fileDesc
  simp only [Registry.put, hfd, Option.map_some]
  refine congrArg (Registry.mk _ _) (funext fun fd' => ?_)
  by_cases h : fd' = fd
  · subst h
    simp [remasked, htable, hl.event]
  · rw [Function.update_of_ne h]
    simp only [remasked, registry]
    cases ht : p.mTable fd' with
    | none => rfl
    | some q' =>
      have hne : q' ≠ q := by
        rintro rfl
        exact h (table_inj hp.table ht htable)
      simp only [Option.bind_some, Function.update_of_ne hne]

/-- A call that only stores another mask. -/
theorem commutes_remasked (hp : Sound p) (htable : p.mTable fd = some q)
    (hl : Linked p fd q e) {mask : UInt32} {kernel : Int × Filter → Option Udata}
    {changes : List Change} (hs : Sound (remasked p q mask kernel changes)) :
    Commutes p e (.ok (), remasked p q mask kernel changes)
    (.ok (), (registry p).put e (some (interest mask))) where
  result := rfl
  registry := registry_remasked hp htable hl mask kernel changes
  sound := hs
  events q' _ := by rw [holds_put, if_pos (by rfl), remasked_event]
  allocated := Nat.le_refl _

/-- `set_event_mask` and `modify` get through for an event that is open. -/
theorem setMask_linked (hl : Linked p fd q e) (mask : UInt32) (op : ChangeOp)
    (filter : Option Filter) : ∃ kernel changes, (andThen (setEventMask p e mask) fun p =>
      match filter with
      | none => (.ok (), p)
      | some f => (.ok (), ShmIpcPoll.modify p e op f)) =
          (.ok (), remasked p q mask kernel changes) := by
  rw [setEventMask_eq hl]
  cases filter with
  | none => exact ⟨_, _, rfl⟩
  | some f =>
    obtain ⟨kernel, changes, heq, _⟩ := modify_eq (remasked p q mask p.kernel p.mChanges) e op f
    refine ⟨kernel, changes, ?_⟩
    simp only [andThen, heq]
    rfl

/-- The filter behind a member of an event. -/
def filterOf : Callback → Option Filter
  | .eventRead => some .read
  | .eventWrite => some .write
  | .eventError => none

theorem kind_callback (c : Callback) : Kind (callbackFlag c) (filterOf c) := by
  cases c
  · exact .read
  · exact .write
  · exact .error

theorem put_same {r : Registry} {w : Interest} (h : r.registered (r.fileDesc e) = some (e, w)) :
    r.put e (some w) = r := by
  rw [Registry.put, Option.map_some, ← h, Function.update_eq_self]

theorem want_error {msg : String} (hp : Sound p) (h : eventMask p e = .error msg)
    (c : Callback) (b : Bool) : (registry p).want e c b = (.error msg, registry p) := by
  simp only [Registry.want, lookup_registry hp.table, h, Except.map]

theorem want_ok {mask : UInt32} (hp : Sound p) (h : eventMask p e = .ok mask)
    (c : Callback) (b : Bool) :
    (registry p).want e c b = (.ok (), (registry p).put e
      (some (Function.update (interest mask) c b))) := by
  simp only [Registry.want, lookup_registry hp.table, h, Except.map]

theorem commutes_insertFlag (hp : Sound p) (c : Callback) :
    Commutes p e (insertFlag (callbackFlag c) (filterOf c) p e) ((registry p).want e c true) := by
  have hkeeps := keeps_insertFlag (e := e) (kind_callback c) hp
  cases hm : eventMask p e with
  | error msg =>
    rw [want_error hp hm]
    simp only [insertFlag, hm]
    exact commutes_same hp _
  | ok mask =>
    obtain ⟨q, htable, hl, rfl⟩ := eventMask_ok hp.table hm
    rw [want_ok hp hm, ← interest_raise]
    by_cases hset : (p.pollEvents q).mask &&& callbackFlag c ≠ 0
    · have hsame : interest ((p.pollEvents q).mask ||| callbackFlag c) = interest
          (p.pollEvents q).mask := by
        rw [interest_raise, ← interest_iff.mpr hset, Function.update_eq_self]
      rw [hsame, put_same (registered_linked htable hl)]
      simp only [insertFlag, hm, if_pos hset]
      exact commutes_same hp _
    · obtain ⟨kernel, changes, heq⟩ :=
        setMask_linked hl ((p.pollEvents q).mask ||| callbackFlag c) .add (filterOf c)
      have hinsert : insertFlag (callbackFlag c) (filterOf c) p e =
          (.ok (), remasked p q ((p.pollEvents q).mask ||| callbackFlag c) kernel changes) := by
        simp only [insertFlag, hm, if_neg hset]
        exact heq
      rw [hinsert] at hkeeps ⊢
      exact commutes_remasked hp htable hl hkeeps.sound

theorem commutes_removeFlag (hp : Sound p) (c : Callback) :
    Commutes p e (removeFlag (callbackFlag c) (filterOf c) p e) ((registry p).want e c false) := by
  have hkeeps := keeps_removeFlag (e := e) (kind_callback c) hp
  cases hm : eventMask p e with
  | error msg =>
    rw [want_error hp hm]
    simp only [removeFlag, hm]
    exact commutes_same hp _
  | ok mask =>
    obtain ⟨q, htable, hl, rfl⟩ := eventMask_ok hp.table hm
    obtain ⟨kernel, changes, heq⟩ := removeFlag_linked htable hl (callbackFlag c) (filterOf c)
    rw [heq] at hkeeps
    rw [want_ok hp hm, ← interest_lower, heq]
    exact commutes_remasked hp htable hl hkeeps.sound

theorem registry_opened (hp : Sound p) (htable : p.mTable (p.events e).mFileDesc = none) :
    registry (opened p e) = (registry p).put e (some fun _ => false) := by
  have hname : (fun e' => ((opened p e).events e').mFileDesc) = fun e' =>
      (p.events e').mFileDesc := by
    funext e'
    by_cases h : e' = e
    · subst h
      simp [opened]
    · simp [opened, Function.update_of_ne h]
  have htype : (fun e' => ((opened p e).events e').typeName) = fun e' =>
      (p.events e').typeName := by
    funext e'
    by_cases h : e' = e
    · subst h
      simp [opened]
    · simp [opened, Function.update_of_ne h]
  simp only [registry, Registry.put, Option.map_some, hname, htype]
  refine congrArg (Registry.mk _ _) (funext fun fd => ?_)
  by_cases h : fd = (p.events e).mFileDesc
  · subst h
    simp [opened, show interest 0 = fun _ => false by funext c; simp [interest]]
  · rw [Function.update_of_ne h]
    have hsame : (opened p e).mTable fd = p.mTable fd := Function.update_of_ne h ..
    rw [hsame]
    cases ht : p.mTable fd with
    | none => rfl
    | some q => simp only [Option.bind_some, opened_pollEvents hp.table ht]

theorem commutes_opened (hp : Sound p) (hfd : (p.events e).mFileDesc ≠ -1)
    (hpe : (p.events e).mPollEvent = none) (htable : p.mTable (p.events e).mFileDesc = none) :
    Commutes p e (.ok (), opened p e) (.ok (), (registry p).put e (some fun _ => false)) where
  result := rfl
  registry := registry_opened hp htable
  sound := sound_opened hp hfd hpe htable
  events q hq := by
    rw [holds_put, if_pos (by rfl)]
    exact congrArg PollEvent.event (Function.update_of_ne (Nat.ne_of_lt hq) ..)
  allocated := Nat.le_succ _

theorem commutes_openEvent (hp : Sound p) :
    Commutes p e (openEvent p e) ((registry p).register e) := by
  simp only [openEvent, Registry.register,
    show (registry p).fileDesc e = (p.events e).mFileDesc from rfl]
  by_cases hfd : (p.events e).mFileDesc = -1
  · simp only [if_pos hfd]
    exact commutes_same hp _
  · simp only [if_neg hfd]
    by_cases hpe : (p.events e).mPollEvent = none
    · cases ht : p.mTable (p.events e).mFileDesc with
      | none =>
        simp only [hpe, registered_none ht, ne_eq, not_true, if_false]
        exact commutes_opened hp hfd hpe ht
      | some q =>
        -- the descriptor is that of another event
        obtain ⟨e', hl⟩ := hp.table _ q ht
        have hne : e' ≠ e := by
          rintro rfl
          rw [hl.pollEvent] at hpe
          cases hpe
        simp only [hpe, registered_linked ht hl, hne, ne_eq, not_true, if_false, reduceCtorEq,
          not_false_eq_true, if_true]
        exact commutes_same hp _
    · obtain ⟨q, hq⟩ := Option.ne_none_iff_exists'.mp hpe
      obtain ⟨htable, hl⟩ := linked_of_pollEvent hp hq
      simp only [ne_eq, hpe, not_false_eq_true, if_true, registered_linked htable hl]
      exact commutes_same hp _

theorem registry_closed (hp : Sound p) (htable : p.mTable (p.events e).mFileDesc = some q) :
    registry (closed p e q) = (registry p).put e none := by
  have hname : (fun e' => ((closed p e q).events e').mFileDesc) = fun e' =>
      (p.events e').mFileDesc := by
    funext e'
    by_cases h : e' = e
    · subst h
      simp [closed]
    · rw [closed_events h]
  have htype : (fun e' => ((closed p e q).events e').typeName) = fun e' =>
      (p.events e').typeName := by
    funext e'
    by_cases h : e' = e
    · subst h
      simp [closed]
    · rw [closed_events h]
  simp only [registry, Registry.put, Option.map_none, hname, htype]
  refine congrArg (Registry.mk _ _) (funext fun fd => ?_)
  by_cases h : fd = (p.events e).mFileDesc
  · subst h
    simp [closed]
  · rw [Function.update_of_ne h]
    have hsame : (closed p e q).mTable fd = p.mTable fd := Function.update_of_ne h ..
    rw [hsame]
    cases ht : p.mTable fd with
    | none => rfl
    | some q' =>
      have hne : q' ≠ q := by
        rintro rfl
        exact h (table_inj hp.table ht htable)
      simp only [Option.bind_some, closed_pollEvents hne]

theorem commutes_closed (hp : Sound p) (htable : p.mTable (p.events e).mFileDesc = some q)
    (hl : Linked p (p.events e).mFileDesc q e) (hz : (p.pollEvents q).mask = 0) :
    Commutes p e (.ok (), closed p e q) (.ok (), (registry p).put e none) where
  result := rfl
  registry := registry_closed hp htable
  sound := sound_closed hp htable hl hz
  events q' _ := by
    rw [holds_put, if_neg (by simp), cancelled]
    by_cases h : q' = q
    · subst h
      rw [if_pos hl.event]
      simp [closed]
    · rw [closed_pollEvents h, if_neg]
      intro he
      have := (linked_of_event hp he).1.symm.trans htable
      exact h (Option.some.inj this)
  allocated := Nat.le_refl _

theorem commutes_close (hp : Sound p) : Commutes p e (close p e) ((registry p).unregister e) := by
  simp only [Registry.unregister, show (registry p).fileDesc e = (p.events e).mFileDesc from rfl]
  cases hpe : (p.events e).mPollEvent with
  | none =>
    have hclose : close p e = (.ok (), p) := by simp only [close, hpe]
    rw [hclose]
    cases ht : p.mTable (p.events e).mFileDesc with
    | none =>
      rw [registered_none ht]
      exact commutes_same hp _
    | some q =>
      obtain ⟨e', hl⟩ := hp.table _ q ht
      have hne : e' ≠ e := by
        rintro rfl
        rw [hl.pollEvent] at hpe
        cases hpe
      simp only [registered_linked ht hl, if_pos hne]
      exact commutes_same hp _
  | some q =>
    obtain ⟨htable, hl⟩ := linked_of_pollEvent hp hpe
    simp only [registered_linked htable hl, ne_eq, not_true, if_false]
    by_cases hz : (p.pollEvents q).mask = 0
    · have hany : ¬ (interest (p.pollEvents q).mask).any = true := fun h =>
        (any_interest (hp.masks q)).mp h hz
      rw [if_neg hany, close_linked htable hl hz]
      exact commutes_closed hp htable hl hz
    · rw [if_pos ((any_interest (hp.masks q)).mpr hz)]
      have hclose : close p e =
          (.error ("Poll::close() called but the file descriptor is active: " ++ printNameFdStr
            (p.events e)), p) := by
        simp only [close, hpe, eventMask_linked htable hl]
        rw [if_neg (not_not.mpr hl.event), if_pos hz]
      rw [hclose]
      exact commutes_same hp _

theorem commutes_perform (hp : Sound p) (c : Call) :
    Commutes p c.event (c.perform p) (ShmIpcPollRegistry.perform (registry p) c) := by
  cases c with
  | openEvent e => exact commutes_openEvent hp
  | openAndInsertRead e =>
    exact commutes_andThen (commutes_openEvent hp) (fun _ h => commutes_insertFlag h .eventRead)
      holds_want
  | openAndInsertReadWrite e =>
    refine commutes_andThen (commutes_openEvent hp) (fun _ h => ?_)
      (holds_andThen holds_want holds_want)
    exact commutes_andThen (commutes_insertFlag h .eventRead)
      (fun _ h => commutes_insertFlag h .eventWrite) holds_want
  | openAndInsertWrite e =>
    exact commutes_andThen (commutes_openEvent hp) (fun _ h => commutes_insertFlag h .eventWrite)
      holds_want
  | close e => exact commutes_close hp
  | insertRead e => exact commutes_insertFlag hp .eventRead
  | insertWrite e => exact commutes_insertFlag hp .eventWrite
  | insertError e => exact commutes_insertFlag hp .eventError
  | removeRead e => exact commutes_removeFlag hp .eventRead
  | removeWrite e => exact commutes_removeFlag hp .eventWrite
  | removeError e => exact commutes_removeFlag hp .eventError
  | removeAndClose e =>
    refine commutes_andThen (commutes_removeFlag hp .eventRead) (fun _ h => ?_)
      (holds_andThen holds_want (holds_andThen holds_want holds_unregister))
    refine commutes_andThen (commutes_removeFlag h .eventWrite) (fun _ h => ?_)
      (holds_andThen holds_want holds_unregister)
    exact commutes_andThen (commutes_removeFlag h .eventError)
      (fun _ h => commutes_close h) holds_unregister

/-! ## Batches -/

/-- The entries to come and the running callback are about `PollEvent`s that have been allocated. -/
structure Allocated (m : Loop) : Prop where
  rest : ∀ entry ∈ Place.rest m.place, ∀ q, entry.udata = some q → q < m.poll.nextPollEvent
  current : ∀ q, Place.current m.place = some q → q < m.poll.nextPollEvent

theorem allocated_outside {p : Poll} {count : Nat} : Allocated ⟨p, .outside, count⟩ :=
  ⟨by simp [Place.rest], by simp [Place.current]⟩

/-- A step leads to a place that is no further from the end of the batch, or to a callback of its
first entry. -/
theorem Allocated.place {m : Loop} {place : Place} {count : Nat} (h : Allocated m)
    (hrest : Place.rest place ⊆ Place.rest m.place)
    (hcur : ∀ q, Place.current place = some q → q < m.poll.nextPollEvent) :
    Allocated ⟨m.poll, place, count⟩ :=
  ⟨fun entry he => h.rest entry (hrest he), hcur⟩

/-- A `PollEvent` that has lost its event is not interested in anything. -/
theorem mask_dead (hp : Sound p) (h : (p.pollEvents q).event = none) :
    (p.pollEvents q).mask = 0 := by
  refine (hp.dead q fun fd ht => ?_).1
  obtain ⟨e, hl⟩ := hp.table fd q ht
  rw [hl.event] at h
  cases h

/-- What the registry answers to a note is what `process` does with the entry. -/
inductive Answers (p : Poll) : Dispatch → Answer → Prop where
  | pass : Answers p .skip .pass
  | refuse (msg : String) : Answers p (.throws msg) (.refuse msg)
  | call {q : PollEventId} {e : EventId} (callback : Callback) : (p.pollEvents q).event = some e →
      Answers p (.call callback q) (.call callback e)

theorem answer_note (hp : Sound p) (entry : Entry) :
    Answers p (dispatch p entry) (answer (registry p) (note p entry)) := by
  obtain ⟨filter, evError, udata⟩ := entry
  cases udata with
  | none => exact .pass
  | some q =>
    cases he : (p.pollEvents q).event with
    | none =>
      -- the event has left and its mask is zero
      have hmask := mask_dead hp he
      have hskip : dispatch p ⟨filter, evError, some q⟩ = .skip := by
        simp [dispatch, he, hmask]
      have hpass : answer (registry p) (note p ⟨filter, evError, some q⟩) = .pass := by
        simp [answer, note, he]
      rw [hskip, hpass]
      exact .pass
    | some e =>
      have hwants (c : Callback) : (registry p).wants e c = true ↔
          (p.pollEvents q).mask &&& callbackFlag c ≠ 0 := by
        rw [wants_of_event hp he, interest_iff]
      have hname : (registry p).name e = printNameFdStr (p.events e) := rfl
      simp only [dispatch, answer, note, he, Option.bind_some, hwants, hname, callbackFlag]
      by_cases herr : evError = true
      · rw [if_pos herr, if_pos herr]
        by_cases hflag : (p.pollEvents q).mask &&& flagError = 0
        · rw [if_pos hflag, if_neg (not_not.mpr hflag)]
          exact .refuse _
        · rw [if_neg hflag, if_pos hflag]
          exact .call _ he
      · rw [if_neg herr, if_neg herr]
        split
        · exact .call _ he
        · split
          · exact .call _ he
          · exact .pass

theorem complaint_eq (hp : Sound p) (callback : Callback) (q : PollEventId) (info : String) :
    complaint (registry p) callback (p.pollEvents q).event info =
    afterCallback p callback q info := by
  simp only [complaint, afterCallback]
  cases he : (p.pollEvents q).event with
  | none => simp [mask_dead hp he]
  | some e =>
    simp only [Option.any_some, wants_of_event hp he, any_interest (hp.masks q)]

theorem fresh_note {entry : Entry} (hp : Sound p) (h : Returned p entry) :
    Fresh (registry p) (note p entry) := by
  rcases h with ⟨hfilter, herr, hudata⟩ | ⟨q, fd, hudata, htable⟩
  · simpa [Fresh, note, hudata] using ⟨hfilter, herr⟩
  · obtain ⟨e, hl⟩ := hp.table fd q htable
    simpa [Fresh, note, hudata, hl.event] using holds_of_event hp hl.event

/-- A call either leaves the events of the place as they are, or cancels the notes of the one that
has left. -/
theorem stand_call {m : Loop} (hm : Allocated m) {r : Result} {o : Outcome}
    (h : Commutes m.poll e r o) :
    stand r.2 m.place = if o.2.holds e then stand m.poll m.place
    else (stand m.poll m.place).cancel e := by
  have hnote : ∀ entry ∈ Place.rest m.place, note r.2 entry =
      if o.2.holds e then note m.poll entry else (note m.poll entry).cancel e := by
    intro entry hentry
    obtain ⟨filter, evError, udata⟩ := entry
    cases udata with
    | none => cases o.2.holds e <;> simp [note, Note.cancel, cancelled]
    | some q =>
      have hq := h.events q (hm.rest _ hentry q rfl)
      simp only [note, Note.cancel, Option.bind_some, hq]
      split <;> rfl
  have hrest : (Place.rest m.place).map (note r.2) = if o.2.holds e then (Place.rest m.place).map
      (note m.poll)
      else ((Place.rest m.place).map (note m.poll)).map (Note.cancel e) := by
    rw [List.map_congr_left hnote]
    split
    · rfl
    · rw [List.map_map]
      rfl
  have hcurrent := fun q hq => h.events q (hm.current q hq)
  obtain ⟨p, place, count⟩ := m
  cases place with
  | outside => simp [stand, Stand.cancel]
  | walking rest =>
    simp only [Place.rest] at hrest
    simp only [stand, hrest, Stand.cancel]
    split <;> rfl
  | calling callback q info rest =>
    simp only [Place.rest] at hrest
    simp only [stand, hrest, hcurrent q rfl, Stand.cancel]
    split <;> rfl

/-! ## Runs -/

/-- What a step shows: a batch arrives as notes, and a callback is made on an event. -/
def seen (m : Loop) : Act → Loop → Option Seen
  | .call c, _ => some (.called c (c.perform m.poll).1)
  | .setFileDescriptor e fd, _ => some (.setFileDescriptor e fd)
  | .closeDescriptor _, _ => none
  | .interrupted, _ => none
  | .doPoll batch, _ => some (.polled (batch.map (note m.poll)))
  | .next, _ =>
    match m.place with
    | .walking (entry :: _) =>
      match dispatch m.poll entry with
      | .skip => some .passed
      | .throws msg => some (.refused msg)
      | .call callback q => (m.poll.pollEvents q).event.map (.callback callback)
    | _ => none
  | .returned, _ =>
    match m.place with
    | .calling callback q info _ => some (.returned (afterCallback m.poll callback q info))
    | _ => none
  | .thrown, _ => some .thrown
  | .finish, _ => some (.finished m.count)

structure Represents (m : Loop) (w : Watch) : Prop where
  sound : Sound m.poll
  allocated : Allocated m
  watch : w = watch m

section

variable {m m' : Loop}

theorem stand_not_walking (h : ∀ rest, m.place ≠ .walking rest) :
    ∀ rest, (watch m).stand ≠ .walking rest := by
  obtain ⟨p, place, count⟩ := m
  cases place with
  | outside => exact fun rest h => by cases h
  | walking rest => exact absurd rfl (h rest)
  | calling callback q info rest => exact fun rest h => by cases h

theorem follows_call (hs : Sound m.poll) (hm : Allocated m) (c : Call)
    (h : step m (.call c) = some m') :
    Follows (watch m) (.called c (c.perform m.poll).1) (watch m') ∧ Allocated m' := by
  have hc := commutes_perform hs c
  have hwalk : ∀ rest, m.place ≠ .walking rest := by
    intro rest hplace
    simp [step, hplace] at h
  obtain rfl : m' = { m with poll := (c.perform m.poll).2 } := by
    cases effect_of_step h
    rfl
  refine ⟨?_, fun entry he q hq => ?_, fun q hq => ?_⟩
  · have hwatch : watch { m with poll := (c.perform m.poll).2 } = (watch m).call c := by
      simp only [watch, Watch.call, stand_call hm hc, hc.registry]
      rfl
    rw [hwatch, hc.result]
    exact .called c (stand_not_walking hwalk)
  · exact Nat.lt_of_lt_of_le (hm.rest entry he q hq) hc.allocated
  · exact Nat.lt_of_lt_of_le (hm.current q hq) hc.allocated

theorem follows_next (hs : Sound m.poll) (hm : Allocated m) (h : step m .next = some m') :
    ∃ o, seen m .next m' = some o ∧ Follows (watch m) o (watch m') ∧ Allocated m' := by
  simp only [step] at h
  split at h
  · rename_i entry rest hplace
    have hstand : (watch m).stand = .walking (note m.poll entry :: rest.map (note m.poll)) := by
      simp only [watch, hplace, stand, List.map_cons]
    have hrest : rest ⊆ Place.rest m.place := by
      rw [hplace]
      exact List.subset_cons_self _ _
    have hans := answer_note hs entry
    generalize heq : answer (registry m.poll) (note m.poll entry) = ans at hans
    split at h
    · rename_i hd
      obtain rfl := Option.some.inj h
      rw [hd] at hans
      cases hans
      exact ⟨.passed, by simp only [seen, hplace, hd], .passed hstand heq,
        hm.place hrest (by simp [Place.current])⟩
    · rename_i msg hd
      obtain rfl := Option.some.inj h
      rw [hd] at hans
      cases hans
      exact ⟨.refused msg, by simp only [seen, hplace, hd], .refused hstand heq, allocated_outside⟩
    · rename_i callback q hd
      obtain rfl := Option.some.inj h
      rw [hd] at hans
      cases hans with
      | @call _ e _ he =>
        have hinfo : eventInfo m.poll q = (registry m.poll).name e := by
          rw [eventInfo, he]
          rfl
        refine ⟨.callback callback e, by simp only [seen, hplace, hd, he, Option.map_some],
          ?_, hm.place hrest ?_⟩
        · have hwatch : watch ⟨m.poll, .calling callback q (eventInfo m.poll q) rest, m.count + 1⟩ =
              ⟨registry m.poll, .calling callback (some e) ((registry m.poll).name e)
                (rest.map (note m.poll)), m.count + 1⟩ := by
            simp only [watch, stand, he, hinfo]
          rw [hwatch]
          exact .callback hstand heq
        · rintro q' hq'
          obtain rfl : q = q' := by simpa [Place.current] using hq'
          exact hm.rest entry (by simp [hplace, Place.rest]) q (dispatch_call hd).1
  · cases h

theorem follows_returned (hs : Sound m.poll) (hm : Allocated m) (h : step m .returned = some m') :
    ∃ o, seen m .returned m' = some o ∧ Follows (watch m) o (watch m') ∧ Allocated m' := by
  simp only [step] at h
  split at h
  · rename_i callback q info rest hplace
    have hstand : (watch m).stand = .calling callback (m.poll.pollEvents q).event info
        (rest.map (note m.poll)) := by
      simp only [watch, hplace, stand]
    have hcheck := complaint_eq hs callback q info
    refine ⟨.returned (afterCallback m.poll callback q info), by simp only [seen, hplace], ?_⟩
    split at h <;> rename_i hafter <;> obtain rfl := Option.some.inj h <;> rw [hafter] at hcheck ⊢
    · exact ⟨.returned hstand hcheck, hm.place (by simp [hplace, Place.rest])
        (by simp [Place.current])⟩
    · exact ⟨.complained hstand hcheck, allocated_outside⟩
  · cases h

theorem follows_setFileDescriptor {e : EventId} {fd : Int} (hs : Sound m.poll) (hm : Allocated m)
    (hadm : (m.poll.events e).mPollEvent = none) (h : step m (.setFileDescriptor e fd) = some m') :
    Follows (watch m) (.setFileDescriptor e fd) (watch m') ∧ Allocated m' := by
  have hwalk : ∀ rest, m.place ≠ .walking rest := by
    intro rest hplace
    simp [step, hplace] at h
  obtain rfl : m' = { m with poll := ShmIpcPoll.setFileDescriptor m.poll e fd } := by
    cases effect_of_step h
    rfl
  have hfree : (watch m).registry.holds e = false :=
    Bool.eq_false_iff.mpr fun hholds => (holds_iff hs).mp hholds hadm
  have hwatch : watch { m with poll := ShmIpcPoll.setFileDescriptor m.poll e fd } =
      { watch m with registry := { (watch m).registry with
        fileDesc := Function.update (watch m).registry.fileDesc e fd } } := by
    have hfd : (fun e' => ((ShmIpcPoll.setFileDescriptor m.poll e fd).events e').mFileDesc) =
        Function.update (fun e' => (m.poll.events e').mFileDesc) e fd := by
      funext e'
      by_cases he : e' = e
      · subst he
        simp [setFileDescriptor]
      · simp [setFileDescriptor, Function.update_of_ne he]
    have htype : (fun e' => ((ShmIpcPoll.setFileDescriptor m.poll e fd).events e').typeName) =
        fun e' => (m.poll.events e').typeName := by
      funext e'
      by_cases he : e' = e
      · subst he
        simp [setFileDescriptor]
      · simp [setFileDescriptor, Function.update_of_ne he]
    simp only [watch, registry, hfd, htype]
    rfl
  rw [hwatch]
  exact ⟨.setFileDescriptor fd (stand_not_walking hwalk) hfree, hm.rest, hm.current⟩

theorem follows_doPoll {batch : List Entry} (hs : Sound m.poll)
    (hadm : ∀ entry ∈ batch, Returned m.poll entry) (h : step m (.doPoll batch) = some m') :
    Follows (watch m) (.polled (batch.map (note m.poll))) (watch m') ∧ Allocated m' := by
  cases effect_of_step h with
  | doPoll _ hplace =>
    refine ⟨.polled (by simp only [watch, hplace, stand]) ?_, ?_, by simp [Place.current]⟩
    · intro n hn
      obtain ⟨entry, hentry, rfl⟩ := List.mem_map.mp hn
      exact fresh_note hs (hadm entry hentry)
    · intro entry hentry q hq
      rcases hadm entry hentry with ⟨-, -, hnone⟩ | ⟨q', fd, hsome, htable⟩
      · rw [hnone] at hq
        cases hq
      · obtain rfl : q = q' := Option.some.inj (hq.symm.trans hsome)
        obtain ⟨e, hl⟩ := hs.table fd q htable
        exact hl.allocated

theorem follows_thrown (h : step m .thrown = some m') :
    Follows (watch m) .thrown (watch m') ∧ Allocated m' := by
  simp only [step] at h
  split at h
  · rename_i callback q info rest hplace
    obtain rfl := Option.some.inj h
    have hcalling : (watch m).stand = .calling callback (m.poll.pollEvents q).event info
        (rest.map (note m.poll)) := by
      simp only [watch, hplace, stand]
    exact ⟨.thrown hcalling, allocated_outside⟩
  · cases h

theorem follows_finish (h : step m .finish = some m') :
    Follows (watch m) (.finished m.count) (watch m') ∧ Allocated m' := by
  cases effect_of_step h with
  | finish hplace =>
    exact ⟨.finished (by simp only [watch, hplace, stand, List.map_nil]), allocated_outside⟩

theorem simulates : Simulates (guarded Admitted (ofFun step)) seen Follows Represents := by
  rintro m a m' w ⟨hs, hm, rfl⟩ hstep
  have hs' := sound_step hs hstep
  obtain ⟨hadm, h⟩ := hstep
  cases a with
  | call c =>
    obtain ⟨hf, hm'⟩ := follows_call hs hm c h
    exact matched_event rfl hf ⟨hs', hm', rfl⟩
  | setFileDescriptor e fd =>
    obtain ⟨hf, hm'⟩ := follows_setFileDescriptor hs hm hadm h
    exact matched_event rfl hf ⟨hs', hm', rfl⟩
  | closeDescriptor fd =>
    -- the filters are gone already
    have hsame : m' = m := by
      cases effect_of_step h
      rw [dropFilters_eq hs hadm]
    rw [hsame]
    exact matched_silent rfl ⟨hs, hm, rfl⟩
  | interrupted =>
    cases effect_of_step h
    exact matched_silent rfl ⟨hs', ⟨hm.rest, hm.current⟩, rfl⟩
  | doPoll batch =>
    obtain ⟨hf, hm'⟩ := follows_doPoll hs hadm h
    exact matched_event rfl hf ⟨hs', hm', rfl⟩
  | next =>
    obtain ⟨o, ho, hf, hm'⟩ := follows_next hs hm h
    exact matched_event ho hf ⟨hs', hm', rfl⟩
  | returned =>
    obtain ⟨o, ho, hf, hm'⟩ := follows_returned hs hm h
    exact matched_event ho hf ⟨hs', hm', rfl⟩
  | thrown =>
    obtain ⟨hf, hm'⟩ := follows_thrown h
    exact matched_event rfl hf ⟨hs', hm', rfl⟩
  | finish =>
    obtain ⟨hf, hm'⟩ := follows_finish h
    exact matched_event rfl hf ⟨hs', hm', rfl⟩

end

end ShmIpcPollRefines
