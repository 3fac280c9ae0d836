import ShmIpc.Flags
import ShmIpc.LabelledRun
import ShmIpc.Poll

/-!
# The poll table and the kernel filters

The `Event`s, their `PollEvent`s and the table are linked in both directions,
and the pending changes turn the filters of the kernel into those that the
masks ask for. Every call keeps this invariant, whether it throws or not.
-/
namespace ShmIpcPollTable

open ChangeLog Flags LabelledRun ShmIpcPoll

/-! ## Flags -/

def flagOf : Filter → UInt32
  | .read => flagRead
  | .write => flagWrite

def allFlags : UInt32 := flagRead ||| flagWrite ||| flagError

/-- The flags that `insert_*` and `remove_*` set and clear, each with its filter. -/
inductive Kind : UInt32 → Option Filter → Prop where
  | read : Kind flagRead (some .read)
  | write : Kind flagWrite (some .write)
  | error : Kind flagError none

/-- The filter that a mask asks for on behalf of a `PollEvent`. -/
def registered (mask : UInt32) (q : PollEventId) (f : Filter) : Option Udata :=
  if mask &&& flagOf f ≠ 0 then some (some q) else none

section Flags

variable {flag : UInt32} {filter : Option Filter}

@[simp] theorem registered_zero (q : PollEventId) (f : Filter) : registered 0 q f = none := by
  cases f <;> rfl

theorem registered_raise (hk : Kind flag filter) (mask : UInt32) (q : PollEventId) (f : Filter) :
    registered (mask ||| flag) q f = if filter = some f then some (some q)
    else registered mask q f := by
  have hflag : flag &&& flagOf f ≠ 0 ↔ filter = some f := by
    cases hk <;> cases f <;> decide
  simp only [registered, or_and_distrib, ne_eq, UInt32.or_eq_zero_iff]
  by_cases h : filter = some f
  · rw [if_pos h, if_pos fun hz => hflag.mpr h hz.2]
  · have h0 : flag &&& flagOf f = 0 := not_not.mp fun hne => h (hflag.mp hne)
    simp only [h, h0, and_true, ↓reduceIte]

theorem registered_lower (hk : Kind flag filter) (mask : UInt32) (q : PollEventId) (f : Filter) :
    registered (mask &&& ~~~flag) q f = if filter = some f then none else registered mask q f := by
  have hflag : ~~~flag &&& flagOf f = if filter = some f then 0 else flagOf f := by
    cases hk <;> cases f <;> rfl
  rw [registered, UInt32.and_assoc, hflag]
  by_cases h : filter = some f
  · simp [h]
  · simp only [h, ↓reduceIte, registered]

theorem allFlags_raise (hk : Kind flag filter) {mask : UInt32} (h : mask &&& allFlags = mask) :
    (mask ||| flag) &&& allFlags = mask ||| flag := by
  have hflag : flag &&& allFlags = flag := by cases hk <;> rfl
  rw [or_and_distrib, h, hflag]

theorem allFlags_lower {mask : UInt32} (flag : UInt32) (h : mask &&& allFlags = mask) :
    (mask &&& ~~~flag) &&& allFlags = mask &&& ~~~flag := by
  rw [UInt32.and_assoc, UInt32.and_comm _ allFlags, ← UInt32.and_assoc, h]

theorem allFlags_cleared {mask : UInt32} (h : mask &&& allFlags = mask) :
    mask &&& ~~~flagRead &&& ~~~flagWrite &&& ~~~flagError = 0 := by
  have hnot : ~~~flagRead &&& (~~~flagWrite &&& ~~~flagError) = ~~~allFlags := by decide
  rw [UInt32.and_assoc, UInt32.and_assoc, hnot, ← h, UInt32.and_assoc,
    UInt32.and_not_self, UInt32.and_zero]

end Flags

/-! ## The invariant -/

/-- What the kernel will hold once it has taken the pending changes. -/
def view (p : Poll) : Int × Filter → Option Udata := applyLog p.kernel p.mChanges

/-- The filters that the table and the masks ask for. -/
def desired (p : Poll) (fd : Int) (f : Filter) : Option Udata :=
  match p.mTable fd with
  | none => none
  | some q => registered (p.pollEvents q).mask q f

/-- An `Event` is open in the poll under its descriptor. -/
structure Linked (p : Poll) (fd : Int) (q : PollEventId) (e : EventId) : Prop where
  valid : fd ≠ -1
  allocated : q < p.nextPollEvent
  fileDesc : (p.events e).mFileDesc = fd
  pollEvent : (p.events e).mPollEvent = some q
  event : (p.pollEvents q).event = some e

/-- Every entry of the table belongs to an `Event`. -/
abbrev Linkage (p : Poll) : Prop := ∀ fd q, p.mTable fd = some q → ∃ e, Linked p fd q e

structure Sound (p : Poll) : Prop where
  table : ∀ fd q, p.mTable fd = some q → ∃ e, Linked p fd q e
  event : ∀ e q, (p.events e).mPollEvent = some q →
    p.mTable (p.events e).mFileDesc = some q ∧ (p.pollEvents q).event = some e
  -- a `PollEvent` outside the table, allocated or not, is neutral
  dead : ∀ q, (∀ fd, p.mTable fd ≠ some q) → (p.pollEvents q).mask = 0 ∧
    (p.pollEvents q).event = none
  masks : ∀ q, (p.pollEvents q).mask &&& allFlags = (p.pollEvents q).mask
  filters : ∀ fd f, view p (fd, f) = desired p fd f
  pending : ∀ c ∈ p.mChanges, p.mTable c.key.1 ≠ none
  space : 0 < p.mMaxEvents
  room : p.mChanges.length ≤ p.mMaxEvents

theorem sound_create {events : EventId → Event} (h : ∀ e, (events e).mPollEvent = none) :
    Sound (create events) where
  table := by simp [create]
  event := by simp [create, h]
  dead := by simp [create]
  masks := by simp [create]
  filters := by simp [create, view, desired]
  pending := by simp [create]
  space := by simp [create]
  room := by simp [create]

/-- The kernel itself holds no filter outside the table. -/
theorem kernel_untabled {p : Poll} (hp : Sound p) {fd : Int} (h : p.mTable fd = none) (f : Filter) :
    p.kernel (fd, f) = none := by
  have hview : view p (fd, f) = p.kernel (fd, f) := by
    refine applyLog_untouched (fun c hc he => hp.pending c hc ?_) p.kernel
    rw [he]
    exact h
  rw [← hview, hp.filters fd f, desired, h]

theorem view_tabled {p : Poll} (hp : Sound p) {fd : Int} {q : PollEventId}
    (h : p.mTable fd = some q) (f : Filter) :
    view p (fd, f) = registered (p.pollEvents q).mask q f := by
  rw [hp.filters, desired, h]

/-- `event_mask` returns for the events that are open in the poll. -/
theorem eventMask_ok {p : Poll} (hp : Linkage p) {e : EventId} {mask : UInt32}
    (h : eventMask p e = .ok mask) :
      ∃ q, p.mTable (p.events e).mFileDesc = some q ∧ Linked p (p.events e).mFileDesc q e ∧
      (p.pollEvents q).mask = mask := by
  simp only [eventMask] at h
  split at h
  · cases h
  · split at h
    · cases h
    · rename_i q htable
      split at h
      · cases h
      · rename_i heq
        cases h
        obtain ⟨e', hl⟩ := hp _ _ htable
        obtain rfl : e = e' := by
          have := hl.event
          rw [not_not.mp heq] at this
          exact Option.some.inj this
        exact ⟨q, htable, hl, rfl⟩

theorem linked_of_pollEvent {p : Poll} (hp : Sound p) {e : EventId} {q : PollEventId}
    (h : (p.events e).mPollEvent = some q) :
    p.mTable (p.events e).mFileDesc = some q ∧ Linked p (p.events e).mFileDesc q e := by
  obtain ⟨htable, hevent⟩ := hp.event e q h
  obtain ⟨e', hl⟩ := hp.table _ q htable
  obtain rfl : e = e' := Option.some.inj (hevent.symm.trans hl.event)
  exact ⟨htable, hl⟩

/-- A `PollEvent` is in the table once. -/
theorem table_inj {p : Poll} (hp : Linkage p) {fd fd' : Int} {q : PollEventId}
    (h : p.mTable fd = some q) (h' : p.mTable fd' = some q) : fd = fd' := by
  obtain ⟨e, hl⟩ := hp fd q h
  obtain ⟨e', hl'⟩ := hp fd' q h'
  obtain rfl : e = e' := Option.some.inj (hl.event.symm.trans hl'.event)
  exact hl.fileDesc.symm.trans hl'.fileDesc

theorem eventMask_linked {p : Poll} {fd : Int} {q : PollEventId} {e : EventId}
    (htable : p.mTable fd = some q) (hl : Linked p fd q e) :
    eventMask p e = .ok (p.pollEvents q).mask := by
  simp [eventMask, hl.fileDesc, hl.valid, htable, hl.event]

/-! ## What a call leaves alone -/

/-- The table or the list of closed events still holds a `PollEvent`. -/
def Held (p : Poll) (q : PollEventId) : Prop := (∃ fd, p.mTable fd = some q) ∨ q ∈ p.mClosedEvents

/-- The invariant is kept, and nothing that is held during a batch is let go. -/
structure Keeps (p p' : Poll) : Prop where
  sound : Sound p'
  processing : p'.mProcessing = p.mProcessing
  held : p.mProcessing = true → ∀ q, Held p q → Held p' q

theorem Keeps.refl {p : Poll} (hp : Sound p) : Keeps p p := ⟨hp, rfl, fun _ _ h => h⟩

theorem Keeps.trans {p p' p'' : Poll} (h : Keeps p p') (h' : Keeps p' p'') : Keeps p p'' :=
  ⟨h'.sound, h'.processing.trans h.processing,
    fun hp q hq => h'.held (h.processing.trans hp) q (h.held hp q hq)⟩

theorem keeps_andThen {p : Poll} {r : Result} {f : Poll → Result} (hr : Keeps p r.2)
    (hf : ∀ p', Sound p' → Keeps p' (f p').2) : Keeps p (andThen r f).2 := by
  obtain ⟨res, p'⟩ := r
  cases res with
  | error msg => exact hr
  | ok u => exact hr.trans (hf p' hr.sound)

/-! ## Changes of a mask -/

/-- `p` with another mask, another kernel and other pending changes. -/
def remasked (p : Poll) (q : PollEventId) (mask : UInt32) (kernel : Int × Filter → Option Udata)
    (changes : List Change) : Poll :=
  { p with
    pollEvents := Function.update p.pollEvents q { p.pollEvents q with mask := mask }
    kernel := kernel
    mChanges := changes }

theorem remasked_mask (p : Poll) (q : PollEventId) (mask : UInt32)
    (kernel : Int × Filter → Option Udata) (changes : List Change) :
    ((remasked p q mask kernel changes).pollEvents q).mask = mask := by
  simp [remasked]

theorem remasked_event (p : Poll) (q : PollEventId) (mask : UInt32)
    (kernel : Int × Filter → Option Udata) (changes : List Change) (q' : PollEventId) :
    ((remasked p q mask kernel changes).pollEvents q').event = (p.pollEvents q').event := by
  by_cases h : q' = q
  · subst h
    simp [remasked]
  · simp [remasked, Function.update_of_ne h]

theorem linked_remasked {p : Poll} {fd : Int} {q q' : PollEventId} {e : EventId}
    (hl : Linked p fd q' e) (mask : UInt32) (kernel : Int × Filter → Option Udata)
    (changes : List Change) : Linked (remasked p q mask kernel changes) fd q' e :=
  ⟨hl.valid, hl.allocated, hl.fileDesc, hl.pollEvent, by rw [remasked_event]; exact hl.event⟩

/-- A new mask goes with changes that adjust exactly the filters of its descriptor. -/
theorem sound_remasked {p : Poll} (hp : Sound p) {fd : Int} {q : PollEventId}
    (htable : p.mTable fd = some q) {mask : UInt32} (hmask : mask &&& allFlags = mask)
    {kernel : Int × Filter → Option Udata} {changes : List Change}
    (hown : ∀ f, applyLog kernel changes (fd, f) = registered mask q f)
    (hother : ∀ fd', fd' ≠ fd → ∀ f, applyLog kernel changes (fd', f) = view p (fd', f))
    (hkeys : ∀ c ∈ changes, c ∈ p.mChanges ∨ c.key.1 = fd) (hroom : changes.length ≤ p.mMaxEvents) :
    Sound (remasked p q mask kernel changes) where
  table := by
    intro fd' q' h
    obtain ⟨e, hl⟩ := hp.table fd' q' h
    exact ⟨e, linked_remasked hl mask kernel changes⟩
  event := by
    intro e q' h
    rw [remasked_event]
    exact hp.event e q' h
  dead := by
    intro q' h
    have hne : q' ≠ q := by
      rintro rfl
      exact h fd htable
    have hsame : (remasked p q mask kernel changes).pollEvents q' = p.pollEvents q' :=
      Function.update_of_ne hne ..
    rw [hsame]
    exact hp.dead q' h
  masks := by
    intro q'
    by_cases h : q' = q
    · rw [h, remasked_mask]
      exact hmask
    · have hsame : (remasked p q mask kernel changes).pollEvents q' = p.pollEvents q' :=
        Function.update_of_ne h ..
      rw [hsame]
      exact hp.masks q'
  filters := by
    intro fd' f
    by_cases h : fd' = fd
    · subst h
      simp only [view, remasked, desired, htable, Function.update_self]
      exact hown f
    · have hold := hp.filters fd' f
      rw [← hother fd' h f] at hold
      refine hold.trans ?_
      unfold desired
      cases ht : p.mTable fd' with
      | none => simp [remasked, ht]
      | some q' =>
        have hne : q' ≠ q := by
          rintro rfl
          exact h (table_inj hp.table ht htable)
        simp only [remasked, ht, Function.update_of_ne hne]
  pending := by
    intro c hc
    rcases hkeys c hc with h | h
    · exact hp.pending c h
    · show p.mTable c.key.1 ≠ none
      rw [h, htable]
      simp
  space := hp.space
  room := hroom

theorem keeps_remasked {p : Poll} (hp : Sound p) {fd : Int} {q : PollEventId}
    (htable : p.mTable fd = some q) {mask : UInt32} (hmask : mask &&& allFlags = mask)
    {kernel : Int × Filter → Option Udata} {changes : List Change}
    (hown : ∀ f, applyLog kernel changes (fd, f) = registered mask q f)
    (hother : ∀ fd', fd' ≠ fd → ∀ f, applyLog kernel changes (fd', f) = view p (fd', f))
    (hkeys : ∀ c ∈ changes, c ∈ p.mChanges ∨ c.key.1 = fd) (hroom : changes.length ≤ p.mMaxEvents) :
    Keeps p (remasked p q mask kernel changes) :=
  ⟨sound_remasked hp htable hmask hown hother hkeys hroom, rfl, fun _ _ h => h⟩

theorem flush_eq (p : Poll) : flush p = { p with kernel := view p, mChanges := [] } := by
  unfold flush view
  split
  · rename_i h
    rw [h, applyLog_nil, ← h]
  · rfl

/-- `modify` puts one change behind the pending ones, which may have gone to the kernel. -/
theorem modify_eq (p : Poll) (e : EventId) (op : ChangeOp) (f : Filter) :
    ∃ kernel changes, modify p e op f = { p with kernel := kernel, mChanges := changes } ∧
      applyLog kernel changes = Function.update (view p) ((p.events e).mFileDesc, f)
        (evSet (p.events e).mFileDesc f op (p.events e).mPollEvent).value ∧
      (∀ c ∈ changes, c ∈ p.mChanges ∨ c.key.1 = (p.events e).mFileDesc) ∧
      (0 < p.mMaxEvents → p.mChanges.length ≤ p.mMaxEvents → changes.length ≤ p.mMaxEvents) := by
  have hkey : (evSet (p.events e).mFileDesc f op (p.events e).mPollEvent).key =
      ((p.events e).mFileDesc, f) := by
    cases op <;> rfl
  by_cases hfull : p.mChanges.length = p.mMaxEvents
  · refine ⟨view p, [evSet (p.events e).mFileDesc f op (p.events e).mPollEvent], ?_, ?_, ?_, ?_⟩
    · rw [ShmIpcPoll.modify, if_pos hfull, flush_eq]
      rfl
    · have := applyLog_snoc (view p) [] (evSet (p.events e).mFileDesc f op (p.events e).mPollEvent)
      rw [hkey] at this
      exact this
    · simp [hkey]
    · simp; omega
  · refine ⟨p.kernel, p.mChanges ++ [evSet (p.events e).mFileDesc f op (p.events e).mPollEvent], ?_,
      ?_, ?_, ?_⟩
    · rw [ShmIpcPoll.modify, if_neg hfull]
    · rw [applyLog_snoc, hkey]
      rfl
    · intro c hc
      rcases List.mem_append.mp hc with h | h
      · exact .inl h
      · rw [List.mem_singleton.mp h, hkey]
        exact .inr rfl
    · simp; omega

/-! ## The calls -/

variable {p : Poll} {e : EventId}

theorem setEventMask_eq {fd : Int} {q : PollEventId} (hl : Linked p fd q e) (mask : UInt32) :
    setEventMask p e mask = (.ok (), remasked p q mask p.kernel p.mChanges) := by
  simp only [setEventMask, hl.fileDesc, hl.valid, hl.pollEvent, ↓reduceIte]
  rfl

/-- A new mask and the change that `modify` adds for it. -/
theorem keeps_modify {fd : Int} {q : PollEventId} (hp : Sound p) (htable : p.mTable fd = some q)
    (hl : Linked p fd q e) {mask : UInt32} (hmask : mask &&& allFlags = mask)
    {op : ChangeOp} {f : Filter}
    (hnew : ∀ g, registered mask q g =
      if some f = some g then (evSet fd f op (some q)).value
      else registered (p.pollEvents q).mask q g) :
    Keeps p (ShmIpcPoll.modify (remasked p q mask p.kernel p.mChanges) e op f) := by
  obtain ⟨kernel, changes, heq, hview, hkeys, hroom⟩ :=
    modify_eq (remasked p q mask p.kernel p.mChanges) e op f
  have hfd : ((remasked p q mask p.kernel p.mChanges).events e).mFileDesc = fd := hl.fileDesc
  have hpe : ((remasked p q mask p.kernel p.mChanges).events e).mPollEvent = some q := hl.pollEvent
  rw [hfd, hpe] at hview
  rw [hfd] at hkeys
  rw [heq]
  refine keeps_remasked hp htable hmask ?_ ?_ hkeys (hroom hp.space hp.room)
  · intro g
    rw [hview, hnew g]
    by_cases h : f = g
    · subst h; simp
    · rw [Function.update_of_ne (by simpa using Ne.symm h), if_neg (by simpa using h)]
      exact view_tabled hp htable g
  · intro fd' hne g
    rw [hview, Function.update_of_ne (by simpa using fun h => absurd h hne)]
    rfl

/-- What `insert_*` and `remove_*` do once they have read the mask: they store the new one and, if
the flag has a filter, change that. -/
theorem keeps_setMask {fd : Int} {q : PollEventId} (hp : Sound p) (htable : p.mTable fd = some q)
    (hl : Linked p fd q e) {mask : UInt32} (hmask : mask &&& allFlags = mask) (op : ChangeOp)
    {filter : Option Filter} :
    (∀ f, registered mask q f =
      if filter = some f then (evSet fd f op (some q)).value
      else registered (p.pollEvents q).mask q f) →
    Keeps p (andThen (setEventMask p e mask) fun p =>
      match filter with
      | none => (.ok (), p)
      | some f => (.ok (), ShmIpcPoll.modify p e op f)).2 := by
  intro hnew
  rw [setEventMask_eq hl]
  cases filter with
  | none =>
    refine keeps_remasked hp htable hmask (fun f => ?_) (fun _ _ _ => rfl)
      (fun c hc => .inl hc) hp.room
    rw [hnew f]
    exact view_tabled hp htable f
  | some f =>
    refine keeps_modify hp htable hl hmask fun g => ?_
    rw [hnew g]
    by_cases h : f = g
    · subst h; rfl
    · rw [if_neg (by simpa using h), if_neg (by simpa using h)]

theorem keeps_insertFlag {flag : UInt32} {filter : Option Filter}
    (hk : Kind flag filter) (hp : Sound p) : Keeps p (insertFlag flag filter p e).2 := by
  unfold insertFlag
  split
  · exact .refl hp
  · rename_i mask hm
    obtain ⟨q, htable, hl, rfl⟩ := eventMask_ok hp.table hm
    split
    · exact .refl hp
    · exact keeps_setMask hp htable hl (allFlags_raise hk (hp.masks q)) .add
        (registered_raise hk (p.pollEvents q).mask q)

theorem keeps_removeFlag {flag : UInt32} {filter : Option Filter}
    (hk : Kind flag filter) (hp : Sound p) : Keeps p (removeFlag flag filter p e).2 := by
  unfold removeFlag
  split
  · exact .refl hp
  · rename_i mask hm
    obtain ⟨q, htable, hl, rfl⟩ := eventMask_ok hp.table hm
    split
    · exact .refl hp
    · exact keeps_setMask hp htable hl (allFlags_lower flag (hp.masks q)) .delete
        (registered_lower hk (p.pollEvents q).mask q)

/-- What `open` leaves behind when it gets to its end: a new `PollEvent` with an empty mask. -/
def opened (p : Poll) (e : EventId) : Poll :=
  { p with
    events := Function.update p.events e { p.events e with mPollEvent := some p.nextPollEvent }
    pollEvents := Function.update p.pollEvents p.nextPollEvent ⟨0, some e⟩
    nextPollEvent := p.nextPollEvent + 1
    mTable := Function.update p.mTable (p.events e).mFileDesc (some p.nextPollEvent) }

theorem opened_pollEvents (hp : Linkage p) {fd : Int} {q : PollEventId} (h : p.mTable fd = some q) :
    (opened p e).pollEvents q = p.pollEvents q := by
  obtain ⟨e', hl⟩ := hp fd q h
  exact Function.update_of_ne (Nat.ne_of_lt hl.allocated) ..

theorem opened_table (htable : p.mTable (p.events e).mFileDesc = none) {fd : Int} {q : PollEventId}
    (h : p.mTable fd = some q) : (opened p e).mTable fd = some q := by
  have hne : fd ≠ (p.events e).mFileDesc := by
    rintro rfl
    rw [htable] at h
    cases h
  rw [← h]
  exact Function.update_of_ne hne ..

theorem linked_opened (hp : Linkage p) (hpe : (p.events e).mPollEvent = none)
    {fd : Int} {q : PollEventId} (h : p.mTable fd = some q) :
    ∃ e', Linked (opened p e) fd q e' := by
  obtain ⟨e', hl⟩ := hp fd q h
  have hne : e' ≠ e := by
    rintro rfl
    rw [hl.pollEvent] at hpe
    cases hpe
  have hev : (opened p e).events e' = p.events e' := Function.update_of_ne hne ..
  refine ⟨e', hl.valid, Nat.lt_succ_of_lt hl.allocated, ?_, ?_, ?_⟩
  · rw [hev]
    exact hl.fileDesc
  · rw [hev]
    exact hl.pollEvent
  · rw [opened_pollEvents hp h]
    exact hl.event

theorem linkage_opened (hp : Linkage p) (hfd : (p.events e).mFileDesc ≠ -1)
    (hpe : (p.events e).mPollEvent = none) : Linkage (opened p e) := by
  intro fd q h
  by_cases hfd' : fd = (p.events e).mFileDesc
  · subst hfd'
    obtain rfl : p.nextPollEvent = q := by simpa [opened] using h
    exact ⟨e, hfd, Nat.lt_succ_self _, by simp [opened], by simp [opened], by simp [opened]⟩
  · exact linked_opened hp hpe (by simpa [opened, Function.update_of_ne hfd'] using h)

theorem sound_opened (hp : Sound p) (hfd : (p.events e).mFileDesc ≠ -1)
    (hpe : (p.events e).mPollEvent = none) (htable : p.mTable (p.events e).mFileDesc = none) :
    Sound (opened p e) where
  table := linkage_opened hp.table hfd hpe
  event := by
    intro e' q h
    by_cases hne : e' = e
    · subst hne
      obtain rfl : p.nextPollEvent = q := by simpa [opened] using h
      simp [opened]
    · have hev : (opened p e).events e' = p.events e' := Function.update_of_ne hne ..
      rw [hev] at h ⊢
      obtain ⟨ht, he⟩ := hp.event e' q h
      rw [opened_pollEvents hp.table ht]
      exact ⟨opened_table htable ht, he⟩
  dead := by
    intro q h
    have hne : q ≠ p.nextPollEvent := by
      rintro rfl
      exact h (p.events e).mFileDesc (by simp [opened])
    have hsame : (opened p e).pollEvents q = p.pollEvents q := Function.update_of_ne hne ..
    rw [hsame]
    exact hp.dead q fun fd ht => h fd (opened_table htable ht)
  masks := by
    intro q
    by_cases hne : q = p.nextPollEvent
    · subst hne
      simp [opened]
    · simpa [opened, Function.update_of_ne hne] using hp.masks q
  filters := by
    intro fd f
    have hold := hp.filters fd f
    by_cases hfd' : fd = (p.events e).mFileDesc
    · subst hfd'
      rw [desired, htable] at hold
      simpa [opened, view, desired] using hold
    · refine hold.trans ?_
      have hsame : (opened p e).mTable fd = p.mTable fd := Function.update_of_ne hfd' ..
      rw [desired, desired, hsame]
      cases ht : p.mTable fd with
      | none => rfl
      | some q => simp only [opened_pollEvents hp.table ht]
  pending := by
    intro c hc
    obtain ⟨q, hq⟩ := Option.ne_none_iff_exists'.mp (hp.pending c hc)
    rw [opened_table htable hq]
    simp
  space := hp.space
  room := hp.room

theorem keeps_openEvent (hp : Sound p) : Keeps p (openEvent p e).2 := by
  simp only [openEvent]
  split
  · exact .refl hp
  split
  · exact .refl hp
  split
  · exact .refl hp
  rename_i hfd hpe htable
  have htable := not_not.mp htable
  refine ⟨sound_opened hp hfd (not_not.mp hpe) htable, rfl, ?_⟩
  rintro _ q (⟨fd, h⟩ | h)
  · exact .inl ⟨fd, opened_table htable h⟩
  · exact .inr h

/-- What `close` leaves behind when it gets to its end. -/
def closed (p : Poll) (e : EventId) (q : PollEventId) : Poll :=
  { p with
    mTable := Function.update p.mTable (p.events e).mFileDesc none
    kernel := view p
    mChanges := []
    mClosedEvents := if p.mProcessing then p.mClosedEvents ++ [q] else p.mClosedEvents
    pollEvents := Function.update p.pollEvents q { p.pollEvents q with event := none }
    events := Function.update p.events e { p.events e with mPollEvent := none } }

/-- `close` gets to its end for an event that is open with an empty mask. -/
theorem close_linked {fd : Int} {q : PollEventId} (htable : p.mTable fd = some q)
    (hl : Linked p fd q e) (hz : (p.pollEvents q).mask = 0) :
    close p e = (.ok (), closed p e q) := by
  have hfd := hl.fileDesc
  subst hfd
  simp only [close, hl.pollEvent, eventMask_linked htable hl]
  rw [if_neg (not_not.mpr hl.event), if_neg (not_not.mpr hz),
    if_neg (by rw [htable]; simp), flush_eq]
  rfl

/-- It does nothing for an event that is not open, and throws otherwise. -/
theorem close_cases (hp : Sound p) (e : EventId) :
    ((p.events e).mPollEvent = none ∧ close p e = (.ok (), p)) ∨
    (∃ q, p.mTable (p.events e).mFileDesc = some q ∧ Linked p (p.events e).mFileDesc q e ∧
      (p.pollEvents q).mask = 0 ∧ close p e = (.ok (), closed p e q)) ∨
    ∃ msg, close p e = (.error msg, p) := by
  cases hpe : (p.events e).mPollEvent with
  | none => exact .inl ⟨rfl, by simp only [close, hpe]⟩
  | some q =>
    obtain ⟨htable, hl⟩ := linked_of_pollEvent hp hpe
    by_cases hz : (p.pollEvents q).mask = 0
    · exact .inr (.inl ⟨q, htable, hl, hz, close_linked htable hl hz⟩)
    · have hactive : close p e =
          (.error ("Poll::close() called but the file descriptor is active: " ++ printNameFdStr
            (p.events e)), p) := by
        simp only [close, hpe, eventMask_linked htable hl]
        rw [if_neg (not_not.mpr hl.event), if_pos hz]
      exact .inr (.inr ⟨_, hactive⟩)

/-- The table keeps the other `PollEvent`s only. -/
theorem of_closed_table (hp : Linkage p) {q : PollEventId}
    (htable : p.mTable (p.events e).mFileDesc = some q) {fd : Int} {q' : PollEventId}
    (h : (closed p e q).mTable fd = some q') :
    fd ≠ (p.events e).mFileDesc ∧ q' ≠ q ∧ p.mTable fd = some q' := by
  have hfd : fd ≠ (p.events e).mFileDesc := by
    rintro rfl
    simp [closed] at h
  have h' : p.mTable fd = some q' := by simpa [closed, Function.update_of_ne hfd] using h
  refine ⟨hfd, ?_, h'⟩
  rintro rfl
  exact hfd (table_inj hp h' htable)

theorem closed_table {q q' : PollEventId} (htable : p.mTable (p.events e).mFileDesc = some q)
    {fd : Int} (hq : q' ≠ q) (h : p.mTable fd = some q') : (closed p e q).mTable fd = some q' := by
  have hfd : fd ≠ (p.events e).mFileDesc := by
    rintro rfl
    rw [htable] at h
    exact hq (Option.some.inj h).symm
  simpa [closed, Function.update_of_ne hfd] using h

theorem closed_mask {q : PollEventId} (q' : PollEventId) :
    ((closed p e q).pollEvents q').mask = (p.pollEvents q').mask := by
  by_cases h : q' = q
  · subst h
    simp [closed]
  · simp [closed, Function.update_of_ne h]

theorem closed_pollEvents {q q' : PollEventId} (hq : q' ≠ q) :
    (closed p e q).pollEvents q' = p.pollEvents q' :=
  Function.update_of_ne hq ..

theorem closed_events {q : PollEventId} {e' : EventId} (hne : e' ≠ e) :
    (closed p e q).events e' = p.events e' :=
  Function.update_of_ne hne ..

theorem linked_closed {fd : Int} {q q' : PollEventId} {e' : EventId}
    (hfd : fd ≠ (p.events e).mFileDesc) (hq : q' ≠ q) (hl : Linked p fd q' e') :
    Linked (closed p e q) fd q' e' := by
  have hne : e' ≠ e := by
    rintro rfl
    exact hfd hl.fileDesc.symm
  refine ⟨hl.valid, hl.allocated, ?_, ?_, ?_⟩
  · rw [closed_events hne]
    exact hl.fileDesc
  · rw [closed_events hne]
    exact hl.pollEvent
  · rw [closed_pollEvents hq]
    exact hl.event

theorem linkage_closed {q : PollEventId} (hp : Linkage p)
    (htable : p.mTable (p.events e).mFileDesc = some q) : Linkage (closed p e q) := by
  intro fd q' h
  obtain ⟨hfd, hq, ht⟩ := of_closed_table hp htable h
  obtain ⟨e', hl'⟩ := hp fd q' ht
  exact ⟨e', linked_closed hfd hq hl'⟩

theorem sound_closed {q : PollEventId} (hp : Sound p)
    (htable : p.mTable (p.events e).mFileDesc = some q) (hl : Linked p (p.events e).mFileDesc q e)
    (hz : (p.pollEvents q).mask = 0) : Sound (closed p e q) where
  table := linkage_closed hp.table htable
  event := by
    intro e' q' h
    have hne : e' ≠ e := by
      rintro rfl
      simp [closed] at h
    rw [closed_events hne] at h ⊢
    obtain ⟨ht, he⟩ := hp.event e' q' h
    have hq : q' ≠ q := by
      rintro rfl
      exact hne (Option.some.inj (he.symm.trans hl.event))
    rw [closed_pollEvents hq]
    exact ⟨closed_table htable hq ht, he⟩
  dead := by
    intro q' h
    by_cases hq : q' = q
    · subst hq
      exact ⟨(closed_mask q').trans hz, by simp [closed]⟩
    · rw [closed_pollEvents hq]
      exact hp.dead q' fun fd ht => h fd (closed_table htable hq ht)
  masks := by
    intro q'
    rw [closed_mask]
    exact hp.masks q'
  filters := by
    intro fd f
    have hold := hp.filters fd f
    by_cases hfd : fd = (p.events e).mFileDesc
    · subst hfd
      rw [desired, htable] at hold
      simpa [view, closed, desired, hz] using hold
    · refine hold.trans ?_
      have hsame : (closed p e q).mTable fd = p.mTable fd := Function.update_of_ne hfd ..
      rw [desired, desired, hsame]
      cases ht : p.mTable fd with
      | none => rfl
      | some q' =>
        have hq : q' ≠ q := by
          rintro rfl
          exact hfd (table_inj hp.table ht htable)
        simp only [closed_pollEvents hq]
  pending := by simp [closed]
  space := hp.space
  room := Nat.zero_le _

theorem keeps_closed {q : PollEventId} (hp : Sound p)
    (htable : p.mTable (p.events e).mFileDesc = some q) (hl : Linked p (p.events e).mFileDesc q e)
    (hz : (p.pollEvents q).mask = 0) : Keeps p (closed p e q) := by
  refine ⟨sound_closed hp htable hl hz, rfl, ?_⟩
  -- inside `process` the closed `PollEvent` moves from the table to `m_closed_events`
  rintro hproc q' (⟨fd, h⟩ | h)
  · by_cases hq : q' = q
    · subst hq
      exact .inr (by simp [closed, hproc])
    · exact .inl ⟨fd, closed_table htable hq h⟩
  · exact .inr (by simp [closed, hproc, h])

theorem keeps_close (hp : Sound p) : Keeps p (close p e).2 := by
  rcases close_cases hp e with ⟨_, h⟩ | ⟨q, htable, hl, hz, h⟩ | ⟨_, h⟩
  · rw [h]; exact .refl hp
  · rw [h]; exact keeps_closed hp htable hl hz
  · rw [h]; exact .refl hp

/-- Every call keeps the invariant, whether it throws or not. -/
theorem keeps_perform (hp : Sound p) (c : Call) : Keeps p (c.perform p).2 := by
  cases c with
  | openEvent e => exact keeps_openEvent hp
  | openAndInsertRead e => exact keeps_andThen (keeps_openEvent hp) fun _ => keeps_insertFlag .read
  | openAndInsertReadWrite e =>
    exact keeps_andThen (keeps_openEvent hp) fun _ h =>
      keeps_andThen (keeps_insertFlag .read h) fun _ => keeps_insertFlag .write
  | openAndInsertWrite e =>
    exact keeps_andThen (keeps_openEvent hp) fun _ => keeps_insertFlag .write
  | close e => exact keeps_close hp
  | insertRead e => exact keeps_insertFlag .read hp
  | insertWrite e => exact keeps_insertFlag .write hp
  | insertError e => exact keeps_insertFlag .error hp
  | removeRead e => exact keeps_removeFlag .read hp
  | removeWrite e => exact keeps_removeFlag .write hp
  | removeError e => exact keeps_removeFlag .error hp
  | removeAndClose e =>
    exact keeps_andThen (keeps_removeFlag .read hp) fun _ h₁ =>
      keeps_andThen (keeps_removeFlag .write h₁) fun _ h₂ =>
      keeps_andThen (keeps_removeFlag .error h₂) fun _ => keeps_close

/-! ## The events after a call -/

/-- The descriptors stay, and no event other than `e` is opened or closed. -/
structure EventFrame (p p' : Poll) (e : EventId) : Prop where
  fileDesc : ∀ e', (p'.events e').mFileDesc = (p.events e').mFileDesc
  pollEvent : ∀ e', e' ≠ e → (p'.events e').mPollEvent = (p.events e').mPollEvent

theorem EventFrame.of_eq {p' : Poll} (h : p'.events = p.events) : EventFrame p p' e :=
  ⟨fun _ => by rw [h], fun _ _ => by rw [h]⟩

theorem EventFrame.trans {p' p'' : Poll} (h : EventFrame p p' e) (h' : EventFrame p' p'' e) :
    EventFrame p p'' e :=
  ⟨fun e' => (h'.fileDesc e').trans (h.fileDesc e'), fun e' hne =>
    (h'.pollEvent e' hne).trans (h.pollEvent e' hne)⟩

/-- An update of the association of `e` alone. -/
theorem EventFrame.of_update {p' : Poll} {x : Option PollEventId}
    (h : p'.events = Function.update p.events e { p.events e with mPollEvent := x }) :
    EventFrame p p' e := by
  refine ⟨fun e' => ?_, fun e' hne => ?_⟩
  · by_cases he : e' = e
    · subst he
      simp [h]
    · simp [h, Function.update_of_ne he]
  · simp [h, Function.update_of_ne hne]

theorem eventFrame_andThen {r : Result} {f : Poll → Result} (hr : EventFrame p r.2 e)
    (hf : ∀ p', EventFrame p' (f p').2 e) : EventFrame p (andThen r f).2 e := by
  obtain ⟨res, p'⟩ := r
  cases res with
  | error msg => exact hr
  | ok u => exact hr.trans (hf p')

theorem eventFrame_setEventMask (mask : UInt32) : EventFrame p (setEventMask p e mask).2 e := by
  refine .of_eq ?_
  simp only [setEventMask]
  split
  · rfl
  · split <;> rfl

theorem eventFrame_modify (op : ChangeOp) (f : Filter) :
    EventFrame p (ShmIpcPoll.modify p e op f) e := by
  obtain ⟨kernel, changes, heq, _⟩ := modify_eq p e op f
  rw [heq]
  exact .of_eq rfl

theorem eventFrame_setMask (mask : UInt32) (op : ChangeOp) (filter : Option Filter) :
    EventFrame p (andThen (setEventMask p e mask) fun p =>
      match filter with
      | none => (.ok (), p)
      | some f => (.ok (), ShmIpcPoll.modify p e op f)).2 e := by
  refine eventFrame_andThen (eventFrame_setEventMask mask) fun p' => ?_
  cases filter with
  | none => exact .of_eq rfl
  | some f => exact eventFrame_modify op f

theorem eventFrame_insertFlag (flag : UInt32) (filter : Option Filter) :
    EventFrame p (insertFlag flag filter p e).2 e := by
  unfold insertFlag
  split
  · exact .of_eq rfl
  · split
    · exact .of_eq rfl
    · exact eventFrame_setMask _ .add filter

theorem eventFrame_removeFlag (flag : UInt32) (filter : Option Filter) :
    EventFrame p (removeFlag flag filter p e).2 e := by
  unfold removeFlag
  split
  · exact .of_eq rfl
  · split
    · exact .of_eq rfl
    · exact eventFrame_setMask _ .delete filter

theorem eventFrame_openEvent : EventFrame p (openEvent p e).2 e := by
  simp only [openEvent]
  split
  · exact .of_eq rfl
  split
  · exact .of_eq rfl
  split
  · exact .of_eq rfl
  · exact .of_update rfl

theorem eventFrame_close : EventFrame p (close p e).2 e := by
  simp only [close]
  split
  · exact .of_eq rfl
  split
  · exact .of_eq rfl
  split
  · exact .of_eq rfl
  split
  · exact .of_eq rfl
  split
  · exact .of_eq rfl
  · rw [flush_eq]
    exact .of_update rfl

theorem eventFrame_perform (c : Call) : EventFrame p (c.perform p).2 c.event := by
  cases c with
  | openEvent e => exact eventFrame_openEvent
  | openAndInsertRead e =>
    exact eventFrame_andThen eventFrame_openEvent fun _ => eventFrame_insertFlag _ _
  | openAndInsertReadWrite e =>
    exact eventFrame_andThen eventFrame_openEvent fun _ =>
      eventFrame_andThen (eventFrame_insertFlag _ _) fun _ => eventFrame_insertFlag _ _
  | openAndInsertWrite e =>
    exact eventFrame_andThen eventFrame_openEvent fun _ => eventFrame_insertFlag _ _
  | close e => exact eventFrame_close
  | insertRead e => exact eventFrame_insertFlag _ _
  | insertWrite e => exact eventFrame_insertFlag _ _
  | insertError e => exact eventFrame_insertFlag _ _
  | removeRead e => exact eventFrame_removeFlag _ _
  | removeWrite e => exact eventFrame_removeFlag _ _
  | removeError e => exact eventFrame_removeFlag _ _
  | removeAndClose e =>
    exact eventFrame_andThen (eventFrame_removeFlag _ _) fun _ => eventFrame_andThen
      (eventFrame_removeFlag _ _) fun _ =>
      eventFrame_andThen (eventFrame_removeFlag _ _) fun _ => eventFrame_close

/-! ## Taking an event out of the poll -/

theorem remasked_remasked (p : Poll) (q : PollEventId) (mask mask' : UInt32)
    (kernel kernel' : Int × Filter → Option Udata) (changes changes' : List Change) :
    remasked (remasked p q mask kernel changes) q mask' kernel' changes' = remasked p q mask'
    kernel' changes' := by
  simp [remasked]

/-- `remove_*` gets through for an event that is open, whether its flag is set or not. -/
theorem removeFlag_linked {fd : Int} {q : PollEventId} (htable : p.mTable fd = some q)
    (hl : Linked p fd q e) (flag : UInt32) (filter : Option Filter) :
    ∃ kernel changes, removeFlag flag filter p e =
      (.ok (), remasked p q ((p.pollEvents q).mask &&& ~~~flag) kernel changes) := by
  simp only [removeFlag, eventMask_linked htable hl]
  split
  · rename_i hz
    refine ⟨p.kernel, p.mChanges, ?_⟩
    rw [lower_unset hz, remasked, Function.update_eq_self]
  · rw [setEventMask_eq hl]
    cases filter with
    | none => exact ⟨_, _, rfl⟩
    | some f =>
      obtain ⟨kernel, changes, heq, _⟩ :=
        modify_eq (remasked p q ((p.pollEvents q).mask &&& ~~~flag) p.kernel p.mChanges) e .delete f
      refine ⟨kernel, changes, ?_⟩
      simp only [andThen, heq]
      rfl

theorem removeFlag_remasked {fd : Int} {q : PollEventId} (htable : p.mTable fd = some q)
    (hl : Linked p fd q e) (mask : UInt32) (kernel : Int × Filter → Option Udata)
    (changes : List Change) (flag : UInt32) (filter : Option Filter) :
    ∃ kernel' changes', removeFlag flag filter (remasked p q mask kernel changes) e =
      (.ok (), remasked p q (mask &&& ~~~flag) kernel' changes') := by
  obtain ⟨kernel', changes', h⟩ := removeFlag_linked (p := remasked p q mask kernel changes) htable
    (linked_remasked hl mask kernel changes) flag filter
  rw [remasked_mask, remasked_remasked] at h
  exact ⟨kernel', changes', h⟩

/-- What `remove_and_close` leaves behind for an event that is open in the poll. -/
structure TakenOut (p p' : Poll) (e : EventId) : Prop where
  sound : Sound p'
  table : p'.mTable = Function.update p.mTable (p.events e).mFileDesc none
  events : p'.events = Function.update p.events e { p.events e with mPollEvent := none }

/-- `remove_and_close` gets to its end for every event that is open in the poll. -/
theorem removeAndClose_open (hp : Sound p) {q : PollEventId}
    (h : (p.events e).mPollEvent = some q) :
    ∃ p', removeAndClose p e = (.ok (), p') ∧ TakenOut p p' e := by
  obtain ⟨htable, hl⟩ := linked_of_pollEvent hp h
  obtain ⟨k₁, c₁, h₁⟩ := removeFlag_linked htable hl flagRead (some .read)
  obtain ⟨k₂, c₂, h₂⟩ := removeFlag_remasked htable hl ((p.pollEvents q).mask &&& ~~~flagRead) k₁ c₁
    flagWrite (some .write)
  obtain ⟨k₃, c₃, h₃⟩ := removeFlag_remasked htable hl
    ((p.pollEvents q).mask &&& ~~~flagRead &&& ~~~flagWrite) k₂ c₂ flagError none
  rw [allFlags_cleared (hp.masks q)] at h₃
  have h₄ := close_linked (p := remasked p q 0 k₃ c₃) htable (linked_remasked hl 0 k₃ c₃)
    (remasked_mask ..)
  have heq : removeAndClose p e = (.ok (), closed (remasked p q 0 k₃ c₃) e q) := by
    simp only [removeAndClose, removeRead, removeWrite, removeError, h₁, h₂, h₃, h₄, andThen]
  refine ⟨_, heq, ?_, rfl, rfl⟩
  have hk := (keeps_perform hp (.removeAndClose e)).sound
  rwa [Call.perform, heq] at hk

theorem removeAndClose_unopened (hp : Sound p) (h : (p.events e).mPollEvent = none) :
    ∃ msg, removeAndClose p e = (.error msg, p) := by
  simp only [removeAndClose, removeRead, removeFlag]
  cases hm : eventMask p e with
  | error msg => exact ⟨msg, rfl⟩
  | ok mask =>
    obtain ⟨q, _, hl, _⟩ := eventMask_ok hp.table hm
    rw [hl.pollEvent] at h
    cases h

/-! ## Runs -/

/-- The invariant is about the links, the table and the filters to come only. -/
theorem sound_frame {p' : Poll} (hp : Sound p) (hev : p'.events = p.events)
    (hpe : p'.pollEvents = p.pollEvents) (hnext : p'.nextPollEvent = p.nextPollEvent)
    (htable : p'.mTable = p.mTable) (hmax : p'.mMaxEvents = p.mMaxEvents) (hview : view p' = view p)
    (hchanges : p'.mChanges.Sublist p.mChanges) : Sound p' where
  table := by
    intro fd q h
    rw [htable] at h
    obtain ⟨e, hl⟩ := hp.table fd q h
    exact ⟨e, hl.valid, by rw [hnext]; exact hl.allocated, by rw [hev]; exact hl.fileDesc,
      by rw [hev]; exact hl.pollEvent, by rw [hpe]; exact hl.event⟩
  event := by rw [hev, htable, hpe]; exact hp.event
  dead := by rw [htable, hpe]; exact hp.dead
  masks := by rw [hpe]; exact hp.masks
  filters := by
    intro fd f
    rw [hview, hp.filters, desired, desired, htable, hpe]
  pending := by
    intro c hc
    rw [htable]
    exact hp.pending c (hchanges.subset hc)
  space := by rw [hmax]; exact hp.space
  room := by rw [hmax]; exact Nat.le_trans hchanges.length_le hp.room

theorem sound_pollChanges (hp : Sound p) : Sound (pollChanges p) :=
  sound_frame hp rfl rfl rfl rfl rfl rfl (List.nil_sublist _)

theorem linkage_setFileDescriptor (hp : Linkage p) (h : (p.events e).mPollEvent = none) (fd : Int) :
    Linkage (setFileDescriptor p e fd) := by
  intro fd' q ht
  obtain ⟨e', hl⟩ := hp fd' q ht
  have hne : e' ≠ e := by
    rintro rfl
    rw [hl.pollEvent] at h
    cases h
  refine ⟨e', hl.valid, hl.allocated, ?_, ?_, hl.event⟩
  · simpa [setFileDescriptor, Function.update_of_ne hne] using hl.fileDesc
  · simpa [setFileDescriptor, Function.update_of_ne hne] using hl.pollEvent

theorem sound_setFileDescriptor (hp : Sound p) (h : (p.events e).mPollEvent = none) (fd : Int) :
    Sound (setFileDescriptor p e fd) := by
  refine { hp with
    table := linkage_setFileDescriptor hp.table h fd, event := fun e' q he => ?_, filters :=
      hp.filters }
  · have hne : e' ≠ e := by
      rintro rfl
      simp [setFileDescriptor, h] at he
    simp only [setFileDescriptor, Function.update_of_ne hne] at he ⊢
    exact hp.event e' q he

/-- Outside the table there are no filters to drop. -/
theorem dropFilters_eq (hp : Sound p) {fd : Int} (h : p.mTable fd = none) :
    dropFilters p fd = p := by
  have hkernel : (fun key : Int × Filter => if key.1 = fd then none else p.kernel key) =
      p.kernel := by
    funext key
    split
    · rename_i hk
      obtain ⟨fd', f⟩ := key
      obtain rfl : fd' = fd := hk
      exact (kernel_untabled hp h f).symm
    · rfl
  rw [dropFilters, hkernel]

variable {m m' : Loop} {a : Act}

/-- What an act leaves behind, with the place it is made at where that matters. -/
inductive Effect (m : Loop) : Act → Loop → Prop where
  | call (c : Call) : Effect m (.call c) { m with poll := (c.perform m.poll).2 }
  | setFileDescriptor (e : EventId) (fd : Int) :
      Effect m (.setFileDescriptor e fd) { m with poll := ShmIpcPoll.setFileDescriptor m.poll e fd }
  | closeDescriptor (fd : Int) : Effect m (.closeDescriptor fd)
      { m with poll := dropFilters m.poll fd }
  | interrupted : m.place = .outside → Effect m .interrupted { m with poll := pollChanges m.poll }
  | doPoll (batch : List Entry) : m.place = .outside → Effect m (.doPoll batch)
      ⟨{ pollChanges m.poll with mProcessing := true, mClosedEvents := [] }, .walking batch, 0⟩
  | skip {entry : Entry} {rest : List Entry} (count : Nat) : m.place = .walking (entry :: rest) →
      Effect m .next ⟨m.poll, .walking rest, count⟩
  | throws {entry : Entry} {rest : List Entry} : m.place = .walking (entry :: rest) →
      Effect m .next { m with place := .outside }
  | callback {entry : Entry} {rest : List Entry} {callback : Callback} {q : PollEventId}
      (info : String) (count : Nat) : m.place = .walking (entry :: rest) →
      dispatch m.poll entry = .call callback q →
      Effect m .next ⟨m.poll, .calling callback q info rest, count⟩
  | returned {callback : Callback} {q : PollEventId} {info : String} {rest : List Entry} :
      m.place = .calling callback q info rest → Effect m .returned { m with place := .walking rest }
  | complained : Effect m .returned { m with place := .outside }
  | thrown : Effect m .thrown { m with place := .outside }
  | finish : m.place = .walking [] → Effect m .finish
      ⟨{ m.poll with mProcessing := false, mClosedEvents := [] }, .outside, m.count⟩

theorem effect_of_step (h : step m a = some m') : Effect m a m' := by
  cases a with
  | call c =>
    simp only [step] at h
    split at h
    · cases h
    · cases h; exact .call c
  | setFileDescriptor e fd =>
    simp only [step] at h
    split at h
    · cases h
    · cases h; exact .setFileDescriptor e fd
  | closeDescriptor fd =>
    simp only [step] at h
    split at h
    · cases h
    · cases h; exact .closeDescriptor fd
  | interrupted =>
    simp only [step] at h
    split at h
    · rename_i hplace
      cases h; exact .interrupted hplace
    · cases h
  | doPoll batch =>
    simp only [step] at h
    split at h
    · rename_i hplace
      cases h; exact .doPoll batch hplace
    · cases h
  | next =>
    simp only [step] at h
    split at h
    · rename_i hplace
      split at h
      · cases h; exact .skip _ hplace
      · cases h; exact .throws hplace
      · rename_i hd
        cases h; exact .callback _ _ hplace hd
    · cases h
  | returned =>
    simp only [step] at h
    split at h
    · rename_i hplace
      split at h
      · cases h; exact .returned hplace
      · cases h; exact .complained
    · cases h
  | thrown =>
    simp only [step] at h
    split at h
    · cases h; exact .thrown
    · cases h
  | finish =>
    simp only [step] at h
    split at h
    · rename_i hplace
      cases h; exact .finish hplace
    · cases h

theorem sound_step (hm : Sound m.poll) (h : guarded Admitted (ofFun step) m a m') :
    Sound m'.poll := by
  obtain ⟨hadm, h⟩ := h
  cases effect_of_step h with
  | call c => exact (keeps_perform hm c).sound
  | setFileDescriptor e fd => exact sound_setFileDescriptor hm hadm fd
  | closeDescriptor fd =>
    rw [dropFilters_eq hm hadm]
    exact hm
  | interrupted _ => exact sound_pollChanges hm
  | doPoll batch _ =>
    exact sound_frame (sound_pollChanges hm) rfl rfl rfl rfl rfl rfl (List.Sublist.refl _)
  | skip _ _ => exact hm
  | throws _ => exact hm
  | callback _ _ _ _ => exact hm
  | returned _ => exact hm
  | complained => exact hm
  | thrown => exact hm
  | finish _ => exact sound_frame hm rfl rfl rfl rfl rfl rfl (List.Sublist.refl _)

theorem sound_run {m₀ : Loop} {acts : List Act} (h₀ : Created m₀)
    (h : Run (guarded Admitted (ofFun step)) m₀ acts m) : Sound m.poll := by
  obtain ⟨events, hev, rfl⟩ := h₀
  exact h.invariant (fun u => Sound u.poll) (sound_create hev) fun _ _ _ => sound_step

/-- The pending changes make the filters of the kernel those of the table: `flag_read`
(`flag_write`) in a mask goes with a read (write) filter that carries this `PollEvent`, and nothing
else is there. -/
structure Agrees (p : Poll) : Prop where
  tabled : ∀ fd q, p.mTable fd = some q → ∀ f,
    applyLog p.kernel p.mChanges (fd, f) =
      if (p.pollEvents q).mask &&& flagOf f ≠ 0 then some (some q) else none
  untabled : ∀ fd, p.mTable fd = none → ∀ f, applyLog p.kernel p.mChanges (fd, f) = none
  room : p.mChanges.length ≤ p.mMaxEvents

/-- After `close` the kernel itself has no filter for the descriptor of the event; the call may also
have done nothing, for an event that is not open, while another one is open under its descriptor. -/
def ClosesFilters (p : Poll) : Prop :=
  ∀ e p', close p e = (.ok (), p') → (∀ f, p'.kernel ((p.events e).mFileDesc, f) = none) ∨
    ((p.events e).mPollEvent = none ∧ p' = p ∧
      ∃ e' q, e' ≠ e ∧ Linked p (p.events e).mFileDesc q e' ∧
      p.mTable (p.events e).mFileDesc = some q)

theorem closesFilters_of_sound (hp : Sound p) : ClosesFilters p := by
  intro e p' h
  rcases close_cases hp e with ⟨hpe, h'⟩ | ⟨q, htable, hl, hz, h'⟩ | ⟨_, h'⟩
  · rw [h'] at h
    cases h
    cases ht : p.mTable (p.events e).mFileDesc with
    | none => exact .inl (kernel_untabled hp ht)
    | some q =>
      obtain ⟨e', hl⟩ := hp.table _ _ ht
      refine .inr ⟨hpe, rfl, e', q, ?_, hl, rfl⟩
      rintro rfl
      rw [hl.pollEvent] at hpe
      cases hpe
  · rw [h'] at h
    cases h
    exact .inl (kernel_untabled (keeps_closed hp htable hl hz).sound (by simp [closed]))
  · rw [h'] at h
    cases h

/-- The poll table agrees with the filters of the kernel in every state that any sequence of calls,
polls and callbacks reaches. -/
theorem table_agrees {m₀ : Loop} {acts : List Act} (h₀ : Created m₀)
    (h : Run (guarded Admitted (ofFun step)) m₀ acts m) : Agrees m.poll ∧ ClosesFilters m.poll := by
  have hp := sound_run h₀ h
  refine ⟨⟨fun fd q ht f => view_tabled hp ht f, fun fd ht f => ?_, hp.room⟩,
    closesFilters_of_sound hp⟩
  have := hp.filters fd f
  rw [desired, ht] at this
  exact this

/-- A thread with events over the descriptors 5, 6, 5, 6 and so on. -/
def twoDescriptors : Loop :=
  ⟨create fun e => ⟨"ipc-channel", if e % 2 = 0 then 5 else 6, none⟩, .outside, 0⟩

theorem twoDescriptors_created : Created twoDescriptors := ⟨_, fun _ => rfl, rfl⟩

/-- The descriptor is opened again by another event, with another mask. -/
theorem table_agrees_reopened :
    ∃ m, Run (guarded Admitted (ofFun step)) twoDescriptors
        [.call (.openAndInsertReadWrite 0), .interrupted, .call (.removeAndClose 0),
          .call (.openAndInsertRead 2)] m ∧
      m.poll.mTable 5 = some 1 ∧ Agrees m.poll ∧ ClosesFilters m.poll := by
  have hrun : Run (guarded Admitted (ofFun step)) twoDescriptors
      [.call (.openAndInsertReadWrite 0), .interrupted, .call (.removeAndClose 0),
        .call (.openAndInsertRead 2)] _ :=
    .cons ⟨trivial, rfl⟩ (.cons ⟨trivial, rfl⟩ (.cons ⟨trivial, rfl⟩ (.single ⟨trivial, rfl⟩)))
  have h := table_agrees twoDescriptors_created hrun
  exact ⟨_, hrun, rfl, h.1, h.2⟩

end ShmIpcPollTable
