import ShmIpc.PollTable

/-!
# Dispatching a batch

While `process` walks over the entries of a batch the callbacks may close,
reopen and change any event. A `PollEvent` that leaves the table is neutral and
is kept until the batch is done, so an entry for it is passed over.
-/
namespace ShmIpcPollProcess

open LabelledRun ShmIpcPoll ShmIpcPollTable

/-- The flag that a member of `Event` is called for. -/
def callbackFlag : Callback → UInt32
  | .eventRead => flagRead
  | .eventWrite => flagWrite
  | .eventError => flagError

/-- The entries that are still to be looked at. -/
def Place.rest : Place → List Entry
  | .outside => []
  | .walking rest => rest
  | .calling _ _ _ rest => rest

/-- The `PollEvent` whose callback is running. -/
def Place.current : Place → Option PollEventId
  | .calling _ q _ _ => some q
  | _ => none

/-- An entry can be looked at without following a stale pointer. -/
def Usable (p : Poll) (entry : Entry) : Prop :=
  (entry.filter = .user ∧ entry.evError = false ∧ entry.udata = none) ∨
    ∃ q, entry.udata = some q ∧ Held p q

/-- The entries to come and the `PollEvent` of the running callback are held. -/
structure Batch (m : Loop) : Prop where
  sound : Sound m.poll
  processing : m.place ≠ .outside → m.poll.mProcessing = true
  rest : ∀ entry ∈ Place.rest m.place, Usable m.poll entry
  current : ∀ q, Place.current m.place = some q → Held m.poll q

theorem usable_of_held {p p' : Poll} {entry : Entry} (h : ∀ q, Held p q → Held p' q)
    (hu : Usable p entry) : Usable p' entry := by
  rcases hu with hu | ⟨q, hq, hh⟩
  · exact .inl hu
  · exact .inr ⟨q, hq, h q hh⟩

variable {m m' : Loop} {a : Act} {acts : List Act}

/-- A change of the poll that lets nothing go keeps a batch. -/
theorem batch_poll {p : Poll} (hm : Batch m) (hs : Sound p)
    (hproc : p.mProcessing = m.poll.mProcessing)
    (hheld : m.poll.mProcessing = true → ∀ q, Held m.poll q → Held p q) :
    Batch { m with poll := p } := by
  by_cases hout : m.place = .outside
  · exact ⟨hs, fun h => absurd hout h, by simp [hout, Place.rest], by simp [hout, Place.current]⟩
  · have hp := hm.processing hout
    exact ⟨hs, fun _ => hproc.trans hp, fun entry h => usable_of_held (hheld hp) (hm.rest entry h),
      fun q h => hheld hp q (hm.current q h)⟩

/-- A place that is no further from the end of the batch. -/
theorem batch_place {place : Place} {count : Nat} (hm : Batch m) (hin : m.place ≠ .outside)
    (hrest : Place.rest place ⊆ Place.rest m.place)
    (hcur : ∀ q, Place.current place = some q → Held m.poll q) : Batch ⟨m.poll, place, count⟩ :=
  ⟨hm.sound, fun _ => hm.processing hin, fun entry h => hm.rest entry (hrest h), hcur⟩

theorem batch_outside {p : Poll} {count : Nat} (hs : Sound p) : Batch ⟨p, .outside, count⟩ :=
  ⟨hs, fun h => absurd rfl h, by simp [Place.rest], by simp [Place.current]⟩

/-- A callback is made for a `PollEvent` of the entry that has the flag in its mask. -/
theorem dispatch_call {p : Poll} {entry : Entry} {callback : Callback} {q : PollEventId}
    (h : dispatch p entry = .call callback q) :
    entry.udata = some q ∧ (p.pollEvents q).mask &&& callbackFlag callback ≠ 0 := by
  unfold dispatch at h
  split at h
  · cases h
  · rename_i q' hq
    dsimp only at h
    split at h
    · split at h
      · cases h
      · split at h
        · cases h
        · cases h; exact ⟨hq, by assumption⟩
    · split at h
      · rename_i hc
        cases h; exact ⟨hq, hc.2⟩
      · split at h
        · rename_i hc
          cases h; exact ⟨hq, hc.2⟩
        · cases h

/-- Only a `PollEvent` in the table has a flag in its mask. -/
theorem linked_of_flag {p : Poll} (hp : Sound p) {q : PollEventId} {flag : UInt32}
    (h : (p.pollEvents q).mask &&& flag ≠ 0) : ∃ fd e, p.mTable fd = some q ∧ Linked p fd q e := by
  by_contra hno
  have hdead := hp.dead q fun fd ht => by
    obtain ⟨e, hl⟩ := hp.table fd q ht
    exact hno ⟨fd, e, ht, hl⟩
  rw [hdead.1, UInt32.zero_and] at h
  exact h rfl

theorem batch_step (hm : Batch m) (h : guarded Admitted (ofFun step) m a m') : Batch m' := by
  have hs := sound_step hm.sound h
  obtain ⟨hadm, h⟩ := h
  cases effect_of_step h with
  | call c =>
    have hk := keeps_perform hm.sound c
    exact batch_poll hm hk.sound hk.processing hk.held
  | setFileDescriptor e fd => exact batch_poll hm hs rfl fun _ _ hq => hq
  | closeDescriptor fd => exact batch_poll hm hs rfl fun _ _ hq => hq
  | interrupted _ => exact batch_poll hm hs rfl fun _ _ hq => hq
  | doPoll batch _ =>
    refine ⟨hs, fun _ => rfl, fun entry he => ?_, by simp [Place.current]⟩
    rcases hadm entry he with hu | ⟨q, fd, hq, ht⟩
    · exact .inl hu
    · exact .inr ⟨q, hq, .inl ⟨fd, ht⟩⟩
  | skip count hplace =>
    exact batch_place hm (by simp [hplace]) (by simp [hplace, Place.rest]) (by simp [Place.current])
  | throws _ => exact batch_outside hs
  | callback info count hplace hd =>
    refine batch_place hm (by simp [hplace]) (by simp [hplace, Place.rest]) fun q' hq' => ?_
    obtain ⟨fd, _, ht, _⟩ := linked_of_flag hm.sound (dispatch_call hd).2
    obtain rfl : _ = q' := by simpa [Place.current] using hq'
    exact .inl ⟨fd, ht⟩
  | returned hplace =>
    exact batch_place hm (by simp [hplace]) (by simp [hplace, Place.rest]) (by simp [Place.current])
  | complained => exact batch_outside hs
  | thrown => exact batch_outside hs
  | finish _ => exact batch_outside hs

theorem batch_run {m₀ : Loop} (h₀ : Created m₀)
    (h : Run (guarded Admitted (ofFun step)) m₀ acts m) : Batch m := by
  obtain ⟨events, hev, rfl⟩ := h₀
  exact h.invariant Batch (batch_outside (sound_create hev)) fun _ _ _ => batch_step

/-- The callback that comes next is made on an `Event` that is open in the poll under its descriptor
with exactly the `PollEvent` of the entry, and is interested in it. -/
def CallsOpen (m : Loop) : Prop :=
  ∀ entry rest callback q, m.place = .walking (entry :: rest) →
    dispatch m.poll entry = .call callback q → entry.udata = some q ∧ ∃ fd e,
      m.poll.mTable fd = some q ∧ Linked m.poll fd q e ∧
      (m.poll.pollEvents q).mask &&& callbackFlag callback ≠ 0

/-- The table or the list of closed events holds every `PollEvent` that `process` is still going to
look at, the one behind a running callback included. -/
def RestHeld (m : Loop) : Prop :=
  (∀ entry ∈ Place.rest m.place, ∀ q, entry.udata = some q → Held m.poll q) ∧
    ∀ q, Place.current m.place = some q → Held m.poll q

/-- Dispatch never reaches a closed or uninterested event, whatever the callbacks do. -/
theorem dispatch_reaches_open {m₀ : Loop} (h₀ : Created m₀)
    (h : Run (guarded Admitted (ofFun step)) m₀ acts m) : CallsOpen m ∧ RestHeld m := by
  have hm := batch_run h₀ h
  refine ⟨?_, ?_, hm.current⟩
  · intro entry rest callback q _ hd
    obtain ⟨hq, hflag⟩ := dispatch_call hd
    obtain ⟨fd, e, ht, hl⟩ := linked_of_flag hm.sound hflag
    exact ⟨hq, fd, e, ht, hl, hflag⟩
  · intro entry he q hq
    rcases hm.rest entry he with ⟨_, _, hnone⟩ | ⟨q', hq', hh⟩
    · rw [hnone] at hq
      cases hq
    · obtain rfl : q = q' := Option.some.inj (hq.symm.trans hq')
      exact hh

/-- The callback for the first entry closes the event of the second one and opens its descriptor for
another event; the second entry is still to come. -/
theorem dispatch_reaches_open_reopened :
    ∃ m, Run (guarded Admitted (ofFun step)) twoDescriptors [.call (.openAndInsertRead 0),
        .call (.openAndInsertRead 1), .doPoll
        [⟨.read, false, some 0⟩, ⟨.user, false, none⟩, ⟨.read, false, some 1⟩], .next,
          .call (.removeAndClose 1), .call (.openAndInsertRead 3), .returned, .next] m ∧
      m.place = .walking [⟨.read, false, some 1⟩] ∧ m.poll.mTable 6 = some 2 ∧
      CallsOpen m ∧ RestHeld m := by
  have hbatch (p : Poll) (h₀ : p.mTable 5 = some 0) (h₁ : p.mTable 6 = some 1) :
      ∀ entry ∈ [⟨.read, false, some 0⟩, ⟨.user, false, none⟩, ⟨.read, false, some 1⟩],
      Returned p entry := by
    intro entry he
    simp only [List.mem_cons, List.not_mem_nil, or_false] at he
    rcases he with rfl | rfl | rfl
    · exact .inr ⟨0, 5, rfl, h₀⟩
    · exact .inl ⟨rfl, rfl, rfl⟩
    · exact .inr ⟨1, 6, rfl, h₁⟩
  have hrun : Run (guarded Admitted (ofFun step)) twoDescriptors [.call (.openAndInsertRead 0),
      .call (.openAndInsertRead 1), .doPoll [⟨.read, false, some 0⟩, ⟨.user, false, none⟩,
        ⟨.read, false, some 1⟩],
      .next, .call (.removeAndClose 1), .call (.openAndInsertRead 3), .returned, .next] _ :=
    .cons ⟨trivial, rfl⟩ (.cons ⟨trivial, rfl⟩ (.cons ⟨hbatch _ rfl rfl, rfl⟩ (.cons ⟨trivial, rfl⟩
      (.cons ⟨trivial, rfl⟩ (.cons ⟨trivial, rfl⟩
        (.cons ⟨trivial, rfl⟩ (.single ⟨trivial, rfl⟩)))))))
  have h := dispatch_reaches_open twoDescriptors_created hrun
  exact ⟨_, hrun, rfl, rfl, h.1, h.2⟩

end ShmIpcPollProcess
