import ShmIpc.ChannelFifo

/-!
# Interleavings of the writer's and the reader's steps

`write`, `read_header` and `consume_header` are cut into their loads and stores.
The header and payload stores of a write may be cut further at any byte. Both
sides act on one sequentially consistent memory, and either of them may take
any number of steps between two steps of the other.
-/
namespace ShmIpcSteps

open ByteMemory LabelledRun ShmIpcChannel ShmIpcPlacement ShmIpcRing ShmIpcSession ShmIpcFifo

/-- Where the writer stands. After its two loads the rest of the call is determined: the
stores still to be executed, and how the call ends. -/
inductive Writer where
  | idle : Writer
  | loadedRead (id size : UInt32) (data : Nat → UInt8) (startOffset : UInt32) : Writer
  | storing (startOffset : UInt32) (writes : List HeaderWrite) (pending : List Store)
      (outcome : Outcome) : Writer

inductive Reader where
  | idle : Reader
  | loadedRead (startOffset : UInt32) : Reader
  | loadedBoth (startOffset endOffset : UInt32) : Reader

/-- `held` is the header `read_header` returned last; `published` the records covered by the
executed stores of `m_write_offset`. -/
structure State where
  channel : Channel
  writer : Writer
  reader : Reader
  held : Option HeaderPtr
  published : List Slot

inductive Action where
  | writeLoadRead (id size : UInt32) (data : Nat → UInt8) : Action
  | writeLoadWrite : Action
  | writeStore (k : Nat) : Action
  | writeFinish : Action
  | readLoadRead : Action
  | readLoadWrite : Action
  | readHeader : Action
  | consumeHeader : Action

/-- What is left of the pending stores after the first `k` bytes of the first one. -/
def remaining (p : Store) (ps : List Store) (k : Nat) : List Store :=
  if k = p.len then ps else p.back k :: ps

/-- One step of one side; there is none if the side is elsewhere or if it throws. -/
def step (s : State) : Action → Option State
  | .writeLoadRead id size data =>
    match s.writer with
    | .idle =>
      if id = 0 ∨ size = 0 then none
      else some { s with writer := .loadedRead id size data s.channel.mReadOffset }
    | _ => none
  | .writeLoadWrite =>
    match s.writer with
    | .loadedRead id size data startOffset =>
      let (writes, outcome) := writeBody s.channel.mSize s.channel.mWriteThreshold startOffset
        s.channel.mWriteOffset id size data
      some { s with writer := .storing startOffset writes (writes.flatMap
        HeaderWrite.stores) outcome }
    | _ => none
  | .writeStore k =>
    match s.writer with
    | .storing startOffset writes (p :: ps) outcome =>
      if k ≤ p.len then some { s with
        channel := { s.channel with mAddr := apply s.channel.mAddr (p.front k) }
        writer := .storing startOffset writes (remaining p ps k) outcome }
      else none
    | _ => none
  | .writeFinish =>
    match s.writer with
    | .storing _ _ [] .eagain => some { s with writer := .idle }
    | .storing _ writes [] (.publish endOffset _) => some { s with
        channel := { s.channel with mWriteOffset := endOffset }
        writer := .idle
        published := s.published ++ writes.map slot }
    | _ => none
  | .readLoadRead =>
    match s.reader with
    | .idle => some { s with reader := .loadedRead s.channel.mReadOffset }
    | _ => none
  | .readLoadWrite =>
    match s.reader with
    | .loadedRead startOffset =>
      -- equal offsets: `read_header` returns a null pointer without looking at the memory
      if startOffset = s.channel.mWriteOffset then some { s with reader := .idle, held := none }
      else some { s with reader := .loadedBoth startOffset s.channel.mWriteOffset }
    | _ => none
  | .readHeader =>
    match s.reader with
    | .loadedBoth startOffset endOffset =>
      match readHeaderFrom s.channel startOffset endOffset with
      | (.ok h, c) => some { s with channel := c, reader := .idle, held := h }
      | (.error _, _) => none
    | _ => none
  | .consumeHeader =>
    match s.reader, s.held with
    | .idle, some h =>
      match consumeHeader s.channel h with
      | (.ok (), c) => some { s with channel := c, held := none }
      | (.error _, _) => none
    | _, _ => none

def Opened (size : UInt32) (s : State) : Prop :=
  (∃ self raw, channelInitialize self size raw = (.ok (), s.channel)) ∧
    s.writer = .idle ∧ s.reader = .idle ∧ s.held = none ∧ s.published = []

/-! ## Undisturbed steps are the calls -/

variable {s t : State}

/-- All stores of a write in a row. -/
theorem run_stores (start : UInt32) (ws : List HeaderWrite) (ps : List Store) (o : Outcome)
    (hw : s.writer = .storing start ws ps o) :
    runFun step (ps.map fun p => .writeStore p.len) s = some { s with
      channel := { s.channel with mAddr := applyAll s.channel.mAddr ps }
      writer := .storing start ws [] o } := by
  induction ps generalizing s with
  | nil =>
    rw [← hw]
    rfl
  | cons p ps ih =>
    simp only [List.map_cons, runFun, step, hw, Nat.le_refl, ↓reduceIte,
      Option.bind_some, remaining]
    rw [ih rfl]
    rfl

/-- A write that nobody interrupts leaves the channel of `write` behind. -/
theorem run_write {id size : UInt32} {data : Nat → UInt8} {res : WriteResult} {c : Channel}
    (hidle : s.writer = .idle) (h : write s.channel id size (some data) = (.ok res, c)) :
    ∃ as, runFun step as s = some { s with
      channel := c
      published := s.published ++ if res.2 = none then writtenSlots s.channel id size data
        else [] } := by
  have hid : id ≠ 0 := by rintro rfl; simp [write] at h
  have hsize : size ≠ 0 := by rintro rfl; simp [write, hid] at h
  obtain ⟨⟨ws, o⟩, hbody⟩ : ∃ r, writeBody s.channel.mSize s.channel.mWriteThreshold
    s.channel.mReadOffset s.channel.mWriteOffset id size data = r := ⟨_, rfl⟩
  have hload : runFun step [.writeLoadRead id size data, .writeLoadWrite] s = some { s with
      writer := .storing s.channel.mReadOffset ws (ws.flatMap HeaderWrite.stores) o } := by
    simp only [runFun, step, hidle, hid, hsize, hbody, or_self, ↓reduceIte, Option.bind_some]
  refine ⟨[.writeLoadRead id size data, .writeLoadWrite] ++
    ((ws.flatMap HeaderWrite.stores).map (fun p => Action.writeStore p.len) ++ [.writeFinish]), ?_⟩
  rw [runFun_append, hload, Option.bind_some, runFun_append,
    run_stores _ _ _ _ rfl, Option.bind_some]
  simp only [write, hid, hsize, hbody, ↓reduceIte] at h
  cases o with
  | throws msg => cases h
  | eagain =>
    cases h
    simp only [runFun, step, Option.bind_some, reduceCtorEq, ↓reduceIte,
      List.append_nil, Option.some.injEq]
    rw [← hidle]
  | publish e n =>
    cases h
    simp only [runFun, step, Option.bind_some, writtenSlots, hbody, ↓reduceIte, Option.some.injEq]
    rw [← hidle]

/-- So does `read_header`. -/
theorem run_readHeader {h : Option HeaderPtr} {c : Channel} (hidle : s.reader = .idle)
    (hr : readHeader s.channel = (.ok h, c)) :
    ∃ as, runFun step as s = some { s with channel := c, held := h } := by
  by_cases heq : s.channel.mReadOffset = s.channel.mWriteOffset
  · refine ⟨[.readLoadRead, .readLoadWrite], ?_⟩
    simp only [readHeader, readHeaderFrom, heq, ↓reduceIte] at hr
    cases hr
    simp only [runFun, step, hidle, heq, ↓reduceIte, Option.bind_some]
  · refine ⟨[.readLoadRead, .readLoadWrite, .readHeader], ?_⟩
    rw [readHeader] at hr
    simp only [runFun, step, hidle, heq, hr, ↓reduceIte, Option.bind_some]

/-! ## What a step can do -/

inductive Effect (s : State) : Action → State → Prop where
  | writeLoadRead {id size : UInt32} {data : Nat → UInt8} : s.writer = .idle → id ≠ 0 → size ≠ 0 →
      Effect s (.writeLoadRead id size data)
      { s with writer := .loadedRead id size data s.channel.mReadOffset }
  | writeLoadWrite {id size start : UInt32} {data : Nat → UInt8}
      {ws : List HeaderWrite} {o : Outcome} : s.writer = .loadedRead id size data start →
      writeBody s.channel.mSize s.channel.mWriteThreshold start s.channel.mWriteOffset id
      size data = (ws, o) → Effect s .writeLoadWrite
      { s with writer := .storing start ws (ws.flatMap HeaderWrite.stores) o }
  | writeStore {k : Nat} {start : UInt32} {ws : List HeaderWrite} {p : Store}
      {ps : List Store} {o : Outcome} : s.writer = .storing start ws (p :: ps) o → k ≤ p.len →
      Effect s (.writeStore k) { s with
        channel := { s.channel with mAddr := apply s.channel.mAddr (p.front k) }
        writer := .storing start ws (remaining p ps k) o }
  | giveUp {start : UInt32} {ws : List HeaderWrite} : s.writer = .storing start ws [] .eagain →
      Effect s .writeFinish { s with writer := .idle }
  | publish {start e n : UInt32} {ws : List HeaderWrite} : s.writer = .storing start ws
      [] (.publish e n) → Effect s .writeFinish { s with
        channel := { s.channel with mWriteOffset := e }
        writer := .idle
        published := s.published ++ ws.map slot }
  | readLoadRead : s.reader = .idle →
      Effect s .readLoadRead { s with reader := .loadedRead s.channel.mReadOffset }
  | readEmpty {start : UInt32} : s.reader = .loadedRead start → start = s.channel.mWriteOffset →
      Effect s .readLoadWrite { s with reader := .idle, held := none }
  | readLoadWrite {start : UInt32} : s.reader = .loadedRead start → start ≠ s.channel.mWriteOffset →
      Effect s .readLoadWrite { s with reader := .loadedBoth start s.channel.mWriteOffset }
  | readHeader {start e : UInt32} {h : Option HeaderPtr} {c : Channel} :
      s.reader = .loadedBoth start e → readHeaderFrom s.channel start e = (.ok h, c) →
      Effect s .readHeader { s with channel := c, reader := .idle, held := h }
  | consumeHeader {h : HeaderPtr} {c : Channel} : s.reader = .idle → s.held = some h →
      consumeHeader s.channel h = (.ok (), c) → Effect s .consumeHeader
      { s with channel := c, held := none }

theorem effect_of_step {a : Action} (h : step s a = some t) : Effect s a t := by
  cases a with
  | writeLoadRead id size data =>
    simp only [step] at h
    split at h
    · rename_i hw
      split at h
      · cases h
      · rename_i hargs
        cases h
        exact .writeLoadRead hw (fun h => hargs (.inl h)) (fun h => hargs (.inr h))
    · cases h
  | writeLoadWrite =>
    simp only [step] at h
    split at h
    · rename_i hw
      cases h
      exact .writeLoadWrite hw rfl
    · cases h
  | writeStore k =>
    simp only [step] at h
    split at h
    · rename_i hw
      split at h
      · rename_i hk
        cases h
        exact .writeStore hw hk
      · cases h
    · cases h
  | writeFinish =>
    simp only [step] at h
    split at h
    · rename_i hw
      cases h
      exact .giveUp hw
    · rename_i hw
      cases h
      exact .publish hw
    · cases h
  | readLoadRead =>
    simp only [step] at h
    split at h
    · rename_i hr
      cases h
      exact .readLoadRead hr
    · cases h
  | readLoadWrite =>
    simp only [step] at h
    split at h
    · rename_i hr
      split at h
      · rename_i he
        cases h
        exact .readEmpty hr he
      · rename_i hne
        cases h
        exact .readLoadWrite hr hne
    · cases h
  | readHeader =>
    simp only [step] at h
    split at h
    · rename_i hr
      split at h
      · rename_i hread
        cases h
        exact .readHeader hr hread
      · cases h
    · cases h
  | consumeHeader =>
    simp only [step] at h
    split at h
    · rename_i hr hheld
      split at h
      · rename_i hcons
        cases h
        exact .consumeHeader hr hheld hcons
      · cases h
    · cases h

/-! ## The invariant -/

def Writer.writes : Writer → List HeaderWrite
  | .storing _ ws _ _ => ws
  | _ => []

/-- The read offset the current write has loaded. -/
def Writer.start : Writer → Option UInt32
  | .idle => none
  | .loadedRead _ _ _ s => some s
  | .storing s _ _ _ => some s

/-- Every pending store lies inside one of the records, and together they complete them. -/
structure Pending (S : Nat) (m : Memory) (ws : List HeaderWrite) (ps : List Store) : Prop where
  inside : ∀ p ∈ ps, ∃ h ∈ ws, h.offset.toNat ≤ p.addr ∧
    p.addr + p.len ≤ h.offset.toNat + 8 + h.size.toNat
  lands : Landed S (applyAll m ps) ws

/-- A write decides on a snapshot of the read offset, which may be stale by now. -/
inductive Writing (c : Channel) : Writer → Prop where
  | idle : Writing c .idle
  | loadedRead {id size s : UInt32} {data : Nat → UInt8} : id ≠ 0 → size ≠ 0 → s.toNat % 64 = 0 →
      s.toNat < c.mSize.toNat → Ahead s.toNat c.mReadOffset.toNat c.mWriteOffset.toNat →
      Writing c (.loadedRead id size data s)
  | eagain (s : UInt32) : Writing c (.storing s [] [] .eagain)
  | publish {s e n : UInt32} {ws : List HeaderWrite} {ps : List Store} :
      Placement c.mSize.toNat s.toNat c.mWriteOffset.toNat ws e.toNat →
      Ahead s.toNat c.mReadOffset.toNat c.mWriteOffset.toNat → Pending c.mSize.toNat c.mAddr ws ps →
      Writing c (.storing s ws ps (.publish e n))

/-- The reader's own load is current; it goes on only if there is an unread record. -/
inductive Reading (r w : UInt32) : Reader → Prop where
  | idle : Reading r w .idle
  | loadedRead : Reading r w (.loadedRead r)
  | loadedBoth {e : UInt32} : r ≠ e → r ≠ w → Reading r w (.loadedBoth r e)

structure Inv (s : State) (unread past : List Slot) : Prop where
  sized : Sized s.channel.mSize s.channel.mWriteThreshold
  ring : Ring s.channel.mSize.toNat s.channel.mAddr s.channel.mReadOffset.toNat
    s.channel.mWriteOffset.toNat unread
  lap : (∀ h ∈ s.writer.writes, h.offset.toNat = s.channel.mWriteOffset.toNat) →
    Lap s.channel.mSize.toNat s.channel.mAddr s.channel.mReadOffset.toNat
    s.channel.mWriteOffset.toNat past
  published : ∀ x, x ∈ unread ∨ x ∈ past → x ∈ s.published
  writing : Writing s.channel s.writer
  reading : Reading s.channel.mReadOffset s.channel.mWriteOffset s.reader
  held : ∀ h, s.held = some h → h = s.channel.mReadOffset ∧
    s.channel.mReadOffset ≠ s.channel.mWriteOffset

theorem inv_opened {size : UInt32} (hsize : SegmentSize size)
    (h : Opened size s) : Inv s [] [] := by
  obtain ⟨⟨self, raw, hc⟩, hw, hr, hheld, _⟩ := h
  have hf := formed_of_init hsize.positive hsize.paged hc
  exact ⟨hf.sized, hf.ring, fun _ => hf.lap, by simp, hw ▸ .idle, hr ▸ .idle, by simp [hheld]⟩

section WriterSteps

variable {unread past : List Slot}

theorem inv_writeLoadRead (hi : Inv s unread past) {id size : UInt32} {data : Nat → UInt8}
    (h : step s (.writeLoadRead id size data) = some t) : Inv t unread past := by
  cases effect_of_step h with
  | writeLoadRead hw hid hsize =>
    have hwrites : s.writer.writes = [] := by rw [hw]; rfl
    exact ⟨hi.sized, hi.ring, fun _ => hi.lap (by simp [hwrites]), hi.published,
      .loadedRead hid hsize hi.ring.read_aligned hi.ring.read_lt (ahead_refl _ _),
      hi.reading, hi.held⟩

/-- The second load fixes the placement, in view of the stale snapshot. -/
theorem inv_writeLoadWrite (hi : Inv s unread past) (h : step s .writeLoadWrite = some t) :
    Inv t unread past := by
  cases effect_of_step h with
  | writeLoadWrite hw hbody =>
    rename_i id size start data ws o
    have hwrites : s.writer.writes = [] := by rw [hw]; rfl
    have hlap := hi.lap (by simp [hwrites])
    have hwriting := hi.writing
    rw [hw] at hwriting
    cases hwriting with
    | loadedRead hid hsize hal hlt hahead =>
      have hpos : 0 < size.toNat := Nat.pos_of_ne_zero fun h => hsize (UInt32.toNat_inj.mp h)
      have hlaw := writeBody_law id data hi.sized s.channel.mWriteOffset hal hlt
        hi.ring.write_aligned hi.ring.write_le hpos
      rw [hbody] at hlaw
      rcases hlaw with ⟨_, heq⟩ | ⟨_, e, n, heq, _, _, hplace, hcarry⟩
      · cases heq
        exact ⟨hi.sized, hi.ring, fun _ => hlap, hi.published, .eagain start, hi.reading, hi.held⟩
      · cases heq
        have hids : ∀ h ∈ ws, h.id ≠ 0 := by
          intro h hh h0
          exact hid ((hcarry.ids (record h) (List.mem_map_of_mem hh)).symm.trans h0)
        have hpend : Pending s.channel.mSize.toNat s.channel.mAddr ws
            (ws.flatMap HeaderWrite.stores) := by
          refine ⟨?_, placement_landed hplace hids _⟩
          intro p hp
          obtain ⟨h, hh, hp⟩ := List.mem_flatMap.mp hp
          exact ⟨h, hh, stores_range hp⟩
        exact ⟨hi.sized, hi.ring, fun _ => hlap, hi.published,
          .publish hplace hahead hpend, hi.reading, hi.held⟩

/-- A store cut at a byte leaves the rest pending. -/
theorem pending_front {S k : Nat} {m : Memory} {ws : List HeaderWrite} {p : Store} {ps : List Store}
    (h : Pending S m ws (p :: ps)) (hk : k ≤ p.len) :
    Pending S (apply m (p.front k)) ws (remaining p ps k) ∧ Confined ws m
    (apply m (p.front k)) := by
  obtain ⟨g, hg, hlo, hhi⟩ := h.inside p List.mem_cons_self
  refine ⟨⟨?_, ?_⟩, ?_⟩
  · intro q hq
    unfold remaining at hq
    split at hq
    · exact h.inside q (List.mem_cons_of_mem p hq)
    · rcases List.mem_cons.mp hq with rfl | hq
      · refine ⟨g, hg, ?_⟩
        simp only [Store.back]
        omega
      · exact h.inside q (List.mem_cons_of_mem p hq)
  · have hall : applyAll (apply m (p.front k)) (remaining p ps k) = applyAll m (p :: ps) := by
      unfold remaining
      split
      · rename_i he
        rw [he]
        rfl
      · rw [applyAll_cons, apply_front_back m p k hk, applyAll_cons]
    rw [hall]
    exact h.lands
  · intro a ha
    refine (apply_outside m (p.front k) a ?_).symm
    have := ha g hg
    simp only [Store.Covers, Store.front]
    omega

theorem inv_writeStore (hi : Inv s unread past) {k : Nat} (h : step s (.writeStore k) = some t) :
    Inv t unread past ∧ ∃ start ws e, Placement s.channel.mSize.toNat start
      s.channel.mWriteOffset.toNat ws e ∧ Ahead start s.channel.mReadOffset.toNat
      s.channel.mWriteOffset.toNat ∧ Confined ws s.channel.mAddr t.channel.mAddr := by
  cases effect_of_step h with
  | writeStore hw hk =>
    have hlap := hi.lap
    have hwriting := hi.writing
    rw [hw] at hwriting hlap
    cases hwriting with
    | publish hplace hahead hpend =>
      obtain ⟨hpend', hconf⟩ := pending_front hpend hk
      refine ⟨⟨hi.sized, ring_confined hi.ring hahead hplace hconf, ?_, hi.published,
        .publish hplace hahead hpend', hi.reading, hi.held⟩, _, _, _, hplace, hahead, hconf⟩
      intro hat
      exact lap_confined (hlap hat) hat hconf

/-- Publishing more records does not disturb the reader. -/
theorem reading_mono {r w e : UInt32} {pc : Reader} (h : Reading r w pc) (hne : r ≠ w → r ≠ e) :
    Reading r e pc := by
  cases h with
  | idle => exact .idle
  | loadedRead => exact .loadedRead
  | loadedBoth he hw => exact .loadedBoth he (hne hw)

/-- The store of `m_write_offset` publishes the records, all of them complete. -/
theorem inv_writeFinish (hi : Inv s unread past) (h : step s .writeFinish = some t) :
    ∃ new, t.published = s.published ++ new ∧ Inv t (unread ++ new) past := by
  have hwriting := hi.writing
  have hlap := hi.lap
  cases effect_of_step h with
  | giveUp hw =>
    rw [hw] at hwriting hlap
    cases hwriting with
    | eagain =>
      refine ⟨[], (List.append_nil _).symm, ?_⟩
      rw [List.append_nil]
      exact ⟨hi.sized, hi.ring, fun _ => hlap (by simp [Writer.writes]), hi.published,
        .idle, hi.reading, hi.held⟩
  | publish hw =>
    rename_i start e n ws
    rw [hw] at hwriting hlap
    cases hwriting with
    | publish hplace hahead hpend =>
      have hring := publish_ring hi.ring hahead hplace hpend.lands
      have hne (h : s.channel.mReadOffset ≠ s.channel.mWriteOffset) :
          s.channel.mReadOffset ≠ e := by
        intro he
        have hnil := (ring_nil_iff hring).mpr (congrArg _ he)
        exact h (UInt32.toNat_inj.mp ((ring_nil_iff hi.ring).mp (List.append_eq_nil_iff.mp hnil).1))
      refine ⟨_, rfl, hi.sized, hring, fun _ => publish_lap hahead hplace hlap, ?_, .idle, ?_, ?_⟩
      · intro x hx
        rw [List.mem_append] at hx ⊢
        rcases hx with (hx | hx) | hx
        · exact .inl (hi.published x (.inl hx))
        · exact .inr hx
        · exact .inl (hi.published x (.inr hx))
      · exact reading_mono hi.reading hne
      · intro h hh
        obtain ⟨heq, hnw⟩ := hi.held h hh
        exact ⟨heq, hne hnw⟩

end WriterSteps

section ReaderSteps

variable {unread past : List Slot}

theorem inv_readLoadRead (hi : Inv s unread past) (h : step s .readLoadRead = some t) :
    Inv t unread past := by
  cases effect_of_step h with
  | readLoadRead _ =>
    exact ⟨hi.sized, hi.ring, hi.lap, hi.published, hi.writing, .loadedRead, hi.held⟩

theorem inv_readLoadWrite (hi : Inv s unread past) (h : step s .readLoadWrite = some t) :
    Inv t unread past := by
  have hreading := hi.reading
  cases effect_of_step h with
  | readEmpty _ _ => exact ⟨hi.sized, hi.ring, hi.lap, hi.published, hi.writing, .idle, by simp⟩
  | readLoadWrite hr hne =>
    rw [hr] at hreading
    cases hreading with
    | loadedRead =>
      exact ⟨hi.sized, hi.ring, hi.lap, hi.published, hi.writing, .loadedBoth hne hne, hi.held⟩

/-- `read_header` hands out the record at the read offset, whatever has been published since its
loads. -/
theorem inv_readHeader (hi : Inv s unread past) (h : step s .readHeader = some t) :
    Inv t unread past := by
  have hreading := hi.reading
  cases effect_of_step h with
  | readHeader hr hread =>
    rw [hr] at hreading
    cases hreading with
    | loadedBoth hne hnw =>
      obtain ⟨x, b, rest, hstep, _⟩ := consume_ring hi.ring (fun he => hnw (UInt32.toNat_inj.mp he))
      rw [readHeaderFrom_spec _ hne hstep] at hread
      cases hread
      exact ⟨hi.sized, hi.ring, hi.lap, hi.published, hi.writing, .idle, by simpa using hnw⟩

/-- The reader starts over at the end of the buffer while the writer is inside a write that has
seen another read offset. -/
def OverrunsWriter (s : State) : Prop :=
  s.channel.mWriteOffset = s.channel.mSize ∧
    (∃ h, s.held = some h ∧ recordEnd s.channel h = s.channel.mSize) ∧
    ∃ start, s.writer.start = some start ∧ start ≠ 0

/-- The snapshot of the writer stays behind the reader. -/
theorem writing_consume {c : Channel} {w : Writer} {b : Nat} {r : UInt32} (hw : Writing c w)
    (hrb : c.mReadOffset.toNat < b)
    (hbw : c.mReadOffset.toNat ≤ c.mWriteOffset.toNat → b ≤ c.mWriteOffset.toNat)
    (hle : c.mWriteOffset.toNat ≤ c.mSize.toNat) (hr : r.toNat = wrapEnd c.mSize.toNat b)
    (hend : c.mWriteOffset.toNat = c.mSize.toNat ∧ b = c.mSize.toNat → ∀ start,
      w.start = some start → start = 0) : Writing { c with mReadOffset := r } w := by
  have hahead (s : UInt32) (ha : Ahead s.toNat c.mReadOffset.toNat c.mWriteOffset.toNat)
      (hs : w.start = some s) : Ahead s.toNat r.toNat c.mWriteOffset.toNat := by
    rw [hr]
    exact ahead_consume ha hrb hbw hle fun he => by rw [hend he s hs]; rfl
  cases hw with
  | idle => exact .idle
  | loadedRead hid hsize hal hlt ha => exact .loadedRead hid hsize hal hlt (hahead _ ha rfl)
  | eagain s => exact .eagain s
  | publish hplace ha hpend => exact .publish hplace (hahead _ ha rfl) hpend

/-- Read offset 0 leaves no room behind a write offset at the end. -/
theorem no_placement {S e : Nat} {ws : List HeaderWrite} : ¬ Placement S 0 S ws e := by
  intro h
  cases h with
  | tail _ _ hlt _ _ => omega
  | split _ _ _ hlt _ _ _ _ _ _ => omega
  | gap _ hlt _ _ _ => omega
  | parked _ _ _ _ _ hgap => omega

theorem writes_nil {c : Channel} {w : Writer} (hw : Writing c w)
    (hfull : c.mWriteOffset.toNat = c.mSize.toNat)
    (h0 : ∀ start, w.start = some start → start = 0) : w.writes = [] := by
  cases hw with
  | idle => rfl
  | loadedRead => rfl
  | eagain => rfl
  | publish hplace _ _ =>
    rw [h0 _ rfl, hfull] at hplace
    exact absurd hplace no_placement

/-- The record at the read offset, as the header the reader holds presents it. -/
theorem recordAt_of_step {S b : Nat} {m : Memory} {h : HeaderPtr} {x : Slot}
    (hstep : recordStep S m h.toNat = some (x, b)) : x = ⟨h.toNat, recordAt m h⟩ := by
  obtain ⟨_, _, _, hx, _⟩ := recordStep_eq hstep
  rw [hx]
  rfl

/-- The record consumed is the first unread one, and it leaves the others unless it is the last of
the buffer and the write offset is at the end. -/
theorem inv_consumeHeader (hi : Inv s unread past) (hok : ¬ OverrunsWriter s)
    (h : step s .consumeHeader = some t) : ∃ x rest unread' past', unread = x :: rest ∧
      s.held.map (recordAt s.channel.mAddr) = some x.record ∧ Inv t unread' past' ∧
      (¬ EmptiesAtEnd ⟨s.channel, s.held, [], []⟩ → unread' = rest) := by
  cases effect_of_step h with
  | consumeHeader hr hheld hc =>
    obtain ⟨rfl, hne⟩ := hi.held _ hheld
    obtain ⟨x, b, rest, hstep, hb, hbw, hun, hgo, _⟩ := consume_ring hi.ring
      (fun he => hne (UInt32.toNat_inj.mp he))
    obtain ⟨r, hcons, hr'⟩ := consumeHeader_spec hstep hb
    have hend := recordEnd_toNat hstep hb
    have hstart : s.channel.mWriteOffset.toNat = s.channel.mSize.toNat ∧ b = s.channel.mSize.toNat →
        ∀ start, s.writer.start = some start → start = 0 := by
      intro he start hs
      by_contra h0
      exact hok ⟨UInt32.toNat_inj.mp he.1,
        ⟨_, hheld, UInt32.toNat_inj.mp (hend.trans he.2)⟩, start, hs, h0⟩
    have hwriting := writing_consume hi.writing (recordStep_forward hstep) hbw
      hi.ring.write_le hr' hstart
    have hrecord : s.held.map (recordAt s.channel.mAddr) = some x.record := by
      rw [hheld, recordAt_of_step hstep]
      rfl
    have hxpub : x ∈ s.published := hi.published x (.inl (by simp [hun]))
    rw [hcons] at hc
    cases hc
    by_cases hfull : s.channel.mWriteOffset.toNat = s.channel.mSize.toNat ∧
      b = s.channel.mSize.toNat
    · -- nothing is being stored here: a write that loaded read offset 0 has found no room
      have hnone : s.writer.writes = [] := writes_nil hi.writing hfull.1 (hstart hfull)
      have hf := formed_end ⟨hi.sized, hi.ring, hi.lap (by simp [hnone])⟩ hfull.1 (hfull.2 ▸ hstep)
        (by rw [hr', hfull.2, wrapEnd_self])
      have hempties : EmptiesAtEnd ⟨s.channel, s.held, [], []⟩ :=
        ⟨UInt32.toNat_inj.mp hfull.1, _, hheld, UInt32.toNat_inj.mp (hend.trans hfull.2)⟩
      refine ⟨x, rest, past ++ [x], [], hun, hrecord,
        ⟨hf.sized, hf.ring, fun _ => hf.lap, ?_, hwriting, hr ▸ .idle, by simp⟩, fun hno =>
        absurd hempties hno⟩
      intro y hy
      simp only [List.mem_append, List.mem_singleton, List.not_mem_nil, or_false] at hy
      rcases hy with hy | rfl
      · exact hi.published y (.inr hy)
      · exact hxpub
    · have hring := hgo hfull
      rw [← hr'] at hring
      have hreading : Reading r s.channel.mWriteOffset s.reader := hr ▸ .idle
      by_cases hat : ∀ h ∈ s.writer.writes, h.offset.toNat = s.channel.mWriteOffset.toNat
      · obtain ⟨past', hlap, hmem⟩ := consume_lap hi.ring (hi.lap hat) hstep
        rw [← hr'] at hlap
        refine ⟨x, rest, rest, past', hun, hrecord,
          ⟨hi.sized, hring, fun _ => hlap, ?_, hwriting, hreading, by simp⟩, fun _ => rfl⟩
        rintro y (hy | hy)
        · exact hi.published y (.inl (by simp [hun, hy]))
        · rcases hmem y hy with rfl | hy
          · exact hxpub
          · exact hi.published y (.inr hy)
      · refine ⟨x, rest, rest, [], hun, hrecord,
          ⟨hi.sized, hring, fun h => absurd h hat, ?_, hwriting, hreading, by simp⟩, fun _ => rfl⟩
        intro y hy
        simp only [List.not_mem_nil, or_false] at hy
        exact hi.published y (.inl (by simp [hun, hy]))

end ReaderSteps

theorem readHeaderFrom_size (c : Channel) (start e : UInt32) :
    (readHeaderFrom c start e).2.mSize = c.mSize := by
  simp only [readHeaderFrom]
  repeat' split
  all_goals rfl

theorem consumeHeader_size (c : Channel) (h : HeaderPtr) :
    (consumeHeader c h).2.mSize = c.mSize := by
  simp only [consumeHeader]
  repeat' split
  all_goals rfl

theorem size_step {a : Action} (h : step s a = some t) :
    t.channel.mSize = s.channel.mSize := by
  cases effect_of_step h with
  | @readHeader start e _ _ _ hread =>
    have hsize := readHeaderFrom_size s.channel start e
    rwa [hread] at hsize
  | @consumeHeader header _ _ _ hcons =>
    have hsize := consumeHeader_size s.channel header
    rwa [hcons] at hsize
  | _ => rfl

/-! ## Publication safety -/

def Admitted (s : State) (a : Action) : Prop := a = .consumeHeader → ¬ OverrunsWriter s

theorem inv_step {a : Action} (hi : ∃ unread past, Inv s unread past)
    (h : guarded Admitted (ofFun step) s a t) : ∃ unread past, Inv t unread past := by
  obtain ⟨unread, past, hi⟩ := hi
  obtain ⟨hok, h⟩ := h
  cases a with
  | writeLoadRead id size data => exact ⟨_, _, inv_writeLoadRead hi h⟩
  | writeLoadWrite => exact ⟨_, _, inv_writeLoadWrite hi h⟩
  | writeStore k => exact ⟨_, _, (inv_writeStore hi h).1⟩
  | writeFinish =>
    obtain ⟨_, _, hi'⟩ := inv_writeFinish hi h
    exact ⟨_, _, hi'⟩
  | readLoadRead => exact ⟨_, _, inv_readLoadRead hi h⟩
  | readLoadWrite => exact ⟨_, _, inv_readLoadWrite hi h⟩
  | readHeader => exact ⟨_, _, inv_readHeader hi h⟩
  | consumeHeader =>
    obtain ⟨_, _, _, _, _, _, hi', _⟩ := inv_consumeHeader hi (hok rfl) h
    exact ⟨_, _, hi'⟩

/-- The header the reader was given is that of a record published before. -/
def HeldPublished (s : State) : Prop :=
  ∀ h, s.held = some h → ⟨h.toNat, recordAt s.channel.mAddr h⟩ ∈ s.published

/-- No step of either side changes a byte of the record the reader was given. -/
def HeldUntouched (s : State) : Prop :=
  ∀ h a t, s.held = some h → step s a = some t →
    AgreeOn h.toNat (h.toNat + 8 + (sizeAt s.channel.mAddr h).toNat) s.channel.mAddr t.channel.mAddr

theorem readHeaderFrom_memory (c : Channel) (r e : UInt32) :
    (readHeaderFrom c r e).2.mAddr = c.mAddr := by
  simp only [readHeaderFrom]
  repeat' split
  all_goals rfl

theorem consumeHeader_memory (c : Channel) (h : HeaderPtr) :
    (consumeHeader c h).2.mAddr = c.mAddr := by
  simp only [consumeHeader]
  repeat' split
  all_goals rfl

/-- Only the stores of a write change the memory. -/
theorem memory_step {a : Action} (h : step s a = some t) (ha : ∀ k, a ≠ .writeStore k) :
    t.channel.mAddr = s.channel.mAddr := by
  cases effect_of_step h with
  | writeStore _ _ => exact absurd rfl (ha _)
  | readHeader hr hread =>
    rename_i start e head c
    have hm := readHeaderFrom_memory s.channel start e
    rwa [hread] at hm
  | consumeHeader hr hheld hcons =>
    rename_i head c
    have hm := consumeHeader_memory s.channel head
    rwa [hcons] at hm
  | writeLoadRead _ _ _ => rfl
  | writeLoadWrite _ _ => rfl
  | giveUp _ => rfl
  | publish _ => rfl
  | readLoadRead _ => rfl
  | readEmpty _ _ => rfl
  | readLoadWrite _ _ => rfl

theorem heldPublished_of_inv {unread past : List Slot} (hi : Inv s unread past) :
    HeldPublished s := by
  intro h hh
  obtain ⟨rfl, hne⟩ := hi.held h hh
  obtain ⟨x, b, rest, hstep, _, _, hun, _⟩ := consume_ring hi.ring
    (fun he => hne (UInt32.toNat_inj.mp he))
  rw [← recordAt_of_step hstep]
  exact hi.published x (.inl (by simp [hun]))

/-- The stores of a write stay clear of the first unread record. -/
theorem heldUntouched_of_inv {unread past : List Slot} (hi : Inv s unread past) :
    HeldUntouched s := by
  intro h a t hh hs
  obtain ⟨rfl, hne⟩ := hi.held h hh
  by_cases ha : ∃ k, a = .writeStore k
  · obtain ⟨k, rfl⟩ := ha
    obtain ⟨_, start, ws, e, hplace, hahead, hconf⟩ := inv_writeStore hi hs
    obtain ⟨x, b, _, hstep, _, hbw, _⟩ := consume_ring hi.ring
      (fun he => hne (UInt32.toNat_inj.mp he))
    obtain ⟨_, _, hin, _, rfl⟩ := recordStep_eq hstep
    have hclear := placement_clear hi.ring hahead hplace
    have hle := le_alignUp (8 + (loadWord s.channel.mAddr s.channel.mReadOffset.toNat).toNat)
    have hsize : (sizeAt s.channel.mAddr s.channel.mReadOffset).toNat =
        (loadWord s.channel.mAddr s.channel.mReadOffset.toNat).toNat := rfl
    refine hconf.agreeOn ?_
    intro g hg
    obtain ⟨hflat, hwrap⟩ := hclear g hg
    by_cases hrw : s.channel.mReadOffset.toNat ≤ s.channel.mWriteOffset.toNat
    · have := hflat hrw
      have := hbw hrw
      omega
    · exact .inr (hwrap (by omega)).2
  · intro b _ _
    rw [memory_step hs fun k he => ha ⟨k, he⟩]

/-- Publication safety. In every interleaving whose reader does not start over under a write
that has seen another read offset, the reader is given published records only, and they
stay as they are until it consumes them. -/
theorem published_until_consumed {size : UInt32} {s₀ : State} {as : List Action}
    (hsize : SegmentSize size) (h₀ : Opened size s₀)
    (h : Run (guarded Admitted (ofFun step)) s₀ as s) : HeldPublished s ∧ HeldUntouched s := by
  obtain ⟨unread, past, hi⟩ := h.invariant (fun s => ∃ unread past, Inv s unread past)
    ⟨[], [], inv_opened hsize h₀⟩ fun _ _ _ => inv_step
  exact ⟨heldPublished_of_inv hi, heldUntouched_of_inv hi⟩

/-- A segment of one page with both sides idle. -/
def idlePage : State := ⟨onePage.channel, .idle, .idle, none, []⟩

theorem idlePage_opened : Opened 4096 idlePage := ⟨onePage_opened.1, rfl, rfl, rfl, rfl⟩

/-- The steps of one write whose stores are executed in one piece each. -/
def writeSteps (id size : UInt32) (lens : List Nat) : List Action :=
  [.writeLoadRead id size (fun i => UInt8.ofNat i), .writeLoadWrite] ++
    lens.map .writeStore ++ [.writeFinish]

def readSteps : List Action := [.readLoadRead, .readLoadWrite, .readHeader]

instance (s : State) : Decidable (OverrunsWriter s) :=
  decidable_of_iff (EmptiesAtEnd ⟨s.channel, s.held, [], []⟩ ∧ s.writer.start.any (· ≠ 0)) (by
    cases hstart : s.writer.start <;> simp [OverrunsWriter, EmptiesAtEnd, hstart, and_assoc])

instance (s : State) : ∀ a, Decidable (Admitted s a)
  | .consumeHeader => decidable_of_iff (¬ OverrunsWriter s) (by simp [Admitted])
  | .writeLoadRead .. | .writeLoadWrite | .writeStore _ | .writeFinish => .isTrue fun h => by
      cases h
  | .readLoadRead | .readLoadWrite | .readHeader => .isTrue fun h => by cases h

/-- The reader consumes one record and is given the next while a third one is being written. -/
def threeRecords : List Action :=
  writeSteps 7 100 [4, 4, 100] ++ writeSteps 8 50 [4, 4, 50] ++ readSteps ++ [.consumeHeader,
    .writeLoadRead 9 3 (fun _ => 2), .writeLoadWrite, .writeStore 4] ++ readSteps

theorem published_until_consumed_one_page :
    ∃ s, Run (guarded Admitted (ofFun step)) idlePage threeRecords s ∧ s.held = some 128 ∧
      HeldPublished s ∧ HeldUntouched s := by
  have heval : (runFun (guardFun Admitted step) threeRecords idlePage).map (fun s => s.held) =
      some (some 128) := by decide
  obtain ⟨s, hs, hheld⟩ := Option.map_eq_some_iff.mp heval
  have hrun := run_of_guardFun hs
  exact ⟨s, hrun, hheld, published_until_consumed onePage_size idlePage_opened hrun⟩

/-- Two records fill the buffer. While the writer, which has seen the first of them consumed, is
writing a third one to the start of the buffer, the reader consumes the second, starts
over and is given the header that the writer overwrites with its next store. -/
theorem held_header_overwritten :
    ∃ s, runFun step (writeSteps 1 1992 [4, 4, 1992] ++ writeSteps 2 1976 [4, 4, 1976] ++
        readSteps ++ [.consumeHeader, .writeLoadRead 3 1 (fun _ => 0), .writeLoadWrite] ++
        readSteps ++ [.consumeHeader] ++ readSteps) idlePage = some s ∧ ¬ HeldUntouched s := by
  have heval :
      (runFun step (writeSteps 1 1992 [4, 4, 1992] ++ writeSteps 2 1976 [4, 4, 1976] ++ readSteps ++
        [.consumeHeader, .writeLoadRead 3 1 (fun _ => 0), .writeLoadWrite] ++ readSteps ++
        [.consumeHeader] ++ readSteps) idlePage).map (fun s => (s.held, s.channel.mAddr 4,
        (step s (.writeStore 4)).map fun t => t.channel.mAddr 4)) = some (some 0, 1, some 3) := by
    decide
  obtain ⟨s, hs, heq⟩ := Option.map_eq_some_iff.mp heval
  simp only [Prod.mk.injEq, Option.map_eq_some_iff] at heq
  obtain ⟨hheld, hold, t, ht, hnew⟩ := heq
  refine ⟨s, hs, fun huntouched => ?_⟩
  have hbyte := huntouched 0 (.writeStore 4) t hheld ht 4 (by decide)
    (by rw [UInt32.toNat_zero]; omega)
  rw [hold, hnew] at hbyte
  exact absurd hbyte (by decide)

end ShmIpcSteps
