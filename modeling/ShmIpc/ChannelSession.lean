import ShmIpc.LabelledRun
import ShmIpc.ChannelRing

/-!
# Sessions of one writer and one reader

A session records, next to the channel, the header the reader was last given
and the records published and consumed so far. Its steps are complete calls of
`write`, `read_header` and `consume_header`; the ring invariant holds after
every one of them and none of them throws.
-/
namespace ShmIpcSession

open ByteMemory LabelledRun Walks ShmIpcChannel ShmIpcPlacement ShmIpcRing

/-! ## The operations on a well-formed ring -/

/-- The ring invariant of a channel, with its unread records and those of the lap behind. -/
structure Formed (c : Channel) (unread past : List Slot) : Prop where
  sized : Sized c.mSize c.mWriteThreshold
  ring : Ring c.mSize.toNat c.mAddr c.mReadOffset.toNat c.mWriteOffset.toNat unread
  lap : Lap c.mSize.toNat c.mAddr c.mReadOffset.toNat c.mWriteOffset.toNat past

/-- What `RouterFactory` and `Segment::create` hand to `channelInitialize`. -/
structure SegmentSize (size : UInt32) : Prop where
  positive : 0 < size.toNat
  paged : size.toNat % 4096 = 0
  small : size.toNat < 2 ^ 31

theorem size_of_init {self : Nat} {size : UInt32} {raw c : Channel} (hpos : 0 < size.toNat)
    (hpaged : size.toNat % 4096 = 0) (h : channelInitialize self size raw = (.ok (), c)) :
    c.mSize.toNat = size.toNat - 64 := by
  simp only [channelInitialize] at h
  split at h
  · cases h
  · split at h
    · cases h
    · split at h
      · cases h
      · cases h
        exact UInt32.toNat_sub_of_le _ _
          (by simp only [UInt32.le_iff_toNat_le, show addrOffset.toNat = 64 from rfl]; omega)

theorem fields_of_init {self : Nat} {size : UInt32} {raw c : Channel}
    (h : channelInitialize self size raw = (.ok (), c)) :
    c.mWriteThreshold = alignSizeToCacheline (c.mSize / 8) ∧ c.mReadOffset = 0 ∧
    c.mWriteOffset = 0 := by
  simp only [channelInitialize] at h
  split at h
  · cases h
  · split at h
    · cases h
    · split at h
      · cases h
      · cases h; exact ⟨rfl, rfl, rfl⟩

/-- An eighth of the buffer. -/
theorem threshold_of_init {self : Nat} {size : UInt32} {raw c : Channel} (hpos : 0 < size.toNat)
    (hpaged : size.toNat % 4096 = 0) (h : channelInitialize self size raw = (.ok (), c)) :
    c.mWriteThreshold.toNat = alignUp (c.mSize.toNat / 8) := by
  have hS := size_of_init hpos hpaged h
  have hlt := size.toNat_lt
  have hdiv : (c.mSize / 8).toNat = c.mSize.toNat / 8 := UInt32.toNat_div _ _
  rw [(fields_of_init h).1, alignSize_toNat _ (by rw [hdiv]; omega), hdiv]

/-- A freshly initialised channel is an empty ring. -/
theorem formed_of_init {self : Nat} {size : UInt32} {raw c : Channel} (hpos : 0 < size.toNat)
    (hpaged : size.toNat % 4096 = 0) (h : channelInitialize self size raw = (.ok (), c)) :
    Formed c [] [] := by
  have hS := size_of_init hpos hpaged h
  obtain ⟨_, hr, hw⟩ := fields_of_init h
  have htn := threshold_of_init hpos hpaged h
  have hring := ring_empty (S := c.mSize.toNat) (m := c.mAddr) (by omega) (by omega)
  refine ⟨⟨by omega, ?_, ?_⟩, ?_, ?_⟩
  · rw [htn, alignUp]; omega
  · rw [htn, alignUp]; omega
  · rw [hr, hw]; exact hring
  · rw [hr, hw]; exact fun _ => .nil 0

theorem capacity_le {S r w : Nat} (hr : r < S) : capacity S r w ≤ S := by
  unfold capacity
  split
  · split <;> omega
  · dsimp only
    split <;> split <;> omega

theorem toInt_of_small (n : UInt32) (h : n.toNat < 2 ^ 31) : n.toInt32.toInt = n.toNat := by
  have hb : n.toInt32.toInt = n.toBitVec.toInt := rfl
  rw [hb, BitVec.toInt_eq_toNat_of_lt (by simpa using (by omega : 2 * n.toNat < 2 ^ 32))]
  rfl

/-- The records the `write_to_header` calls of one write put down. -/
def writtenSlots (c : Channel) (id size : UInt32) (data : Nat → UInt8) : List Slot :=
  (writeBody c.mSize c.mWriteThreshold c.mReadOffset c.mWriteOffset id size data).1.map slot

section Spec

variable {c : Channel} {unread past : List Slot}

/-- The result law of `write` on a well-formed ring. -/
theorem write_spec (hc : Formed c unread past) (hsmall : c.mSize.toNat < 2 ^ 31) {id size : UInt32}
    (data : Nat → UInt8) (hid : id ≠ 0) (hsize : size ≠ 0) :
    let cap := capacity c.mSize.toNat c.mReadOffset.toNat c.mWriteOffset.toNat
    (cap < min size.toNat c.mWriteThreshold.toNat ∧
      write c id size (some data) = (.ok (-1, some .EAGAIN), c)) ∨
    ∃ e n c', write c id size (some data) = (.ok ((n : Nat), none), c') ∧
      n = min size.toNat cap ∧ min size.toNat c.mWriteThreshold.toNat ≤ n ∧
      Carries id data ((writtenSlots c id size data).map Slot.record) n ∧
      c' = { c with mAddr := c'.mAddr, mWriteOffset := e } ∧
      Formed c' (unread ++ writtenSlots c id size data) past := by
  have hr := hc.ring
  have hpos : 0 < size.toNat := by
    have : size.toNat ≠ 0 := fun h => hsize (UInt32.toNat_inj.mp h)
    omega
  have hlaw := writeBody_law id data hc.sized c.mWriteOffset hr.read_aligned
    hr.read_lt hr.write_aligned hr.write_le hpos
  intro cap
  rcases hlaw with ⟨hlt, hbody⟩ | ⟨ws, e, n, hbody, hn, hmin, hplace, hcarry⟩
  · left
    refine ⟨hlt, ?_⟩
    simp only [write, hid, hsize, hbody, ↓reduceIte]
    rfl
  · right
    have hcap := capacity_le (w := c.mWriteOffset.toNat) hr.read_lt
    have hids : ∀ h ∈ ws, h.id ≠ 0 := by
      intro h hh
      have := hcarry.ids (record h) (List.mem_map_of_mem hh)
      exact fun h0 => hid (this.symm.trans h0)
    have hslots : (writtenSlots c id size data).map Slot.record = ws.map record := by
      simp only [writtenSlots, hbody, List.map_map]
      rfl
    refine ⟨e, n.toNat, { c with
      mAddr := applyAll c.mAddr (ws.flatMap HeaderWrite.stores), mWriteOffset := e }, ?_, hn,
        hmin, ?_, rfl, ?_⟩
    · simp only [write, hid, hsize, hbody, ↓reduceIte, Outcome.apply, toInt_of_small n (by omega)]
    · rw [hslots]; exact hcarry
    · have hconf := applyAll_confined c.mAddr ws
      have hring := ring_confined hr (ahead_refl _ _) hplace hconf
      have hpub := publish_ring hring (ahead_refl _ _) hplace (placement_landed hplace hids c.mAddr)
      have hlap := publish_lap (ahead_refl _ _) hplace fun hat => lap_confined hc.lap hat hconf
      simp only [writtenSlots, hbody]
      exact ⟨hc.sized, hpub, hlap⟩

theorem verify_of_step {h : HeaderPtr} {x : Slot} {b : Nat} (hh : h = c.mReadOffset)
    (hstep : recordStep c.mSize.toNat c.mAddr h.toNat = some (x, b)) :
    verifyReadHeader c h = true := by
  obtain ⟨_, _, hin, _, _⟩ := recordStep_eq hstep
  have hsize : (sizeAt c.mAddr h).toNat = (loadWord c.mAddr h.toNat).toNat := rfl
  have hle : ¬ ((sizeAt c.mAddr h).toNat : Int) >
      (c.mSize.toNat : Int) - h.toNat - headerSize.toNat := by
    rw [hsize, headerSize_toNat]; omega
  simp only [verifyReadHeader, hh, ne_eq, not_true_eq_false, ↓reduceIte]
  rw [← hh, if_neg hle]

/-- `read_header` after its loads, when a record stands at the loaded read offset: the value
loaded for the write offset may be stale. -/
theorem readHeaderFrom_spec {x : Slot} {b : Nat} (endOffset : UInt32)
    (hne : c.mReadOffset ≠ endOffset)
    (hstep : recordStep c.mSize.toNat c.mAddr c.mReadOffset.toNat = some (x, b)) :
    readHeaderFrom c c.mReadOffset endOffset = (.ok (some c.mReadOffset), c) := by
  obtain ⟨_, _, hin, _, _⟩ := recordStep_eq hstep
  have hlt := c.mSize.toNat_lt
  have hpad : sizeAt c.mAddr c.mReadOffset ≠ paddingSize := by
    intro h
    have h' : (loadWord c.mAddr c.mReadOffset.toNat).toNat = 4294967295 := congrArg UInt32.toNat h
    omega
  simp only [readHeaderFrom, hne, hpad, verify_of_step rfl hstep, ↓reduceIte,
    Bool.not_true, Bool.false_eq_true]

theorem readHeader_ring
    (hr : Ring c.mSize.toNat c.mAddr c.mReadOffset.toNat c.mWriteOffset.toNat unread) :
    readHeader c =
      (.ok (if c.mReadOffset = c.mWriteOffset then none else some c.mReadOffset), c) := by
  by_cases h : c.mReadOffset = c.mWriteOffset
  · simp only [readHeader, readHeaderFrom, h, ↓reduceIte]
  · obtain ⟨x, b, rest, hstep, _⟩ := consume_ring hr (fun he => h (UInt32.toNat_inj.mp he))
    rw [readHeader, readHeaderFrom_spec c.mWriteOffset h hstep, if_neg h]

theorem readHeader_spec (hc : Formed c unread past) :
    readHeader c = (.ok (if c.mReadOffset = c.mWriteOffset then none else some c.mReadOffset), c) :=
  readHeader_ring hc.ring

/-- The reader starts over at the end of the buffer: the lap is the unread part now. -/
theorem formed_end (hc : Formed c unread past) {x : Slot} {r : UInt32}
    (hw : c.mWriteOffset.toNat = c.mSize.toNat)
    (hstep : recordStep c.mSize.toNat c.mAddr c.mReadOffset.toNat = some (x, c.mSize.toNat))
    (hr : r.toNat = 0) : Formed { c with mReadOffset := r } (past ++ [x]) [] := by
  have hring := hc.ring
  have hlap := hc.lap
  rw [hw] at hring hlap
  refine ⟨hc.sized, ?_, fun _ => ?_⟩
  · show Ring c.mSize.toNat c.mAddr r.toNat c.mWriteOffset.toNat (past ++ [x])
    rw [hw, hr]
    exact consume_end hring hlap hstep
  · show Walk _ 0 [] r.toNat
    rw [hr]
    exact .nil 0

/-- The end of the record at `h`, as `consume_header` computes it. -/
def recordEnd (c : Channel) (h : HeaderPtr) : UInt32 :=
  h + alignSizeToCacheline (headerSize + sizeAt c.mAddr h)

/-- No addition wraps as long as the end lies in the buffer. -/
theorem recordEnd_of_le {h : HeaderPtr}
    (hle : h.toNat + alignUp (8 + (sizeAt c.mAddr h).toNat) ≤ c.mSize.toNat) :
    (recordEnd c h).toNat = h.toNat + alignUp (8 + (sizeAt c.mAddr h).toNat) := by
  have hlt := c.mSize.toNat_lt
  have hge := le_alignUp (8 + (sizeAt c.mAddr h).toNat)
  have hal := alignUp_aligned (8 + (sizeAt c.mAddr h).toNat)
  have hadd : (headerSize + sizeAt c.mAddr h).toNat = 8 + (sizeAt c.mAddr h).toNat := by
    rw [UInt32.toNat_add, headerSize_toNat]; omega
  rw [recordEnd, UInt32.toNat_add, alignSize_toNat _ (by omega), hadd]; omega

theorem recordEnd_toNat {h : HeaderPtr} {x : Slot} {b : Nat}
    (hstep : recordStep c.mSize.toNat c.mAddr h.toNat = some (x, b)) (hb : b ≤ c.mSize.toNat) :
    (recordEnd c h).toNat = b := by
  obtain ⟨_, _, _, _, rfl⟩ := recordStep_eq hstep
  exact recordEnd_of_le hb

/-- `consume_header` moves the read offset behind the first unread record. -/
theorem consumeHeader_spec {x : Slot} {b : Nat}
    (hstep : recordStep c.mSize.toNat c.mAddr c.mReadOffset.toNat = some (x, b))
    (hb : b ≤ c.mSize.toNat) :
      ∃ r', consumeHeader c c.mReadOffset = (.ok (), { c with mReadOffset := r' }) ∧
      r'.toNat = wrapEnd c.mSize.toNat b := by
  have hend := recordEnd_toNat hstep hb
  have hgt : ¬ recordEnd c c.mReadOffset > c.mSize := by
    simp only [gt_iff_lt, UInt32.lt_iff_toNat_lt]; omega
  by_cases hS : b = c.mSize.toNat
  · have heq : recordEnd c c.mReadOffset = c.mSize := UInt32.toNat_inj.mp (hend.trans hS)
    refine ⟨0, ?_, by rw [hS, wrapEnd_self]; rfl⟩
    rw [recordEnd] at hgt heq
    rw [heq] at hgt
    simp only [consumeHeader, verify_of_step rfl hstep, hgt, heq, ↓reduceIte,
      Bool.not_true, Bool.false_eq_true]
  · have heq : recordEnd c c.mReadOffset ≠ c.mSize := fun h => hS (hend.symm.trans (congrArg _ h))
    refine ⟨recordEnd c c.mReadOffset, ?_, by rw [hend, wrapEnd_of_ne hS]⟩
    rw [recordEnd] at hgt heq ⊢
    simp only [consumeHeader, verify_of_step rfl hstep, hgt, heq, ↓reduceIte,
      Bool.not_true, Bool.false_eq_true]

end Spec

/-! ## Sessions -/

structure Session where
  channel : Channel
  held : Option HeaderPtr
  published : List Record
  consumed : List Record

inductive Op where
  | write (id size : UInt32) (data : Nat → UInt8) : Op
  | readHeader : Op
  | consumeHeader : Op

/-- The record the reader finds at a header. -/
def recordAt (m : Memory) (h : HeaderPtr) : Record := ⟨idAt m h, dataAt m h⟩

theorem recordAt_of_step {S b : Nat} {m : Memory} {h : HeaderPtr} {x : Slot}
    (hstep : recordStep S m h.toNat = some (x, b)) : recordAt m h = x.record := by
  obtain ⟨_, _, _, rfl, _⟩ := recordStep_eq hstep
  rfl

/-- One complete call; there is no next session if the call throws, or if
`consume_header` is called without a header just returned. -/
def step (s : Session) : Op → Option Session
  | .write id size data =>
    match write s.channel id size (some data) with
    | (.ok (_, none), c) => some { s with
        channel := c
        published := s.published ++ (writtenSlots s.channel id size data).map Slot.record }
    | (.ok (_, some _), c) => some { s with channel := c }
    | (.error _, _) => none
  | .readHeader =>
    match readHeader s.channel with
    | (.ok h, c) => some { s with channel := c, held := h }
    | (.error _, _) => none
  | .consumeHeader =>
    match s.held with
    | none => none
    | some h =>
      match consumeHeader s.channel h with
      | (.ok (), c) => some { s with
          channel := c
          held := none
          consumed := s.consumed ++ [recordAt s.channel.mAddr h] }
      | (.error _, _) => none

/-- The state right after the factory has initialised the channel. -/
def Opened (size : UInt32) (s : Session) : Prop :=
  (∃ self raw, channelInitialize self size raw = (.ok (), s.channel)) ∧
    s.held = none ∧ s.published = [] ∧ s.consumed = []

/-- The invariant of a session: a well-formed ring, and a held header is its first record. -/
structure Inv (s : Session) (unread past : List Slot) : Prop where
  formed : Formed s.channel unread past
  small : s.channel.mSize.toNat < 2 ^ 31
  held : ∀ h, s.held = some h → h = s.channel.mReadOffset ∧
    s.channel.mReadOffset ≠ s.channel.mWriteOffset

theorem inv_opened {size : UInt32} {s : Session} (hsize : SegmentSize size)
    (h : Opened size s) : Inv s [] [] := by
  obtain ⟨⟨self, raw, hc⟩, hheld, _, _⟩ := h
  refine ⟨formed_of_init hsize.positive hsize.paged hc, ?_, by simp [hheld]⟩
  have := size_of_init hsize.positive hsize.paged hc
  have := hsize.small
  omega

theorem ne_of_unread {c : Channel} {unread past : List Slot} (hf : Formed c unread past)
    (h : unread ≠ []) : c.mReadOffset ≠ c.mWriteOffset :=
  fun he => h ((ring_nil_iff hf.ring).mpr (congrArg _ he))

theorem unread_of_ne {c : Channel} {unread past : List Slot} (hf : Formed c unread past)
    (h : c.mReadOffset ≠ c.mWriteOffset) : unread ≠ [] :=
  fun hn => h (UInt32.toNat_inj.mp ((ring_nil_iff hf.ring).mp hn))

/-- A held header stands at the first unread record. -/
theorem held_record {s : Session} {unread past : List Slot} (hi : Inv s unread past) {h : HeaderPtr}
    (hh : s.held = some h) :
    ∃ x rest, unread = x :: rest ∧ recordAt s.channel.mAddr h = x.record := by
  obtain ⟨rfl, hne⟩ := hi.held h hh
  obtain ⟨x, b, rest, hstep, _, _, hun, _⟩ := consume_ring hi.formed.ring
    (fun he => hne (UInt32.toNat_inj.mp he))
  exact ⟨x, rest, hun, recordAt_of_step hstep⟩

/-- The reader is about to free the last record of the buffer while `m_write_offset` is `m_size`. -/
def EmptiesAtEnd (s : Session) : Prop :=
  s.channel.mWriteOffset = s.channel.mSize ∧ ∃ h, s.held = some h ∧
    recordEnd s.channel h = s.channel.mSize

instance (u : Session) : Decidable (EmptiesAtEnd u) :=
  decidable_of_iff (u.channel.mWriteOffset = u.channel.mSize ∧
    u.held.any fun h => decide (recordEnd u.channel h = u.channel.mSize)) (by
      cases hheld : u.held <;> simp [EmptiesAtEnd, hheld])

section Steps

variable {s t : Session} {unread past : List Slot}

/-- A held header stays the first record when more records are published behind it. -/
theorem inv_publish (hi : Inv s unread past) {c : Channel} {e : UInt32} {new : List Slot}
    (hc : c = { s.channel with mAddr := c.mAddr, mWriteOffset := e })
    (hf : Formed c (unread ++ new) past) (published : List Record) :
    Inv { s with channel := c, published := published } (unread ++ new) past := by
  refine ⟨hf, by rw [hc]; exact hi.small, fun hd hh => ?_⟩
  obtain ⟨heq, hne⟩ := hi.held hd hh
  refine ⟨by rw [heq, hc], ne_of_unread hf ?_⟩
  have := unread_of_ne hi.formed hne
  simp [this]

/-- A write publishes its records behind the unread ones, or changes nothing. -/
theorem write_step (hi : Inv s unread past) {id size : UInt32} {data : Nat → UInt8}
    (h : step s (.write id size data) = some t) :
    t = s ∨ ∃ e m, t = { s with
        channel := { s.channel with mAddr := m, mWriteOffset := e }
        published := s.published ++ (writtenSlots s.channel id size data).map Slot.record } ∧
      Inv t (unread ++ writtenSlots s.channel id size data) past := by
  have hid : id ≠ 0 := by rintro rfl; simp [step, write] at h
  have hsize : size ≠ 0 := by rintro rfl; simp [step, write, hid] at h
  rcases write_spec hi.formed hi.small data hid hsize with
    ⟨_, hw⟩ | ⟨e, n, c', hw, _, _, _, hc', hf⟩
  · left
    simp only [step, hw, Option.some.injEq] at h
    exact h.symm
  · right
    simp only [step, hw, Option.some.injEq] at h
    refine ⟨e, c'.mAddr, by rw [← h, hc'], ?_⟩
    subst h
    exact inv_publish hi hc' hf _

theorem readHeader_step (hi : Inv s unread past) (h : step s .readHeader = some t) :
    t = { s with held := if s.channel.mReadOffset = s.channel.mWriteOffset then none
                         else some s.channel.mReadOffset } ∧ Inv t unread past := by
  have hr := readHeader_spec hi.formed
  simp only [step, hr, Option.some.injEq] at h
  subst h
  refine ⟨rfl, hi.formed, hi.small, ?_⟩
  intro hd hh
  dsimp only at hh
  split at hh
  · cases hh
  · rename_i hne
    exact ⟨(Option.some.inj hh).symm, hne⟩

/-- Consuming takes the first unread record, unless it empties the buffer at its end. -/
theorem consumeHeader_step (hi : Inv s unread past) (h : step s .consumeHeader = some t) :
    ∃ x rest, unread = x :: rest ∧ t.published = s.published ∧
      t.consumed = s.consumed ++ [x.record] ∧ t.channel.mSize = s.channel.mSize ∧
      t.channel.mWriteOffset = s.channel.mWriteOffset ∧
      (¬ EmptiesAtEnd s → ∃ past', Inv t rest past' ∧ ∀ y ∈ past', y = x ∨ y ∈ past) ∧
      (EmptiesAtEnd s → Inv t (past ++ [x]) [] ∧ rest = []) := by
  obtain ⟨hd, hheld⟩ : ∃ hd, s.held = some hd := by
    cases hh : s.held with
    | none => simp [step, hh] at h
    | some hd => exact ⟨hd, rfl⟩
  obtain ⟨rfl, hne⟩ := hi.held hd hheld
  obtain ⟨x, b, rest, hstep, hb, _, hun, hgo, hover⟩ :=
    consume_ring hi.formed.ring (fun he => hne (UInt32.toNat_inj.mp he))
  obtain ⟨r', hcons, hr'⟩ := consumeHeader_spec hstep hb
  have hend := recordEnd_toNat hstep hb
  have hrec := recordAt_of_step hstep
  have hempty : EmptiesAtEnd s ↔ s.channel.mWriteOffset.toNat = s.channel.mSize.toNat ∧
      b = s.channel.mSize.toNat := by
    rw [← hend, UInt32.toNat_inj, UInt32.toNat_inj]
    simp only [EmptiesAtEnd, hheld, Option.some.injEq, exists_eq_left']
  simp only [step, hheld, hcons, Option.some.injEq] at h
  subst h
  refine ⟨x, rest, hun, rfl, by rw [hrec], rfl, rfl, ?_, ?_⟩
  · intro hno
    have hring := hgo (fun hc => hno (hempty.mpr hc))
    obtain ⟨past', hlap, hmem⟩ := consume_lap hi.formed.ring hi.formed.lap hstep
    rw [← hr'] at hring hlap
    exact ⟨past', ⟨⟨hi.formed.sized, hring, hlap⟩, hi.small, by simp⟩, hmem⟩
  · intro hyes
    obtain ⟨hw, hbS⟩ := hempty.mp hyes
    have hr0 : r'.toNat = 0 := by rw [hr', hbS, wrapEnd_self]
    refine ⟨⟨formed_end hi.formed hw (hbS ▸ hstep) hr0, hi.small, by simp⟩, hover ⟨hw, hbS⟩⟩

/-- Every step keeps the session invariant. -/
theorem inv_step {op : Op} (hi : ∃ unread past, Inv s unread past) (h : step s op = some t) :
    ∃ unread past, Inv t unread past := by
  obtain ⟨unread, past, hi⟩ := hi
  cases op with
  | write id size data =>
    rcases write_step hi h with rfl | ⟨_, _, _, hi'⟩
    · exact ⟨_, _, hi⟩
    · exact ⟨_, _, hi'⟩
  | readHeader => exact ⟨_, _, (readHeader_step hi h).2⟩
  | consumeHeader =>
    obtain ⟨x, rest, _, _, _, _, _, hgo, hover⟩ := consumeHeader_step hi h
    by_cases he : EmptiesAtEnd s
    · exact ⟨_, _, (hover he).1⟩
    · obtain ⟨past', hi', _⟩ := hgo he
      exact ⟨_, _, hi'⟩

end Steps

end ShmIpcSession
