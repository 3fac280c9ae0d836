import ShmIpc.ChannelFifo

/-!
# The room a write finds

Sessions in which the writer may also change its threshold. In every state of
such a session a write either finds too little room and changes nothing, or it
takes what fits; `can_write` keeps its promise while the reader goes on unless
the write offset is parked at the end; and a write that does not fit at the end
of the buffer is always split.
-/
namespace ShmIpcRoom

open ByteMemory LabelledRun Walks ShmIpcChannel ShmIpcPlacement ShmIpcRing ShmIpcSession ShmIpcFifo

/-! ## Sessions with a threshold -/

inductive TunedOp where
  | call (op : Op) : TunedOp
  | setWriteThreshold (threshold : UInt32) : TunedOp

/-- The thresholds that an empty buffer can reach wherever its offsets stand. -/
def Reached (c : Channel) (threshold : UInt32) : Prop :=
  1 ≤ threshold.toNat ∧ threshold.toNat ≤ c.mSize.toNat - 80

instance (c : Channel) (threshold : UInt32) : Decidable (Reached c threshold) :=
  inferInstanceAs (Decidable (_ ∧ _))

def tunedStep (s : Session) : TunedOp → Option Session
  | .call op => step s op
  | .setWriteThreshold threshold =>
    if Reached s.channel threshold then some { s with
      channel := setWriteThreshold s.channel threshold }
    else none

theorem formed_threshold {c : Channel} {unread past : List Slot}
    (hf : Formed c unread past) {t : UInt32} (ht : Reached c t) :
    Formed (setWriteThreshold c t) unread past := by
  have hle := hf.sized.threshold_le
  have hr := ht.2
  exact ⟨⟨hf.sized.aligned, ht.1, show t.toNat + 80 ≤ c.mSize.toNat by omega⟩, hf.ring, hf.lap⟩

theorem inv_threshold {s : Session} {unread past : List Slot} (hi : Inv s unread past) {t : UInt32}
    (ht : Reached s.channel t) :
    Inv { s with channel := setWriteThreshold s.channel t } unread past :=
  ⟨formed_threshold hi.formed ht, hi.small, hi.held⟩

theorem inv_tunedStep {s t : Session} {op : TunedOp} (hi : ∃ unread past, Inv s unread past)
    (h : tunedStep s op = some t) : ∃ unread past, Inv t unread past := by
  cases op with
  | call op => exact inv_step hi h
  | setWriteThreshold threshold =>
    obtain ⟨unread, past, hi⟩ := hi
    simp only [tunedStep] at h
    split at h
    · rename_i ht
      cases h
      exact ⟨_, _, inv_threshold hi ht⟩
    · cases h

variable {size : UInt32} {s₀ s t : Session}

theorem inv_tuned {ops : List TunedOp} (hsize : SegmentSize size) (h₀ : Opened size s₀)
    (h : Run (ofFun tunedStep) s₀ ops s) : ∃ unread past, Inv s unread past :=
  h.invariant _ ⟨[], [], inv_opened hsize h₀⟩ fun _ _ _ => inv_tunedStep

/-! ## The result law -/

/-- The slots a reader of the channel is going to meet. -/
def Unread (c : Channel) (unread : List Slot) : Prop :=
  Layout c.mSize.toNat c.mAddr c.mReadOffset.toNat c.mWriteOffset.toNat unread

/-- `c'` is `c` with `n` bytes of the data published behind the unread records, in one or two
records, and with every byte of the unread ones as it was. -/
def Publishes (c c' : Channel) (id : UInt32) (data : Nat → UInt8) (n : Nat) : Prop :=
  c'.mReadOffset = c.mReadOffset ∧ ∃ unread new, Unread c unread ∧ Unread c' (unread ++ new) ∧
    Carries id data (new.map Slot.record) n ∧
    ∀ x ∈ unread, AgreeOn x.offset (x.offset + 8 + x.record.payload.length) c.mAddr c'.mAddr

/-- Too little room for the threshold, or as many bytes as there is room for. -/
def ResultLaw (c : Channel) : Prop :=
  ∀ id size data, id ≠ 0 → size ≠ 0 →
    let cap := capacity c.mSize.toNat c.mReadOffset.toNat c.mWriteOffset.toNat
    let least := min size.toNat c.mWriteThreshold.toNat
    (cap < least ∧ write c id size (some data) = (.ok (-1, some .EAGAIN), c)) ∨
    (least ≤ cap ∧ ∃ n c', write c id size (some data) = (.ok ((n : Nat), none), c') ∧
      n = min size.toNat cap ∧ least ≤ n ∧ n ≤ size.toNat ∧
      (size.toNat ≤ c.mWriteThreshold.toNat → n = size.toNat) ∧ Publishes c c' id data n)

/-- A write does not touch the records that are still to be read. -/
theorem write_unread {c : Channel} {unread past : List Slot} (hc : Formed c unread past)
    {id size : UInt32} (data : Nat → UInt8) (hid : id ≠ 0) (hsize : size ≠ 0) :
    ∀ x ∈ unread, AgreeOn x.offset (x.offset + 8 + x.record.payload.length) c.mAddr
      (write c id size (some data)).2.mAddr := by
  have hr := hc.ring
  have hpos : 0 < size.toNat := Nat.pos_of_ne_zero fun h => hsize (UInt32.toNat_inj.mp h)
  have hlaw := writeBody_law id data hc.sized c.mWriteOffset hr.read_aligned
    hr.read_lt hr.write_aligned hr.write_le hpos
  rcases hlaw with ⟨_, hbody⟩ | ⟨ws, e, n, hbody, _, _, hplace, _⟩
  · simp only [write, hid, hsize, hbody, ↓reduceIte]
    intro x _ a _ _
    rfl
  · simp only [write, hid, hsize, hbody, ↓reduceIte, Outcome.apply]
    exact unread_confined hr (ahead_refl _ _) hplace (applyAll_confined c.mAddr ws)

theorem resultLaw_of_formed {c : Channel} {unread past : List Slot} (hc : Formed c unread past)
    (hsmall : c.mSize.toNat < 2 ^ 31) : ResultLaw c := by
  intro id size data hid hsize cap least
  have hkept := write_unread hc data hid hsize
  rcases write_spec hc hsmall data hid hsize with
    ⟨hlt, hw⟩ | ⟨e, n, c', hw, hn, hmin, hcarry, hc', hf⟩
  · exact .inl ⟨hlt, hw⟩
  · right
    rw [hw] at hkept
    have hle : least ≤ min size.toNat cap := hn ▸ hmin
    refine ⟨by omega, n, c', hw, hn, hmin, by omega, fun h => by omega, by rw [hc'], unread,
      writtenSlots c id size data, hc.ring.layout, hf.ring.layout, hcarry, hkept⟩

/-- The result law of `Channel::write`, in every state a session can reach and for every
threshold. -/
theorem write_result_law {ops : List TunedOp} (hsize : SegmentSize size) (h₀ : Opened size s₀)
    (h : Run (ofFun tunedStep) s₀ ops s) {threshold : UInt32} (ht : Reached s.channel threshold) :
    ResultLaw (setWriteThreshold s.channel threshold) := by
  obtain ⟨unread, past, hi⟩ := inv_tuned hsize h₀ h
  exact resultLaw_of_formed (formed_threshold hi.formed ht) hi.small

theorem write_result_law_one_page :
    ∃ s, runFun tunedStep [.call (.write 7 100 (fun i => UInt8.ofNat i)), .setWriteThreshold 3952]
      onePage = some s ∧ ResultLaw (setWriteThreshold s.channel 1) := by
  have heval : (runFun tunedStep [.call (.write 7 100 (fun i => UInt8.ofNat i)),
      .setWriteThreshold 3952] onePage).map (fun s => decide (Reached s.channel 1)) =
      some true := by decide
  obtain ⟨s, hs, ht⟩ := Option.map_eq_some_iff.mp heval
  exact ⟨s, hs, write_result_law onePage_size onePage_opened (run_of_runFun hs)
    (of_decide_eq_true ht)⟩

/-! ## The promise of `can_write` -/

/-- `available_write` over the integers, where a difference can be negative. -/
def availableInt (S r w : Int) : Int :=
  if w < r then r - w - 64
  else if S - w ≥ 256 then
    if S - w + r ≤ 64 then 0 else S - w + r - 64
  else if r ≤ 64 then S - w
  else max (S - w) (r - 64)

theorem splitThreshold_toNat : splitThreshold.toNat = 256 := rfl

theorem stdMax_toNat (a b : UInt32) : (stdMax a b).toNat = max a.toNat b.toNat := by
  unfold stdMax
  split <;> simp only [UInt32.lt_iff_toNat_lt] at * <;> omega

/-- `available_write` over the naturals. -/
theorem availableWrite_toNat {c : Channel} {unread : List Slot}
    (hr : Ring c.mSize.toNat c.mAddr c.mReadOffset.toNat c.mWriteOffset.toNat unread) :
    (availableWrite c).toNat =
      if c.mWriteOffset.toNat < c.mReadOffset.toNat then
        c.mReadOffset.toNat - c.mWriteOffset.toNat - 64
      else if 256 ≤ c.mSize.toNat - c.mWriteOffset.toNat then
        c.mSize.toNat - c.mWriteOffset.toNat + c.mReadOffset.toNat - 64
      else max (c.mSize.toNat - c.mWriteOffset.toNat) (c.mReadOffset.toNat - 64) := by
  have hal := hr.read_aligned
  have hwal := hr.write_aligned
  have hle := hr.write_le
  have hS := c.mSize.toNat_lt
  have hsub {a b : UInt32} (h : b.toNat ≤ a.toNat) : (a - b).toNat = a.toNat - b.toNat :=
    UInt32.toNat_sub_of_le _ _ (UInt32.le_iff_toNat_le.mpr h)
  have htail := hsub hle
  by_cases hwr : c.mWriteOffset.toNat < c.mReadOffset.toNat
  · have hgap := hsub (Nat.le_of_lt hwr)
    have hline : cacheLineSize.toNat ≤ (c.mReadOffset - c.mWriteOffset).toNat := by
      rw [hgap, cacheLineSize_toNat]; omega
    simp only [availableWrite, UInt32.lt_iff_toNat_lt, hwr, ↓reduceIte]
    rw [hsub hline, hgap, cacheLineSize_toNat]
  · have hsum : (c.mSize - c.mWriteOffset + c.mReadOffset).toNat =
        c.mSize.toNat - c.mWriteOffset.toNat + c.mReadOffset.toNat := by
      rw [UInt32.toNat_add, htail]; omega
    simp only [availableWrite, UInt32.lt_iff_toNat_lt, hwr, ↓reduceIte, ge_iff_le,
      UInt32.le_iff_toNat_le, htail, hsum, splitThreshold_toNat, cacheLineSize_toNat]
    by_cases hsplit : 256 ≤ c.mSize.toNat - c.mWriteOffset.toNat
    · have hline : cacheLineSize.toNat ≤ (c.mSize - c.mWriteOffset + c.mReadOffset).toNat := by
        rw [hsum, cacheLineSize_toNat]; omega
      have hmore : ¬ c.mSize.toNat - c.mWriteOffset.toNat + c.mReadOffset.toNat ≤ 64 := by omega
      simp only [hsplit, hmore, ↓reduceIte]
      rw [hsub hline, hsum, cacheLineSize_toNat]
    · by_cases hhead : c.mReadOffset.toNat ≤ 64
      · simp only [hsplit, hhead, ↓reduceIte]
        rw [htail]; omega
      · simp only [hsplit, hhead, ↓reduceIte]
        rw [stdMax_toNat, htail, hsub (by rw [cacheLineSize_toNat]; omega), cacheLineSize_toNat]

/-- No subtraction in `available_write` wraps, and the estimate is no more than the buffer. -/
def EstimateSound (c : Channel) : Prop :=
  ((availableWrite c).toNat : Int) = availableInt c.mSize.toNat c.mReadOffset.toNat
    c.mWriteOffset.toNat ∧ availableWrite c ≤ c.mSize

theorem estimateSound_of_ring {c : Channel} {unread : List Slot}
    (hr : Ring c.mSize.toNat c.mAddr c.mReadOffset.toNat c.mWriteOffset.toNat unread) :
    EstimateSound c := by
  have hav := availableWrite_toNat hr
  have hal := hr.read_aligned
  have hwal := hr.write_aligned
  have hlt := hr.read_lt
  have hle := hr.write_le
  refine ⟨?_, ?_⟩
  · rw [hav, availableInt]
    repeat' split
    all_goals omega
  · rw [UInt32.le_iff_toNat_le, hav]
    repeat' split
    all_goals omega

/-- What `can_write` promises there is room for right now. -/
theorem room_of_canWrite {c : Channel} {unread : List Slot}
    (hr : Ring c.mSize.toNat c.mAddr c.mReadOffset.toNat c.mWriteOffset.toNat unread)
    (hsmall : c.mSize.toNat < 2 ^ 31) {n : UInt32} (hn : n ≤ c.mSize) (h : canWrite c n = true) :
    n.toNat ≤ capacity c.mSize.toNat c.mReadOffset.toNat c.mWriteOffset.toNat := by
  have hal := hr.read_aligned
  have hwal := hr.write_aligned
  have hlt := hr.read_lt
  have hle := hr.write_le
  rw [UInt32.le_iff_toNat_le] at hn
  have hsum : (headerSize + n).toNat = 8 + n.toNat := by
    rw [UInt32.toNat_add, headerSize_toNat]; omega
  have hge := le_alignUp (8 + n.toNat)
  have hup : alignUp (8 + n.toNat) ≤ 8 + n.toNat + 63 := by unfold alignUp; omega
  have hneed : (alignSizeToCacheline (headerSize + n) + cacheLineSize).toNat = alignUp
      (8 + n.toNat) + 64 := by
    rw [UInt32.toNat_add, alignSize_toNat _ (by omega), hsum, cacheLineSize_toNat]; omega
  have hroom : alignUp (8 + n.toNat) + 64 ≤ (availableWrite c).toNat := by
    rw [← hneed, ← UInt32.le_iff_toNat_le]
    exact of_decide_eq_true h
  rw [availableWrite_toNat hr] at hroom
  unfold capacity
  dsimp only
  split at hroom
  · repeat' split
    all_goals omega
  · split at hroom
    · repeat' split
      all_goals omega
    · repeat' split
      all_goals omega

/-- Room in front of the writer only grows when the reader advances. -/
theorem capacity_ahead {S r r' w : Nat} (ha : Ahead r r' w) (hr : r < S) (hw : w < S) :
    capacity S r w ≤ capacity S r' w := by
  unfold Ahead at ha
  unfold capacity
  dsimp only
  repeat' split
  all_goals omega

/-- The calls of the reader alone lead from `s` to `t`. -/
def Reads (s t : Session) : Prop :=
  ∃ ops, (∀ op ∈ ops, op = .readHeader ∨ op = .consumeHeader) ∧ Run (ofFun step) s ops t

/-- However far the reader goes on, the next write takes the whole block. -/
def KeepsPromise (s : Session) (n : UInt32) : Prop :=
  ∀ t, Reads s t → ∀ id data, id ≠ 0 → (write t.channel id n (some data)).1 = .ok
    ((n.toNat : Int), none)

/-- A consumed header leaves everything but the read offset, which advances. -/
theorem consume_ahead {unread past : List Slot} (hi : Inv s unread past)
    (hw : s.channel.mWriteOffset ≠ s.channel.mSize) (h : step s .consumeHeader = some t) :
    ∃ r, t.channel = { s.channel with mReadOffset := r } ∧
      Ahead s.channel.mReadOffset.toNat r.toNat s.channel.mWriteOffset.toNat := by
  obtain ⟨hd, hheld⟩ : ∃ hd, s.held = some hd := by
    cases hh : s.held with
    | none => simp [step, hh] at h
    | some hd => exact ⟨hd, rfl⟩
  obtain ⟨rfl, hne⟩ := hi.held hd hheld
  obtain ⟨x, b, rest, hstep, hb, hbw, _⟩ :=
    consume_ring hi.formed.ring (fun he => hne (UInt32.toNat_inj.mp he))
  obtain ⟨r, hcons, hr⟩ := consumeHeader_spec hstep hb
  simp only [step, hheld, hcons, Option.some.injEq] at h
  subst h
  refine ⟨r, rfl, ?_⟩
  rw [hr]
  exact ahead_consume (ahead_refl _ _) (recordStep_forward hstep) hbw hi.formed.ring.write_le
    (fun he => absurd (UInt32.toNat_inj.mp he.1) hw)

/-- While the write offset is not parked, the reader leaves the room that is there. -/
theorem room_reads {ops : List Op} (hi : ∃ unread past, Inv s unread past)
    (hops : ∀ op ∈ ops, op = .readHeader ∨ op = .consumeHeader) (h : Run (ofFun step) s ops t)
    (hw : s.channel.mWriteOffset ≠ s.channel.mSize) :
    (∃ unread past, Inv t unread past) ∧
      capacity s.channel.mSize.toNat s.channel.mReadOffset.toNat s.channel.mWriteOffset.toNat ≤
        capacity t.channel.mSize.toNat t.channel.mReadOffset.toNat
        t.channel.mWriteOffset.toNat := by
  induction h with
  | nil => exact ⟨hi, Nat.le_refl _⟩
  | cons hs _ ih =>
    have hi' := inv_step hi hs
    obtain ⟨unread, past, hi⟩ := hi
    have hwle := hi.formed.ring.write_le
    have hlt := hi.formed.ring.read_lt
    have hwlt := Nat.lt_of_le_of_ne hwle fun h => hw (UInt32.toNat_inj.mp h)
    have hops' := fun op hop => hops op (List.mem_cons_of_mem _ hop)
    rcases hops _ List.mem_cons_self with rfl | rfl
    · obtain ⟨rfl, _⟩ := readHeader_step hi hs
      exact ih hi' hops' hw
    · obtain ⟨r, hc, ha⟩ := consume_ahead hi hw hs
      obtain ⟨hu, hcap⟩ := ih hi' hops' (by rw [hc]; exact hw)
      refine ⟨hu, Nat.le_trans ?_ hcap⟩
      rw [hc]
      exact capacity_ahead ha hlt hwlt

/-- With the write offset parked at the end the reader starts over at the start of the buffer. -/
theorem reads_to_start {unread past : List Slot} (hi : Inv s unread past)
    (hw : s.channel.mWriteOffset = s.channel.mSize) :
    ∃ t, Reads s t ∧ (∃ unread past, Inv t unread past) ∧ t.channel.mReadOffset = 0 ∧
      t.channel.mWriteOffset = t.channel.mSize := by
  induction unread generalizing s past with
  | nil =>
    have hlt := hi.formed.ring.read_lt
    have heq := (ring_nil_iff hi.formed.ring).mp rfl
    rw [hw] at heq
    omega
  | cons x rest ih =>
    have hne := ne_of_unread hi.formed (List.cons_ne_nil x rest)
    have hread : step s .readHeader = some { s with held := some s.channel.mReadOffset } := by
      simp only [step, readHeader_spec hi.formed, hne, ↓reduceIte]
    obtain ⟨_, hi₁⟩ := readHeader_step hi hread
    obtain ⟨c, hc⟩ := (neverThrows_of_inv hi₁).consumes _ rfl
    obtain ⟨u, hu⟩ : ∃ u, step { s with held := some s.channel.mReadOffset } .consumeHeader =
        some u :=
      ⟨_, by simp only [step, hc]; rfl⟩
    obtain ⟨x', rest', heq, _, _, hS, hwu, hgo, hover⟩ := consumeHeader_step hi₁ hu
    obtain ⟨rfl, rfl⟩ := List.cons.inj heq
    have hwu' : u.channel.mWriteOffset = u.channel.mSize := by rw [hwu, hS]; exact hw
    have hboth : ∀ op ∈ [Op.readHeader, .consumeHeader], op = .readHeader ∨
      op = .consumeHeader := by simp
    by_cases he : EmptiesAtEnd { s with held := some s.channel.mReadOffset }
    · obtain ⟨hi', _⟩ := hover he
      have hlt := hi'.formed.ring.read_lt
      have hr0 := (hi'.formed.lap (by rw [hwu']; omega)).eq_of_nil
      exact ⟨u, ⟨_, hboth, .cons hread (.single hu)⟩, ⟨_, _, hi'⟩,
        UInt32.toNat_inj.mp hr0.symm, hwu'⟩
    · obtain ⟨past', hi', _⟩ := hgo he
      obtain ⟨t, ⟨ops, hops, hrun⟩, ht⟩ := ih hi' hwu'
      refine ⟨t, ⟨[.readHeader, .consumeHeader] ++ ops, ?_, .cons hread (.cons hu hrun)⟩, ht⟩
      intro op hop
      rcases List.mem_append.mp hop with hop | hop
      · exact hboth op hop
      · exact hops op hop

/-- `can_write` keeps its promise exactly if the write offset is not parked at the end. -/
theorem can_write_kept_iff {ops : List Op} (hsize : SegmentSize size) (h₀ : Opened size s₀)
    (h : Run (ofFun step) s₀ ops s) :
    EstimateSound s.channel ∧ ∀ n : UInt32, 0 < n → n ≤ s.channel.mSize →
      canWrite s.channel n = true →
        (KeepsPromise s n ↔ s.channel.mWriteOffset ≠ s.channel.mSize) := by
  obtain ⟨unread, past, hi⟩ := inv_run hsize h₀ h
  refine ⟨estimateSound_of_ring hi.formed.ring, ?_⟩
  intro n hpos hn hcan
  have hn0 : n ≠ 0 := by rintro rfl; exact absurd hpos (by decide)
  constructor
  · intro hkeep hw
    obtain ⟨t, hreads, ⟨unread', past', hit⟩, hr0, hwt⟩ := reads_to_start hi hw
    have hok := hkeep t hreads 1 (fun _ => 0) (by decide)
    have hcap : capacity t.channel.mSize.toNat t.channel.mReadOffset.toNat
        t.channel.mWriteOffset.toNat = 0 := by
      simp [capacity, hr0, hwt]
    rcases write_spec hit.formed hit.small (fun _ => 0) (by decide : (1 : UInt32) ≠ 0) hn0 with
      ⟨_, hwr⟩ | ⟨_, k, _, hwr, hk, hmin, _⟩
    · simp [hwr] at hok
    · have := hit.formed.sized.threshold_pos
      have : 0 < n.toNat := UInt32.lt_iff_toNat_lt.mp hpos
      omega
  · rintro hw t ⟨ops', hops, hrun⟩ id data hid
    have hroom := room_of_canWrite hi.formed.ring hi.small hn hcan
    obtain ⟨⟨unread', past', hit⟩, hcap⟩ := room_reads ⟨_, _, hi⟩ hops hrun hw
    rcases write_spec hit.formed hit.small data hid hn0 with ⟨hlt, _⟩ | ⟨_, k, _, hwr, hk, _⟩
    · omega
    · rw [hwr]
      simp only [Except.ok.injEq, Prod.mk.injEq, and_true]
      omega

theorem can_write_kept_one_page :
    ∃ s, runFun step [.write 7 100 (fun i => UInt8.ofNat i), .readHeader] onePage = some s ∧
      canWrite s.channel 3000 = true ∧ KeepsPromise s 3000 := by
  have heval : (runFun step [.write 7 100 (fun i => UInt8.ofNat i), .readHeader] onePage).map
    (fun s =>
      decide ((3000 : UInt32) ≤ s.channel.mSize ∧ canWrite s.channel 3000 = true ∧
        s.channel.mWriteOffset ≠ s.channel.mSize)) = some true := by decide
  obtain ⟨s, hs, hc⟩ := Option.map_eq_some_iff.mp heval
  obtain ⟨hn, hcan, hw⟩ := of_decide_eq_true hc
  have h := (can_write_kept_iff onePage_size onePage_opened (run_of_runFun hs)).2 3000
    (by decide) hn hcan
  exact ⟨s, hs, hcan, h.mpr hw⟩

/-- Two records fill the buffer and the first is consumed. There is room for 100 bytes at the
start, but once the reader has consumed the second record too the write is refused. -/
theorem promise_broken_by_reader :
    ∃ s, runFun step [.write 5 2000 (fun i => UInt8.ofNat i),
        .write 6 1976 (fun i => UInt8.ofNat i), .readHeader, .consumeHeader] onePage = some s ∧
        canWrite s.channel 100 = true ∧ ¬ KeepsPromise s 100 := by
  have heval :
      (runFun step [.write 5 2000 (fun i => UInt8.ofNat i), .write 6 1976 (fun i => UInt8.ofNat i),
        .readHeader, .consumeHeader] onePage).map
        (fun s => (canWrite s.channel 100,
          (runFun step [.readHeader, .consumeHeader] s).map fun t =>
          (write t.channel 7 100 (some fun i => UInt8.ofNat i)).1.toOption)) =
      some (true, some (some (-1, some .EAGAIN))) := by decide
  obtain ⟨s, hs, hc⟩ := Option.map_eq_some_iff.mp heval
  obtain ⟨hcan, ht⟩ := Prod.mk.inj hc
  obtain ⟨t, ht, hwr⟩ := Option.map_eq_some_iff.mp ht
  refine ⟨s, hs, hcan, fun hkeep => ?_⟩
  have hok := hkeep t ⟨_, by simp, run_of_runFun ht⟩ 7 (fun i => UInt8.ofNat i) (by decide)
  rw [hok] at hwr
  cases hwr

/-! ## Splitting at the end of the buffer -/

/-- Rounds of `read_header` and `consume_header` that hand out exactly `rs` before a null. -/
inductive Obtains : Channel → List Record → Prop where
  | done {c c' : Channel} : readHeader c = (.ok none, c') → Obtains c []
  | more {c c₁ c₂ : Channel} {h : HeaderPtr} {rs : List Record} :
      readHeader c = (.ok (some h), c₁) → consumeHeader c₁ h = (.ok (), c₂) → Obtains c₂ rs →
      Obtains c (recordAt c₁.mAddr h :: rs)

/-- The header at the read offset is that of the first unread record. -/
theorem front_record {c : Channel} {x : Slot} {unread past : List Slot}
    (hf : Formed c (x :: unread) past) : recordAt c.mAddr c.mReadOffset = x.record := by
  have hne := ne_of_unread hf (List.cons_ne_nil x unread)
  obtain ⟨y, b, rest, hstep, _, _, heq, _⟩ := consume_ring hf.ring
    (fun he => hne (UInt32.toNat_inj.mp he))
  obtain ⟨rfl, rfl⟩ := List.cons.inj heq
  obtain ⟨_, _, _, rfl, _⟩ := recordStep_eq hstep
  rfl

/-- A write offset short of the end is met after exactly the unread records. -/
theorem obtains_of_formed {c : Channel} {unread past : List Slot} (hf : Formed c unread past)
    (hw : c.mWriteOffset ≠ c.mSize) : Obtains c (unread.map Slot.record) := by
  induction unread generalizing c past with
  | nil =>
    have hread := readHeader_spec hf
    have heq : c.mReadOffset = c.mWriteOffset := UInt32.toNat_inj.mp ((ring_nil_iff hf.ring).mp rfl)
    rw [if_pos heq] at hread
    exact .done hread
  | cons x unread ih =>
    obtain ⟨r, past', hread, hcons, hgo, _⟩ := drain_round hf
    rw [List.map_cons, ← front_record hf]
    exact .more hread hcons (ih (hgo hw) hw)

/-- The policy of `channel.h` for a write that does not fit at the end of the buffer, over the
records it puts down. -/
def SplitOrWrap (c : Channel) (new : List Slot) : Prop :=
  if splitThreshold ≤ c.mSize - c.mWriteOffset then
    ∃ x y, new = [x, y] ∧ x.record.id = y.record.id ∧ x.offset = c.mWriteOffset.toNat ∧
      x.offset + 8 + x.record.payload.length = c.mSize.toNat ∧ y.offset = 0
  else ∃ y, new = [y] ∧ y.offset = 0

/-- The reader goes on to obtain the accepted bytes in order, behind the records it has not read
yet. -/
def Obtained (c c' : Channel) (id : UInt32) (data : Nat → UInt8) (new : List Slot)
    (n : Nat) : Prop :=
  ∃ unread, Unread c unread ∧ Obtains c' ((unread ++ new).map Slot.record) ∧
    Carries id data (new.map Slot.record) n

theorem finishWrite_writes (mSize start id size : UInt32) (data : Nat → UInt8)
    (ws : List HeaderWrite) (e first second : UInt32) :
    ws <+: (finishWrite mSize start id size data ws e first second).1 := by
  unfold finishWrite
  split
  rename_i ws' _ heq
  have hpre : ws <+: ws' := by
    split at heq
    · cases heq; exact List.prefix_append _ _
    · cases heq; exact List.prefix_refl _
  repeat' split
  all_goals exact hpre

/-- A write behind the reader that does not fit at the end first fills the end completely. -/
theorem writeBody_first {mSize t start old id size : UInt32} {data : Nat → UInt8} {h : HeaderWrite}
    {ws : List HeaderWrite} (hle : start.toNat ≤ old.toNat) (hlt : old.toNat < mSize.toNat)
    (h64 : mSize.toNat - old.toNat ≥ 64) (hbig : mSize.toNat - old.toNat < 8 + size.toNat)
    (hbody : (writeBody mSize t start old id size data).1 = h :: ws) :
    h.size.toNat + 8 = mSize.toNat - old.toNat := by
  have hpark : old ≠ mSize := by rintro rfl; omega
  have hge : old ≥ start := by simp only [ge_iff_le, UInt32.le_iff_toNat_le]; exact hle
  have hsub : (mSize - old).toNat = mSize.toNat - old.toNat :=
    UInt32.toNat_sub_of_le _ _ (by simp only [UInt32.le_iff_toNat_le]; omega)
  have hfirst : (stdMin size (dataSize (mSize - old))).toNat + 8 = mSize.toNat - old.toNat := by
    rw [stdMin_toNat, dataSize_toNat, hsub, if_pos (by omega)]
    omega
  have hhead {rest : List HeaderWrite} {e second : UInt32}
      (hf : (finishWrite mSize start id size data
        [(writeToHeader id old (stdMin size (dataSize (mSize - old))) data).1] e
          (stdMin size (dataSize (mSize - old))) second).1 = h :: rest) :
      h.size.toNat + 8 = mSize.toNat - old.toNat := by
    have hpre := finishWrite_writes mSize start id size data
      [(writeToHeader id old (stdMin size (dataSize (mSize - old))) data).1] e
      (stdMin size (dataSize (mSize - old))) second
    rw [hf] at hpre
    obtain ⟨_, hcons⟩ := hpre
    obtain ⟨rfl, _⟩ := List.cons.inj hcons
    exact hfirst
  rw [writeBody, if_neg hpark] at hbody
  split at hbody
  · cases hbody
  · rw [placeWrite, if_pos hge] at hbody
    dsimp only at hbody
    split at hbody
    · split at hbody <;> cases hbody
    · split at hbody
      · split at hbody
        · cases hbody
          exact hfirst
        · exact hhead hbody
      · exact hhead hbody

/-- An accepted write behind the reader that does not fit at the end is split, and its second
record ends in front of the reader. -/
theorem written_split {c : Channel} {unread past : List Slot} (hc : Formed c unread past)
    {id size : UInt32} {data : Nat → UInt8} {r : WriteResult} {c' : Channel} (hsize : size ≠ 0)
    (hr : 128 ≤ c.mReadOffset.toNat) (hle : c.mReadOffset.toNat ≤ c.mWriteOffset.toNat)
    (hlt : c.mWriteOffset.toNat < c.mSize.toNat)
    (hbig : c.mSize.toNat - c.mWriteOffset.toNat < 8 + size.toNat)
    (hw : write c id size (some data) = (.ok r, c')) (hok : r.2 = none) :
    (∃ x y, writtenSlots c id size data = [x, y] ∧ x.record.id = y.record.id ∧
      x.offset = c.mWriteOffset.toNat ∧ x.offset + 8 + x.record.payload.length = c.mSize.toNat ∧
        y.offset = 0) ∧ c'.mWriteOffset ≠ c'.mSize := by
  have hring := hc.ring
  have hS := hring.size_aligned
  have hwal := hring.write_aligned
  have hrS := hring.read_lt
  have hpos : 0 < size.toNat := Nat.pos_of_ne_zero fun h => hsize (UInt32.toNat_inj.mp h)
  have hid : id ≠ 0 := by rintro rfl; simp [write] at hw
  have hcap : capacity c.mSize.toNat c.mReadOffset.toNat c.mWriteOffset.toNat =
      (c.mSize.toNat - c.mWriteOffset.toNat - 8) + (c.mReadOffset.toNat - 72) := by
    rw [capacity, if_pos ⟨hle, hlt⟩, if_pos hr]
  rcases writeBody_law id data hc.sized c.mWriteOffset hring.read_aligned hrS hwal
    hring.write_le hpos with
    ⟨_, hbody⟩ | ⟨ws, e, n, hbody, hn, _, hplace, hcarry⟩
  · simp only [write, hid, hsize, hbody, ↓reduceIte, Outcome.apply, Prod.mk.injEq,
      Except.ok.injEq] at hw
    rw [← hw.1] at hok
    cases hok
  · have hfirst {h : HeaderWrite} {rest : List HeaderWrite} (hws : ws = h :: rest) :
        h.size.toNat + 8 = c.mSize.toNat - c.mWriteOffset.toNat :=
      writeBody_first hle hlt (by omega) hbig (by rw [hbody, hws])
    have hslots : writtenSlots c id size data = ws.map slot := by rw [writtenSlots, hbody]
    simp only [write, hid, hsize, hbody, ↓reduceIte, Outcome.apply, Prod.mk.injEq,
      Except.ok.injEq] at hw
    rw [hslots, ← hw.2]
    generalize hend : e.toNat = p at hplace
    cases hplace with
    | tail h _ _ _ _ =>
      have hlen := congrArg List.length hcarry.bytes
      simp only [List.map_cons, List.map_nil, List.flatMap_cons, List.flatMap_nil,
        List.append_nil, record, firstBytes, List.length_map, List.length_range] at hlen
      have := hfirst rfl
      omega
    | gap h hlt' _ _ _ => omega
    | parked h _ heq _ _ _ => omega
    | split h₁ h₂ _ _ ho₁ hf₁ _ ho₂ _ hgap =>
      have hids := hcarry.ids
      simp only [List.map_cons, List.map_nil, List.mem_cons, List.not_mem_nil,
        or_false, forall_eq_or_imp, forall_eq] at hids
      refine ⟨⟨slot h₁, slot h₂, rfl, hids.1.trans hids.2.symm, ho₁, ?_, ho₂⟩, ?_⟩
      · have := hfirst rfl
        simp only [slot, record, firstBytes, List.length_map, List.length_range]
        omega
      · intro he
        have he' : e.toNat = c.mSize.toNat := congrArg UInt32.toNat he
        omega

/-- A write that does not fit at the end of the buffer follows the policy of `channel.h` exactly if
at least `split_threshold` bytes are left there; the reader obtains its bytes in any case. -/
theorem split_or_wrap_iff {ops : List TunedOp} (hsize : SegmentSize size) (h₀ : Opened size s₀)
    (h : Run (ofFun tunedStep) s₀ ops s) (hr : 2 * cacheLineSize ≤ s.channel.mReadOffset)
    (hle : s.channel.mReadOffset ≤ s.channel.mWriteOffset)
    (hlt : s.channel.mWriteOffset < s.channel.mSize) {id bytes : UInt32} {data : Nat → UInt8}
    {n : Nat} {c' : Channel}
    (hw : write s.channel id bytes (some data) = (.ok ((n : Int), none), c'))
    (hbig : s.channel.mSize.toNat - s.channel.mWriteOffset.toNat < headerSize.toNat + bytes.toNat) :
    (SplitOrWrap s.channel (writtenSlots s.channel id bytes data) ∧
        Obtained s.channel c' id data (writtenSlots s.channel id bytes data) n ↔
      splitThreshold ≤ s.channel.mSize - s.channel.mWriteOffset) ∧
    Obtained s.channel c' id data (writtenSlots s.channel id bytes data) n := by
  obtain ⟨unread, past, hi⟩ := inv_tuned hsize h₀ h
  have hid : id ≠ 0 := by rintro rfl; simp [write] at hw
  have hbytes : bytes ≠ 0 := by rintro rfl; simp [write, hid] at hw
  obtain ⟨hsplit, hpark⟩ := written_split hi.formed hbytes (UInt32.le_iff_toNat_le.mp hr)
    (UInt32.le_iff_toNat_le.mp hle) (UInt32.lt_iff_toNat_lt.mp hlt) hbig hw rfl
  have hobt : Obtained s.channel c' id data (writtenSlots s.channel id bytes data) n := by
    rcases write_spec hi.formed hi.small data hid hbytes with
      ⟨_, hw'⟩ | ⟨_, k, _, hw', _, _, hcarry, _, hf⟩
    · rw [hw'] at hw
      simp at hw
    · rw [hw'] at hw
      simp only [Prod.mk.injEq, Except.ok.injEq, and_true, Int.natCast_inj] at hw
      obtain ⟨rfl, rfl⟩ := hw
      exact ⟨unread, hi.formed.ring.layout, obtains_of_formed hf hpark, hcarry⟩
  refine ⟨⟨?_, ?_⟩, hobt⟩
  · rintro ⟨hpol, _⟩
    by_contra hno
    rw [SplitOrWrap, if_neg hno] at hpol
    obtain ⟨y, hy, _⟩ := hpol
    obtain ⟨_, _, hxy, _⟩ := hsplit
    rw [hxy] at hy
    cases hy
  · intro htail
    exact ⟨by rw [SplitOrWrap, if_pos htail]; exact hsplit, hobt⟩

theorem split_or_wrap_one_page :
    ∃ s c', runFun tunedStep [.call (.write 1 1016 (fun i => UInt8.ofNat i)),
        .call (.write 2 2744 (fun i => UInt8.ofNat i)), .call .readHeader, .call .consumeHeader]
        onePage = some s ∧
      write s.channel 3 300 (some fun i => UInt8.ofNat i) = (.ok (300, none), c') ∧
      SplitOrWrap s.channel (writtenSlots s.channel 3 300 fun i => UInt8.ofNat i) := by
  have heval : (runFun tunedStep [.call (.write 1 1016 (fun i => UInt8.ofNat i)),
      .call (.write 2 2744 (fun i => UInt8.ofNat i)), .call .readHeader, .call .consumeHeader]
        onePage).map (fun s =>
        (decide (2 * cacheLineSize ≤ s.channel.mReadOffset ∧
          s.channel.mReadOffset ≤ s.channel.mWriteOffset ∧
          s.channel.mWriteOffset < s.channel.mSize ∧
          s.channel.mSize.toNat - s.channel.mWriteOffset.toNat <
            headerSize.toNat + (300 : UInt32).toNat ∧
          splitThreshold ≤ s.channel.mSize - s.channel.mWriteOffset),
        (write s.channel 3 300 (some fun i => UInt8.ofNat i)).1.toOption)) =
      some (true, some (300, none)) := by decide
  obtain ⟨s, hs, hc⟩ := Option.map_eq_some_iff.mp heval
  obtain ⟨hc, hres⟩ := Prod.mk.inj hc
  obtain ⟨hr, hle, hlt, hbig, htail⟩ := of_decide_eq_true hc
  obtain ⟨c', hw⟩ : ∃ c', write s.channel 3 300 (some fun i => UInt8.ofNat i) =
      (.ok (300, none), c') := by
    cases hw : write s.channel 3 300 (some fun i => UInt8.ofNat i) with
    | mk res c' =>
      rw [hw] at hres
      cases res with
      | error _ => cases hres
      | ok v => exact ⟨c', by rw [Option.some.inj hres]⟩
  have h := (split_or_wrap_iff onePage_size onePage_opened (run_of_runFun hs) hr hle hlt hw hbig).1
  exact ⟨s, c', hs, hw, (h.mpr htail).1⟩

/-- With 192 bytes left at the end, a write of 200 bytes puts 184 of them there. -/
theorem short_tail_split :
    ∃ s, runFun tunedStep [.call (.write 1 1016 (fun i => UInt8.ofNat i)),
        .call (.write 2 2808 (fun i => UInt8.ofNat i)), .call .readHeader, .call .consumeHeader]
          onePage = some s ∧
      2 * cacheLineSize ≤ s.channel.mReadOffset ∧ s.channel.mReadOffset ≤ s.channel.mWriteOffset ∧
      s.channel.mWriteOffset < s.channel.mSize ∧
      s.channel.mSize.toNat - s.channel.mWriteOffset.toNat <
        headerSize.toNat + (200 : UInt32).toNat ∧
      (write s.channel 3 200 (some fun i => UInt8.ofNat i)).1.toOption = some (200, none) ∧
      ¬ SplitOrWrap s.channel (writtenSlots s.channel 3 200 fun i => UInt8.ofNat i) := by
  have heval : (runFun tunedStep [.call (.write 1 1016 (fun i => UInt8.ofNat i)),
      .call (.write 2 2808 (fun i => UInt8.ofNat i)), .call .readHeader, .call .consumeHeader]
        onePage).map (fun s =>
        (decide (2 * cacheLineSize ≤ s.channel.mReadOffset ∧
          s.channel.mReadOffset ≤ s.channel.mWriteOffset ∧
          s.channel.mWriteOffset < s.channel.mSize ∧
          s.channel.mSize.toNat - s.channel.mWriteOffset.toNat <
            headerSize.toNat + (200 : UInt32).toNat ∧
          ¬ splitThreshold ≤ s.channel.mSize - s.channel.mWriteOffset),
        (write s.channel 3 200 (some fun i => UInt8.ofNat i)).1.toOption,
        (writtenSlots s.channel 3 200 fun i => UInt8.ofNat i).map Slot.offset)) =
      some (true, some (200, none), [3840, 0]) := by decide
  obtain ⟨s, hs, hc⟩ := Option.map_eq_some_iff.mp heval
  obtain ⟨hc, hres, hoffs⟩ : _ ∧ _ ∧ _ := by simpa only [Prod.mk.injEq] using hc
  obtain ⟨hr, hle, hlt, hbig, htail⟩ := of_decide_eq_true hc
  refine ⟨s, hs, hr, hle, hlt, hbig, hres, fun hpol => ?_⟩
  rw [SplitOrWrap, if_neg htail] at hpol
  obtain ⟨y, hy, _⟩ := hpol
  rw [hy] at hoffs
  exact absurd (congrArg List.length hoffs) (by simp)

end ShmIpcRoom
