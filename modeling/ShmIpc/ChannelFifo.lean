import ShmIpc.ChannelSession

/-!
# Order, drainage and the dead throws of a channel

The three results about sessions: the ring is well formed after every run and
no call throws; the consumed records are a prefix of the published ones as long
as the reader never empties the buffer at its very end; and draining stops
exactly when the write offset is not parked there.
-/
namespace ShmIpcFifo

open LabelledRun Walks ShmIpcChannel ShmIpcPlacement ShmIpcRing ShmIpcSession

variable {size : UInt32} {s₀ s t : Session} {ops : List Op}

/-- A session over one page, with a segment full of arbitrary bytes. -/
def onePage : Session :=
  ⟨(channelInitialize 4096 4096 ⟨7, 7, 7, 7, 7, fun a => UInt8.ofNat (a * a)⟩).2, none, [], []⟩

theorem onePage_size : SegmentSize 4096 := ⟨by decide, by decide, by decide⟩

theorem onePage_opened : Opened 4096 onePage := ⟨⟨4096, _, rfl⟩, rfl, rfl, rfl⟩

theorem inv_run (hsize : SegmentSize size) (h₀ : Opened size s₀) (h : Run (ofFun step) s₀ ops s) :
    ∃ unread past, Inv s unread past :=
  h.invariant _ ⟨[], [], inv_opened hsize h₀⟩ fun _ _ _ => inv_step

/-! ## The ring invariant -/

/-- Aligned offsets and a walk over sound headers that lands on the write offset. -/
structure WellFormed (c : Channel) : Prop where
  read_aligned : c.mReadOffset % cacheLineSize = 0
  write_aligned : c.mWriteOffset % cacheLineSize = 0
  read_lt : c.mReadOffset < c.mSize
  write_le : c.mWriteOffset ≤ c.mSize
  line_free : c.mWriteOffset < c.mReadOffset → cacheLineSize ≤ c.mReadOffset - c.mWriteOffset
  straight : c.mReadOffset ≤ c.mWriteOffset → ∃ xs,
    Walk (recordStep c.mSize.toNat c.mAddr) c.mReadOffset.toNat xs c.mWriteOffset.toNat
  around : c.mWriteOffset < c.mReadOffset → ∃ xs ys,
    Walk (recordStep c.mSize.toNat c.mAddr) c.mReadOffset.toNat xs c.mSize.toNat ∧
    Walk (recordStep c.mSize.toNat c.mAddr) 0 ys c.mWriteOffset.toNat

/-- No admissible next call throws. -/
structure NeverThrows (s : Session) : Prop where
  writes : ∀ id size data, id ≠ 0 → size ≠ 0 → ∃ r c, write s.channel id size
    (some data) = (.ok r, c)
  reads : ∃ h c, readHeader s.channel = (.ok h, c)
  consumes : ∀ h, s.held = some h → ∃ c, consumeHeader s.channel h = (.ok (), c)

theorem wellFormed_of_formed {c : Channel} {unread past : List Slot} (hf : Formed c unread past) :
    WellFormed c := by
  have hr := hf.ring
  have hmod (x : UInt32) (h : x.toNat % 64 = 0) : x % cacheLineSize = 0 := by
    apply UInt32.toNat_inj.mp
    rw [UInt32.toNat_mod]
    exact h
  refine ⟨hmod _ hr.read_aligned, hmod _ hr.write_aligned, UInt32.lt_iff_toNat_lt.mpr hr.read_lt,
    UInt32.le_iff_toNat_le.mpr hr.write_le, ?_, ?_, ?_⟩
  · intro hlt
    have hw := hr.write_aligned
    have hra := hr.read_aligned
    rw [UInt32.lt_iff_toNat_lt] at hlt
    have hle : c.mWriteOffset ≤ c.mReadOffset := UInt32.le_iff_toNat_le.mpr (by omega)
    rw [UInt32.le_iff_toNat_le, UInt32.toNat_sub_of_le _ _ hle, cacheLineSize_toNat]
    omega
  · intro hle
    rw [UInt32.le_iff_toNat_le] at hle
    cases hr.layout with
    | flat _ hw => exact ⟨_, hw⟩
    | wrapped hlt _ _ => omega
  · intro hlt
    rw [UInt32.lt_iff_toNat_lt] at hlt
    cases hr.layout with
    | flat hle _ => omega
    | wrapped _ ht hh => exact ⟨_, _, ht, hh⟩

theorem neverThrows_of_inv {unread past : List Slot} (hi : Inv s unread past) : NeverThrows s := by
  refine ⟨?_, ⟨_, _, readHeader_spec hi.formed⟩, ?_⟩
  · intro id size data hid hsize
    rcases write_spec hi.formed hi.small data hid hsize with ⟨_, hw⟩ | ⟨_, _, _, hw, _⟩
    · exact ⟨_, _, hw⟩
    · exact ⟨_, _, hw⟩
  · intro h hh
    obtain ⟨rfl, hne⟩ := hi.held h hh
    obtain ⟨_, _, _, hstep, hb, _⟩ := consume_ring hi.formed.ring
      (fun he => hne (UInt32.toNat_inj.mp he))
    obtain ⟨_, hc, _⟩ := consumeHeader_spec hstep hb
    exact ⟨_, hc⟩

/-- The records tile the ring in every state of every session, so none of the internal
errors behind the argument checks is reachable. -/
theorem records_tile_ring (hsize : SegmentSize size) (h₀ : Opened size s₀)
    (h : Run (ofFun step) s₀ ops s) : WellFormed s.channel ∧ NeverThrows s := by
  obtain ⟨unread, past, hi⟩ := inv_run hsize h₀ h
  exact ⟨wellFormed_of_formed hi.formed, neverThrows_of_inv hi⟩

theorem records_tile_one_page :
    ∃ s, runFun step [.write 7 100 (fun i => UInt8.ofNat i), .readHeader, .consumeHeader]
      onePage = some s ∧ WellFormed s.channel ∧ NeverThrows s := by
  have hsome : (runFun step [.write 7 100 (fun i => UInt8.ofNat i), .readHeader, .consumeHeader]
      onePage).isSome := by decide
  obtain ⟨s, hs⟩ := Option.isSome_iff_exists.mp hsome
  exact ⟨s, hs, records_tile_ring onePage_size onePage_opened (run_of_runFun hs)⟩

/-! ## Exactly once, in order -/

/-- The reader does not free the last record of the buffer while `m_write_offset` is `m_size`. -/
def Admitted (s : Session) (op : Op) : Prop := op = .consumeHeader → ¬ EmptiesAtEnd s

/-- The unread records are what was published and not yet consumed. -/
def Queued (s : Session) (unread : List Slot) : Prop :=
  s.published = s.consumed ++ unread.map Slot.record

theorem queued_step {op : Op} (hi : ∃ unread past, Inv s unread past ∧ Queued s unread)
    (h : guarded Admitted (ofFun step) s op t) :
    ∃ unread past, Inv t unread past ∧ Queued t unread := by
  obtain ⟨unread, past, hi, hq⟩ := hi
  obtain ⟨hok, h⟩ := h
  cases op with
  | write id size data =>
    rcases write_step hi h with rfl | ⟨e, m, rfl, hi'⟩
    · exact ⟨_, _, hi, hq⟩
    · refine ⟨_, _, hi', ?_⟩
      have hq' : s.published = s.consumed ++ unread.map Slot.record := hq
      simp only [Queued, hq', List.map_append, List.append_assoc]
  | readHeader =>
    obtain ⟨rfl, hi'⟩ := readHeader_step hi h
    exact ⟨_, _, hi', hq⟩
  | consumeHeader =>
    obtain ⟨x, rest, rfl, hpub, hcon, _, _, hgo, _⟩ := consumeHeader_step hi h
    obtain ⟨past', hi', _⟩ := hgo (hok rfl)
    refine ⟨_, _, hi', ?_⟩
    rw [Queued, hpub, hcon, List.append_assoc]
    exact hq

theorem queued_run (hsize : SegmentSize size) (h₀ : Opened size s₀)
    (h : Run (guarded Admitted (ofFun step)) s₀ ops s) :
    ∃ unread past, Inv s unread past ∧ Queued s unread := by
  refine h.invariant _ ⟨[], [], inv_opened hsize h₀, ?_⟩ fun _ _ _ => queued_step
  rw [Queued, h₀.2.2.1, h₀.2.2.2]
  rfl

/-- A call of `write` publishes nothing and reports `EAGAIN`, or it publishes one or two records
of its id that together carry the first `n` bytes of its data, where `n` is its result. -/
def PublishesPrefix (s : Session) : Prop :=
  ∀ id size data t, step s (.write id size data) = some t →
    (t = s ∧ (write s.channel id size (some data)).1 = .ok (-1, some .EAGAIN)) ∨
    ∃ n : Nat, ∃ rs, (write s.channel id size (some data)).1 = .ok ((n : Int), none) ∧
      t.published = s.published ++ rs ∧ Carries id data rs n

theorem publishesPrefix_of_inv {unread past : List Slot} (hi : Inv s unread past) :
    PublishesPrefix s := by
  intro id size data t h
  have hid : id ≠ 0 := by rintro rfl; simp [step, write] at h
  have hsize : size ≠ 0 := by rintro rfl; simp [step, write, hid] at h
  rcases write_spec hi.formed hi.small data hid hsize with
    ⟨_, hw⟩ | ⟨e, n, c', hw, _, _, hcarry, _, _⟩
  · left
    simp only [step, hw, Option.some.injEq] at h
    exact ⟨h.symm, by rw [hw]⟩
  · right
    simp only [step, hw, Option.some.injEq] at h
    exact ⟨n, _, by rw [hw], by rw [← h], hcarry⟩

/-- After the reader has emptied the buffer at its end, `read_header` hands out the first
record of the lap once more. -/
theorem stale_record {unread past : List Slot} (hi : Inv s unread past) (hq : Queued s unread)
    (he : EmptiesAtEnd s) (h : step s .consumeHeader = some t) :
    ∃ u v, step t .readHeader = some u ∧ step u .consumeHeader = some v ∧
    ¬ v.consumed <+: v.published := by
  obtain ⟨x, rest, rfl, hpub, hcon, _, _, _, hover⟩ := consumeHeader_step hi h
  obtain ⟨hi', rfl⟩ := hover he
  have hdone : t.published = t.consumed := by rw [hpub, hcon]; exact hq
  have hne : t.channel.mReadOffset ≠ t.channel.mWriteOffset := ne_of_unread hi'.formed (by simp)
  have hread := readHeader_spec hi'.formed
  rw [if_neg hne] at hread
  have hu : step t .readHeader = some { t with held := some t.channel.mReadOffset } := by
    simp only [step, hread]
  obtain ⟨_, hiu⟩ := readHeader_step hi' hu
  obtain ⟨c, hc⟩ := (neverThrows_of_inv hiu).consumes _ rfl
  have hv : step { t with held := some t.channel.mReadOffset } .consumeHeader = some
      ⟨c, none, t.published, t.consumed ++ [recordAt t.channel.mAddr t.channel.mReadOffset]⟩ := by
    simp only [step, hc]
  refine ⟨_, _, hu, hv, ?_⟩
  intro hpre
  have hlen := hpre.length_le
  simp only [hdone, List.length_append, List.length_singleton] at hlen
  omega

/-- Exactly-once FIFO delivery. In every session that never empties the buffer at its end the
consumed records are a prefix of the published ones; the first step against this
condition makes the reader receive a record twice. -/
theorem consumed_prefix_published (hsize : SegmentSize size) (h₀ : Opened size s₀)
    (h : Run (guarded Admitted (ofFun step)) s₀ ops s) :
    s.consumed <+: s.published ∧ PublishesPrefix s ∧
      ∀ t, EmptiesAtEnd s → step s .consumeHeader = some t →
        ∃ u v, step t .readHeader = some u ∧ step u .consumeHeader = some v ∧
        ¬ v.consumed <+: v.published := by
  obtain ⟨unread, past, hi, hq⟩ := queued_run hsize h₀ h
  exact ⟨⟨_, hq.symm⟩, publishesPrefix_of_inv hi, fun t he ht => stale_record hi hq he ht⟩

instance (s : Session) : ∀ op, Decidable (Admitted s op)
  | .consumeHeader => decidable_of_iff (¬ EmptiesAtEnd s) (by simp [Admitted])
  | .write .. | .readHeader => .isTrue fun h => by cases h

/-- Two records, of which the reader has consumed the first and holds the second. -/
theorem consumed_prefix_one_page :
    ∃ s, Run (guarded Admitted (ofFun step)) onePage [.write 7 100 (fun i => UInt8.ofNat i),
        .write 9 50 (fun _ => 1), .readHeader, .consumeHeader, .readHeader] s ∧
      s.published.length = 2 ∧ s.consumed.length = 1 ∧ s.consumed <+: s.published ∧
      PublishesPrefix s := by
  have heval : (runFun (guardFun Admitted step) [.write 7 100 (fun i => UInt8.ofNat i),
      .write 9 50 (fun _ => 1), .readHeader, .consumeHeader, .readHeader] onePage).map
        (fun s => (s.published.length, s.consumed.length)) = some (2, 1) := by decide
  obtain ⟨s, hs, hlengths⟩ := Option.map_eq_some_iff.mp heval
  obtain ⟨hpublished, hconsumed⟩ := Prod.mk.inj hlengths
  have hrun := run_of_guardFun hs
  have h := consumed_prefix_published onePage_size onePage_opened hrun
  exact ⟨s, hrun, hpublished, hconsumed, h.1, h.2.1⟩

/-- The record of 4024 bytes fills the buffer; the reader is given it a second time. -/
theorem full_record_delivered_twice :
    ∃ s, runFun step [.write 5 4024 (fun i => UInt8.ofNat i), .readHeader,
        .consumeHeader, .readHeader, .consumeHeader] onePage = some s ∧
        ¬ s.consumed <+: s.published := by
  have heval : (runFun step [.write 5 4024 (fun i => UInt8.ofNat i), .readHeader,
      .consumeHeader, .readHeader, .consumeHeader] onePage).map
      (fun s => (s.consumed.length, s.published.length)) = some (2, 1) := by decide
  obtain ⟨s, hs, hlen⟩ := Option.map_eq_some_iff.mp heval
  refine ⟨s, hs, fun hpre => ?_⟩
  have := hpre.length_le
  simp only [Prod.mk.injEq] at hlen
  omega

/-! ## Draining -/

/-- `n` rounds of `read_header` and `consume_header` until `read_header` returns null. -/
inductive Drains : Channel → Nat → Channel → Prop where
  | done {c c' : Channel} : readHeader c = (.ok none, c') → Drains c 0 c'
  | more {c c₁ c₂ c' : Channel} {h : HeaderPtr} {n : Nat} : readHeader c = (.ok (some h), c₁) →
      consumeHeader c₁ h = (.ok (), c₂) → Drains c₂ n c' → Drains c (n + 1) c'

/-- Every valid write is accepted, up to the write threshold at least. -/
def Reopened (c : Channel) : Prop :=
  ∀ id size data, id ≠ 0 → size ≠ 0 → ∃ n : Nat, (write c id size (some data)).1 = .ok
    ((n : Int), none) ∧ min size.toNat c.mWriteThreshold.toNat ≤ n

/-- Draining ends after as many rounds as there are unread records, and re-opens the channel. -/
def DrainsAndReopens (s : Session) : Prop :=
  ∃ c, Drains s.channel (s.published.length - s.consumed.length) c ∧ Reopened c

/-- One round of the drain loop on a ring whose write offset is not parked at the end. -/
theorem drain_round {c : Channel} {x : Slot} {unread past : List Slot}
    (hf : Formed c (x :: unread) past) : ∃ r past', readHeader c = (.ok (some c.mReadOffset), c) ∧
      consumeHeader c c.mReadOffset = (.ok (), { c with mReadOffset := r }) ∧
      (c.mWriteOffset ≠ c.mSize → Formed { c with mReadOffset := r } unread past') ∧
      (c.mWriteOffset = c.mSize → ∃ unread', Formed { c with mReadOffset := r } unread' past') := by
  have hne := ne_of_unread hf (List.cons_ne_nil x unread)
  have hread := readHeader_spec hf
  rw [if_neg hne] at hread
  obtain ⟨y, b, rest, hstep, hb, _, heq, hgo, hover⟩ :=
    consume_ring hf.ring (fun he => hne (UInt32.toNat_inj.mp he))
  obtain ⟨rfl, rfl⟩ := List.cons.inj heq
  obtain ⟨r, hcons, hr⟩ := consumeHeader_spec hstep hb
  by_cases hend : c.mWriteOffset.toNat = c.mSize.toNat ∧ b = c.mSize.toNat
  · have hr0 : r.toNat = 0 := by rw [hr, hend.2, wrapEnd_self]
    exact ⟨r, [], hread, hcons, fun hw => absurd (UInt32.toNat_inj.mp hend.1) hw,
      fun _ => ⟨_, formed_end hf hend.1 (hend.2 ▸ hstep) hr0⟩⟩
  · have hring := hgo hend
    obtain ⟨past', hlap, _⟩ := consume_lap hf.ring hf.lap hstep
    rw [← hr] at hring hlap
    exact ⟨r, past', hread, hcons, fun _ => ⟨hf.sized, hring, hlap⟩,
      fun _ => ⟨unread, hf.sized, hring, hlap⟩⟩

/-- A write offset short of the end is met after all unread records. -/
theorem drains_of_formed {c : Channel} {unread past : List Slot} (hf : Formed c unread past)
    (hw : c.mWriteOffset ≠ c.mSize) :
    ∃ r past', Drains c unread.length { c with mReadOffset := r } ∧
    Formed { c with mReadOffset := r } [] past' := by
  induction unread generalizing c past with
  | nil =>
    have hread := readHeader_spec hf
    have heq : c.mReadOffset = c.mWriteOffset := UInt32.toNat_inj.mp ((ring_nil_iff hf.ring).mp rfl)
    rw [if_pos heq] at hread
    exact ⟨c.mReadOffset, past, .done hread, hf⟩
  | cons x unread ih =>
    obtain ⟨r, past', hread, hcons, hgo, _⟩ := drain_round hf
    obtain ⟨r', past'', hd, hf'⟩ := ih (hgo hw) hw
    exact ⟨r', past'', .more hread hcons hd, hf'⟩

/-- With the write offset parked at the end no number of rounds drains the channel. -/
theorem never_drains {c c' : Channel} {unread past : List Slot} {n : Nat}
    (hf : Formed c unread past) (hw : c.mWriteOffset = c.mSize) : ¬ Drains c n c' := by
  intro hd
  have hne {c : Channel} {unread past : List Slot} (hf : Formed c unread past)
      (hw : c.mWriteOffset = c.mSize) : c.mReadOffset ≠ c.mWriteOffset := by
    have := hf.ring.read_lt
    rw [hw]
    intro he
    rw [he] at this
    omega
  induction hd generalizing unread past with
  | done hread =>
    rw [readHeader_spec hf, if_neg (hne hf hw)] at hread
    cases hread
  | more hread hcons _ ih =>
    obtain ⟨x, xs, rfl⟩ := List.exists_cons_of_ne_nil (unread_of_ne hf (hne hf hw))
    obtain ⟨r, past', hread', hcons', _, hgo⟩ := drain_round hf
    rw [hread'] at hread
    obtain ⟨rfl, rfl⟩ : _ = _ ∧ _ = _ := by simpa using hread
    rw [hcons'] at hcons
    obtain rfl : _ = _ := by simpa using hcons
    obtain ⟨unread', hf'⟩ := hgo hw
    exact ih hf' hw

/-- An empty ring has room for the threshold. -/
theorem reopened_of_empty {c : Channel} {past : List Slot} (hf : Formed c [] past)
    (hsmall : c.mSize.toNat < 2 ^ 31) : Reopened c := by
  intro id size data hid hsize
  have heq := (ring_nil_iff hf.ring).mp rfl
  have hth := hf.sized.threshold_le
  have hlt := hf.ring.read_lt
  have hal := hf.ring.read_aligned
  rcases write_spec hf hsmall data hid hsize with ⟨hcap, _⟩ | ⟨_, n, _, hwr, _, hmin, _⟩
  · have hc : capacity c.mSize.toNat c.mReadOffset.toNat c.mWriteOffset.toNat + 80 ≥
        c.mSize.toNat := by
      rw [← heq, capacity, if_pos ⟨Nat.le_refl _, hlt⟩]
      split <;> omega
    omega
  · exact ⟨n, by rw [hwr], hmin⟩

/-- In every session that has not emptied the buffer at its end, draining ends with the last
unread record and re-opens the channel exactly if `m_write_offset` is not `m_size`. -/
theorem drains_iff_not_parked (hsize : SegmentSize size) (h₀ : Opened size s₀)
    (h : Run (guarded Admitted (ofFun step)) s₀ ops s) :
    DrainsAndReopens s ↔ s.channel.mWriteOffset ≠ s.channel.mSize := by
  obtain ⟨unread, past, hi, hq⟩ := queued_run hsize h₀ h
  have hcount : s.published.length - s.consumed.length = unread.length := by
    have hq' : s.published = s.consumed ++ unread.map Slot.record := hq
    rw [hq', List.length_append, List.length_map]
    omega
  constructor
  · rintro ⟨c, hd, _⟩ hw
    exact never_drains hi.formed hw hd
  · intro hw
    obtain ⟨r, past', hd, hf⟩ := drains_of_formed hi.formed hw
    exact ⟨_, by rw [hcount]; exact hd, reopened_of_empty hf hi.small⟩

theorem drains_one_page :
    ∃ s, step onePage (.write 7 100 (fun i => UInt8.ofNat i)) = some s ∧
      (DrainsAndReopens s ↔ s.channel.mWriteOffset ≠ s.channel.mSize) := by
  have hsome : (step onePage (.write 7 100 (fun i => UInt8.ofNat i))).isSome := by decide
  obtain ⟨s, hs⟩ := Option.isSome_iff_exists.mp hsome
  have hrun : Run (guarded Admitted (ofFun step)) onePage
      [.write 7 100 (fun i => UInt8.ofNat i)] s :=
    .single ⟨nofun, hs⟩
  exact ⟨s, hs, drains_iff_not_parked onePage_size onePage_opened hrun⟩

/-- After one write of 4024 bytes the drain loop does not end. -/
theorem full_record_never_drains :
    ∃ s, step onePage (.write 5 4024 (fun i => UInt8.ofNat i)) = some s ∧ ¬ DrainsAndReopens s := by
  have heval : (step onePage (.write 5 4024 (fun i => UInt8.ofNat i))).map
      (fun s => decide (s.channel.mWriteOffset = s.channel.mSize)) = some true := by decide
  obtain ⟨s, hs, hw⟩ := Option.map_eq_some_iff.mp heval
  refine ⟨s, hs, ?_⟩
  rintro ⟨c, hd, _⟩
  obtain ⟨_, _, hi⟩ := inv_step ⟨[], [], inv_opened onePage_size onePage_opened⟩ hs
  exact never_drains hi.formed (of_decide_eq_true hw) hd

end ShmIpcFifo
