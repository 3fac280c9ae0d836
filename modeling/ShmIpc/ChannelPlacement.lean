import ShmIpc.Channel

/-!
# Where a write puts its records

The 32-bit expressions of `Channel::write` are evaluated once and for all over
the naturals: a write either finds too little room and touches nothing, or it
places one or two records in free cache lines, as listed by `Placement`.
-/
namespace ShmIpcPlacement

open ByteMemory ShmIpcChannel

/-- Rounding up to the next cache line. -/
def alignUp (n : Nat) : Nat := (n + 63) / 64 * 64

theorem le_alignUp (n : Nat) : n ≤ alignUp n := by unfold alignUp; omega
theorem alignUp_aligned (n : Nat) : alignUp n % 64 = 0 := by unfold alignUp; omega
theorem alignUp_le {n m : Nat} (h : n ≤ m) (hm : m % 64 = 0) : alignUp n ≤ m := by
  unfold alignUp; omega
theorem alignUp_add {n m : Nat} (h : n % 64 = 0) : alignUp (n + m) = n + alignUp m := by
  unfold alignUp; omega

/-- The mask of a cache line. -/
theorem and_lineMask (n : Nat) (h : n < 2 ^ 32) : n &&& 4294967232 = n / 64 * 64 :=
  and_highBits 6 n (by decide) h

theorem cacheLineSize_toNat : cacheLineSize.toNat = 64 := rfl
theorem headerSize_toNat : headerSize.toNat = 8 := rfl

theorem alignSize_toNat (x : UInt32) (h : x.toNat + 63 < 2 ^ 32) :
    (alignSizeToCacheline x).toNat = alignUp x.toNat := by
  have hadd : (x + (cacheLineSize - 1)).toNat = x.toNat + 63 := by
    rw [UInt32.toNat_add, show (cacheLineSize - 1).toNat = 63 from rfl, Nat.mod_eq_of_lt h]
  rw [alignSizeToCacheline, UInt32.toNat_and, hadd,
    show (~~~(cacheLineSize - 1)).toNat = 4294967232 from rfl, and_lineMask _ h]
  rfl

theorem stdMin_toNat (a b : UInt32) : (stdMin a b).toNat = min a.toNat b.toNat := by
  unfold stdMin
  split <;> simp only [UInt32.lt_iff_toNat_lt] at * <;> omega

theorem sizeWithPadding_toNat (a : UInt32) : (sizeWithPadding a).toNat = a.toNat - 64 := by
  unfold sizeWithPadding
  simp only [ge_iff_le, UInt32.le_iff_toNat_le, cacheLineSize_toNat]
  split
  · rw [UInt32.toNat_sub_of_le _ _ (by simpa [UInt32.le_iff_toNat_le])]; rfl
  · simp only [UInt32.toNat_zero]; omega

theorem dataSize_toNat (a : UInt32) :
    (dataSize a).toNat = if 64 ≤ a.toNat then a.toNat - 8 else 0 := by
  unfold dataSize
  simp only [ge_iff_le, UInt32.le_iff_toNat_le, cacheLineSize_toNat]
  split
  · rw [UInt32.toNat_sub_of_le _ _ (by
      simp only [UInt32.le_iff_toNat_le, headerSize_toNat]; omega)]
    rfl
  · rfl

/-- What is left for data in a gap that also keeps a cache line free. -/
theorem gapSize_toNat (a : UInt32) :
    (dataSize (sizeWithPadding a)).toNat = if 128 ≤ a.toNat then a.toNat - 72 else 0 := by
  rw [dataSize_toNat, sizeWithPadding_toNat]
  by_cases h : 128 ≤ a.toNat
  · rw [if_pos (by omega), if_pos h]
    omega
  · rw [if_neg (by omega), if_neg h]

/-- What a channel's size and write threshold satisfy after `channelInitialize`; the
threshold may be changed later as long as an empty buffer can still reach it. -/
structure Sized (mSize mWriteThreshold : UInt32) : Prop where
  aligned : mSize.toNat % 64 = 0
  threshold_pos : 0 < mWriteThreshold.toNat
  threshold_le : mWriteThreshold.toNat + 80 ≤ mSize.toNat

structure Record where
  id : UInt32
  payload : List UInt8
  deriving DecidableEq

def record (h : HeaderWrite) : Record := ⟨h.id, firstBytes h.data h.size.toNat⟩

/-- The next cache line behind a record. -/
def nextOffset (h : HeaderWrite) : Nat := h.offset.toNat + alignUp (8 + h.size.toNat)

/-- A nonempty record inside the buffer. -/
structure Fits (S : Nat) (h : HeaderWrite) : Prop where
  aligned : h.offset.toNat % 64 = 0
  nonempty : 0 < h.size.toNat
  inside : h.offset.toNat + 8 + h.size.toNat ≤ S

/-- The records of one write that loaded read offset `s` and found the write offset at `w`,
and the write offset it is going to publish. At least one cache line stays
free between a published end and a read offset ahead of it. -/
inductive Placement (S s w : Nat) : List HeaderWrite → Nat → Prop where
  | tail (h : HeaderWrite) : s ≤ w → w < S → h.offset.toNat = w → Fits S h →
      Placement S s w [h] (nextOffset h)
  | split (h₁ h₂ : HeaderWrite) : s ≤ w → w < S → h₁.offset.toNat = w → Fits S h₁ →
      nextOffset h₁ = S → h₂.offset.toNat = 0 → Fits S h₂ → nextOffset h₂ + 64 ≤ s →
      Placement S s w [h₁, h₂] (nextOffset h₂)
  | gap (h : HeaderWrite) : w < s → h.offset.toNat = w → Fits S h → nextOffset h + 64 ≤ s →
      Placement S s w [h] (nextOffset h)
  | parked (h : HeaderWrite) : s ≤ w → w = S → h.offset.toNat = 0 → Fits S h →
      nextOffset h + 64 ≤ s → Placement S s w [h] (nextOffset h)

/-- The payload bytes that fit into the free space. -/
def capacity (S r w : Nat) : Nat :=
  if r ≤ w ∧ w < S then (S - w - 8) + (if 128 ≤ r then r - 72 else 0)
  else
    let gap := if w = S then r else r - w
    if 128 ≤ gap then gap - 72 else 0

/-- One or two records of the same id whose payloads are the first `n` bytes of the data. -/
structure Carries (id : UInt32) (data : Nat → UInt8) (rs : List Record) (n : Nat) : Prop where
  count : rs.length = 1 ∨ rs.length = 2
  ids : ∀ x ∈ rs, x.id = id
  bytes : rs.flatMap Record.payload = firstBytes data n

theorem nextOffset_le {S : Nat} {h : HeaderWrite} (hf : Fits S h) (hS : S % 64 = 0) :
    nextOffset h ≤ S := by
  rw [nextOffset, ← alignUp_add hf.aligned]
  exact alignUp_le (by have := hf.inside; omega) hS

theorem nextOffset_aligned {S : Nat} {h : HeaderWrite} (hf : Fits S h) : nextOffset h % 64 = 0 := by
  have := alignUp_aligned (8 + h.size.toNat)
  have := hf.aligned
  unfold nextOffset
  omega

theorem lt_nextOffset (h : HeaderWrite) : h.offset.toNat + 8 + h.size.toNat ≤ nextOffset h := by
  have := le_alignUp (8 + h.size.toNat)
  unfold nextOffset
  omega

section Write

variable {mSize t start id size : UInt32} {data : Nat → UInt8}

/-- `write_to_header` returns the offset of the next cache line. -/
theorem writeToHeader_next (hS : mSize.toNat % 64 = 0) (off n : UInt32)
    (hf : Fits mSize.toNat ⟨id, off, n, data⟩) :
    (writeToHeader id off n data).2.toNat = nextOffset ⟨id, off, n, data⟩ := by
  have hlt := mSize.toNat_lt
  have hin : off.toNat + 8 + n.toNat ≤ mSize.toNat := hf.inside
  have hsum : (off + headerSize + n).toNat = off.toNat + 8 + n.toNat := by
    simp only [UInt32.toNat_add, headerSize_toNat]; omega
  rw [writeToHeader, alignSize_toNat _ (by omega), hsum, Nat.add_assoc, alignUp_add hf.aligned]
  rfl

variable (id size data)

/-- With nothing left for the start of the buffer every check passes. -/
theorem finishWrite_one (mSize start : UInt32) (ws : List HeaderWrite) (e first : UInt32)
    (he : e.toNat % 64 = 0) (hle : e.toNat ≤ mSize.toNat) (hpos : 0 < first.toNat)
    (hsize : first.toNat ≤ size.toNat) :
    finishWrite mSize start id size data ws e first 0 = (ws, .publish e first) := by
  have h₁ : e % cacheLineSize = 0 := by
    apply UInt32.toNat_inj.mp
    rw [UInt32.toNat_mod]
    exact he
  have h₂ : ¬ e > mSize := by simp only [gt_iff_lt, UInt32.lt_iff_toNat_lt]; omega
  have h₃ : first ≠ 0 := by rintro rfl; exact absurd hpos (by decide)
  have h₄ : ¬ first > size := by simp only [gt_iff_lt, UInt32.lt_iff_toNat_lt]; omega
  simp [finishWrite, h₁, h₂, h₃, h₄]

/-- The second record starts at `e` and ends a cache line or more in front of the reader. -/
theorem finishWrite_two (hS : mSize.toNat % 64 = 0) (hstart : start.toNat ≤ mSize.toNat)
    (ws : List HeaderWrite) (e first second : UInt32) (h₂ : HeaderWrite)
    (heq : h₂ = ⟨id, e, second, fun i => data (first.toNat + i)⟩) (hf : Fits mSize.toNat h₂)
    (hsum : first.toNat + second.toNat ≤ size.toNat) (hgap : nextOffset h₂ + 64 ≤ start.toNat) :
    ∃ next, finishWrite mSize start id size data ws e first second =
        (ws ++ [h₂], .publish next (first + second)) ∧ next.toNat = nextOffset h₂ := by
  subst heq
  refine ⟨_, ?_, writeToHeader_next hS e second hf⟩
  have hnext := writeToHeader_next hS e second hf
  have hal := nextOffset_aligned hf
  have hpos : 0 < second.toNat := hf.nonempty
  have hlt := size.toNat_lt
  have hadd : (first + second).toNat = first.toNat + second.toNat := by
    rw [UInt32.toNat_add]; omega
  rw [← hnext] at hal hgap
  have c₀ : second > 0 := by simp only [gt_iff_lt, UInt32.lt_iff_toNat_lt]; exact hpos
  have c₁ : (writeToHeader id e second (fun i => data (first.toNat + i))).2 %
      cacheLineSize = 0 := by
    apply UInt32.toNat_inj.mp
    rw [UInt32.toNat_mod]
    exact hal
  have c₂ : ¬ (writeToHeader id e second (fun i => data (first.toNat + i))).2 > mSize := by
    simp only [gt_iff_lt, UInt32.lt_iff_toNat_lt]; omega
  have c₃ : first + second ≠ 0 := by
    intro h
    rw [← UInt32.toNat_inj, hadd, UInt32.toNat_zero] at h
    omega
  have c₄ : ¬ first + second > size := by
    simp only [gt_iff_lt, UInt32.lt_iff_toNat_lt, hadd]; omega
  have c₅ : ¬ (writeToHeader id e second (fun i => data (first.toNat + i))).2 ≥ start := by
    simp only [ge_iff_le, UInt32.le_iff_toNat_le]; omega
  simp only [finishWrite, c₀, c₁, c₂, c₃, c₄, c₅, ↓reduceIte, ne_eq, not_true_eq_false, and_false]
  rfl

theorem carries_one (off n : UInt32) :
    Carries id data ([⟨id, off, n, data⟩].map record) n.toNat :=
  ⟨.inl rfl, by simp [record], by simp [record]⟩

theorem carries_two (off₁ off₂ n₁ n₂ : UInt32) :
    Carries id data
      ([⟨id, off₁, n₁, data⟩, ⟨id, off₂, n₂, fun i => data (n₁.toNat + i)⟩].map record)
      (n₁.toNat + n₂.toNat) :=
  ⟨.inr rfl, by simp [record], by simp [record, firstBytes_add]⟩

end Write

/-- The result law of the code between the loads and the final store. -/
def Law (mSize t start old id size : UInt32) (data : Nat → UInt8)
    (r : List HeaderWrite × Outcome) : Prop :=
  (capacity mSize.toNat start.toNat old.toNat < min size.toNat t.toNat ∧ r = ([], .eagain)) ∨
  ∃ ws e n, r = (ws, .publish e n) ∧
    n.toNat = min size.toNat (capacity mSize.toNat start.toNat old.toNat) ∧
    min size.toNat t.toNat ≤ n.toNat ∧
    Placement mSize.toNat start.toNat old.toNat ws e.toNat ∧ Carries id data (ws.map record) n.toNat

section Write

variable {mSize t start id size : UInt32} {data : Nat → UInt8}

/-- A single record in the gap in front of the reader. -/
theorem placeWrite_gap (hs : Sized mSize t) (old e : UInt32) (hstart : start.toNat < mSize.toNat)
    (he : e.toNat % 64 = 0) (hlt : e.toNat < start.toNat) (hr : start.toNat % 64 = 0)
    (hw : (old.toNat = e.toNat) ∨ (old = mSize ∧ e.toNat = 0)) (hsize : 0 < size.toNat) :
    Law mSize t start old id size data (placeWrite mSize t start e id size data) := by
  have hpos := hs.threshold_pos
  have hcap : capacity mSize.toNat start.toNat old.toNat =
      if 128 ≤ start.toNat - e.toNat then start.toNat - e.toNat - 72 else 0 := by
    rcases hw with hw | ⟨hw, h0⟩
    · simp only [capacity, hw, show ¬ (start.toNat ≤ e.toNat ∧ e.toNat < mSize.toNat) by omega,
        show ¬ e.toNat = mSize.toNat by omega, ↓reduceIte]
    · simp [capacity, hw, h0]
  have hsub : (start - e).toNat = start.toNat - e.toNat :=
    UInt32.toNat_sub_of_le _ _ (by simp only [UInt32.le_iff_toNat_le]; omega)
  have hn : (stdMin size (dataSize (sizeWithPadding (start - e)))).toNat =
      min size.toNat (capacity mSize.toNat start.toNat old.toNat) := by
    rw [stdMin_toNat, gapSize_toNat, hsub, hcap]
  have hbranch : ¬ e ≥ start := by simp only [ge_iff_le, UInt32.le_iff_toNat_le]; omega
  rw [placeWrite, if_neg hbranch]
  generalize stdMin size (dataSize (sizeWithPadding (start - e))) = n at hn ⊢
  by_cases hroom : n.toNat < min size.toNat t.toNat
  · left
    have hc : n < stdMin size t := by rwa [UInt32.lt_iff_toNat_lt, stdMin_toNat]
    exact ⟨by omega, by simp only [hc, ↓reduceIte]⟩
  · right
    have hc : ¬ n < stdMin size t := by rwa [UInt32.lt_iff_toNat_lt, stdMin_toNat]
    have hgap : 128 ≤ start.toNat - e.toNat := by
      by_contra hno
      rw [if_neg hno] at hcap
      omega
    rw [if_pos hgap] at hcap
    have hin : e.toNat + 8 + n.toNat + 64 ≤ start.toNat := by omega
    have hf : Fits mSize.toNat ⟨id, e, n, fun i => data ((0 : UInt32).toNat + i)⟩ :=
      ⟨he, show 0 < n.toNat by omega, show e.toNat + 8 + n.toNat ≤ mSize.toNat by omega⟩
    have hnext : nextOffset ⟨id, e, n, fun i => data ((0 : UInt32).toNat + i)⟩ +
        64 ≤ start.toNat := by
      have := alignUp_le (n := e.toNat + (8 + n.toNat)) (m := start.toNat - 64)
        (by omega) (by omega)
      rw [alignUp_add he] at this
      show e.toNat + alignUp (8 + n.toNat) + 64 ≤ start.toNat
      omega
    obtain ⟨next, hfin, hn'⟩ := finishWrite_two id size data hs.aligned
      (Nat.le_of_lt hstart) [] e 0 n _ rfl hf
      (show (0 : UInt32).toNat + n.toNat ≤ size.toNat by rw [UInt32.toNat_zero]; omega) hnext
    refine ⟨_, next, 0 + n, by simp only [hc, ↓reduceIte]; exact hfin, ?_, ?_, ?_, ?_⟩
    · rw [UInt32.zero_add]; exact hn
    · rw [UInt32.zero_add]; omega
    · rw [hn']
      rcases hw with hw | ⟨hw, h0⟩
      · exact .gap _ (by omega) hw.symm hf hnext
      · exact .parked _ (by rw [hw]; omega) (congrArg _ hw) h0 hf hnext
    · rw [UInt32.zero_add]
      simpa using carries_one id data e n

variable (size) in
/-- The record at the end of the buffer takes everything that is written. -/
theorem finish_tail (hs : Sized mSize t) {e first : UInt32} (hle : start.toNat ≤ e.toNat)
    (hlt : e.toNat < mSize.toNat) (hf : Fits mSize.toNat ⟨id, e, first, data⟩)
    (hsize : first.toNat ≤ size.toNat) :
      finishWrite mSize start id size data [⟨id, e, first, data⟩] (writeToHeader id e first data).2
      first 0 = ([⟨id, e, first, data⟩], .publish (writeToHeader id e first data).2 first) ∧
    Placement mSize.toNat start.toNat e.toNat [⟨id, e, first, data⟩]
    (writeToHeader id e first data).2.toNat := by
  have hnext := writeToHeader_next hs.aligned e first hf
  have hnle := nextOffset_le hf hs.aligned
  constructor
  · exact finishWrite_one id size data mSize start [⟨id, e, first, data⟩]
      (writeToHeader id e first data).2 first
      (by rw [hnext]; exact nextOffset_aligned hf) (by omega) hf.nonempty hsize
  · rw [hnext]
    exact .tail _ hle hlt rfl hf

variable (size) in
/-- A record that reaches the end of the buffer, and a second one at its start. -/
theorem finish_split (hs : Sized mSize t) {e first second : UInt32} (hr : start.toNat % 64 = 0)
    (hle : start.toNat ≤ e.toNat) (hlt : e.toNat < mSize.toNat)
    (hf : Fits mSize.toNat ⟨id, e, first, data⟩)
    (hfull : nextOffset ⟨id, e, first, data⟩ = mSize.toNat) (hpos : 0 < second.toNat)
    (hroom : second.toNat + 72 ≤ start.toNat) (hsum : first.toNat + second.toNat ≤ size.toNat) :
        ∃ next, finishWrite mSize start id size data [⟨id, e, first, data⟩] 0 first second =
        ([⟨id, e, first, data⟩, ⟨id, 0, second, fun i => data (first.toNat + i)⟩],
          .publish next (first + second)) ∧
      Placement mSize.toNat start.toNat e.toNat
        [⟨id, e, first, data⟩, ⟨id, 0, second, fun i => data (first.toNat + i)⟩] next.toNat := by
  have hf₂ : Fits mSize.toNat ⟨id, 0, second, fun i => data (first.toNat + i)⟩ := by
    refine ⟨rfl, hpos, ?_⟩
    simp only [UInt32.toNat_zero]
    omega
  have hgap : nextOffset ⟨id, 0, second, fun i => data (first.toNat + i)⟩ + 64 ≤ start.toNat := by
    have := alignUp_le (n := 8 + second.toNat) (m := start.toNat - 64) (by omega) (by omega)
    simp only [nextOffset, UInt32.toNat_zero]
    omega
  obtain ⟨next, hfin, hn⟩ := finishWrite_two id size data hs.aligned (by omega)
    [⟨id, e, first, data⟩] 0 first second _ rfl hf₂ hsum hgap
  refine ⟨next, hfin, ?_⟩
  rw [hn]
  exact .split _ _ hle hlt rfl hf hfull rfl hf₂ hgap

/-- A record at the end of the buffer, and a second one at its start if that is needed. -/
theorem placeWrite_end (hs : Sized mSize t) (e : UInt32) (hr : start.toNat % 64 = 0)
    (he : e.toNat % 64 = 0) (hle : start.toNat ≤ e.toNat) (hlt : e.toNat < mSize.toNat)
    (hsize : 0 < size.toNat) :
    Law mSize t start e id size data (placeWrite mSize t start e id size data) := by
  have hS := hs.aligned
  have hpos := hs.threshold_pos
  have hth := hs.threshold_le
  have hcap : capacity mSize.toNat start.toNat e.toNat =
      (mSize.toNat - e.toNat - 8) + (if 128 ≤ start.toNat then start.toNat - 72 else 0) := by
    simp only [capacity, hle, hlt, and_self, ↓reduceIte]
  have hsub : (mSize - e).toNat = mSize.toNat - e.toNat :=
    UInt32.toNat_sub_of_le _ _ (by simp only [UInt32.le_iff_toNat_le]; omega)
  have hfirst : (stdMin size (dataSize (mSize - e))).toNat = min size.toNat
      (mSize.toNat - e.toNat - 8) := by
    rw [stdMin_toNat, dataSize_toNat, hsub, if_pos (by omega)]
  have hbranch : e ≥ start := by simp only [ge_iff_le, UInt32.le_iff_toNat_le]; omega
  rw [placeWrite, if_pos hbranch]
  dsimp only
  generalize stdMin size (dataSize (mSize - e)) = first at hfirst ⊢
  have hrest : (size - first).toNat = size.toNat - first.toNat :=
    UInt32.toNat_sub_of_le _ _ (by simp only [UInt32.le_iff_toNat_le]; omega)
  have hsecond : (stdMin (size - first) (dataSize (sizeWithPadding start))).toNat =
      min (size.toNat - first.toNat) (if 128 ≤ start.toNat then start.toNat - 72 else 0) := by
    rw [stdMin_toNat, gapSize_toNat, hrest]
  generalize stdMin (size - first) (dataSize (sizeWithPadding start)) = second at hsecond ⊢
  have hlt32 := size.toNat_lt
  have hsum : (first + second).toNat = first.toNat + second.toNat := by
    rw [UInt32.toNat_add]; omega
  have hn : (first + second).toNat = min size.toNat (capacity mSize.toNat start.toNat e.toNat) := by
    rw [hsum, hsecond, hcap]; omega
  by_cases hroom : (first + second).toNat < min size.toNat t.toNat
  · left
    have hc : first + second < stdMin size t := by rwa [UInt32.lt_iff_toNat_lt, stdMin_toNat]
    -- an empty buffer holds the threshold: its end and its start together miss at most 80 bytes
    have hne : start ≠ e := by
      rintro rfl
      split at hcap <;> omega
    exact ⟨by omega, by simp only [hc, hne, ↓reduceIte]⟩
  · right
    have hc : ¬ first + second < stdMin size t := by rwa [UInt32.lt_iff_toNat_lt, stdMin_toNat]
    have hf : Fits mSize.toNat ⟨id, e, first, data⟩ :=
      ⟨he, show 0 < first.toNat by omega, show e.toNat + 8 + first.toNat ≤ mSize.toNat by omega⟩
    by_cases h0 : second.toNat = 0
    · obtain rfl : second = 0 := UInt32.toNat_inj.mp h0
      rw [UInt32.add_zero] at hn hc hroom
      obtain ⟨hfin, hplace⟩ := finish_tail size hs hle hlt hf (by omega)
      refine ⟨_, _, first, ?_, hn, by omega, hplace, carries_one id data e first⟩
      simp only [UInt32.add_zero, hc, ↓reduceIte, UInt32.lt_irrefl, gt_iff_lt]
      exact hfin
    · have hfull : nextOffset ⟨id, e, first, data⟩ = mSize.toNat := by
        have hnle := nextOffset_le hf hS
        have := lt_nextOffset ⟨id, e, first, data⟩
        simp only at this
        omega
      have hend : (writeToHeader id e first data).2 = mSize :=
        UInt32.toNat_inj.mp ((writeToHeader_next hS e first hf).trans hfull)
      have h128 : 128 ≤ start.toNat := by
        by_contra hno
        rw [if_neg hno] at hsecond
        omega
      rw [if_pos h128] at hsecond
      obtain ⟨next, hfin, hplace⟩ := finish_split size hs hr hle hlt hf hfull
        (Nat.pos_of_ne_zero h0) (by omega) (by omega)
      refine ⟨_, next, first + second, ?_, hn, by omega, hplace, ?_⟩
      · have hgt : second > 0 := by
          simp only [gt_iff_lt, UInt32.lt_iff_toNat_lt, UInt32.toNat_zero]; omega
        simp only [hc, hgt, hend, ↓reduceIte, ne_eq, not_true_eq_false]
        exact hfin
      · rw [hsum]
        exact carries_two id data e 0 first second

variable (id data) in
/-- Every write in a well-formed ring obeys the result law. -/
theorem writeBody_law (hs : Sized mSize t) (old : UInt32) (hr : start.toNat % 64 = 0)
    (hstart : start.toNat < mSize.toNat) (hw : old.toNat % 64 = 0) (hle : old.toNat ≤ mSize.toNat)
    (hsize : 0 < size.toNat) :
    Law mSize t start old id size data (writeBody mSize t start old id size data) := by
  have hpos := hs.threshold_pos
  rw [writeBody]
  by_cases hpark : old = mSize
  · rw [if_pos hpark]
    by_cases h0 : start = 0
    · rw [if_pos h0]
      refine .inl ⟨?_, rfl⟩
      have hc : capacity mSize.toNat start.toNat old.toNat = 0 := by simp [capacity, hpark, h0]
      omega
    · rw [if_neg h0]
      have hne : start.toNat ≠ 0 := fun h => h0 (UInt32.toNat_inj.mp h)
      exact placeWrite_gap hs old 0 hstart rfl (by rw [UInt32.toNat_zero]; omega) hr
        (.inr ⟨hpark, rfl⟩) hsize
  · rw [if_neg hpark]
    have hlt : old.toNat < mSize.toNat := by
      have : old.toNat ≠ mSize.toNat := fun h => hpark (UInt32.toNat_inj.mp h)
      omega
    by_cases hline : start - old = cacheLineSize
    · rw [if_pos hline]
      refine .inl ⟨?_, rfl⟩
      have h64 : (start - old).toNat = 64 := by rw [hline]; rfl
      have hold := mSize.toNat_lt
      have hS := hs.aligned
      rw [UInt32.toNat_sub] at h64
      have hc : capacity mSize.toNat start.toNat old.toNat = 0 := by
        simp only [capacity, show ¬ (start.toNat ≤ old.toNat ∧ old.toNat < mSize.toNat) by omega,
          show ¬ old.toNat = mSize.toNat by
          omega, show ¬ 128 ≤ start.toNat - old.toNat by omega, ↓reduceIte]
      omega
    · rw [if_neg hline]
      by_cases hge : start.toNat ≤ old.toNat
      · exact placeWrite_end hs old hr hw hge hlt hsize
      · exact placeWrite_gap hs old old hstart hw (by omega) hr (.inl rfl) hsize

/-! ### Short writes -/

end Write

end ShmIpcPlacement
