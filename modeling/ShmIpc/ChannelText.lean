import ShmIpc.Evaluation
import ShmIpc.ChannelSession

/-!
# The text of the channel over any numbers

`write`, `available_write` and `consume_header` for numbers of any kind. Over
32-bit words the text is what the channel does; over the integers it is what
its expressions mean. As long as the offsets lie in the buffer the two make the
same tests and store, copy and return the same numbers.
-/
namespace ShmIpcText

open ByteMemory Evaluation ShmIpcChannel ShmIpcPlacement ShmIpcSession

/-! ## The text -/

/-- `x & ~(line - 1)`, for a power of two and numbers that are not negative. -/
class Mask (α : Type) where
  maskOff : (line x : α) → α

instance : Mask UInt32 := ⟨fun line x => x &&& ~~~(line - 1)⟩

instance : Mask Int := ⟨fun line x => x / line * line⟩

/-- One call of `write_to_header`: where the header goes, and the `size` bytes that are copied
from `from` on. -/
structure Piece (α : Type) where
  offset : α
  size : α
  start : α

inductive Ending (α : Type) where
  | throws (msg : String) : Ending α
  | eagain : Ending α
  | publish (endOffset written : α) : Ending α

section Text

variable {α : Type} [Add α] [Sub α] [Mod α] [LT α] [LE α] [DecidableLT α]
    [DecidableLE α] [DecidableEq α]
  [∀ n, OfNat α n] [Mask α]

def alignOver (size : α) : α := Mask.maskOff 64 (size + (64 - 1))

def stdMinOver (a b : α) : Traced α := do
  if ← test (b < a) then return b else return a

def stdMaxOver (a b : α) : Traced α := do
  if ← test (a < b) then return b else return a

def sizeWithPaddingOver (offset : α) : Traced α := do
  if ← test (offset ≥ 64) then return offset - 64 else return 0

def dataSizeOver (size : α) : Traced α := do
  if ← test (size ≥ 64) then return size - 8 else return 0

def availableWriteOver (mSize startOffset endOffset : α) : Traced α := do
  if ← test (endOffset < startOffset) then return startOffset - endOffset - 64
  else
    let tailSpace := mSize - endOffset
    let headSpace := startOffset
    if ← test (tailSpace ≥ 256) then
      let splitSpace := tailSpace + headSpace
      if ← test (splitSpace ≤ 64) then return 0 else return splitSpace - 64
    else if ← test (headSpace ≤ 64) then return tailSpace
    else stdMaxOver tailSpace (headSpace - 64)

/-- The checks in front of the store of `m_write_offset`. -/
def finishChecksOver (mSize startOffset size : α) (pieces : List (Piece α))
    (endOffset firstSize secondSize : α) : Traced (List (Piece α) × Ending α) := do
  if ← test (endOffset % 64 ≠ 0) then
    return (pieces, .throws "Channel::write() end_offset not aligned to cache line size")
  else if ← test (endOffset > mSize) then
    return (pieces, .throws "Channel::write() end_offset exceeds buffer size")
  else if ← test (firstSize + secondSize = 0) then
    return (pieces, .throws "Channel::write() wrote zero bytes")
  else if ← test (firstSize + secondSize > size) then
    return (pieces, .throws "Channel::write() wrote more bytes than requested")
  else if ← test (firstSize = 0 ∧ endOffset ≥ startOffset) then
    return (pieces, .throws "Channel::write() first_size is zero but end_offset >= start_offset")
  else return (pieces, .publish endOffset (firstSize + secondSize))

def finishWriteOver (mSize startOffset size : α) (pieces : List (Piece α))
    (endOffset firstSize secondSize : α) : Traced (List (Piece α) × Ending α) := do
  if ← test (secondSize > 0) then
    finishChecksOver mSize startOffset size (pieces ++ [⟨endOffset, secondSize, firstSize⟩])
      (alignOver (endOffset + 8 + secondSize)) firstSize secondSize
  else finishChecksOver mSize startOffset size pieces endOffset firstSize secondSize

def placeWriteOver (mSize mWriteThreshold startOffset endOffset size : α) :
    Traced (List (Piece α) × Ending α) := do
  if ← test (endOffset ≥ startOffset) then
    let firstSize ← stdMinOver size (← dataSizeOver (mSize - endOffset))
    let secondSize ← stdMinOver (size - firstSize)
      (← dataSizeOver (← sizeWithPaddingOver startOffset))
    if ← test (firstSize + secondSize < (← stdMinOver size mWriteThreshold)) then
      if ← test (startOffset = endOffset) then
        return ([], .throws "Channel::write() start_offset == end_offset but can't write")
      else return ([], .eagain)
    else
      let first : Piece α := ⟨endOffset, firstSize, 0⟩
      let endOffset := alignOver (endOffset + 8 + firstSize)
      if ← test (secondSize > 0) then
        if ← test (endOffset ≠ mSize) then
          return ([first], .throws "Channel::write() end_offset not at end of buffer")
        else finishWriteOver mSize startOffset size [first] 0 firstSize secondSize
      else finishWriteOver mSize startOffset size [first] endOffset firstSize secondSize
  else
    let secondSize ← stdMinOver size
      (← dataSizeOver (← sizeWithPaddingOver (startOffset - endOffset)))
    if ← test (secondSize < (← stdMinOver size mWriteThreshold)) then return ([], .eagain)
    else finishWriteOver mSize startOffset size [] endOffset 0 secondSize

def writeBodyOver (mSize mWriteThreshold startOffset oldOffset size : α) :
    Traced (List (Piece α) × Ending α) := do
  if ← test (oldOffset = mSize) then
    if ← test (startOffset = 0) then return ([], .eagain)
    else placeWriteOver mSize mWriteThreshold startOffset 0 size
  else if ← test (startOffset - oldOffset = 64) then return ([], .eagain)
  else placeWriteOver mSize mWriteThreshold startOffset oldOffset size

/-- `verified` is what `verify_read_header` returns, which computes in `ptrdiff_t`. -/
def consumeHeaderOver (mSize header headerSize : α) (verified : Bool) : Traced
    (Except String α) := do
  let newStartOffset := header + alignOver (8 + headerSize)
  if ← test (verified = false) then
    return .error "Channel::consume_header() header size exceeds buffer size"
  else if ← test (newStartOffset > mSize) then
    return .error "Channel::consume_header() new_start_offset exceeds buffer size"
  else if ← test (newStartOffset = mSize) then return .ok 0
  else return .ok newStartOffset

end Text

/-! ## Over words it is the channel -/

@[simp] theorem alignOver_word (x : UInt32) : alignOver x = alignSizeToCacheline x := rfl

@[simp] theorem stdMinOver_word (a b : UInt32) : (stdMinOver a b).value = stdMin a b := by
  simp [stdMinOver, stdMin]

@[simp] theorem stdMaxOver_word (a b : UInt32) : (stdMaxOver a b).value = stdMax a b := by
  simp [stdMaxOver, stdMax]

@[simp] theorem sizeWithPaddingOver_word (a : UInt32) :
    (sizeWithPaddingOver a).value = sizeWithPadding a := by
  simp [sizeWithPaddingOver, sizeWithPadding, cacheLineSize]

@[simp] theorem dataSizeOver_word (a : UInt32) : (dataSizeOver a).value = dataSize a := by
  simp [dataSizeOver, dataSize, cacheLineSize, headerSize]

theorem availableWriteOver_word (c : Channel) :
    (availableWriteOver c.mSize c.mReadOffset c.mWriteOffset).value = availableWrite c := by
  simp [availableWriteOver, availableWrite, cacheLineSize, splitThreshold]
  rfl

/-- The call of `write_to_header` behind a piece. -/
def Piece.call (id : UInt32) (data : Nat → UInt8) (p : Piece UInt32) : HeaderWrite :=
  ⟨id, p.offset, p.size, fun i => data (p.start.toNat + i)⟩

def Ending.outcome : Ending UInt32 → Outcome
  | .throws msg => .throws msg
  | .eagain => .eagain
  | .publish endOffset written => .publish endOffset written

/-- What the text arrives at over words, as the channel has it. -/
def carriedOut (id : UInt32) (data : Nat → UInt8) (r : List (Piece UInt32) × Ending UInt32) :
    List HeaderWrite × Outcome :=
  (r.1.map (Piece.call id data), r.2.outcome)

section Words

variable (id : UInt32) (data : Nat → UInt8)

@[simp] theorem carriedOut_ite (c : Prop) [Decidable c]
    (a b : List (Piece UInt32) × Ending UInt32) :
    carriedOut id data (if c then a else b) = if c then carriedOut id data a
    else carriedOut id data b := by
  split <;> rfl

theorem finishWriteOver_word (mSize start size : UInt32) (pieces : List (Piece UInt32))
    (e first second : UInt32) :
      finishWrite mSize start id size data (pieces.map (Piece.call id data)) e first second =
      carriedOut id data (finishWriteOver mSize start size pieces e first second).value := by
  simp only [finishWrite, finishWriteOver, finishChecksOver]
  simp only [value_bind, value_test, value_ite, value_pure, carriedOut_ite, decide_eq_true_eq]
  by_cases h : second > 0
  · simp only [h, ↓reduceIte, carriedOut, List.map_append, List.map_cons, List.map_nil]
    rfl
  · simp only [h, ↓reduceIte]
    rfl

theorem placeWriteOver_word (mSize t start e size : UInt32) :
    placeWrite mSize t start e id size data = carriedOut id data
    (placeWriteOver mSize t start e size).value := by
  have hfirst (first : UInt32) : (writeToHeader id e first data).1 = Piece.call id data
      ⟨e, first, 0⟩ := by
    simp [writeToHeader, Piece.call]
  have hone (e' first second : UInt32) := finishWriteOver_word id data mSize start size
    [⟨e, first, 0⟩] e' first second
  have hgap (second : UInt32) := finishWriteOver_word id data mSize start size [] e 0 second
  simp only [List.map_cons, List.map_nil, ← hfirst] at hone hgap
  simp only [placeWrite, placeWriteOver, value_bind, value_test, value_ite, value_pure,
    carriedOut_ite, decide_eq_true_eq, stdMinOver_word, dataSizeOver_word,
    sizeWithPaddingOver_word, ← hone, ← hgap]
  by_cases h : e ≥ start
  · simp only [h, ↓reduceIte, carriedOut, List.map_cons, List.map_nil, ← hfirst]
    rfl
  · simp only [h, ↓reduceIte]
    rfl

/-- Over words the text is the channel's `write`. -/
theorem writeBodyOver_word (mSize t start old size : UInt32) :
    writeBody mSize t start old id size data = carriedOut id data
    (writeBodyOver mSize t start old size).value := by
  simp only [writeBody, writeBodyOver, value_bind, value_test, value_ite, value_pure,
    carriedOut_ite, decide_eq_true_eq, placeWriteOver_word]
  rfl

/-- The read offset `consume_header` leaves behind, or the exception. -/
def consumed : Except String Unit × Channel → Except String UInt32
  | (.error msg, _) => .error msg
  | (.ok (), c) => .ok c.mReadOffset

theorem consumeHeaderOver_word (c : Channel) (header : HeaderPtr) :
    consumed (consumeHeader c header) =
    (consumeHeaderOver c.mSize header (sizeAt c.mAddr header)
      (verifyReadHeader c header)).value := by
  simp only [consumeHeader, consumeHeaderOver, value_bind, value_test, value_ite,
    value_pure, decide_eq_true_eq]
  cases verifyReadHeader c header with
  | false => rfl
  | true =>
    have hnew : header + alignSizeToCacheline (headerSize + sizeAt c.mAddr header) =
      recordEnd c header := rfl
    have htext : header + alignOver (8 + sizeAt c.mAddr header) = recordEnd c header := rfl
    simp only [Bool.not_true, Bool.false_eq_true, Bool.true_eq_false, ↓reduceIte, hnew, htext]
    repeat' split
    all_goals rfl

end Words

/-! ## Over the integers -/

def Piece.int (p : Piece UInt32) : Piece Int := ⟨val p.offset, val p.size, val p.start⟩

def Ending.int : Ending UInt32 → Ending Int
  | .throws msg => .throws msg
  | .eagain => .eagain
  | .publish endOffset written => .publish (val endOffset) (val written)

def intResult (r : List (Piece UInt32) × Ending UInt32) : List (Piece Int) × Ending Int :=
  (r.1.map Piece.int, r.2.int)

theorem alignOver_int {x : UInt32} (h : x.toNat + 63 < 2 ^ 32) :
    val (alignOver x) = alignOver (val x) := by
  rw [alignOver_word, val, alignSize_toNat x h, alignUp]
  show _ = (val x + 63) / 64 * 64
  rw [val]
  omega

theorem dataSizeOver_same (a : UInt32) : Same val (dataSizeOver a) (dataSizeOver (val a)) :=
  .ite val_le (fun h => .pure (val_sub (b := 8) (UInt32.le_trans (by decide) h)).symm)
    fun _ => .pure rfl

theorem sizeWithPaddingOver_same (a : UInt32) :
    Same val (sizeWithPaddingOver a) (sizeWithPaddingOver (val a)) :=
  .ite val_le (fun h => .pure (val_sub h).symm) fun _ => .pure rfl

theorem stdMinOver_same (a b : UInt32) : Same val (stdMinOver a b) (stdMinOver (val a) (val b)) :=
  .ite val_lt (fun _ => .pure rfl) fun _ => .pure rfl

theorem stdMaxOver_same (a b : UInt32) : Same val (stdMaxOver a b) (stdMaxOver (val a) (val b)) :=
  .ite val_lt (fun _ => .pure rfl) fun _ => .pure rfl

section Exact

variable {mSize start size e first second : UInt32} {pieces : List (Piece UInt32)}

theorem finishChecksOver_same (hsum : first.toNat + second.toNat < 2 ^ 32) :
    Same intResult (finishChecksOver mSize start size pieces e first second)
      (finishChecksOver (val mSize) (val start) (val size) (pieces.map Piece.int) (val e)
        (val first) (val second)) := by
  have hadd := val_add hsum
  have hmod : e % 64 ≠ 0 ↔ val e % 64 ≠ 0 := by
    rw [Ne, val_inj, val_mod]
    rfl
  refine .ite hmod (fun _ => .pure rfl) fun _ => ?_
  refine .ite val_lt (fun _ => .pure rfl) fun _ => ?_
  refine .ite (by rw [val_inj, hadd]; rfl) (fun _ => .pure rfl) fun _ => ?_
  refine .ite (by rw [gt_iff_lt, val_lt, hadd]) (fun _ => .pure rfl) fun _ => ?_
  refine .ite (and_congr val_inj val_le) (fun _ => .pure rfl) fun _ => ?_
  exact .pure (by rw [← hadd]; rfl)

/-- Where the text goes on behind a record is exact as long as the record lies in the buffer. -/
theorem nextOver_int (hS : mSize.toNat % 64 = 0) {n : UInt32}
    (h : e.toNat + 8 + n.toNat ≤ mSize.toNat) :
    val (alignOver (e + 8 + n)) = alignOver (val e + 8 + val n) := by
  have hlt := mSize.toNat_lt
  have h8 : (8 : UInt32).toNat = 8 := rfl
  have he : (e + 8).toNat = e.toNat + 8 := by
    rw [UInt32.toNat_add, h8]
    omega
  have hn : (e + 8 + n).toNat = e.toNat + 8 + n.toNat := by
    rw [UInt32.toNat_add, he]
    omega
  rw [alignOver_int (by omega), val_add (by omega), val_add (by omega)]
  rfl

theorem finishWriteOver_same (hS : mSize.toNat % 64 = 0)
    (hsum : first.toNat + second.toNat < 2 ^ 32)
    (hin : 0 < second.toNat → e.toNat + 8 + second.toNat ≤ mSize.toNat) :
      Same intResult (finishWriteOver mSize start size pieces e first second)
      (finishWriteOver (val mSize) (val start) (val size) (pieces.map Piece.int) (val e)
        (val first) (val second)) := by
  refine .ite val_lt (fun hpos => ?_) fun _ => finishChecksOver_same hsum
  rw [← nextOver_int hS (hin (UInt32.lt_iff_toNat_lt.mp hpos))]
  have h : Same intResult
      (finishChecksOver mSize start size (pieces ++ [⟨e, second, first⟩])
        (alignOver (e + 8 + second)) first second) _ :=
    finishChecksOver_same hsum
  rw [List.map_append] at h
  exact h

theorem placeWriteOver_same (hS : mSize.toNat % 64 = 0) (t : UInt32) (hr : start.toNat % 64 = 0)
    (he : e.toNat % 64 = 0) (hlt : e.toNat < mSize.toNat) (hstart : start.toNat < mSize.toNat) :
    Same intResult (placeWriteOver mSize t start e size)
      (placeWriteOver (val mSize) (val t) (val start) (val e) (val size)) := by
  have hsize := size.toNat_lt
  refine .ite val_le (fun hge => ?_) fun hgap => ?_
  · have hsub : (mSize - e).toNat = mSize.toNat - e.toNat :=
      UInt32.toNat_sub_of_le _ _ (UInt32.le_iff_toNat_le.mpr (Nat.le_of_lt hlt))
    rw [← val_sub (UInt32.le_iff_toNat_le.mpr (Nat.le_of_lt hlt))]
    refine (dataSizeOver_same _).bind ((stdMinOver_same _ _).bind ?_)
    simp only [stdMinOver_word, dataSizeOver_word]
    have hfirst := stdMin_toNat size (dataSize (mSize - e))
    rw [dataSize_toNat, hsub] at hfirst
    generalize stdMin size (dataSize (mSize - e)) = first at hfirst ⊢
    have hle : first ≤ size := by
      rw [UInt32.le_iff_toNat_le]
      omega
    rw [← val_sub hle]
    refine (sizeWithPaddingOver_same _).bind
      ((dataSizeOver_same _).bind ((stdMinOver_same _ _).bind ?_))
    refine (stdMinOver_same _ _).bind ?_
    simp only [stdMinOver_word, dataSizeOver_word, sizeWithPaddingOver_word]
    have hsecond := stdMin_toNat (size - first) (dataSize (sizeWithPadding start))
    rw [gapSize_toNat, UInt32.toNat_sub_of_le _ _ hle] at hsecond
    generalize stdMin (size - first) (dataSize (sizeWithPadding start)) = second at hsecond ⊢
    have hsum : first.toNat + second.toNat < 2 ^ 32 := by
      rw [UInt32.le_iff_toNat_le] at hle
      omega
    have hin : e.toNat + 8 + first.toNat ≤ mSize.toNat := by
      rw [if_pos (by omega)] at hfirst
      omega
    refine .ite (by rw [val_lt, val_add hsum]) (fun _ => ?_) fun _ => ?_
    · exact .ite val_inj (fun _ => .pure rfl) fun _ => .pure rfl
    · rw [← nextOver_int hS hin]
      refine .ite val_lt (fun _ => ?_) fun hno => finishWriteOver_same hS hsum fun hpos =>
        absurd (UInt32.lt_iff_toNat_lt.mpr (show (0 : UInt32).toNat < _ from hpos)) hno
      refine .ite (not_congr val_inj) (fun _ => .pure rfl) fun _ =>
        finishWriteOver_same hS hsum fun _ => ?_
      rw [UInt32.toNat_zero]
      split at hsecond <;> omega
  · have hse : e ≤ start := by
      rw [UInt32.le_iff_toNat_le]
      rw [ge_iff_le, UInt32.le_iff_toNat_le] at hgap
      omega
    rw [← val_sub hse]
    refine (sizeWithPaddingOver_same _).bind
      ((dataSizeOver_same _).bind ((stdMinOver_same _ _).bind ?_))
    refine (stdMinOver_same _ _).bind ?_
    simp only [stdMinOver_word, dataSizeOver_word, sizeWithPaddingOver_word]
    have hsecond := stdMin_toNat size (dataSize (sizeWithPadding (start - e)))
    rw [gapSize_toNat, UInt32.toNat_sub_of_le _ _ hse] at hsecond
    generalize stdMin size (dataSize (sizeWithPadding (start - e))) = second at hsecond ⊢
    refine .ite val_lt (fun _ => .pure rfl) fun _ => finishWriteOver_same hS ?_ ?_
    · rw [UInt32.toNat_zero]
      omega
    · intro hpos
      split at hsecond <;> omega

theorem writeBodyOver_same (hS : mSize.toNat % 64 = 0) (t : UInt32) {old : UInt32}
    (hr : start.toNat % 64 = 0) (hstart : start.toNat < mSize.toNat) (hw : old.toNat % 64 = 0)
    (hle : old.toNat ≤ mSize.toNat) : Same intResult (writeBodyOver mSize t start old size)
      (writeBodyOver (val mSize) (val t) (val start) (val old) (val size)) := by
  refine .ite val_inj (fun _ => ?_) fun hne => ?_
  · refine .ite val_inj (fun _ => .pure rfl) fun _ => ?_
    exact placeWriteOver_same hS t hr rfl (by rw [UInt32.toNat_zero]; omega) hstart
  · have hlt : old.toNat < mSize.toNat := by
      have : old.toNat ≠ mSize.toNat := fun h => hne (UInt32.toNat_inj.mp h)
      omega
    refine .ite ?_ (fun _ => .pure rfl) fun _ => placeWriteOver_same hS t hr hw hlt hstart
    -- the difference may wrap, but it never wraps to a cache line
    have hm := mSize.toNat_lt
    have h64 : (64 : UInt32).toNat = 64 := rfl
    rw [← UInt32.toNat_inj, UInt32.toNat_sub, h64]
    simp only [val]
    omega

theorem availableWriteOver_same {old : UInt32} (hle : old.toNat ≤ mSize.toNat)
    (hgap : old.toNat < start.toNat → old.toNat + 64 ≤ start.toNat) :
    Same val (availableWriteOver mSize start old)
    (availableWriteOver (val mSize) (val start) (val old)) := by
  have hsub {a b : UInt32} (h : b.toNat ≤ a.toNat) : val (a - b) = val a - val b :=
    val_sub (UInt32.le_iff_toNat_le.mpr h)
  have htail := hsub hle
  have hm := mSize.toNat_lt
  refine .ite val_lt (fun hlt => ?_) fun hge => ?_
  · have hlt := UInt32.lt_iff_toNat_lt.mp hlt
    have hdiff : (start - old).toNat = start.toNat - old.toNat :=
      UInt32.toNat_sub_of_le _ _ (UInt32.le_iff_toNat_le.mpr (Nat.le_of_lt hlt))
    have hline : (64 : UInt32).toNat ≤ (start - old).toNat := by
      rw [hdiff, show (64 : UInt32).toNat = 64 from rfl]
      omega
    refine .pure ?_
    rw [hsub hline, hsub (Nat.le_of_lt hlt)]
    rfl
  · rw [UInt32.lt_iff_toNat_lt] at hge
    rw [← htail]
    have hsum : (mSize - old).toNat + start.toNat < 2 ^ 32 := by
      rw [UInt32.toNat_sub_of_le _ _ (UInt32.le_iff_toNat_le.mpr hle)]
      omega
    refine .ite val_le (fun _ => ?_) fun _ => ?_
    · rw [← val_add hsum]
      refine .ite val_le (fun _ => .pure rfl) fun hmore => .pure ?_
      rw [UInt32.le_iff_toNat_le] at hmore
      exact (hsub (Nat.le_of_not_le hmore)).symm
    · refine .ite val_le (fun _ => .pure rfl) fun hmore => ?_
      rw [UInt32.le_iff_toNat_le] at hmore
      have hline : val (start - 64) = val start - 64 := hsub (b := 64) (Nat.le_of_not_le hmore)
      rw [← hline]
      exact stdMaxOver_same _ _

def intConsumed : Except String UInt32 → Except String Int
  | .error msg => .error msg
  | .ok offset => .ok (val offset)

theorem consumeHeaderOver_same {h n : UInt32} (hin : h.toNat + alignUp (8 + n.toNat) ≤ mSize.toNat)
    (verified : Bool) :
    Same intConsumed (consumeHeaderOver mSize h n verified)
      (consumeHeaderOver (val mSize) (val h) (val n) verified) := by
  have hm := mSize.toNat_lt
  have hge := le_alignUp (8 + n.toNat)
  have hal := alignUp_aligned (8 + n.toNat)
  have h8 : (8 : UInt32).toNat = 8 := rfl
  have hsize : (8 + n).toNat = 8 + n.toNat := by
    rw [UInt32.toNat_add, h8]
    omega
  have halign : (alignOver (8 + n)).toNat = alignUp (8 + n.toNat) := by
    rw [alignOver_word, alignSize_toNat _ (by omega), hsize]
  have hnew : val (h + alignOver (8 + n)) = val h + alignOver (8 + val n) := by
    rw [val_add (by omega), alignOver_int (by omega), val_add (by omega)]
    rfl
  refine .ite Iff.rfl (fun _ => .pure rfl) fun _ => ?_
  rw [← hnew]
  refine .ite val_lt (fun _ => .pure rfl) fun _ => ?_
  exact .ite val_inj (fun _ => .pure rfl) fun _ => .pure rfl

end Exact

end ShmIpcText
