import ShmIpc.ChannelSession

/-!
# A reader facing an arbitrary peer

Between two calls of the reader the peer may leave any write offset and any
bytes in the data area. Whatever it does, the read offset stays on a cache line
inside the buffer and no header is handed out whose data would lie outside.
-/
namespace ShmIpcReader

open ByteMemory LabelledRun ShmIpcChannel ShmIpcPlacement ShmIpcSession

/-- The channel and the header `read_header` last returned, null results apart. -/
structure ReaderState where
  channel : Channel
  last : Option HeaderPtr

inductive ReaderCall where
  | peer (writeOffset consumerState : UInt32) (addr : Memory) : ReaderCall
  | readHeader : ReaderCall
  | consumeHeader : ReaderCall

/-- A call that throws is a step too; it keeps what it has stored by then. -/
def readerStep (s : ReaderState) : ReaderCall → Option ReaderState
  | .peer writeOffset consumerState addr =>
    some { s with channel := { s.channel with
      mWriteOffset := writeOffset, mConsumerState := consumerState, mAddr := addr } }
  | .readHeader =>
    match readHeader s.channel with
    | (.ok (some h), c) => some ⟨c, some h⟩
    | (.ok none, c) => some { s with channel := c }
    | (.error _, c) => some { s with channel := c }
  | .consumeHeader => s.last.map fun h => { s with channel := (consumeHeader s.channel h).2 }

/-- The read offset is a cache line of the buffer. -/
structure OnLine (c : Channel) : Prop where
  size_aligned : c.mSize.toNat % cacheLineSize.toNat = 0
  read_aligned : c.mReadOffset.toNat % cacheLineSize.toNat = 0
  read_lt : c.mReadOffset < c.mSize

/-- A header that is handed out lies inside the buffer with all of its data. -/
def HandsOutInside (c : Channel) : Prop :=
  ∀ h c', readHeader c = (.ok (some h), c') →
    h.toNat + headerSize.toNat + (sizeAt c'.mAddr h).toNat ≤ c'.mSize.toNat

section Calls

variable {c c' : Channel} {h : HeaderPtr}

/-- The check of a header compares sizes that cannot wrap. -/
theorem verified_inside (hv : verifyReadHeader c h = true) :
    h = c.mReadOffset ∧ h.toNat + 8 + (sizeAt c.mAddr h).toNat ≤ c.mSize.toNat := by
  unfold verifyReadHeader at hv
  by_cases heq : h ≠ c.mReadOffset
  · rw [if_pos heq] at hv
    cases hv
  · by_cases hbig : ((sizeAt c.mAddr h).toNat : Int) >
      (c.mSize.toNat : Int) - h.toNat - headerSize.toNat
    · rw [if_neg heq, if_pos hbig] at hv
      cases hv
    · rw [headerSize_toNat] at hbig
      exact ⟨not_not.mp heq, by omega⟩

theorem onLine_at (hc : OnLine c) {r : UInt32} (hr : r.toNat % 64 = 0)
    (hlt : r.toNat < c.mSize.toNat) : OnLine { c with mReadOffset := r } :=
  ⟨hc.size_aligned, hr, UInt32.lt_iff_toNat_lt.mpr hlt⟩

/-- `read_header` stores nothing but a read offset of zero. -/
theorem readHeader_channel (c : Channel) :
    (readHeader c).2 = c ∨ (readHeader c).2 = { c with mReadOffset := 0 } := by
  simp only [readHeader, readHeaderFrom]
  repeat' split
  all_goals first | exact .inl rfl | exact .inr rfl

theorem onLine_readHeader (hc : OnLine c) : OnLine (readHeader c).2 := by
  rcases readHeader_channel c with heq | heq
  · rw [heq]; exact hc
  · rw [heq]
    have hlt := UInt32.lt_iff_toNat_lt.mp hc.read_lt
    exact onLine_at hc rfl (by rw [UInt32.toNat_zero]; omega)

theorem handsOutInside (c : Channel) : HandsOutInside c := by
  intro h c' heq
  have hin {c₁ : Channel} {p : HeaderPtr} (hv : ¬ (!verifyReadHeader c₁ p) = true) :
      p.toNat + headerSize.toNat + (sizeAt c₁.mAddr p).toNat ≤ c₁.mSize.toNat :=
    (verified_inside (by simpa using hv)).2
  simp only [readHeader, readHeaderFrom] at heq
  repeat' split at heq
  all_goals cases heq
  all_goals exact hin ‹_›

/-- The end of a header whose data lies inside is a cache line of the buffer or its end. -/
theorem recordEnd_inside (hal : h.toNat % 64 = 0) (hS : c.mSize.toNat % 64 = 0)
    (hin : h.toNat + 8 + (sizeAt c.mAddr h).toNat ≤ c.mSize.toNat) :
    (recordEnd c h).toNat = h.toNat + alignUp (8 + (sizeAt c.mAddr h).toNat) ∧
      (recordEnd c h).toNat ≤ c.mSize.toNat := by
  have hup := alignUp_le hin hS
  rw [Nat.add_assoc, alignUp_add hal] at hup
  have hend := recordEnd_of_le hup
  exact ⟨hend, by omega⟩

theorem onLine_consumeHeader (hc : OnLine c) (h : HeaderPtr) : OnLine (consumeHeader c h).2 := by
  have hS := hc.size_aligned
  have hr := hc.read_aligned
  have hlt := UInt32.lt_iff_toNat_lt.mp hc.read_lt
  simp only [consumeHeader]
  split
  · exact hc
  · rename_i hv
    obtain ⟨rfl, hin⟩ := verified_inside (by simpa using hv)
    obtain ⟨hend, hle⟩ := recordEnd_inside hr hS hin
    rw [recordEnd] at hend hle
    split
    · exact hc
    · split
      · exact onLine_at hc rfl (by rw [UInt32.toNat_zero]; omega)
      · rename_i hne
        have hline := alignUp_aligned (8 + (sizeAt c.mAddr c.mReadOffset).toNat)
        rw [cacheLineSize_toNat] at hr
        exact onLine_at hc (by omega) (Nat.lt_of_le_of_ne hle fun h => hne (UInt32.toNat_inj.mp h))

end Calls

variable {s t : ReaderState}

/-- No call and nothing the peer does takes the reader off its line. -/
theorem onLine_step {call : ReaderCall} (hs : OnLine s.channel) (h : readerStep s call = some t) :
    OnLine t.channel ∧ t.channel.mSize = s.channel.mSize := by
  cases call with
  | peer w st m =>
    cases h
    exact ⟨⟨hs.size_aligned, hs.read_aligned, hs.read_lt⟩, rfl⟩
  | readHeader =>
    have hc : t.channel = (readHeader s.channel).2 := by
      simp only [readerStep] at h
      split at h
      all_goals
        rename_i heq
        cases h
        rw [heq]
    rw [hc]
    refine ⟨onLine_readHeader hs, ?_⟩
    rcases readHeader_channel s.channel with heq | heq
    · rw [heq]
    · rw [heq]
  | consumeHeader =>
    obtain ⟨h', _, rfl⟩ := Option.map_eq_some_iff.mp h
    refine ⟨onLine_consumeHeader hs h', ?_⟩
    simp only [consumeHeader]
    repeat' split
    all_goals rfl

/-- The reader stays in bounds whatever the peer wrote: after every call, returned or thrown, the
read offset is a cache line of the buffer, and the next header handed out lies inside it. -/
theorem reader_in_bounds {calls : List ReaderCall} (hs : OnLine s.channel)
    (h : Run (ofFun readerStep) s calls t) :
    OnLine t.channel ∧ t.channel.mSize = s.channel.mSize ∧ HandsOutInside t.channel := by
  have hinv := h.invariant (fun u => OnLine u.channel ∧ u.channel.mSize = s.channel.mSize) ⟨hs, rfl⟩
    fun u _ v hu huv => ⟨(onLine_step hu.1 huv).1, (onLine_step hu.1 huv).2.trans hu.2⟩
  exact ⟨hinv.1, hinv.2, handsOutInside t.channel⟩

/-- A peer that leaves nothing but bytes 255, and later a header that is too long. -/
theorem reader_in_bounds_garbage :
    ∃ t, runFun readerStep [.peer 17 3 (fun _ => 255), .readHeader,
        .peer 320 0 (fun a => if a = 1 then 64 else 0), .readHeader,
        .peer 64 0 (fun a => if a = 128 ∨ a = 1 then 255 else 0), .readHeader, .consumeHeader]
      ⟨⟨448, 64, 128, 128, 0, fun _ => 0⟩, none⟩ = some t ∧ OnLine t.channel ∧
      HandsOutInside t.channel := by
  have hsome : (runFun readerStep [.peer 17 3 (fun _ => 255), .readHeader,
      .peer 320 0 (fun a => if a = 1 then 64 else 0), .readHeader,
      .peer 64 0 (fun a => if a = 128 ∨ a = 1 then 255 else 0), .readHeader, .consumeHeader]
      ⟨⟨448, 64, 128, 128, 0, fun _ => 0⟩, none⟩).isSome := by decide
  obtain ⟨t, ht⟩ := Option.isSome_iff_exists.mp hsome
  have h := reader_in_bounds ⟨rfl, rfl, by decide⟩ (run_of_runFun ht)
  exact ⟨t, ht, h.1, h.2.2⟩

end ShmIpcReader
