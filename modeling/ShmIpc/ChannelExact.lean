import ShmIpc.ChannelText
import ShmIpc.ChannelRoom

/-!
# The arithmetic of the channel

Sessions over a segment of any size that can be created, with any thresholds.
What `write`, `available_write` and `consume_header` compute is exact in all of
them; `can_write` and the `int` that `write` returns are not, for the largest
sizes.
-/
namespace ShmIpcExact

open ByteMemory Evaluation LabelledRun ShmIpcChannel ShmIpcPlacement ShmIpcRing ShmIpcSession
  ShmIpcFifo ShmIpcRoom
open ShmIpcText

/-! ## Reachable states -/

/-- `Segment`, with the address that `mmap` returned. -/
structure Segment where
  mSize : Nat
  mAddr : Option Nat

def pageSize : UInt32 := 4096

/-- `Segment::create`; `mmap` fails without an address. The error comes without the text of
`errno`. -/
def segmentCreate (mmap : Option Nat) (size : UInt32) (seg : Segment) :
    Except String Unit × Segment :=
  if seg.mAddr.isSome then (.error "Segment::create() segment already created", seg)
  else if seg.mSize ≠ 0 then (.error "Segment::create() segment size already set", seg)
  else if size = 0 ∨ size % pageSize ≠ 0 then
    (.error "Segment::create() size must be non-zero and a multiple of page size", seg)
  else match mmap with
  | none => (.error "Segment::create(): mmap failed : ", seg)
  | some addr => (.ok (), ⟨size.toNat, some addr⟩)

/-- The sizes of segments that can be created. -/
def Accepted (size : UInt32) : Prop := ∃ mmap seg seg', segmentCreate mmap size seg = (.ok (), seg')

theorem accepted_iff {size : UInt32} : Accepted size ↔ 0 < size.toNat ∧ size.toNat % 4096 = 0 := by
  have hmod : size % pageSize = 0 ↔ size.toNat % 4096 = 0 := by
    rw [← UInt32.toNat_inj, UInt32.toNat_mod]
    rfl
  have hzero : size = 0 ↔ size.toNat = 0 := by
    rw [← UInt32.toNat_inj]
    rfl
  constructor
  · rintro ⟨mmap, seg, seg', h⟩
    simp only [segmentCreate] at h
    split at h
    · cases h
    · split at h
      · cases h
      · split at h
        · cases h
        · rename_i hsize
          rw [not_or, not_not, hzero, hmod] at hsize
          exact ⟨Nat.pos_of_ne_zero hsize.1, hsize.2⟩
  · rintro ⟨hpos, hpage⟩
    have hsize : ¬ (size = 0 ∨ size % pageSize ≠ 0) := by
      rw [not_or, not_not, hzero, hmod]
      exact ⟨Nat.ne_of_gt hpos, hpage⟩
    exact ⟨some 0, ⟨0, none⟩, ⟨size.toNat, some 0⟩, by simp [segmentCreate, hsize]⟩

inductive AnyOp where
  | call (op : Op) : AnyOp
  | setWriteThreshold (threshold : UInt32) : AnyOp

/-- Sessions whose threshold may be anything. -/
def anyStep (s : Session) : AnyOp → Option Session
  | .call op => step s op
  | .setWriteThreshold threshold => some { s with channel := setWriteThreshold s.channel threshold }

/-- The ring and the lap behind the reader, without a word about the threshold. -/
structure Tiled (c : Channel) (unread past : List Slot) : Prop where
  wide : 128 ≤ c.mSize.toNat
  below : c.mSize.toNat + 64 < 2 ^ 32
  ring : Ring c.mSize.toNat c.mAddr c.mReadOffset.toNat c.mWriteOffset.toNat unread
  lap : Lap c.mSize.toNat c.mAddr c.mReadOffset.toNat c.mWriteOffset.toNat past

structure AnyInv (s : Session) : Prop where
  tiled : ∃ unread past, Tiled s.channel unread past
  held : ∀ h, s.held = some h → h = s.channel.mReadOffset ∧
    s.channel.mReadOffset ≠ s.channel.mWriteOffset

/-! ### What the threshold decides -/

theorem finishWrite_publish {mSize start id size : UInt32} {data : Nat → UInt8}
    {ws ws' : List HeaderWrite} {e first second e' n : UInt32}
    (h : finishWrite mSize start id size data ws e first second = (ws', .publish e' n)) :
    n = first + second ∧ n ≠ 0 := by
  simp only [finishWrite] at h
  repeat' split at h
  all_goals cases h
  all_goals exact ⟨rfl, by assumption⟩

variable {mSize t start old e id size n : UInt32} {data : Nat → UInt8} {ws : List HeaderWrite}

theorem placeWrite_publish (h : placeWrite mSize t start old id size data = (ws, .publish e n)) :
    min size.toNat t.toNat ≤ n.toNat ∧
    ∀ t' : UInt32, min size.toNat t'.toNat ≤ n.toNat →
      placeWrite mSize t' start old id size data = (ws, .publish e n) := by
  -- the threshold is compared once, with what is going to be published
  have hroom (m t' : UInt32) (hm : n = m) : ¬ m < stdMin size t' ↔
      min size.toNat t'.toNat ≤ n.toNat := by
    rw [UInt32.lt_iff_toNat_lt, stdMin_toNat, hm, Nat.not_lt]
  simp only [placeWrite] at h ⊢
  split at h
  · rename_i hge
    simp only [if_pos hge]
    generalize stdMin size (dataSize (mSize - old)) = first at h ⊢
    generalize stdMin (size - first) (dataSize (sizeWithPadding start)) = second at h ⊢
    split at h
    · split at h <;> cases h
    · rename_i hreach
      have hn : n = first + second := by
        split at h
        · split at h
          · cases h
          · exact (finishWrite_publish h).1
        · exact (finishWrite_publish h).1
      refine ⟨(hroom _ t hn).mp hreach, fun t' hle => ?_⟩
      rw [if_neg ((hroom _ t' hn).mpr hle)]
      exact h
  · rename_i hge
    simp only [if_neg hge]
    generalize stdMin size (dataSize (sizeWithPadding (start - old))) = second at h ⊢
    split at h
    · cases h
    · rename_i hreach
      have hn : n = second := by
        rw [(finishWrite_publish h).1, UInt32.zero_add]
      refine ⟨(hroom _ t hn).mp hreach, fun t' hle => ?_⟩
      rw [if_neg ((hroom _ t' hn).mpr hle)]
      exact h

/-- A write that publishes reaches the threshold, and would do the same with any other that it
reaches. -/
theorem writeBody_publish (h : writeBody mSize t start old id size data = (ws, .publish e n)) :
    min size.toNat t.toNat ≤ n.toNat ∧
    ∀ t' : UInt32, min size.toNat t'.toNat ≤ n.toNat →
      writeBody mSize t' start old id size data = (ws, .publish e n) := by
  simp only [writeBody] at h ⊢
  split at h
  · rename_i hpark
    split at h
    · cases h
    · rename_i h0
      simp only [if_pos hpark, if_neg h0]
      exact placeWrite_publish h
  · rename_i hpark
    split at h
    · cases h
    · rename_i hline
      simp only [if_neg hpark, if_neg hline]
      exact placeWrite_publish h

theorem finishWrite_not_eagain {ws ws' : List HeaderWrite} {e first second : UInt32} :
    finishWrite mSize start id size data ws e first second ≠ (ws', .eagain) := by
  intro h
  simp only [finishWrite] at h
  repeat' split at h
  all_goals cases h

theorem writeBody_nonzero (h : writeBody mSize t start old id size data = (ws, .publish e n)) :
    n ≠ 0 := by
  simp only [writeBody, placeWrite] at h
  repeat' split at h
  all_goals first | cases h | exact (finishWrite_publish h).2

/-- A write that finds no room stores nothing. -/
theorem writeBody_eagain (h : writeBody mSize t start old id size data = (ws, .eagain)) :
    ws = [] := by
  simp only [writeBody, placeWrite] at h
  repeat' split at h
  all_goals first | exact absurd h finishWrite_not_eagain | cases h <;> rfl

/-- A write that returns has found no room, or it has published. -/
theorem write_ok {c c' : Channel} {r : WriteResult}
    (h : write c id size (some data) = (.ok r, c')) :
      id ≠ 0 ∧ size ≠ 0 ∧ ((r = (-1, some .EAGAIN) ∧ c' = c) ∨ ∃ ws e n,
        writeBody c.mSize c.mWriteThreshold c.mReadOffset c.mWriteOffset id size data =
          (ws, .publish e n) ∧ r = (n.toInt32.toInt, none) ∧
        c' = { c with
          mAddr := applyAll c.mAddr (ws.flatMap HeaderWrite.stores), mWriteOffset := e }) := by
  have hid : id ≠ 0 := by rintro rfl; simp [write] at h
  have hsize : size ≠ 0 := by rintro rfl; simp [write, hid] at h
  refine ⟨hid, hsize, ?_⟩
  rcases hbody : writeBody c.mSize c.mWriteThreshold c.mReadOffset c.mWriteOffset id size data with
    ⟨ws, o⟩
  simp only [write, hid, hsize, hbody, ↓reduceIte] at h
  cases o with
  | throws msg => simp [Outcome.apply] at h
  | eagain =>
    obtain rfl := writeBody_eagain hbody
    simp only [Outcome.apply, Prod.mk.injEq, Except.ok.injEq] at h
    exact .inl ⟨h.1.symm, h.2.symm⟩
  | publish e n =>
    simp only [Outcome.apply, Prod.mk.injEq, Except.ok.injEq] at h
    exact .inr ⟨ws, e, n, rfl, h.1.symm, h.2.symm⟩

/-! ### What the sessions keep -/

theorem sized_one {c : Channel} {unread past : List Slot} (hc : Tiled c unread past) :
    Sized c.mSize 1 := by
  have h1 : (1 : UInt32).toNat = 1 := rfl
  have hwide := hc.wide
  exact ⟨hc.ring.size_aligned, by omega, by omega⟩

/-- What a write publishes does not depend on the threshold that lets it through. -/
theorem published_law {c : Channel} {unread past : List Slot} (hc : Tiled c unread past)
    (hsize : size ≠ 0) (h : writeBody c.mSize t c.mReadOffset c.mWriteOffset id size
      data = (ws, .publish e n)) :
    n.toNat = min size.toNat (capacity c.mSize.toNat c.mReadOffset.toNat c.mWriteOffset.toNat) ∧
      Placement c.mSize.toNat c.mReadOffset.toNat c.mWriteOffset.toNat ws e.toNat ∧
      Carries id data (ws.map record) n.toNat := by
  have hr := hc.ring
  have hpos : 0 < size.toNat := Nat.pos_of_ne_zero fun h => hsize (UInt32.toNat_inj.mp h)
  have hn : n.toNat ≠ 0 := fun h0 => writeBody_nonzero h (UInt32.toNat_inj.mp h0)
  have h1 : (1 : UInt32).toNat = 1 := rfl
  have hone := (writeBody_publish h).2 1 (by omega)
  rcases writeBody_law id data (sized_one hc) c.mWriteOffset hr.read_aligned
      hr.read_lt hr.write_aligned hr.write_le hpos with ⟨_, hbody⟩ | ⟨ws', e', n', hbody,
        hmin, _, hplace, hcarry⟩
  · rw [hbody] at hone
    cases hone
  · rw [hbody] at hone
    cases hone
    exact ⟨hmin, hplace, hcarry⟩

theorem tiled_write {c c' : Channel} {unread past : List Slot}
    (hc : Tiled c unread past) {r : WriteResult} (h : write c id size (some data) = (.ok r, c')) :
    c' = c ∨ c'.mReadOffset = c.mReadOffset ∧ c'.mSize = c.mSize ∧ ∃ new, new ≠ [] ∧
    Tiled c' (unread ++ new) past := by
  obtain ⟨hid, hsize, ⟨_, hcase⟩ | ⟨ws, e, n, hbody, _, rfl⟩⟩ := write_ok h
  · exact .inl hcase
  · obtain ⟨_, hplace, hcarry⟩ := published_law hc hsize hbody
    have hids : ∀ h ∈ ws, h.id ≠ 0 := by
      intro x hx h0
      exact hid ((hcarry.ids (record x) (List.mem_map_of_mem hx)).symm.trans h0)
    have hconf := applyAll_confined c.mAddr ws
    have hring := ring_confined hc.ring (ahead_refl _ _) hplace hconf
    have hpub := publish_ring hring (ahead_refl _ _) hplace (placement_landed hplace hids c.mAddr)
    have hlap := publish_lap (ahead_refl _ _) hplace fun hat => lap_confined hc.lap hat hconf
    refine .inr ⟨rfl, rfl, ws.map slot, ?_, hc.wide, hc.below, hpub, hlap⟩
    intro hnil
    have hcount := hcarry.count
    simp only [List.map_eq_nil_iff] at hnil
    simp [hnil] at hcount

theorem tiled_consume {c : Channel} {unread past : List Slot} (hc : Tiled c unread past)
    (hne : c.mReadOffset ≠ c.mWriteOffset) :
    ∃ c', consumeHeader c c.mReadOffset = (.ok (), c') ∧ ∃ unread' past',
    Tiled c' unread' past' := by
  obtain ⟨x, b, rest, hstep, hb, _, _, hgo, _⟩ := consume_ring hc.ring fun he =>
    hne (UInt32.toNat_inj.mp he)
  obtain ⟨r', hcons, hr'⟩ := consumeHeader_spec hstep hb
  refine ⟨_, hcons, ?_⟩
  by_cases hend : c.mWriteOffset.toNat = c.mSize.toNat ∧ b = c.mSize.toNat
  · -- the reader starts over, and the lap behind it is unread again
    obtain ⟨hw, rfl⟩ := hend
    have hr0 : r'.toNat = 0 := by rw [hr', wrapEnd_self]
    have hring := hc.ring
    have hlap := hc.lap
    rw [hw] at hring hlap
    refine ⟨past ++ [x], [], hc.wide, hc.below, ?_, fun _ => ?_⟩
    · show Ring c.mSize.toNat c.mAddr r'.toNat c.mWriteOffset.toNat _
      rw [hw, hr0]
      exact consume_end hring hlap hstep
    · show Walks.Walk _ 0 [] r'.toNat
      rw [hr0]
      exact .nil 0
  · obtain ⟨past', hlap, _⟩ := consume_lap hc.ring hc.lap hstep
    have hring := hgo hend
    rw [← hr'] at hring hlap
    exact ⟨rest, past', hc.wide, hc.below, hring, hlap⟩

theorem anyInv_step {s t : Session} {op : AnyOp} (hi : AnyInv s) (h : anyStep s op = some t) :
    AnyInv t := by
  obtain ⟨⟨unread, past, hc⟩, hheld⟩ := hi
  cases op with
  | setWriteThreshold threshold =>
    cases h
    exact ⟨⟨unread, past, hc.wide, hc.below, hc.ring, hc.lap⟩, hheld⟩
  | call op =>
    cases op with
    | readHeader =>
      simp only [anyStep, step, readHeader_ring hc.ring, Option.some.injEq] at h
      subst h
      refine ⟨⟨unread, past, hc⟩, ?_⟩
      intro hd hh
      dsimp only at hh
      split at hh
      · cases hh
      · rename_i hne
        exact ⟨(Option.some.inj hh).symm, hne⟩
    | consumeHeader =>
      cases hh : s.held with
      | none => simp [anyStep, step, hh] at h
      | some hd =>
        obtain ⟨rfl, hne⟩ := hheld hd hh
        obtain ⟨c', hcons, htiled⟩ := tiled_consume hc hne
        simp only [anyStep, step, hh, hcons, Option.some.injEq] at h
        subst h
        exact ⟨htiled, by simp⟩
    | write id size data =>
      rcases hw : write s.channel id size (some data) with ⟨res, c'⟩
      cases res with
      | error msg => simp [anyStep, step, hw] at h
      | ok r =>
        have hcase := tiled_write hc hw
        have ht : t.channel = c' ∧ t.held = s.held := by
          obtain ⟨n, err⟩ := r
          simp only [anyStep, step, hw] at h
          cases err <;> cases h <;> exact ⟨rfl, rfl⟩
        refine ⟨?_, ?_⟩
        · rw [ht.1]
          rcases hcase with rfl | ⟨_, _, new, _, htiled⟩
          · exact ⟨unread, past, hc⟩
          · exact ⟨_, past, htiled⟩
        · intro hd hh
          rw [ht.2] at hh
          obtain ⟨heq, hne⟩ := hheld hd hh
          rw [ht.1]
          rcases hcase with rfl | ⟨hr, _, new, hnew, htiled⟩
          · exact ⟨heq, hne⟩
          · refine ⟨heq.trans hr.symm, fun he => ?_⟩
            have hnil := (ring_nil_iff htiled.ring).mpr (congrArg _ he)
            exact hnew (List.append_eq_nil_iff.mp hnil).2

theorem anyInv_run {size : UInt32} {s₀ s : Session} {ops : List AnyOp} (hsize : Accepted size)
    (h₀ : Opened size s₀) (h : Run (ofFun anyStep) s₀ ops s) : AnyInv s := by
  obtain ⟨hpos, hpaged⟩ := accepted_iff.mp hsize
  obtain ⟨⟨self, raw, hinit⟩, hheld, _, _⟩ := h₀
  have hf := formed_of_init hpos hpaged hinit
  have hS := size_of_init hpos hpaged hinit
  have hlt := size.toNat_lt
  refine h.invariant AnyInv ⟨⟨[], [], by omega, by omega, hf.ring, hf.lap⟩, by simp [hheld]⟩ ?_
  exact fun _ _ _ => anyInv_step

/-! ## What is exact -/

/-- The text of the three operations makes the same tests, and stores, copies and returns the same
numbers, over words and over the integers. -/
structure TextExact (s : Session) (size : UInt32) : Prop where
  write : Same intResult
    (writeBodyOver s.channel.mSize s.channel.mWriteThreshold s.channel.mReadOffset
    s.channel.mWriteOffset size) (writeBodyOver (val s.channel.mSize)
      (val s.channel.mWriteThreshold) (val s.channel.mReadOffset)
      (val s.channel.mWriteOffset) (val size))
  availableWrite : Same val
    (availableWriteOver s.channel.mSize s.channel.mReadOffset s.channel.mWriteOffset)
    (availableWriteOver (val s.channel.mSize) (val s.channel.mReadOffset)
    (val s.channel.mWriteOffset))
  consumeHeader : ∀ h, s.held = some h → Same intConsumed
    (consumeHeaderOver s.channel.mSize h (sizeAt s.channel.mAddr h) (verifyReadHeader s.channel h))
    (consumeHeaderOver (val s.channel.mSize) (val h) (val (sizeAt s.channel.mAddr h))
      (verifyReadHeader s.channel h))

theorem textExact_of_inv {s : Session} (hi : AnyInv s) (size : UInt32) : TextExact s size := by
  obtain ⟨⟨unread, past, hc⟩, hheld⟩ := hi
  have hr := hc.ring
  refine ⟨?_, ?_, ?_⟩
  · exact writeBodyOver_same hr.size_aligned _ hr.read_aligned hr.read_lt
      hr.write_aligned hr.write_le
  · refine availableWriteOver_same hr.write_le fun hlt => ?_
    have := hr.read_aligned
    have := hr.write_aligned
    omega
  · intro h hh
    obtain ⟨rfl, hne⟩ := hheld h hh
    obtain ⟨x, b, rest, hstep, hb, _⟩ := consume_ring hr fun he => hne (UInt32.toNat_inj.mp he)
    obtain ⟨_, _, _, _, rfl⟩ := recordStep_eq hstep
    exact consumeHeaderOver_same hb _

/-- No block that is larger than the buffer, rounded over the integers, is promised a place. -/
def CanWriteExact (c : Channel) (size : UInt32) : Prop :=
  c.mSize.toNat < alignUp (8 + size.toNat) → canWrite c size = false

/-- The sum of the payloads of the records that a write puts down. -/
def payloadBytes (c : Channel) (id size : UInt32) (data : Nat → UInt8) : Nat :=
  ((writtenSlots c id size data).flatMap fun x => x.record.payload).length

/-- The result of `write` tells whether anything was published, and how much. -/
def ResultExact (c : Channel) (size : UInt32) : Prop :=
  ∀ id data n err c', write c id size (some data) = (.ok (n, err), c') →
    (0 ≤ n ↔ c'.mWriteOffset ≠ c.mWriteOffset) ∧ (0 ≤ n → n = payloadBytes c id size data)

/-! ### The promise of `can_write` -/

/-- The room that `can_write` asks for, cut to 32 bits. -/
theorem needed_toNat (size : UInt32) :
    (alignSizeToCacheline (headerSize + size) + cacheLineSize).toNat =
    (alignUp (8 + size.toNat) + 64) % 4294967296 := by
  have hsum : (headerSize + size + (cacheLineSize - 1)).toNat =
      ((8 + size.toNat) % 4294967296 + 63) % 4294967296 := by
    rw [UInt32.toNat_add, UInt32.toNat_add, show (cacheLineSize - 1).toNat = 63 from rfl,
      show headerSize.toNat = 8 from rfl]
  have hlt : ((8 + size.toNat) % 4294967296 + 63) % 4294967296 < 2 ^ 32 := Nat.mod_lt _ (by decide)
  have hmask : (alignSizeToCacheline (headerSize + size)).toNat =
      ((8 + size.toNat) % 4294967296 + 63) % 4294967296 / 64 * 64 := by
    rw [alignSizeToCacheline, UInt32.toNat_and, hsum,
      show (~~~(cacheLineSize - 1)).toNat = 4294967232 from rfl, and_lineMask _ hlt]
  rw [UInt32.toNat_add, hmask, show cacheLineSize.toNat = 64 from rfl, alignUp]
  omega

/-- The writer cannot be given `k` bytes. -/
def Cramped (S r w k : Nat) : Prop := (w < r ∧ r ≤ w + k) ∨ (r ≤ w ∧ S < w + k ∧ r ≤ k)

instance (S r w k : Nat) : Decidable (Cramped S r w k) := inferInstanceAs (Decidable (_ ∨ _))

/-- The sizes whose rounded block, with a cache line to spare, is below 2^32; of the larger ones
those for which the rest modulo 2^32 is refused all the same. -/
def CanWriteWhen (S r w size : Nat) : Prop :=
  size ≤ 4294967160 ∨ (4294967225 ≤ size ∧ Cramped S r w 64) ∨
    (4294967289 ≤ size ∧ Cramped S r w 128)

theorem cramped_iff {c : Channel} {unread past : List Slot} (hc : Tiled c unread past) {k : Nat}
    (hk : k = 64 ∨ k = 128) :
    Cramped c.mSize.toNat c.mReadOffset.toNat c.mWriteOffset.toNat k ↔
    (availableWrite c).toNat < k := by
  rw [availableWrite_toNat hc.ring, Cramped]
  have hS := hc.ring.size_aligned
  have hr := hc.ring.read_aligned
  have hw := hc.ring.write_aligned
  have hle := hc.ring.write_le
  split
  · omega
  · split <;> omega

theorem availableWrite_le {c : Channel} {unread past : List Slot} (hc : Tiled c unread past) :
    (availableWrite c).toNat ≤ c.mSize.toNat := by
  rw [availableWrite_toNat hc.ring]
  have hr := hc.ring.read_lt
  have hle := hc.ring.write_le
  split
  · omega
  · split <;> omega

theorem canWriteExact_iff {c : Channel} {unread past : List Slot}
    (hc : Tiled c unread past) (size : UInt32) :
    CanWriteExact c size ↔ CanWriteWhen c.mSize.toNat c.mReadOffset.toNat
    c.mWriteOffset.toNat size.toNat := by
  have hS := c.mSize.toNat_lt
  have hsize := size.toNat_lt
  have hbelow := hc.below
  have hline := hc.ring.size_aligned
  have hle := availableWrite_le hc
  have hfalse : canWrite c size = false ↔
      (availableWrite c).toNat < (alignUp (8 + size.toNat) + 64) % 4294967296 := by
    rw [canWrite, decide_eq_false_iff_not, ge_iff_le, UInt32.le_iff_toNat_le,
      needed_toNat, Nat.not_le]
  rw [CanWriteExact, hfalse, CanWriteWhen, cramped_iff hc (.inl rfl), cramped_iff hc (.inr rfl)]
  simp only [alignUp]
  omega

/-! ### The result of `write` -/

theorem placement_moves {S s w e : Nat} {ws : List HeaderWrite} (h : Placement S s w ws e) :
    e ≠ w := by
  cases h with
  | tail h _ _ hoff _ => simp only [nextOffset, alignUp]; omega
  | split h₁ h₂ hsw _ _ _ _ _ _ hroom => omega
  | gap h _ hoff _ _ => simp only [nextOffset, alignUp]; omega
  | parked h hsw _ _ _ hroom => omega

/-- Below 2^31 an unsigned count survives as an `int`; from there on it is negative. -/
theorem toInt_nonneg_iff (n : UInt32) : 0 ≤ n.toInt32.toInt ↔ n.toNat < 2 ^ 31 := by
  have hb : n.toInt32.toInt = n.toBitVec.toInt := rfl
  have hn : n.toBitVec.toNat = n.toNat := rfl
  rw [hb, BitVec.toInt_eq_toNat_cond, hn]
  have := n.toNat_lt
  split <;> omega

/-- The count that a write of `size` bytes may publish fits into an `int`, or the write is
refused. -/
def ResultWhen (S r w threshold size : Nat) : Prop :=
  min size (capacity S r w) < 2 ^ 31 ∨ capacity S r w < min size threshold

theorem payloadBytes_of_publish {c : Channel} {id size : UInt32} {data : Nat → UInt8}
    {ws : List HeaderWrite} {e n : UInt32}
      (hbody : writeBody c.mSize c.mWriteThreshold c.mReadOffset c.mWriteOffset id size data =
        (ws, .publish e n)) (hcarry : Carries id data (ws.map record) n.toNat) :
    payloadBytes c id size data = n.toNat := by
  have hlen := congrArg List.length hcarry.bytes
  rw [List.flatMap_map, firstBytes, List.length_map, List.length_range] at hlen
  rw [payloadBytes, writtenSlots, hbody, List.flatMap_map]
  exact hlen

theorem resultExact_of_when {c : Channel} {unread past : List Slot}
    (hc : Tiled c unread past) {size : UInt32}
    (hwhen : ResultWhen c.mSize.toNat c.mReadOffset.toNat c.mWriteOffset.toNat
      c.mWriteThreshold.toNat size.toNat) : ResultExact c size := by
  intro id data k err c' h
  obtain ⟨_, hsize, ⟨hr, rfl⟩ | ⟨ws, e, n, hbody, hr, rfl⟩⟩ := write_ok h
  · obtain ⟨rfl, _⟩ := Prod.mk.inj hr
    exact ⟨⟨fun hneg => absurd hneg (by decide), fun hne => absurd rfl hne⟩, fun hneg =>
      absurd hneg (by decide)⟩
  · obtain ⟨rfl, _⟩ := Prod.mk.inj hr
    obtain ⟨hn, hplace, hcarry⟩ := published_law hc hsize hbody
    have hreach := (writeBody_publish hbody).1
    have hsmall : n.toNat < 2 ^ 31 := by
      rw [ResultWhen] at hwhen
      omega
    have hmoved : e ≠ c.mWriteOffset := fun he => placement_moves hplace (congrArg _ he)
    have hint := toInt_of_small n hsmall
    refine ⟨⟨fun _ => hmoved, fun _ => (toInt_nonneg_iff n).mpr hsmall⟩, fun _ => ?_⟩
    rw [hint, payloadBytes_of_publish hbody hcarry]

/-- A write of the first bytes of any data under any id, when it is not refused. -/
theorem write_publishes {c : Channel} {unread past : List Slot}
    (hc : Tiled c unread past) {size : UInt32} (hsize : size ≠ 0)
      (hleast : min size.toNat c.mWriteThreshold.toNat ≤ capacity c.mSize.toNat
        c.mReadOffset.toNat c.mWriteOffset.toNat)
    (hcap : 0 < capacity c.mSize.toNat c.mReadOffset.toNat c.mWriteOffset.toNat)
    (id : UInt32) (hid : id ≠ 0) (data : Nat → UInt8) :
    ∃ (n : UInt32) (c' : Channel), write c id size (some data) = (.ok (n.toInt32.toInt, none), c') ∧
      n.toNat = min size.toNat (capacity c.mSize.toNat c.mReadOffset.toNat c.mWriteOffset.toNat) ∧
      c'.mWriteOffset ≠ c.mWriteOffset := by
  have hr := hc.ring
  have hpos : 0 < size.toNat := Nat.pos_of_ne_zero fun h => hsize (UInt32.toNat_inj.mp h)
  have h1 : (1 : UInt32).toNat = 1 := rfl
  rcases writeBody_law id data (sized_one hc) c.mWriteOffset hr.read_aligned
      hr.read_lt hr.write_aligned hr.write_le hpos with ⟨hlt, _⟩ | ⟨ws, e, n,
        hbody, hn, _, hplace, _⟩
  · omega
  · have hany := (writeBody_publish hbody).2 c.mWriteThreshold (by omega)
    refine ⟨n,
      { c with mAddr := applyAll c.mAddr (ws.flatMap HeaderWrite.stores), mWriteOffset := e }, ?_,
      hn, ?_⟩
    · simp only [write, hid, hsize, hany, ↓reduceIte, Outcome.apply]
    · exact fun he => placement_moves hplace (congrArg _ he)

theorem when_of_resultExact {c : Channel} {unread past : List Slot}
    (hc : Tiled c unread past) {size : UInt32} (h : ResultExact c size) :
    ResultWhen c.mSize.toNat c.mReadOffset.toNat c.mWriteOffset.toNat
    c.mWriteThreshold.toNat size.toNat := by
  rw [ResultWhen, ← Nat.not_le, ← Nat.not_le, ← not_and_or]
  rintro ⟨hbig, hleast⟩
  have hsize : size ≠ 0 := by
    rintro rfl
    rw [show (0 : UInt32).toNat = 0 from rfl] at hbig
    omega
  obtain ⟨n, c', hw, hn, hmoved⟩ := write_publishes hc hsize hleast (by omega) 1
    (by decide) fun _ => 0
  have hnonneg := (h 1 _ _ _ _ hw).1.mpr hmoved
  rw [toInt_nonneg_iff] at hnonneg
  omega


/-- Everything that is said of the arithmetic in one state, for one size. -/
structure Exact (s : Session) (size : UInt32) : Prop where
  text : TextExact s size
  canWrite : CanWriteExact s.channel size
  result : ResultExact s.channel size

/-- The arithmetic is exact in the states that a segment of any size can reach, except for the
promises about the largest sizes and the results that do not fit into an `int`. -/
theorem exact_iff {segment : UInt32} {s₀ s : Session} {ops : List AnyOp} (hsize : Accepted segment)
    (h₀ : Opened segment s₀) (h : Run (ofFun anyStep) s₀ ops s) (size : UInt32) :
    let c := s.channel
    Exact s size ↔ CanWriteWhen c.mSize.toNat c.mReadOffset.toNat c.mWriteOffset.toNat size.toNat ∧
      ResultWhen c.mSize.toNat c.mReadOffset.toNat c.mWriteOffset.toNat c.mWriteThreshold.toNat
        size.toNat := by
  intro c
  have hi := anyInv_run hsize h₀ h
  obtain ⟨unread, past, hc⟩ := hi.tiled
  have hcan := canWriteExact_iff hc size
  constructor
  · intro hexact
    exact ⟨hcan.mp hexact.canWrite, when_of_resultExact hc hexact.result⟩
  · rintro ⟨hpromise, hresult⟩
    exact ⟨textExact_of_inv hi size, hcan.mpr hpromise, resultExact_of_when hc hresult⟩

theorem accepted_onePage : Accepted 4096 := accepted_iff.mpr ⟨by decide, by decide⟩

theorem exact_one_page :
    ∃ s, runFun anyStep [.setWriteThreshold 5000, .call (.write 7 100 (fun i => UInt8.ofNat i)),
      .call .readHeader] onePage = some s ∧ Exact s 3000 := by
  have heval :
      (runFun anyStep [.setWriteThreshold 5000, .call (.write 7 100 (fun i => UInt8.ofNat i)),
        .call .readHeader] onePage).map (fun s => decide (s.channel.mSize = 4032)) = some true := by
    decide
  obtain ⟨s, hs, hS⟩ := Option.map_eq_some_iff.mp heval
  have hsmall : (3000 : UInt32).toNat = 3000 := rfl
  refine ⟨s, hs, (exact_iff accepted_onePage onePage_opened (run_of_runFun hs) 3000).mpr
    ⟨.inl ?_, .inl ?_⟩⟩
  · omega
  · omega

/-- The largest segment, with a page to spare below 2^32. -/
def widest : Session :=
  ⟨(channelInitialize 4294963200 4294963200 ⟨7, 7, 7, 7, 7, fun _ => 0⟩).2, none, [], []⟩

/-- An empty page has room for a block of 4 GiB, says `can_write`; and a write of 2 GiB into the
largest segment publishes them all and returns a negative number. -/
theorem largest_sizes_inexact :
    (Accepted 4096 ∧ Opened 4096 onePage ∧ ¬ Exact onePage 4294967295) ∧
      (Accepted 4294963200 ∧ Opened 4294963200 widest ∧ ¬ Exact widest 2147483648) := by
  refine ⟨⟨accepted_onePage, onePage_opened, fun h => ?_⟩,
    ⟨accepted_iff.mpr ⟨by decide, by decide⟩, ⟨⟨4294963200, _, rfl⟩, rfl, rfl, rfl⟩, fun h => ?_⟩⟩
  · have hfalse := h.canWrite (by decide)
    revert hfalse
    decide
  · have hlaw := (h.result 1 (fun _ => 0) (-2147483648) none _ rfl).1
    revert hlaw
    decide

end ShmIpcExact
