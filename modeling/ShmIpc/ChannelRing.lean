import Mathlib.Order.Nat
import ShmIpc.Walks
import ShmIpc.ChannelPlacement

/-!
# The ring of records

The data area is read as a walk over records. Between the read and the write
offset the walk meets exactly the unread records, in one piece or around the
end of the buffer. A write appends to this list and a consumed header leaves
it; the one exception is a reader that empties the buffer while the write
offset stands at its very end.
-/
namespace ShmIpcRing

open ByteMemory Walks ShmIpcChannel ShmIpcPlacement

/-- A record together with the place of its header. -/
structure Slot where
  offset : Nat
  record : Record
  deriving DecidableEq

def slot (h : HeaderWrite) : Slot := ⟨h.offset.toNat, record h⟩

/-- One step of the walk: a header with a nonzero id and a size inside the buffer. -/
def recordStep (S : Nat) (m : Memory) (off : Nat) : Option (Slot × Nat) :=
  let size := (loadWord m off).toNat
  let id := loadWord m (off + 4)
  if id ≠ 0 ∧ 0 < size ∧ off + 8 + size ≤ S then
    some (⟨off, ⟨id, slice m (off + 8) size⟩⟩, off + alignUp (8 + size))
  else none

variable {S : Nat} {m m' : Memory}

/-- What a successful step says about the bytes it read. -/
theorem recordStep_eq {a b : Nat} {x : Slot} (h : recordStep S m a = some (x, b)) :
    loadWord m (a + 4) ≠ 0 ∧ 0 < (loadWord m a).toNat ∧ a + 8 + (loadWord m a).toNat ≤ S ∧
      x = ⟨a, ⟨loadWord m (a + 4), slice m (a + 8) (loadWord m a).toNat⟩⟩ ∧
      b = a + alignUp (8 + (loadWord m a).toNat) := by
  simp only [recordStep] at h
  split at h
  · rename_i hc
    simp only [Option.some.injEq, Prod.mk.injEq] at h
    exact ⟨hc.1, hc.2.1, hc.2.2, h.1.symm, h.2.symm⟩
  · cases h

theorem recordStep_forward : Forward (recordStep S m) := by
  intro a b x h
  obtain ⟨_, _, _, _, rfl⟩ := recordStep_eq h
  have := le_alignUp (8 + (loadWord m a).toNat)
  omega

theorem recordStep_aligned {a b : Nat} {x : Slot} (h : recordStep S m a = some (x, b))
    (ha : a % 64 = 0) : b % 64 = 0 := by
  obtain ⟨_, _, _, _, rfl⟩ := recordStep_eq h
  have := alignUp_aligned (8 + (loadWord m a).toNat)
  omega

theorem recordStep_le {a b : Nat} {x : Slot} (h : recordStep S m a = some (x, b)) (ha : a % 64 = 0)
    (hS : S % 64 = 0) : b ≤ S := by
  obtain ⟨_, _, hin, _, rfl⟩ := recordStep_eq h
  rw [← alignUp_add ha]
  exact alignUp_le (by omega) hS

/-- A step reads nothing behind the record it finds. -/
theorem recordStep_congr {a b : Nat} {x : Slot} (hm : AgreeOn a b m m')
    (h : recordStep S m a = some (x, b)) : recordStep S m' a = some (x, b) := by
  obtain ⟨_, _, _, _, rfl⟩ := recordStep_eq h
  have hle := le_alignUp (8 + (loadWord m a).toNat)
  have hsize : loadWord m a = loadWord m' a := loadWord_congr (hm.mono (Nat.le_refl _) (by omega))
  have hid : loadWord m (a + 4) = loadWord m' (a + 4) :=
    loadWord_congr (hm.mono (by omega) (by omega))
  have hdata : slice m (a + 8) (loadWord m a).toNat = slice m' (a + 8) (loadWord m a).toNat :=
    slice_congr (hm.mono (by omega) (by omega))
  simp only [recordStep, ← hsize, ← hid, ← hdata] at h ⊢
  exact h

theorem walk_congr {a b : Nat} {xs : List Slot} (hm : AgreeOn a b m m')
    (h : Walk (recordStep S m) a xs b) : Walk (recordStep S m') a xs b :=
  h.transfer recordStep_forward fun _ _ _ hc hd hn => recordStep_congr (hm.mono hc hd) hn

/-! ## Stores of a header write -/

theorem stores_range {h : HeaderWrite} {s : Store} (hs : s ∈ h.stores) :
    h.offset.toNat ≤ s.addr ∧ s.addr + s.len ≤ h.offset.toNat + 8 + h.size.toNat := by
  simp only [HeaderWrite.stores, List.mem_cons, List.not_mem_nil, or_false] at hs
  rcases hs with rfl | rfl | rfl <;> simp only [storeWord] <;> omega

/-- `m'` differs from `m` at most in the headers and payloads of `ws`. -/
def Confined (ws : List HeaderWrite) (m m' : Memory) : Prop :=
  ∀ a, (∀ h ∈ ws, a < h.offset.toNat ∨ h.offset.toNat + 8 + h.size.toNat ≤ a) → m a = m' a

/-- Every record of `ws` can be read back at its place. -/
def Landed (S : Nat) (m : Memory) (ws : List HeaderWrite) : Prop :=
  ∀ h ∈ ws, recordStep S m h.offset.toNat = some (slot h, nextOffset h)

theorem Confined.agreeOn {ws : List HeaderWrite} (hc : Confined ws m m') {lo hi : Nat}
    (hd : ∀ h ∈ ws, hi ≤ h.offset.toNat ∨ h.offset.toNat + 8 + h.size.toNat ≤ lo) :
    AgreeOn lo hi m m' := by
  intro a ha hb
  apply hc
  intro h hh
  rcases hd h hh with h₁ | h₁ <;> omega

theorem applyAll_confined (m : Memory) (ws : List HeaderWrite) :
    Confined ws m (applyAll m (ws.flatMap HeaderWrite.stores)) := by
  intro a ha
  refine (applyAll_outside _ m a ?_).symm
  intro s hs hc
  obtain ⟨h, hh, hs⟩ := List.mem_flatMap.mp hs
  have hr := stores_range hs
  have := ha h hh
  unfold Store.Covers at hc
  omega

/-- A freshly written record reads back. -/
theorem landed_stores (m : Memory) (h : HeaderWrite) (hid : h.id ≠ 0) (hf : Fits S h) :
    recordStep S (applyAll m h.stores) h.offset.toNat = some (slot h, nextOffset h) := by
  have hsize : loadWord (applyAll m h.stores) h.offset.toNat = h.size := by
    have hframe : AgreeOn h.offset.toNat (h.offset.toNat + 4)
        (applyAll m [storeWord (h.offset.toNat + 4) h.id, storeWord h.offset.toNat h.size])
        (applyAll m h.stores) := applyAll_agreeOn _ [⟨h.offset.toNat + 8, h.size.toNat, h.data⟩]
        _ _ (by simp)
    rw [← loadWord_congr hframe]
    exact loadWord_apply _ _ _
  have hload : loadWord (applyAll m h.stores) (h.offset.toNat + 4) = h.id := by
    have hframe : AgreeOn (h.offset.toNat + 4) (h.offset.toNat + 4 + 4)
        (applyAll m [storeWord (h.offset.toNat + 4) h.id]) (applyAll m h.stores) :=
      applyAll_agreeOn _ [storeWord h.offset.toNat h.size,
        ⟨h.offset.toNat + 8, h.size.toNat, h.data⟩] _ _ (by simp [storeWord])
    rw [← loadWord_congr hframe]
    exact loadWord_apply _ _ _
  have hdata : slice (applyAll m h.stores) (h.offset.toNat + 8) h.size.toNat =
      firstBytes h.data h.size.toNat :=
    slice_apply _ ⟨h.offset.toNat + 8, h.size.toNat, h.data⟩
  simp only [recordStep, hsize, hload, hdata]
  rw [if_pos ⟨hid, hf.nonempty, hf.inside⟩]
  rfl

/-- The records of a placement do not overlap, so all of them read back. -/
theorem placement_landed {s w e : Nat} {ws : List HeaderWrite} (hp : Placement S s w ws e)
    (hid : ∀ h ∈ ws, h.id ≠ 0) (m : Memory) :
    Landed S (applyAll m (ws.flatMap HeaderWrite.stores)) ws := by
  have hone (h : HeaderWrite) (hh : h ∈ ws) (hf : Fits S h) :
      Landed S (applyAll m ([h].flatMap HeaderWrite.stores)) [h] := by
    intro h' hm
    rw [List.mem_singleton.mp hm]
    simpa using landed_stores m h (hid h hh) hf
  cases hp with
  | tail h _ _ _ hf => exact hone h List.mem_cons_self hf
  | gap h _ _ hf _ => exact hone h List.mem_cons_self hf
  | parked h _ _ _ hf _ => exact hone h List.mem_cons_self hf
  | split h₁ h₂ hle _ ho₁ hf₁ hn₁ ho₂ hf₂ hgap =>
    have hsplit : applyAll m ([h₁, h₂].flatMap HeaderWrite.stores) = applyAll
        (applyAll m h₁.stores) h₂.stores := by
      simp [applyAll_append]
    rw [hsplit]
    intro h hm
    rcases List.mem_cons.mp hm with rfl | hm
    · refine recordStep_congr (applyAll_agreeOn _ _ _ _ ?_)
        (landed_stores m h (hid h List.mem_cons_self) hf₁)
      intro s hs
      have := stores_range hs
      have := lt_nextOffset h₂
      omega
    · rw [List.mem_singleton.mp hm]
      exact landed_stores _ h₂ (hid h₂ (by simp)) hf₂

/-! ## Layout -/

inductive Layout (S : Nat) (m : Memory) : Nat → Nat → List Slot → Prop where
  | flat {r w : Nat} {unread : List Slot} : r ≤ w → Walk (recordStep S m) r unread w →
      Layout S m r w unread
  | wrapped {r w : Nat} {tail head : List Slot} : w < r → Walk (recordStep S m) r tail S →
      Walk (recordStep S m) 0 head w → Layout S m r w (tail ++ head)

/-- The ring invariant: aligned offsets and a walk over exactly the unread records. -/
structure Ring (S : Nat) (m : Memory) (r w : Nat) (unread : List Slot) : Prop where
  size_aligned : S % 64 = 0
  read_aligned : r % 64 = 0
  write_aligned : w % 64 = 0
  read_lt : r < S
  write_le : w ≤ S
  layout : Layout S m r w unread

/-- The records of the current lap that lie behind the reader. They are met again
if the reader starts over while the write offset still stands at the end. -/
def Lap (S : Nat) (m : Memory) (r w : Nat) (past : List Slot) : Prop :=
  r ≤ w → Walk (recordStep S m) 0 past r

/-- The reader advanced from `s` to `r` while the write offset stayed at `w`, without
starting over in front of a write offset at the end. -/
def Ahead (s r w : Nat) : Prop := (s ≤ w → s ≤ r ∧ r ≤ w) ∧ (w < s → s ≤ r ∨ r ≤ w)

theorem ahead_refl (r w : Nat) : Ahead r r w :=
  ⟨fun h => ⟨Nat.le_refl r, h⟩, fun _ => .inl (Nat.le_refl r)⟩

theorem ring_empty (hS : S % 64 = 0) (hpos : 0 < S) : Ring S m 0 0 [] :=
  ⟨hS, rfl, rfl, hpos, Nat.zero_le S, .flat (Nat.le_refl 0) (.nil 0)⟩

/-- The ring is drained exactly when the offsets meet. -/
theorem ring_nil_iff {r w : Nat} {unread : List Slot} (h : Ring S m r w unread) :
    unread = [] ↔ r = w := by
  cases h.layout with
  | flat hle hw =>
    constructor
    · rintro rfl
      cases hw
      rfl
    · rintro rfl
      exact hw.eq_nil recordStep_forward
  | wrapped hlt ht hh =>
    have hr := h.read_lt
    obtain ⟨x, b, ys, _, rfl, _⟩ := ht.exists_cons (by omega)
    constructor
    · intro hnil; simp at hnil
    · intro heq; omega

/-- The records of a walk lie between its ends. -/
theorem walk_range {a b : Nat} {xs : List Slot} (h : Walk (recordStep S m) a xs b) :
    ∀ x ∈ xs, a ≤ x.offset ∧ x.offset + 8 + x.record.payload.length ≤ b := by
  induction h with
  | nil => simp
  | @cons a _ _ _ _ hn hw ih =>
    obtain ⟨_, _, _, rfl, rfl⟩ := recordStep_eq hn
    have hle := hw.le recordStep_forward
    have hup := le_alignUp (8 + (loadWord m a).toNat)
    intro x hx
    rcases List.mem_cons.mp hx with rfl | hx
    · simp only [slice, List.length_map, List.length_range]
      omega
    · have := ih x hx
      omega

/-! ## Publishing -/

section Publish

variable {s r w e : Nat} {ws : List HeaderWrite} {unread past : List Slot}

/-- A placement touches only cache lines the reader cannot reach. -/
theorem placement_clear (hr : Ring S m r w unread) (ha : Ahead s r w) (hp : Placement S s w ws e) :
    ∀ h ∈ ws, (r ≤ w → w ≤ h.offset.toNat ∨ h.offset.toNat + 8 + h.size.toNat ≤ r) ∧
      (w < r → w ≤ h.offset.toNat ∧ h.offset.toNat + 8 + h.size.toNat ≤ r) := by
  have hwS := hr.write_le
  have hrS := hr.read_lt
  cases hp with
  | tail h hle _ ho _ =>
    have := ha.1 hle
    simp only [List.mem_singleton, forall_eq]
    omega
  | split h₁ h₂ hle _ ho₁ _ _ _ _ hgap =>
    have := ha.1 hle
    have := lt_nextOffset h₂
    simp only [List.mem_cons, List.not_mem_nil, or_false, forall_eq_or_imp, forall_eq]
    omega
  | gap h hlt ho _ hgap =>
    have := ha.2 hlt
    have := lt_nextOffset h
    simp only [List.mem_singleton, forall_eq]
    omega
  | parked h hle hS _ _ hgap =>
    have := ha.1 hle
    have := lt_nextOffset h
    simp only [List.mem_singleton, forall_eq]
    omega

/-- Filling a placement leaves the ring alone. The snapshot `s` of the read offset may be stale. -/
theorem ring_confined (hr : Ring S m r w unread) (ha : Ahead s r w) (hp : Placement S s w ws e)
    (hc : Confined ws m m') : Ring S m' r w unread := by
  have hclear := placement_clear hr ha hp
  refine ⟨hr.size_aligned, hr.read_aligned, hr.write_aligned, hr.read_lt, hr.write_le, ?_⟩
  cases hr.layout with
  | flat hrw hwalk =>
    exact .flat hrw (walk_congr (hc.agreeOn fun h hh => (hclear h hh).1 hrw) hwalk)
  | wrapped hwr ht hh =>
    exact .wrapped hwr
      (walk_congr (hc.agreeOn fun h hm => .inr ((hclear h hm).2 hwr).2) ht)
      (walk_congr (hc.agreeOn fun h hm => .inl ((hclear h hm).2 hwr).1) hh)

/-- Filling a placement changes no byte of an unread record. -/
theorem unread_confined (hr : Ring S m r w unread) (ha : Ahead s r w) (hp : Placement S s w ws e)
    (hc : Confined ws m m') :
    ∀ x ∈ unread, AgreeOn x.offset (x.offset + 8 + x.record.payload.length) m m' := by
  have hclear := placement_clear hr ha hp
  intro x hx
  cases hr.layout with
  | flat hrw hwalk =>
    have hrange := walk_range hwalk x hx
    refine hc.agreeOn fun h hh => ?_
    have := (hclear h hh).1 hrw
    omega
  | wrapped hwr ht hh =>
    refine hc.agreeOn fun h hm => ?_
    have := (hclear h hm).2 hwr
    rcases List.mem_append.mp hx with hx | hx
    · have := walk_range ht x hx
      omega
    · have := walk_range hh x hx
      omega

/-- Records placed at the write offset leave the lap behind the reader alone. -/
theorem lap_confined (hlap : Lap S m r w past) (hat : ∀ h ∈ ws, h.offset.toNat = w)
    (hc : Confined ws m m') : Lap S m' r w past := by
  intro hrw
  refine walk_congr (hc.agreeOn ?_) (hlap hrw)
  intro h hh
  exact .inl (by rw [hat h hh]; exact hrw)

/-- Publishing the records of a placement appends them to the unread records. -/
theorem publish_ring (hr : Ring S m r w unread) (ha : Ahead s r w) (hp : Placement S s w ws e)
    (hl : Landed S m ws) : Ring S m r e (unread ++ ws.map slot) := by
  have hS := hr.size_aligned
  have hlt := hr.read_lt
  have hstep (h : HeaderWrite) (hh : h ∈ ws) :
      Walk (recordStep S m) h.offset.toNat [slot h] (nextOffset h) := .single (hl h hh)
  cases hp with
  | tail h hle hwS ho hf =>
    have hrw : r ≤ w := (ha.1 hle).2
    have hge := lt_nextOffset h
    have hnew := hstep h List.mem_cons_self
    rw [ho] at hnew
    cases hr.layout with
    | wrapped hlt _ _ => omega
    | flat _ hwalk =>
      exact ⟨hS, hr.read_aligned, nextOffset_aligned hf, hlt, nextOffset_le hf hS,
        .flat (by omega) (hwalk.append hnew)⟩
  | split h₁ h₂ hle hwS ho₁ hf₁ hn₁ ho₂ hf₂ hgap =>
    have hsr := ha.1 hle
    have hfirst := hstep h₁ List.mem_cons_self
    have hsecond := hstep h₂ (by simp)
    rw [ho₁, hn₁] at hfirst
    rw [ho₂] at hsecond
    cases hr.layout with
    | wrapped hlt _ _ => omega
    | flat _ hwalk =>
      have hlay := Layout.wrapped (by omega) (hwalk.append hfirst) hsecond
      rw [List.append_assoc] at hlay
      exact ⟨hS, hr.read_aligned, nextOffset_aligned hf₂, hlt, nextOffset_le hf₂ hS, hlay⟩
  | gap h hws ho hf hgap =>
    have hge := lt_nextOffset h
    have hnew := hstep h List.mem_cons_self
    rw [ho] at hnew
    refine ⟨hS, hr.read_aligned, nextOffset_aligned hf, hlt, nextOffset_le hf hS, ?_⟩
    cases hr.layout with
    | flat hrw hwalk => exact .flat (by omega) (hwalk.append hnew)
    | wrapped hwr ht hh =>
      have := ha.2 hws
      have hlay := Layout.wrapped (by omega) ht (hh.append hnew)
      rw [← List.append_assoc] at hlay
      exact hlay
  | parked h hle hwS ho hf hgap =>
    have hsr := ha.1 hle
    have hnew := hstep h List.mem_cons_self
    rw [ho] at hnew
    refine ⟨hS, hr.read_aligned, nextOffset_aligned hf, hlt, nextOffset_le hf hS, ?_⟩
    cases hr.layout with
    | wrapped hlt _ _ => omega
    | flat hrw hwalk =>
      rw [hwS] at hwalk
      exact .wrapped (by omega) hwalk hnew

/-- After a publication the lap behind the reader is the old one, or the reader is in a later
lap. -/
theorem publish_lap (ha : Ahead s r w) (hp : Placement S s w ws e)
    (hlap : (∀ h ∈ ws, h.offset.toNat = w) → Lap S m r w past) : Lap S m r e past := by
  intro hre
  cases hp with
  | tail h hle _ ho _ => exact hlap (by simpa using ho) (ha.1 hle).2
  | split _ _ hle _ _ _ _ _ _ hgap => have := (ha.1 hle).1; omega
  | gap h hws ho _ hgap => exact hlap (by simpa using ho) (by have := ha.2 hws; omega)
  | parked h hle _ _ _ hgap => have := (ha.1 hle).1; omega

end Publish

/-! ## Consuming -/

/-- Where the reader stands after a record that ends at `b`. -/
def wrapEnd (S b : Nat) : Nat := if b = S then 0 else b

theorem wrapEnd_self (S : Nat) : wrapEnd S S = 0 := if_pos rfl

theorem wrapEnd_of_ne {S b : Nat} (h : b ≠ S) : wrapEnd S b = b := if_neg h

section Consume

variable {s r w b : Nat} {x : Slot} {unread past : List Slot}

/-- Consuming takes the first unread record away, unless the buffer runs empty at its very end. -/
theorem consume_ring (hr : Ring S m r w unread) (hne : r ≠ w) :
    ∃ x b rest, recordStep S m r = some (x, b) ∧ b ≤ S ∧ (r ≤ w → b ≤ w) ∧ unread = x :: rest ∧
      (¬ (w = S ∧ b = S) → Ring S m (wrapEnd S b) w rest) ∧ (w = S ∧ b = S → rest = []) := by
  have hS := hr.size_aligned
  have hlt := hr.read_lt
  cases hr.layout with
  | flat hrw hwalk =>
    obtain ⟨x, b, rest, hstep, rfl, hrest⟩ := hwalk.exists_cons hne
    have hbw := hrest.le recordStep_forward
    have hbS := recordStep_le hstep hr.read_aligned hS
    refine ⟨x, b, rest, hstep, hbS, fun _ => hbw, rfl, ?_, ?_⟩
    · intro hend
      have hwle := hr.write_le
      rw [wrapEnd_of_ne (by omega)]
      exact ⟨hS, recordStep_aligned hstep hr.read_aligned, hr.write_aligned, by omega,
        hwle, .flat hbw hrest⟩
    · rintro ⟨rfl, rfl⟩
      exact hrest.eq_nil recordStep_forward
  | wrapped hwr ht hh =>
    rename_i tail head
    obtain ⟨x, b, rest, hstep, rfl, hrest⟩ := ht.exists_cons (by omega)
    have hbS := hrest.le recordStep_forward
    refine ⟨x, b, rest ++ head, hstep, hbS, fun h => by omega, rfl, ?_, fun h => by omega⟩
    intro _
    by_cases hb : b = S
    · subst hb
      obtain rfl : rest = [] := hrest.eq_nil recordStep_forward
      rw [wrapEnd_self]
      exact ⟨hS, rfl, hr.write_aligned, by omega, hr.write_le, .flat (Nat.zero_le _) hh⟩
    · rw [wrapEnd_of_ne hb]
      have hrb := recordStep_forward hstep
      exact ⟨hS, recordStep_aligned hstep hr.read_aligned, hr.write_aligned, by omega, hr.write_le,
        .wrapped (by omega) hrest hh⟩

/-- The consumed record joins the lap behind the reader, or a new lap begins. -/
theorem consume_lap (hr : Ring S m r w unread) (hlap : Lap S m r w past)
    (hstep : recordStep S m r = some (x, b)) :
    ∃ past', Lap S m (wrapEnd S b) w past' ∧ ∀ y ∈ past', y = x ∨ y ∈ past := by
  have hbS := recordStep_le hstep hr.read_aligned hr.size_aligned
  have hrb := recordStep_forward hstep
  have hw := hr.write_le
  by_cases hb : b = S
  · exact ⟨[], fun _ => by rw [hb, wrapEnd_self]; exact .nil 0, by simp⟩
  · rw [wrapEnd_of_ne hb]
    refine ⟨past ++ [x], fun hbw => (hlap (by omega)).snoc hstep, ?_⟩
    intro y hy
    rcases List.mem_append.mp hy with hy | hy
    · exact .inr hy
    · exact .inl (List.mem_singleton.mp hy)

/-- If the buffer runs empty at its very end, the reader starts over and the whole lap is
unread once more. -/
theorem consume_end (hr : Ring S m r S unread) (hlap : Lap S m r S past)
    (hstep : recordStep S m r = some (x, S)) : Ring S m 0 S (past ++ [x]) := by
  have hlt := hr.read_lt
  exact ⟨hr.size_aligned, rfl, hr.size_aligned, by omega, Nat.le_refl _,
    .flat (Nat.zero_le _) ((hlap (by omega)).snoc hstep)⟩

/-- A stale snapshot stays behind the reader, unless the reader starts over past it. -/
theorem ahead_consume (ha : Ahead s r w) (hrb : r < b) (hbw : r ≤ w → b ≤ w) (hw : w ≤ S)
    (hend : w = S ∧ b = S → s = 0) : Ahead s (wrapEnd S b) w := by
  unfold Ahead wrapEnd at *
  split <;> omega

end Consume

end ShmIpcRing
