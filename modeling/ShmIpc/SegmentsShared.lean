import ShmIpc.Segments

/-!
# Segments are shared arrays

Whatever the processes do with their segments, and wherever `mmap` puts them, they
observe arrays of bytes: one for each successful `create`, of the given size, in
the hands of the segment that created it and of the copies that `fork` made.
-/
namespace ShmIpcSegmentsShared

open AddressSpace LabelledRun Simulation ShmIpcSegments
open ShmIpcExact (Segment pageSize segmentCreate Accepted accepted_iff)

variable {π σ : Type}

def pagesIn (sizes : Nat → Nat) (k : Nat) : Nat := sizes k / pageSize.toNat

def segmentOf (sizes : Nat → Nat) (base : Nat → Option Nat) : Handle → Segment
  | .empty => ⟨0, none⟩
  | .holds k => ⟨sizes k, (base k).map (pageSize.toNat * ·)⟩

/-- The table has the resident arrays at their bases and nothing else. -/
structure Holds (count : Nat) (sizes : Nat → Nat) (base : Nat → Option Nat) (proc : Process σ)
    (o : Owner σ) : Prop where
  layout : Layout proc.table base (pagesIn sizes)
  resident : ∀ k, (base k).isSome = o.resident k
  made : ∀ k, o.resident k = true → k < count
  segments : ∀ s, proc.segments s = (o.handles s).map (segmentOf sizes base)
  held : ∀ s k, o.handles s = some (.holds k) → o.resident k = true
  apart : ∀ s s' k, o.handles s = some (.holds k) → o.handles s' = some (.holds k) → s = s'

structure Represents (sys : System π σ) (q : Shared π σ) : Prop where
  objects : sys.objects = q.count
  bytes : sys.bytes = q.arrays
  sizes : ∀ k < q.count, 0 < q.sizes k ∧ q.sizes k % pageSize.toNat = 0
  processes : ∀ p, Option.Rel (fun proc o => ∃ base, Holds q.count q.sizes base proc o)
    (sys.processes p) (q.owners p)

theorem pageSize_toNat : pageSize.toNat = 4096 := rfl
theorem pageSize_pos : 0 < pageSize.toNat := by decide

/-- The kernel's rounding does nothing to the sizes that `create` accepts. -/
theorem pagesOf_exact {size : Nat} (h : size % pageSize.toNat = 0) :
    pagesOf size = size / pageSize.toNat := by
  rw [pageSize_toNat] at h
  rw [pagesOf, pageSize_toNat]
  omega

variable {q : Shared π σ} {count : Nat} {sizes : Nat → Nat} {base : Nat → Option Nat}
  {proc : Process σ} {o : Owner σ} {p : π} {s : σ} {k b i : Nat} {sys sys' : System π σ}

/-! ## One process -/

theorem Holds.handle (h : Holds count sizes base proc o) {seg : Segment}
    (hseg : proc.segments s = some seg) :
    ∃ handle, o.handles s = some handle ∧ seg = segmentOf sizes base handle := by
  rw [h.segments s] at hseg
  obtain ⟨handle, hhandle, rfl⟩ := Option.map_eq_some_iff.mp hseg
  exact ⟨handle, hhandle, rfl⟩

theorem Holds.based (h : Holds count sizes base proc o) (hs : o.handles s = some (.holds k)) :
    k < count ∧ ∃ b, base k = some b := by
  have hres := h.held s k hs
  exact ⟨h.made k hres, Option.isSome_iff_exists.mp ((h.resident k).trans hres)⟩

/-- Where the bytes of a held segment are. -/
theorem Holds.byte (h : Holds count sizes base proc o)
    (hsizes : ∀ k < count, 0 < sizes k ∧ sizes k % pageSize.toNat = 0) {seg : Segment} {addr : Nat}
    (hseg : proc.segments s = some seg) (haddr : address seg i = some addr) :
      ∃ k b, o.handles s = some (.holds k) ∧ i < sizes k ∧ base k = some b ∧
        addr = pageSize.toNat * b + i ∧ i < pageSize.toNat * pagesIn sizes k := by
  obtain ⟨handle, hhandle, rfl⟩ := h.handle hseg
  cases handle with
  | empty => cases haddr
  | holds k =>
    obtain ⟨hk, b, hb⟩ := h.based hhandle
    simp only [address, segmentOf, hb, Option.map_some] at haddr
    split at haddr
    · rename_i hi
      have hwhole : pageSize.toNat * pagesIn sizes k = sizes k := Nat.mul_div_cancel'
        (Nat.dvd_of_mod_eq_zero (hsizes k hk).2)
      exact ⟨k, b, hhandle, hi, hb, (Option.some.inj haddr).symm, by rwa [hwhole]⟩
    · cases haddr

/-- Unmapping an array that no handle of the process holds any more. -/
theorem Holds.release (h : Holds count sizes base proc o) (hb : base k = some b)
    (hno : ∀ s, o.handles s ≠ some (.holds k)) :
    Holds count sizes (Function.update base k none)
    { proc with table := unmap b (pagesIn sizes k) proc.table } (o.keep k false) where
  layout := h.layout.unmap hb
  resident k' := by
    by_cases hk : k' = k
    · subst hk
      simp only [Owner.keep, Function.update_self, Option.isSome_none]
    · simp only [Owner.keep, Function.update_of_ne hk, h.resident k']
  made k' hk' := by
    by_cases hk : k' = k
    · subst hk
      simp only [Owner.keep, Function.update_self, Bool.false_eq_true] at hk'
    · simp only [Owner.keep, Function.update_of_ne hk] at hk'
      exact h.made k' hk'
  segments s := by
    change proc.segments s = (o.handles s).map _
    rw [h.segments s]
    refine Option.map_congr fun handle hhandle => ?_
    cases handle with
    | empty => rfl
    | holds k' =>
      have hk : k' ≠ k := by
        rintro rfl
        exact hno s hhandle
      simp only [segmentOf, Function.update_of_ne hk]
  held s k' hs := by
    have hk : k' ≠ k := by
      rintro rfl
      exact hno s hs
    simp only [Owner.keep, Function.update_of_ne hk]
    exact h.held s k' hs
  apart := h.apart

/-- A new array changes nothing for those who have no handle to it. -/
theorem Holds.extend (h : Holds count sizes base proc o) (size : Nat) :
    Holds (count + 1) (Function.update sizes count size) base proc o := by
  have hold : ∀ k, (base k).isSome → Function.update sizes count size k = sizes k := by
    intro k hk
    have := h.made k ((h.resident k).symm.trans hk)
    exact Function.update_of_ne (Nat.ne_of_lt this) ..
  refine ⟨h.layout.congr fun k hk => by rw [pagesIn, hold k hk, pagesIn], h.resident,
    fun k hk => Nat.lt_succ_of_lt (h.made k hk), fun s => ?_, h.held, h.apart⟩
  rw [h.segments s]
  refine Option.map_congr fun handle hhandle => ?_
  cases handle with
  | empty => rfl
  | holds k => simp only [segmentOf, hold k ((h.resident k).trans (h.held s k hhandle))]

/-! ## All processes -/

theorem Represents.owner (h : Represents sys q) (hproc : sys.processes p = some proc) :
    ∃ o base, q.owners p = some o ∧ Holds q.count q.sizes base proc o := by
  have hrel := h.processes p
  rw [hproc] at hrel
  cases ho : q.owners p with
  | none =>
    rw [ho] at hrel
    cases hrel
  | some o =>
    rw [ho] at hrel
    cases hrel with
    | some hbase =>
      obtain ⟨base, hbase⟩ := hbase
      exact ⟨o, base, rfl, hbase⟩

theorem Represents.absent (h : Represents sys q) (hproc : sys.processes p = none) :
    q.owners p = none := by
  have hrel := h.processes p
  rw [hproc] at hrel
  cases ho : q.owners p with
  | none => rfl
  | some o =>
    rw [ho] at hrel
    cases hrel

/-! ## Changing a process -/

section
variable [DecidableEq σ]

theorem Holds.put (h : Holds count sizes base proc o) (s : σ) (handle : Option Handle)
    (hno : ∀ k, handle ≠ some (.holds k)) :
    Holds count sizes base (proc.put s (handle.map (segmentOf sizes base))) (o.put s handle) where
  layout := h.layout
  resident := h.resident
  made := h.made
  segments s' := by
    by_cases hs : s' = s
    · subst hs
      simp only [Process.put, Owner.put, Function.update_self]
    · simp only [Process.put, Owner.put, Function.update_of_ne hs, h.segments s']
  held s' k hk := by
    by_cases hs : s' = s
    · subst hs
      simp only [Owner.put, Function.update_self] at hk
      exact absurd hk (hno k)
    · simp only [Owner.put, Function.update_of_ne hs] at hk
      exact h.held s' k hk
  apart s₁ s₂ k h₁ h₂ := by
    simp only [Owner.put, Function.update_apply] at h₁ h₂
    split at h₁
    · exact absurd h₁ (hno k)
    · split at h₂
      · exact absurd h₂ (hno k)
      · exact h.apart s₁ s₂ k h₁ h₂

/-- Mapping an array that is not in the table yet for an empty segment. -/
theorem Holds.grant (h : Holds count sizes base proc o)
    (hfree : Free proc.table b (pagesIn sizes k)) (hnew : base k = none) (hk : k < count) (s : σ) :
    Holds count sizes (Function.update base k (some b))
      { proc.put s (some ⟨sizes k, some (pageSize.toNat * b)⟩) with
        table := map k b (pagesIn sizes k) proc.table }
      ((o.put s (some (.holds k))).keep k true) := by
  have hunheld : ∀ s, o.handles s ≠ some (.holds k) := by
    intro s hs
    obtain ⟨-, b, hb⟩ := h.based hs
    cases hnew.symm.trans hb
  refine ⟨h.layout.map hfree hnew, fun k' => ?_, fun k' hk' => ?_, fun s' => ?_, fun s' k' hs' =>
    ?_, fun s₁ s₂ k' h₁ h₂ => ?_⟩
  · by_cases hk' : k' = k
    · subst hk'
      simp only [Owner.keep, Function.update_self, Option.isSome_some]
    · simp only [Owner.keep, Owner.put, Function.update_of_ne hk', h.resident k']
  · by_cases hkk : k' = k
    · subst hkk
      exact hk
    · simp only [Owner.keep, Owner.put, Function.update_of_ne hkk] at hk'
      exact h.made k' hk'
  · by_cases hs : s' = s
    · subst hs
      simp only [Process.put, Owner.keep, Owner.put, Function.update_self,
        Option.map_some, segmentOf]
    · simp only [Process.put, Owner.keep, Owner.put, Function.update_of_ne hs, h.segments s']
      refine Option.map_congr fun handle hhandle => ?_
      cases handle with
      | empty => rfl
      | holds k' =>
        have hkk : k' ≠ k := by
          rintro rfl
          exact hunheld s' hhandle
        simp only [segmentOf, Function.update_of_ne hkk]
  · by_cases hkk : k' = k
    · subst hkk
      simp only [Owner.keep, Function.update_self]
    · simp only [Owner.keep, Owner.put, Function.update_of_ne hkk, Function.update_apply] at hs' ⊢
      split at hs'
      · exact absurd (Handle.holds.inj (Option.some.inj hs')).symm hkk
      · exact h.held s' k' hs'
  · simp only [Owner.keep, Owner.put, Function.update_apply] at h₁ h₂
    split at h₁ <;> split at h₂
    · simp only [*]
    · obtain rfl := Handle.holds.inj (Option.some.inj h₁)
      exact absurd h₂ (hunheld s₂)
    · obtain rfl := Handle.holds.inj (Option.some.inj h₂)
      exact absurd h₁ (hunheld s₁)
    · exact h.apart s₁ s₂ k' h₁ h₂

variable [DecidableEq π]

omit [DecidableEq σ] in
theorem Represents.put (h : Represents sys q) (p : π) {proc : Option (Process σ)}
    {o : Option (Owner σ)}
    (hp : Option.Rel (fun proc o => ∃ base, Holds q.count q.sizes base proc o) proc o) :
    Represents (sys.put p proc) (q.put p o) where
  objects := h.objects
  bytes := h.bytes
  sizes := h.sizes
  processes p' := by
    by_cases heq : p' = p
    · subst heq
      simp only [System.put, Shared.put, Function.update_self]
      -- the arrays of `q.put` are those of `q`
      exact hp
    · simp only [System.put, Shared.put, Function.update_of_ne heq]
      exact h.processes p'

omit [DecidableEq σ] [DecidableEq π] in
theorem Represents.extend (h : Represents sys q) {n : Nat} (hpos : 0 < n)
    (hpages : n % pageSize.toNat = 0) : Represents { sys with
      objects := sys.objects + 1
      bytes := Function.update sys.bytes sys.objects fun _ => 0 } (q.extend n) where
  objects := congrArg (· + 1) h.objects
  bytes := by
    simp only [Shared.extend, h.objects, h.bytes]
  sizes k hk := by
    simp only [Shared.extend] at hk ⊢
    rcases Nat.lt_succ_iff_lt_or_eq.mp hk with hlt | rfl
    · rw [Function.update_of_ne (Nat.ne_of_lt hlt)]
      exact h.sizes k hlt
    · rw [Function.update_self]
      exact ⟨hpos, hpages⟩
  processes p := by
    change Option.Rel _ (sys.processes p) (q.owners p)
    cases hproc : sys.processes p with
    | none =>
      rw [h.absent hproc]
      exact .none
    | some proc =>
      obtain ⟨o, base, ho, hholds⟩ := h.owner hproc
      rw [ho]
      exact .some ⟨base, hholds.extend n⟩

omit [DecidableEq π] in
theorem put_same {seg : Segment} (hseg : proc.segments s = some seg) :
    proc.put s (some seg) = proc := by
  rw [Process.put, ← hseg, Function.update_eq_self]

omit [DecidableEq σ] in
theorem System.put_same (hproc : sys.processes p = some proc) : sys.put p (some proc) = sys := by
  rw [System.put, ← hproc, Function.update_eq_self]

theorem Represents.create (h : Represents sys q) (hholds : Holds q.count q.sizes base proc o)
    (p : π) (s : σ) {size : UInt32} {addr : Nat} (haccepted : Accepted size)
    (halign : addr % pageSize.toNat = 0)
    (hfree : Free proc.table (addr / pageSize.toNat) (pagesOf size.toNat)) : Represents
      { sys.put p (some { proc.put s (some ⟨size.toNat, some addr⟩) with
          table := map sys.objects (addr / pageSize.toNat) (pagesOf size.toNat) proc.table }) with
        objects := sys.objects + 1
        bytes := Function.update sys.bytes sys.objects fun _ => 0 }
      ((q.extend size.toNat).put p
        (some ((o.put s (some (.holds q.count))).keep q.count true))) := by
  obtain ⟨hpos, hpages⟩ := accepted_iff.mp haccepted
  have hnew : base q.count = none := by
    refine Option.not_isSome_iff_eq_none.mp fun hsome => ?_
    exact Nat.lt_irrefl _ (hholds.made _ ((hholds.resident _).symm.trans hsome))
  have hcount : pagesIn (Function.update q.sizes q.count size.toNat) q.count =
      pagesOf size.toNat := by
    rw [pagesIn, Function.update_self, pagesOf_exact hpages]
  have hgrant := (hholds.extend size.toNat).grant (hcount.symm ▸ hfree) hnew (Nat.lt_succ_self _) s
  rw [hcount, Function.update_self, Nat.mul_div_cancel' (Nat.dvd_of_mod_eq_zero halign)] at hgrant
  have hput := (h.extend hpos hpages).put p (.some ⟨_, hgrant⟩)
  rw [h.objects] at hput ⊢
  exact hput

/-! ## One call -/

variable {e : Event π σ} {size : UInt32} {mmap : Option Nat}

theorem refused_iff : (size = 0 ∨ size % pageSize ≠ 0) ↔ ¬ Accepted size := by
  rw [accepted_iff, ← UInt32.toNat_inj, ne_eq, ← UInt32.toNat_inj, UInt32.toNat_mod, pageSize_toNat]
  simp only [UInt32.toNat_zero]
  omega

theorem follows_construct (h : Represents sys q)
    (hp : perform sys (.construct p s) = some (e, sys')) :
    ∃ q', Follows q e q' ∧ Represents sys' q' := by
  obtain ⟨proc, hproc, hp⟩ := Option.bind_eq_some_iff.mp hp
  split at hp
  · cases hp
  · rename_i hnew
    obtain ⟨rfl, rfl⟩ := Prod.mk.inj (Option.some.inj hp)
    obtain ⟨o, base, ho, hholds⟩ := h.owner hproc
    have hnone : o.handles s = none := by
      rwa [hholds.segments s, Option.isSome_map, Option.not_isSome_iff_eq_none] at hnew
    exact ⟨_, .constructed ho hnone,
      h.put p (.some ⟨base, hholds.put s (some .empty) fun k hk => by cases hk⟩)⟩

theorem follows_destruct (h : Represents sys q)
    (hp : perform sys (.destruct p s) = some (e, sys')) :
    ∃ q', Follows q e q' ∧ Represents sys' q' := by
  obtain ⟨proc, hproc, hp⟩ := Option.bind_eq_some_iff.mp hp
  split at hp
  · rename_i hseg
    obtain ⟨rfl, rfl⟩ := Prod.mk.inj (Option.some.inj hp)
    obtain ⟨o, base, ho, hholds⟩ := h.owner hproc
    obtain ⟨seg, hseg⟩ := Option.isSome_iff_exists.mp hseg
    obtain ⟨handle, hhandle, -⟩ := hholds.handle hseg
    exact ⟨_, .destructed ⟨ho, hhandle⟩,
      h.put p (.some ⟨base, hholds.put s none fun k hk => by cases hk⟩)⟩
  · cases hp

theorem follows_create (h : Represents sys q) (hgranted : Granted sys (.create p s size mmap))
    (hp : perform sys (.create p s size mmap) = some (e, sys')) :
    ∃ q', Follows q e q' ∧ Represents sys' q' := by
  obtain ⟨proc, hproc, hp⟩ := Option.bind_eq_some_iff.mp hp
  obtain ⟨seg, hseg, hp⟩ := Option.bind_eq_some_iff.mp hp
  obtain ⟨o, base, ho, hholds⟩ := h.owner hproc
  obtain ⟨handle, hhandle, rfl⟩ := hholds.handle hseg
  have hunchanged : Represents
      (sys.put p (some (proc.put s (some (segmentOf q.sizes base handle))))) q := by
    rwa [put_same hseg, System.put_same hproc]
  cases handle with
  | holds k =>
    obtain ⟨-, b, hb⟩ := hholds.based hhandle
    simp only [segmentCreate, segmentOf, hb, Option.map_some, Option.isSome_some,
      if_true, Option.some.injEq, Prod.mk.injEq] at hp hunchanged
    obtain ⟨rfl, rfl⟩ := hp
    exact ⟨q, .createdBefore ⟨ho, hhandle⟩, hunchanged⟩
  | empty =>
    by_cases hsize : size = 0 ∨ size % pageSize ≠ 0
    · simp only [segmentCreate, segmentOf, Option.isSome_none, Bool.false_eq_true,
        if_false, ne_eq, not_true, if_pos hsize, Option.some.injEq, Prod.mk.injEq] at hp
      obtain ⟨rfl, rfl⟩ := hp
      exact ⟨q, .refused ⟨ho, hhandle⟩ (refused_iff.mp hsize), hunchanged⟩
    · have haccepted : Accepted size := not_not.mp fun hno => hsize (refused_iff.mpr hno)
      cases mmap with
      | none =>
        simp only [segmentCreate, segmentOf, Option.isSome_none, Bool.false_eq_true,
          if_false, ne_eq, not_true, if_neg hsize, Option.some.injEq, Prod.mk.injEq] at hp
        obtain ⟨rfl, rfl⟩ := hp
        exact ⟨q, .noMemory ⟨ho, hhandle⟩ haccepted, hunchanged⟩
      | some addr =>
        simp only [segmentCreate, segmentOf, Option.isSome_none, Bool.false_eq_true,
          if_false, ne_eq, not_true, if_neg hsize, Option.some.injEq, Prod.mk.injEq,
            Option.getD_some] at hp
        obtain ⟨rfl, rfl⟩ := hp
        have htable : sys.table p = proc.table := by
          rw [System.table, hproc]
          rfl
        obtain ⟨-, halign, hfree⟩ := hgranted
        exact ⟨_, .created ⟨ho, hhandle⟩ haccepted,
          h.create hholds p s haccepted halign (htable ▸ hfree)⟩

theorem follows_destroy {munmap : Bool} (h : Represents sys q)
    (hp : perform sys (.destroy p s munmap) = some (e, sys')) :
    ∃ q', Follows q e q' ∧ Represents sys' q' := by
  obtain ⟨proc, hproc, hp⟩ := Option.bind_eq_some_iff.mp hp
  obtain ⟨seg, hseg, hp⟩ := Option.bind_eq_some_iff.mp hp
  obtain ⟨o, base, ho, hholds⟩ := h.owner hproc
  obtain ⟨handle, hhandle, rfl⟩ := hholds.handle hseg
  have hunchanged : Represents
      (sys.put p (some (proc.put s (some (segmentOf q.sizes base handle))))) q := by
    rwa [put_same hseg, System.put_same hproc]
  cases handle with
  | empty =>
    simp only [segmentDestroy, segmentOf, Option.isNone_none, if_true,
      Option.some.injEq, Prod.mk.injEq] at hp
    obtain ⟨rfl, rfl⟩ := hp
    exact ⟨q, .nothingToDestroy ⟨ho, hhandle⟩, hunchanged⟩
  | holds k =>
    obtain ⟨hk, b, hb⟩ := hholds.based hhandle
    simp only [segmentOf, hb, Option.map_some] at hunchanged
    cases munmap with
    | false =>
      simp only [segmentDestroy, segmentOf, hb, Option.map_some, Option.isNone_some,
        Bool.not_false, if_true, Bool.false_eq_true, if_false, Option.some.injEq,
          Prod.mk.injEq] at hp
      obtain ⟨rfl, rfl⟩ := hp
      exact ⟨q, .stillMapped ⟨ho, hhandle⟩, hunchanged⟩
    | true =>
      simp only [segmentDestroy, segmentOf, hb, Option.map_some, Option.isNone_some,
        Bool.not_true, if_true, Bool.false_eq_true, if_false, pagesOf_exact (h.sizes k hk).2,
        Nat.mul_div_cancel_left b pageSize_pos, Option.some.injEq, Prod.mk.injEq] at hp
      obtain ⟨rfl, rfl⟩ := hp
      have hempty := hholds.put s (some .empty) fun k hk => by cases hk
      have hno : ∀ s', (o.put s (some .empty)).handles s' ≠ some (.holds k) := by
        intro s' hs'
        simp only [Owner.put, Function.update_apply] at hs'
        split at hs'
        · cases hs'
        · rename_i hne
          exact hne (hholds.apart s' s k hs' hhandle)
      exact ⟨_, .destroyed ⟨ho, hhandle⟩, h.put p (.some ⟨_, hempty.release hb hno⟩)⟩

theorem follows_load (h : Represents sys q) (hp : perform sys (.load p s i) = some (e, sys')) :
    ∃ q', Follows q e q' ∧ Represents sys' q' := by
  obtain ⟨proc, hproc, hp⟩ := Option.bind_eq_some_iff.mp hp
  obtain ⟨seg, hseg, hp⟩ := Option.bind_eq_some_iff.mp hp
  obtain ⟨addr, haddr, hp⟩ := Option.bind_eq_some_iff.mp hp
  obtain ⟨rfl, rfl⟩ := Prod.mk.inj (Option.some.inj hp)
  obtain ⟨o, base, ho, hholds⟩ := h.owner hproc
  obtain ⟨k, b, hhandle, hi, hb, rfl, hin⟩ := hholds.byte h.sizes hseg haddr
  rw [hholds.layout.load pageSize_pos hb hin, h.bytes]
  exact ⟨q, .loaded ⟨ho, hhandle⟩ hi, h⟩

theorem follows_store {v : UInt8} (h : Represents sys q)
    (hp : perform sys (.store p s i v) = some (e, sys')) :
    ∃ q', Follows q e q' ∧ Represents sys' q' := by
  obtain ⟨proc, hproc, hp⟩ := Option.bind_eq_some_iff.mp hp
  obtain ⟨seg, hseg, hp⟩ := Option.bind_eq_some_iff.mp hp
  obtain ⟨addr, haddr, hp⟩ := Option.bind_eq_some_iff.mp hp
  obtain ⟨rfl, rfl⟩ := Prod.mk.inj (Option.some.inj hp)
  obtain ⟨o, base, ho, hholds⟩ := h.owner hproc
  obtain ⟨k, b, hhandle, hi, hb, rfl, hin⟩ := hholds.byte h.sizes hseg haddr
  rw [hholds.layout.store pageSize_pos hb hin]
  exact ⟨_, .stored ⟨ho, hhandle⟩ hi, h.objects,
    congrArg (write k i v) h.bytes, h.sizes, h.processes⟩

theorem follows_fork {p' : π} (h : Represents sys q)
    (hp : perform sys (.fork p p') = some (e, sys')) :
    ∃ q', Follows q e q' ∧ Represents sys' q' := by
  obtain ⟨proc, hproc, hp⟩ := Option.bind_eq_some_iff.mp hp
  split at hp
  · cases hp
  · rename_i hfree
    obtain ⟨rfl, rfl⟩ := Prod.mk.inj (Option.some.inj hp)
    obtain ⟨o, base, ho, hholds⟩ := h.owner hproc
    exact ⟨_, .forked ho (h.absent (Option.not_isSome_iff_eq_none.mp hfree)),
      h.put p' (.some ⟨base, hholds⟩)⟩

theorem follows_exit (h : Represents sys q) (hp : perform sys (.exit p) = some (e, sys')) :
    ∃ q', Follows q e q' ∧ Represents sys' q' := by
  simp only [perform] at hp
  split at hp
  · rename_i hproc
    obtain ⟨rfl, rfl⟩ := Prod.mk.inj (Option.some.inj hp)
    obtain ⟨proc, hproc⟩ := Option.isSome_iff_exists.mp hproc
    obtain ⟨o, -, ho, -⟩ := h.owner hproc
    exact ⟨_, .exited ho, h.put p .none⟩
  · cases hp

/-! ## Whole runs -/

theorem follows {a : Act π σ} (h : Represents sys q) (hgranted : Granted sys a)
    (hp : perform sys a = some (e, sys')) : ∃ q', Follows q e q' ∧ Represents sys' q' := by
  cases a with
  | construct p s => exact follows_construct h hp
  | create p s size mmap => exact follows_create h hgranted hp
  | destroy p s munmap => exact follows_destroy h hp
  | destruct p s => exact follows_destruct h hp
  | load p s i => exact follows_load h hp
  | store p s i v => exact follows_store h hp
  | fork p p' => exact follows_fork h hp
  | exit p => exact follows_exit h hp

theorem simulates :
    Simulates (guarded Granted (ofFun step)) event (Follows (π := π) (σ := σ)) Represents := by
  rintro sys a sys' q h ⟨hgranted, hstep⟩
  obtain ⟨⟨e, sys₁⟩, hp, rfl⟩ := Option.map_eq_some_iff.mp hstep
  obtain ⟨q', hq', hrep⟩ := follows h hgranted hp
  exact matched_event (congrArg (Option.map Prod.fst) hp) hq' hrep

omit [DecidableEq σ] in
theorem represents_start (p : π) : Represents (start p : System π σ) (Shared.start p) where
  objects := rfl
  bytes := rfl
  sizes k hk := absurd hk (Nat.not_lt_zero k)
  processes p' := by
    simp only [start, Shared.start, Function.update_apply]
    split
    · refine .some ⟨fun _ => none, .empty _, fun k => rfl, fun k hk => ?_, fun s => rfl,
        fun s k hk => ?_, fun s s' k hk => ?_⟩
      all_goals cases hk
    · exact .none

/-- The processes observe arrays that the holders of a segment share, and no page is mapped that is
not a page of an array they created and did not destroy. -/
theorem segments_are_shared_arrays {as : List (Act π σ)} {es : List (Event π σ)}
    (h : Observed (guarded Granted (ofFun step)) event (start p) as es sys) :
    ∃ q, Run Follows (Shared.start p) es q ∧ Represents sys q :=
  h.simulate simulates (represents_start p)

/-- Two segments before a fork: the child loads what the parent stored in the second one. -/
theorem segments_are_shared_arrays_fork :
    ∃ (sys : System Bool Nat) (q : Shared Bool Nat), Run Follows (Shared.start false)
      [.constructed false 1, .created false 1 4096 (.ok ()), .constructed false 2,
        .created false 2 4096 (.ok ()), .forked false true, .stored false 2 5 7 true,
        .destructed false 2, .loaded true 2 5 (some 7), .loaded true 1 5 (some 0)] q ∧
        Represents sys q :=
  ⟨_, segments_are_shared_arrays (observed_of_observe rfl : Observed _ _ (start false)
    [.construct false 1, .create false 1 4096 (some 4096), .construct false 2,
      .create false 2 4096 (some 8192), .fork false true, .store false 2 5 7, .destruct false 2,
        .load true 2 5, .load true 1 5] _ _)⟩


end

end ShmIpcSegmentsShared
