import ShmIpc.SegmentsShared

/-!
# What a segment leaves behind

`Segment::~Segment` forgets the address and unmaps nothing. From then on nothing
but the end of the process takes the pages of the segment out of its table.
-/
namespace ShmIpcSegmentsLeak

open AddressSpace LabelledRun ShmIpcSegments ShmIpcSegmentsShared
open ShmIpcExact (Segment pageSize segmentCreate Accepted)

variable {π σ : Type} [DecidableEq σ] [DecidableEq π] {sys sys₁ sys' : System π σ}
    {q q' : Shared π σ} {a : Act π σ}
  {e : Event π σ} {p p' : π} {s : σ} {proc : Process σ} {k n : Nat}

/-- The process has no segment that holds the array. -/
def Forgotten (q : Shared π σ) (p : π) (k : Nat) : Prop :=
  k < q.count ∧ ∃ o, q.owners p = some o ∧ ∀ s, o.handles s ≠ some (.holds k)

omit [DecidableEq σ] in
theorem Forgotten.put {o' : Owner σ} (h : Forgotten q p k)
    (hnew : p = p' → ∀ s, o'.handles s ≠ some (.holds k)) : Forgotten (q.put p' (some o')) p k := by
  obtain ⟨hk, o, ho, hno⟩ := h
  refine ⟨hk, ?_⟩
  by_cases hp : p = p'
  · exact ⟨o', by simp only [Shared.put, hp, Function.update_self], hnew hp⟩
  · exact ⟨o, by simp only [Shared.put, Function.update_of_ne hp, ho], hno⟩

/-- No event of a process but its end brings the array back. -/
theorem forgotten_follows (h : Forgotten q p k) (hstep : Follows q e q') (hlive : e ≠ .exited p) :
    Forgotten q' p k := by
  have hother : ∀ {p' : π} {s : σ} {o : Owner σ} {handle : Option Handle}, q.owners p' = some o →
      handle ≠ some (.holds k) → p = p' → ∀ s', (o.put s handle).handles s' ≠ some (.holds k) := by
    intro p' s o handle ho hhandle hp s' hs'
    obtain ⟨-, o₁, ho₁, hno⟩ := h
    obtain rfl := Option.some.inj (ho₁.symm.trans (hp ▸ ho))
    simp only [Owner.put, Function.update_apply] at hs'
    split at hs'
    · exact hhandle hs'
    · exact hno s' hs'
  cases hstep with
  | constructed ho hs => exact h.put (hother ho fun hh => by cases hh)
  | created hhas hacc =>
    have hne : some (Handle.holds q.count) ≠ some (.holds k) := by
      intro hh
      exact absurd (Handle.holds.inj (Option.some.inj hh)) (Nat.ne_of_gt h.1)
    have hext : ∀ n, Forgotten (q.extend n) p k := fun n => ⟨Nat.lt_succ_of_lt h.1, h.2⟩
    exact (hext _).put (hother hhas.owner hne)
  | destroyed hhas => exact h.put (hother hhas.owner fun hh => by cases hh)
  | destructed hhas => exact h.put (hother hhas.owner fun hh => by cases hh)
  | forked ho hnone =>
    refine h.put fun hp => ?_
    obtain ⟨-, o₁, ho₁, -⟩ := h
    cases hnone.symm.trans (hp ▸ ho₁)
  | exited ho =>
    obtain ⟨hk, o₁, ho₁, hno⟩ := h
    refine ⟨hk, o₁, ?_, hno⟩
    simp only [Shared.put]
    rw [Function.update_of_ne]
    · exact ho₁
    · rintro rfl
      exact hlive rfl
  | createdBefore | refused | noMemory | nothingToDestroy | stillMapped | loaded | stored => exact h

/-! ## The table of a process -/

omit [DecidableEq σ] in
theorem table_put (sys : System π σ) (p p' : π) (proc : Process σ) :
    (sys.put p' (some proc)).table p = if p = p' then proc.table else sys.table p := by
  simp only [System.table, System.put, Function.update_apply]
  split <;> rfl

omit [DecidableEq σ] [DecidableEq π] in
theorem table_eq (hproc : sys.processes p = some proc) : sys.table p = proc.table := by
  rw [System.table, hproc]
  rfl

theorem segmentCreate_ok {mmap : Option Nat} {size : UInt32} {seg seg' : Segment}
    (h : segmentCreate mmap size seg = (.ok (), seg')) :
    ∃ addr, mmap = some addr ∧ seg' = ⟨size.toNat, some addr⟩ := by
  simp only [segmentCreate] at h
  split at h
  · cases h
  · split at h
    · cases h
    · split at h
      · cases h
      · cases mmap with
        | none => cases h
        | some addr => exact ⟨addr, rfl, (Prod.mk.inj h).2.symm⟩

/-- What a call can do to the table of a process that goes on. -/
inductive Moved (proc : Process σ) : Table → Prop where
  | same : Moved proc proc.table
  | mapped (k b c : Nat) : Free proc.table b c → Moved proc (map k b c proc.table)
  | unmapped (s : σ) (seg : Segment) (addr : Nat) : proc.segments s = some seg →
      seg.mAddr = some addr → Moved proc
      (unmap (addr / pageSize.toNat) (pagesOf seg.mSize) proc.table)

omit [DecidableEq σ] [DecidableEq π] in
theorem moved_same (hproc : sys.processes p = some proc) : Moved proc (sys.table p) := by
  rw [table_eq hproc]
  exact .same

omit [DecidableEq σ] in
theorem moved_put {proc₁ proc' : Process σ} (hproc : sys.processes p = some proc)
    (hproc₁ : sys.processes p' = some proc₁) (h : Moved proc₁ proc'.table) :
    Moved proc ((sys.put p' (some proc')).table p) := by
  rw [table_put]
  split
  · rename_i hp
    obtain rfl := Option.some.inj (hproc.symm.trans (hp ▸ hproc₁))
    exact h
  · exact moved_same hproc

theorem perform_moved (hp : perform sys a = some (e, sys')) (hgranted : Granted sys a)
    (hlive : a ≠ .exit p) (hproc : sys.processes p = some proc) : Moved proc (sys'.table p) := by
  cases a with
  | construct p' s =>
    obtain ⟨proc₁, hproc₁, hp⟩ := Option.bind_eq_some_iff.mp hp
    split at hp
    · cases hp
    · obtain ⟨-, rfl⟩ := Prod.mk.inj (Option.some.inj hp)
      exact moved_put hproc hproc₁ .same
  | create p' s size mmap =>
    obtain ⟨proc₁, hproc₁, hp⟩ := Option.bind_eq_some_iff.mp hp
    obtain ⟨seg, hseg, hp⟩ := Option.bind_eq_some_iff.mp hp
    split at hp
    · obtain ⟨-, rfl⟩ := Prod.mk.inj (Option.some.inj hp)
      exact moved_put hproc hproc₁ .same
    · rename_i seg' hcreate
      obtain ⟨addr, rfl, rfl⟩ := segmentCreate_ok hcreate
      obtain ⟨-, rfl⟩ := Prod.mk.inj (Option.some.inj hp)
      obtain ⟨-, -, hfree⟩ := hgranted
      rw [table_eq hproc₁] at hfree
      change Moved proc ((sys.put p' (some _)).table p)
      exact moved_put hproc hproc₁ (.mapped _ _ _ hfree)
  | destroy p' s munmap =>
    obtain ⟨proc₁, hproc₁, hp⟩ := Option.bind_eq_some_iff.mp hp
    obtain ⟨seg, hseg, hp⟩ := Option.bind_eq_some_iff.mp hp
    obtain ⟨-, rfl⟩ := Prod.mk.inj (Option.some.inj hp)
    refine moved_put hproc hproc₁ ?_
    cases haddr : seg.mAddr with
    | none => exact .same
    | some addr =>
      cases munmap with
      | false => exact .same
      | true => exact .unmapped s seg addr hseg haddr
  | destruct p' s =>
    obtain ⟨proc₁, hproc₁, hp⟩ := Option.bind_eq_some_iff.mp hp
    split at hp
    · obtain ⟨-, rfl⟩ := Prod.mk.inj (Option.some.inj hp)
      exact moved_put hproc hproc₁ .same
    · cases hp
  | load p' s i =>
    obtain ⟨proc₁, hproc₁, hp⟩ := Option.bind_eq_some_iff.mp hp
    obtain ⟨seg, hseg, hp⟩ := Option.bind_eq_some_iff.mp hp
    obtain ⟨addr, haddr, hp⟩ := Option.bind_eq_some_iff.mp hp
    obtain ⟨-, rfl⟩ := Prod.mk.inj (Option.some.inj hp)
    exact moved_same hproc
  | store p' s i v =>
    obtain ⟨proc₁, hproc₁, hp⟩ := Option.bind_eq_some_iff.mp hp
    obtain ⟨seg, hseg, hp⟩ := Option.bind_eq_some_iff.mp hp
    obtain ⟨addr, haddr, hp⟩ := Option.bind_eq_some_iff.mp hp
    obtain ⟨-, rfl⟩ := Prod.mk.inj (Option.some.inj hp)
    exact moved_same hproc
  | fork p₁ p₂ =>
    obtain ⟨proc₁, hproc₁, hp⟩ := Option.bind_eq_some_iff.mp hp
    split at hp
    · cases hp
    · rename_i hfree
      obtain ⟨-, rfl⟩ := Prod.mk.inj (Option.some.inj hp)
      rw [table_put, if_neg]
      · exact moved_same hproc
      · rintro rfl
        exact hfree (Option.isSome_iff_exists.mpr ⟨proc, hproc⟩)
  | exit p' =>
    simp only [perform] at hp
    split at hp
    · obtain ⟨-, rfl⟩ := Prod.mk.inj (Option.some.inj hp)
      have hne : p ≠ p' := by
        rintro rfl
        exact hlive rfl
      have : (sys.put p' none).table p = sys.table p := by
        simp only [System.table, System.put, Function.update_of_ne hne]
      rw [this]
      exact moved_same hproc
    · cases hp

/-! ## The pages of a forgotten array -/

/-- The page stays where it is: `mmap` gives only free pages and `munmap` takes those of a
segment. -/
theorem page_kept (h : Represents sys q) (hforgotten : Forgotten q p k) (hgranted : Granted sys a)
    (hp : perform sys a = some (e, sys')) (hlive : a ≠ .exit p) {i : Nat}
    (hpage : sys.table p n = some ⟨k, i⟩) : sys'.table p n = some ⟨k, i⟩ := by
  obtain ⟨-, o, ho, hno⟩ := hforgotten
  cases hproc : sys.processes p with
  | none => cases (h.absent hproc).symm.trans ho
  | some proc =>
    rw [table_eq hproc] at hpage
    obtain ⟨o', base, ho', hholds⟩ := h.owner hproc
    obtain rfl := Option.some.inj (ho.symm.trans ho')
    have hmoved := perform_moved hp hgranted hlive hproc
    generalize sys'.table p = table at hmoved ⊢
    cases hmoved with
    | same => exact hpage
    | mapped k' b c hfree =>
      rw [map, if_neg]
      · exact hpage
      · intro hin
        cases hpage.symm.trans (hfree.inside hin)
    | unmapped s seg addr hseg haddr =>
      rw [unmap, if_neg]
      · exact hpage
      · intro hin
        obtain ⟨handle, hhandle, rfl⟩ := hholds.handle hseg
        cases handle with
        | empty => cases haddr
        | holds k' =>
          obtain ⟨hk', b, hb⟩ := hholds.based hhandle
          simp only [segmentOf, hb, Option.map_some, Option.some.injEq] at haddr hin
          subst haddr
          rw [Nat.mul_div_cancel_left b pageSize_pos, pagesOf_exact (h.sizes k' hk').2] at hin
          have hown := hholds.layout.at hb (i := n - b)
            (by have := hin.1; have := hin.2; rw [pagesIn]; omega)
          rw [Nat.add_sub_cancel' hin.1] at hown
          obtain rfl := congrArg Page.object (Option.some.inj (hpage.symm.trans hown))
          exact hno s hhandle

theorem event_live {p : π} (hp : perform sys a = some (e, sys')) (hlive : a ≠ .exit p) :
    e ≠ .exited p := by
  rintro rfl
  cases a with
  | exit p' =>
    simp only [perform] at hp
    split at hp
    · obtain ⟨heq, -⟩ := Prod.mk.inj (Option.some.inj hp)
      obtain rfl := Event.exited.inj heq
      exact hlive rfl
    · cases hp
  | create p' s size mmap =>
    obtain ⟨proc, -, hp⟩ := Option.bind_eq_some_iff.mp hp
    obtain ⟨seg, -, hp⟩ := Option.bind_eq_some_iff.mp hp
    split at hp
    all_goals cases hp
  | construct | destruct | fork =>
    obtain ⟨proc, -, hp⟩ := Option.bind_eq_some_iff.mp hp
    split at hp
    all_goals cases hp
  | destroy =>
    obtain ⟨proc, -, hp⟩ := Option.bind_eq_some_iff.mp hp
    obtain ⟨seg, -, hp⟩ := Option.bind_eq_some_iff.mp hp
    cases hp
  | load | store =>
    obtain ⟨proc, -, hp⟩ := Option.bind_eq_some_iff.mp hp
    obtain ⟨seg, -, hp⟩ := Option.bind_eq_some_iff.mp hp
    obtain ⟨addr, -, hp⟩ := Option.bind_eq_some_iff.mp hp
    cases hp

theorem pages_kept {as : List (Act π σ)} (h : Run (guarded Granted (ofFun step)) sys as sys')
    (hrep : Represents sys q) (hforgotten : Forgotten q p k) (hlive : .exit p ∉ as) {i : Nat}
    (hpage : sys.table p n = some ⟨k, i⟩) : sys'.table p n = some ⟨k, i⟩ := by
  induction h generalizing q with
  | nil => exact hpage
  | cons hstep _ ih =>
    obtain ⟨hgranted, hstep⟩ := hstep
    obtain ⟨⟨e, sys₁⟩, hp, rfl⟩ := Option.map_eq_some_iff.mp hstep
    rw [List.mem_cons, not_or] at hlive
    have hhead := Ne.symm hlive.1
    obtain ⟨q', hfollows, hrep'⟩ := follows hrep hgranted hp
    exact ih hrep' (forgotten_follows hforgotten hfollows (event_live hp hhead)) hlive.2
      (page_kept hrep hforgotten hgranted hp hhead hpage)

theorem represented {as : List (Act π σ)} {p₀ : π}
    (h : Run (guarded Granted (ofFun step)) (start p₀) as sys) : ∃ q, Represents sys q := by
  refine h.invariant (fun sys => ∃ q, Represents sys q) ⟨_, represents_start p₀⟩ ?_
  rintro sys a sys' ⟨q, hq⟩ ⟨hgranted, hstep⟩
  obtain ⟨⟨e, sys₁⟩, hp, rfl⟩ := Option.map_eq_some_iff.mp hstep
  obtain ⟨q', -, hq'⟩ := follows hq hgranted hp
  exact ⟨q', hq'⟩

/-- A segment that is destructed without `destroy` leaves its pages in the table as they are: they
show the object they have shown before, in every state until the process ends. -/
theorem leaked_until_exit {as : List (Act π σ)} {p₀ : π} {size addr : Nat}
    (h : Run (guarded Granted (ofFun step)) (start p₀) as sys) (hproc : sys.processes p = some proc)
    (hseg : proc.segments s = some ⟨size, some addr⟩)
    (hstep : step sys (.destruct p s) = some sys₁) :
    ∃ object, ∀ i < size / pageSize.toNat,
      sys.table p (addr / pageSize.toNat + i) = some ⟨object, i⟩ ∧
      ∀ as' sys', Run (guarded Granted (ofFun step)) sys₁ as' sys' → .exit p ∉ as' →
        sys'.table p (addr / pageSize.toNat + i) = some ⟨object, i⟩ := by
  obtain ⟨q, hq⟩ := represented h
  obtain ⟨o, base, ho, hholds⟩ := hq.owner hproc
  obtain ⟨handle, hhandle, hsegment⟩ := hholds.handle hseg
  cases handle with
  | empty => cases hsegment
  | holds k =>
    obtain ⟨hk, b, hb⟩ := hholds.based hhandle
    obtain ⟨rfl, haddr⟩ := Segment.mk.inj hsegment
    rw [hb, Option.map_some, Option.some.injEq] at haddr
    subst haddr
    have hforgotten : Forgotten (q.put p (some (o.put s none))) p k := by
      refine ⟨hk, o.put s none, by simp only [Shared.put, Function.update_self], fun s' hs' => ?_⟩
      simp only [Owner.put, Function.update_apply] at hs'
      split at hs'
      · cases hs'
      · rename_i hne
        exact hne (hholds.apart s' s k hs' hhandle)
    have hrep := hq.put p (.some ⟨base, hholds.put s none fun k hk => by cases hk⟩)
    simp only [step, perform, hproc, hseg, Option.bind_some, Option.isSome_some,
      if_true, Option.map_some, Option.some.injEq] at hstep
    subst hstep
    rw [Nat.mul_div_cancel_left b pageSize_pos]
    refine ⟨k, fun i hi => ?_⟩
    have hpage := hholds.layout.at hb hi
    refine ⟨by rw [table_eq hproc]; exact hpage, fun as' sys' h' hlive =>
      pages_kept h' hrep hforgotten hlive ?_⟩
    rw [table_put, if_pos rfl]
    exact hpage

/-- Two pages that stay while another segment comes and goes. -/
theorem leaked_until_exit_twoPages :
    ∃ sys sys₁ sys' : System Unit Nat,
      runFun (guardFun Granted step) [.construct () 1, .create () 1 8192 (some 4096)]
      (start ()) = some sys ∧ step sys (.destruct () 1) = some sys₁ ∧
      runFun (guardFun Granted step)
        [.construct () 2, .create () 2 4096 (some 12288), .destroy () 2 true] sys₁ = some sys' ∧
      ∃ object, ∀ i < 8192 / pageSize.toNat,
        sys.table () (4096 / pageSize.toNat + i) = some ⟨object, i⟩ ∧
        sys'.table () (4096 / pageSize.toNat + i) = some ⟨object, i⟩ := by
  obtain ⟨sys, h⟩ : ∃ sys : System Unit Nat,
    runFun (guardFun Granted step) [.construct () 1, .create () 1 8192 (some 4096)] (start ()) =
    some sys := ⟨_, rfl⟩
  have hseg : (sys.processes ()).bind (·.segments 1) = some ⟨8192, some 4096⟩ := by
    cases h
    rfl
  obtain ⟨proc, hproc, hseg⟩ := Option.bind_eq_some_iff.mp hseg
  obtain ⟨sys₁, h₁⟩ : ∃ sys₁, step sys (.destruct () 1) = some sys₁ := by
    cases h
    exact ⟨_, rfl⟩
  obtain ⟨sys', h'⟩ : ∃ sys', runFun (guardFun Granted step)
      [.construct () 2, .create () 2 4096 (some 12288), .destroy () 2 true] sys₁ = some sys' := by
    cases h
    cases h₁
    exact ⟨_, rfl⟩
  obtain ⟨object, hobject⟩ := leaked_until_exit (run_of_guardFun h) hproc hseg h₁
  refine ⟨sys, sys₁, sys', h, h₁, h', object, fun i hi => ?_⟩
  obtain ⟨hbefore, hlater⟩ := hobject i hi
  exact ⟨hbefore, hlater _ sys' (run_of_guardFun h') (by simp)⟩

end ShmIpcSegmentsLeak
