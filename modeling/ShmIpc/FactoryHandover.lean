import ShmIpc.Factory

/-!
# What the two processes hold

In every interleaving of the two scripts, of the closing of descriptors and of the
ends of the processes, the table of a process holds the ends that its place in the
script says. A side whose router is there sees the end of a stream exactly when
the other process has closed its own end.
-/
namespace ShmIpcFactoryHandover

open Descriptors LabelledRun ShmIpcFactory
open Handshake (Side eq_or_other other_ne)
open ShmIpcWakeupPair (Build)

/-- The descriptors of a pair are the two ends of a socket pair. -/
def Separate (build : Build) (pair : Pair) : Prop := file build pair .left ≠ .event

/-- The process has a descriptor for this end of the pair. -/
def keeps (a : Side) (pair : Pair) (side : Side) : Place → Bool
  | .absent | .gone => false
  | .initializing todo => !todo.contains (.create pair)
  | .creating todo => side = a || todo.contains (.close pair side)
  | .ready control wakeup =>
    side = a && match pair with
      | .control => control
      | .keepalive => true
      | .wakeup => wakeup

/-- The descriptor the process is to keep is closed on `exec`. -/
def secured (a : Side) (pair : Pair) : Place → Bool
  | .creating todo => !todo.contains (.setCloseOnExec pair a)
  | .ready _ _ => true
  | .absent | .initializing _ | .gone => false

variable {build : Build} {sockCloexec : Bool} {s t : System} {a : Side} {pair : Pair} {p : Process}

theorem file_separate (h : Separate build pair) (a : Side) : file build pair a = .endOf pair a := by
  cases build <;> cases pair <;> first | rfl | exact absurd rfl h

theorem file_shared (h : ¬ Separate build pair) (a : Side) :
    file build pair a = .event ∧ pair = .wakeup := by
  cases build <;> cases pair <;> first | exact ⟨rfl, rfl⟩ | exact absurd (fun he => by cases he) h

theorem file_pair {pair' : Pair} {a' : Side} (h : file build pair a = file build pair' a') :
    pair = pair' := by
  cases build <;> cases pair <;> cases pair' <;> first | rfl | cases h

theorem file_ne_unused (build : Build) {pair' : Pair} :
    file build pair a ≠ .endOf pair' a.other := by
  intro h
  cases build <;> cases pair <;> cases a <;> cases h

/-! ## The table of a process -/

/-- The numbers the process should have for an end. -/
def expected (fds : Pair → Side → Nat) (a : Side) (pair : Pair) (side : Side)
    (place : Place) : Set Nat :=
  if keeps a pair side place then {fds pair side} else ∅

structure Held (build : Build) (fds : Pair → Side → Nat) (a : Side) (p : Process) : Prop where
  own : ∀ pair, numbers p.table (file build pair a) = expected fds a pair a p.place
  unused : ∀ pair, Separate build pair →
    numbers p.table (.endOf pair a.other) = expected fds a pair a.other p.place
  secure : ∀ pair, secured a pair p.place = true → ¬ Inherited p.table (fds pair a)

variable {fds fds' : Pair → Side → Nat}

theorem held_exit : Held build fds a ⟨Table.empty, .gone⟩ :=
  ⟨fun _ => numbers_empty _, fun _ _ => numbers_empty _, fun _ h => by cases h⟩

/-- A step that leaves the table alone and goes on at a place that means the same. -/
theorem held_place (hp : Held build fds a p) {place : Place}
    (hown : ∀ pair, keeps a pair a place = keeps a pair a p.place)
    (hunused : ∀ pair, Separate build pair → keeps a pair a.other place = keeps a pair a.other
      p.place) (hsecure : ∀ pair, secured a pair place = true → secured a pair p.place = true) :
    Held build fds a ⟨p.table, place⟩ := by
  refine ⟨fun pair => ?_, fun pair h => ?_, fun pair h => hp.secure pair (hsecure pair h)⟩
  · rw [hp.own pair, expected, expected, hown pair]
  · rw [hp.unused pair h, expected, expected, hunused pair h]

/-- Closing the process's own descriptor. -/
theorem held_close_own (hp : Held build fds a p) (pair : Pair) {place : Place}
    (hkept : keeps a pair a p.place = true) (hclosed : keeps a pair a place = false)
    (hown : ∀ pair', pair' ≠ pair → keeps a pair' a place = keeps a pair' a p.place)
    (hunused : ∀ pair', keeps a pair' a.other place = keeps a pair' a.other p.place)
    (hsecure : ∀ pair', secured a pair' place = true → secured a pair' p.place = true) :
    Held build fds a ⟨p.table.close (fds pair a), place⟩ := by
  have hself : numbers p.table (file build pair a) = {fds pair a} := by
    rw [hp.own pair, expected, if_pos hkept]
  have hmem : fds pair a ∈ numbers p.table (file build pair a) := hself ▸ Set.mem_singleton _
  refine ⟨fun pair' => ?_, fun pair' h => ?_, fun pair' h => ?_⟩
  · by_cases hpair : pair' = pair
    · subst hpair
      rw [numbers_close_self hself, expected, hclosed]
      rfl
    · rw [numbers_close_other hmem fun he => hpair (file_pair he), hp.own pair', expected,
        expected, hown pair' hpair]
  · rw [numbers_close_other hmem (file_ne_unused build).symm, hp.unused pair' h, expected, expected,
      hunused pair']
  · exact fun hi => hp.secure pair' (hsecure pair' h) ((inherited_close _ _ _).mp hi).2

/-- Closing the end that the other process is to keep. -/
theorem held_close_unused (hp : Held build fds a p) {place : Place} (hsep : Separate build pair)
    (hkept : keeps a pair a.other p.place = true) (hclosed : keeps a pair a.other place = false)
    (hown : ∀ pair', keeps a pair' a place = keeps a pair' a p.place)
    (hunused : ∀ pair', pair' ≠ pair → keeps a pair' a.other place = keeps a pair' a.other p.place)
    (hsecure : ∀ pair', secured a pair' place = true → secured a pair' p.place = true) :
    Held build fds a ⟨p.table.close (fds pair a.other), place⟩ := by
  have hself : numbers p.table (.endOf pair a.other) = {fds pair a.other} := by
    rw [hp.unused pair hsep, expected, if_pos hkept]
  have hmem : fds pair a.other ∈ numbers p.table (File.endOf pair a.other) :=
    hself ▸ Set.mem_singleton _
  refine ⟨fun pair' => ?_, fun pair' h => ?_, fun pair' h => ?_⟩
  · rw [numbers_close_other hmem (file_ne_unused build), hp.own pair',
      expected, expected, hown pair']
  · by_cases hpair : pair' = pair
    · subst hpair
      rw [numbers_close_self hself, expected, hclosed]
      rfl
    · have hne : File.endOf pair' a.other ≠ .endOf pair a.other := fun he =>
        hpair (File.endOf.inj he).1
      rw [numbers_close_other hmem hne, hp.unused pair' h, expected, expected, hunused pair' hpair]
  · exact fun hi => hp.secure pair' (hsecure pair' h) ((inherited_close _ _ _).mp hi).2

theorem held_setCloseOnExec (hp : Held build fds a p) {place : Place}
    (hkeeps : ∀ pair side, keeps a pair side place = keeps a pair side p.place)
    (hsecure : ∀ pair', pair' ≠ pair → secured a pair' place = true →
      secured a pair' p.place = true) :
    Held build fds a ⟨p.table.setCloseOnExec (fds pair a), place⟩ := by
  refine ⟨fun pair' => ?_, fun pair' h => ?_, fun pair' h => ?_⟩
  · rw [numbers_setCloseOnExec, hp.own pair', expected, expected, hkeeps]
  · rw [numbers_setCloseOnExec, hp.unused pair' h, expected, expected, hkeeps]
  · intro hi
    obtain ⟨hne, hi⟩ := (inherited_setCloseOnExec _ _ _).mp hi
    by_cases hpair : pair' = pair
    · exact hne (congrArg (fds · a) hpair)
    · exact hp.secure pair' (hsecure pair' hpair h) hi

/-! ## The table behind a `create` -/

theorem numbers_opened_separate {table : Table File} {fd₁ fd₂ : Nat} (hsep : Separate build pair)
    (hfree₁ : table fd₁ = none) (hfree₂ : table fd₂ = none) (hne : fd₁ ≠ fd₂) (x : File) :
    numbers (opened build sockCloexec table pair fd₁ fd₂) x =
      if x = File.endOf pair .left then insert fd₁ (numbers table x)
      else if x = File.endOf pair .right then insert fd₂ (numbers table x)
      else numbers table x := by
  have hfree : (table.open fd₁ ⟨.endOf pair .left, sockCloexec⟩) fd₂ = none := by
    simp [Table.open, hne.symm, hfree₂]
  simp only [opened, file_separate hsep]
  split
  · rename_i hx
    subst hx
    rw [numbers_open_other _ hfree (by simp)]
    exact numbers_open_self ⟨File.endOf pair .left, sockCloexec⟩
  · rename_i hleft
    split
    · rename_i hx
      subst hx
      refine (numbers_open_self ⟨File.endOf pair .right, sockCloexec⟩).trans ?_
      rw [numbers_open_other _ hfree₁ (by simp)]
    · rename_i hright
      rw [numbers_open_other _ hfree hright, numbers_open_other _ hfree₁ hleft]

theorem numbers_opened_shared {table : Table File} {fd₁ fd₂ : Nat} (hshared : ¬ Separate build pair)
    (hfree₁ : table fd₁ = none) (x : File) :
    numbers (opened build sockCloexec table pair fd₁ fd₂) x =
      if x = File.event then insert fd₁ (numbers table x) else numbers table x := by
  simp only [opened, (file_shared hshared .left).1]
  split
  · rename_i hx
    subst hx
    exact numbers_open_self ⟨File.event, false⟩
  · rename_i hne
    exact numbers_open_other _ hfree₁ hne

theorem keeps_initializing {c : Call} {todo : List Call} {side : Side} (h : c ≠ .create pair) :
    keeps a pair side (.initializing (c :: todo)) = keeps a pair side (.initializing todo) := by
  simp only [keeps, List.contains_cons, beq_eq_false_iff_ne.mpr h.symm, Bool.false_or]

theorem held_create (hp : Held build fds .left p) {todo : List Call} {fd₁ fd₂ : Nat}
    (hplace : p.place = .initializing (.create pair :: todo)) (hnot : Call.create pair ∉ todo)
    (hfree₁ : p.table fd₁ = none) (hfree₂ : p.table fd₂ = none) (hne : fd₁ ≠ fd₂) :
    Held build (Function.update fds pair (numbered build pair fd₁ fd₂)) .left
      ⟨opened build sockCloexec p.table pair fd₁ fd₂, .initializing todo⟩ := by
  have hbefore (side : Side) : keeps .left pair side p.place = false := by simp [hplace, keeps]
  have hafter (side : Side) : keeps .left pair side (.initializing todo) = true := by
    simp [keeps, hnot]
  have hothers {pair' : Pair} (hpair : pair' ≠ pair) (side : Side) :
      expected (Function.update fds pair (numbered build pair fd₁ fd₂)) .left pair' side
        (.initializing todo) = expected fds .left pair' side p.place := by
    have hcall : Call.create pair ≠ .create pair' := fun he => hpair (Call.create.inj he).symm
    rw [expected, expected, hplace, keeps_initializing hcall, Function.update_of_ne hpair]
  refine ⟨fun pair' => ?_, fun pair' hsep' => ?_, fun _ h => by cases h⟩
  · by_cases hpair : pair' = pair
    · subst hpair
      have hnone := hp.own pair'
      rw [expected, hbefore, if_neg Bool.false_ne_true] at hnone
      rw [expected, hafter, if_pos rfl, Function.update_self]
      by_cases hsep : Separate build pair'
      · rw [numbers_opened_separate hsep hfree₁ hfree₂ hne, if_pos (file_separate hsep _), hnone]
        exact insert_empty_eq fd₁
      · rw [numbers_opened_shared hsep hfree₁, if_pos (file_shared hsep _).1, hnone]
        exact insert_empty_eq fd₁
    · rw [hothers hpair, ← hp.own pair']
      by_cases hsep : Separate build pair
      · have hfile (side : Side) : file build pair' .left ≠ .endOf pair side := fun he => by
          rw [← file_separate hsep side] at he
          exact hpair (file_pair he)
        rw [numbers_opened_separate hsep hfree₁ hfree₂ hne, if_neg (hfile _), if_neg (hfile _)]
      · have hfile : file build pair' .left ≠ .event := fun he => by
          rw [← (file_shared hsep .left).1] at he
          exact hpair (file_pair he)
        rw [numbers_opened_shared hsep hfree₁, if_neg hfile]
  · change numbers _ (File.endOf pair' .right) = expected _ .left pair' .right _
    have hunused : numbers p.table (File.endOf pair' .right) = expected fds .left pair' .right
      p.place := hp.unused pair' hsep'
    by_cases hpair : pair' = pair
    · subst hpair
      have hnone := hunused
      rw [expected, hbefore, if_neg Bool.false_ne_true] at hnone
      rw [expected, hafter, if_pos rfl, Function.update_self,
        numbers_opened_separate hsep' hfree₁ hfree₂ hne, if_neg (by simp), if_pos rfl, hnone,
        insert_empty_eq, numbered, if_neg hsep']
    · rw [hothers hpair, ← hunused]
      by_cases hsep : Separate build pair
      · rw [numbers_opened_separate hsep hfree₁ hfree₂ hne, if_neg (by simp [hpair]),
          if_neg (by simp [hpair])]
      · rw [numbers_opened_shared hsep hfree₁, if_neg (by simp)]

/-! ## Every step -/

/-- Where a process may stand. -/
def Scripted (build : Build) (a : Side) : Place → Prop
  | .absent => a = .right
  | .initializing todo => a = .left ∧ todo <:+ factoryInitialize build
  | .creating todo => todo <:+ createRouter build a
  | .ready _ _ | .gone => True

theorem initialize_mem {c : Call} (h : c ∈ factoryInitialize build) :
    (∃ pair, c = .create pair) ∨ ∃ pair side, c = .setUp pair side := by
  cases build <;> simp only [factoryInitialize, createSocketPair, createFdPair,
    List.cons_append, List.nil_append, List.mem_cons, List.not_mem_nil, or_false] at h <;> grind

theorem mem_createRouter {c : Call} (h : c ∈ createRouter build a) :
    (∃ pair, Separate build pair ∧ c = .close pair a.other) ∨
      ∃ pair, c = .setCloseOnExec pair a := by
  have hcontrol : Separate build .control := by cases build <;> exact fun he => by cases he
  have hkeepalive : Separate build .keepalive := by cases build <;> exact fun he => by cases he
  have hwakeup : Separate .socketPair .wakeup := fun he => by cases he
  cases build <;> simp only [createRouter, wakeupOpen, List.cons_append,
    List.nil_append, List.mem_cons, List.not_mem_nil, or_false] at h <;> grind

theorem initialize_nodup (build : Build) :
    (factoryInitialize build).Nodup := by cases build <;> decide

theorem nodup_createRouter (build : Build) (a : Side) : (createRouter build a).Nodup := by
  cases build <;> cases a <;> decide

structure Inv (build : Build) (s : System) : Prop where
  held : ∀ a, Held build s.fds a (s.processes a)
  scripted : ∀ a, Scripted build a (s.processes a).place
  /-- There is a child if and only if the parent has come past the fork. -/
  alone : ∀ todo, (s.processes .left).place = .initializing todo →
    (s.processes .right).place = .absent
  forked : (s.processes .right).place = .absent →
    (∃ todo, (s.processes .left).place = .initializing todo) ∨ (s.processes .left).place = .gone
  shared : ∀ todo pair, (s.processes .left).place = .initializing todo → Call.create pair ∉ todo →
    ¬ Separate build pair → s.fds pair .left = s.fds pair .right

theorem inv_started (h : Started build s) : Inv build s := by
  have hall (pair : Pair) (todo : List Call) (hp : (s.processes .left).place = .initializing todo) :
      Call.create pair ∈ todo := by
    rw [h.parent] at hp
    cases hp
    cases build <;> cases pair <;> decide
  have hnone {pair : Pair} {side : Side} : keeps .left pair side (s.processes .left).place =
      false := by
    have hmem := hall pair _ h.parent
    rw [h.parent]
    simp only [keeps, List.contains_eq_mem, hmem, decide_true, Bool.not_true]
  refine ⟨fun a => ?_, fun a => ?_, fun _ _ => by rw [h.child], fun _ => .inl ⟨_, h.parent⟩,
    fun todo pair hp hnot => absurd (hall pair todo hp) hnot⟩
  · cases a with
    | left =>
      refine ⟨fun pair => ?_, fun pair _ => ?_, fun pair hs => ?_⟩
      · rw [h.others, expected, hnone]
        rfl
      · rw [h.others, expected, hnone]
        rfl
      · rw [h.parent] at hs
        cases hs
    | right =>
      rw [h.child]
      exact ⟨fun _ => numbers_empty _, fun _ _ => numbers_empty _, fun _ h => by cases h⟩
  · cases a with
    | left =>
      rw [h.parent]
      exact ⟨rfl, List.suffix_refl _⟩
    | right =>
      rw [h.child]
      rfl

theorem held_absent (hp : Held build fds a p) (h : p.place = .absent) : Held build fds' a p := by
  have hnone {fds : Pair → Side → Nat} {pair : Pair} {side : Side} : expected fds a pair
      side p.place = ∅ := by
    rw [expected, h]
    rfl
  refine ⟨fun pair => ?_, fun pair hsep => ?_, fun pair hs => ?_⟩
  · rw [hp.own pair, hnone, hnone]
  · rw [hp.unused pair hsep, hnone, hnone]
  · rw [h] at hs
    cases hs

@[simp] theorem set_self (s : System) (a : Side) (p : Process) : (s.set a p).processes a = p :=
  Function.update_self ..

@[simp] theorem set_other (s : System) (a : Side) (p : Process) :
    (s.set a p).processes a.other = s.processes a.other := Function.update_of_ne (other_ne a) ..

@[simp] theorem set_fds (s : System) (a : Side) (p : Process) : (s.set a p).fds = s.fds := rfl

/-- A step of one process that leaves the numbers of the factory alone. -/
theorem inv_set (hi : Inv build s) (hheld : Held build s.fds a p)
    (hscripted : Scripted build a p.place) (habsent : (s.processes a).place ≠ .absent)
    (hgone : (s.processes a).place ≠ .gone) (hto : p.place ≠ .absent)
      (hinit : ∀ todo, p.place = .initializing todo → ∃ c, (∀ pair, c ≠ .create pair) ∧
      (s.processes a).place = .initializing (c :: todo))
    (hpast : ∀ todo, (s.processes a).place = .initializing todo →
      (∃ todo, p.place = .initializing todo) ∨ p.place = .gone) : Inv build (s.set a p) := by
  refine ⟨fun b => ?_, fun b => ?_, ?_, ?_, ?_⟩
  · rcases eq_or_other a b with rfl | rfl
    · rw [set_self, set_fds]
      exact hheld
    · rw [set_other, set_fds]
      exact hi.held a.other
  · rcases eq_or_other a b with rfl | rfl
    · rw [set_self]
      exact hscripted
    · rw [set_other]
      exact hi.scripted a.other
  · intro todo hleft
    cases a with
    | left =>
      rw [set_self] at hleft
      obtain ⟨c, _, hold⟩ := hinit todo hleft
      exact (set_other s .left p).symm ▸ hi.alone _ hold
    | right => exact absurd (hi.alone todo ((set_other s .right p) ▸ hleft)) habsent
  · intro hright
    cases a with
    | left =>
      rw [set_self]
      rcases hi.forked ((set_other s .left p) ▸ hright) with ⟨todo, hold⟩ | hold
      · exact hpast todo hold
      · exact absurd hold hgone
    | right =>
      rw [set_self] at hright
      exact absurd hright hto
  · intro todo pair hleft hnot hshared
    cases a with
    | left =>
      rw [set_self] at hleft
      obtain ⟨c, hc, hold⟩ := hinit todo hleft
      refine hi.shared _ pair hold (fun hmem => ?_) hshared
      rcases List.mem_cons.mp hmem with heq | hmem
      · exact hc pair heq.symm
      · exact hnot hmem
    | right => exact hi.shared todo pair ((set_other s .right p) ▸ hleft) hnot hshared

theorem inv_initializing {c : Call} {todo : List Call} {fd₁ fd₂ : Nat} (hi : Inv build s)
    (hplace : (s.processes a).place = .initializing (c :: todo))
    (h : perform build sockCloexec s a (.initializing todo) fd₁ fd₂ c = some t) : Inv build t := by
  have hscripted := hi.scripted a
  rw [hplace] at hscripted
  obtain ⟨rfl, hsuffix⟩ := hscripted
  have hrest : todo <:+ factoryInitialize build := (List.suffix_cons c todo).trans hsuffix
  have hnot : c ∉ todo := (List.nodup_cons.mp (hsuffix.sublist.nodup (initialize_nodup build))).1
  rcases initialize_mem (hsuffix.subset List.mem_cons_self) with ⟨pair, rfl⟩ | ⟨pair, side, rfl⟩
  · simp only [perform, Option.isNone_iff_eq_none] at h
    split at h
    · rename_i hfree
      cases h
      have hchild : ((s.processes .right).place) = .absent := hi.alone _ hplace
      refine ⟨fun b => ?_, fun b => ?_, ?_, ?_, ?_⟩
      · rcases eq_or_other .left b with rfl | rfl
        · rw [set_self]
          exact held_create (hi.held .left) hplace hnot hfree.1 hfree.2.1 hfree.2.2
        · rw [set_other]
          exact held_absent (hi.held .right) hchild
      · rcases eq_or_other .left b with rfl | rfl
        · rw [set_self]
          exact ⟨rfl, hrest⟩
        · rw [set_other]
          exact hi.scripted .right
      · intro todo' _
        exact hchild
      · intro _
        rw [set_self]
        exact .inl ⟨todo, rfl⟩
      · intro todo' pair' hleft hnot' hshared
        rw [set_self] at hleft
        cases hleft
        by_cases hpair : pair' = pair
        · subst hpair
          simp only [Function.update_self, numbered, (file_shared hshared .left).1, ↓reduceIte]
        · simp only [Function.update_of_ne hpair]
          refine hi.shared _ pair' hplace (fun hmem => ?_) hshared
          rcases List.mem_cons.mp hmem with heq | hmem
          · exact hpair (Call.create.inj heq)
          · exact hnot' hmem
    · cases h
  · simp only [perform, Option.some.injEq] at h
    subst h
    refine inv_set hi (held_place (hi.held .left) ?_ ?_ fun _ hs => by cases hs) ⟨rfl, hrest⟩
      (hplace ▸ by simp) (hplace ▸ by simp) (by simp) ?_ fun _ _ => .inl ⟨todo, rfl⟩
    · intro pair'
      rw [hplace, keeps_initializing (by simp)]
    · intro pair' _
      rw [hplace, keeps_initializing (by simp)]
    · rintro todo' ⟨⟩
      exact ⟨_, by simp, hplace⟩

theorem inv_creating {c : Call} {todo : List Call} {fd₁ fd₂ : Nat} (hi : Inv build s)
    (hplace : (s.processes a).place = .creating (c :: todo))
    (h : perform build sockCloexec s a (.creating todo) fd₁ fd₂ c = some t) : Inv build t := by
  have hscripted := hi.scripted a
  rw [hplace] at hscripted
  have hrest : todo <:+ createRouter build a := (List.suffix_cons c todo).trans hscripted
  have hnot : c ∉ todo :=
    (List.nodup_cons.mp (hscripted.sublist.nodup (nodup_createRouter build a))).1
  have hput {table : Table File} (hheld : Held build s.fds a ⟨table, .creating todo⟩) :
      Inv build (s.set a ⟨table, .creating todo⟩) :=
    inv_set hi hheld hrest (hplace ▸ by simp) (hplace ▸ by simp) (by simp)
      (fun _ hinit => by cases hinit) fun _ hinit => by rw [hplace] at hinit; cases hinit
  rcases mem_createRouter (hscripted.subset List.mem_cons_self) with ⟨pair, hsep, rfl⟩ | ⟨pair, rfl⟩
  · simp only [perform] at h
    split at h
    · cases h
    · cases h
      refine hput (held_close_unused (hi.held a) hsep ?_ ?_ ?_ ?_ ?_)
      · simp [hplace, keeps]
      · simp [keeps, hnot]
      · intro pair'
        simp [hplace, keeps]
      · intro pair' hpair
        simp [hplace, keeps, hpair]
      · intro pair' hs
        simpa [hplace, secured] using hs
  · simp only [perform, Option.some.injEq] at h
    subst h
    refine hput (held_setCloseOnExec (hi.held a) ?_ ?_)
    · intro pair' side
      simp [hplace, keeps]
    · intro pair' hpair hs
      simpa [hplace, secured, hpair] using hs

/-- The fork: the parent gives up nothing, and the child finds the same numbers. -/
theorem inv_fork (hi : Inv build s) (hplace : (s.processes .left).place = .initializing []) :
    Inv build
      ((s.set .left ⟨(s.processes .left).table, .creating (createParentRouter build)⟩).set .right
        ⟨(s.processes .left).table, .creating (createChildRouter build)⟩) := by
  have hleft := hi.held .left
  have hall (pair : Pair) (side : Side) : keeps .left pair side (s.processes .left).place =
    true := by simp [hplace, keeps]
  have hown (pair : Pair) : numbers (s.processes .left).table (file build pair .left) =
      {s.fds pair .left} := by
    rw [hleft.own pair, expected, if_pos (hall _ _)]
  have hother (pair : Pair) (hsep : Separate build pair) :
      numbers (s.processes .left).table (.endOf pair .right) = {s.fds pair .right} := by
    have hunused : numbers (s.processes .left).table (File.endOf pair .right) = _ :=
      hleft.unused pair hsep
    rw [hunused, expected, if_pos (hall _ _)]
    rfl
  have hkeeps {a : Side} (pair : Pair) : keeps a pair a (.creating (createRouter build a)) =
    true := by simp [keeps]
  have hunused {a : Side} (pair : Pair) (hsep : Separate build pair) :
      keeps a pair a.other (.creating (createRouter build a)) = true := by
    cases build <;> cases pair <;> cases a <;> first | rfl | exact absurd rfl hsep
  have hsecure {a : Side} (pair : Pair) : secured a pair (.creating (createRouter build a)) =
      false := by
    cases build <;> cases pair <;> cases a <;> rfl
  refine ⟨fun a => ?_, fun a => ?_, ?_, ?_, ?_⟩
  · cases a with
    | left =>
      refine ⟨fun pair => ?_, fun pair hsep => ?_, fun pair hs => ?_⟩
      · exact (hown pair).trans (if_pos (hkeeps pair)).symm
      · exact (hother pair hsep).trans (if_pos (hunused pair hsep)).symm
      · exact absurd (hs.symm.trans (hsecure pair)) (by simp)
    | right =>
      refine ⟨fun pair => ?_, fun pair hsep => ?_, fun pair hs => ?_⟩
      · refine Eq.trans ?_ (if_pos (hkeeps pair)).symm
        by_cases hsep : Separate build pair
        · rw [file_separate hsep]
          exact hother pair hsep
        · have hshared := hi.shared [] pair hplace (by simp) hsep
          rw [(file_shared hsep .right).1, ← (file_shared hsep .left).1]
          exact (hown pair).trans (congrArg _ hshared)
      · refine Eq.trans ?_ (if_pos (hunused pair hsep)).symm
        rw [show Side.right.other = .left from rfl, ← file_separate hsep .left]
        exact hown pair
      · exact absurd (hs.symm.trans (hsecure pair)) (by simp)
  · cases a <;> exact List.suffix_refl _
  · intro todo h
    cases h
  · intro h
    cases h
  · intro todo pair h
    cases h

theorem inv_step {act : Act} (hi : Inv build s) (h : step build sockCloexec s act = some t) :
    Inv build t := by
  cases act with
  | call a fd₁ fd₂ =>
    simp only [step] at h
    split at h
    · rename_i hplace
      exact inv_initializing hi hplace h
    · rename_i hplace
      exact inv_creating hi hplace h
    · cases h
  | fork =>
    simp only [step] at h
    split at h
    · rename_i hplace
      cases h
      exact inv_fork hi hplace
    · cases h
  | created a =>
    simp only [step] at h
    split at h
    · rename_i hplace
      cases h
      refine inv_set hi (held_place (hi.held a) ?_ ?_ ?_) trivial (hplace ▸ by simp)
        (hplace ▸ by simp) (by simp) (fun _ hinit => by cases hinit) fun _ hinit => by
        rw [hplace] at hinit; cases hinit
      · intro pair
        cases pair <;> simp [hplace, keeps]
      · intro pair _
        simp [hplace, keeps]
      · intro pair _
        simp [hplace, secured]
    · cases h
  | closeControl a =>
    simp only [step] at h
    split at h
    · rename_i wakeup hplace
      split at h
      · cases h
      · cases h
        refine inv_set hi (held_close_own (hi.held a) .control ?_ ?_ ?_ ?_ ?_) trivial
          (hplace ▸ by simp) (hplace ▸ by simp) (by simp) (fun _ hinit => by cases hinit)
          fun _ hinit => by rw [hplace] at hinit; cases hinit
        · simp [hplace, keeps]
        · simp [keeps]
        · intro pair hpair
          cases pair <;> simp [hplace, keeps] at hpair ⊢
        · intro pair
          simp [hplace, keeps]
        · intro pair _
          simp [hplace, secured]
    · cases h
  | closeWakeup a =>
    simp only [step] at h
    split at h
    · rename_i control hplace
      split at h
      · cases h
      · cases h
        refine inv_set hi (held_close_own (hi.held a) .wakeup ?_ ?_ ?_ ?_ ?_) trivial
          (hplace ▸ by simp) (hplace ▸ by simp) (by simp) (fun _ hinit => by cases hinit)
          fun _ hinit => by rw [hplace] at hinit; cases hinit
        · simp [hplace, keeps]
        · simp [keeps]
        · intro pair hpair
          cases pair <;> simp [hplace, keeps] at hpair ⊢
        · intro pair
          simp [hplace, keeps]
        · intro pair _
          simp [hplace, secured]
    · cases h
  | exit a =>
    simp only [step] at h
    split at h
    · cases h
    · cases h
    · rename_i habsent hgone
      cases h
      exact inv_set hi held_exit trivial habsent hgone (by simp) (fun _ hinit => by cases hinit)
        fun _ _ => .inr rfl

/-! ## What a router may rely on -/

/-- The descriptor of a side has been closed, or the process has ended. -/
def Closed (pair : Pair) : Place → Prop
  | .ready control wakeup => pair = .control ∧ control = false ∨ pair = .wakeup ∧ wakeup = false
  | .gone => True
  | .absent | .initializing _ | .creating _ => False

/-- A read from the descriptor of side `a` finds the end of the stream, once everything that was
sent before has been read. -/
def EndOfFile (s : System) (a : Side) (pair : Pair) : Prop :=
  ∀ b, numbers (s.processes b).table (.endOf pair a.other) = ∅

structure HandedOver (build : Build) (s : System) (a : Side) : Prop where
  /-- The descriptors are the process's own and closed on `exec`, -/
  own : ∀ pair, ¬ Closed pair (s.processes a).place →
    (s.processes a).table (s.fds pair a) = some ⟨file build pair a, true⟩
  /-- no other one refers to any of the streams, -/
  only : ∀ pair, Separate build pair → numbers (s.processes a).table (.endOf pair a.other) = ∅
  /-- and a stream ends exactly when the other side has closed it. -/
  ends : ∀ pair, Separate build pair →
    (EndOfFile s a pair ↔ Closed pair (s.processes a.other).place)

theorem keeps_ready {control wakeup : Bool} :
    keeps a pair a (.ready control wakeup) = true ↔ ¬ Closed pair (.ready control wakeup) := by
  cases pair <;> cases control <;> cases wakeup <;> simp [keeps, Closed]

theorem handedOver_of_inv (hi : Inv build s) {control wakeup : Bool}
    (hplace : (s.processes a).place = .ready control wakeup) : HandedOver build s a := by
  have hp := hi.held a
  have honly (pair : Pair) (hsep : Separate build pair) : numbers (s.processes a).table
      (.endOf pair a.other) = ∅ := by
    rw [hp.unused pair hsep, expected, hplace]
    simp [keeps]
  refine ⟨fun pair hopen => ?_, honly, fun pair hsep => ?_⟩
  · rw [hplace] at hopen
    have hself := hp.own pair
    rw [expected, hplace, if_pos (keeps_ready.mpr hopen)] at hself
    have hmem : s.fds pair a ∈ numbers (s.processes a).table (file build pair a) :=
      hself ▸ Set.mem_singleton _
    obtain ⟨⟨refersTo, closeOnExec⟩, he, hfile⟩ := Option.map_eq_some_iff.mp hmem
    have hsecure := hp.secure pair (by rw [hplace]; rfl)
    rw [he]
    cases closeOnExec with
    | false => exact absurd ⟨_, he, rfl⟩ hsecure
    | true => exact congrArg (fun f => some (Entry.mk f true)) hfile
  · have hother := (hi.held a.other).own pair
    rw [file_separate hsep] at hother
    have hend : EndOfFile s a pair ↔ keeps a.other pair a.other
        (s.processes a.other).place = false := by
      constructor
      · intro h
        have hnone := hother.symm.trans (h a.other)
        by_contra hkeeps
        rw [expected, if_pos (by simpa using hkeeps)] at hnone
        exact absurd hnone (Set.singleton_ne_empty _)
      · intro h b
        rcases eq_or_other a b with rfl | rfl
        · exact honly pair hsep
        · rw [hother, expected, h]
          rfl
    rw [hend]
    cases hpeer : (s.processes a.other).place with
    | absent =>
      exfalso
      cases a with
      | left =>
        rcases hi.forked hpeer with ⟨todo, h⟩ | h
        · rw [hplace] at h
          cases h
        · rw [hplace] at h
          cases h
      | right =>
        have hs := hi.scripted .left
        rw [show (s.processes .left).place = .absent from hpeer] at hs
        cases hs
    | initializing todo =>
      exfalso
      cases a with
      | left =>
        exact absurd (hpeer ▸ hi.scripted .right : Scripted build .right (.initializing todo)).1
          (by simp)
      | right =>
        rw [hi.alone todo hpeer] at hplace
        cases hplace
    | creating todo => simp [keeps, Closed]
    | ready control' wakeup' =>
      rw [← Bool.not_eq_true, keeps_ready, not_not]
    | gone => simp [keeps, Closed]

/-- However the two processes get on with their scripts, and wherever they end: a router owns its
descriptors alone, and reads the end of a stream exactly when the other process has closed its own
end. -/
theorem descriptors_handed_over {s₀ : System} {acts : List Act} (h₀ : Started build s₀)
    (h : Run (ofFun (step build sockCloexec)) s₀ acts s) {a : Side} {control wakeup : Bool}
    (hplace : (s.processes a).place = .ready control wakeup) : HandedOver build s a :=
  handedOver_of_inv (h.invariant (Inv build) (inv_started h₀) fun _ _ _ => inv_step) hplace

def started : System := ⟨fun _ _ => 0, fun
  | .left => ⟨Table.empty, .initializing (factoryInitialize .socketPair)⟩
  | .right => ⟨Table.empty, .absent⟩⟩

theorem started_started : Started .socketPair started := ⟨rfl, fun _ => numbers_empty _, rfl⟩

/-- The child is killed while the parent is still at its first call. -/
def killed : List Act :=
  [.call .left 3 4, .call .left 0 0, .call .left 0 0, .call .left 5 6,
    .call .left 0 0, .call .left 0 0, .call .left 7 8, .call .left 0 0, .call .left 0 0, .fork,
      .call .right 0 0, .exit .right] ++
    List.replicate 6 (.call .left 0 0) ++ [.created .left]

theorem descriptors_handed_over_killed :
    ∃ s, Run (ofFun (step .socketPair false)) started killed s ∧
      (s.processes .left).place = .ready true true ∧ EndOfFile s .left .control ∧
        HandedOver .socketPair s .left := by
  have heval : (runFun (step .socketPair false) killed started).map
      (fun s => ((s.processes .left).place, (s.processes .right).place)) =
      some (.ready true true, .gone) := by decide
  obtain ⟨s, hs, hend⟩ := Option.map_eq_some_iff.mp heval
  obtain ⟨hleft, hright⟩ := Prod.mk.inj hend
  have hrun := run_of_runFun hs
  have hover := descriptors_handed_over started_started hrun hleft
  refine ⟨s, hrun, hleft, (hover.ends .control fun he => by cases he).mpr ?_, hover⟩
  rw [Side.other, hright]
  trivial

end ShmIpcFactoryHandover
