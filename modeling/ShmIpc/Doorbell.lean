import ShmIpc.LabelledRun

/-!
# A doorbell

One side sleeps when it has found its mailbox empty, the other one rings after it
has put something in. The sleeper announces in a shared word that it is going to
wait and looks once more; who posts behind that swaps the word and rings. What
the sleeper stores stays in a buffer of its own before it reaches the word.
-/
namespace Doorbell

open LabelledRun

/-- `quiet` are the steps of either side that put nothing in. -/
structure Mailbox (μ : Type) where
  Empty : μ → Prop
  post : μ → μ → Prop
  take : μ → μ → Prop
  quiet : μ → μ → Prop
  quiet_empty : ∀ {m m' : μ}, quiet m m' → Empty m → Empty m'

inductive Word where
  | idle | armed | rung
  deriving DecidableEq

inductive Sleeper where
  | first | arm | second | waiting | answer | woken | disarm | last
  deriving DecidableEq

/-- Where a drain that finds the mailbox empty goes on. -/
def Sleeper.afterDrain : Sleeper → Option Sleeper
  | .first => some .arm
  | .second => some .waiting
  | .woken => some .disarm
  | .last => some .first
  | _ => none

inductive Ringer where
  | outside | posted | ringing
  deriving DecidableEq

/-- `pending` are the stores of the sleeper that have not reached the word, `missed` the waits that
ended without a look at the bell. -/
structure State (μ : Type) where
  mail : μ
  word : Word
  pending : List Word
  rings : Nat
  sleeper : Sleeper
  ringer : Ringer
  missed : Nat

inductive Label where
  | post | quiet | take | drained | exchange | ring | store | flush | wait | miss | answer
  deriving DecidableEq

variable {μ : Type} (box : Mailbox μ) (room : Nat)

/-- The bell counts its rings up to `room`. -/
inductive Step (s : State μ) : Label → State μ → Prop where
  | post {m : μ} : s.ringer = .outside → box.post s.mail m →
      Step s .post { s with mail := m, ringer := .posted }
  | quiet {m : μ} : box.quiet s.mail m → Step s .quiet { s with mail := m }
  | take {m : μ} : s.sleeper.afterDrain.isSome → box.take s.mail m →
      Step s .take { s with mail := m }
  | drained {m : μ} {next : Sleeper} : s.sleeper.afterDrain = some next →
      box.quiet s.mail m → box.Empty m → Step s .drained { s with mail := m, sleeper := next }
  | swap : s.ringer = .posted → s.word = .armed →
      Step s .exchange { s with word := .rung, ringer := .ringing }
  | leave : s.ringer = .posted → s.word ≠ .armed → Step s .exchange { s with ringer := .outside }
  | ring : s.ringer = .ringing → Step s .ring { s with
      rings := if s.rings < room then s.rings + 1 else s.rings
      ringer := .outside }
  | arm : s.sleeper = .arm → Step s .store
      { s with pending := s.pending ++ [.armed], sleeper := .second }
  | disarm : s.sleeper = .disarm →
      Step s .store { s with pending := s.pending ++ [.idle], sleeper := .last }
  | flush {w : Word} {ws : List Word} : s.pending = w :: ws →
      Step s .flush { s with word := w, pending := ws }
  | wait : s.sleeper = .waiting →
      Step s .wait { s with sleeper := if 0 < s.rings then .answer else .woken }
  | miss : s.sleeper = .waiting → Step s .miss { s with sleeper := .woken, missed := s.missed + 1 }
  | answer : s.sleeper = .answer → Step s .answer { s with rings := s.rings - 1, sleeper := .woken }

/-- The last look before the wait comes behind the store that announces it. -/
def Fenced (s : State μ) (l : Label) : Prop := l = .drained → s.sleeper = .second → s.pending = []

structure Initial (s : State μ) : Prop where
  word : s.word = .idle
  pending : s.pending = []
  rings : s.rings = 0
  sleeper : s.sleeper = .first
  ringer : s.ringer = .outside

variable {box : Mailbox μ} {room : Nat} {s t : State μ} {l : Label}

/-! ## Nobody sleeps over something posted -/

/-- The announcement stands, or it has been answered by a ring that the sleeper will hear. -/
def Announced (s : State μ) : Prop :=
  s.word = .armed ∨ s.word = .rung ∧ (0 < s.rings ∨ s.ringer = .ringing)

structure Awake (box : Mailbox μ) (s : State μ) : Prop where
  /-- In front of the last look the announcement is made, or it is the last store on its way. -/
  second : s.sleeper = .second → s.pending = [] ∧ Announced s ∨ s.pending.getLast? = some .armed
  waiting : s.sleeper = .waiting → s.pending = [] ∧ Announced s
  /-- Whatever has been posted since is about to be announced. -/
  empty : s.sleeper = .waiting → s.word = .armed → s.ringer ≠ .posted → box.Empty s.mail

theorem awake_initial (h : Initial s) : Awake box s :=
  ⟨fun hs => by simp [h.sleeper] at hs, fun hs => by simp [h.sleeper] at hs, fun hs =>
    by simp [h.sleeper] at hs⟩

/-- Where the sleeper is not about to wait there is nothing to show. -/
theorem awake_elsewhere (hsecond : s.sleeper ≠ .second) (hwaiting : s.sleeper ≠ .waiting) :
    Awake box s :=
  ⟨fun h => absurd h hsecond, fun h => absurd h hwaiting, fun h => absurd h hwaiting⟩

/-- A step of the ringer that keeps the announcement. -/
theorem awake_announced (hi : Awake box s) (hsleeper : t.sleeper = s.sleeper)
    (hpending : t.pending = s.pending) (hann : Announced s → Announced t)
    (hempty : box.Empty s.mail ∨ s.ringer = .posted ∨ s.word ≠ .armed →
      t.word = .armed → t.ringer ≠ .posted → box.Empty t.mail) : Awake box t := by
  refine ⟨fun h => ?_, fun h => ?_, fun h => ?_⟩
  · rw [hpending]
    exact (hi.second (hsleeper ▸ h)).imp (fun h => ⟨h.1, hann h.2⟩) id
  · rw [hpending]
    have hw := hi.waiting (hsleeper ▸ h)
    exact ⟨hw.1, hann hw.2⟩
  · refine hempty ?_
    by_cases hword : s.word = .armed
    · by_cases hposted : s.ringer = .posted
      · exact .inr (.inl hposted)
      · exact .inl (hi.empty (hsleeper ▸ h) hword hposted)
    · exact .inr (.inr hword)

theorem not_draining : (Sleeper.waiting).afterDrain = none := rfl

/-- A drain leads to the wait only from the last look. -/
theorem afterDrain_waiting {p next : Sleeper} (h : p.afterDrain = some next) :
    next ≠ .second ∧ (next = .waiting → p = .second) := by
  cases p <;> cases h <;> simp

theorem awake_step (hroom : 0 < room) (hi : Awake box s)
    (h : guarded Fenced (Step box room) s l t) : Awake box t := by
  obtain ⟨hfenced, h⟩ := h
  cases h with
  | post hr _ =>
    refine awake_announced hi rfl rfl (fun ha => ?_) fun _ _ hr' => absurd rfl hr'
    simp only [Announced, hr, reduceCtorEq, or_false] at ha ⊢
    exact ha
  | quiet hq =>
    exact ⟨hi.second, hi.waiting, fun hs hw hr => box.quiet_empty hq (hi.empty hs hw hr)⟩
  | take hd _ =>
    have hne : s.sleeper ≠ .waiting := fun he => by simp [he, not_draining] at hd
    exact ⟨hi.second, fun hs => absurd hs hne, fun hs => absurd hs hne⟩
  | drained hd _ hempty =>
    obtain ⟨hne, hfrom⟩ := afterDrain_waiting hd
    refine ⟨fun hs => absurd hs hne, fun hs => ?_, fun _ _ _ => hempty⟩
    have hsecond := hfrom hs
    have hnil := hfenced rfl hsecond
    rcases hi.second hsecond with ha | hlast
    · exact ha
    · simp [hnil] at hlast
  | swap hr hw =>
    exact awake_announced hi rfl rfl (fun _ => .inr ⟨rfl, .inr rfl⟩) fun _ hw' => by cases hw'
  | leave hr hw =>
    refine awake_announced hi rfl rfl (fun ha => ?_) fun _ hw' => absurd hw' hw
    have hrung := ha.resolve_left hw
    refine .inr ⟨hrung.1, .inl (hrung.2.resolve_right fun he => ?_)⟩
    rw [hr] at he
    cases he
  | ring hr =>
    have hpos : 0 < if s.rings < room then s.rings + 1 else s.rings := by split <;> omega
    refine awake_announced hi rfl rfl (fun ha => ha.imp id fun hrung => ⟨hrung.1, .inl hpos⟩) ?_
    rintro (hempty | hposted | hne) hw _
    · exact hempty
    · rw [hr] at hposted
      cases hposted
    · exact absurd hw hne
  | arm _ => exact ⟨fun _ => .inr (by simp), (fun hs => by cases hs), (fun hs => by cases hs)⟩
  | disarm _ => exact awake_elsewhere (fun h => by cases h) (fun h => by cases h)
  | @flush w ws hp =>
    refine ⟨fun hs => ?_, fun hs => ?_, fun hs => ?_⟩
    · rcases hi.second hs with ⟨hnil, _⟩ | hlast
      · simp [hp] at hnil
      · cases ws with
        | nil =>
          rw [hp] at hlast
          exact .inl ⟨rfl, .inl (Option.some.inj hlast)⟩
        | cons w' ws => exact .inr (by rw [hp] at hlast; simpa using hlast)
    · exact absurd (hi.waiting hs).1 (by simp [hp])
    · exact absurd (hi.waiting hs).1 (by simp [hp])
  | wait _ => exact awake_elsewhere (by split <;> simp) (by split <;> simp)
  | miss _ => exact awake_elsewhere (fun h => by cases h) (fun h => by cases h)
  | answer _ => exact awake_elsewhere (fun h => by cases h) (fun h => by cases h)

/-- The rings there are and those that the stores made so far may still cause. -/
def due (s : State μ) : Nat :=
  s.rings + (if s.ringer = .ringing then 1 else 0) + (if s.word = .armed then 1 else 0) +
    s.pending.count .armed

def limit : Sleeper → Nat
  | .second | .waiting | .answer => 3
  | _ => 2

structure Few (s : State μ) : Prop where
  due : due s ≤ limit s.sleeper + s.missed
  answer : s.sleeper = .answer → 0 < s.rings

theorem few_initial (h : Initial s) : Few s := by
  refine ⟨?_, fun hs => by simp [h.sleeper] at hs⟩
  simp [Doorbell.due, h.rings, h.ringer, h.word, h.pending]

theorem limit_afterDrain {p next : Sleeper} (h : p.afterDrain = some next) :
    limit next = limit p ∧ next ≠ .answer := by
  cases p <;> cases h <;> simp [limit]

/-- A step of the ringer or of the store buffer makes no new ring due. -/
theorem few_due (hf : Few s) (hdue : due t ≤ due s) (hsleeper : t.sleeper = s.sleeper)
    (hmissed : t.missed = s.missed) (hrings : s.rings ≤ t.rings) : Few t := by
  have := hf.due
  exact ⟨by rw [hsleeper, hmissed]; omega, fun h => Nat.lt_of_lt_of_le
    (hf.answer (hsleeper ▸ h)) hrings⟩

theorem few_step (hi : Awake box s) (hf : Few s) (h : Step box room s l t) : Few t := by
  have hle := hf.due
  cases h with
  | post hr _ => exact few_due hf (by simp [due, hr]) rfl rfl (Nat.le_refl _)
  | quiet _ => exact few_due hf (Nat.le_refl _) rfl rfl (Nat.le_refl _)
  | take _ _ => exact few_due hf (Nat.le_refl _) rfl rfl (Nat.le_refl _)
  | drained hd _ _ =>
    obtain ⟨hlimit, hne⟩ := limit_afterDrain hd
    exact ⟨hlimit ▸ hle, fun h => absurd h hne⟩
  | swap hr hw => exact few_due hf (by simp [due, hr, hw]) rfl rfl (Nat.le_refl _)
  | leave hr _ => exact few_due hf (by simp [due, hr]) rfl rfl (Nat.le_refl _)
  | ring hr =>
    refine few_due hf ?_ rfl rfl (by dsimp only; split <;> omega)
    simp only [due, hr, reduceCtorEq, ↓reduceIte]
    split <;> omega
  | arm hs =>
    refine ⟨?_, fun h => by cases h⟩
    simp only [hs, limit] at hle ⊢
    simp only [due, List.count_append, List.count_singleton_self] at hle ⊢
    omega
  | disarm hs =>
    refine ⟨?_, fun h => by cases h⟩
    simp only [hs, limit] at hle ⊢
    simpa [due] using hle
  | flush hp =>
    refine few_due hf ?_ rfl rfl (Nat.le_refl _)
    simp only [due, hp, List.count_cons, beq_iff_eq]
    omega
  | wait hs =>
    have hpending := (hi.waiting hs).1
    simp only [hs, limit] at hle
    by_cases hpos : 0 < s.rings
    · refine ⟨?_, fun _ => hpos⟩
      simpa only [hpos, ↓reduceIte, limit, due] using hle
    · refine ⟨?_, fun h => by simp [hpos] at h⟩
      simp only [hpos, ↓reduceIte, limit, due, hpending, List.count_nil]
      split <;> split <;> omega
  | miss hs =>
    refine ⟨?_, fun h => by cases h⟩
    simp only [hs, limit] at hle
    simp only [limit, due] at hle ⊢
    omega
  | answer hs =>
    have hpos := hf.answer hs
    refine ⟨?_, fun h => by cases h⟩
    simp only [hs, limit] at hle
    simp only [limit, due] at hle ⊢
    omega

/-- What every fenced step of the two sides keeps. -/
structure Kept (box : Mailbox μ) (s : State μ) : Prop where
  awake : Awake box s
  few : Few s

theorem kept_initial (h : Initial s) : Kept box s := ⟨awake_initial h, few_initial h⟩

theorem kept_step (hroom : 0 < room) (hi : Kept box s) (h : guarded Fenced (Step box room) s l t) :
    Kept box t :=
  ⟨awake_step hroom hi.awake h, few_step hi.awake hi.few h.2⟩

end Doorbell
