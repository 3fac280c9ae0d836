/-!
# Finite runs of a labelled step relation

A run lists the labels of its steps. `guarded` keeps only the steps whose label
is admitted in the state before the step, so that a run of the guarded relation
is a run all of whose steps meet the condition.
-/
namespace LabelledRun

variable {σ α : Type}

inductive Run (step : σ → α → σ → Prop) : σ → List α → σ → Prop where
  | nil (s : σ) : Run step s [] s
  | cons {s t u : σ} {a : α} {as : List α} :
      step s a t → Run step t as u → Run step s (a :: as) u

def guarded (ok : σ → α → Prop) (step : σ → α → σ → Prop) : σ → α → σ → Prop :=
  fun s a t => ok s a ∧ step s a t

variable {step : σ → α → σ → Prop}

theorem Run.single {s t : σ} {a : α} (h : step s a t) : Run step s [a] t := .cons h (.nil t)

/-- What one step preserves a whole run preserves. -/
theorem Run.invariant {s t : σ} {as : List α} (h : Run step s as t) (inv : σ → Prop)
    (hi : inv s) (hp : ∀ s a t, inv s → step s a t → inv t) : inv t := by
  induction h with
  | nil => exact hi
  | cons hs _ ih => exact ih (hp _ _ _ hi hs)

theorem Run.append {s t u : σ} {as bs : List α} (h : Run step s as t) (h' : Run step t bs u) :
    Run step s (as ++ bs) u := by
  induction h with
  | nil => exact h'
  | cons hs _ ih => exact .cons hs (ih h')

theorem Run.mono {step' : σ → α → σ → Prop} (hle : ∀ s a t, step s a t → step' s a t)
    {s t : σ} {as : List α} (h : Run step s as t) : Run step' s as t := by
  induction h with
  | nil s => exact .nil s
  | cons hs _ ih => exact .cons (hle _ _ _ hs) ih

/-- A run all of whose labels are admitted everywhere is a run of the guarded relation. -/
theorem Run.guarded {ok : σ → α → Prop} {s t : σ} {as : List α} (h : Run step s as t)
    (hok : ∀ a ∈ as, ∀ s, ok s a) : Run (guarded ok step) s as t := by
  induction h with
  | nil s => exact .nil s
  | cons hs _ ih =>
    exact .cons ⟨hok _ List.mem_cons_self _, hs⟩ (ih fun a ha => hok a (List.mem_cons_of_mem _ ha))

/-- The deterministic step of a partial function. -/
def ofFun (f : σ → α → Option σ) : σ → α → σ → Prop := fun s a t => f s a = some t

/-- Evaluate a deterministic step along a list of labels. -/
def runFun (f : σ → α → Option σ) : List α → σ → Option σ
  | [], s => some s
  | a :: as, s => (f s a).bind (runFun f as)

theorem runFun_append (f : σ → α → Option σ) (as bs : List α) (s : σ) :
    runFun f (as ++ bs) s = (runFun f as s).bind (runFun f bs) := by
  induction as generalizing s with
  | nil => rfl
  | cons a as ih =>
    simp only [List.cons_append, runFun, Option.bind_assoc]
    congr 1
    funext t
    exact ih t

theorem run_of_runFun {f : σ → α → Option σ} {as : List α} {s t : σ} (h : runFun f as s = some t) :
    Run (ofFun f) s as t := by
  induction as generalizing s with
  | nil =>
    simp only [runFun, Option.some.injEq] at h
    exact h ▸ .nil s
  | cons a as ih =>
    obtain ⟨u, hu, ht⟩ := Option.bind_eq_some_iff.mp h
    exact .cons hu (ih ht)

/-- The steps of a partial function whose label is admitted. -/
def guardFun (ok : σ → α → Prop) [∀ s a, Decidable (ok s a)] (f : σ → α → Option σ) :
    σ → α → Option σ :=
  fun s a => if ok s a then f s a else none

theorem run_of_guardFun {ok : σ → α → Prop} [∀ s a, Decidable (ok s a)]
    {f : σ → α → Option σ} {as : List α} {s t : σ} (h : runFun (guardFun ok f) as s = some t) :
    Run (guarded ok (ofFun f)) s as t := by
  induction as generalizing s with
  | nil =>
    simp only [runFun, Option.some.injEq] at h
    exact h ▸ .nil s
  | cons a as ih =>
    obtain ⟨u, hu, ht⟩ := Option.bind_eq_some_iff.mp h
    simp only [guardFun] at hu
    split at hu
    · rename_i hok
      exact .cons ⟨hok, hu⟩ (ih ht)
    · cases hu

end LabelledRun
