import ShmIpc.LabelledRun

/-!
# Forward simulation with silent steps

A step of a concrete system may show an event or none. If every concrete step is
matched by the abstract steps for what it shows, then what a whole run shows is
a run of the abstract system.
-/
namespace Simulation

open LabelledRun

variable {σ τ α ε : Type}

/-- A run with the events it shows. -/
inductive Observed (step : σ → α → σ → Prop) (event : σ → α → σ → Option ε) :
    σ → List α → List ε → σ → Prop where
  | nil (s : σ) : Observed step event s [] [] s
  | cons {s t u : σ} {a : α} {as : List α} {es : List ε} : step s a t →
      Observed step event t as es u → Observed step event s (a :: as) ((event s a t).toList ++ es) u

variable {step : σ → α → σ → Prop} {event : σ → α → σ → Option ε} {s t : σ}
    {as : List α} {es : List ε}

/-- `astep` can follow every step of `step` along what it shows, from related states into related
states. -/
def Simulates (step : σ → α → σ → Prop) (event : σ → α → σ → Option ε) (astep : τ → ε → τ → Prop)
    (rel : σ → τ → Prop) : Prop :=
  ∀ s a t q, rel s q → step s a t → ∃ q', Run astep q (event s a t).toList q' ∧ rel t q'

variable {astep : τ → ε → τ → Prop} {rel : σ → τ → Prop}

theorem Observed.simulate (h : Observed step event s as es t)
    (hsim : Simulates step event astep rel) {q : τ} (hq : rel s q) :
    ∃ q', Run astep q es q' ∧ rel t q' := by
  induction h generalizing q with
  | nil s => exact ⟨q, .nil q, hq⟩
  | cons hs _ ih =>
    obtain ⟨q₁, hrun, hq₁⟩ := hsim _ _ _ _ hq hs
    obtain ⟨q₂, hrun', hq₂⟩ := ih hq₁
    exact ⟨q₂, hrun.append hrun', hq₂⟩

/-- A silent step is matched by staying where one is. -/
theorem matched_silent {q : τ} {a : α} (hnone : event s a t = none) (hq : rel t q) :
    ∃ q', Run astep q (event s a t).toList q' ∧ rel t q' := by
  rw [hnone]
  exact ⟨q, .nil q, hq⟩

theorem matched_event {q q' : τ} {a : α} {e : ε} (hsome : event s a t = some e)
    (hstep : astep q e q') (hq : rel t q') :
    ∃ q', Run astep q (event s a t).toList q' ∧ rel t q' := by
  rw [hsome]
  exact ⟨q', .single hstep, hq⟩

/-- Evaluate a deterministic step along a list of labels, together with the events it shows. -/
def observe (f : σ → α → Option σ) (event : σ → α → σ → Option ε) : List α → σ → Option (List ε × σ)
  | [], s => some ([], s)
  | a :: as, s => (f s a).bind fun t => (observe f event as t).map fun r =>
    ((event s a t).toList ++ r.1, r.2)

theorem observed_of_observe {ok : σ → α → Prop} [∀ s a, Decidable (ok s a)] {f : σ → α → Option σ}
    (h : observe (guardFun ok f) event as s = some (es, t)) :
    Observed (guarded ok (ofFun f)) event s as es t := by
  induction as generalizing s es with
  | nil =>
    simp only [observe, Option.some.injEq, Prod.mk.injEq] at h
    obtain ⟨rfl, rfl⟩ := h
    exact .nil s
  | cons a as ih =>
    obtain ⟨u, hu, h⟩ := Option.bind_eq_some_iff.mp h
    obtain ⟨⟨es', t'⟩, hrest, heq⟩ := Option.map_eq_some_iff.mp h
    obtain ⟨rfl, rfl⟩ := Prod.mk.inj heq
    simp only [guardFun] at hu
    split at hu
    · rename_i hok
      exact .cons ⟨hok, hu⟩ (ih hrest)
    · cases hu

end Simulation
