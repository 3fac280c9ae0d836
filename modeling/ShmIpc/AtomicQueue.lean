import ShmIpc.LabelledRun

/-!
# An atomic queue

What a channel with one writer and one reader is for: the writer calls, and its
call is answered in one step, which puts some elements behind the others; the
reader looks at the first element and takes it, or is told that there is none.
-/
namespace AtomicQueue

open LabelledRun

variable {κ α ρ : Type}

/-- The elements and the call of the writer that has not been answered yet. -/
structure Queue (κ ρ : Type) where
  elements : List ρ
  underWay : Option κ

inductive Event (κ α ρ : Type) where
  | call (c : κ) : Event κ α ρ
  | put (answer : α) (xs : List ρ) : Event κ α ρ
  | empty : Event κ α ρ
  | front (x : ρ) : Event κ α ρ
  | dequeue (x : ρ) : Event κ α ρ
  deriving DecidableEq

/-- `puts` says which answer a call may get and what it puts into the queue then. -/
inductive Step (puts : κ → α → List ρ → Prop) : Queue κ ρ → Event κ α ρ → Queue κ ρ → Prop where
  | call (q : List ρ) (c : κ) : Step puts ⟨q, none⟩ (.call c) ⟨q, some c⟩
  | put (q : List ρ) {c : κ} {answer : α} {xs : List ρ} : puts c answer xs →
      Step puts ⟨q, some c⟩ (.put answer xs) ⟨q ++ xs, none⟩
  | empty (w : Option κ) : Step puts ⟨[], w⟩ .empty ⟨[], w⟩
  | front (x : ρ) (q : List ρ) (w : Option κ) : Step puts ⟨x :: q, w⟩ (.front x) ⟨x :: q, w⟩
  | dequeue (x : ρ) (q : List ρ) (w : Option κ) : Step puts ⟨x :: q, w⟩ (.dequeue x) ⟨q, w⟩

/-- The call that it leaves without an answer. -/
def pending (es : List (Event κ α ρ)) (w : Option κ) : Option κ :=
  es.foldl (fun w e =>
    match e with
    | .call c => some c
    | .put _ _ => none
    | _ => w) w

variable {puts : κ → α → List ρ → Prop} {q q' : Queue κ ρ} {es : List (Event κ α ρ)}

end AtomicQueue
