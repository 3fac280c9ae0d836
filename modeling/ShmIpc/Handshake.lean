import Mathlib.Data.List.Basic
import Mathlib.Logic.Function.Basic

/-!
# Closing a two-way stream

Two sides hold an entry each for a common stream and send signals to one another
in order. A side closes its direction with a signal, or drops its entry without
one if the other side has closed before. The two directions go through the same
three phases: not closed, the close in flight, and the close seen.
-/
namespace Handshake

inductive Side where
  | left | right
  deriving DecidableEq

def Side.other : Side → Side
  | .left => .right
  | .right => .left

@[simp] theorem other_other (a : Side) : a.other.other = a := by cases a <;> rfl

@[simp] theorem other_ne (a : Side) : a.other ≠ a := by cases a <;> decide

@[simp] theorem ne_other (a : Side) : a ≠ a.other := (other_ne a).symm

theorem eq_or_other (a b : Side) : b = a ∨ b = a.other := by cases a <;> cases b <;> decide

structure Entry where
  closedRead : Bool
  closedWrite : Bool

inductive Signal where
  | data | close
  deriving DecidableEq

/-- `flight a` has been sent by side `a` and not yet been received. -/
structure State where
  entry : Side → Option Entry
  flight : Side → List Signal

inductive Act where
  | write | close | receive
  deriving DecidableEq

/-- An entry after a signal: a second close drops it. -/
def Entry.receive (e : Entry) : Signal → Option Entry
  | .data => some e
  | .close => if e.closedRead then none else some { e with closedRead := true }

def State.setEntry (s : State) (a : Side) (e : Option Entry) : State :=
  { s with entry := Function.update s.entry a e }

def State.setFlight (s : State) (a : Side) (l : List Signal) : State :=
  { s with flight := Function.update s.flight a l }

theorem setEntry_of_eq {s : State} {a : Side} {e : Option Entry} (h : s.entry a = e) :
    s.setEntry a e = s := by
  subst h
  simp [State.setEntry]

theorem setFlight_of_eq {s : State} {a : Side} {l : List Signal} (h : s.flight a = l) :
    s.setFlight a l = s := by
  subst h
  simp [State.setFlight]

@[simp] theorem flight_setEntry (s : State) (a b : Side) (e : Option Entry) :
    (s.setEntry a e).flight b = s.flight b := rfl

@[simp] theorem flight_setFlight_other (s : State) (a : Side) (l : List Signal) :
    (s.setFlight a l).flight a.other = s.flight a.other := by simp [State.setFlight]

/-- One act of one side; there is none without an entry. -/
def step (s : State) (a : Side) : Act → Option State
  | .write =>
    match s.entry a with
    | none => none
    | some _ => some (s.setFlight a (s.flight a ++ [.data]))
  | .close =>
    match s.entry a with
    | none => none
    | some e =>
      if e.closedWrite then none
      else if e.closedRead then some (s.setEntry a none)
      else some ((s.setEntry a (some { e with closedWrite := true })).setFlight a
        (s.flight a ++ [.close]))
  | .receive =>
    match s.flight a.other, s.entry a with
    | x :: rest, some e => some ((s.setEntry a (e.receive x)).setFlight a.other rest)
    | _, _ => none

/-- What may follow a close in flight. -/
structure Trailer (T : List Signal → Prop) : Prop where
  nil : T []
  tail {x : Signal} {l : List Signal} : T (x :: l) → T l
  noClose {l : List Signal} : T l → .close ∉ l

/-- The phases of one direction: `mine` says whether the sender's entry is closed for write,
`theirs` whether the receiver's is closed for read. -/
inductive Phase (T : List Signal → Prop) (mine theirs : Option Bool)
    (flight : List Signal) : Prop where
  | unclosed : mine ≠ some true → .close ∉ flight → theirs = some false → Phase T mine theirs flight
  | flying {front back : List Signal} : mine = some true → flight = front ++ .close :: back →
      .close ∉ front → T back → theirs = some false → Phase T mine theirs flight
  | seen : mine = some true → T flight → theirs ≠ some false → Phase T mine theirs flight

def State.mine (s : State) (a : Side) : Option Bool := (s.entry a).map Entry.closedWrite
def State.theirs (s : State) (a : Side) : Option Bool := (s.entry a.other).map Entry.closedRead

def Inv (T : List Signal → Prop) (s : State) : Prop :=
  ∀ a, Phase T (s.mine a) (s.theirs a) (s.flight a)

section Phases

variable {T : List Signal → Prop} {mine theirs : Option Bool} {flight rest : List Signal}

theorem Phase.write (h : Phase T mine theirs flight)
    (hT : mine = some true → ∀ l, T l → T (l ++ [.data])) :
    Phase T mine theirs (flight ++ [.data]) := by
  cases h with
  | unclosed hm hf ht => exact .unclosed hm (by simpa using hf) ht
  | flying hm hf hfront hback ht => exact .flying hm (by rw [hf]; simp) hfront (hT hm _ hback) ht
  | seen hm hf ht => exact .seen hm (hT hm _ hf) ht

/-- A sender that has not closed may drop its entry. -/
theorem Phase.drop (h : Phase T (some false) theirs flight) : Phase T none theirs flight := by
  cases h with
  | unclosed _ hf ht => exact .unclosed (by simp) hf ht
  | flying hm => simp at hm
  | seen hm => simp at hm

/-- So may a receiver that has seen the close. -/
theorem Phase.dropped (h : Phase T mine (some true) flight) : Phase T mine none flight := by
  cases h with
  | unclosed _ _ ht => simp at ht
  | flying _ _ _ _ ht => simp at ht
  | seen hm hf _ => exact .seen hm hf (by simp)

theorem Phase.close (hT : Trailer T) (h : Phase T (some false) theirs flight) :
    Phase T (some true) theirs (flight ++ [.close]) := by
  cases h with
  | unclosed _ hf ht => exact .flying rfl rfl hf hT.nil ht
  | flying hm => simp at hm
  | seen hm => simp at hm

theorem Phase.receiveData (hT : Trailer T) (h : Phase T mine theirs (.data :: rest)) :
    Phase T mine theirs rest := by
  cases h with
  | unclosed hm hf ht => exact .unclosed hm (fun hc => hf (List.mem_cons_of_mem _ hc)) ht
  | flying hm hf hfront hback ht =>
    rename_i front back
    cases front with
    | nil => cases hf
    | cons x front =>
      obtain ⟨_, rfl⟩ := List.cons.inj hf
      exact .flying hm rfl (fun hc => hfront (List.mem_cons_of_mem _ hc)) hback ht
  | seen hm hf ht => exact .seen hm (hT.tail hf) ht

/-- The close is seen once. -/
theorem Phase.receiveClose (hT : Trailer T) (h : Phase T mine theirs (.close :: rest)) :
    theirs = some false ∧ Phase T mine (some true) rest := by
  cases h with
  | unclosed _ hf _ => exact absurd List.mem_cons_self hf
  | flying hm hf hfront hback ht =>
    rename_i front back
    cases front with
    | nil =>
      obtain ⟨_, rfl⟩ := List.cons.inj hf
      exact ⟨ht, .seen hm hback (by simp)⟩
    | cons x front =>
      obtain ⟨rfl, _⟩ := List.cons.inj hf
      exact absurd List.mem_cons_self hfront
  | seen _ hf _ => exact absurd List.mem_cons_self (hT.noClose hf)

end Phases

section Steps

variable {T : List Signal → Prop} {s t : State} {a : Side}

/-- The two directions of a state, as seen from one side. -/
theorem inv_iff (a : Side) : Inv T s ↔
    Phase T (s.mine a) (s.theirs a) (s.flight a) ∧
      Phase T (s.mine a.other) (s.theirs a.other) (s.flight a.other) := by
  constructor
  · exact fun h => ⟨h a, h a.other⟩
  · rintro ⟨h₁, h₂⟩ b
    rcases eq_or_other a b with rfl | rfl
    · exact h₁
    · exact h₂

theorem inv_write (hi : Inv T s) (hT : s.mine a = some true → ∀ l, T l → T (l ++ [.data]))
    (h : step s a .write = some t) : Inv T t := by
  simp only [step] at h
  split at h
  · cases h
  · cases h
    rw [inv_iff a] at hi ⊢
    constructor
    · simpa [State.setFlight, State.mine, State.theirs] using hi.1.write hT
    · simpa [State.setFlight, State.mine, State.theirs] using hi.2

theorem inv_close (hT : Trailer T) (hi : Inv T s) (h : step s a .close = some t) : Inv T t := by
  simp only [step] at h
  split at h
  · cases h
  · rename_i e he
    split at h
    · cases h
    · rename_i hw
      have hmine : s.mine a = some false := by simpa [State.mine, he] using hw
      rw [inv_iff a] at hi ⊢
      rw [hmine] at hi
      split at h
      · rename_i hr
        cases h
        have htheirs : s.theirs a.other = some true := by simpa [State.theirs, he] using hr
        rw [htheirs] at hi
        constructor
        · simpa [State.setEntry, State.mine, State.theirs] using hi.1.drop
        · simpa [State.setEntry, State.mine, State.theirs] using hi.2.dropped
      · cases h
        constructor
        · simpa [State.setEntry, State.setFlight, State.mine, State.theirs] using hi.1.close hT
        · simpa [State.setEntry, State.setFlight, State.mine, State.theirs, he] using hi.2

theorem inv_receive (hT : Trailer T) (hi : Inv T s) (h : step s a .receive = some t) : Inv T t := by
  simp only [step] at h
  split at h
  · rename_i x rest e hf he
    cases h
    rw [inv_iff a] at hi ⊢
    rw [hf] at hi
    cases x with
    | data =>
      constructor
      · simpa [State.setEntry, State.setFlight, State.mine, State.theirs,
          Entry.receive, he] using hi.1
      · simpa [State.setEntry, State.setFlight, State.mine, State.theirs, Entry.receive,
          he] using hi.2.receiveData hT
    | close =>
      obtain ⟨htheirs, hphase⟩ := hi.2.receiveClose hT
      have hr : e.closedRead = false := by simpa [State.theirs, he] using htheirs
      constructor
      · simpa [State.setEntry, State.setFlight, State.mine, State.theirs,
          Entry.receive, he, hr] using hi.1
      · simpa [State.setEntry, State.setFlight, State.mine, State.theirs,
          Entry.receive, he, hr] using hphase
  · cases h

/-- The last of the two sides never drops its entry. -/
theorem entry_left (hi : Inv T s) : ∃ a, (s.entry a).isSome := by
  cases hl : s.entry .left with
  | some e => exact ⟨.left, by rw [hl]; rfl⟩
  | none =>
    cases hr : s.entry .right with
    | some e => exact ⟨.right, by rw [hr]; rfl⟩
    | none =>
      have hphase := hi .left
      simp only [State.mine, State.theirs, Side.other, hl, hr, Option.map_none] at hphase
      cases hphase with
      | unclosed _ _ ht => cases ht
      | flying hm => cases hm
      | seen hm => cases hm

end Steps

/-! ## Two disciplines of writing -/

/-- Anything but a second close may follow a close. -/
theorem trailer_data : Trailer (fun l => .close ∉ l) :=
  ⟨by simp, fun h hc => h (List.mem_cons_of_mem _ hc), id⟩

/-- Nothing follows a close. -/
theorem trailer_nil : Trailer (· = []) :=
  ⟨rfl, fun h => absurd h (List.cons_ne_nil _ _), by rintro _ rfl; simp⟩

/-- If nothing follows a close, whoever has a signal to receive has an entry. -/
theorem entry_of_flight {s : State} {a : Side} (hi : Inv (· = []) s) (hf : s.flight a.other ≠ []) :
    (s.entry a).isSome := by
  cases he : s.entry a with
  | some e => rfl
  | none =>
    have hphase := hi a.other
    simp only [State.theirs, other_other, he, Option.map_none] at hphase
    cases hphase with
    | unclosed _ _ ht => cases ht
    | flying _ _ _ _ ht => cases ht
    | seen _ hnil _ => exact absurd hnil hf

end Handshake
