import Mathlib.Logic.Function.Basic
import ShmIpc.Poll

/-!
# A registry of interests

What the poll is for, without `PollEvent`s, masks and pending changes: a descriptor
has at most one event, an event has the members that it wants to be called, and an
event that leaves takes the notes with it that a batch still has for it.
-/
namespace ShmIpcPollRegistry

open ShmIpcPoll (EventId Callback EventFilter Call andThen)

/-- The members of an event that are to be called. -/
abbrev Interest := Callback → Bool

def Interest.any (w : Interest) : Bool := w .eventRead || w .eventWrite || w .eventError

structure Registry where
  fileDesc : EventId → Int
  typeName : EventId → String
  registered : Int → Option (EventId × Interest)

/-- The result of a call and the registry behind it. -/
abbrev Outcome := Except String Unit × Registry

namespace Registry

variable (r : Registry) (e : EventId)

def name : String := "name:" ++ r.typeName e ++ " fd:" ++ toString (r.fileDesc e)

/-- The event is registered under its descriptor. -/
def holds : Bool := (r.registered (r.fileDesc e)).any fun x => x.1 = e

def wants (callback : Callback) : Bool :=
  (r.registered (r.fileDesc e)).any fun x => x.1 = e && x.2 callback

def lookup : Except String Interest :=
  if r.fileDesc e = -1 then
    .error ("PollInternal::event_mask() invalid file descriptor for event: " ++ r.name e)
  else match r.registered (r.fileDesc e) with
  | none => .error ("PollInternal::event_mask() event not found: " ++ r.name e)
  | some (e', w) => if e' = e then .ok w
      else .error ("PollInternal::event_mask() event mismatch: " ++ r.name e)

def put (w : Option Interest) : Registry :=
  { r with registered := Function.update r.registered (r.fileDesc e) (w.map fun w => (e, w)) }

def register : Outcome :=
  if r.fileDesc e = -1 then
    (.error ("Poll::open() invalid file descriptor for event: " ++ r.name e), r)
  else match r.registered (r.fileDesc e) with
  | none => (.ok (), r.put e (some fun _ => false))
  | some (e', _) =>
    if e' = e then
      (.error
        ("Poll::open() called but the event is already associated with a poll: " ++ r.name e), r)
    else (.error ("Poll::open() event already exists: " ++ r.name e), r)

def want (callback : Callback) (b : Bool) : Outcome :=
  match r.lookup e with
  | .error msg => (.error msg, r)
  | .ok w => (.ok (), r.put e (some (Function.update w callback b)))

/-- An event that is not registered has nothing to take back. -/
def unregister : Outcome :=
  match r.registered (r.fileDesc e) with
  | none => (.ok (), r)
  | some (e', w) =>
    if e' ≠ e then (.ok (), r)
    else if w.any then (.error
      ("Poll::close() called but the file descriptor is active: " ++ r.name e), r)
    else (.ok (), r.put e none)

end Registry

/-- The calls, each made of these three. -/
def perform (r : Registry) : Call → Outcome
  | .openEvent e => r.register e
  | .openAndInsertRead e => andThen (r.register e) fun r => r.want e .eventRead true
  | .openAndInsertReadWrite e =>
    andThen (r.register e) fun r => andThen (r.want e .eventRead true) fun r =>
      r.want e .eventWrite true
  | .openAndInsertWrite e => andThen (r.register e) fun r => r.want e .eventWrite true
  | .close e => r.unregister e
  | .insertRead e => r.want e .eventRead true
  | .insertWrite e => r.want e .eventWrite true
  | .insertError e => r.want e .eventError true
  | .removeRead e => r.want e .eventRead false
  | .removeWrite e => r.want e .eventWrite false
  | .removeError e => r.want e .eventError false
  | .removeAndClose e =>
    andThen (r.want e .eventRead false) fun r => andThen (r.want e .eventWrite false) fun r =>
      andThen (r.want e .eventError false) fun r => r.unregister e

/-! ## Batches -/

/-- What the system has to say about an event. The event is gone when it has been unregistered
since. -/
structure Note where
  filter : EventFilter
  evError : Bool
  event : Option EventId
  deriving DecidableEq

inductive Answer where
  | pass : Answer
  | refuse (msg : String) : Answer
  | call (callback : Callback) (e : EventId) : Answer

def answer (r : Registry) (n : Note) : Answer :=
  match n.event with
  | none => .pass
  | some e =>
    if n.evError then
      if r.wants e .eventError then .call .eventError e
      else .refuse ("Poll::process() received error event for event not in error: " ++ r.name e)
    else if n.filter = .read ∧ r.wants e .eventRead then .call .eventRead e
    else if n.filter = .write ∧ r.wants e .eventWrite then .call .eventWrite e
    else .pass

/-- An event whose error has been handled must not want anything any more. -/
def complaint (r : Registry) (callback : Callback) (event : Option EventId) (info : String) :
    Except String Unit :=
  if callback = .eventError ∧ event.any (fun e => Interest.any (r.wants e)) then
    .error ("Poll::process() event_error called but event mask not cleared: " ++ info)
  else .ok ()

/-- Outside of a batch, between two notes, or inside the callback of an event, which may leave
meanwhile. -/
inductive Stand where
  | outside : Stand
  | walking (rest : List Note) : Stand
  | calling (callback : Callback) (event : Option EventId) (info : String)
      (rest : List Note) : Stand

def cancelled (e : EventId) (event : Option EventId) : Option EventId :=
  if event = some e then none else event

def Note.cancel (e : EventId) (n : Note) : Note := { n with event := cancelled e n.event }

def Stand.cancel (e : EventId) : Stand → Stand
  | .outside => .outside
  | .walking rest => .walking (rest.map (Note.cancel e))
  | .calling callback event info rest => .calling callback (cancelled e event) info
      (rest.map (Note.cancel e))

/-- `count` is what the batch is going to return. -/
structure Watch where
  registry : Registry
  stand : Stand
  count : Nat

/-- A call from outside or from a callback. -/
def Watch.call (w : Watch) (c : Call) : Watch where
  registry := (perform w.registry c).2
  stand := if (perform w.registry c).2.holds c.event then w.stand else w.stand.cancel c.event
  count := w.count

/-- What the program observes. -/
inductive Seen where
  | called (c : Call) (result : Except String Unit) : Seen
  | setFileDescriptor (e : EventId) (fd : Int) : Seen
  | polled (notes : List Note) : Seen
  | passed : Seen
  | refused (msg : String) : Seen
  | callback (callback : Callback) (e : EventId) : Seen
  | returned (result : Except String Unit) : Seen
  | thrown : Seen
  | finished (count : Nat) : Seen

/-- A note of a batch is for a registered event, or for nobody. -/
def Fresh (r : Registry) (n : Note) : Prop :=
  match n.event with
  | none => n.filter = .user ∧ n.evError = false
  | some e => r.holds e = true

inductive Follows (w : Watch) : Seen → Watch → Prop where
  | called (c : Call) : (∀ rest, w.stand ≠ .walking rest) →
      Follows w (.called c (perform w.registry c).1) (w.call c)
  | setFileDescriptor {e : EventId} (fd : Int) : (∀ rest, w.stand ≠ .walking rest) →
      w.registry.holds e = false → Follows w (.setFileDescriptor e fd)
        { w with registry := { w.registry with
          fileDesc := Function.update w.registry.fileDesc e fd } }
  | polled {notes : List Note} : w.stand = .outside → (∀ n ∈ notes, Fresh w.registry n) →
      Follows w (.polled notes) ⟨w.registry, .walking notes, 0⟩
  | passed {n : Note} {rest : List Note} : w.stand = .walking (n :: rest) →
      answer w.registry n = .pass → Follows w .passed
      ⟨w.registry, .walking rest, if n.evError then w.count + 1 else w.count⟩
  | refused {n : Note} {rest : List Note} {msg : String} : w.stand = .walking (n :: rest) →
      answer w.registry n = .refuse msg → Follows w (.refused msg) { w with stand := .outside }
  | callback {n : Note} {rest : List Note} {callback : Callback} {e : EventId} :
      w.stand = .walking (n :: rest) → answer w.registry n = .call callback e →
      Follows w (.callback callback e)
      ⟨w.registry, .calling callback (some e) (w.registry.name e) rest, w.count + 1⟩
  | returned {callback : Callback} {event : Option EventId} {info : String} {rest : List Note} :
      w.stand = .calling callback event info rest →
      complaint w.registry callback event info = .ok () → Follows w (.returned (.ok ()))
      { w with stand := .walking rest }
  | complained {callback : Callback} {event : Option EventId} {info : String}
      {rest : List Note} {msg : String} : w.stand = .calling callback event info rest →
      complaint w.registry callback event info = .error msg → Follows w (.returned (.error msg))
      { w with stand := .outside }
  | thrown {callback : Callback} {event : Option EventId} {info : String} {rest : List Note} :
      w.stand = .calling callback event info rest → Follows w .thrown { w with stand := .outside }
  | finished : w.stand = .walking [] → Follows w (.finished w.count) { w with stand := .outside }

/-- Events that nobody has registered yet. -/
def Watch.start (fileDesc : EventId → Int) (typeName : EventId → String) : Watch :=
  ⟨⟨fileDesc, typeName, fun _ => none⟩, .outside, 0⟩

/-! ## What an event holds -/

section

variable {r : Registry} {e : EventId}

theorem lookup_holds {w : Interest} (h : r.lookup e = .ok w) :
    r.registered (r.fileDesc e) = some (e, w) := by
  simp only [Registry.lookup] at h
  split at h
  · cases h
  · split at h
    · cases h
    · rename_i e' w' hreg
      split at h
      · rename_i he
        obtain rfl := Except.ok.inj h
        rw [hreg, he]
      · cases h

@[simp] theorem holds_put (w : Option Interest) : (r.put e w).holds e = w.isSome := by
  cases w <;> simp [Registry.holds, Registry.put]

theorem holds_want {callback : Callback} {b : Bool} (h : (r.want e callback b).2.holds e = true) :
    r.holds e = true := by
  simp only [Registry.want] at h
  split at h
  · exact h
  · rename_i w hw
    simp [Registry.holds, lookup_holds hw]

theorem holds_unregister (h : (r.unregister e).2.holds e = true) : r.holds e = true := by
  simp only [Registry.unregister] at h
  split at h
  · exact h
  · split at h
    · exact h
    · split at h
      · exact h
      · rw [holds_put] at h
        cases h

theorem holds_andThen {f g : Registry → Outcome}
    (hf : ∀ {r}, (f r).2.holds e = true → r.holds e = true)
    (hg : ∀ {r}, (g r).2.holds e = true → r.holds e = true) {r : Registry}
    (h : (andThen (f r) g).2.holds e = true) : r.holds e = true := by
  simp only [andThen] at h
  split at h
  · rename_i s heq
    have := hg h
    rw [show s = (f r).2 by rw [heq]] at this
    exact hf this
  · rename_i s heq
    have h' : (f r).2.holds e = true := by rw [heq]; exact h
    exact hf h'

end

end ShmIpcPollRegistry
