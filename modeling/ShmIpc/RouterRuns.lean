import ShmIpc.RouterPair

/-!
# Runs of two connected routers

What the close handshake does to the handler tables, when a record can meet a
table without its id, and when a callback is invoked after `Router::close`.
-/
namespace ShmIpcRouterRuns

open LabelledRun ShmIpcRouter ShmIpcRouterPair
open Handshake hiding step
open ShmIpcPlacement (Record)

variable {φ : Type} {p p₀ p₁ q : Pair φ} {a : Side} {id : UInt32} {ops : List (Side × Op)}

/-! ## What is left of a closed id -/

theorem sound_run (h₀ : Registered id p₀) (h : Run (ofFun step) p₀ ops p) :
    Sound (fun l => .close ∉ l) id p :=
  h.invariant _ (sound_registered h₀) fun _ _ _ hs hstep =>
    sound_step trailer_data hs (fun _ _ _ _ l hl => by simpa using hl) hstep

/-- Neither table contains the id any more. -/
def NoneLeft (id : UInt32) (p : Pair φ) : Prop := ∀ a, (p a).handlers id = none

def closes (id : UInt32) : Op → Bool
  | .close k => k == id
  | _ => false

/-- Each side has closed the id exactly once, and everything sent has been processed. -/
def Completed (id : UInt32) (ops : List (Side × Op)) (p : Pair φ) : Prop :=
  (∀ a, (ops.filter fun x => x.1 == a && closes id x.2).length = 1) ∧
    ∀ a, (p a).writeChannel.records = []

/-- No run of writes, closes and reads without an exception, completed or not, takes a
registered id out of both tables. -/
theorem never_none_left (h₀ : Registered id p₀) (h : Run (ofFun step) p₀ ops p) :
    ¬ NoneLeft id p := by
  obtain ⟨a, ha⟩ := entry_left (sound_run h₀ h).phases
  intro hnone
  simp [handshake, hnone a] at ha

/-- Id 1 on both sides, with callbacks that carry no name. -/
def idOne : Pair Unit := register created 1 () ()

theorem idOne_registered : Registered 1 idOne := registered_created () () rfl

theorem never_none_left_one :
    ∃ p, Run (ofFun step) idOne [(.left, .close 1), (.right, .processRead)] p ∧ ¬ NoneLeft 1 p := by
  have hsome : (runFun step [(.left, .close 1), (.right, .processRead)] idOne).isSome := by decide
  obtain ⟨p, hp⟩ := Option.isSome_iff_exists.mp hsome
  exact ⟨p, run_of_runFun hp, never_none_left idOne_registered (run_of_runFun hp)⟩

/-- One side closes, the other one reads that and closes as well: the first side keeps its
handler. -/
theorem closed_id_left_behind :
    ∃ p, Run (ofFun step) idOne
        [(.left, .close 1), (.right, .processRead), (.right, .close 1), (.left, .processRead)] p ∧
      Completed 1 [(.left, .close 1), (.right, .processRead), (.right, .close 1),
        (.left, .processRead)] p ∧
      ¬ NoneLeft 1 p := by
  have heval : (runFun step
      [(.left, .close 1), (.right, .processRead), (.right, .close 1), (.left, .processRead)]
      idOne).map (fun p => ((p .left).writeChannel.records, (p .right).writeChannel.records,
        ((p .left).handlers 1).isSome)) = some ([], [], true) := by decide
  obtain ⟨p, hp, heq⟩ := Option.map_eq_some_iff.mp heval
  simp only [Prod.mk.injEq] at heq
  obtain ⟨hl, hr, hsome⟩ := heq
  refine ⟨p, run_of_runFun hp, ⟨fun a => ?_, fun a => ?_⟩, fun hnone => ?_⟩
  · cases a <;> rfl
  · cases a
    · exact hl
    · exact hr
  · simp [hnone .left] at hsome

/-! ## Records for unknown handlers -/

/-- Every registered id is registered on both sides. -/
def RegisteredBoth (p : Pair φ) : Prop :=
  Joined p ∧ Plain p ∧ (∀ a, (p a).writeChannel.records = []) ∧
    ∀ id, (∃ a, ((p a).handlers id).isSome) → Registered id p

/-- An id that was never registered: no handler, no record. -/
def Unused (id : UInt32) (p : Pair φ) : Prop :=
  ∀ a, (handshake id p).entry a = none ∧ (handshake id p).flight a = []

/-- Close records come without payload. -/
def ClosesEmpty (p : Pair φ) : Prop :=
  ∀ a, ∀ x ∈ (p a).writeChannel.records, x.id &&& flagClose ≠ 0 → x.payload = []

/-- The state of all ids, where `T` may follow a close in flight. -/
structure Tidy (T : List Signal → Prop) (p : Pair φ) : Prop where
  joined : Joined p
  plain : Plain p
  closes : ClosesEmpty p
  ids : ∀ id, Inv T (handshake id p) ∨ Unused id p

section Tidy

variable {T : List Signal → Prop}

theorem tidy_registered (h : RegisteredBoth p) : Tidy T p := by
  obtain ⟨hj, hp, hempty, hids⟩ := h
  refine ⟨hj, hp, fun a x hx => ?_, fun id => ?_⟩
  · rw [hempty a] at hx
    cases hx
  · by_cases hid : ∃ a, ((p a).handlers id).isSome
    · exact .inl (sound_registered (hids id hid)).phases
    · refine .inr fun a => ⟨?_, by simp [handshake, hempty a]⟩
      have hnone : (p a).handlers id = none := by
        cases hh : (p a).handlers id with
        | none => rfl
        | some h => exact absurd ⟨a, by rw [hh]; rfl⟩ hid
      simp [handshake, hnone]

theorem closesEmpty_put {r : Router Fifo φ}
    (hr : ∀ x ∈ r.readChannel.records, x.id &&& flagClose ≠ 0 → x.payload = [])
    (hw : ∀ x ∈ r.writeChannel.records, x.id &&& flagClose ≠ 0 → x.payload = []) :
    ClosesEmpty (p.put a r) := by
  intro b
  rcases eq_or_other a b with rfl | rfl
  · simpa [Pair.put] using hw
  · simpa [Pair.put] using hr

theorem closesEmpty_step {op : Op} (hj : Joined p) (hp : Plain p) (hc : ClosesEmpty p)
    (h : step p (a, op) = some q) : ClosesEmpty q := by
  have hread : ∀ x ∈ (p a).readChannel.records, x.id &&& flagClose ≠ 0 → x.payload = [] := by
    rw [hj a]
    exact hc a.other
  have happend {x : Record} (hx : x.id &&& flagClose ≠ 0 → x.payload = []) :
      ∀ y ∈ (p a).writeChannel.records ++ [x], y.id &&& flagClose ≠ 0 → y.payload = [] := by
    intro y hy
    rcases List.mem_append.mp hy with hy | hy
    · exact hc a y hy
    · rwa [List.mem_singleton.mp hy]
  cases effect_of_step h with
  | write payload state n hsome =>
    exact closesEmpty_put hread (happend fun hf => absurd (unflagged (hp a _ hsome)) hf)
  | erase _ _ _ => exact closesEmpty_put hread (hc a)
  | close _ _ _ => exact closesEmpty_put hread (happend fun _ => rfl)
  | idle _ => exact closesEmpty_put hread (hc a)
  | read _ _ =>
    rw [deliver_eq]
    exact closesEmpty_put (fun y hy => hread y (List.mem_of_mem_tail hy)) (hc a)

theorem unused_step {op : Op} (hj : Joined p) (hp : Plain p) (hu : Unused id p)
    (h : step p (a, op) = some q) : Unused id q := by
  have hfollows : Follows id p q a op := follows_step hj hp h
  rcases hfollows with heq | ⟨act, _, hact⟩
  · unfold Unused
    rw [heq]
    exact hu
  · cases act <;> simp [Handshake.step, (hu a).1] at hact

/-- Every step whose write obeys the discipline keeps the tables in order. -/
theorem tidy_step {op : Op} (hT : Trailer T) (ht : Tidy T p)
    (hw : ∀ id size data, op = .write id size data →
      (handshake id p).mine a = some true → ∀ l, T l → T (l ++ [.data]))
    (h : step p (a, op) = some q) : Tidy T q := by
  refine ⟨joined_step h, plain_step ht.plain h, closesEmpty_step ht.joined ht.plain
    ht.closes h, fun id => ?_⟩
  rcases ht.ids id with hinv | hunused
  · exact .inl (sound_step hT ⟨ht.joined, ht.plain, hinv⟩ (hw id) h).phases
  · exact .inr (unused_step ht.joined ht.plain hunused h)

theorem phases_of_handler (ht : Tidy T p) (h : ((p a).handlers id).isSome) :
    Inv T (handshake id p) := by
  rcases ht.ids id with hinv | hunused
  · exact hinv
  · have hnone := (hunused a).1
    simp only [handshake, Option.map_eq_none_iff] at hnone
    simp [hnone] at h

/-- A close record meets a handler that is not closed for read yet, so that no round erases one. -/
theorem settled_isSome (hT : Trailer T) (ht : Tidy T p) {x : Record} {xs : List Record}
    {handler : RouterHandler φ} (hx : (p a).readChannel.records = x :: xs)
    (hh : (p a).handlers (x.id &&& ~~~flagMask) = some handler) :
    (settled handler (decide (x.id &&& flagClose ≠ 0))).isSome := by
  by_cases hflag : x.id &&& flagClose ≠ 0
  · have hphase := phases_of_handler (a := a) ht (by rw [hh]; rfl) a.other
    rw [flight_read ht.joined, hx, List.filterMap_cons] at hphase
    simp only [signal, hflag, ne_eq, not_false_eq_true, ↓reduceIte] at hphase
    obtain ⟨htheirs, _⟩ := hphase.receiveClose hT
    have hopen : handler.isClosedRead = false := by
      simpa [State.theirs, handshake, hh, entryOf] using htheirs
    simp [settled, hflag, hopen]
  · simp [settled, hflag]

/-! ### Records on their way -/

/-- Every record leads to a handler of the table. -/
def Known (handlers : UInt32 → Option (RouterHandler φ)) (records : List Record) : Prop :=
  ∀ x ∈ records, (handlers (x.id &&& ~~~flagMask)).isSome

/-- On both sides every record to be read has a handler. -/
def Met (p : Pair φ) : Prop := ∀ a, Known (p a).handlers (p a).readChannel.records

theorem met_put (r : Router Fifo φ) : Met (p.put a r) ↔
    Known r.handlers r.readChannel.records ∧ Known (p a.other).handlers r.writeChannel.records := by
  constructor
  · intro h
    constructor
    · simpa [Pair.put] using h a
    · simpa [Pair.put] using h a.other
  · rintro ⟨h₁, h₂⟩ b
    rcases eq_or_other a b with rfl | rfl
    · simpa [Pair.put] using h₁
    · simpa [Pair.put] using h₂

theorem known_append {handlers : UInt32 → Option (RouterHandler φ)}
    {records : List Record} {x : Record} (h : Known handlers records)
    (hx : (handlers (x.id &&& ~~~flagMask)).isSome) : Known handlers (records ++ [x]) := by
  intro y hy
  rcases List.mem_append.mp hy with hy | hy
  · exact h y hy
  · rwa [List.mem_singleton.mp hy]

/-- What this side has written is met on the other side. -/
theorem met_write_side (ht : Tidy T p) (hm : Met p) :
    Known (p a.other).handlers (p a).writeChannel.records := by
  have hread := hm a.other
  rwa [ht.joined a.other, other_other] at hread

/-- As long as this side has not closed, the other one has a handler. -/
theorem peer_of_open (ht : Tidy T p) {handler : RouterHandler φ}
    (hh : (p a).handlers id = some handler) (hw : handler.isClosedWrite = false) :
    ((p a.other).handlers id).isSome := by
  have hphase := phases_of_handler (a := a) ht (by rw [hh]; rfl) a
  cases hphase with
  | unclosed _ _ htheirs =>
    simp only [State.theirs, handshake, Option.map_map, Option.map_eq_some_iff] at htheirs
    obtain ⟨peer, hpeer, _⟩ := htheirs
    rw [hpeer]
    rfl
  | flying hmine => simp [State.mine, handshake, hh, entryOf, hw] at hmine
  | seen hmine => simp [State.mine, handshake, hh, entryOf, hw] at hmine

/-- The other side knows the id of a write, and a close that erases the handler finds no
record for it on the way. -/
def Expected (p : Pair φ) : Side × Op → Prop
  | (a, .write id _ _) => ((p a.other).handlers id).isSome
  | (a, .close id) => ∀ h, (p a).handlers id = some h → h.isClosedRead →
      ∀ x ∈ (p a).readChannel.records, x.id &&& ~~~flagMask ≠ id
  | (_, .processRead) => True

theorem met_write {k size : UInt32} {data : Option (Nat → UInt8)} (ht : Tidy T p) (hm : Met p)
    (h : step p (a, .write k size data) = some q) : Met q ↔ Expected p (a, .write k size data) := by
  cases effect_of_step h with
  | write payload state n hsome =>
    have hplain := unmasked (ht.plain a k hsome)
    rw [met_put]
    constructor
    · intro hq
      have hnew := hq.2 ⟨k, payload⟩ (by simp)
      rwa [hplain] at hnew
    · intro hk
      exact ⟨hm a, known_append (met_write_side ht hm) (by rwa [hplain])⟩

/-- The close record of an open handler meets an open handler; a close without one is expected
exactly if nothing is left behind. -/
theorem met_close {k : UInt32} (ht : Tidy T p) (hm : Met p) (h : step p (a, .close k) = some q) :
    Met q ↔ Expected p (a, .close k) := by
  cases effect_of_step h with
  | erase hh _ hread =>
    rw [met_put]
    constructor
    · intro hq h _ _ x hx he
      have hsome := hq.1 x hx
      simp [Router.erase, he] at hsome
    · intro hno
      refine ⟨fun x hx => ?_, met_write_side ht hm⟩
      have hne := hno _ hh hread x hx
      simpa only [Router.erase, Function.update_of_ne hne] using hm a x hx
  | close hh hwrite hread =>
    rename_i handler
    refine iff_of_true ?_ ?_
    · have hplain := ht.plain a k (by rw [hh]; rfl)
      rw [met_put]
      refine ⟨fun x hx => ?_, known_append (met_write_side ht hm) ?_⟩
      · by_cases he : x.id &&& ~~~flagMask = k
        · simp [Router.setHandler, he]
        · simpa only [Router.setHandler, Function.update_of_ne he] using hm a x hx
      · rw [closeId_unmasked hplain]
        exact peer_of_open ht hh hwrite
    · intro h hs hclosed
      obtain rfl : handler = h := Option.some.inj (hh.symm.trans hs)
      rw [hread] at hclosed
      cases hclosed

theorem met_processRead (hT : Trailer T) (ht : Tidy T p) (hm : Met p)
    (h : step p (a, .processRead) = some q) : Met q := by
  cases effect_of_step h with
  | idle _ => exact (met_put _).mpr ⟨hm a, met_write_side ht hm⟩
  | read hx hh =>
    rename_i x xs handler
    rw [deliver_eq, met_put]
    refine ⟨fun y hy => ?_, met_write_side ht hm⟩
    have hy' : y ∈ xs := by simpa [Fifo.rest, hx] using hy
    by_cases he : y.id &&& ~~~flagMask = x.id &&& ~~~flagMask
    · simpa only [he, Function.update_self] using settled_isSome hT ht hx hh
    · simpa only [Function.update_of_ne he] using hm a y (by simp [hx, hy'])

/-- A step leaves a record without a handler behind exactly if it is not expected. -/
theorem met_step {x : Side × Op} (hT : Trailer T) (ht : Tidy T p) (hm : Met p)
    (h : step p x = some q) : Met q ↔ Expected p x := by
  obtain ⟨a, op⟩ := x
  cases op with
  | write k size data => exact met_write ht hm h
  | close k => exact met_close ht hm h
  | processRead => exact iff_of_true (met_processRead hT ht hm h) trivial

/-! ### Throws -/

/-- `process_reads` does not throw on either side, however many rounds it makes. -/
def NeverThrows (p : Pair φ) : Prop :=
  ∀ a n msg, (processReads n (p a)).1 ≠ some (.error msg)

theorem round_ok (ht : Tidy T p) (hm : Met p) (a : Side) :
    ∃ b r, processRead (p a) = (.ok b, r) := by
  cases hx : (p a).readChannel.records with
  | nil => exact ⟨_, _, processRead_nil hx⟩
  | cons x xs =>
    have hround := processRead_cons hx
    have hmem : x ∈ (p a).readChannel.records := by simp [hx]
    have hsome := hm a x hmem
    rw [ht.joined a] at hmem
    generalize processRead (p a) = res at hround ⊢
    cases hround with
    | unknown hnone => simp [hnone] at hsome
    | oversized _ hflag hsize => exact absurd (by simp [ht.closes a.other x hmem hflag]) hsize
    | settled _ => exact ⟨_, _, rfl⟩

theorem neverThrows_of_met (hT : Trailer T) (ht : Tidy T p) (hm : Met p) : NeverThrows p := by
  intro a n msg
  induction n generalizing p with
  | zero => simp [processReads]
  | succ n ih =>
    obtain ⟨b, r, hround⟩ := round_ok ht hm a
    have hstep : step p (a, .processRead) = some (p.put a r) := by simp only [step, hround]
    have hput : p.put a r a = r := by simp [Pair.put]
    rw [processReads, hround]
    cases b with
    | false => simp
    | true =>
      have hrest := ih (tidy_step hT ht (by simp) hstep) (met_processRead hT ht hm hstep)
      rwa [hput] at hrest

/-- What a round that goes on has found and left behind. -/
theorem round_ok_eq {r r' : Router Fifo φ} {x : Record} {b : Bool} (h : Round r x (.ok b, r')) :
    ∃ handler, b = true ∧ r.handlers (x.id &&& ~~~flagMask) = some handler ∧
      r'.readChannel = r.readChannel.rest ∧ r'.handlers = Function.update r.handlers
        (x.id &&& ~~~flagMask) (settled handler (decide (x.id &&& flagClose ≠ 0))) := by
  cases h with
  | settled hh => exact ⟨_, rfl, hh, rfl, rfl⟩

/-- A record without a handler makes `process_reads` throw, at the latest in its own round. -/
theorem stray_throws {r : Router Fifo φ} {x : Record} (hx : x ∈ r.readChannel.records)
    (hnone : r.handlers (x.id &&& ~~~flagMask) = none) :
    ∃ n msg, (processReads n r).1 = some (.error msg) := by
  obtain ⟨records, hrec⟩ : ∃ records, r.readChannel.records = records := ⟨_, rfl⟩
  rw [hrec] at hx
  induction records generalizing r with
  | nil => cases hx
  | cons y ys ih =>
    have hround := processRead_cons hrec
    obtain ⟨⟨res, r'⟩, heq⟩ : ∃ res, processRead r = res := ⟨_, rfl⟩
    rw [heq] at hround
    cases res with
    | error msg => exact ⟨1, msg, by rw [processReads, heq]⟩
    | ok b =>
      obtain ⟨handler, rfl, hsome, hrest, hhandlers⟩ := round_ok_eq hround
      have hne : x.id &&& ~~~flagMask ≠ y.id &&& ~~~flagMask := by
        intro he
        rw [← he, hnone] at hsome
        cases hsome
      have hmem : x ∈ ys := by
        rcases List.mem_cons.mp hx with rfl | hmem
        · exact absurd rfl hne
        · exact hmem
      have hnone' : r'.handlers (x.id &&& ~~~flagMask) = none := by
        rw [hhandlers, Function.update_of_ne hne, hnone]
      obtain ⟨n, msg, hn⟩ := ih hnone' hmem (by simp [hrest, Fifo.rest, hrec])
      exact ⟨n + 1, msg, by rw [processReads, heq]; exact hn⟩

theorem neverThrows_iff (hT : Trailer T) (ht : Tidy T p) : NeverThrows p ↔ Met p := by
  constructor
  · intro hnever a x hx
    cases hh : (p a).handlers (x.id &&& ~~~flagMask) with
    | some handler => rfl
    | none =>
      obtain ⟨n, msg, hn⟩ := stray_throws hx hh
      exact absurd hn (hnever a n msg)
  · exact neverThrows_of_met hT ht

end Tidy

theorem met_registered (h : RegisteredBoth p) : Met p := by
  intro a x hx
  rw [h.1 a, h.2.2.1 a.other] at hx
  cases hx

/-- As long as every step is expected, no record meets a table without its id; and the first
step that is not expected makes `process_reads` throw. -/
theorem reads_never_throw (h₀ : RegisteredBoth p₀)
    (h : Run (guarded Expected (ofFun step)) p₀ ops p) :
    NeverThrows p ∧ ∀ x q, step p x = some q → (NeverThrows q ↔ Expected p x) := by
  have hclose (p q : Pair φ) (x : Side × Op) (ht : Tidy (fun l => .close ∉ l) p)
      (h : step p x = some q) : Tidy (fun l => .close ∉ l) q := tidy_step trailer_data ht
      (fun _ _ _ _ _ l hl => by simpa using hl) h
  obtain ⟨ht, hm⟩ := h.invariant (fun p => Tidy (fun l => .close ∉ l) p ∧ Met p)
    ⟨tidy_registered h₀, met_registered h₀⟩ fun p x q hi hs =>
      ⟨hclose p q x hi.1 hs.2, (met_step trailer_data hi.1 hi.2 hs.2).mpr hs.1⟩
  refine ⟨neverThrows_of_met trailer_data ht hm, fun x q hq => ?_⟩
  rw [neverThrows_iff trailer_data (hclose p q x ht hq), met_step trailer_data ht hm hq]

theorem idOne_registeredBoth : RegisteredBoth idOne := by
  refine ⟨idOne_registered.joined, idOne_registered.plain, idOne_registered.empty, ?_⟩
  rintro id ⟨a, ha⟩
  have hid : id = 1 := by
    by_contra hne
    have hnone : (idOne a).handlers id = none := Function.update_of_ne hne _ _
    simp [hnone] at ha
  rw [hid]
  exact idOne_registered

theorem reads_never_throw_one :
    ∃ p, Run (guarded Expected (ofFun step)) idOne
        [(.left, .write 1 1 (some fun _ => 7)), (.right, .processRead)] p ∧ NeverThrows p := by
  have hsome : (runFun step [(.left, .write 1 1 (some fun _ => 7)), (.right, .processRead)]
    idOne).isSome := by decide
  obtain ⟨p, hp⟩ := Option.isSome_iff_exists.mp hsome
  obtain ⟨q, hq, hp'⟩ := Option.bind_eq_some_iff.mp hp
  have hrun : Run (guarded Expected (ofFun step)) idOne
      [(.left, .write 1 1 (some fun _ => 7)), (.right, .processRead)] p := by
    refine .cons ⟨?_, hq⟩ (.single ⟨trivial, ?_⟩)
    · rfl
    · simpa [runFun, ofFun] using hp'
  exact ⟨p, hrun, (reads_never_throw idOne_registeredBoth hrun).1⟩

def roundThrows (r : Router Fifo φ) : Bool :=
  match (processReads 1 r).1 with
  | some (.error _) => true
  | _ => false

/-- The left side writes after its close; the right side has dropped the handler by then. -/
theorem late_write_throws :
    ∃ p, Run (ofFun step) idOne [(.left, .close 1), (.right, .processRead), (.right, .close 1),
        (.left, .write 1 1 (some fun _ => 7))] p ∧ ¬ NeverThrows p := by
  have heval : (runFun step [(.left, .close 1), (.right, .processRead), (.right, .close 1),
      (.left, .write 1 1 (some fun _ => 7))] idOne).map (fun p => roundThrows (p .right)) =
      some true := by decide
  obtain ⟨p, hp, hthrows⟩ := Option.map_eq_some_iff.mp heval
  refine ⟨p, run_of_runFun hp, fun hnever => ?_⟩
  unfold roundThrows at hthrows
  split at hthrows
  · rename_i msg heq
    exact hnever .right 1 msg heq
  · cases hthrows

/-- Nothing is written under an id after this side has closed it. -/
def WritesOpen (p : Pair φ) : Side × Op → Prop
  | (a, .write id _ _) => ∀ h, (p a).handlers id = some h → h.isClosedWrite = false
  | _ => True

theorem tidy_open {x : Side × Op} (ht : Tidy (· = []) p)
    (h : guarded WritesOpen (ofFun step) p x q) : Tidy (· = []) q := by
  obtain ⟨a, op⟩ := x
  obtain ⟨hok, h⟩ := h
  refine tidy_step trailer_nil ht ?_ h
  rintro id size data rfl hmine
  simp only [State.mine, handshake, Option.map_map, Option.map_eq_some_iff] at hmine
  obtain ⟨handler, hh, hclosed⟩ := hmine
  have hw : handler.isClosedWrite = true := hclosed
  rw [hok handler hh] at hw
  cases hw

theorem met_open (ht : Tidy (· = []) p) : Met p := by
  intro a x hx
  have hsignal : (handshake (x.id &&& ~~~flagMask) p).flight a.other ≠ [] := by
    rw [flight_read ht.joined]
    intro hnil
    have := List.filterMap_eq_nil_iff.mp hnil x hx
    simp [signal] at this
  rcases ht.ids (x.id &&& ~~~flagMask) with hinv | hunused
  · simpa [handshake] using entry_of_flight hinv hsignal
  · exact absurd (hunused a.other).2 hsignal

/-- If `Router::write` looked at `is_closed_write()` as `Router::close` does, `process_reads` would
not throw. -/
theorem open_writes_never_throw (h₀ : RegisteredBoth p₀)
    (h : Run (guarded WritesOpen (ofFun step)) p₀ ops p) : NeverThrows p := by
  have ht := h.invariant (Tidy (· = [])) (tidy_registered h₀) fun _ _ _ => tidy_open
  exact neverThrows_of_met trailer_nil ht (met_open ht)

/-! ## Callbacks after a close -/

/-- The callbacks invoked so far for `id`. -/
def callsOf (id : UInt32) (r : Router Fifo φ) : List (Call φ) := r.calls.filter fun c => c.id == id

/-- A record with payload is next for a handler that this side has closed and the other side has
not. -/
def DeliversLate (id : UInt32) (r : Router Fifo φ) : Prop :=
  ∃ x xs h, r.readChannel.records = x :: xs ∧ x.id &&& ~~~flagMask = id ∧
    UInt32.ofNat x.payload.length ≠ 0 ∧ r.handlers id = some h ∧ h.isClosedWrite ∧
    h.isClosedRead = false

/-- This side has closed `id`, and `calls` are the callbacks invoked for it until then. -/
structure ClosedBy (id : UInt32) (calls : List (Call φ)) (r : Router Fifo φ) : Prop where
  handler : ∀ h, r.handlers id = some h → h.isClosedWrite
  calls : callsOf id r = calls

theorem closedBy_close (h : step p (a, .close id) = some q) :
    ClosedBy id (callsOf id (q a)) (q a) := by
  cases effect_of_step h with
  | erase _ _ _ =>
    refine ⟨fun h hs => ?_, rfl⟩
    simp [Pair.put, Router.erase] at hs
  | close _ _ _ =>
    refine ⟨fun h hs => ?_, rfl⟩
    simp only [Pair.put, ↓reduceIte, Router.setHandler, Function.update_self,
      Option.some.injEq] at hs
    rw [← hs]
    rfl

/-- A round invokes at most `on_read` of the handler it finds. -/
theorem callsOf_deliver (r : Router Fifo φ) (k : UInt32) (handler : RouterHandler φ)
    (header : ShmIpcChannel.HeaderPtr)
    (h : k = id → ChannelOps.headerSize r.readChannel header ≠ 0 → handler.isClosedRead = true) :
    callsOf id (r.deliver k handler header) = callsOf id r := by
  unfold Router.deliver
  split
  · rename_i f hf
    split
    · rename_i hsize
      by_cases hk : k = id
      · have hclosed := h hk hsize
        simp [RouterHandler.isClosedRead, hf] at hclosed
      · simp [callsOf, hk]
    · rfl
  · rfl

/-- What the other side does to the channels invokes nothing here. -/
theorem closedBy_other {calls : List (Call φ)} {r : Router Fifo φ}
    (hc : ClosedBy id calls (p a.other)) : ClosedBy id calls (p.put a r a.other) := by
  refine ⟨fun h hs => hc.handler h ?_, ?_⟩
  · simpa [Pair.put] using hs
  · simpa [Pair.put, callsOf] using hc.calls

theorem closedBy_put {calls : List (Call φ)} {r : Router Fifo φ} (hc : ClosedBy id calls r) :
    ClosedBy id calls (p.put a r a) := by
  simpa [Pair.put] using hc

/-- A closed handler stays closed until it is erased, and late records apart nobody calls it. -/
theorem closedBy_step {calls : List (Call φ)} {x : Side × Op} (hc : ClosedBy id calls (p a))
    (hok : ¬ DeliversLate id (p a)) (h : step p x = some q) : ClosedBy id calls (q a) := by
  obtain ⟨b, op⟩ := x
  have hput {r : Router Fifo φ} (hr : b = a → ClosedBy id calls r) : ClosedBy id calls
      (p.put b r a) := by
    rcases eq_or_other b a with rfl | rfl
    · exact closedBy_put (hr rfl)
    · exact closedBy_other hc
  -- this side has closed its id for good, so a later close here is one of another id
  have hother {k : UInt32} {handler : RouterHandler φ} (hh : (p a).handlers k = some handler)
      (hopen : handler.isClosedWrite = false) : id ≠ k := by
    rintro rfl
    rw [hc.handler handler hh] at hopen
    cases hopen
  have heffect : Effect p b op q := effect_of_step h
  cases heffect with
  | write payload state n _ =>
    refine hput ?_
    rintro rfl
    exact ⟨hc.handler, hc.calls⟩
  | erase hh hopen _ =>
    refine hput ?_
    rintro rfl
    refine ⟨fun h hs => hc.handler h ?_, hc.calls⟩
    simpa [Router.erase, Function.update_of_ne (hother hh hopen)] using hs
  | close hh hopen _ =>
    refine hput ?_
    rintro rfl
    refine ⟨fun h hs => hc.handler h ?_, hc.calls⟩
    simpa [Router.setHandler, Function.update_of_ne (hother hh hopen)] using hs
  | idle _ =>
    refine hput ?_
    rintro rfl
    exact hc
  | read hx hh =>
    rename_i x xs handler
    refine hput ?_
    rintro rfl
    refine ⟨fun h hs => ?_, ?_⟩
    · replace hs : Function.update (p b).handlers (x.id &&& ~~~flagMask)
        (settled handler (decide (x.id &&& flagClose ≠ 0))) id = some h := hs
      by_cases hid : id = x.id &&& ~~~flagMask
      · subst hid
        rw [Function.update_self] at hs
        rw [settled_closedWrite hs]
        exact hc.handler handler hh
      · rw [Function.update_of_ne hid] at hs
        exact hc.handler h hs
    · rw [← hc.calls]
      refine callsOf_deliver (p b) _ handler 0 ?_
      intro hid hsize
      cases hr : handler.isClosedRead with
      | true => rfl
      | false =>
        refine absurd ⟨x, xs, handler, hx, hid, ?_, hid ▸ hh, hc.handler handler (hid ▸ hh), hr⟩ hok
        simpa [ChannelOps.headerSize, Fifo.front, hx] using hsize

/-- A record with payload is delivered to `on_read`, closed for write or not. -/
theorem deliver_calls {r : Router Fifo φ} {x : Record} {xs : List Record}
    {handler : RouterHandler φ} (hread : handler.isClosedRead = false)
    (hx : r.readChannel.records = x :: xs) (hsize : UInt32.ofNat x.payload.length ≠ 0) :
    callsOf id (r.deliver id handler 0) ≠ callsOf id r := by
  obtain ⟨f, hf⟩ : ∃ f, handler.onRead = some f := by
    simpa [RouterHandler.isClosedRead, Option.isSome_iff_exists] using hread
  have hnext : ChannelOps.headerSize r.readChannel 0 ≠ 0 := by
    simpa [ChannelOps.headerSize, Fifo.front, hx] using hsize
  simp [Router.deliver, hf, hnext, callsOf]

/-! ### What is on its way -/

/-- The records of `id` in front of the close record of the other side, if there is one. -/
def beforeClose (id : UInt32) (records : List Record) : List Record :=
  (records.filter fun x => x.id &&& ~~~flagMask = id).takeWhile fun x => x.id &&& flagClose = 0

/-- As long as this side has not read the other one's close, there is no payload for `id` on its way
in front of it. -/
def NothingInFlight (id : UInt32) (r : Router Fifo φ) : Prop :=
  ∀ h, r.handlers id = some h → h.isClosedRead = false →
    ∀ x ∈ beforeClose id r.readChannel.records, UInt32.ofNat x.payload.length = 0

/-- The other side writes no payload under `id` before it closes `id` itself. -/
def NothingSent (id : UInt32) (a : Side) (p : Pair φ) : Side × Op → Prop
  | (b, .write k size _) => b = a.other → k = id → size ≠ 0 → ∀ h,
      (p b).handlers k = some h → h.isClosedWrite
  | _ => True

section InFlight

variable {x : Record} {xs : List Record}

theorem beforeClose_skip (h : x.id &&& ~~~flagMask ≠ id) :
    beforeClose id (x :: xs) = beforeClose id xs := by
  rw [beforeClose, List.filter_cons_of_neg (by simpa using h), beforeClose]

theorem beforeClose_data (h : x.id &&& ~~~flagMask = id) (hf : x.id &&& flagClose = 0) :
    beforeClose id (x :: xs) = x :: beforeClose id xs := by
  rw [beforeClose, List.filter_cons_of_pos (by simpa using h),
    List.takeWhile_cons_of_pos (by simpa using hf), beforeClose]

theorem beforeClose_close (h : x.id &&& ~~~flagMask = id) (hf : x.id &&& flagClose ≠ 0) :
    beforeClose id (x :: xs) = [] := by
  rw [beforeClose, List.filter_cons_of_pos (by simpa using h),
    List.takeWhile_cons_of_neg (by simpa using hf)]

/-- Behind a close record nothing counts any more. -/
theorem beforeClose_append_closed (ys : List Record) (h : .close ∈ xs.filterMap (signal id)) :
    beforeClose id (xs ++ ys) = beforeClose id xs := by
  induction xs with
  | nil => simp at h
  | cons x xs ih =>
    rw [List.cons_append]
    by_cases hid : x.id &&& ~~~flagMask = id
    · by_cases hf : x.id &&& flagClose = 0
      · rw [beforeClose_data hid hf, beforeClose_data hid hf, ih]
        simpa [signal, hid, hf] using h
      · rw [beforeClose_close hid hf, beforeClose_close hid hf]
    · rw [beforeClose_skip hid, beforeClose_skip hid, ih]
      simpa [signal, hid] using h

theorem mem_beforeClose_append {y z : Record} (h : z ∈ beforeClose id (xs ++ [y])) :
    z ∈ beforeClose id xs ∨ (z = y ∧ y.id &&& ~~~flagMask = id ∧ y.id &&& flagClose = 0) := by
  induction xs with
  | nil =>
    have hz := List.mem_filter.mp ((List.takeWhile_sublist _).mem h)
    have hf := List.all_eq_true.mp List.all_takeWhile z h
    obtain rfl : z = y := by simpa using hz.1
    exact .inr ⟨rfl, by simpa using hz.2, by simpa using hf⟩
  | cons x xs ih =>
    rw [List.cons_append] at h
    by_cases hid : x.id &&& ~~~flagMask = id
    · by_cases hf : x.id &&& flagClose = 0
      · rw [beforeClose_data hid hf] at h ⊢
        rcases List.mem_cons.mp h with rfl | h
        · exact .inl List.mem_cons_self
        · exact (ih h).imp_left (List.mem_cons_of_mem _)
      · rw [beforeClose_close hid hf] at h
        cases h
    · rw [beforeClose_skip hid] at h ⊢
      exact ih h

theorem beforeClose_append_open {y : Record} (h : .close ∉ xs.filterMap (signal id))
    (hid : y.id &&& ~~~flagMask = id) (hf : y.id &&& flagClose = 0) :
    y ∈ beforeClose id (xs ++ [y]) := by
  induction xs with
  | nil =>
    rw [List.nil_append, beforeClose_data hid hf]
    exact List.mem_cons_self
  | cons x xs ih =>
    rw [List.cons_append]
    by_cases hx : x.id &&& ~~~flagMask = id
    · have hsig : signal id x = some .data ∨ signal id x = some .close := by
        simp only [signal, hx, ↓reduceIte]
        split <;> simp
      rcases hsig with hsig | hsig
      · rw [List.filterMap_cons_some hsig, List.mem_cons, not_or] at h
        have hfx : x.id &&& flagClose = 0 := by
          by_contra hne
          simp [signal, hx, hne] at hsig
        rw [beforeClose_data hx hfx]
        exact List.mem_cons_of_mem _ (ih h.2)
      · rw [List.filterMap_cons_some hsig] at h
        exact absurd List.mem_cons_self h
    · have hsig : signal id x = none := by simp [signal, hx]
      rw [List.filterMap_cons_none hsig] at h
      rw [beforeClose_skip hx]
      exact ih h

end InFlight

/-- The close records of `id` follow the protocol of the two handlers, and none carries payload. -/
structure Ordered (id : UInt32) (p : Pair φ) : Prop where
  sound : Sound (fun l => .close ∉ l) id p
  closes : ClosesEmpty p

theorem ordered_registered (h : Registered id p) : Ordered id p :=
  ⟨sound_registered h, fun a x hx => by
    rw [h.empty a] at hx
    cases hx⟩

theorem ordered_step {x : Side × Op} (ho : Ordered id p) (h : step p x = some q) : Ordered id q :=
  ⟨sound_step trailer_data ho.sound (fun _ _ _ _ l hl => by simpa using hl) h,
    closesEmpty_step ho.sound.joined ho.sound.plain ho.closes h⟩

theorem not_late (ho : Ordered id p) (hn : NothingInFlight id (p a)) : ¬ DeliversLate id (p a) := by
  rintro ⟨x, xs, h, hx, hid, hsize, hh, _, hread⟩
  by_cases hf : x.id &&& flagClose = 0
  · refine hsize (hn h hh hread x ?_)
    rw [hx, beforeClose_data hid hf]
    exact List.mem_cons_self
  · refine hsize ?_
    have hmem : x ∈ (p a.other).writeChannel.records := by
      rw [← ho.sound.joined a, hx]
      exact List.mem_cons_self
    rw [ho.closes a.other x hmem hf]
    rfl

/-- What comes in behind the records on their way. -/
theorem inFlight_append {r r' : Router Fifo φ} {y : Record} (hr : r'.handlers id = r.handlers id)
    (hy : r'.readChannel.records = r.readChannel.records ++ [y]) (hn : NothingInFlight id r)
    (hnew : ∀ h, r.handlers id = some h → h.isClosedRead = false → y.id &&& ~~~flagMask = id →
      y.id &&& flagClose = 0 → .close ∈ r.readChannel.records.filterMap (signal id) ∨
        UInt32.ofNat y.payload.length = 0) : NothingInFlight id r' := by
  intro h hh hread x hx
  rw [hr] at hh
  rw [hy] at hx
  rcases mem_beforeClose_append hx with hx | ⟨rfl, hid, hf⟩
  · exact hn h hh hread x hx
  · rcases hnew h hh hread hid hf with hclosed | hzero
    · rw [beforeClose_append_closed _ hclosed] at hx
      exact hn h hh hread x hx
    · exact hzero

/-- Once the other side has closed, this one has read that or it is on its way. -/
theorem closed_on_its_way (hs : Sound (fun l => .close ∉ l) id p) {h : RouterHandler φ}
    (hh : (p a).handlers id = some h) (hread : h.isClosedRead = false) :
    .close ∈ (p a).readChannel.records.filterMap (signal id) ∨
      ∀ h', (p a.other).handlers id = some h' → h'.isClosedWrite = false := by
  have hphase := hs.phases a.other
  rw [flight_read hs.joined] at hphase
  have htheirs : (handshake id p).theirs a.other = some false := by
    simp [State.theirs, handshake, hh, entryOf, hread]
  cases hphase with
  | unclosed hmine _ _ =>
    refine .inr fun h' hh' => ?_
    simpa [State.mine, handshake, hh', entryOf] using hmine
  | flying _ hf _ _ _ =>
    rw [hf]
    exact .inl (by simp)
  | seen _ _ hne => exact absurd htheirs hne

theorem fifoWrite_size {c c' : Fifo} {k size : UInt32} {data : Option (Nat → UInt8)}
    {res : ShmIpcChannel.WriteResult} (h : ChannelOps.write c k size data = (.ok res, c')) :
    ∃ payload, UInt32.ofNat payload.length = size ∧ c'.records = c.records ++ [⟨k, payload⟩] := by
  simp only [ChannelOps.write, Fifo.write] at h
  split at h
  · cases h
  · cases data with
    | none =>
      simp only at h
      split at h
      · rename_i hsize
        cases h
        exact ⟨[], hsize.symm, rfl⟩
      · cases h
    | some data =>
      cases h
      exact ⟨_, by simp [ByteMemory.firstBytes], rfl⟩

/-- A write appends a record of the size that was asked for. -/
theorem write_size {k size : UInt32} {data : Option (Nat → UInt8)}
    (h : step p (a, .write k size data) = some q) : ∃ payload, UInt32.ofNat payload.length = size ∧
      (q a).writeChannel.records = (p a).writeChannel.records ++ [⟨k, payload⟩] := by
  simp only [step, ShmIpcRouter.write] at h
  split at h
  · rename_i r hw
    obtain rfl := Option.some.inj h
    split at hw
    · cases hw
    · split at hw
      · cases hw
      · rename_i result err c hwrite
        obtain ⟨payload, hlen, hrec⟩ := fifoWrite_size hwrite
        refine ⟨payload, hlen, ?_⟩
        split at hw
        · cases hw
          simpa [Pair.put] using hrec
        · obtain ⟨state, n, heq⟩ := interruptReader_eq { p a with writeChannel := c }
          rw [heq] at hw
          cases hw
          simpa [Pair.put] using hrec
  · cases h

/-- Nothing that this side does puts payload on its own way. -/
theorem inFlight_own {op : Op} (hn : NothingInFlight id (p a)) (h : step p (a, op) = some q) :
    NothingInFlight id (q a) := by
  have hput {r : Router Fifo φ} (hr : NothingInFlight id r) : NothingInFlight id (p.put a r a) := by
    simpa [Pair.put] using hr
  have hupdate {k : UInt32} {o : Option (RouterHandler φ)} {r : Router Fifo φ}
      (hhandlers : r.handlers = Function.update (p a).handlers k o)
      (hread : r.readChannel = (p a).readChannel)
      (ho : ∀ h, o = some h → ∃ h', (p a).handlers k = some h' ∧ h'.isClosedRead = h.isClosedRead) :
      NothingInFlight id r := by
    intro h hh hr x hx
    rw [hhandlers] at hh
    rw [hread] at hx
    by_cases hk : id = k
    · subst hk
      rw [Function.update_self] at hh
      obtain ⟨h', hh', hsame⟩ := ho h hh
      exact hn h' hh' (hsame.trans hr) x hx
    · rw [Function.update_of_ne hk] at hh
      exact hn h hh hr x hx
  cases effect_of_step h with
  | write payload state n _ => exact hput hn
  | erase _ _ _ => exact hput (hupdate rfl rfl fun _ ho => by cases ho)
  | close hh _ _ =>
    refine hput (hupdate rfl rfl fun h ho => ?_)
    obtain rfl := Option.some.inj ho
    exact ⟨_, hh, rfl⟩
  | idle _ => exact hput hn
  | read hx hh =>
    rename_i x xs handler
    refine hput fun h hs hread y hy => ?_
    have hrest : (p a).readChannel.rest.records = xs := by simp [Fifo.rest, hx]
    rw [deliver_eq] at hs hy
    simp only [hrest] at hs hy
    by_cases hid : id = x.id &&& ~~~flagMask
    · rw [hid, Function.update_self] at hs
      by_cases hf : x.id &&& flagClose = 0
      · obtain rfl : handler = h := by simpa [settled, hf] using hs
        refine hn handler (hid ▸ hh) hread y ?_
        rw [hx, beforeClose_data hid.symm hf]
        exact List.mem_cons_of_mem _ hy
      -- behind the close record the handler is closed for read
      · have hclosed : h.isClosedRead = true := by
          have hset : settled handler true = some h := by simpa [hf] using hs
          obtain ⟨onRead, onError⟩ := handler
          cases onRead <;> cases hset
          rfl
        rw [hclosed] at hread
        cases hread
    · rw [Function.update_of_ne hid] at hs
      refine hn h hs hread y ?_
      rwa [hx, beforeClose_skip (Ne.symm hid)]

/-- A record that the other side has written is on its way, in front of its close record if the
handler there is still open. -/
theorem written_in_flight {k : UInt32} {payload : List UInt8} {h' : RouterHandler φ}
    {r : Router Fifo φ} (ho : Ordered k p) (hh' : (p a.other).handlers k = some h')
    (hopen : h'.isClosedWrite = false) (hr : r.handlers k = (p a).handlers k)
    (hy : r.readChannel.records = (p a).readChannel.records ++ [⟨k, payload⟩])
    (hq : NothingInFlight k r) : UInt32.ofNat payload.length = 0 := by
  have hplain := ho.sound.plain a.other k (by rw [hh']; rfl)
  have hmine : (handshake k p).mine a.other = some false := by
    simpa [State.mine, handshake, hh', entryOf] using hopen
  have hphase := ho.sound.phases a.other
  rw [flight_read ho.sound.joined] at hphase
  cases hphase with
  | unclosed _ hf htheirs =>
    simp only [State.theirs, handshake, other_other, Option.map_map,
      Option.map_eq_some_iff] at htheirs
    obtain ⟨h₁, hh₁, hr₁⟩ := htheirs
    refine hq h₁ (hr.trans hh₁) hr₁ ⟨k, payload⟩ ?_
    rw [hy]
    exact beforeClose_append_open hf (unmasked hplain) (unflagged hplain)
  | flying hm _ _ _ _ => cases hmine.symm.trans hm
  | seen hm _ _ => cases hmine.symm.trans hm

/-- A record that is no payload of `id`, or one behind the close of the other side. -/
theorem written_behind {k size : UInt32} {payload : List UInt8} {r : Router Fifo φ}
    (ho : Ordered id p) (hn : NothingInFlight id (p a))
    (hsome : ((p a.other).handlers k).isSome) (hlen : UInt32.ofNat payload.length = size)
    (hr : r.handlers id = (p a).handlers id)
    (hy : r.readChannel.records = (p a).readChannel.records ++ [⟨k, payload⟩])
    (hsent : k = id → size ≠ 0 → ∀ h, (p a.other).handlers k = some h → h.isClosedWrite) :
    NothingInFlight id r := by
  refine inFlight_append hr hy hn fun h₁ hh₁ hread hid _ => ?_
  obtain rfl : k = id := (unmasked (ho.sound.plain a.other k hsome)).symm.trans hid
  by_cases hsize : size = 0
  · exact .inr (hlen.trans hsize)
  · refine .inl ((closed_on_its_way ho.sound hh₁ hread).resolve_right fun hopen => ?_)
    obtain ⟨h', hh'⟩ := Option.isSome_iff_exists.mp hsome
    have hclosed := hsent rfl hsize h' hh'
    rw [hopen h' hh'] at hclosed
    cases hclosed

/-- The other side puts payload on the way exactly if its step is not admitted. -/
theorem inFlight_other {op : Op} (ho : Ordered id p) (hn : NothingInFlight id (p a))
    (h : step p (a.other, op) = some q) :
    NothingInFlight id (q a) ↔ NothingSent id a p (a.other, op) := by
  have hown : (p a).readChannel.records = (p a.other).writeChannel.records := by
    rw [ho.sound.joined a]
  -- an operation that puts no payload on the way is always admitted
  have hkeep (hsent : NothingSent id a p (a.other, op)) (hq : NothingInFlight id (q a)) :
      NothingInFlight id (q a) ↔ NothingSent id a p (a.other, op) := iff_of_true hq hsent
  cases op with
  | write k size data =>
    obtain ⟨payload, hlen, hrec⟩ := write_size h
    cases effect_of_step h with
    | write payload' state n hsome =>
      obtain rfl : payload' = payload := by simpa [Pair.put] using hrec
      constructor
      · intro hq _ hk hsize h' hh'
        subst hk
        by_contra hopen
        refine hsize (hlen.symm.trans (written_in_flight ho hh' (Bool.eq_false_iff.mpr hopen) ?_ ?_
          hq))
        · simp [Pair.put]
        · simp [Pair.put, hown]
      · intro hsent
        refine written_behind ho hn hsome hlen ?_ ?_ (hsent rfl)
        · simp [Pair.put]
        · simp [Pair.put, hown]
  | close k =>
    refine hkeep trivial ?_
    cases effect_of_step h with
    | erase _ _ _ => simpa [Pair.put, NothingInFlight, hown, Router.erase] using hn
    | close hh _ _ =>
      have hplain := ho.sound.plain a.other k (by rw [hh]; rfl)
      refine inFlight_append (r := p a) (y := ⟨k ||| flagClose, []⟩) (by simp [Pair.put])
        (by simp [Pair.put, hown]) hn ?_
      exact fun _ _ _ _ hf => absurd hf (closeId_flagged k)
  | processRead =>
    refine hkeep trivial ?_
    cases effect_of_step h with
    | idle _ => simpa [Pair.put, NothingInFlight, hown] using hn
    | read _ _ =>
      rw [deliver_eq]
      simpa [Pair.put, NothingInFlight, hown] using hn

/-- Some round of `process_reads` invokes a callback of `id`, or one in front of it throws. -/
def CallsOrThrows (id : UInt32) (r : Router Fifo φ) : Prop :=
  ∃ n, (∃ msg, (processReads n r).1 = some (.error msg)) ∨
    callsOf id (processReads n r).2 ≠ callsOf id r

/-- A round that calls nothing for `id` may come in front. -/
theorem CallsOrThrows.cons {r r' : Router Fifo φ} (h : CallsOrThrows id r')
    (hround : processRead r = (.ok true, r')) (hsame : callsOf id r' = callsOf id r) :
    CallsOrThrows id r := by
  obtain ⟨n, hn⟩ := h
  have hgo : processReads (n + 1) r = processReads n r' := by rw [processReads, hround]
  refine ⟨n + 1, ?_⟩
  rw [hgo, ← hsame]
  exact hn

/-- Payload on its way reaches `on_read`. -/
theorem inFlight_calls {r : Router Fifo φ} (h : ¬ NothingInFlight id r) : CallsOrThrows id r := by
  simp only [NothingInFlight, not_forall] at h
  obtain ⟨handler, hh, hread, y, hy, hsize⟩ := h
  obtain ⟨records, hrec⟩ : ∃ records, r.readChannel.records = records := ⟨_, rfl⟩
  rw [hrec] at hy
  induction records generalizing r with
  | nil => cases hy
  | cons x xs ih =>
    have hround := processRead_cons hrec
    obtain ⟨⟨res, r'⟩, heq⟩ : ∃ res, processRead r = res := ⟨_, rfl⟩
    rw [heq] at hround
    cases res with
    | error msg => exact ⟨1, .inl ⟨msg, by rw [processReads, heq]⟩⟩
    | ok b =>
      cases hround with
      | settled hh' =>
        rename_i handler'
        have hrest : r.readChannel.rest.records = xs := by simp [Fifo.rest, hrec]
        by_cases hid : x.id &&& ~~~flagMask = id
        · subst hid
          obtain rfl : handler = handler' := Option.some.inj (hh.symm.trans hh')
          by_cases hf : x.id &&& flagClose = 0
          · rw [beforeClose_data rfl hf] at hy
            by_cases hx : UInt32.ofNat x.payload.length = 0
            -- a record without payload is passed over, and the handler stays
            · refine CallsOrThrows.cons (ih ?_ ?_ hrest) heq ?_
              · simp [hf, settled]
              · rcases List.mem_cons.mp hy with rfl | hy
                · exact absurd hx hsize
                · exact hy
              · refine callsOf_deliver r _ handler 0 fun _ hne => absurd ?_ hne
                simpa [ChannelOps.headerSize, Fifo.front, hrec] using hx
            · refine ⟨1, .inr ?_⟩
              rw [processReads, heq]
              exact deliver_calls hread hrec hx
          · rw [beforeClose_close rfl hf] at hy
            cases hy
        · rw [beforeClose_skip hid] at hy
          refine CallsOrThrows.cons (ih ?_ hy hrest) heq
            (callsOf_deliver r _ handler' 0 fun he => absurd he hid)
          simpa [Function.update_of_ne (Ne.symm hid)] using hh

/-- The close itself puts nothing on the way and takes nothing from it. -/
theorem inFlight_close (h : step p (a, .close id) = some p₁) :
    NothingInFlight id (p₁ a) → NothingInFlight id (p a) := by
  cases effect_of_step h with
  | erase hh _ hread =>
    rintro - h hs hopen
    obtain rfl := Option.some.inj (hh.symm.trans hs)
    rw [hread] at hopen
    cases hopen
  | @close _ handler hh _ hread =>
    intro hn h hs hopen x hx
    refine hn { handler with onError := none } (by simp [Pair.put, Router.setHandler]) hread x ?_
    simpa [Pair.put, Router.setHandler] using hx

/-- After `close(id)` no callback of the handler is invoked any more, if the other side has sent
nothing with payload in front of its own close before this one and writes no more of it. Otherwise
`process_reads` invokes `on_read`, unless it throws at a record in front. -/
theorem no_call_after_close (h₀ : Registered id p₀) (h : Run (ofFun step) p₀ ops p)
    (hclose : step p (a, .close id) = some p₁) :
    (NothingInFlight id (p a) → ∀ ops' q, Run (guarded (NothingSent id a) (ofFun step)) p₁ ops' q →
      callsOf id (q a) = callsOf id (p₁ a) ∧
        ∀ x q', step q x = some q' → ¬ NothingSent id a q x → CallsOrThrows id (q' a)) ∧
    (¬ NothingInFlight id (p a) → CallsOrThrows id (p₁ a)) := by
  have ho : Ordered id p := h.invariant (Ordered id) (ordered_registered h₀)
    fun _ _ _ => ordered_step
  refine ⟨fun hflight ops' q h' => ?_, fun hflight => inFlight_calls
    (hflight ∘ inFlight_close hclose)⟩
  obtain ⟨hcalls, ho', hflight'⟩ := h'.invariant
    (fun u => ClosedBy id (callsOf id (p₁ a)) (u a) ∧ Ordered id u ∧ NothingInFlight id (u a))
    ⟨closedBy_close hclose, ordered_step ho hclose, inFlight_own hflight hclose⟩
    fun u x v hi hstep => by
      obtain ⟨hc, hou, hn⟩ := hi
      refine ⟨closedBy_step hc (not_late hou hn) hstep.2, ordered_step hou hstep.2, ?_⟩
      obtain ⟨b, op⟩ := x
      rcases eq_or_other a b with rfl | rfl
      · exact inFlight_own hn hstep.2
      · exact (inFlight_other hou hn hstep.2).mpr hstep.1
  refine ⟨hcalls.calls, fun x q' hstep hsent => ?_⟩
  obtain ⟨b, op⟩ := x
  rcases eq_or_other a b with rfl | rfl
  · cases op <;> simp [NothingSent] at hsent
  · exact inFlight_calls (hsent ∘ (inFlight_other ho' hflight' hstep).mp)

/-- A record is consumed in front of the close; the other side closes as well, writes once more, and
both of its records are read behind the close. -/
theorem no_call_after_close_one :
    ∃ p p₁ q, Run (ofFun step) idOne [(.right, .write 1 1 (some fun _ => 7)), (.left, .processRead)]
      p ∧ step p (.left, .close 1) = some p₁ ∧ NothingInFlight 1 (p .left) ∧
      Run (guarded (NothingSent 1 .left) (ofFun step)) p₁ [(.right, .close 1),
        (.right, .write 1 1 (some fun _ => 8)), (.left, .processRead), (.left, .processRead)] q ∧
      callsOf 1 (q .left) = callsOf 1 (p₁ .left) := by
  have heval :
    ((runFun step [(.right, .write 1 1 (some fun _ => 7)), (.left, .processRead)] idOne).bind
    fun p =>
      (step p (.left, .close 1)).bind fun p₁ => (step p₁ (.right, .close 1)).bind fun p₂ =>
        (runFun step [(.right, .write 1 1 (some fun _ => 8)), (.left, .processRead),
          (.left, .processRead)] p₂).map fun _ =>
            ((p .left).readChannel.records,
              ((p₂ .right).handlers 1).map RouterHandler.isClosedWrite)) =
      some ([], some true) := by decide
  obtain ⟨p, hp, heval⟩ := Option.bind_eq_some_iff.mp heval
  obtain ⟨p₁, hp₁, heval⟩ := Option.bind_eq_some_iff.mp heval
  obtain ⟨p₂, hp₂, heval⟩ := Option.bind_eq_some_iff.mp heval
  obtain ⟨q, hq, heq⟩ := Option.map_eq_some_iff.mp heval
  obtain ⟨hempty, hclosed⟩ := Prod.mk.inj heq
  obtain ⟨p₃, hp₃, hrest⟩ := Option.bind_eq_some_iff.mp hq
  have hflight : NothingInFlight 1 (p .left) := by
    intro h _ _ x hx
    rw [hempty] at hx
    cases hx
  -- the write behind the close of the right side is the one that the condition looks at
  have hsent : NothingSent 1 .left p₂ (.right, .write 1 1 (some fun _ => 8)) := by
    intro _ _ _ h hh
    rw [hh] at hclosed
    exact Option.some.inj hclosed
  have hrun : Run (guarded (NothingSent 1 .left) (ofFun step)) p₁ [(.right, .close 1),
      (.right, .write 1 1 (some fun _ => 8)), (.left, .processRead), (.left, .processRead)] q :=
    .cons ⟨trivial, hp₂⟩ (.cons ⟨hsent, hp₃⟩
      ((run_of_runFun hrest).guarded (by simp [NothingSent])))
  have h := no_call_after_close idOne_registered (run_of_runFun hp) hp₁
  exact ⟨p, p₁, q, run_of_runFun hp, hp₁, hflight, hrun, (h.1 hflight _ _ hrun).1⟩

/-- A record in flight at the time of the close still reaches `on_read`. -/
theorem called_after_close :
    ∃ p q, runFun step [(.right, .write 1 1 (some fun _ => 7)), (.left, .close 1)] idOne = some p ∧
      step p (.left, .processRead) = some q ∧ callsOf 1 (q .left) ≠ callsOf 1 (p .left) := by
  have heval : ((runFun step [(.right, .write 1 1 (some fun _ => 7)), (.left, .close 1)] idOne).bind
    fun p =>
      (step p (.left, .processRead)).map fun q =>
        ((callsOf 1 (p .left)).length, (callsOf 1 (q .left)).length)) = some (0, 1) := by decide
  obtain ⟨p, hp, heq⟩ := Option.bind_eq_some_iff.mp heval
  obtain ⟨q, hq, hlen⟩ := Option.map_eq_some_iff.mp heq
  refine ⟨p, q, hp, hq, fun hsame => ?_⟩
  rw [hsame] at hlen
  simp only [Prod.mk.injEq] at hlen
  omega

end ShmIpcRouterRuns
