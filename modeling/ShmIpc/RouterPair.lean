import ShmIpc.Handshake
import ShmIpc.LabelledRun
import ShmIpc.Router

/-!
# Two connected routers

The write channel of either router is the read channel of the other one. The
steps are complete calls of `Router::write` and `Router::close` and single rounds
of `process_reads`, so that whatever a callback does with its router takes place
between two of them. For every id a pair of routers runs the close handshake.
-/
namespace ShmIpcRouterPair

open ByteMemory LabelledRun Handshake ShmIpcRouter
open ShmIpcPlacement (Record)

abbrev Pair (φ : Type) := Side → Router Fifo φ

inductive Op where
  | write (id size : UInt32) (data : Option (Nat → UInt8)) : Op
  | close (id : UInt32) : Op
  | processRead : Op

variable {φ : Type}

/-- What one side does to the two channels the other side sees. -/
def Pair.put (p : Pair φ) (a : Side) (r : Router Fifo φ) : Pair φ :=
  fun b => if b = a then r
    else { p b with readChannel := r.writeChannel, writeChannel := r.readChannel }

/-- One call on side `a`; there is no next pair if it throws. -/
def step (p : Pair φ) : Side × Op → Option (Pair φ)
  | (a, .write id size data) =>
    match ShmIpcRouter.write (p a) id size data with
    | (.ok _, r) => some (p.put a r)
    | (.error _, _) => none
  | (a, .close id) =>
    match ShmIpcRouter.close (p a) id with
    | (.ok (), r) => some (p.put a r)
    | (.error _, _) => none
  | (a, .processRead) =>
    match ShmIpcRouter.processRead (p a) with
    | (.ok _, r) => some (p.put a r)
    | (.error _, _) => none

/-! ## What a step can do -/

/-- The calls that go through, with what they leave behind. -/
inductive Effect (p : Pair φ) (a : Side) : Op → Pair φ → Prop where
  | write {id size : UInt32} {data : Option (Nat → UInt8)} (payload : List UInt8)
      (state : UInt32) (n : Nat) : ((p a).handlers id).isSome → Effect p a (.write id size data)
      (p.put a { p a with
        writeChannel := ⟨(p a).writeChannel.records ++ [⟨id, payload⟩], state⟩
        interrupts := n })
  | erase {id : UInt32} {handler : RouterHandler φ} : (p a).handlers id = some handler →
      handler.isClosedWrite = false → handler.isClosedRead = true →
      Effect p a (.close id) (p.put a ((p a).erase id))
  | close {id : UInt32} {handler : RouterHandler φ} : (p a).handlers id = some handler →
      handler.isClosedWrite = false → handler.isClosedRead = false →
      Effect p a (.close id) (p.put a { (p a).setHandler id { handler with onError := none } with
        writeChannel := { (p a).writeChannel with
          records := (p a).writeChannel.records ++ [⟨id ||| flagClose, []⟩] } })
  | idle : (p a).readChannel.records = [] → Effect p a .processRead (p.put a (p a))
  | read {x : Record} {xs : List Record} {handler : RouterHandler φ} :
      (p a).readChannel.records = x :: xs → (p a).handlers (x.id &&& ~~~flagMask) = some handler →
      Effect p a .processRead (p.put a { (p a).deliver (x.id &&& ~~~flagMask) handler 0 with
        readChannel := (p a).readChannel.rest
        handlers := Function.update (p a).handlers (x.id &&& ~~~flagMask)
          (settled handler (decide (x.id &&& flagClose ≠ 0))) })

variable {id : UInt32} {p q : Pair φ} {a : Side}

theorem effect_of_step {op : Op} (h : step p (a, op) = some q) : Effect p a op q := by
  cases op with
  | write k size data =>
    simp only [step] at h
    split at h
    · rename_i hw
      cases h
      obtain ⟨hsome, payload, state, n, rfl⟩ := write_ok hw
      exact .write payload state n hsome
    · cases h
  | close k =>
    simp only [step] at h
    split at h
    · rename_i hc
      cases h
      obtain ⟨handler, hh, hw, ⟨hr, rfl⟩ | ⟨hr, rfl⟩⟩ := close_ok hc
      · exact .erase hh hw hr
      · exact .close hh hw hr
    · cases h
  | processRead =>
    cases hx : (p a).readChannel.records with
    | nil =>
      simp only [step, processRead_nil hx] at h
      cases h
      exact .idle hx
    | cons x xs =>
      have hround := processRead_cons hx
      simp only [step] at h
      split at h
      · rename_i b r heq
        cases h
        rw [heq] at hround
        cases hround with
        | settled hh => exact .read hx hh
      · cases h

/-- The two routers share their channels. -/
def Joined (p : Pair φ) : Prop := ∀ a, (p a).readChannel = (p a.other).writeChannel

/-- No handler is registered under an id with reserved bits. -/
def Plain (p : Pair φ) : Prop := ∀ a id, ((p a).handlers id).isSome → id &&& flagMask = 0

theorem joined_put (p : Pair φ) (a : Side) (r : Router Fifo φ) : Joined (p.put a r) := by
  intro b
  rcases eq_or_other a b with rfl | rfl <;> simp [Pair.put]

theorem joined_step {op : Op} (h : step p (a, op) = some q) : Joined q := by
  cases effect_of_step h <;> exact joined_put p a _

/-! ## The handshake of one id -/

def entryOf (h : RouterHandler φ) : Entry := ⟨h.isClosedRead, h.isClosedWrite⟩

/-- What a record means to the handler of `id`. -/
def signal (id : UInt32) (x : Record) : Option Signal :=
  if x.id &&& ~~~flagMask = id then some (if x.id &&& flagClose ≠ 0 then .close else .data)
    else none

/-- The handshake that a pair of routers runs for `id`. -/
def handshake (id : UInt32) (p : Pair φ) : State where
  entry a := ((p a).handlers id).map entryOf
  flight a := (p a).writeChannel.records.filterMap (signal id)

/-- What an operation means to the handshake of `id`. -/
inductive Means (id : UInt32) : Op → Act → Prop where
  | write (size : UInt32) (data : Option (Nat → UInt8)) : Means id (.write id size data) .write
  | close : Means id (.close id) .close
  | receive : Means id .processRead .receive

theorem handshake_put (r : Router Fifo φ) :
    handshake id (p.put a r) =
      (((handshake id p).setEntry a ((r.handlers id).map entryOf)).setFlight a
        (r.writeChannel.records.filterMap (signal id))).setFlight a.other
      (r.readChannel.records.filterMap (signal id)) := by
  simp only [handshake, State.setEntry, State.setFlight, Pair.put, State.mk.injEq]
  constructor
  · funext b
    rcases eq_or_other a b with rfl | rfl <;> simp
  · funext b
    rcases eq_or_other a b with rfl | rfl <;> simp

theorem flight_read (hj : Joined p) :
    (handshake id p).flight a.other = (p a).readChannel.records.filterMap (signal id) := by
  rw [hj a]
  rfl

/-- An operation that leaves the read channel alone does not touch the signals of the other side. -/
theorem handshake_put_write (hj : Joined p) {r : Router Fifo φ}
    (hr : r.readChannel = (p a).readChannel) :
      handshake id (p.put a r) = ((handshake id p).setEntry a
        ((r.handlers id).map entryOf)).setFlight a
        (r.writeChannel.records.filterMap (signal id)) := by
  rw [handshake_put]
  apply setFlight_of_eq
  rw [flight_setFlight_other, flight_setEntry, flight_read hj, hr]

theorem handshake_put_handlers (hj : Joined p) {r : Router Fifo φ}
    (hr : r.readChannel = (p a).readChannel) (hw : r.writeChannel = (p a).writeChannel) :
    handshake id (p.put a r) = (handshake id p).setEntry a ((r.handlers id).map entryOf) := by
  rw [handshake_put_write hj hr]
  apply setFlight_of_eq
  rw [flight_setEntry, hw]
  rfl

theorem handshake_put_records (hj : Joined p) {r : Router Fifo φ}
    (hr : r.readChannel = (p a).readChannel) (hh : r.handlers id = (p a).handlers id) :
    handshake id (p.put a r) =
      (handshake id p).setFlight a (r.writeChannel.records.filterMap (signal id)) := by
  rw [handshake_put_write hj hr, setEntry_of_eq (by rw [hh]; rfl)]

/-- A record of another id, or a step of another id, changes nothing for this one. -/
theorem handshake_unchanged (hj : Joined p) {r : Router Fifo φ}
    (hr : r.readChannel = (p a).readChannel) (hh : r.handlers id = (p a).handlers id)
    (hw : r.writeChannel.records.filterMap (signal id) =
      (p a).writeChannel.records.filterMap (signal id)) :
    handshake id (p.put a r) = handshake id p := by
  rw [handshake_put_records hj hr hh, setFlight_of_eq (by rw [hw]; rfl)]

theorem signal_data (id : UInt32) {k : UInt32} (hk : k &&& flagMask = 0) (payload : List UInt8) :
    signal id ⟨k, payload⟩ = if k = id then some .data else none := by
  simp [signal, unmasked hk, unflagged hk]

theorem signal_close (id : UInt32) {k : UInt32} (hk : k &&& flagMask = 0) (payload : List UInt8) :
    signal id ⟨k ||| flagClose, payload⟩ = if k = id then some .close else none := by
  simp only [signal, closeId_unmasked hk, closeId_flagged, ne_eq, not_false_eq_true, ↓reduceIte]

/-- A step of the pair is a step of the handshake, or it does not concern the id. -/
def Follows (id : UInt32) (p q : Pair φ) (a : Side) (op : Op) : Prop :=
  handshake id q = handshake id p ∨
    ∃ act, Means id op act ∧ Handshake.step (handshake id p) a act = some (handshake id q)

theorem follows_write {k size : UInt32} {data : Option (Nat → UInt8)} (hj : Joined p) (hp : Plain p)
    (h : step p (a, .write k size data) = some q) : Follows id p q a (.write k size data) := by
  cases effect_of_step h with
  | write payload state n hsome =>
    have hsig := signal_data id (hp a k hsome) payload
    by_cases hk : k = id
    · subst hk
      obtain ⟨handler, hh⟩ := Option.isSome_iff_exists.mp hsome
      refine .inr ⟨.write, .write size data, ?_⟩
      rw [handshake_put_records hj]
      · simp [Handshake.step, handshake, hh, hsig]
      · rfl
      · rfl
    · exact .inl (handshake_unchanged hj rfl rfl (by simp [hsig, hk]))

theorem follows_close {k : UInt32} (hj : Joined p) (hp : Plain p)
    (h : step p (a, .close k) = some q) : Follows id p q a (.close k) := by
  cases effect_of_step h with
  | erase hh hw hr =>
    by_cases hk : k = id
    · subst hk
      refine .inr ⟨.close, .close, ?_⟩
      rw [handshake_put_handlers hj]
      · simp [Handshake.step, handshake, hh, entryOf, hw, hr, Router.erase]
      · rfl
      · rfl
    · refine .inl (handshake_unchanged hj rfl ?_ rfl)
      simp [Router.erase, Function.update_of_ne (Ne.symm hk)]
  | close hh hw hr =>
    rename_i handler
    have hsig := signal_close id (hp a k (by rw [hh]; rfl)) []
    by_cases hk : k = id
    · subst hk
      refine .inr ⟨.close, .close, ?_⟩
      rw [handshake_put_write hj]
      · have hold : entryOf handler = ⟨false, false⟩ := by simp only [entryOf, hr, hw]
        have hnew : entryOf { handler with onError := none } = ⟨false, true⟩ := by rw [← hr]; rfl
        simp [Handshake.step, handshake, hh, hold, hnew, Router.setHandler, hsig]
      · rfl
    · refine .inl (handshake_unchanged hj rfl ?_ (by simp [hsig, hk]))
      simp [Router.setHandler, Function.update_of_ne (Ne.symm hk)]

/-- A settled handler is what the handshake makes of its entry. -/
theorem settled_entry (handler : RouterHandler φ) (isClose : Bool) :
    (settled handler isClose).map entryOf = (entryOf handler).receive
    (if isClose then .close else .data) := by
  obtain ⟨onRead, onError⟩ := handler
  cases isClose <;> cases onRead <;> rfl

theorem follows_processRead (hj : Joined p) (h : step p (a, .processRead) = some q) :
    Follows id p q a .processRead := by
  cases effect_of_step h with
  | idle _ => exact .inl (handshake_unchanged hj rfl rfl rfl)
  | read hx hh =>
    rename_i x xs handler
    have hflight : (handshake id p).flight a.other = (x :: xs).filterMap (signal id) := by
      rw [flight_read hj, hx]
    have hrest : (p a).readChannel.rest.records = xs := by simp [Fifo.rest, hx]
    rw [Follows, handshake_put, deliver_eq]
    simp only [hrest]
    have hkeep (e : Option Entry) : ((handshake id p).setEntry a e).setFlight a
        ((p a).writeChannel.records.filterMap (signal id)) = (handshake id p).setEntry a e :=
        setFlight_of_eq rfl
    rw [hkeep]
    by_cases hid : x.id &&& ~~~flagMask = id
    · refine .inr ⟨.receive, .receive, ?_⟩
      subst hid
      have hentry : (handshake (x.id &&& ~~~flagMask) p).entry a = some (entryOf handler) := by
        simp only [handshake, hh, Option.map_some]
      rw [Function.update_self, settled_entry]
      simp only [Handshake.step, hflight, hentry, signal, List.filterMap_cons,
        ↓reduceIte, decide_eq_true_eq]
    · left
      have hskip : signal id x = none := by simp [signal, hid]
      rw [List.filterMap_cons, hskip] at hflight
      rw [Function.update_of_ne (Ne.symm hid), setEntry_of_eq (by rfl), setFlight_of_eq hflight]

theorem follows_step {op : Op} (hj : Joined p) (hp : Plain p) (h : step p (a, op) = some q) :
    Follows id p q a op := by
  cases op with
  | write k size data => exact follows_write hj hp h
  | close k => exact follows_close hj hp h
  | processRead => exact follows_processRead hj h

/-! ## Invariants of the pair -/

/-- No operation on either side registers a handler. -/
theorem handlers_step {op : Op} (h : step p (a, op) = some q) (b : Side) (k : UInt32)
    (hk : ((q b).handlers k).isSome) : ((p b).handlers k).isSome := by
  have hput {r : Router Fifo φ} (hr : (r.handlers k).isSome → ((p a).handlers k).isSome)
      (hk : ((p.put a r b).handlers k).isSome) : ((p b).handlers k).isSome := by
    rcases eq_or_other a b with rfl | rfl
    · exact hr (by simpa [Pair.put] using hk)
    · simpa [Pair.put] using hk
  have hupdate {j : UInt32} {o : Option (RouterHandler φ)} (hj : ((p a).handlers j).isSome)
      (ho : (Function.update (p a).handlers j o k).isSome) : ((p a).handlers k).isSome := by
    by_cases he : k = j
    · rwa [he]
    · rwa [Function.update_of_ne he] at ho
  cases effect_of_step h with
  | write payload state n _ =>
    refine hput ?_ hk
    exact fun hs => hs
  | erase hh _ _ => exact hput (hupdate (by rw [hh]; rfl)) hk
  | close hh _ _ => exact hput (hupdate (by rw [hh]; rfl)) hk
  | idle _ => exact hput (fun hs => hs) hk
  | read _ hh => exact hput (hupdate (by rw [hh]; rfl)) hk

theorem plain_step {op : Op} (hp : Plain p) (h : step p (a, op) = some q) : Plain q :=
  fun b k hk => hp b k (handlers_step h b k hk)

/-- The channels are joined, and the handshake of `id` is in one of its phases. -/
structure Sound (T : List Signal → Prop) (id : UInt32) (p : Pair φ) : Prop where
  joined : Joined p
  plain : Plain p
  phases : Inv T (handshake id p)

/-- Every step keeps the handshake in its phases, if its writes obey the discipline. -/
theorem sound_step {T : List Signal → Prop} {op : Op} (hT : Trailer T) (hs : Sound T id p)
    (hw : ∀ size data, op = .write id size data →
      (handshake id p).mine a = some true → ∀ l, T l → T (l ++ [.data]))
    (h : step p (a, op) = some q) : Sound T id q := by
  refine ⟨joined_step h, plain_step hs.plain h, ?_⟩
  have hfollows : Follows id p q a op := follows_step hs.joined hs.plain h
  rcases hfollows with heq | ⟨act, hact, hstep⟩
  · rw [heq]
    exact hs.phases
  · cases hact with
    | write size data => exact inv_write hs.phases (hw size data rfl) hstep
    | close => exact inv_close hT hs.phases hstep
    | receive => exact inv_receive hT hs.phases hstep

/-- Both sides have just registered `id`. -/
structure Registered (id : UInt32) (p : Pair φ) : Prop where
  joined : Joined p
  plain : Plain p
  empty : ∀ a, (p a).writeChannel.records = []
  fresh : ∀ a, ((p a).handlers id).map entryOf = some ⟨false, false⟩

theorem sound_registered {T : List Signal → Prop} (h : Registered id p) : Sound T id p := by
  refine ⟨h.joined, h.plain, fun a => ?_⟩
  refine .unclosed ?_ ?_ ?_
  · simp [State.mine, handshake, h.fresh a]
  · simp [handshake, h.empty a]
  · simp [State.theirs, handshake, h.fresh a.other]

/-- Two routers right after their construction. -/
def created : Pair φ := fun _ => Router.create Fifo.empty Fifo.empty

/-- `register_handler(id, …)` on both sides. -/
def register (p : Pair φ) (id : UInt32) (onRead onError : φ) : Pair φ :=
  fun a => (registerHandler (p a) id (some onRead) (some onError)).2

theorem registered_created (onRead onError : φ) (hid : id &&& flagMask = 0) :
    Registered id (register created id onRead onError) := by
  have hreg (a : Side) : register created id onRead onError a =
      (created a).setHandler id ⟨some onRead, some onError⟩ := by
    simp [register, registerHandler, tryRegisterHandler, hid, created, Router.create]
  refine ⟨fun a => ?_, fun a k hk => ?_, fun a => ?_, fun a => ?_⟩
  · rw [hreg, hreg]
    rfl
  · rw [hreg] at hk
    by_cases he : k = id
    · rwa [he]
    · simp [Router.setHandler, Function.update_of_ne he, created, Router.create] at hk
  · rw [hreg]
    rfl
  · rw [hreg]
    simp [Router.setHandler, entryOf, RouterHandler.isClosedRead, RouterHandler.isClosedWrite]

end ShmIpcRouterPair
