import ShmIpc.ControlFraming

/-!
# The kinds of control messages

Shutdown commands and fatal error texts travel in the same frames. The receiver
tells them apart by the text alone, and so a message keeps its kind if and only
if it does not begin like a shutdown command.
-/
namespace ShmIpcControlKinds

open ShmIpcChannel (Errno)
open SocketTape ShmIpcControlFd ShmIpcControlFraming

/-! ## Calls -/

def sendShutdownMessage (isOpen graceful : Bool) (outcomes : List Sent) :
    Option (Except String Unit) × List UInt8 :=
  let gracefulMsg := ascii "SHUTDOWN:GRACEFUL"
  let forcefulMsg := ascii "SHUTDOWN:FORCEFUL"
  if graceful then sendMessageInternal isOpen gracefulMsg outcomes
  else sendMessageInternal isOpen forcefulMsg outcomes

def sendGracefulShutdown (isOpen : Bool) (outcomes : List Sent) :
    Option (Except String Unit) × List UInt8 :=
  sendShutdownMessage isOpen true outcomes

def sendForcefulShutdown (isOpen : Bool) (outcomes : List Sent) :
    Option (Except String Unit) × List UInt8 :=
  sendShutdownMessage isOpen false outcomes

def sendFatalError (isOpen : Bool) (msg : List UInt8) (outcomes : List Sent) :
    Option (Except String Unit) × List UInt8 :=
  sendMessageInternal isOpen msg outcomes

/-- The calls by which a control descriptor sends. -/
inductive Call where
  | sendFatalError (msg : List UInt8) : Call
  | sendGracefulShutdown : Call
  | sendForcefulShutdown : Call

def Call.perform (isOpen : Bool) (outcomes : List Sent) :
    Call → Option (Except String Unit) × List UInt8
  | .sendFatalError msg => ShmIpcControlKinds.sendFatalError isOpen msg outcomes
  | .sendGracefulShutdown => ShmIpcControlKinds.sendGracefulShutdown isOpen outcomes
  | .sendForcefulShutdown => ShmIpcControlKinds.sendForcefulShutdown isOpen outcomes

/-- The slot that a call is meant to invoke. -/
def Call.slot : Call → Event
  | .sendFatalError msg => .slotMessage msg
  | .sendGracefulShutdown => .slotShutdown true
  | .sendForcefulShutdown => .slotShutdown false

def Call.payload : Call → List UInt8
  | .sendFatalError msg => msg
  | .sendGracefulShutdown => ascii "SHUTDOWN:GRACEFUL"
  | .sendForcefulShutdown => ascii "SHUTDOWN:FORCEFUL"

theorem perform_eq (c : Call) (isOpen : Bool) (outcomes : List Sent) :
    c.perform isOpen outcomes = sendMessageInternal isOpen c.payload outcomes := by
  cases c <;> rfl

theorem slot_injective {c c' : Call} (h : c.slot = c'.slot) : c = c' := by
  cases c <;> cases c' <;> simp_all [Call.slot]

/-- Calls one after the other, all of which return, and what they leave on the socket. -/
inductive Calls : List Call → List UInt8 → Prop where
  | nil : Calls [] []
  | call {c : Call} {calls : List Call} {wire stream : List UInt8} {outcomes : List Sent} :
      c.perform true outcomes = (some (.ok ()), wire) → Calls calls stream →
      Calls (c :: calls) (wire ++ stream)

theorem Calls.payloads {calls : List Call} {stream : List UInt8} (h : Calls calls stream) :
    Stream (calls.map Call.payload) stream := by
  induction h with
  | nil => exact .nil
  | call hc _ ih => exact .send ((perform_eq _ _ _).symm.trans hc) ih

/-- The frames of the calls reach the receiver complete and in order. -/
structure Exchange (calls : List Call) (tape : Tape) : Prop where
  arrives : ∃ stream, Calls calls stream ∧ Delivers stream tape
  whole : NoGap (calls.map Call.payload) tape

/-- What the receiver's slots are invoked with. -/
def Event.isSlot : Event → Bool
  | .slotClosed _ | .slotShutdown _ | .slotMessage _ => true
  | .quiet | .throws _ _ | .waiting => false

def slots (tape : Tape) : List Event := (serve tape.length tape).filter Event.isSlot

/-! ## One message -/

/-- The message begins like a shutdown command. -/
def Reserved (msg : List UInt8) : Prop := startsWith msg "SHUTDOWN:" = true

instance (msg : List UInt8) : Decidable (Reserved msg) := inferInstanceAs (Decidable (_ = _))

theorem Reserved.length {msg : List UInt8} (h : Reserved msg) : 9 ≤ msg.length := by
  have htake : msg.take 9 = ascii "SHUTDOWN:" := eq_of_beq h
  have hlen := congrArg List.length htake
  rw [List.length_take, show (ascii "SHUTDOWN:").length = 9 by decide] at hlen
  omega

theorem dispatch_free {msg : List UInt8} (h : ¬ Reserved msg) :
    dispatch msg = .slotMessage msg := by
  rw [dispatch, if_neg]
  exact fun hc => h hc.2

/-- A reserved message never arrives as a message. -/
theorem dispatch_reserved {msg : List UInt8} (h : Reserved msg) :
    (dispatch msg = .slotShutdown true ∨ dispatch msg = .slotShutdown false) ∨
      ∃ text, dispatch msg = .throws text msg := by
  rw [dispatch, if_pos ⟨h.length, h⟩]
  split
  · exact .inl (.inl rfl)
  · split
    · exact .inl (.inr rfl)
    · exact .inr ⟨_, rfl⟩

theorem dispatch_message_iff (msg : List UInt8) :
    dispatch msg = .slotMessage msg ↔ ¬ Reserved msg := by
  refine ⟨fun heq h => ?_, dispatch_free⟩
  rcases dispatch_reserved h with (h | h) | ⟨_, h⟩ <;> rw [heq] at h <;> cases h

theorem dispatch_slot_iff (c : Call) :
    dispatch c.payload = c.slot ↔ ∀ msg, c = .sendFatalError msg → ¬ Reserved msg := by
  cases c with
  | sendFatalError msg =>
    simp only [Call.payload, Call.slot, dispatch_message_iff, Call.sendFatalError.injEq, forall_eq']
  | sendGracefulShutdown => exact ⟨nofun, fun _ => by decide⟩
  | sendForcefulShutdown => exact ⟨nofun, fun _ => by decide⟩

/-! ## Any number of calls -/

/-- No text sent as a fatal error begins like a shutdown command. -/
def Unreserved (calls : List Call) : Prop := ∀ msg, .sendFatalError msg ∈ calls → ¬ Reserved msg

theorem map_dispatch_iff (calls : List Call) :
    (calls.map Call.payload).map dispatch = calls.map Call.slot ↔ Unreserved calls := by
  rw [List.map_map, List.map_inj_left]
  constructor
  · intro h msg hmem
    exact (dispatch_message_iff msg).mp (h _ hmem)
  · intro h c hmem
    exact (dispatch_slot_iff c).mpr fun msg heq => h msg (heq ▸ hmem)

theorem Exchange.served {calls : List Call} {tape : Tape} (h : Exchange calls tape) :
    serve tape.length tape = (calls.map Call.payload).map dispatch := by
  obtain ⟨stream, hcalls, hd⟩ := h.arrives
  exact (payloads_passed_on_iff hcalls.payloads hd).mpr h.whole

theorem kinds_kept_iff {calls : List Call} {tape : Tape} (h : Exchange calls tape) :
    serve tape.length tape = calls.map Call.slot ↔ Unreserved calls := by
  rw [h.served, map_dispatch_iff]

theorem filter_slots (calls : List Call) :
    (calls.map Call.slot).filter Event.isSlot = calls.map Call.slot := by
  rw [List.filter_eq_self]
  intro event hmem
  obtain ⟨c, _, rfl⟩ := List.mem_map.mp hmem
  cases c <;> rfl

/-- The calls whose texts are among `texts`. -/
def From (texts : List UInt8 → Prop) (calls : List Call) : Prop :=
  ∀ msg, .sendFatalError msg ∈ calls → texts msg

theorem from_commands {texts : List UInt8 → Prop} {calls : List Call}
    (h : ∀ msg, .sendFatalError msg ∉ calls) : From texts calls :=
  fun msg hmem => absurd hmem (h msg)

/-- Of calls with these texts, the slots invoked tell which were made. -/
def Determined (texts : List UInt8 → Prop) : Prop :=
  ∀ calls calls' tape tape', From texts calls → From texts calls' → Exchange calls tape →
    Exchange calls' tape' → slots tape = slots tape' → calls = calls'

theorem determined_of_free {texts : List UInt8 → Prop} (h : ∀ msg, texts msg → ¬ Reserved msg) :
    Determined texts := by
  intro calls calls' tape tape' hfrom hfrom' hex hex' heq
  have hkept {cs : List Call} {t : Tape} (hf : From texts cs) (he : Exchange cs t) : slots t =
      cs.map Call.slot := by
    rw [slots, (kinds_kept_iff he).mpr fun msg hmem => h msg (hf msg hmem), filter_slots]
  rw [hkept hfrom hex, hkept hfrom' hex'] at heq
  exact List.map_injective_iff.mpr (fun _ _ => slot_injective) heq

/-! ### Calls that are mistaken for others -/

theorem bytes_map_byte (bs : List UInt8) : bytes (bs.map fun b => (.byte b : Item Errno)) = bs := by
  induction bs with
  | nil => rfl
  | cons b bs ih => rw [List.map_cons, bytes, ih]

theorem not_failsAt_map_byte (bs : List UInt8) (k : Nat) :
    ¬ FailsAt WouldBlock (bs.map fun b => (.byte b : Item Errno)) k := by
  induction bs generalizing k with
  | nil => exact id
  | cons b bs ih =>
    cases k with
    | zero => exact id
    | succ k => exact ih k

/-- A single call, sent and received in one piece. -/
theorem exchange_one {c : Call} (hlen : c.payload.length ≤ maxMessageSize) :
    Exchange [c] ((frame c.payload).map .byte) := by
  have hsend : c.perform true [.count (c.payload.length + 2)] =
      (some (.ok ()), frame c.payload) := by
    rw [perform_eq, sendMessageInternal, if_neg (by decide), if_neg (Nat.not_lt.mpr hlen)]
    simp [frame, sendLoop]
  refine ⟨⟨frame c.payload ++ [], .call hsend .nil, ?_, ?_⟩, ?_⟩
  · rw [List.append_nil]
    exact bytes_map_byte _
  · intro x hx
    obtain ⟨b, _, rfl⟩ := List.mem_map.mp hx
    constructor
    · intro h
      cases h
    · intro e h
      cases h
  · intro front msg back _ _
    exact not_failsAt_map_byte _ _

theorem exchange_none : Exchange [] [] :=
  ⟨⟨[], .nil, rfl, nofun⟩, fun front _ _ h => by cases front <;> cases h⟩

theorem slots_one {c : Call} (hlen : c.payload.length ≤ maxMessageSize) :
    slots ((frame c.payload).map .byte) = [dispatch c.payload].filter Event.isSlot := by
  rw [slots, (exchange_one hlen).served]
  rfl

/-- A reserved text is taken for a shutdown command, or for no call at all. -/
theorem not_determined {texts : List UInt8 → Prop} {msg : List UInt8} (hmem : texts msg)
    (hlen : msg.length ≤ maxMessageSize) (h : Reserved msg) : ¬ Determined texts := by
  intro hdet
  have hfrom : From texts [.sendFatalError msg] := by
    intro m hm
    cases List.mem_singleton.mp hm
    exact hmem
  have hfatal : Exchange [.sendFatalError msg] ((frame msg).map .byte) :=
    exchange_one (c := .sendFatalError msg) hlen
  have hslots : slots ((frame msg).map .byte) = [dispatch msg].filter Event.isSlot :=
    slots_one (c := .sendFatalError msg) hlen
  rcases dispatch_reserved h with (hd | hd) | ⟨text, hd⟩
  · have hgraceful : Call.sendGracefulShutdown.payload.length ≤ maxMessageSize := by decide
    have heq := hdet _ _ _ _ hfrom (from_commands (by simp)) hfatal (exchange_one hgraceful) ?_
    · cases heq
    · rw [hslots, slots_one hgraceful, hd]
      decide
  · have hforceful : Call.sendForcefulShutdown.payload.length ≤ maxMessageSize := by decide
    have heq := hdet _ _ _ _ hfrom (from_commands (by simp)) hfatal (exchange_one hforceful) ?_
    · cases heq
    · rw [hslots, slots_one hforceful, hd]
      decide
  · have heq := hdet _ _ _ _ hfrom (from_commands (by simp)) hfatal exchange_none ?_
    · cases heq
    · rw [hslots, hd]
      rfl

/-- Of the calls whose frames arrive, each invokes its own slot once and nothing else, if and only
if no fatal error text begins like a shutdown command; and from such texts only do the slots tell
which calls were made. -/
theorem control_kinds {calls : List Call} {tape : Tape} {texts : List UInt8 → Prop}
    (h : Exchange calls tape) (hlen : ∀ msg, texts msg → msg.length ≤ maxMessageSize) :
    (serve tape.length tape = calls.map Call.slot ↔ Unreserved calls) ∧
    (Determined texts ↔ ∀ msg, texts msg → ¬ Reserved msg) := by
  refine ⟨kinds_kept_iff h, ?_, determined_of_free⟩
  intro hdet msg hmem hres
  exact not_determined hmem (hlen msg hmem) hres hdet

/-- A text that only quotes a shutdown command, behind its first byte, arrives as it is. -/
theorem control_kinds_quoted :
    serve 20 ((frame (ascii " SHUTDOWN:GRACEFUL")).map .byte) =
      [.slotMessage (ascii " SHUTDOWN:GRACEFUL")] ∧ Determined
      (· = ascii " SHUTDOWN:GRACEFUL") := by
  have hlen : (Call.sendFatalError (ascii " SHUTDOWN:GRACEFUL")).payload.length ≤
    maxMessageSize := by decide
  have hfree : ¬ Reserved (ascii " SHUTDOWN:GRACEFUL") := by decide
  have hkinds := control_kinds (exchange_one hlen)
    fun msg (hmsg : msg = ascii " SHUTDOWN:GRACEFUL") => hmsg ▸ hlen
  refine ⟨hkinds.1.mpr ?_, hkinds.2.mpr ?_⟩
  · intro msg hmem
    cases List.mem_singleton.mp hmem
    exact hfree
  · rintro _ rfl
    exact hfree

/-- A fatal error with the text of a shutdown command shuts the peer down gracefully; with another
text behind the prefix it makes `event_read` throw. -/
theorem reserved_texts_mistaken :
    Exchange [.sendFatalError (ascii "SHUTDOWN:GRACEFUL")]
      ((frame (ascii "SHUTDOWN:GRACEFUL")).map .byte) ∧
        serve 19 ((frame (ascii "SHUTDOWN:GRACEFUL")).map .byte) = [.slotShutdown true] ∧
      Exchange [.sendFatalError (ascii "SHUTDOWN:NOW")] ((frame (ascii "SHUTDOWN:NOW")).map .byte) ∧
      serve 14 ((frame (ascii "SHUTDOWN:NOW")).map .byte) =
        [.throws "ControlFd::event_read() received invalid shutdown message: "
          (ascii "SHUTDOWN:NOW")] :=
  ⟨exchange_one (c := .sendFatalError _) (by decide), by decide,
    exchange_one (c := .sendFatalError _) (by decide), by decide⟩

end ShmIpcControlKinds
