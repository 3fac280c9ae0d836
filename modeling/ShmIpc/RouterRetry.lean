import ShmIpc.RouterHistory

/-!
# Closes that fail

`Router::close` closes the handler for write and then asks the channel to take
the close record. A close that throws therefore changes nothing only if it does
not get that far, and what follows for whole runs of a router.
-/
namespace ShmIpcRouterRetry

open LabelledRun ShmIpcRouter ShmIpcRouterClose ShmIpcRouterHistory
open ShmIpcRouterStreams (InHand)
open ShmIpcChannel (Channel)
open ShmIpcFifo (onePage)

variable {κ φ : Type}

/-! ## One close -/

/-- A close that throws leaves the handlers and the write channel as they were. -/
def CloseAtomic [ChannelOps κ] (r : Router κ φ) (id : UInt32) : Prop :=
  ∀ msg r', ShmIpcRouter.close r id = (.error msg, r') → r'.handlers = r.handlers ∧
    r'.writeChannel = r.writeChannel

/-- If the id is registered and open in both directions, the channel takes its close record. -/
def CloseTaken [ChannelOps κ] (r : Router κ φ) (id : UInt32) : Prop :=
  ∀ handler, r.handlers id = some handler → handler.isClosedWrite = false →
    handler.isClosedRead = false → ∃ err c, ChannelOps.write r.writeChannel (id ||| flagClose) 0
    none = (.ok (0, err), c)

/-- The handler is closed for write before the channel is asked. -/
theorem closed_for_write (r : Router κ φ) {id : UInt32} {handler : RouterHandler φ}
    (hw : handler.isClosedWrite = false) (hh : r.handlers id = some handler) :
    (r.setHandler id { handler with onError := none }).handlers ≠ r.handlers := by
  intro heq
  have hself : (r.setHandler id { handler with onError := none }).handlers id =
      some { handler with onError := none } := Function.update_self _ _ _
  rw [heq, hh] at hself
  obtain ⟨onRead, onError⟩ := handler
  cases hself
  cases hw

section Failures

variable [ChannelOps κ]

/-- A close that throws although its record would be taken has changed nothing. -/
theorem same_of_notClosed {r r' : Router κ φ} {id : UInt32} {msg : String}
    (htaken : CloseTaken r id) (h : Closing r id (.error msg, r')) : r' = r := by
  cases h with
  | unknown _ => rfl
  | again _ _ => rfl
  | threw hh hw hr hwrite =>
    obtain ⟨_, _, hok⟩ := htaken _ hh hw hr
    rw [hwrite] at hok
    cases hok
  | unsent hh hw hr hwrite hne =>
    obtain ⟨_, _, hok⟩ := htaken _ hh hw hr
    rw [hwrite] at hok
    cases hok
    exact absurd rfl hne

/-- A close is atomic if and only if it need not write or its record is taken. -/
theorem closeAtomic_iff (r : Router κ φ) (id : UInt32) : CloseAtomic r id ↔ CloseTaken r id := by
  have hclosing := close_closing r id
  constructor
  · intro hatomic handler hh hw hr
    unfold CloseAtomic at hatomic
    generalize ShmIpcRouter.close r id = result at hatomic hclosing
    cases hclosing with
    | unknown hnone =>
      rw [hh] at hnone
      cases hnone
    | again hh' hw' =>
      rw [hh] at hh'
      cases hh'
      rw [hw] at hw'
      cases hw'
    | erased hh' _ hr' =>
      rw [hh] at hh'
      cases hh'
      rw [hr] at hr'
      cases hr'
    | threw hh' hw' _ _ => exact absurd (hatomic _ _ rfl).1 (closed_for_write r hw' hh')
    | unsent hh' hw' _ _ _ => exact absurd (hatomic _ _ rfl).1 (closed_for_write r hw' hh')
    | sent _ _ _ hwrite => exact ⟨_, _, hwrite⟩
  · intro htaken msg r' heq
    rw [heq] at hclosing
    rw [same_of_notClosed htaken hclosing]
    exact ⟨rfl, rfl⟩

end Failures

/-! ## Handlers that are closed for write -/

/-- No handler of `r'` is closed for write that was not closed for write in `r`. -/
def KeepsOpen (r r' : Router κ φ) : Prop :=
  ∀ id handler, r'.handlers id = some handler → handler.isClosedWrite = true →
    ∃ old, r.handlers id = some old ∧ old.isClosedWrite = true

theorem KeepsOpen.of_eq {r r' : Router κ φ} (h : r'.handlers = r.handlers) : KeepsOpen r r' := by
  intro id handler hh hw
  exact ⟨handler, h ▸ hh, hw⟩

/-- A handler that replaces another one, or none, with its write half as it was, or open. -/
theorem keepsOpen_setHandler {r : Router κ φ} {id : UInt32} {h : RouterHandler φ}
    (hw : h.isClosedWrite = true → ∃ old, r.handlers id = some old ∧ old.isClosedWrite = true) :
    KeepsOpen r (r.setHandler id h) := by
  intro k handler hk hclosed
  by_cases heq : k = id
  · subst heq
    have hself : (r.setHandler k h).handlers k = some h := Function.update_self _ _ _
    rw [hself] at hk
    cases hk
    exact hw hclosed
  · rw [setHandler_other r h heq] at hk
    exact ⟨handler, hk, hclosed⟩

theorem keepsOpen_erase (r : Router κ φ) (id : UInt32) : KeepsOpen r (r.erase id) := by
  intro k handler hk hclosed
  by_cases heq : k = id
  · subst heq
    have hself : (r.erase k).handlers k = none := Function.update_self _ _ _
    rw [hself] at hk
    cases hk
  · exact ⟨handler, (Function.update_of_ne heq _ _).symm.trans hk, hclosed⟩

theorem keepsOpen_new (r : Router κ φ) (id : UInt32) (onRead : Option φ) {onError : Option φ}
    (h : onError.isSome) : KeepsOpen r (r.setHandler id ⟨onRead, onError⟩) := by
  refine keepsOpen_setHandler fun hclosed => ?_
  obtain ⟨f, rfl⟩ := Option.isSome_iff_exists.mp h
  cases hclosed

/-- Every handler that is closed for write has been closed by a call that returned. -/
def ClosedByReturn (s : History κ φ) : Prop :=
  ∀ id handler, s.router.handlers id = some handler → handler.isClosedWrite = true → id ∈ s.closed

theorem ClosedByReturn.keeps {s t : History κ φ} (hs : ClosedByReturn s)
    (hclosed : t.closed = s.closed) (h : KeepsOpen s.router t.router) : ClosedByReturn t := by
  intro id handler hh hw
  obtain ⟨old, hold, hw'⟩ := h id handler hh hw
  rw [hclosed]
  exact hs id old hold hw'

section Returned

variable [ChannelOps κ]

theorem keepsOpen_endRound (r : Router κ φ) (inHand : InHand) :
    KeepsOpen r (ShmIpcRouterStreams.endRound r inHand).2 := by
  obtain ⟨id, header⟩ := inHand
  have hconsume {r' : Router κ φ} (h : KeepsOpen r r') : KeepsOpen r (r'.consume header).2 := by
    intro k handler hk
    rw [(consume_same r' header).1] at hk
    exact h k handler hk
  simp only [ShmIpcRouterStreams.endRound]
  split
  · split
    · exact .of_eq rfl
    · rename_i handler hh
      split
      · exact hconsume (keepsOpen_erase r id)
      · split
        · exact .of_eq rfl
        · exact hconsume (keepsOpen_setHandler fun hw => ⟨handler, hh, hw⟩)
  · exact hconsume (.of_eq rfl)

/-- The closes that need not write, or whose record is taken. -/
def Admitted (s : History κ φ) : Act κ φ → Prop
  | .close id => CloseTaken s.router id
  | _ => True

theorem closedByReturn_closed {s : History κ φ} {r : Router κ φ} {id : UInt32}
    (hs : ClosedByReturn s) (h : Closing s.router id (.ok (), r)) :
    ClosedByReturn { s with router := r, closed := s.closed ++ [id] } := by
  intro k handler hh hw
  cases h with
  | erased _ _ _ =>
    obtain ⟨old, hold, hw'⟩ := keepsOpen_erase s.router id k handler hh hw
    exact List.mem_append_left _ (hs k old hold hw')
  | sent _ _ _ _ =>
    by_cases hk : k = id
    · exact List.mem_append_right _ (List.mem_singleton.mpr hk)
    · exact List.mem_append_left _ (hs k handler
        ((setHandler_other s.router _ hk).symm.trans hh) hw)

theorem closedByReturn_step {s t : History κ φ} {act : Act κ φ} (hc : Counted s)
    (hs : ClosedByReturn s) (h : guarded Admitted (ofFun step) s act t) : ClosedByReturn t := by
  obtain ⟨hok, h⟩ := h
  cases effect_of_step hc.next_le h with
  | same hsame _ hclosed => exact hs.keeps hclosed (.of_eq hsame.1)
  | picked _ _ herror => exact hs.keeps rfl (keepsOpen_new s.router _ _ herror)
  | registered herror => exact hs.keeps rfl (keepsOpen_new s.router _ _ herror)
  | closed _ hclosing => exact closedByReturn_closed hs hclosing
  | notClosed hact hclosing =>
    subst hact
    rw [same_of_notClosed hok hclosing]
    exact hs
  | endedRound inHand => exact hs.keeps rfl (keepsOpen_endRound s.router inHand)

theorem closedByReturn_run {readChannel writeChannel : κ} {acts : List (Act κ φ)} {s : History κ φ}
    (h : Run (guarded Admitted (ofFun step)) (start readChannel writeChannel) acts s) :
    ClosedByReturn s := by
  have hboth := h.invariant (fun s => Counted s ∧ ClosedByReturn s) ⟨counted_start _ _, nofun⟩
    fun _ _ _ hs hstep => ⟨counted_step hs.1 hstep.2, closedByReturn_step hs.1 hs.2 hstep⟩
  exact hboth.2

/-- A close that throws changes nothing if and only if it need not write or its record is taken; and
in a run all of whose closes are such, a handler loses its `on_error` to a close that returned
only. -/
theorem failed_close_atomic :
    (∀ (r : Router κ φ) (id : UInt32), CloseAtomic r id ↔ CloseTaken r id) ∧
    (∀ (readChannel writeChannel : κ) (acts : List (Act κ φ)) (s : History κ φ),
      Run (guarded Admitted (ofFun step)) (start readChannel writeChannel) acts s →
        ClosedByReturn s) :=
  ⟨closeAtomic_iff, fun _ _ _ _ => closedByReturn_run⟩

/-- Over a queue the record is always taken. -/
theorem closeTaken_fifo (r : Router Fifo φ) (id : UInt32) : CloseTaken r id := by
  intro handler _ _ _
  refine ⟨none,
    { r.writeChannel with records := r.writeChannel.records ++ [⟨id ||| flagClose, []⟩] }, ?_⟩
  show Fifo.write _ _ _ _ = _
  rw [Fifo.write, if_neg (closeId_ne_zero id)]
  rfl

end Returned

theorem failed_close_atomic_one :
    ∃ s : History Fifo Unit, Run (guarded Admitted (ofFun step)) (start Fifo.empty Fifo.empty)
        [.registerHandler 1 (some ()) (some ()), .close 1] s ∧
      s.closed = [1] ∧ ClosedByReturn s ∧ CloseAtomic s.router 1 := by
  have hrun : Run (guarded Admitted (ofFun step)) (start Fifo.empty Fifo.empty : History Fifo Unit)
      [.registerHandler 1 (some ()) (some ()), .close 1] _ :=
    .cons ⟨trivial, rfl⟩ (.single ⟨closeTaken_fifo _ 1, rfl⟩)
  exact ⟨_, hrun, rfl, failed_close_atomic.2 _ _ _ _ hrun, (failed_close_atomic.1 _ 1).mpr
    (closeTaken_fifo _ 1)⟩

/-! ## Over shared memory -/

/-- The channel of shared memory takes no close record: nothing but a half-closed handler saves the
close. -/
theorem closeTaken_channel_iff (r : Router Channel φ) (id : UInt32) :
    CloseTaken r id ↔
      ∀ handler, r.handlers id = some handler → handler.isClosedWrite = true ∨
      handler.isClosedRead = true := by
  have hnull := write_null r.writeChannel (closeId_ne_zero id) 0
  constructor
  · intro htaken handler hh
    rw [← Bool.not_eq_false, ← Bool.not_eq_false, ← not_and_or]
    rintro ⟨hw, hr⟩
    obtain ⟨_, _, hok⟩ := htaken handler hh hw hr
    rw [hnull] at hok
    cases hok
  · intro hhalf handler hh hw hr
    rcases hhalf handler hh with h | h
    · rw [h] at hw
      cases hw
    · rw [h] at hr
      cases hr

/-- The close of a new id throws, and the handler has lost its `on_error`; to close it again throws
as well. -/
theorem failed_close_changes :
    ∃ (s : History Channel Unit) (r' : Router Channel Unit),
      Run (ofFun step) (start onePage.channel onePage.channel)
        [.registerHandler 1 (some ()) (some ())] s ∧
      s.router.handlers 1 = some ⟨some (), some ()⟩ ∧
      close s.router 1 = (.error "Channel::write() data is null", r') ∧
      r'.handlers 1 = some ⟨some (), none⟩ ∧
      close r' 1 = (.error "Router::close(): handler already closed for write", r') ∧
      ¬ CloseAtomic s.router 1 := by
  refine ⟨⟨newRouter, none, [], []⟩, newRouter.setHandler 1 ⟨some (), none⟩, .single rfl, rfl,
    close_open newRouter newRouter_handler rfl rfl, rfl, rfl, ?_⟩
  rw [closeAtomic_iff, closeTaken_channel_iff]
  intro hhalf
  exact absurd (hhalf _ newRouter_handler) (by decide)

end ShmIpcRouterRetry
