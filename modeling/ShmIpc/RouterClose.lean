import ShmIpc.ChannelFifo
import ShmIpc.Router

/-!
# Closing an id over the shared-memory channel

`Router::close` announces a close by a write without payload. The channel of
shared memory refuses such a write, so that no close ever reaches the other side.
-/
namespace ShmIpcRouterClose

open ShmIpcRouter
open ShmIpcChannel hiding write
open ShmIpcFifo (onePage)

variable {φ : Type}

/-- The channel holds one record, a close record for `id`. -/
def OnlyClose (id : UInt32) (c : Channel) : Prop :=
  ∃ h c₁ c₂ c₃, readHeader c = (.ok (some h), c₁) ∧ idAt c₁.mAddr h = id ||| flagClose ∧
    sizeAt c₁.mAddr h = 0 ∧ consumeHeader c₁ h = (.ok (), c₂) ∧ readHeader c₂ = (.ok none, c₃)

/-- The close of an id from one end to the other: the call returns, sends one close record and
closes the handler for write; the peer reads the record and closes its handler for read. -/
def ClosesEndToEnd (id : UInt32) (r peer : Router Channel φ) : Prop :=
  ∃ r', close r id = (.ok (), r') ∧ OnlyClose id r'.writeChannel ∧
    (∃ handler, r'.handlers id = some handler ∧ handler.isClosedWrite) ∧
    ∃ n peer', processReads n { peer with readChannel := r'.writeChannel } =
      (some (.ok ()), peer') ∧ (∃ handler, peer'.handlers id = some handler ∧
        handler.isClosedRead) ∧
      ∃ c, readHeader peer'.readChannel = (.ok none, c)

/-- The channel refuses a write without data, whatever its id and state. -/
theorem write_null (c : Channel) {id : UInt32} (hid : id ≠ 0) (size : UInt32) :
    ChannelOps.write c id size none = (.error "Channel::write() data is null", c) := by
  simp [ChannelOps.write, ShmIpcChannel.write, hid]

/-- The close of an open handler throws once it has closed the handler for write. -/
theorem close_open (r : Router Channel φ) {id : UInt32} {handler : RouterHandler φ}
    (hh : r.handlers id = some handler) (hr : handler.isClosedRead = false)
    (hw : handler.isClosedWrite = false) :
    close r id = (.error "Channel::write() data is null",
      r.setHandler id { handler with onError := none }) := by
  have hwrite := write_null r.writeChannel (closeId_ne_zero id) 0
  simp only [close, hh, hr, hw, Bool.false_eq_true, ↓reduceIte]
  simp only [Router.setHandler, hwrite]

/-- No handler that is open in both directions is ever closed from one end to the other. -/
theorem never_closes_end_to_end (r peer : Router Channel φ) {id : UInt32}
    {handler : RouterHandler φ} (hh : r.handlers id = some handler)
    (hr : handler.isClosedRead = false) (hw : handler.isClosedWrite = false) :
    ¬ ClosesEndToEnd id r peer := by
  rintro ⟨r', hclose, _⟩
  rw [close_open r hh hr hw] at hclose
  cases hclose

/-- Either side of a new pair, with id 1 registered. -/
def newRouter : Router Channel Unit :=
  (registerHandler (Router.create onePage.channel onePage.channel) 1 (some ()) (some ())).2

theorem newRouter_handler : newRouter.handlers 1 = some ⟨some (), some ()⟩ := rfl

theorem never_closes_new_router : ¬ ClosesEndToEnd 1 newRouter newRouter :=
  never_closes_end_to_end newRouter newRouter newRouter_handler rfl rfl

/-- On two new routers with empty channels the close of a registered id throws. -/
theorem new_router_close_throws :
    newRouter.handlers 1 = some ⟨some (), some ()⟩ ∧
      readHeader newRouter.writeChannel = (.ok none, newRouter.writeChannel) ∧
      (close newRouter 1).1 = .error "Channel::write() data is null" ∧
      ¬ ClosesEndToEnd 1 newRouter newRouter := by
  have hclose := close_open newRouter newRouter_handler rfl rfl
  refine ⟨newRouter_handler, rfl, by rw [hclose], ?_⟩
  rintro ⟨r', hok, _⟩
  rw [hclose] at hok
  cases hok

end ShmIpcRouterClose
