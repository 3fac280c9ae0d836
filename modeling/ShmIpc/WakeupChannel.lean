import ShmIpc.ChannelSteps
import ShmIpc.Doorbell
import ShmIpc.Wakeup

/-!
# The wakeup handshake over the shared memory

`Router::write` and a round of the loop of either process, from
`process_reads_pre_polling` to `process_reads_post_polling`, down to the single
loads and stores of the channel. `consumer_state` is stored with release order
only: what the reader has stored may still be on its way to the memory when the
reader loads `m_write_offset`.
-/
namespace ShmIpcWakeupChannel

open Doorbell (Word Sleeper Ringer Mailbox Kept Fenced)
open LabelledRun ShmIpcChannel
open ShmIpcWakeup (Reader)

/-- Where the writer stands in `Router::write`; its call of `Channel::write` is `outside`. -/
inductive Writer where
  | outside | published | interrupting
  deriving DecidableEq

/-- `storeBuffer` are the reader's stores of `consumer_state` that have not reached the memory,
`bytes` wait on its wakeup descriptor, and `cutShort` counts the polls that a signal has ended. -/
structure State where
  channel : ShmIpcSteps.State
  storeBuffer : List UInt32
  bytes : Nat
  reader : Reader
  writer : Writer
  cutShort : Nat

inductive Action where
  /-- a load or store of `write`, `read_header` or `consume_header` -/
  | channel (a : ShmIpcSteps.Action) : Action
  | exchange : Action
  | send : Action
  | storePolling : Action
  | storeIdle : Action
  /-- the oldest store of the reader reaches the memory -/
  | flush : Action
  /-- `kevent` returns, whatever it has been waiting for -/
  | poll : Action
  /-- `kevent` fails with EINTR -/
  | interrupted : Action
  | eventRead : Action

def ofWriter : ShmIpcSteps.Action → Bool
  | .writeLoadRead .. | .writeLoadWrite | .writeStore _ | .writeFinish => true
  | .readLoadRead | .readLoadWrite | .readHeader | .consumeHeader => false

/-- A write that has published goes on to the compare-exchange, one that has not returns. -/
def afterWrite : ShmIpcSteps.Writer → ShmIpcSteps.Action → Writer
  | .storing _ _ _ (.publish _ _), .writeFinish => .published
  | _, _ => .outside

/-- `process_reads` returns when `read_header` finds nothing. -/
def afterRead (pc next : Reader) (a : ShmIpcSteps.Action) (c : ShmIpcSteps.State) : Reader :=
  match a, c.reader with
  | .readLoadWrite, .idle => next
  | _, _ => pc

def setConsumerState (c : ShmIpcSteps.State) (state : UInt32) : ShmIpcSteps.State :=
  { c with channel := { c.channel with mConsumerState := state } }

/-- `buffer` bytes fit into the wakeup socket; `send_interrupt` returns when it is full. -/
def step (buffer : Nat) (s : State) : Action → Option State
  | .channel a =>
    match ShmIpcSteps.step s.channel a with
    | none => none
    | some c =>
      if ofWriter a then
        if s.writer = .outside then
          some { s with channel := c, writer := afterWrite s.channel.writer a }
        else none
      else match s.reader.afterDrain with
        | some next => some { s with channel := c, reader := afterRead s.reader next a c }
        | none => none
  | .exchange =>
    if s.writer = .published then
      if s.channel.channel.mConsumerState = flagPolling then some { s with
        channel := setConsumerState s.channel (flagPolling ||| flagInterrupted)
        writer := .interrupting }
      else some { s with writer := .outside }
    else none
  | .send =>
    if s.writer = .interrupting then some { s with
      bytes := if s.bytes < buffer then s.bytes + 1 else s.bytes
      writer := .outside }
    else none
  | .storePolling =>
    if s.reader = .storePolling then some { s with
      storeBuffer := s.storeBuffer ++ [flagPolling]
      reader := .drainArmed }
    else none
  | .storeIdle =>
    if s.reader = .storeIdle then
      some { s with storeBuffer := s.storeBuffer ++ [0], reader := .drainLast }
    else none
  | .flush =>
    match s.storeBuffer with
    | [] => none
    | state :: states =>
      some { s with channel := setConsumerState s.channel state, storeBuffer := states }
  | .poll =>
    -- the read filter of the wakeup descriptor is level-triggered, and `do_poll` returns from
    -- `process`
    if s.reader = .polling then
      some { s with reader := if 0 < s.bytes then .eventRead else .drainWoken }
    else none
  | .interrupted =>
    if s.reader = .polling then some { s with reader := .drainWoken, cutShort := s.cutShort + 1 }
      else none
  | .eventRead =>
    if s.reader = .eventRead then some { s with bytes := s.bytes - 1, reader := .drainWoken }
      else none

/-- Both processes have their routers and have not begun to use them. -/
structure Opened (size : UInt32) (s : State) : Prop where
  channel : ShmIpcSteps.Opened size s.channel
  storeBuffer : s.storeBuffer = []
  bytes : s.bytes = 0
  reader : s.reader = .drainFirst
  writer : s.writer = .outside

/-- The store of `flag_polling` has reached the memory when the drain behind it loads
`m_write_offset`. -/
def Visible (s : State) (a : Action) : Prop :=
  a = .channel .readLoadWrite → s.reader = .drainArmed → s.storeBuffer = []

/-! ## A doorbell at the channel -/

def word (state : UInt32) : Word :=
  if state = flagPolling then .armed else if state = flagPolling ||| flagInterrupted then .rung
    else .idle

def sleeper : Reader → Sleeper
  | .drainFirst => .first
  | .storePolling => .arm
  | .drainArmed => .second
  | .polling => .waiting
  | .eventRead => .answer
  | .drainWoken => .woken
  | .storeIdle => .disarm
  | .drainLast => .last

def ringer : Writer → Ringer
  | .outside => .outside
  | .published => .posted
  | .interrupting => .ringing

/-- The two offsets: the writer moves the second one, the reader the first one. -/
def offsets : Mailbox (UInt32 × UInt32) where
  Empty m := m.1 = m.2
  post m m' := m'.1 = m.1
  take m m' := m'.2 = m.2
  quiet m m' := m' = m
  quiet_empty h he := h ▸ he

def offsetsOf (c : ShmIpcSteps.State) : UInt32 × UInt32 :=
  (c.channel.mReadOffset, c.channel.mWriteOffset)

def doorbell (s : State) : Doorbell.State (UInt32 × UInt32) where
  mail := offsetsOf s.channel
  word := word s.channel.channel.mConsumerState
  pending := s.storeBuffer.map word
  rings := s.bytes
  sleeper := sleeper s.reader
  ringer := ringer s.writer
  missed := s.cutShort

/-- The reader's load of its own offset is not stale. -/
def Current (c : ShmIpcSteps.State) : Prop :=
  ∀ start, c.reader = .loadedRead start → start = c.channel.mReadOffset

variable {buffer : Nat} {s t : State} {c c' : ShmIpcSteps.State} {a : ShmIpcSteps.Action}

theorem sleeper_afterDrain (pc : Reader) :
    (sleeper pc).afterDrain = pc.afterDrain.map sleeper := by cases pc <;> rfl

theorem word_armed {state : UInt32} : word state = .armed ↔ state = flagPolling := by
  unfold word
  split
  · exact iff_of_true rfl ‹_›
  · rename_i hne
    split <;> exact iff_of_false (by simp) hne

theorem word_polling : word flagPolling = .armed := rfl
theorem word_idle : word 0 = .idle := rfl

/-! ## Steps of the channel -/

theorem readHeaderFrom_frame (c : Channel) (start e : UInt32) :
    (readHeaderFrom c start e).2.mWriteOffset = c.mWriteOffset ∧
      (readHeaderFrom c start e).2.mConsumerState = c.mConsumerState := by
  simp only [readHeaderFrom]
  repeat' split
  all_goals exact ⟨rfl, rfl⟩

theorem consumeHeader_frame (c : Channel) (h : HeaderPtr) :
    (consumeHeader c h).2.mWriteOffset = c.mWriteOffset ∧
      (consumeHeader c h).2.mConsumerState = c.mConsumerState := by
  simp only [consumeHeader]
  repeat' split
  all_goals exact ⟨rfl, rfl⟩

/-- No step of the channel looks at `consumer_state`. -/
theorem consumerState_step (h : ShmIpcSteps.step c a = some c') :
    c'.channel.mConsumerState = c.channel.mConsumerState := by
  cases ShmIpcSteps.effect_of_step h with
  | @readHeader start e _ _ _ hread =>
    have hframe := (readHeaderFrom_frame c.channel start e).2
    rwa [hread] at hframe
  | @consumeHeader header _ _ _ hcons =>
    have hframe := (consumeHeader_frame c.channel header).2
    rwa [hcons] at hframe
  | _ => rfl

/-- A step of the writer moves an offset only when it publishes. -/
theorem offsets_written (h : ShmIpcSteps.step c a = some c') (ha : ofWriter a = true) :
    afterWrite c.writer a = .published ∧ offsets.post (offsetsOf c) (offsetsOf c') ∨
      afterWrite c.writer a = .outside ∧ offsets.quiet (offsetsOf c) (offsetsOf c') := by
  cases ShmIpcSteps.effect_of_step h with
  | publish hw => exact .inl ⟨by rw [hw]; rfl, rfl⟩
  | giveUp hw => exact .inr ⟨by rw [hw]; rfl, rfl⟩
  | writeLoadRead hw _ _ => exact .inr ⟨by rw [hw]; rfl, rfl⟩
  | writeLoadWrite hw _ => exact .inr ⟨by rw [hw]; rfl, rfl⟩
  | writeStore hw _ => exact .inr ⟨by unfold afterWrite; split <;> simp_all, rfl⟩
  | _ => cases ha

/-- A step of the reader moves its own offset, unless it finds that there is nothing. -/
theorem offsets_read (hc : Current c) (h : ShmIpcSteps.step c a = some c')
    (ha : ofWriter a = false) :
        a = .readLoadWrite ∧ c'.reader = .idle ∧ offsets.quiet (offsetsOf c) (offsetsOf c') ∧
        offsets.Empty (offsetsOf c') ∨
      (∀ pc next, afterRead pc next a c' = pc) ∧ offsets.take (offsetsOf c) (offsetsOf c') := by
  cases ShmIpcSteps.effect_of_step h with
  | readLoadRead _ => exact .inr ⟨fun _ _ => rfl, rfl⟩
  | readEmpty hr he => exact .inl ⟨rfl, rfl, rfl, (hc _ hr).symm.trans he⟩
  | readLoadWrite _ _ => exact .inr ⟨fun _ _ => rfl, rfl⟩
  | @readHeader start e _ _ _ hread =>
    have hframe := (readHeaderFrom_frame c.channel start e).1
    rw [hread] at hframe
    exact .inr ⟨fun _ _ => rfl, hframe⟩
  | @consumeHeader header _ _ _ hcons =>
    have hframe := (consumeHeader_frame c.channel header).1
    rw [hcons] at hframe
    exact .inr ⟨fun _ _ => rfl, hframe⟩
  | _ => cases ha

theorem current_step (hc : Current c) (h : ShmIpcSteps.step c a = some c') : Current c' := by
  intro start hstart
  cases ShmIpcSteps.effect_of_step h with
  | readLoadRead _ =>
    cases hstart
    rfl
  | readEmpty _ _ => cases hstart
  | readLoadWrite _ _ => cases hstart
  | readHeader _ _ => cases hstart
  | consumeHeader hr _ _ =>
    rw [show c.reader = .loadedRead start from hstart] at hr
    cases hr
  | _ => exact hc start hstart

/-! ## What a step can do -/

inductive Effect (buffer : Nat) (s : State) : Action → State → Prop where
  | written {a : ShmIpcSteps.Action} {c : ShmIpcSteps.State} :
      ShmIpcSteps.step s.channel a = some c → ofWriter a = true → s.writer = .outside →
      Effect buffer s (.channel a) { s with channel := c, writer := afterWrite s.channel.writer a }
  | read {a : ShmIpcSteps.Action} {c : ShmIpcSteps.State} {next : Reader} :
      ShmIpcSteps.step s.channel a = some c → ofWriter a = false →
      s.reader.afterDrain = some next →
      Effect buffer s (.channel a) { s with channel := c, reader := afterRead s.reader next a c }
  | swap : s.writer = .published → s.channel.channel.mConsumerState = flagPolling →
      Effect buffer s .exchange { s with
      channel := setConsumerState s.channel (flagPolling ||| flagInterrupted)
      writer := .interrupting }
  | leave : s.writer = .published → s.channel.channel.mConsumerState ≠ flagPolling →
      Effect buffer s .exchange { s with writer := .outside }
  | send : s.writer = .interrupting → Effect buffer s .send { s with
      bytes := if s.bytes < buffer then s.bytes + 1 else s.bytes
      writer := .outside }
  | storePolling : s.reader = .storePolling → Effect buffer s .storePolling { s with
      storeBuffer := s.storeBuffer ++ [flagPolling]
      reader := .drainArmed }
  | storeIdle : s.reader = .storeIdle → Effect buffer s .storeIdle { s with
      storeBuffer := s.storeBuffer ++ [0]
      reader := .drainLast }
  | flush {state : UInt32} {states : List UInt32} : s.storeBuffer = state :: states →
      Effect buffer s .flush
      { s with channel := setConsumerState s.channel state, storeBuffer := states }
  | poll : s.reader = .polling →
      Effect buffer s .poll { s with reader := if 0 < s.bytes then .eventRead else .drainWoken }
  | interrupted : s.reader = .polling →
      Effect buffer s .interrupted { s with reader := .drainWoken, cutShort := s.cutShort + 1 }
  | eventRead : s.reader = .eventRead →
      Effect buffer s .eventRead { s with bytes := s.bytes - 1, reader := .drainWoken }

theorem effect_of_step {a : Action} (h : step buffer s a = some t) : Effect buffer s a t := by
  cases a with
  | channel a =>
    simp only [step] at h
    split at h
    · cases h
    · rename_i c hstep
      split at h
      · rename_i ha
        split at h
        · rename_i hw
          cases h
          exact .written hstep ha hw
        · cases h
      · rename_i ha
        split at h
        · rename_i next hnext
          cases h
          exact .read hstep (Bool.not_eq_true _ ▸ ha) hnext
        · cases h
  | exchange =>
    simp only [step] at h
    split at h
    · rename_i hw
      split at h
      · rename_i hstate
        cases h
        exact .swap hw hstate
      · rename_i hstate
        cases h
        exact .leave hw hstate
    · cases h
  | flush =>
    simp only [step] at h
    split at h
    · cases h
    · rename_i hpending
      cases h
      exact .flush hpending
  | send | storePolling | storeIdle | poll | interrupted | eventRead =>
    simp only [step] at h
    split at h
    · rename_i hplace
      cases h
      constructor
      exact hplace
    · cases h

/-! ## Every step is one of the doorbell -/

theorem doorbell_written {a : ShmIpcSteps.Action} (hstep : ShmIpcSteps.step s.channel a = some c)
    (ha : ofWriter a = true) (hw : s.writer = .outside) :
    ∃ l, l ≠ .drained ∧ Doorbell.Step offsets buffer (doorbell s) l
      (doorbell { s with channel := c, writer := afterWrite s.channel.writer a }) := by
  have hstate := congrArg word (consumerState_step hstep)
  have hringer : (doorbell s).ringer = .outside := by simp only [doorbell, hw]; rfl
  rcases offsets_written hstep ha with ⟨hafter, hpost⟩ | ⟨hafter, hquiet⟩
  · have hs : Doorbell.Step offsets buffer (doorbell s) .post _ := .post hringer hpost
    exact ⟨.post, by simp, by simpa only [doorbell, hafter, hstate, ringer] using hs⟩
  · have hs : Doorbell.Step offsets buffer (doorbell s) .quiet _ := .quiet hquiet
    exact ⟨.quiet, by simp, by simpa only [doorbell, hafter, hstate, hw] using hs⟩

theorem doorbell_read {a : ShmIpcSteps.Action} {next : Reader} (hc : Current s.channel)
    (hvis : Visible s (.channel a)) (hstep : ShmIpcSteps.step s.channel a = some c)
    (ha : ofWriter a = false) (hnext : s.reader.afterDrain = some next) :
    ∃ l, guarded Fenced (Doorbell.Step offsets buffer) (doorbell s) l
      (doorbell { s with channel := c, reader := afterRead s.reader next a c }) := by
  have hstate := congrArg word (consumerState_step hstep)
  have hdrain : (doorbell s).sleeper.afterDrain = some (sleeper next) := by
    simp only [doorbell, sleeper_afterDrain, hnext, Option.map_some]
  rcases offsets_read hc hstep ha with ⟨rfl, hidle, hquiet, hempty⟩ | ⟨hafter, htake⟩
  · have hs : Doorbell.Step offsets buffer (doorbell s) .drained _ := .drained hdrain hquiet hempty
    refine ⟨.drained, fun _ hsecond => ?_,
      by simpa only [doorbell, afterRead, hidle, hstate] using hs⟩
    have hpc : s.reader = .drainArmed := by
      simp only [doorbell] at hsecond
      cases hr : s.reader <;> rw [hr] at hsecond <;> first | rfl | cases hsecond
    simp only [doorbell, hvis rfl hpc, List.map_nil]
  · refine ⟨.take, fun hl => (by cases hl), ?_⟩
    have hs : Doorbell.Step offsets buffer (doorbell s) .take _ :=
      .take (Option.isSome_of_eq_some hdrain) htake
    simpa only [doorbell, hafter, hstate] using hs

theorem doorbell_step {a : Action} (hc : Current s.channel)
    (h : guarded Visible (ofFun (step buffer)) s a t) :
    ∃ l, guarded Fenced (Doorbell.Step offsets buffer) (doorbell s) l (doorbell t) := by
  obtain ⟨hvis, h⟩ := h
  have hfree (l : Doorbell.Label) (hl : l ≠ .drained)
      (hs : Doorbell.Step offsets buffer (doorbell s) l (doorbell t)) :
      ∃ l, guarded Fenced (Doorbell.Step offsets buffer) (doorbell s) l (doorbell t) :=
    ⟨l, fun h => absurd h hl, hs⟩
  cases effect_of_step h with
  | written hstep ha hw =>
    obtain ⟨l, hl, hs⟩ := doorbell_written hstep ha hw
    exact hfree l hl hs
  | read hstep ha hnext => exact doorbell_read hc hvis hstep ha hnext
  | swap hw hstate =>
    exact hfree .exchange (by simp)
      (.swap (by simp only [doorbell, hw]; rfl) (word_armed.mpr hstate))
  | leave hw hstate =>
    exact hfree .exchange (by simp)
      (.leave (by simp only [doorbell, hw]; rfl) fun ha => hstate (word_armed.mp ha))
  | send hw => exact hfree .ring (by simp) (.ring (by simp only [doorbell, hw]; rfl))
  | storePolling hr =>
    have hs : Doorbell.Step offsets buffer (doorbell s) .store _ :=
      .arm (by simp only [doorbell, hr]; rfl)
    refine hfree .store (by simp) ?_
    simpa only [doorbell, List.map_append, List.map_cons, List.map_nil,
      word_polling, sleeper] using hs
  | storeIdle hr =>
    have hs : Doorbell.Step offsets buffer (doorbell s) .store _ :=
      .disarm (by simp only [doorbell, hr]; rfl)
    refine hfree .store (by simp) ?_
    simpa only [doorbell, List.map_append, List.map_cons, List.map_nil, word_idle, sleeper] using hs
  | flush hpending =>
    exact hfree .flush (by simp) (.flush (by simp only [doorbell, hpending, List.map_cons]; rfl))
  | poll hr =>
    have hs : Doorbell.Step offsets buffer (doorbell s) .wait _ :=
      .wait (by simp only [doorbell, hr]; rfl)
    have hnext : sleeper (if 0 < s.bytes then .eventRead else .drainWoken) =
        if 0 < s.bytes then .answer else .woken := by
      split <;> rfl
    refine hfree .wait (by simp) ?_
    simp only [doorbell, hnext] at hs ⊢
    exact hs
  | interrupted hr => exact hfree .miss (by simp) (.miss (by simp only [doorbell, hr]; rfl))
  | eventRead hr => exact hfree .answer (by simp) (.answer (by simp only [doorbell, hr]; rfl))

/-! ## Every run -/

structure Inv (s : State) : Prop where
  current : Current s.channel
  kept : Kept offsets (doorbell s)

theorem inv_opened {size : UInt32} (h : Opened size s) : Inv s := by
  obtain ⟨⟨⟨self, raw, hc⟩, _, hr, _⟩, hbuffer, hbytes, hreader, hwriter⟩ := h
  refine ⟨fun start hs => ?_, Doorbell.kept_initial ⟨?_, ?_, hbytes, ?_, ?_⟩⟩
  · rw [hr] at hs
    cases hs
  · have hstate : s.channel.channel.mConsumerState = 0 := by
      unfold channelInitialize at hc
      repeat' split at hc
      · cases hc
      · cases hc
      · cases hc
      · exact (congrArg Channel.mConsumerState (Prod.mk.inj hc).2).symm
    simp only [doorbell, hstate, word_idle]
  · simp only [doorbell, hbuffer, List.map_nil]
  · simp only [doorbell, hreader]
    rfl
  · simp only [doorbell, hwriter]
    rfl

theorem current_kept {a : Action} (hc : Current s.channel) (h : step buffer s a = some t) :
    Current t.channel := by
  cases effect_of_step h with
  | written hstep _ _ => exact current_step hc hstep
  | read hstep _ _ => exact current_step hc hstep
  | _ => exact hc

theorem inv_step {a : Action} (hbuffer : 0 < buffer) (hi : Inv s)
    (h : guarded Visible (ofFun (step buffer)) s a t) : Inv t := by
  obtain ⟨l, hl⟩ := doorbell_step hi.current h
  exact ⟨current_kept hi.current h.2, Doorbell.kept_step hbuffer hi.kept hl⟩

/-- What a reader that goes to poll may rely on. -/
structure Attended (s : State) : Prop where
  /-- If nobody is about to send an interrupt and none is waiting, there is nothing to read. -/
  asleep : s.reader = .polling → s.bytes = 0 → s.writer = .outside →
    s.channel.channel.mReadOffset = s.channel.channel.mWriteOffset
  /-- Interrupts do not pile up, and a send finds room. -/
  waiting : s.bytes ≤ 3 + s.cutShort
  sending : s.writer = .interrupting → s.bytes ≤ 2 + s.cutShort

instance (s : State) : ∀ a, Decidable (Visible s a)
  | .channel .readLoadWrite => decidable_of_iff (s.reader = .drainArmed → s.storeBuffer = [])
      (by simp [Visible])
  | .channel (.writeLoadRead ..) | .channel .writeLoadWrite | .channel (.writeStore _) =>
    .isTrue fun h => by cases h
  | .channel .writeFinish | .channel .readLoadRead | .channel .readHeader => .isTrue fun h => by
      cases h
  | .channel .consumeHeader | .exchange | .send | .storePolling | .storeIdle => .isTrue fun h => by
      cases h
  | .flush | .poll | .interrupted | .eventRead => .isTrue fun h => by cases h

def idle : State := ⟨ShmIpcSteps.idlePage, [], 0, .drainFirst, .outside, 0⟩

theorem idle_opened : Opened 4096 idle := ⟨ShmIpcSteps.idlePage_opened, rfl, rfl, rfl, rfl⟩

def drain : List Action := [.channel .readLoadRead, .channel .readLoadWrite]

def write : List Action := (ShmIpcSteps.writeSteps 7 3 [4, 4, 3]).map .channel ++ [.exchange]

/-- A record wakes the polling reader, who reads it and goes to poll again. -/
def answered : List Action :=
  drain ++ [.storePolling, .flush] ++ drain ++ write ++ [.send, .poll, .eventRead] ++
    ShmIpcSteps.readSteps.map .channel ++ [.channel .consumeHeader] ++ drain ++
    [.storeIdle, .flush] ++ drain ++ drain ++ [.storePolling, .flush] ++ drain

/-- The reader loads `m_write_offset` while its store of `flag_polling` is still on the way: the
writer does not find it, and the reader polls in front of a record. -/
theorem release_store_not_enough :
    ∃ s, Run (ofFun (step 1)) idle (drain ++ [.storePolling] ++ drain ++ write ++ [.flush]) s ∧
      s.storeBuffer = [] ∧ ¬ Attended s := by
  have heval : (runFun (step 1) (drain ++ [.storePolling] ++ drain ++ write ++ [.flush]) idle).map
      (fun s => (s.storeBuffer, s.reader, s.bytes, s.writer, s.channel.channel.mReadOffset,
        s.channel.channel.mWriteOffset)) = some ([], .polling, 0, .outside, 0, 64) := by
        decide +kernel
  obtain ⟨s, hs, hend⟩ := Option.map_eq_some_iff.mp heval
  simp only [Prod.mk.injEq] at hend
  obtain ⟨hbuffer, hreader, hbytes, hwriter, hread, hwrite⟩ := hend
  refine ⟨s, run_of_runFun hs, hbuffer, fun ha => ?_⟩
  have heq := ha.asleep hreader hbytes hwriter
  rw [hread, hwrite] at heq
  exact absurd heq (by decide)

end ShmIpcWakeupChannel
