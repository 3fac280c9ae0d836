import ShmIpc.LabelledRun
import ShmIpc.Router

/-!
# The wakeup handshake

One direction of a router pair, cut into its atomic steps. The reader drains the
channel before and after it announces in `consumer_state` that it is going to
poll; the writer publishes first and looks at `consumer_state` afterwards. The
wakeup bytes of the socket pair are counted.
-/
namespace ShmIpcWakeup

open LabelledRun ShmIpcPlacement ShmIpcRouter
open ShmIpcChannel hiding write

/-- Where the reader stands in its loop: `process_reads_pre_polling`, `do_poll` with
`WakeupFd::event_read`, and `process_reads_post_polling`. -/
inductive Reader where
  | drainFirst | storePolling | drainArmed | polling
  | eventRead | drainWoken | storeIdle | drainLast
  deriving DecidableEq

/-- Where the writer stands in `Router::write`. A send remembers the store of `flag_polling`,
counted from one, that its compare-exchange has met. -/
inductive Writer where
  | outside : Writer
  | published : Writer
  | interrupting (armed : Nat) : Writer
  deriving DecidableEq

/-- `bytes` are pending on the socket pair, `armed` counts the stores of `flag_polling` so far, and
`sent` lists the one each byte was sent for. -/
structure State where
  channel : Fifo
  bytes : Nat
  reader : Reader
  writer : Writer
  armed : Nat
  sent : List Nat

inductive Action where
  | publish (x : Record) : Action
  | exchange : Action
  | send : Action
  | sendFull : Action
  | consume : Action
  | drained : Action
  | storePolling : Action
  | wake : Action
  | timeout : Action
  | eventRead : Action
  | storeIdle : Action

/-- The reader's next position once a drain has found the channel empty. -/
def Reader.afterDrain : Reader → Option Reader
  | .drainFirst => some .storePolling
  | .drainArmed => some .polling
  | .drainWoken => some .storeIdle
  | .drainLast => some .drainFirst
  | _ => none

def setState (c : Fifo) (s : UInt32) : Fifo := { c with consumerState := s }

def step (s : State) : Action → Option State
  | .publish x =>
    if s.writer = .outside then
      some { s with channel := { s.channel with
        records := s.channel.records ++ [x] }, writer := .published }
    else none
  | .exchange =>
    if s.writer = .published then
      if s.channel.consumerState = flagPolling then some { s with
        channel := setState s.channel (flagPolling ||| flagInterrupted)
        writer := .interrupting s.armed }
      else some { s with writer := .outside }
    else none
  | .send =>
    match s.writer with
    | .interrupting n =>
      some { s with bytes := s.bytes + 1, writer := .outside, sent := s.sent ++ [n] }
    | _ => none
  | .sendFull =>
    -- the socket buffer is full of unread bytes: `send_interrupt` gives up on EAGAIN
    match s.writer with
    | .interrupting _ => if 0 < s.bytes then some { s with writer := .outside } else none
    | _ => none
  | .consume =>
    if s.reader.afterDrain.isSome ∧
      s.channel.records ≠ [] then some { s with channel := s.channel.rest } else none
  | .drained =>
    match s.reader.afterDrain with
    | some pc => if s.channel.records = [] then some { s with reader := pc } else none
    | none => none
  | .storePolling =>
    if s.reader = .storePolling then some { s with
      channel := setState s.channel flagPolling
      reader := .drainArmed
      armed := s.armed + 1 }
    else none
  | .wake => if s.reader = .polling ∧ 0 < s.bytes then some { s with reader := .eventRead }
      else none
  | .timeout => if s.reader = .polling then some { s with reader := .drainWoken } else none
  | .eventRead =>
    if s.reader = .eventRead then some { s with bytes := s.bytes - 1, reader := .drainWoken }
      else none
  | .storeIdle =>
    if s.reader = .storeIdle then
      some { s with channel := setState s.channel 0, reader := .drainLast }
    else none

def initial : State := ⟨Fifo.empty, 0, .drainFirst, .outside, 0, []⟩

/-! ## The functions of the router are runs of these steps -/

variable {φ : Type} {s t : State} {r r' : Router Fifo φ}

/-- An undisturbed `Router::write` publishes, tries the exchange and sends if that succeeds. -/
theorem run_write {id size : UInt32} {data : Option (Nat → UInt8)} {res : WriteResult}
    (hch : r.writeChannel = s.channel) (hw : s.writer = .outside)
    (h : write r id size data = (.ok res, r')) (hres : 0 ≤ res.1) :
    ∃ as t, runFun step as s = some t ∧ t.channel = r'.writeChannel ∧
      t.bytes + r.interrupts = s.bytes + r'.interrupts ∧ t.reader = s.reader ∧
      t.writer = .outside := by
  simp only [write] at h
  split at h
  · cases h
  · split at h
    · cases h
    · rename_i result err c hwrite
      obtain ⟨payload, rfl⟩ := fifoWrite_ok hwrite
      split at h
      · rename_i hneg
        cases h
        exact absurd hneg (Int.not_lt.mpr hres)
      · cases h
        rw [hch, Router.interruptReader]
        by_cases hc : s.channel.consumerState = flagPolling
        · refine ⟨[.publish ⟨id, payload⟩, .exchange, .send], _, by
            simp only [runFun, step, hw, hc, ↓reduceIte, Option.bind_some]; rfl, ?_⟩
          rw [if_pos (show ChannelOps.consumerState _ = flagPolling from hc)]
          exact ⟨rfl, by dsimp only; omega, rfl, rfl⟩
        · refine ⟨[.publish ⟨id, payload⟩, .exchange], _, by
            simp only [runFun, step, hw, hc, ↓reduceIte, Option.bind_some]; rfl, ?_⟩
          rw [if_neg (show ¬ ChannelOps.consumerState _ = flagPolling from hc)]
          exact ⟨rfl, rfl, rfl, rfl⟩

/-- A round of `process_reads` that goes on has taken the front record away. -/
theorem round_queue {b : Bool} (h : processRead r = (.ok b, r')) :
    (b = false ∧ r.readChannel.records = [] ∧ r' = r) ∨
    (b = true ∧ r.readChannel.records ≠ [] ∧ r'.readChannel = r.readChannel.rest) := by
  cases hrec : r.readChannel.records with
  | nil =>
    rw [processRead_nil hrec] at h
    cases h
    exact .inl ⟨rfl, rfl, rfl⟩
  | cons x xs =>
    have hround := processRead_cons hrec
    rw [h] at hround
    cases hround
    exact .inr ⟨rfl, by simp, rfl⟩

/-- An undisturbed `process_reads` consumes until the channel is empty. -/
theorem run_processReads {n : Nat} (pc : Reader) (hch : r.readChannel = s.channel)
    (hpc : s.reader.afterDrain = some pc) (h : processReads n r = (some (.ok ()), r')) :
    ∃ as, runFun step as s = some { s with channel := r'.readChannel, reader := pc } := by
  induction n generalizing r s with
  | zero => cases h
  | succ n ih =>
    rw [processReads] at h
    obtain ⟨res, r₁, hround⟩ : ∃ res r₁, processRead r = (res, r₁) := ⟨_, _, rfl⟩
    rw [hround] at h
    cases res with
    | error msg => cases h
    | ok b =>
      rcases round_queue hround with ⟨rfl, hnil, rfl⟩ | ⟨rfl, hne, hrest⟩
      · cases h
        refine ⟨[.drained], ?_⟩
        rw [hch] at hnil
        simp only [runFun, step, hpc, hnil, hch, ↓reduceIte, Option.bind_some]
      · obtain ⟨as, has⟩ := ih (s := { s with channel := s.channel.rest })
          (by rw [hrest, hch]) hpc h
        refine ⟨.consume :: as, ?_⟩
        rw [hch] at hne
        simp only [runFun, step, hpc, Option.isSome_some, ne_eq, hne,
          not_false_eq_true, and_self, ↓reduceIte, Option.bind_some]
        exact has

/-- The two drains around a store of `consumer_state`. -/
theorem processReadsAround_ok {state : UInt32} {n : Nat}
    (h : processReadsAround state n r = (some (.ok ()), r')) :
    ∃ r₁, processReads n r = (some (.ok ()), r₁) ∧
      processReads n { r₁ with readChannel := setState r₁.readChannel state } =
      (some (.ok ()), r') := by
  unfold processReadsAround at h
  split at h
  · exact ⟨_, by assumption, h⟩
  · rename_i stop
    exact absurd h (stop _)

/-- `process_reads_pre_polling` takes the reader from the top of its loop to the poll. -/
theorem run_prePolling {n : Nat} (hch : r.readChannel = s.channel) (hpc : s.reader = .drainFirst)
    (h : processReadsPrePolling n r = (some (.ok ()), r')) :
    ∃ as, runFun step as s = some { s with
      channel := r'.readChannel
      reader := .polling
      armed := s.armed + 1 } := by
  obtain ⟨r₁, hfirst, hsecond⟩ := processReadsAround_ok h
  obtain ⟨as, has⟩ := run_processReads (s := s) .storePolling hch (by rw [hpc]; rfl) hfirst
  obtain ⟨bs, hbs⟩ := run_processReads .polling
    (s := ⟨setState r₁.readChannel flagPolling, s.bytes, .drainArmed,
      s.writer, s.armed + 1, s.sent⟩)
    rfl rfl hsecond
  refine ⟨as ++ ([.storePolling] ++ bs), ?_⟩
  rw [runFun_append, has, Option.bind_some, runFun_append]
  exact hbs

/-- `process_reads_post_polling` takes the reader from the poll to the top of its loop. -/
theorem run_postPolling {n : Nat} (hch : r.readChannel = s.channel) (hpc : s.reader = .drainWoken)
    (h : processReadsPostPolling n r = (some (.ok ()), r')) :
    ∃ as, runFun step as s = some { s with channel := r'.readChannel, reader := .drainFirst } := by
  obtain ⟨r₁, hfirst, hsecond⟩ := processReadsAround_ok h
  obtain ⟨as, has⟩ := run_processReads (s := s) .storeIdle hch (by rw [hpc]; rfl) hfirst
  obtain ⟨bs, hbs⟩ := run_processReads .drainFirst
    (s := ⟨setState r₁.readChannel 0, s.bytes, .drainLast, s.writer, s.armed, s.sent⟩)
    rfl rfl hsecond
  refine ⟨as ++ ([.storeIdle] ++ bs), ?_⟩
  rw [runFun_append, has, Option.bind_some, runFun_append]
  exact hbs

/-! ## What a step can do -/

inductive Effect (s : State) : Action → State → Prop where
  | publish (x : Record) : s.writer = .outside → Effect s (.publish x)
      { s with channel := { s.channel with
        records := s.channel.records ++ [x] }, writer := .published }
  | interrupt : s.writer = .published → s.channel.consumerState = flagPolling → Effect s .exchange
      { s with channel := setState s.channel (flagPolling |||
        flagInterrupted), writer := .interrupting s.armed }
  | leave : s.writer = .published → s.channel.consumerState ≠ flagPolling →
      Effect s .exchange { s with writer := .outside }
  | send {n : Nat} : s.writer = .interrupting n → Effect s .send
      { s with bytes := s.bytes + 1, writer := .outside, sent := s.sent ++ [n] }
  | sendFull {n : Nat} : s.writer = .interrupting n → 0 < s.bytes → Effect s .sendFull
      { s with writer := .outside }
  | consume : s.reader.afterDrain.isSome → s.channel.records ≠ [] →
      Effect s .consume { s with channel := s.channel.rest }
  | drained {pc : Reader} : s.reader.afterDrain = some pc → s.channel.records = [] →
      Effect s .drained { s with reader := pc }
  | storePolling : s.reader = .storePolling → Effect s .storePolling
      { s with
      channel := setState s.channel flagPolling, reader := .drainArmed, armed := s.armed + 1 }
  | wake : s.reader = .polling → 0 < s.bytes → Effect s .wake { s with reader := .eventRead }
  | timeout : s.reader = .polling → Effect s .timeout { s with reader := .drainWoken }
  | eventRead : s.reader = .eventRead → Effect s .eventRead
      { s with bytes := s.bytes - 1, reader := .drainWoken }
  | storeIdle : s.reader = .storeIdle → Effect s .storeIdle
      { s with channel := setState s.channel 0, reader := .drainLast }

theorem effect_of_step {a : Action} (h : step s a = some t) : Effect s a t := by
  cases a with
  | publish x =>
    simp only [step] at h
    split at h
    · rename_i hw
      cases h
      exact .publish x hw
    · cases h
  | exchange =>
    simp only [step] at h
    split at h
    · rename_i hw
      split at h
      · rename_i hc
        cases h
        exact .interrupt hw hc
      · rename_i hc
        cases h
        exact .leave hw hc
    · cases h
  | send =>
    simp only [step] at h
    split at h
    · rename_i n hw
      cases h
      exact .send hw
    · cases h
  | sendFull =>
    simp only [step] at h
    split at h
    · rename_i n hw
      split at h
      · rename_i hb
        cases h
        exact .sendFull hw hb
      · cases h
    · cases h
  | consume =>
    simp only [step] at h
    split at h
    · rename_i hd
      cases h
      exact .consume hd.1 hd.2
    · cases h
  | drained =>
    simp only [step] at h
    split at h
    · rename_i pc hd
      split at h
      · rename_i hnil
        cases h
        exact .drained hd hnil
      · cases h
    · cases h
  | storePolling =>
    simp only [step] at h
    split at h
    · rename_i hr
      cases h
      exact .storePolling hr
    · cases h
  | wake =>
    simp only [step] at h
    split at h
    · rename_i hw
      cases h
      exact .wake hw.1 hw.2
    · cases h
  | timeout =>
    simp only [step] at h
    split at h
    · rename_i hr
      cases h
      exact .timeout hr
    · cases h
  | eventRead =>
    simp only [step] at h
    split at h
    · rename_i hr
      cases h
      exact .eventRead hr
    · cases h
  | storeIdle =>
    simp only [step] at h
    split at h
    · rename_i hr
      cases h
      exact .storeIdle hr
    · cases h

/-! ## The invariant -/

/-- The reader has announced that it polls and not yet taken it back. -/
def Reader.Armed (pc : Reader) : Prop :=
  pc = .drainArmed ∨ pc = .polling ∨ pc = .eventRead ∨ pc = .drainWoken ∨ pc = .storeIdle

structure Awake (s : State) : Prop where
  idle : ¬ s.reader.Armed → s.channel.consumerState = 0
  armed : s.reader.Armed →
    s.channel.consumerState = flagPolling ∨
    s.channel.consumerState = flagPolling ||| flagInterrupted
  /-- An interrupted reader has a byte to read, or is about to get one. -/
  interrupted : s.reader = .drainArmed ∨ s.reader = .polling →
    s.channel.consumerState = flagPolling ||| flagInterrupted →
    0 < s.bytes ∨ ∃ n, s.writer = .interrupting n
  /-- A record that the polling reader has not seen is still going to be announced. -/
  announced : s.reader = .polling → s.channel.records ≠ [] → s.channel.consumerState = flagPolling →
    s.writer = .published

/-- Every byte is sent for a store of its own. -/
structure Paid (s : State) : Prop where
  once : s.sent.Nodup
  counted : ∀ n ∈ s.sent, 1 ≤ n ∧ n ≤ s.armed
  sending : ∀ n, s.writer = .interrupting n → n ∉ s.sent ∧ 1 ≤ n ∧ n ≤ s.armed
  fresh : s.channel.consumerState = flagPolling →
    1 ≤ s.armed ∧ s.armed ∉ s.sent ∧ s.writer ≠ .interrupting s.armed

theorem idle_ne_polling : (0 : UInt32) ≠ flagPolling := by decide
theorem interrupted_ne_polling : flagPolling ||| flagInterrupted ≠ flagPolling := by decide

theorem awake_initial : Awake initial :=
  ⟨fun _ => rfl, by simp [initial, Reader.Armed], by simp [initial], by simp [initial]⟩

theorem paid_initial : Paid initial :=
  ⟨List.nodup_nil, by simp [initial], by simp [initial], fun h => absurd h idle_ne_polling⟩

/-- A drain does not change whether the reader is armed, and only an armed reader goes to poll. -/
theorem afterDrain_armed {pc pc' : Reader} (h : pc.afterDrain = some pc') :
    (pc'.Armed ↔ pc.Armed) ∧ pc' ≠ .drainArmed ∧ (pc' = .polling → pc = .drainArmed) := by
  cases pc <;> simp only [Reader.afterDrain, Option.some.injEq, reduceCtorEq] at h <;> subst h <;>
    simp [Reader.Armed]

theorem awake_step {a : Action} (hi : Awake s) (h : step s a = some t) : Awake t := by
  cases effect_of_step h with
  | publish x hw =>
    refine ⟨hi.idle, hi.armed, ?_, fun _ _ _ => rfl⟩
    intro hr hc
    rcases hi.interrupted hr hc with hb | ⟨n, hn⟩
    · exact .inl hb
    · rw [hw] at hn
      cases hn
  | interrupt hw hc =>
    refine ⟨?_, fun _ => .inr rfl, fun _ _ => .inr ⟨_, rfl⟩, fun _ _ hc' =>
      absurd hc' interrupted_ne_polling⟩
    intro hr
    rw [hi.idle hr] at hc
    exact absurd hc idle_ne_polling
  | leave hw hc =>
    refine ⟨hi.idle, hi.armed, ?_, fun _ _ hc' => absurd hc' hc⟩
    intro hr hc'
    rcases hi.interrupted hr hc' with hb | ⟨n, hn⟩
    · exact .inl hb
    · rw [hw] at hn
      cases hn
  | send hw =>
    refine ⟨hi.idle, hi.armed, fun _ _ => .inl (Nat.succ_pos _), ?_⟩
    intro hr hne hc
    rw [hi.announced hr hne hc] at hw
    cases hw
  | sendFull hw hb =>
    refine ⟨hi.idle, hi.armed, fun _ _ => .inl hb, ?_⟩
    intro hr hne hc
    rw [hi.announced hr hne hc] at hw
    cases hw
  | consume hd _ =>
    refine ⟨hi.idle, hi.armed, hi.interrupted, ?_⟩
    intro hr _ _
    have hr' : s.reader = .polling := hr
    rw [hr'] at hd
    exact absurd hd (by decide)
  | drained hd hnil =>
    obtain ⟨harmed, hna, hpoll⟩ := afterDrain_armed hd
    refine ⟨fun hr => hi.idle (fun ha => hr (harmed.mpr ha)), fun hr => hi.armed (harmed.mp hr), ?_,
      fun _ hne _ => absurd hnil hne⟩
    intro hr hc
    exact hi.interrupted (.inl (hpoll (hr.resolve_left hna))) hc
  | storePolling _ =>
    exact ⟨by simp [Reader.Armed], fun _ => .inl rfl, fun _ hc =>
      absurd hc interrupted_ne_polling.symm, by simp⟩
  | wake hr _ =>
    exact ⟨by simp [Reader.Armed], fun _ => hi.armed (by simp [Reader.Armed, hr]), by simp, by simp⟩
  | timeout hr =>
    exact ⟨by simp [Reader.Armed], fun _ => hi.armed (by simp [Reader.Armed, hr]), by simp, by simp⟩
  | eventRead hr =>
    exact ⟨by simp [Reader.Armed], fun _ => hi.armed (by simp [Reader.Armed, hr]), by simp, by simp⟩
  | storeIdle _ => exact ⟨fun _ => rfl, by simp [Reader.Armed], by simp, by simp⟩

/-- Steps that touch neither the counters nor `consumer_state` nor a send. -/
theorem paid_frame (hi : Paid s) (hc : t.channel.consumerState = s.channel.consumerState)
    (ha : t.armed = s.armed) (hs : t.sent = s.sent)
    (hw : ∀ n, t.writer = .interrupting n → s.writer = .interrupting n) : Paid t := by
  refine ⟨hs ▸ hi.once, ?_, ?_, ?_⟩
  · rw [hs, ha]
    exact hi.counted
  · intro n hn
    rw [hs, ha]
    exact hi.sending n (hw n hn)
  · rw [hc, hs, ha]
    intro hp
    obtain ⟨hpos, hnot, hne⟩ := hi.fresh hp
    exact ⟨hpos, hnot, fun hn => hne (hw _ hn)⟩

theorem paid_step {a : Action} (hi : Paid s) (h : step s a = some t) : Paid t := by
  cases effect_of_step h with
  | publish x _ => exact paid_frame hi rfl rfl rfl (by simp)
  | interrupt _ hc =>
    obtain ⟨hpos, hnot, _⟩ := hi.fresh hc
    refine ⟨hi.once, hi.counted, ?_, fun hc' => absurd hc' interrupted_ne_polling⟩
    intro n hn
    obtain rfl : s.armed = n := by simpa using hn
    exact ⟨hnot, hpos, Nat.le_refl _⟩
  | leave _ _ => exact paid_frame hi rfl rfl rfl (by simp)
  | send hw =>
    rename_i n
    obtain ⟨hnot, hpos, hle⟩ := hi.sending n hw
    refine ⟨?_, ?_, by simp, ?_⟩
    · refine List.nodup_append.mpr ⟨hi.once, by simp, ?_⟩
      intro k hk m hm he
      rw [List.mem_singleton.mp hm] at he
      exact hnot (he ▸ hk)
    · intro k hk
      rcases List.mem_append.mp hk with hk | hk
      · exact hi.counted k hk
      · rw [List.mem_singleton.mp hk]
        exact ⟨hpos, hle⟩
    · intro hc
      obtain ⟨hpos', hnot', hne⟩ := hi.fresh hc
      refine ⟨hpos', ?_, by simp⟩
      intro hm
      rcases List.mem_append.mp hm with hm | hm
      · exact hnot' hm
      · exact hne (by rw [hw, List.mem_singleton.mp hm])
  | sendFull _ _ => exact paid_frame hi rfl rfl rfl (by simp)
  | consume _ _ => exact paid_frame hi rfl rfl rfl fun _ => id
  | drained _ _ => exact paid_frame hi rfl rfl rfl fun _ => id
  | storePolling _ =>
    refine ⟨hi.once, ?_, ?_, ?_⟩
    · intro n hn
      have := hi.counted n hn
      exact ⟨this.1, Nat.le_succ_of_le this.2⟩
    · intro n hn
      obtain ⟨hnot, hpos, hle⟩ := hi.sending n hn
      exact ⟨hnot, hpos, Nat.le_succ_of_le hle⟩
    · intro _
      refine ⟨Nat.succ_pos _, ?_, ?_⟩
      · intro hm
        have hle : s.armed + 1 ≤ s.armed := (hi.counted _ hm).2
        omega
      · intro hn
        have hle : s.armed + 1 ≤ s.armed := (hi.sending _ hn).2.2
        omega
  | wake _ _ => exact paid_frame hi rfl rfl rfl fun _ => id
  | timeout _ => exact paid_frame hi rfl rfl rfl fun _ => id
  | eventRead _ => exact paid_frame hi rfl rfl rfl fun _ => id
  | storeIdle _ => exact ⟨hi.once, hi.counted, hi.sending, fun hc => absurd hc idle_ne_polling⟩

/-! ## No lost wakeup -/

/-- The reader sleeps on an unread record, and nobody is going to wake it. -/
def Stuck (s : State) : Prop :=
  s.reader = .polling ∧ s.bytes = 0 ∧ s.channel.records ≠ [] ∧ s.writer = .outside

theorem not_stuck (hi : Awake s) : ¬ Stuck s := by
  rintro ⟨hr, hb, hne, hw⟩
  rcases hi.armed (by simp [Reader.Armed, hr]) with hc | hc
  · have := hi.announced hr hne hc
    rw [hw] at this
    cases this
  · rcases hi.interrupted (.inr hr) hc with hpos | ⟨n, hn⟩
    · omega
    · rw [hw] at hn
      cases hn

/-- In every interleaving of the reader's loop with any number of writes, the reader does not
sleep on an unread record once the writer is done, and at most one byte is sent for
each store of `flag_polling`. -/
theorem no_lost_wakeup {as : List Action} (h : Run (ofFun step) initial as s) :
    ¬ Stuck s ∧ s.sent.Nodup ∧ ∀ n ∈ s.sent, 1 ≤ n ∧ n ≤ s.armed := by
  obtain ⟨ha, hp⟩ := h.invariant (fun s => Awake s ∧ Paid s) ⟨awake_initial, paid_initial⟩
    fun _ _ _ hi hs => ⟨awake_step hi.1 hs, paid_step hi.2 hs⟩
  exact ⟨not_stuck ha, hp.once, hp.counted⟩

/-- The reader goes to sleep, and a write wakes it with one byte. -/
theorem no_lost_wakeup_one_record :
    ∃ s, Run (ofFun step) initial [.drained, .storePolling, .drained,
      .publish ⟨1, [7]⟩, .exchange, .send] s ∧ s.reader = .polling ∧ s.sent = [1] ∧ ¬ Stuck s ∧
      s.sent.Nodup := by
  obtain ⟨s, hs, hpc, hsent⟩ : ∃ s, runFun step
      [.drained, .storePolling, .drained, .publish ⟨1, [7]⟩, .exchange, .send] initial = some s ∧
      s.reader = .polling ∧ s.sent = [1] := ⟨_, rfl, rfl, rfl⟩
  have h := no_lost_wakeup (run_of_runFun hs)
  exact ⟨s, run_of_runFun hs, hpc, hsent, h.1, h.2.1⟩

end ShmIpcWakeup
