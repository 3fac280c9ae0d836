import ShmIpc.RouterStreams

/-!
# When the channels of two routers deliver

Of the delivery that the streams rest on nothing has to be assumed. The two
channels of a pair of routers deliver in order and exactly once up to the first
round that frees the last record of the buffer behind which nothing follows, and
that round is where they stop to deliver.
-/
namespace ShmIpcRouterDelivers

open Handshake (Side eq_or_other other_other)
open ShmIpcFifo (Queued queued_step)
open ShmIpcSession hiding step
open LabelledRun ShmIpcChannel ShmIpcPlacement ShmIpcRing ShmIpcRouter ShmIpcRouterStreams

variable {φ : Type} {s t : Streams φ} {a : Side}

/-! ## One direction -/

/-- The channel is a session whose unread records are the published ones that have not been
consumed. -/
def Lined (u : Session) : Prop := ∃ unread past, Inv u unread past ∧ Queued u unread

/-- `consumer_state` is no business of the records. -/
theorem lined_setState {u : Session} (hu : Lined u) (state : UInt32) :
    Lined { u with channel := { u.channel with mConsumerState := state } } := by
  obtain ⟨unread, past, hi, hq⟩ := hu
  exact ⟨unread, past, ⟨⟨hi.formed.sized, hi.formed.ring, hi.formed.lap⟩, hi.small, hi.held⟩, hq⟩

/-- What such a session hands out is the next record. -/
theorem handsOut_of_lined {u : Session} (hu : Lined u) :
    HandsOut u.published u.consumed u.channel.mAddr (readHeader u.channel).1 := by
  obtain ⟨unread, past, hi, hq⟩ := hu
  have hread := readHeader_spec hi.formed
  rw [hread]
  have hq' : u.published = u.consumed ++ unread.map Slot.record := hq
  by_cases heq : u.channel.mReadOffset = u.channel.mWriteOffset
  · have hnil : unread = [] := (ring_nil_iff hi.formed.ring).mpr (congrArg _ heq)
    simp only [if_pos heq, HandsOut, hq', hnil, List.map_nil, List.append_nil]
  · obtain ⟨x, b, rest, hstep, _, _, hun, _⟩ := consume_ring hi.formed.ring
      (fun he => heq (UInt32.toNat_inj.mp he))
    simp only [if_neg heq, HandsOut, hq', hun, recordAt_of_step hstep, List.map_cons]
    rw [List.getElem?_append_right (Nat.le_refl _), Nat.sub_self]
    rfl

/-- Once everything has been consumed nothing may be handed out, but a buffer emptied at its end
hands out a record of the lap. -/
theorem not_handsOut_of_emptied {u v : Session} (hu : Lined u) (he : EmptiesAtEnd u)
    (h : ShmIpcSession.step u .consumeHeader = some v) :
    ¬ HandsOut v.published v.consumed v.channel.mAddr (readHeader v.channel).1 := by
  obtain ⟨unread, past, hi, hq⟩ := hu
  obtain ⟨x, rest, rfl, hpub, hcon, _, _, _, hover⟩ := consumeHeader_step hi h
  obtain ⟨hi', rfl⟩ := hover he
  have hall : v.published = v.consumed := by
    rw [hpub, hcon]
    exact hq
  have hne : v.channel.mReadOffset ≠ v.channel.mWriteOffset := ne_of_unread hi'.formed (by simp)
  rw [readHeader_spec hi'.formed, if_neg hne]
  simp [HandsOut, hall]

/-! ## Both directions -/

/-- No round frees the last record of a buffer while the write offset is at the end, and the id of
every record is registered by then. -/
def Tidy (s : Streams φ) : Act φ → Prop
  | .beginRound a => Registered s a
  | .endRound a => ¬ EmptiesAtEnd (lane s a.other).session
  | _ => True

structure Delivering (s : Streams φ) : Prop where
  sound : Sound s
  lined : ∀ a, Lined (lane s a).session

theorem delivers_of_lined (hs : Sound s) (hl : Lined (lane s a.other).session) : Delivers s a := by
  have hj := (hs.flow a.other).joined
  simp only [lane, other_other] at hj
  have h := handsOut_of_lined hl
  simp only [lane, Lane.session, other_other] at h
  rw [Delivers, hj]
  exact h

/-- An act that leaves the channels and the records alone. -/
theorem lined_same (hd : Delivering s) {r : Router Channel φ}
    (hread : r.readChannel = (s.routers a).readChannel)
    (hwrite : r.writeChannel = (s.routers a).writeChannel) (b : Side) :
    Lined (lane (s.put a r) b).session := by
  have hl := hd.lined b
  rcases eq_or_other a b with rfl | rfl
  · simpa [lane, Lane.session, Streams.put, hwrite] using hl
  · have hj := (hd.sound.flow a.other).joined
    simp only [lane, other_other] at hj
    simpa [lane, Lane.session, Streams.put, hread, hj] using hl

/-- A write that has been accepted is one of the channel. -/
theorem write_channel {r r' : Router Channel φ} {id size : UInt32}
    {data : Option (Nat → UInt8)} {n : Int}
    (h : ShmIpcRouter.write r id size data = (.ok (n, none), r')) :
      ∃ d c state, data = some d ∧ ShmIpcChannel.write r.writeChannel id size
      (some d) = (.ok (n, none), c) ∧ r'.writeChannel = { c with mConsumerState := state } := by
  unfold ShmIpcRouter.write at h
  split at h
  · cases h
  cases data with
  | none =>
    have hops : ∃ msg, ChannelOps.write r.writeChannel id size none =
        (.error msg, r.writeChannel) := by
      by_cases hid : id = 0
      · exact ⟨_, by subst hid; rfl⟩
      · exact ⟨_, by simp only [ChannelOps.write, ShmIpcChannel.write, hid, ↓reduceIte]; rfl⟩
    obtain ⟨msg, hops⟩ := hops
    rw [hops] at h
    cases h
  | some d =>
    rcases hw : ShmIpcChannel.write r.writeChannel id size (some d) with ⟨res, c⟩
    have hops : ChannelOps.write r.writeChannel id size (some d) = (res, c) := hw
    rw [hops] at h
    cases res with
    | error msg => cases h
    | ok result =>
      obtain ⟨m, err⟩ := result
      dsimp only at h
      split at h
      · cases h
        exact ⟨d, c, c.mConsumerState, rfl, hw, rfl⟩
      · obtain ⟨state, k, hint⟩ := interruptReader_channel { r with writeChannel := c }
        rw [hint] at h
        cases h
        exact ⟨d, c, state, rfl, hw, rfl⟩

theorem lined_write (hd : Delivering s) {id size : UInt32} {data : Option (Nat → UInt8)}
    (h : step s (.write a id size data) = some t) (b : Side) : Lined (lane t b).session := by
  obtain ⟨unread, past, hi, hq⟩ := hd.lined a
  simp only [step] at h
  rcases router_write (r := s.routers a) hi rfl id size data with
    ⟨res, hw, hres⟩ | ⟨n, c, state, k, hw, _⟩
  · have hput : s.put a (s.routers a) = t := by
      rw [hw] at h
      split at h
      · rename_i m r' heq
        exact absurd (congrArg Prod.fst heq) (hres m)
      · rename_i heq
        rw [(Prod.mk.inj heq).2]
        exact Option.some.inj h
    subst hput
    exact lined_same hd rfl rfl b
  · obtain ⟨d, c', state', rfl, hchan, hr⟩ := write_channel hw
    simp only [hw, Option.some.injEq] at h
    subst h
    have hstep : ShmIpcSession.step (lane s a).session (.write id size d) =
      some { (lane s a).session with
        channel := c'
        published := s.published a ++ (writtenSlots (s.routers a).writeChannel id size d).map
          Slot.record } := by
      simp only [ShmIpcSession.step, lane, Lane.session, hchan]
    have hadm : ShmIpcFifo.Admitted (lane s a).session (.write id size d) := fun hop => by cases hop
    rcases eq_or_other a b with rfl | rfl
    · have hlined := lined_setState (queued_step ⟨unread, past, hi, hq⟩ ⟨hadm, hstep⟩) state'
      dsimp only at hr
      simpa [lane, Lane.session, Streams.put, publishedBy, hr] using hlined
    · have hj := (hd.sound.flow a.other).joined
      simp only [lane, other_other] at hj
      simpa [lane, Lane.session, Streams.put, hj] using hd.lined a.other

theorem lined_storeConsumerState (hd : Delivering s) {state : UInt32}
    (h : step s (.storeConsumerState a state) = some t) (b : Side) : Lined (lane t b).session := by
  simp only [step, Option.some.injEq] at h
  subst h
  rcases eq_or_other a b with rfl | rfl
  · simpa [lane, Lane.session, Streams.put] using hd.lined b
  · have hj := (hd.sound.flow a.other).joined
    simp only [lane, other_other] at hj
    simpa [lane, Lane.session, Streams.put, hj] using lined_setState (hd.lined a.other) state

theorem lined_begin (hd : Delivering s) (hreg : Registered s a)
    (h : step s (.beginRound a) = some t) (b : Side) : Lined (lane t b).session := by
  have hbegins := begins_of_admitted hd.sound ⟨delivers_of_lined hd.sound (hd.lined a.other), hreg⟩
  have hj := (hd.sound.flow a.other).joined
  simp only [lane, other_other] at hj
  simp only [step] at h
  split at h
  · cases h
  rename_i hnone
  generalize ShmIpcRouterStreams.beginRound (s.routers a) = result at hbegins h
  cases hbegins with
  | idle _ =>
    cases h
    have hsame := lined_same hd (a := a) (r := s.routers a) rfl rfl b
    rw [← hnone, Function.update_eq_self]
    exact hsame
  | record hh hne hid hnext =>
    rename_i id handler
    cases h
    rw [deliver_eq]
    generalize ((s.routers a).deliver id handler (s.routers a).readChannel.mReadOffset).calls =
      calls
    rcases eq_or_other a b with rfl | rfl
    · simpa [lane, Lane.session, Streams.put] using hd.lined b
    · obtain ⟨unread, past, hi, hq⟩ := hd.lined a.other
      refine ⟨unread, past, ⟨?_, ?_, fun header hheld => ?_⟩, ?_⟩
      · simpa [lane, Lane.session, Streams.put, hj] using hi.formed
      · simpa [lane, Lane.session, Streams.put, hj] using hi.small
      · have hheader : (s.routers a).readChannel.mReadOffset = header := by
          simpa [lane, Lane.session, Streams.put] using hheld
        rw [← hheader]
        simpa [lane, Lane.session, Streams.put] using hne
      · simpa [lane, Lane.session, Streams.put, Queued] using hq

/-- The round consumes a record of the session. -/
theorem endRound_session (hs : Sound s) (h : step s (.endRound a) = some t) :
    ShmIpcSession.step (lane s a.other).session .consumeHeader = some (lane t a.other).session ∧
      (lane t a).session = (lane s a).session := by
  have hj := (hs.flow a.other).joined
  simp only [lane, other_other] at hj
  simp only [step] at h
  split at h
  · cases h
  rename_i x hin
  obtain ⟨c, hround, hc⟩ := endRound_ok hs hin
  simp only [hround, Option.some.injEq] at h
  subst h
  rw [hj] at hc
  constructor
  · simp [ShmIpcSession.step, lane, Lane.session, Streams.put, hin, hj, hc]
  · simp [lane, Lane.session, Streams.put]

theorem lined_end (hd : Delivering s) (hok : ¬ EmptiesAtEnd (lane s a.other).session)
    (h : step s (.endRound a) = some t) (b : Side) : Lined (lane t b).session := by
  obtain ⟨hself, hother⟩ := endRound_session hd.sound h
  rcases eq_or_other a b with rfl | rfl
  · rw [hother]
    exact hd.lined b
  · exact queued_step (hd.lined a.other) ⟨fun _ => hok, hself⟩

theorem delivering_step {act : Act φ} (hd : Delivering s) (h : guarded Tidy (ofFun step) s act t) :
    Delivering t := by
  obtain ⟨htidy, h⟩ := h
  have hadm : Admitted s act := by
    cases act with
    | beginRound a => exact ⟨delivers_of_lined hd.sound (hd.lined a.other), htidy⟩
    | _ => trivial
  refine ⟨sound_step hd.sound ⟨hadm, h⟩, fun b => ?_⟩
  simp only [ofFun] at h
  cases act with
  | write a id size data => exact lined_write hd h b
  | registerHandler a id onRead onError =>
    cases h
    have hq := quiet_registerHandler (s.routers a) id onRead onError
    exact lined_same hd hq.read hq.write b
  | tryRegisterHandler a id onRead onError =>
    cases h
    have hq := quiet_tryRegisterHandler (s.routers a) id onRead onError
    exact lined_same hd hq.read hq.write b
  | registerNextHandler a n onRead onError =>
    have hq := quiet_searchId onRead onError n (s.routers a).nextId (s.routers a)
    simp only [step, registerNextHandler] at h
    split at h
    · cases h
    · rename_i heq
      rw [heq] at hq
      cases h
      exact lined_same hd hq.read hq.write b
  | storeConsumerState a state => exact lined_storeConsumerState hd h b
  | beginRound a => exact lined_begin hd htidy h b
  | endRound a => exact lined_end hd htidy h b

theorem delivering_connect {channels : Side → Channel} (h : ∀ a, Fresh (channels a)) :
    Delivering (connect channels : Streams φ) := by
  refine ⟨sound_connect h, fun a => ?_⟩
  obtain ⟨size, self, raw, hsize, hinit⟩ := h a
  have hi := inv_opened (s := (lane (connect channels : Streams φ) a).session) hsize
    ⟨⟨self, raw, hinit⟩, rfl, rfl, rfl⟩
  exact ⟨[], [], hi, rfl⟩

/-- A record whose id nobody has registered ends `process_reads`. -/
theorem begins_unregistered (hs : Sound s) (hdel : Delivers s a) (hreg : ¬ Registered s a) :
    ∃ r, beginRound (s.routers a) =
    (.error "Router::process_reads(): received data for unknown handler id", r) := by
  have hl := hs.flow a.other
  obtain ⟨unread, past, hi⟩ := hl.session
  have hj : (s.routers a).readChannel = (s.routers a.other).writeChannel := by
    simpa [lane] using hl.joined
  have hread := readHeader_spec hi.formed
  rw [show (lane s a.other).session.channel = (s.routers a).readChannel from hj.symm] at hread
  have hops : ChannelOps.readHeader (s.routers a).readChannel = _ := hread
  by_cases heq : (s.routers a).readChannel.mReadOffset = (s.routers a).readChannel.mWriteOffset
  · rw [if_pos heq] at hread
    simp only [Delivers, hread, HandsOut] at hdel
    exact absurd (by rw [Registered, List.getElem?_eq_none (Nat.le_of_eq hdel.symm)]; rfl) hreg
  · rw [if_neg heq] at hops hread
    simp only [Delivers, hread, HandsOut] at hdel
    have hplain := hl.plain _ (List.mem_of_getElem? hdel)
    have hid : ChannelOps.headerId (s.routers a).readChannel
        (s.routers a).readChannel.mReadOffset &&& ~~~flagMask =
        (recordAt (s.routers a).readChannel.mAddr (s.routers a).readChannel.mReadOffset).id :=
        unmasked hplain
    simp only [Registered, hdel, Option.all_some, Bool.not_eq_true, Option.isSome_eq_false_iff,
      Option.isNone_iff_eq_none] at hreg
    exact ⟨_, by simp only [beginRound, hops, hid, hreg]; rfl⟩

/-- What a direction keeps, the round that throws, and the one at which it is lost. -/
structure DeliversUntil (s : Streams φ) (a : Side) : Prop where
  delivers : Delivers s a
  rounds : NeverThrows s a
  unregistered : ¬ Registered s a →
    ∃ r, beginRound (s.routers a) =
    (.error "Router::process_reads(): received data for unknown handler id", r)
  streams : ∀ id, Demultiplexes s a id
  exact : ∀ t, step s (.endRound a) = some t →
    (Delivers t a ↔ ¬ EmptiesAtEnd (lane s a.other).session)

theorem deliversUntil_of_delivering (hd : Delivering s) (a : Side) : DeliversUntil s a := by
  have hdelivers := delivers_of_lined hd.sound (hd.lined a.other)
  refine ⟨hdelivers, neverThrows_of_sound hd.sound a, begins_unregistered hd.sound hdelivers,
    demultiplexes_of_sound hd.sound a, fun t h => ⟨fun hdel he => ?_, fun hok => ?_⟩⟩
  · have hsound := sound_end hd.sound h
    have hj := (hsound.flow a.other).joined
    simp only [lane, other_other] at hj
    refine not_handsOut_of_emptied (hd.lined a.other) he (endRound_session hd.sound h).1 ?_
    rw [Delivers, hj] at hdel
    simpa [lane, Lane.session] using hdel
  · exact delivers_of_lined (sound_end hd.sound h) (lined_end hd hok h a.other)

/-- Over the shared-memory channels themselves: as long as every record finds a handler and no round
empties a buffer at its end, both directions deliver in order and exactly once, no round throws, and
every id is passed its own bytes. The first round without a handler throws, the first one that
empties a buffer ends the delivery. -/
theorem delivers_until_emptied {channels : Side → Channel} {acts : List (Act φ)}
    (h₀ : ∀ a, Fresh (channels a)) (h : Run (guarded Tidy (ofFun step)) (connect channels) acts s)
    (a : Side) : DeliversUntil s a :=
  deliversUntil_of_delivering
    (h.invariant Delivering (delivering_connect h₀) fun _ _ _ => delivering_step) a

instance (s : Streams φ) : ∀ act, Decidable (Tidy s act)
  | .write .. | .registerHandler .. | .tryRegisterHandler .. | .registerNextHandler .. =>
    .isTrue trivial
  | .storeConsumerState .. => .isTrue trivial
  | .beginRound _ => inferInstanceAs (Decidable (Registered _ _))
  | .endRound _ => inferInstanceAs (Decidable (¬ _))

theorem delivers_until_emptied_answered :
    ∃ s, Run (guarded Tidy (ofFun step)) (connect pages) answered s ∧ passedTo 2
      (s.routers .right).calls = [7, 7] ∧ DeliversUntil s .right := by
  have heval : (runFun (guardFun Tidy step) answered (connect pages)).map
      (fun s => passedTo 2 (s.routers .right).calls) = some [7, 7] := by decide +kernel
  obtain ⟨s, hs, hpassed⟩ := Option.map_eq_some_iff.mp heval
  have hrun := run_of_guardFun hs
  exact ⟨s, hrun, hpassed, delivers_until_emptied pages_fresh hrun .right⟩

end ShmIpcRouterDelivers
