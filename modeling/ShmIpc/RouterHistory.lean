import Mathlib.Data.Set.Card
import ShmIpc.RouterClose
import ShmIpc.RouterStreams

/-!
# The history of a router

Everything that can be done to one router in any order: registrations, closes,
writes and rounds of `process_reads`, with whatever `on_read` does with the
router in the middle of a round, and with channels that anybody may change. A
call that throws has been caught, and the run goes on.
-/
namespace ShmIpcRouterHistory

open ByteMemory LabelledRun ShmIpcPlacement ShmIpcRouter ShmIpcRouterStreams
open ShmIpcChannel (Channel Errno)

variable {κ φ : Type}

/-! ## Runs -/

/-- `issued` lists the ids that `register_handler` has picked so far, `closed` those of the calls of
`close` that have returned. -/
structure History (κ φ : Type) where
  router : Router κ φ
  inHand : Option InHand
  issued : List UInt32
  closed : List UInt32

inductive Act (κ φ : Type) where
  | registerNextHandler (n : Nat) (onRead onError : Option φ) : Act κ φ
  | registerHandler (id : UInt32) (onRead onError : Option φ) : Act κ φ
  | tryRegisterHandler (id : UInt32) (onRead onError : Option φ) : Act κ φ
  | close (id : UInt32) : Act κ φ
  | write (id size : UInt32) (data : Option (Nat → UInt8)) : Act κ φ
  | beginRound : Act κ φ
  | endRound : Act κ φ
  -- `on_read` throws, and the exception leaves the loop
  | leaveRound : Act κ φ
  | channels (readChannel writeChannel : κ) : Act κ φ

/-- A router right after its construction. -/
def start (readChannel writeChannel : κ) : History κ φ :=
  ⟨Router.create readChannel writeChannel, none, [], []⟩

section Step

variable [ChannelOps κ]

/-- There is no next state while a search for an id is still running, and none for a round that has
not been begun or is not over. -/
def step (s : History κ φ) : Act κ φ → Option (History κ φ)
  | .registerNextHandler n onRead onError =>
    match ShmIpcRouter.registerNextHandler n s.router onRead onError with
    | (none, _) => none
    | (some (.ok id), r) => some { s with router := r, issued := s.issued ++ [id] }
    | (some (.error _), r) => some { s with router := r }
  | .registerHandler id onRead onError =>
    some { s with router := (ShmIpcRouter.registerHandler s.router id onRead onError).2 }
  | .tryRegisterHandler id onRead onError =>
    some { s with router := (ShmIpcRouter.tryRegisterHandler s.router id onRead onError).2 }
  | .close id =>
    match ShmIpcRouter.close s.router id with
    | (.ok (), r) => some { s with router := r, closed := s.closed ++ [id] }
    | (.error _, r) => some { s with router := r }
  | .write id size data => some { s with router := (ShmIpcRouter.write s.router id size data).2 }
  | .beginRound =>
    match s.inHand with
    | some _ => none
    | none =>
      match ShmIpcRouterStreams.beginRound s.router with
      | (.ok inHand, r) => some { s with router := r, inHand := inHand }
      | (.error _, r) => some { s with router := r }
  | .endRound =>
    match s.inHand with
    | none => none
    | some inHand =>
      some { s with router := (ShmIpcRouterStreams.endRound s.router inHand).2, inHand := none }
  | .leaveRound =>
    match s.inHand with
    | none => none
    | some _ => some { s with inHand := none }
  | .channels readChannel writeChannel =>
    some { s with router := { s.router with
      readChannel := readChannel, writeChannel := writeChannel } }

end Step

/-! ## Registering an id -/

theorem unflagged_iff {id : UInt32} : id &&& flagMask = 0 ↔ id.toNat < 2 ^ 28 := by
  rw [← UInt32.toNat_inj, UInt32.toNat_and,
    show flagMask.toNat = (2 ^ (32 - 28) - 1) <<< 28 from rfl,
    and_highBits 28 _ (by decide) id.toNat_lt, show (0 : UInt32).toNat = 0 from rfl]
  omega

/-- What `try_register_handler` can do. -/
inductive Tried (r : Router κ φ) (id : UInt32) (onRead onError : Option φ) :
    Except String Bool × Router κ φ → Prop where
  | throws (msg : String) : Tried r id onRead onError (.error msg, r)
  | taken : id.toNat < 2 ^ 28 → (r.handlers id).isSome → Tried r id onRead onError (.ok false, r)
  | registered : id.toNat < 2 ^ 28 → r.handlers id = none → onError.isSome →
      Tried r id onRead onError (.ok true, r.setHandler id ⟨onRead, onError⟩)

theorem tryRegisterHandler_tried (r : Router κ φ) (id : UInt32) (onRead onError : Option φ) :
    Tried r id onRead onError (tryRegisterHandler r id onRead onError) := by
  unfold tryRegisterHandler
  split
  · exact .throws _
  · rename_i hmask
    have hid : id.toNat < 2 ^ 28 := unflagged_iff.mp (not_not.mp hmask)
    split
    · rename_i htaken
      exact .taken hid htaken
    · rename_i hfree
      split
      · exact .throws _
      · split
        · exact .throws _
        · rename_i herror
          exact .registered hid (by simpa using hfree)
            (by simpa [Option.isSome_iff_ne_none] using herror)

/-- What the search for an id has done after at most `n` rounds: it is still running, all ids so
far being registered; it has thrown; or it has registered the first id that is free. -/
inductive Searched (n : Nat) (r : Router κ φ) (id : UInt32) (onRead onError : Option φ) :
    Option (Except String UInt32) × Router κ φ → Prop where
  | running : id.toNat + n ≤ 2 ^ 28 →
      (∀ k : UInt32, id.toNat ≤ k.toNat → k.toNat < id.toNat + n → (r.handlers k).isSome) →
      Searched n r id onRead onError (none, r)
  | throws (msg : String) : Searched n r id onRead onError (some (.error msg), r)
  | found (k : UInt32) : id.toNat ≤ k.toNat → k.toNat < 2 ^ 28 →
      r.handlers k = none → onError.isSome → Searched n r id onRead onError
      (some (.ok k), { r.setHandler k ⟨onRead, onError⟩ with nextId := k + 1 })

theorem toNat_succ {id : UInt32} (h : id.toNat < 2 ^ 28) : (id + 1).toNat = id.toNat + 1 := by
  rw [UInt32.toNat_add, show (1 : UInt32).toNat = 1 from rfl]
  omega

theorem searchId_searched (onRead onError : Option φ) (n : Nat) (id : UInt32) (r : Router κ φ)
    (hid : id.toNat ≤ 2 ^ 28) :
    Searched n r id onRead onError (searchId onRead onError n id r) := by
  induction n generalizing id with
  | zero => exact .running hid fun k hle hlt => by omega
  | succ n ih =>
    have htried := tryRegisterHandler_tried r id onRead onError
    rw [searchId]
    generalize tryRegisterHandler r id onRead onError = result at htried
    cases htried with
    | throws msg => exact .throws msg
    | registered hlt hfree herror => exact .found id (Nat.le_refl _) hlt hfree herror
    | taken hlt htaken =>
      have hsucc := toNat_succ hlt
      dsimp only
      split
      · exact .throws _
      · have hrest := ih (id + 1) (by omega)
        generalize searchId onRead onError n (id + 1) r = rest at hrest
        cases hrest with
        | throws msg => exact .throws msg
        | found k hle hk hfree herror => exact .found k (by omega) hk hfree herror
        | running hroom hall =>
          refine .running (by omega) fun k hle hlt' => ?_
          by_cases hk : k = id
          · exact hk ▸ htaken
          · have hne : k.toNat ≠ id.toNat := fun h => hk (UInt32.toNat_inj.mp h)
            exact hall k (by omega) (by omega)

/-! ### How long the search takes -/

def registered (r : Router κ φ) : Set UInt32 := {id | (r.handlers id).isSome}

instance finite_uint32 : Finite UInt32 :=
  Finite.of_injective UInt32.toFin fun _ _ h => UInt32.toFin_inj.mp h

/-- As many ids are registered as there are in an interval full of registered ids. -/
theorem le_ncard_registered {r : Router κ φ} {id : UInt32} {n : Nat} (hroom : id.toNat + n ≤ 2 ^ 28)
    (hall : ∀ k : UInt32, id.toNat ≤ k.toNat → k.toNat < id.toNat + n → (r.handlers k).isSome) :
    n ≤ (registered r).ncard := by
  have htoNat {i : Nat} (hi : i < n) : (UInt32.ofNat (id.toNat + i)).toNat = id.toNat + i := by
    rw [UInt32.toNat_ofNat']
    omega
  have hinj : Set.InjOn (fun i => UInt32.ofNat (id.toNat + i)) (Finset.range n : Set Nat) := by
    intro i hi j hj heq
    have h := congrArg UInt32.toNat heq
    simp only [Finset.coe_range, Set.mem_Iio] at hi hj
    simp only [htoNat hi, htoNat hj] at h
    omega
  have hsub : (fun i => UInt32.ofNat (id.toNat + i)) '' (Finset.range n : Set Nat) ⊆
      registered r := by
    rintro _ ⟨i, hi, rfl⟩
    simp only [Finset.coe_range, Set.mem_Iio] at hi
    exact hall _ (by rw [htoNat hi]; omega) (by rw [htoNat hi]; omega)
  calc n = (Finset.range n : Set Nat).ncard := by rw [Set.ncard_coe_finset, Finset.card_range]
    _ = ((fun i => UInt32.ofNat (id.toNat + i)) '' (Finset.range n : Set Nat)).ncard :=
    hinj.ncard_image.symm
    _ ≤ (registered r).ncard := Set.ncard_le_ncard hsub

theorem searchId_within (onRead onError : Option φ) {id : UInt32} (r : Router κ φ)
    (hid : id.toNat ≤ 2 ^ 28) :
    ∃ res r', searchId onRead onError ((registered r).ncard + 1) id r = (some res, r') := by
  have hs := searchId_searched onRead onError ((registered r).ncard + 1) id r hid
  generalize searchId onRead onError ((registered r).ncard + 1) id r = result at hs
  cases hs with
  | running hroom hall => exact absurd (le_ncard_registered hroom hall) (by omega)
  | throws msg => exact ⟨_, _, rfl⟩
  | found k _ _ _ _ => exact ⟨_, _, rfl⟩

/-! ### Registrations that fail -/

theorem setHandler_other (r : Router κ φ) {id k : UInt32} (h : RouterHandler φ) (hk : k ≠ id) :
    (r.setHandler id h).handlers k = r.handlers k :=
  Function.update_of_ne hk _ _

/-- A registration leaves the other entries alone, and everything if it registers nothing. -/
structure Local (r : Router κ φ) (id : UInt32) (done : Prop) (r' : Router κ φ) : Prop where
  others : ∀ k, k ≠ id → r'.handlers k = r.handlers k
  failed : ¬ done → r' = r
  counter : r'.nextId = r.nextId

theorem tryRegisterHandler_local (r : Router κ φ) (id : UInt32) (onRead onError : Option φ) :
    Local r id ((tryRegisterHandler r id onRead onError).1 = .ok true)
    (tryRegisterHandler r id onRead onError).2 := by
  have htried := tryRegisterHandler_tried r id onRead onError
  generalize tryRegisterHandler r id onRead onError = result at htried
  cases htried with
  | throws msg => exact ⟨fun _ _ => rfl, fun _ => rfl, rfl⟩
  | taken _ _ => exact ⟨fun _ _ => rfl, fun _ => rfl, rfl⟩
  | registered _ _ _ => exact ⟨fun _ hk => setHandler_other r _ hk, fun h => absurd rfl h, rfl⟩

theorem registerHandler_local (r : Router κ φ) (id : UInt32) (onRead onError : Option φ) :
    Local r id ((registerHandler r id onRead onError).1 = .ok ())
    (registerHandler r id onRead onError).2 := by
  have htried := tryRegisterHandler_tried r id onRead onError
  unfold registerHandler
  generalize tryRegisterHandler r id onRead onError = result at htried ⊢
  cases htried with
  | throws msg => exact ⟨fun _ _ => rfl, fun _ => rfl, rfl⟩
  | taken _ _ => exact ⟨fun _ _ => rfl, fun _ => rfl, rfl⟩
  | registered _ _ _ => exact ⟨fun _ hk => setHandler_other r _ hk, fun h => absurd rfl h, rfl⟩

/-! ## The counter -/

section Runs

variable [ChannelOps κ]

/-- The exits of `close`. -/
inductive Closing (r : Router κ φ) (id : UInt32) : Except String Unit × Router κ φ → Prop where
  | unknown : r.handlers id = none → Closing r id (.error "Router::close(): id not found", r)
  | again {handler : RouterHandler φ} : r.handlers id = some handler →
      handler.isClosedWrite = true →
      Closing r id (.error "Router::close(): handler already closed for write", r)
  | erased {handler : RouterHandler φ} : r.handlers id = some handler →
      handler.isClosedWrite = false → handler.isClosedRead = true →
      Closing r id (.ok (), r.erase id)
  | threw {handler : RouterHandler φ} {msg : String} {c : κ} : r.handlers id = some handler →
      handler.isClosedWrite = false → handler.isClosedRead = false →
      ChannelOps.write r.writeChannel (id ||| flagClose) 0 none = (.error msg, c) →
      Closing r id
      (.error msg, { r.setHandler id { handler with onError := none } with writeChannel := c })
  | unsent {handler : RouterHandler φ} {n : Int} {err : Option Errno} {c : κ} :
      r.handlers id = some handler → handler.isClosedWrite = false → handler.isClosedRead = false →
      ChannelOps.write r.writeChannel (id ||| flagClose) 0 none = (.ok (n, err), c) → n ≠ 0 →
      Closing r id (.error "Router::close(): failed to write close event to channel",
        { r.setHandler id { handler with onError := none } with writeChannel := c })
  | sent {handler : RouterHandler φ} {err : Option Errno} {c : κ} : r.handlers id = some handler →
      handler.isClosedWrite = false → handler.isClosedRead = false →
      ChannelOps.write r.writeChannel (id ||| flagClose) 0 none = (.ok (0, err), c) →
      Closing r id
      (.ok (), { r.setHandler id { handler with onError := none } with writeChannel := c })

theorem close_closing (r : Router κ φ) (id : UInt32) : Closing r id (ShmIpcRouter.close r id) := by
  simp only [ShmIpcRouter.close]
  split
  · rename_i hnone
    exact .unknown hnone
  · rename_i handler hh
    split
    · rename_i hw
      exact .again hh hw
    · rename_i hw
      have hopen := Bool.eq_false_iff.mpr hw
      split
      · rename_i hr
        exact .erased hh hopen hr
      · rename_i hr
        have hread := Bool.eq_false_iff.mpr hr
        split
        · rename_i hwrite
          exact .threw hh hopen hread hwrite
        · rename_i n err c hwrite
          split
          · rename_i hne
            exact .unsent hh hopen hread hwrite hne
          · rename_i hzero
            obtain rfl : n = 0 := not_not.mp hzero
            exact .sent hh hopen hread hwrite

omit [ChannelOps κ] in
theorem registerHandler_snd (r : Router κ φ) (id : UInt32) (onRead onError : Option φ) :
    (registerHandler r id onRead onError).2 = (tryRegisterHandler r id onRead onError).2 := by
  unfold registerHandler
  split <;> rename_i heq <;> rw [heq]

theorem Closing.nextId {r r' : Router κ φ} {id : UInt32} {res : Except String Unit}
    (h : Closing r id (res, r')) : r'.nextId = r.nextId := by
  cases h <;> rfl

/-- The same handlers and the same counter. -/
def SameTable (r r' : Router κ φ) : Prop := r'.handlers = r.handlers ∧ r'.nextId = r.nextId

omit [ChannelOps κ] in
theorem SameTable.refl (r : Router κ φ) : SameTable r r := ⟨rfl, rfl⟩

theorem write_same (r : Router κ φ) (id size : UInt32) (data : Option (Nat → UInt8)) :
    SameTable r (ShmIpcRouter.write r id size data).2 := by
  unfold ShmIpcRouter.write Router.interruptReader
  repeat' split
  all_goals exact .refl r

theorem consume_same (r : Router κ φ) (header : ShmIpcChannel.HeaderPtr) :
    SameTable r (r.consume header).2 := by
  unfold Router.consume
  split <;> exact .refl r

theorem beginRound_same (r : Router κ φ) : SameTable r (ShmIpcRouterStreams.beginRound r).2 := by
  simp only [ShmIpcRouterStreams.beginRound]
  split
  · exact .refl r
  · exact .refl r
  · split
    · exact .refl r
    · rw [deliver_eq]
      exact .refl r

theorem endRound_nextId (r : Router κ φ) (inHand : InHand) :
    (ShmIpcRouterStreams.endRound r inHand).2.nextId = r.nextId := by
  obtain ⟨id, header⟩ := inHand
  simp only [ShmIpcRouterStreams.endRound]
  split
  · split
    · rfl
    · split
      · exact (consume_same _ header).2
      · split
        · rfl
        · exact (consume_same _ header).2
  · exact (consume_same r header).2

/-- The counter stands behind all ids that it has handed out, and below the reserved bits. -/
structure Counted (s : History κ φ) : Prop where
  next_pos : 0 < s.router.nextId.toNat
  next_le : s.router.nextId.toNat ≤ 2 ^ 28
  increasing : s.issued.Pairwise (· < ·)
  below : ∀ id ∈ s.issued, 0 < id.toNat ∧ id.toNat < s.router.nextId.toNat

omit [ChannelOps κ] in
theorem counted_start (readChannel writeChannel : κ) :
    Counted (start readChannel writeChannel : History κ φ) :=
  ⟨show 0 < (1 : UInt32).toNat by decide, show (1 : UInt32).toNat ≤ 2 ^ 28 by decide, .nil, nofun⟩

/-- What a step does to the table, and to what is known of the calls so far. -/
inductive Effect (s : History κ φ) (act : Act κ φ) : History κ φ → Prop where
  | same {t : History κ φ} : SameTable s.router t.router → t.issued = s.issued →
      t.closed = s.closed → Effect s act t
  | picked {k : UInt32} {onRead onError : Option φ} : s.router.nextId.toNat ≤ k.toNat →
      k.toNat < 2 ^ 28 → onError.isSome → Effect s act { s with
        router := { s.router.setHandler k ⟨onRead, onError⟩ with nextId := k + 1 }
        issued := s.issued ++ [k] }
  | registered {id : UInt32} {onRead onError : Option φ} : onError.isSome →
      Effect s act { s with router := s.router.setHandler id ⟨onRead, onError⟩ }
  | closed {id : UInt32} {r : Router κ φ} : act = .close id → Closing s.router id (.ok (), r) →
      Effect s act { s with router := r, closed := s.closed ++ [id] }
  | notClosed {id : UInt32} {msg : String} {r : Router κ φ} : act = .close id →
      Closing s.router id (.error msg, r) → Effect s act { s with router := r }
  | endedRound (inHand : InHand) :
      Effect s act
      { s with router := (ShmIpcRouterStreams.endRound s.router inHand).2, inHand := none }

theorem effect_of_tried (s : History κ φ) (act : Act κ φ) (id : UInt32)
    (onRead onError : Option φ) :
    Effect s act { s with router := (tryRegisterHandler s.router id onRead onError).2 } := by
  have htried := tryRegisterHandler_tried s.router id onRead onError
  generalize tryRegisterHandler s.router id onRead onError = result at htried
  cases htried with
  | throws msg => exact .same (.refl _) rfl rfl
  | taken _ _ => exact .same (.refl _) rfl rfl
  | registered _ _ herror => exact .registered herror

theorem effect_of_step {s t : History κ φ} {act : Act κ φ} (hle : s.router.nextId.toNat ≤ 2 ^ 28)
    (h : step s act = some t) : Effect s act t := by
  cases act with
  | registerNextHandler n onRead onError =>
    have hs := searchId_searched onRead onError n s.router.nextId s.router hle
    simp only [step, ShmIpcRouter.registerNextHandler] at h
    generalize searchId onRead onError n s.router.nextId s.router = result at hs h
    cases hs with
    | running _ _ => cases h
    | throws msg =>
      cases h
      exact .same (.refl _) rfl rfl
    | found k hk hlt _ herror =>
      cases h
      exact .picked hk hlt herror
  | registerHandler id onRead onError =>
    cases h
    rw [registerHandler_snd]
    exact effect_of_tried s _ id onRead onError
  | tryRegisterHandler id onRead onError =>
    cases h
    exact effect_of_tried s _ id onRead onError
  | close id =>
    have hclosing := close_closing s.router id
    simp only [step] at h
    split at h
    · rename_i r heq
      cases h
      exact .closed rfl (heq ▸ hclosing)
    · rename_i msg r heq
      cases h
      exact .notClosed rfl (heq ▸ hclosing)
  | write id size data =>
    cases h
    exact .same (write_same s.router id size data) rfl rfl
  | beginRound =>
    have hbegin := beginRound_same s.router
    simp only [step] at h
    split at h
    · cases h
    · split at h
      · rename_i r heq
        rw [heq] at hbegin
        cases h
        exact .same hbegin rfl rfl
      · rename_i r heq
        rw [heq] at hbegin
        cases h
        exact .same hbegin rfl rfl
  | endRound =>
    simp only [step] at h
    split at h
    · cases h
    · cases h
      exact .endedRound _
  | leaveRound =>
    simp only [step] at h
    split at h <;> cases h
    exact .same (.refl _) rfl rfl
  | channels readChannel writeChannel =>
    cases h
    exact .same ⟨rfl, rfl⟩ rfl rfl

/-- A step leaves the counter alone, or it hands out an id from the counter on. -/
theorem step_counter {s t : History κ φ} {act : Act κ φ} (hle : s.router.nextId.toNat ≤ 2 ^ 28)
    (h : step s act = some t) :
    (t.issued = s.issued ∧ t.router.nextId = s.router.nextId) ∨
      ∃ k : UInt32, s.router.nextId.toNat ≤ k.toNat ∧ k.toNat < 2 ^ 28 ∧
        t.issued = s.issued ++ [k] ∧ t.router.nextId = k + 1 := by
  cases effect_of_step hle h with
  | same hsame hissued _ => exact .inl ⟨hissued, hsame.2⟩
  | picked hk hlt _ => exact .inr ⟨_, hk, hlt, rfl, rfl⟩
  | registered _ => exact .inl ⟨rfl, rfl⟩
  | closed _ hclosing => exact .inl ⟨rfl, hclosing.nextId⟩
  | notClosed _ hclosing => exact .inl ⟨rfl, hclosing.nextId⟩
  | endedRound inHand => exact .inl ⟨rfl, endRound_nextId s.router inHand⟩

theorem counted_step {s t : History κ φ} {act : Act κ φ} (hc : Counted s)
    (h : step s act = some t) : Counted t := by
  obtain ⟨hpos, hle, hincreasing, hbelow⟩ := hc
  rcases step_counter hle h with ⟨hissued, hnext⟩ | ⟨k, hk, hlt, hissued, hnext⟩
  · rw [← hnext] at hpos hle hbelow
    exact ⟨hpos, hle, hissued ▸ hincreasing, hissued ▸ hbelow⟩
  · have hsucc := toNat_succ hlt
    rw [← hnext] at hsucc
    refine ⟨by omega, by omega, ?_, ?_⟩
    · rw [hissued, List.pairwise_append]
      refine ⟨hincreasing, List.pairwise_singleton _ _, fun a ha b hb => ?_⟩
      rw [List.mem_singleton.mp hb, UInt32.lt_iff_toNat_lt]
      exact Nat.lt_of_lt_of_le (hbelow a ha).2 hk
    · intro id hid
      rw [hissued] at hid
      rcases List.mem_append.mp hid with hid | hid
      · have := hbelow id hid
        omega
      · rw [List.mem_singleton.mp hid]
        omega

theorem counted_run {readChannel writeChannel : κ} {acts : List (Act κ φ)} {s : History κ φ}
    (h : Run (ofFun step) (start readChannel writeChannel) acts s) : Counted s :=
  h.invariant Counted (counted_start _ _) fun _ _ _ => counted_step

/-! ## Fresh ids -/

/-- What is known about the ids that have been picked and about any registration to come. -/
structure Fresh (s : History κ φ) : Prop where
  increasing : s.issued.Pairwise (· < ·)
  proper : ∀ id ∈ s.issued, id ≠ 0 ∧ id &&& flagMask = 0
  ends : ∀ onRead onError, ∃ res r',
    registerNextHandler ((registered s.router).ncard + 1) s.router onRead onError = (some res, r')
  picked : ∀ n onRead onError id r',
    registerNextHandler n s.router onRead onError = (some (.ok id), r') →
      s.router.handlers id = none ∧ (∀ k ∈ s.issued, k < id) ∧ id ≠ 0 ∧
      id &&& flagMask = 0 ∧ r'.handlers id = some ⟨onRead, onError⟩ ∧
      ∀ k, k ≠ id → r'.handlers k = s.router.handlers k
  refused : ∀ n onRead onError msg r',
    registerNextHandler n s.router onRead onError = (some (.error msg), r') → r' = s.router
  tried : ∀ id onRead onError, Local s.router id
    ((tryRegisterHandler s.router id onRead onError).1 = .ok true)
    (tryRegisterHandler s.router id onRead onError).2
  given : ∀ id onRead onError, Local s.router id
    ((registerHandler s.router id onRead onError).1 = .ok ())
    (registerHandler s.router id onRead onError).2

theorem ne_zero_of_pos {id : UInt32} (h : 0 < id.toNat) : id ≠ 0 := by
  rintro rfl
  exact absurd h (by decide)

/-- The ids picked in a run are fresh, and so is the next one in every state. -/
theorem fresh_ids {readChannel writeChannel : κ} {acts : List (Act κ φ)} {s : History κ φ}
    (h : Run (ofFun step) (start readChannel writeChannel) acts s) : Fresh s := by
  obtain ⟨hpos, hle, hincreasing, hbelow⟩ := counted_run h
  have hsearch (n : Nat) (onRead onError : Option φ) :=
    searchId_searched onRead onError n s.router.nextId s.router hle
  refine ⟨hincreasing, ?_, fun onRead onError => searchId_within onRead
    onError s.router hle, ?_, ?_, tryRegisterHandler_local s.router, registerHandler_local s.router⟩
  · intro id hid
    have := hbelow id hid
    exact ⟨ne_zero_of_pos this.1, unflagged_iff.mpr (by omega)⟩
  · intro n onRead onError id r' heq
    have hs := hsearch n onRead onError
    rw [show searchId onRead onError n s.router.nextId s.router = _ from heq] at hs
    cases hs with
    | found _ hk hlt hfree _ =>
      refine ⟨hfree, fun k hmem => ?_, ne_zero_of_pos (by omega), unflagged_iff.mpr hlt, ?_, ?_⟩
      · rw [UInt32.lt_iff_toNat_lt]
        exact Nat.lt_of_lt_of_le (hbelow k hmem).2 hk
      · exact Function.update_self _ _ _
      · exact fun k hk => setHandler_other s.router _ hk
  · intro n onRead onError msg r' heq
    have hs := hsearch n onRead onError
    rw [show searchId onRead onError n s.router.nextId s.router = _ from heq] at hs
    cases hs
    rfl

end Runs

/-- Id 1 is taken by the peer, id 2 is picked, closed by both sides and erased, and id 3 is picked
next. -/
def pickedTwice : List (Act Fifo Unit) :=
  [.registerHandler 1 (some ()) (some ()), .registerNextHandler 2 (some ()) (some ()),
    .channels ⟨[⟨2 ||| flagClose, []⟩], 0⟩ Fifo.empty, .beginRound, .endRound, .close 2,
    .registerNextHandler 1 (some ()) (some ())]

theorem fresh_ids_picked_twice :
    ∃ s, runFun step pickedTwice (start Fifo.empty Fifo.empty) = some s ∧
    s.issued = [2, 3] ∧ Fresh s := by
  have heval : (runFun step pickedTwice (start Fifo.empty Fifo.empty)).map History.issued =
    some [2, 3] := by decide
  obtain ⟨s, hs, hissued⟩ := Option.map_eq_some_iff.mp heval
  exact ⟨s, hs, hissued, fresh_ids (run_of_runFun hs)⟩

end ShmIpcRouterHistory
