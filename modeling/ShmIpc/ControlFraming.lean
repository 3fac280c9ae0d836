import Mathlib.Algebra.GroupWithZero.Nat
import ShmIpc.ControlFd

/-!
# Framing on the control descriptor

A frame is read in two stages, and `event_read` keeps nothing between two calls.
The stages are followed byte by byte along the tape; a frame is lost exactly if
`recv` would block between its length and its first payload byte.
-/
namespace ShmIpcControlFraming

open ShmIpcChannel (Errno)
open SocketTape ShmIpcControlFd

/-- `read_fn` byte by byte: `need` bytes are still to be read behind those in the buffer. -/
def readItems : Nat → List UInt8 → Tape → ReadResult × Tape
  | 0, buffer, tape => (.done buffer, tape)
  | _ + 1, buffer, [] => if buffer.length = 0 then (.stopped .quiet, [])
      else (.stopped .waiting, [])
  | n + 1, buffer, .byte b :: tape => readItems n (buffer ++ [b]) tape
  | n + 1, buffer, .cut :: tape => readItems (n + 1) buffer tape
  | _ + 1, _, .eof :: tape => (.stopped (.slotClosed .EPIPE), .eof :: tape)
  | n + 1, buffer, .fail e :: tape =>
    if e = .EINTR then readItems (n + 1) buffer tape
    else if WouldBlock e then
      if buffer.length = 0 then (.stopped .quiet, tape) else readItems (n + 1) buffer tape
    else (.stopped (.slotClosed e), tape)

/-- A chunk of bytes is read like its bytes one by one. -/
theorem readItems_takeBytes (n : Nat) (buffer : List UInt8) (tape : Tape) :
    readItems n buffer tape =
      readItems (n - (takeBytes n tape).1.length) (buffer ++ (takeBytes n tape).1)
      (takeBytes n tape).2 := by
  induction n generalizing buffer tape with
  | zero => cases tape <;> simp [takeBytes]
  | succ n ih =>
    cases tape with
    | nil => simp [takeBytes]
    | cons x tape =>
      cases x with
      | byte b =>
        simp only [takeBytes, List.length_cons, Nat.add_sub_add_right, readItems]
        rw [ih]
        simp
      | cut => simp [takeBytes]
      | fail e => simp [takeBytes]
      | eof => simp [takeBytes]

theorem takeBytes_length_le (n : Nat) (tape : Tape) :
    (takeBytes n tape).1.length ≤ n ∧
    (takeBytes n tape).2.length + (takeBytes n tape).1.length = tape.length := by
  induction n generalizing tape with
  | zero => cases tape <;> simp [takeBytes]
  | succ n ih =>
    cases tape with
    | nil => simp [takeBytes]
    | cons x tape =>
      cases x with
      | byte b =>
        have := ih tape
        simp only [takeBytes, List.length_cons]
        omega
      | cut => simp [takeBytes]
      | fail e => simp [takeBytes]
      | eof => simp [takeBytes]

/-- With a part of the bytes read, the loop goes on waiting on an exhausted tape. -/
theorem readLoop_exhausted (fuel size : Nat) (buffer : List UInt8) (h0 : buffer.length ≠ 0)
    (hfull : buffer.length < size) : readLoop fuel size buffer [] = (.stopped .waiting, []) := by
  induction fuel with
  | zero => rfl
  | succ fuel ih =>
    rw [readLoop, if_pos hfull]
    simp [recv, h0, WouldBlock, ih]

/-- The loop of `read_fn` reads what stands on the tape, however `recv` cuts it. -/
theorem readLoop_eq (fuel size : Nat) (buffer : List UInt8) (tape : Tape)
    (hfuel : tape.length < fuel) (hsize : buffer.length ≤ size) :
    readLoop fuel size buffer tape = readItems (size - buffer.length) buffer tape := by
  induction fuel generalizing buffer tape with
  | zero => omega
  | succ fuel ih =>
    rw [readLoop]
    by_cases hfull : buffer.length < size
    · rw [if_pos hfull]
      obtain ⟨n, hn⟩ : ∃ n, size - buffer.length = n + 1 := ⟨size - buffer.length - 1, by omega⟩
      rw [hn]
      -- cuts in front are passed over inside one call of recv
      induction tape with
      | nil =>
        by_cases h0 : buffer.length = 0
        · simp [recv, readItems, h0, WouldBlock]
        · simp [recv, readItems, h0, WouldBlock, readLoop_exhausted fuel size buffer h0 hfull]
      | cons x tape iht =>
        simp only [List.length_cons] at hfuel
        cases x with
        | cut => exact iht (by omega)
        | eof => simp [recv, readItems]
        | fail e =>
          have hrec := ih buffer tape (by omega) hsize
          rw [hn] at hrec
          simp only [recv, readItems, hrec]
        | byte b =>
          have htake := takeBytes_length_le (n + 1) (.byte b :: tape)
          have hpos : 0 < (takeBytes (n + 1) (Item.byte b :: tape)).1.length := by simp [takeBytes]
          simp only [List.length_cons] at htake
          have hlen : (buffer ++ (takeBytes (n + 1) (Item.byte b :: tape)).1).length =
              buffer.length + (takeBytes (n + 1) (Item.byte b :: tape)).1.length :=
              List.length_append
          have hrec := ih (buffer ++ (takeBytes (n + 1) (Item.byte b :: tape)).1)
            (takeBytes (n + 1) (Item.byte b :: tape)).2 (by omega) (by omega)
          rw [readItems_takeBytes (n + 1) buffer (.byte b :: tape)]
          rw [show size - (buffer ++ (takeBytes (n + 1) (Item.byte b :: tape)).1).length =
            n + 1 - (takeBytes (n + 1) (Item.byte b :: tape)).1.length by omega] at hrec
          exact hrec
    · rw [if_neg hfull, show size - buffer.length = 0 by omega]
      cases tape <;> rfl

theorem readFn_eq (size : Nat) (tape : Tape) : readFn size tape = readItems size [] tape :=
  readLoop_eq (tape.length + 1) size [] tape (Nat.lt_succ_self _) (Nat.zero_le _)

/-- What `recv` may fail with while the peer is alive. -/
def Retryable (e : Errno) : Prop := e = .EINTR ∨ WouldBlock e

theorem wouldBlock_ne_EINTR {e : Errno} (h : WouldBlock e) : e ≠ .EINTR := by
  rcases h with rfl | rfl <;> decide

/-- Behind its first byte a read takes whatever arrives. -/
theorem readItems_rest {n : Nat} (buffer : List UInt8) {tape : Tape} (h0 : buffer.length ≠ 0)
    (hsoft : Soft Retryable tape) (hn : n ≤ (bytes tape).length) :
    ∃ t', readItems n buffer tape = (.done (buffer ++ (bytes tape).take n), t') ∧
    Behind n tape t' := by
  induction tape generalizing n buffer with
  | nil =>
    obtain rfl : n = 0 := by simpa [bytes] using hn
    exact ⟨[], by simp [readItems], .here _⟩
  | cons x tape ih =>
    cases n with
    | zero => exact ⟨x :: tape, by simp [readItems], .here _⟩
    | succ n =>
      cases x with
      | byte b =>
        obtain ⟨t', hr, hb⟩ := ih (n := n) (buffer ++ [b]) (by simp) hsoft.tail
          (by simpa [bytes] using hn)
        exact ⟨t', by simpa [readItems, bytes] using hr, .byte hb⟩
      | cut =>
        obtain ⟨t', hr, hb⟩ := ih buffer h0 hsoft.tail hn
        exact ⟨t', hr, .cut hb⟩
      | eof => exact absurd rfl (hsoft .eof List.mem_cons_self).1
      | fail e =>
        obtain ⟨t', hr, hb⟩ := ih buffer h0 hsoft.tail hn
        refine ⟨t', ?_, .fail hb⟩
        rcases (hsoft (.fail e) List.mem_cons_self).2 e rfl with he | he
        · simpa only [readItems, bytes, he, ↓reduceIte] using hr
        · simpa only [readItems, bytes, wouldBlock_ne_EINTR he, he, h0, ↓reduceIte] using hr

/-- In front of its first byte a read gives up at the first failure that would block. -/
theorem readItems_first {n : Nat} {tape : Tape} (hsoft : Soft Retryable tape)
    (hn : n + 1 ≤ (bytes tape).length) : (FailsAt WouldBlock tape 0 ∧
      ∃ t', readItems (n + 1) [] tape = (.stopped .quiet, t') ∧ Idle tape t' ∧
        t'.length < tape.length) ∨
    (¬ FailsAt WouldBlock tape 0 ∧
      ∃ t', readItems (n + 1) [] tape = (.done ((bytes tape).take (n + 1)), t') ∧
        Behind (n + 1) tape t') := by
  induction tape with
  | nil => simp [bytes] at hn
  | cons x tape ih =>
    cases x with
    | byte b =>
      right
      obtain ⟨t', hr, hb⟩ := readItems_rest (n := n) [b] (by simp) hsoft.tail
        (by simpa [bytes] using hn)
      exact ⟨id, t', by simpa [readItems, bytes] using hr, .byte hb⟩
    | cut =>
      rcases ih hsoft.tail hn with ⟨hf, t', hr, hi, hlt⟩ | ⟨hf, t', hr, hb⟩
      · exact .inl ⟨hf, t', hr, .cut hi, Nat.lt_succ_of_lt hlt⟩
      · exact .inr ⟨hf, t', hr, .cut hb⟩
    | eof => exact absurd rfl (hsoft .eof List.mem_cons_self).1
    | fail e =>
      rcases (hsoft (.fail e) List.mem_cons_self).2 e rfl with rfl | he
      · have hno : ¬ WouldBlock .EINTR := fun h => wouldBlock_ne_EINTR h rfl
        rcases ih hsoft.tail hn with ⟨hf, t', hr, hi, hlt⟩ | ⟨hf, t', hr, hb⟩
        · exact .inl ⟨.inr hf, t', by simpa [readItems] using hr, .fail hi, Nat.lt_succ_of_lt hlt⟩
        · refine .inr ⟨?_, t', by simpa [readItems, bytes] using hr, .fail hb⟩
          rintro (⟨_, h⟩ | h)
          · exact hno h
          · exact hf h
      · left
        refine ⟨.inl ⟨rfl, he⟩, tape, ?_, .fail (.here _), Nat.lt_succ_self _⟩
        simp [readItems, wouldBlock_ne_EINTR he, he]

/-- Without a byte to come a read gives up. -/
theorem readItems_none {n : Nat} {tape : Tape} (hsoft : Soft Retryable tape)
    (hb : bytes tape = []) :
    ∃ t', readItems (n + 1) [] tape = (.stopped .quiet, t') ∧ Idle tape t' ∧
    t'.length ≤ tape.length - 1 := by
  induction tape with
  | nil => exact ⟨[], by simp [readItems], .here _, Nat.le_refl _⟩
  | cons x tape ih =>
    cases x with
    | byte b => simp [bytes] at hb
    | cut =>
      obtain ⟨t', hr, hi, hle⟩ := ih hsoft.tail hb
      exact ⟨t', hr, .cut hi, by simp only [List.length_cons]; omega⟩
    | eof => exact absurd rfl (hsoft .eof List.mem_cons_self).1
    | fail e =>
      rcases (hsoft (.fail e) List.mem_cons_self).2 e rfl with rfl | he
      · obtain ⟨t', hr, hi, hle⟩ := ih hsoft.tail hb
        exact ⟨t', by simpa [readItems] using hr, .fail hi, by simp only [List.length_cons]; omega⟩
      · exact ⟨tape, by simp [readItems, wouldBlock_ne_EINTR he, he], .fail (.here _), by simp⟩

/-! ## Counting bytes -/

/-- The bytes of the frame that an event passes on. -/
def cost : Event → Nat
  | .slotMessage msg => msg.length + 2
  | .slotShutdown _ => 19
  | .throws _ payload => payload.length + 2
  | _ => 0

theorem cost_dispatch (msg : List UInt8) : cost (dispatch msg) = msg.length + 2 := by
  unfold dispatch
  split
  · split
    · rename_i h
      rw [h.1]
      rfl
    · split
      · rename_i h
        rw [h.1]
        rfl
      · rfl
  · rfl

/-- A read of `n` bytes takes them off the tape; if it gives up it passes nothing on. -/
def Counted (n : Nat) (buffer : List UInt8) (tape : Tape) : ReadResult × Tape → Prop
  | (.done full, t') => full.length = buffer.length + n ∧
      (bytes t').length + n = (bytes tape).length
  | (.stopped event, t') => cost event = 0 ∧ (bytes t').length ≤ (bytes tape).length

theorem Counted.byte {n : Nat} {b : UInt8} {buffer : List UInt8} {tape : Tape}
    {r : ReadResult × Tape} (h : Counted n (buffer ++ [b]) tape r) :
    Counted (n + 1) buffer (.byte b :: tape) r := by
  obtain ⟨res, t'⟩ := r
  cases res with
  | done full =>
    simp only [Counted, bytes, List.length_append, List.length_cons, List.length_nil] at h ⊢
    omega
  | stopped event => exact ⟨h.1, Nat.le_succ_of_le h.2⟩

/-- Whatever stands on the tape, the bytes are counted. -/
theorem readItems_count (n : Nat) (buffer : List UInt8) (tape : Tape) :
    Counted n buffer tape (readItems n buffer tape) := by
  induction tape generalizing n buffer with
  | nil =>
    cases n with
    | zero => simp [readItems, Counted]
    | succ n =>
      simp only [readItems]
      split <;> simp [Counted, cost]
  | cons x tape ih =>
    cases n with
    | zero => simp [readItems, Counted]
    | succ n =>
      cases x with
      | byte b => exact (ih n (buffer ++ [b])).byte
      | cut => exact ih (n + 1) buffer
      | eof => simp [readItems, Counted, cost]
      | fail e =>
        simp only [readItems]
        split
        · exact ih (n + 1) buffer
        · split
          · split
            · simp [Counted, bytes, cost]
            · exact ih (n + 1) buffer
          · simp [Counted, bytes, cost]

theorem eventRead_cost (tape : Tape) :
    cost (eventRead tape).1 + (bytes (eventRead tape).2).length ≤ (bytes tape).length := by
  have hheader := readItems_count 2 [] tape
  simp only [eventRead, readFn_eq]
  cases hr : readItems 2 [] tape with
  | mk res t₁ =>
    rw [hr] at hheader
    cases res with
    | stopped event =>
      simp only [Counted] at hheader ⊢
      omega
    | done header =>
      have hbody := readItems_count (messageSize header) [] t₁
      simp only [Counted] at hheader ⊢
      split
      · simp only [cost]; omega
      · cases hr' : readItems (messageSize header) [] t₁ with
        | mk res t₂ =>
          rw [hr'] at hbody
          cases res with
          | stopped event =>
            simp only [Counted] at hbody ⊢
            omega
          | done buffer =>
            simp only [Counted, List.length_nil, cost_dispatch] at hbody ⊢
            omega

/-- The frames passed on never amount to more than the bytes received. -/
theorem serve_cost (n : Nat) (tape : Tape) :
    ((serve n tape).map cost).sum ≤ (bytes tape).length := by
  induction n generalizing tape with
  | zero => simp [serve]
  | succ n ih =>
    cases tape with
    | nil => simp [serve]
    | cons x tape =>
      have hcost := eventRead_cost (x :: tape)
      have hrest := ih (eventRead (x :: tape)).2
      rw [serve]
      split
      · rename_i heq
        rw [heq] at hcost hrest
        simp only at hcost hrest
        omega
      · simp [cost]
      · rename_i heq
        rw [heq] at hcost hrest
        simp only [List.map_cons, List.sum_cons] at hcost hrest ⊢
        omega

/-! ## One frame -/

theorem messageSize_frame {msg : List UInt8} (h : msg.length ≤ maxMessageSize) :
    messageSize [UInt8.ofNat (msg.length / 256), UInt8.ofNat msg.length] = msg.length := by
  simp only [messageSize, UInt8.toNat_ofNat', maxMessageSize] at *
  omega

/-- The three ways a call meets a frame: too early, too late for its header, or just in time. -/
theorem eventRead_frame {msg more : List UInt8} {tape : Tape} (hlen : msg.length ≤ maxMessageSize)
    (hsoft : Soft Retryable tape) (hb : bytes tape = frame msg ++ more) :
    (∃ t', eventRead tape = (.quiet, t') ∧ Idle tape t' ∧ t'.length < tape.length) ∨
    (msg ≠ [] ∧ FailsAt WouldBlock tape 2 ∧
      ∃ t', eventRead tape = (.quiet, t') ∧ (bytes t').length = msg.length + more.length) ∨
    ((msg ≠ [] → ¬ FailsAt WouldBlock tape 2) ∧
      ∃ t', eventRead tape = (dispatch msg, t') ∧ Behind (msg.length + 2) tape t') := by
  have htwo : 1 + 1 ≤ (bytes tape).length := by simp [hb, frame]
  simp only [eventRead, readFn_eq]
  rcases readItems_first hsoft htwo with ⟨_, t', hr, hi, hlt⟩ | ⟨_, t₁, hr, hbehind⟩
  · rw [hr]
    exact .inl ⟨t', rfl, hi, hlt⟩
  · have hheader : (bytes tape).take (1 + 1) =
        [UInt8.ofNat (msg.length / 256), UInt8.ofNat msg.length] := by
      simp [hb, frame]
    have hbody : bytes t₁ = msg ++ more := by
      rw [hbehind.bytes_drop, hb]
      rfl
    rw [hr, hheader]
    simp only [messageSize_frame hlen, Nat.not_lt.mpr hlen, ↓reduceIte]
    have hsoft₁ := hbehind.soft hsoft
    have hfails := hbehind.failsAt (p := WouldBlock) 0
    cases hmsg : msg with
    | nil => exact .inr (.inr ⟨fun h => absurd rfl h, t₁, by simp [readItems], hbehind⟩)
    | cons b bs =>
      have hn : bs.length + 1 ≤ (bytes t₁).length := by simp [hbody, hmsg]
      rcases readItems_first hsoft₁ hn with ⟨hf, t', hr', hi, _⟩ | ⟨hf, t', hr', hbehind'⟩
      · refine .inr (.inl ⟨by simp, hfails.mpr hf, t', by simp only [List.length_cons, hr'], ?_⟩)
        rw [hi.bytes_eq, hbody, hmsg, List.length_append]
      · refine .inr (.inr ⟨fun _ h => hf (hfails.mp h), t', ?_, ?_⟩)
        · simp only [List.length_cons, hr', hbody, hmsg]
          congr 2
          simp
        · have := hbehind.trans hbehind'
          rwa [Nat.add_comm] at this

/-! ## Any number of frames -/

/-- No failure that would block comes between the length of a nonempty frame and its first byte. -/
def NoGap (payloads : List (List UInt8)) (tape : Tape) : Prop :=
  ∀ front msg back, payloads = front ++ msg :: back → msg ≠ [] →
    ¬ FailsAt WouldBlock tape ((front.flatMap frame).length + 2)

theorem frame_length (msg : List UInt8) : (frame msg).length = msg.length + 2 := rfl

theorem noGap_cons {msg : List UInt8} {payloads : List (List UInt8)} {tape t' : Tape}
    (h : Behind (msg.length + 2) tape t') :
    NoGap (msg :: payloads) tape ↔ (msg ≠ [] → ¬ FailsAt WouldBlock tape 2) ∧
    NoGap payloads t' := by
  have hshift (k : Nat) : FailsAt WouldBlock tape (msg.length + 2 + k) ↔ FailsAt WouldBlock t' k :=
    h.failsAt k
  constructor
  · intro hgap
    refine ⟨hgap [] msg payloads rfl, ?_⟩
    intro front m back heq hm
    have := hgap (msg :: front) m back (by rw [heq]; rfl) hm
    rwa [List.flatMap_cons, List.length_append, frame_length, Nat.add_assoc, hshift] at this
  · rintro ⟨hfirst, hrest⟩ front m back heq hm
    cases front with
    | nil =>
      obtain ⟨rfl, _⟩ := List.cons.inj heq
      exact hfirst hm
    | cons a front =>
      obtain ⟨rfl, heq'⟩ := List.cons.inj heq
      rw [List.flatMap_cons, List.length_append, frame_length, Nat.add_assoc, hshift]
      exact hrest front m back heq' hm

theorem noGap_idle {payloads : List (List UInt8)} {tape t' : Tape} (h : Idle tape t') :
    NoGap payloads tape ↔ NoGap payloads t' := by
  simp only [NoGap, show ∀ k, k + 2 = k + 1 + 1 from fun _ => rfl, h.failsAt]

theorem serve_quiet {n : Nat} {tape t' : Tape} (hne : tape ≠ [])
    (h : eventRead tape = (.quiet, t')) : serve (n + 1) tape = serve n t' := by
  cases tape with
  | nil => exact absurd rfl hne
  | cons x tape => rw [serve, h]

theorem serve_dispatch {n : Nat} {msg : List UInt8} {tape t' : Tape} (hne : tape ≠ [])
    (h : eventRead tape = (dispatch msg, t')) :
    serve (n + 1) tape = dispatch msg :: serve n t' := by
  cases tape with
  | nil => exact absurd rfl hne
  | cons x tape =>
    have hcost := cost_dispatch msg
    rw [serve, h]
    split
    · rename_i heq
      rw [(Prod.mk.inj heq).1] at hcost
      simp [cost] at hcost
    · rename_i heq
      rw [(Prod.mk.inj heq).1] at hcost
      simp [cost] at hcost
    · rename_i heq
      obtain ⟨rfl, rfl⟩ := Prod.mk.inj heq
      rfl

theorem cost_payloads (payloads : List (List UInt8)) :
    ((payloads.map dispatch).map cost).sum = (payloads.flatMap frame).length := by
  induction payloads with
  | nil => rfl
  | cons msg payloads ih =>
    simp only [List.map_cons, List.sum_cons, List.flatMap_cons, List.length_append, ih,
      cost_dispatch, frame_length]

/-- A tape of frames is passed on frame by frame, or a frame loses its header in a gap and the
bytes do not suffice any more. -/
theorem serve_iff {n : Nat} {payloads : List (List UInt8)} {tape : Tape} (hn : tape.length ≤ n)
    (hsoft : Soft Retryable tape) (hb : bytes tape = payloads.flatMap frame)
    (hlen : ∀ msg ∈ payloads, msg.length ≤ maxMessageSize) :
    serve n tape = payloads.map dispatch ↔ NoGap payloads tape := by
  induction n generalizing tape payloads with
  | zero =>
    obtain rfl : tape = [] := List.length_eq_zero_iff.mp (by omega)
    cases payloads with
    | nil => simp [serve, NoGap]
    | cons msg payloads => simp [bytes, frame] at hb
  | succ n ih =>
    by_cases hne : tape = []
    · subst hne
      cases payloads with
      | nil => simp [serve, NoGap]
      | cons msg payloads => simp [bytes, frame] at hb
    · have hpos := List.length_pos_iff.mpr hne
      cases payloads with
      | nil =>
        obtain ⟨t', hr, hi, hle⟩ := readItems_none (n := 1) hsoft hb
        have he : eventRead tape = (.quiet, t') := by simp only [eventRead, readFn_eq, hr]
        rw [serve_quiet hne he, noGap_idle hi]
        exact ih (by omega) (hi.soft hsoft) (by rw [hi.bytes_eq, hb]) hlen
      | cons msg payloads =>
        have hlen' := hlen msg List.mem_cons_self
        have hfirst : bytes tape = frame msg ++ payloads.flatMap frame := hb
        rcases eventRead_frame hlen' hsoft hfirst with
          ⟨t', he, hi, hlt⟩ | ⟨hm, hf, t', he, hb'⟩ | ⟨hf, t', he, hbehind⟩
        · rw [serve_quiet hne he, noGap_idle hi]
          exact ih (by omega) (hi.soft hsoft) (by rw [hi.bytes_eq, hb]) hlen
        · -- the header is gone: what is left cannot pay for all the frames
          rw [serve_quiet hne he]
          constructor
          · intro heq
            have hcost := serve_cost n t'
            rw [heq, cost_payloads, hb', List.flatMap_cons, List.length_append,
              frame_length] at hcost
            omega
          · intro hgap
            exact absurd hf (hgap [] msg payloads rfl hm)
        · have hle := hbehind.length_le
          have hb' : bytes t' = payloads.flatMap frame := by
            rw [hbehind.bytes_drop, hb, List.flatMap_cons, ← frame_length, List.drop_left]
          rw [serve_dispatch hne he, List.map_cons, List.cons_eq_cons, noGap_cons hbehind,
            ih (by omega) (hbehind.soft hsoft) hb' fun m hm => hlen m (List.mem_cons_of_mem _ hm)]
          exact ⟨fun h => ⟨hf, h.2⟩, fun h => ⟨rfl, h.2⟩⟩

/-! ## From sender to receiver -/

/-- A send that returns has put its frame on the socket, whatever the partial sends were. -/
theorem sendLoop_ok {buf wire : List UInt8} {outcomes : List Sent}
    (h : sendLoop buf outcomes = (some (.ok ()), wire)) : wire = buf := by
  induction outcomes generalizing buf wire with
  | nil =>
    cases buf with
    | nil =>
      simp only [sendLoop, Prod.mk.injEq] at h
      exact h.2.symm
    | cons b buf => simp [sendLoop] at h
  | cons outcome outcomes ih =>
    cases buf with
    | nil =>
      simp only [sendLoop, Prod.mk.injEq] at h
      exact h.2.symm
    | cons b buf =>
      cases outcome with
      | count k =>
        simp only [sendLoop, Prod.mk.injEq] at h
        obtain ⟨hres, rfl⟩ := h
        have hrest : _ = (b :: buf).drop k := ih (Prod.ext hres rfl)
        exact (congrArg ((b :: buf).take k ++ ·) hrest).trans (List.take_append_drop k (b :: buf))
      | failed e =>
        simp only [sendLoop] at h
        split at h
        · exact ih h
        · split at h <;> simp at h

/-- The stream that successive calls of `send_message_internal` leave on one socket. -/
inductive Stream : List (List UInt8) → List UInt8 → Prop where
  | nil : Stream [] []
  | send {msg wire stream : List UInt8} {payloads : List (List UInt8)} {outcomes : List Sent} :
      sendMessageInternal true msg outcomes = (some (.ok ()), wire) → Stream payloads stream →
      Stream (msg :: payloads) (wire ++ stream)

theorem stream_frames {payloads : List (List UInt8)} {stream : List UInt8}
    (h : Stream payloads stream) :
    stream = payloads.flatMap frame ∧ ∀ msg ∈ payloads, msg.length ≤ maxMessageSize := by
  induction h with
  | nil => simp
  | send hsend _ ih =>
    simp only [sendMessageInternal, Bool.not_true, Bool.false_eq_true, ↓reduceIte] at hsend
    split at hsend
    · simp at hsend
    · rename_i hle
      rw [sendLoop_ok hsend, ih.1]
      refine ⟨rfl, ?_⟩
      intro m hm
      rcases List.mem_cons.mp hm with rfl | hm
      · omega
      · exact ih.2 m hm

/-- The ways the kernel can hand a stream to `recv`. -/
structure Delivers (stream : List UInt8) (tape : Tape) : Prop where
  complete : bytes tape = stream
  retryable : Soft Retryable tape

/-- The payloads sent are passed on in order and exactly once if and only if no failure that would
block comes between the length of a nonempty message and its first byte. -/
theorem payloads_passed_on_iff {payloads : List (List UInt8)} {stream : List UInt8} {tape : Tape}
    (hs : Stream payloads stream) (hd : Delivers stream tape) :
    serve tape.length tape = payloads.map dispatch ↔ NoGap payloads tape := by
  obtain ⟨rfl, hlen⟩ := stream_frames hs
  exact serve_iff (Nat.le_refl _) hd.retryable hd.complete hlen

/-- The message "Hi", sent in two pieces. -/
theorem hi_stream : Stream [[72, 105]] [0, 2, 72, 105] :=
  @Stream.send [72, 105] [0, 2, 72, 105] [] [] [.count 1, .failed .EINTR, .count 3] rfl .nil

/-- Short reads, an interrupted call and one that would block inside the payload are harmless. -/
theorem hi_passed_on :
    serve 7 [.byte 0, .cut, .byte 2, .fail .EINTR, .byte 72, .fail .EAGAIN, .byte 105] =
      [.slotMessage [72, 105]] ∧
    NoGap [[72, 105]] [.byte 0, .cut, .byte 2, .fail .EINTR, .byte 72,
      .fail .EAGAIN, .byte 105] := by
  have hd : Delivers [0, 2, 72, 105]
      [.byte 0, .cut, .byte 2, .fail .EINTR, .byte 72, .fail .EAGAIN, .byte 105] := by
    refine ⟨rfl, ?_⟩
    simp [Soft, Retryable, WouldBlock]
  exact ⟨rfl, (payloads_passed_on_iff hi_stream hd).mp rfl⟩

/-- A call that would block behind the length loses it: the payload is taken for the next length. -/
theorem hi_lost :
    Stream [[72, 105]] [0, 2, 72, 105] ∧
    Delivers [0, 2, 72, 105] [.byte 0, .byte 2, .fail .EAGAIN, .byte 72, .byte 105] ∧
    serve 5 [.byte 0, .byte 2, .fail .EAGAIN, .byte 72, .byte 105] = [.slotClosed Errno.EIO] ∧
    serve 5 [.byte 0, .byte 2, .fail .EAGAIN, .byte 72, .byte 105] ≠ [[72, 105]].map dispatch := by
  refine ⟨hi_stream, ⟨rfl, ?_⟩, rfl, by decide⟩
  simp [Soft, Retryable, WouldBlock]

end ShmIpcControlFraming
