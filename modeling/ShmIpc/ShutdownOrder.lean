import ShmIpc.ShutdownSafety

/-!
# The child goes first

Without exceptions, panics and timeouts the child closes its descriptors only
when the parent has told it to, and the parent closes its own only behind the
child. So no announcement ever meets a closed descriptor.
-/
namespace ShmIpcShutdownOrder

open Handshake (Side)
open LabelledRun ShmIpcShutdown ShmIpcShutdownSafety

/-- Nothing throws, panics or is killed, and nobody runs out of patience. -/
def Orderly (s : System) : Label → Prop
  | .act _ .throw | .act _ (.panic _) | .act _ .kill => False
  | .act a .test => (headOfLoop a s.now (s.processes a)).place ≠ .sending false
  | _ => True

instance decidableOrderly (s : System) : ∀ l, Decidable (Orderly s l)
  | .act _ .throw | .act _ (.panic _) | .act _ .kill => .isFalse id
  | .act a .test => inferInstanceAs
      (Decidable ((headOfLoop a s.now (s.processes a)).place ≠ .sending false))
  | .tick | .act _ .start | .act _ .signal | .act _ .send | .act _ .poll | .act _ .receive =>
    .isTrue trivial
  | .act _ .wakeupClosed | .act _ .endRound | .act _ .closeFds | .act _ .exit => .isTrue trivial
  | .act _ .wait => .isTrue trivial

/-- The parent's descriptors outlive those of the child, and the child has been told. -/
structure Ordered (s : System) : Prop where
  graceful : ∀ a, ∀ msg ∈ (s.processes a).sent, asksFor msg = some true
  onTime : ∀ a, (s.processes a).place ≠ .sending false
  childTold : (s.processes .right).place = .leaving ∨ (s.processes .right).controlFd = false →
    announcements (s.processes .right).received = [true]
  childWakeup : (s.processes .right).wakeupFd = false → (s.processes .right).controlFd = false
  childBlocked : (s.processes .right).place ≠ .blocked
  parentControl : (s.processes .left).controlFd = false → (s.processes .right).controlFd = false
  parentWakeup : (s.processes .left).wakeupFd = false → (s.processes .right).controlFd = false
  parentBlocked : (s.processes .left).place = .blocked → (s.processes .right).controlFd = false
  parentLeaving : (s.processes .left).place = .leaving → (s.processes .left).controlFd = false

variable {s t : System} {act : Act}

/-- A child that has been told has received one graceful announcement. -/
theorem received_of_told (hs : Sound s) (ho : Ordered s) (h : Told .right (s.processes .right)) :
    announcements (s.processes .right).received = [true] := by
  have hflags := (hs.sane .right).flags
  have hshape : announcements (s.processes .right).received <+: [true, false] :=
    (List.IsPrefix.filterMap _ ⟨_, (hs.linked .left).symm⟩).trans (hs.sane .left).shape
  have hall : ∀ x ∈ announcements (s.processes .right).received, x = true := by
    intro x hx
    obtain ⟨msg, hmem, hask⟩ := List.mem_filterMap.mp hx
    have hsent : msg ∈ (s.processes .left).sent := by
      rw [hs.linked .left]
      exact List.mem_append_left _ hmem
    exact Option.some.inj (hask.symm.trans (ho.graceful .left msg hsent))
  match hl : announcements (s.processes .right).received, hshape with
  | [], _ =>
    simp only [flagsAfter, hl, List.getLast?_nil, Prod.mk.injEq] at hflags
    rcases h.2 with h | h
    · rw [hflags.1] at h
      cases h
    · rw [hflags.2] at h
      cases h
  | [x], hshape => rw [hall x (hl ▸ List.mem_singleton_self x)]
  | [x, y], hshape =>
    have hy := hall y (by simp [hl])
    obtain ⟨_, rfl⟩ : x = true ∧ y = false := by simpa using hshape
    cases hy
  | _ :: _ :: _ :: _, hshape => exact absurd hshape.length_le (by simp)

/-! ## The parent's steps -/

theorem ordered_left {p : Process} (ho : Ordered s)
    (hsent : ∀ msg ∈ p.sent, asksFor msg = some true) (htime : p.place ≠ .sending false)
    (hcontrol : p.controlFd = false → (s.processes .right).controlFd = false)
    (hwakeup : p.wakeupFd = false → (s.processes .right).controlFd = false)
    (hblocked : p.place = .blocked → (s.processes .right).controlFd = false)
    (hleaving : p.place = .leaving → p.controlFd = false) : Ordered (s.set .left p) := by
  have hright : (s.set .left p).processes .right = s.processes .right := set_other s .left p
  refine ⟨fun a => ?_, fun a => ?_, ?_, ?_, ?_, ?_, ?_, ?_, ?_⟩
  · cases a with
    | left => rwa [set_self]
    | right => rw [hright]; exact ho.graceful .right
  · cases a with
    | left => rwa [set_self]
    | right => rw [hright]; exact ho.onTime .right
  · rw [hright]
    exact ho.childTold
  · rw [hright]
    exact ho.childWakeup
  · rw [hright]
    exact ho.childBlocked
  · rwa [set_self, hright]
  · rwa [set_self, hright]
  · rwa [set_self, hright]
  · rwa [set_self]

/-! ## The child's steps -/

theorem ordered_right {p : Process} (ho : Ordered s)
    (hsent : ∀ msg ∈ p.sent, asksFor msg = some true) (htime : p.place ≠ .sending false)
    (htold : p.place = .leaving ∨ p.controlFd = false → announcements p.received = [true])
    (hwakeup : p.wakeupFd = false → p.controlFd = false) (hblocked : p.place ≠ .blocked)
    (hcontrol : (s.processes .right).controlFd = false → p.controlFd = false) :
    Ordered (s.set .right p) := by
  have hleft : (s.set .right p).processes .left = s.processes .left := set_other s .right p
  refine ⟨fun a => ?_, fun a => ?_, ?_, ?_, ?_, ?_, ?_, ?_, ?_⟩
  · cases a with
    | left => rw [hleft]; exact ho.graceful .left
    | right => rwa [set_self]
  · cases a with
    | left => rw [hleft]; exact ho.onTime .left
    | right => rwa [set_self]
  · rwa [set_self]
  · rwa [set_self]
  · rwa [set_self]
  · rw [set_self, hleft]
    exact fun h => hcontrol (ho.parentControl h)
  · rw [set_self, hleft]
    exact fun h => hcontrol (ho.parentWakeup h)
  · rw [set_self, hleft]
    exact fun h => hcontrol (ho.parentBlocked h)
  · rw [hleft]
    exact ho.parentLeaving

/-- What is on its way does not matter. -/
theorem ordered_inbox (ho : Ordered s) (a : Side) (inbox : List (List UInt8)) :
    Ordered (s.set a { s.processes a with inbox := inbox }) := by
  cases a with
  | left =>
    exact ordered_left ho (ho.graceful .left) (ho.onTime .left) ho.parentControl
      ho.parentWakeup ho.parentBlocked ho.parentLeaving
  | right =>
    exact ordered_right ho (ho.graceful .right) (ho.onTime .right) ho.childTold ho.childWakeup
      ho.childBlocked id

/-! ## Every step -/

theorem ordered_signalled (ho : Ordered s) (a : Side) :
    Ordered (s.set a { s.processes a with shouldShutdown := true }) := by
  cases a with
  | left =>
    exact ordered_left ho (ho.graceful .left) (ho.onTime .left) ho.parentControl
      ho.parentWakeup ho.parentBlocked ho.parentLeaving
  | right =>
    exact ordered_right ho (ho.graceful .right) (ho.onTime .right) ho.childTold ho.childWakeup
      ho.childBlocked id

theorem ordered_place (ho : Ordered s) (a : Side) {place : Place} (htime : place ≠ .sending false)
    (hleaving : place ≠ .leaving) (hblocked : place ≠ .blocked) :
    Ordered (s.set a { s.processes a with place := place }) := by
  cases a with
  | left =>
    exact ordered_left ho (ho.graceful .left) htime ho.parentControl ho.parentWakeup
      (absurd · hblocked) (absurd · hleaving)
  | right =>
    refine ordered_right ho (ho.graceful .right) htime ?_ ho.childWakeup hblocked id
    exact fun h => ho.childTold (h.elim (absurd · hleaving) .inr)

theorem ordered_tested (hs : Sound s) (ho : Ordered s) (a : Side)
    (htime : (headOfLoop a s.now (s.processes a)).place ≠ .sending false) :
    Ordered (s.set a (headOfLoop a s.now (s.processes a))) := by
  have hhead := head_cases a s.now (s.processes a)
  generalize headOfLoop a s.now (s.processes a) = q at hhead htime ⊢
  cases hhead with
  | running _ => exact ordered_place ho a nofun nofun nofun
  | controlClosed _ hclosed =>
    have hfd := ((hs.sane a).closed hclosed).2.1
    cases a with
    | left =>
      exact ordered_left ho (ho.graceful .left) nofun ho.parentControl ho.parentWakeup
        nofun fun _ => hfd
    | right =>
      exact ordered_right ho (ho.graceful .right) nofun (fun _ => ho.childTold (.inr hfd))
        ho.childWakeup nofun id
  | told _ _ htold =>
    obtain ⟨rfl, _⟩ := id htold
    exact ordered_right ho (ho.graceful .right) nofun (fun _ => received_of_told hs ho htold)
      ho.childWakeup nofun id
  | first _ _ _ _ =>
    cases a with
    | left =>
      exact ordered_left ho (ho.graceful .left) nofun ho.parentControl ho.parentWakeup nofun nofun
    | right =>
      refine ordered_right ho (ho.graceful .right) nofun ?_ ho.childWakeup nofun id
      exact fun h => ho.childTold (h.elim nofun .inr)
  | late _ _ _ _ _ => exact absurd rfl htime
  | waiting _ _ _ _ _ => exact ordered_place ho a nofun nofun nofun

theorem ordered_sent (ho : Ordered s) (a : Side) :
    Ordered ((s.set a { s.processes a with place := .top }).post a (shutdownMsg true)) := by
  have hnew : ∀ msg ∈ (s.processes a).sent ++ [shutdownMsg true], asksFor msg = some true := by
    intro msg hmem
    rcases List.mem_append.mp hmem with hmem | hmem
    · exact ho.graceful a msg hmem
    · rw [List.mem_singleton.mp hmem]
      exact asksFor_shutdownMsg true
  have hpost : (s.set a { s.processes a with place := .top }).post a (shutdownMsg true) =
      (s.set a
        { s.processes a with place := .top, sent := (s.processes a).sent ++ [shutdownMsg
          true] }).set a.other
          { s.processes a.other with inbox := (s.processes
            a.other).inbox ++ [shutdownMsg true] } := by
    simp only [System.post, System.set, System.mk.injEq, and_true]
    funext b
    rcases Handshake.eq_or_other a b with rfl | rfl <;> simp
  rw [hpost]
  have hstep : Ordered (s.set a { s.processes a with
      place := .top, sent := (s.processes a).sent ++ [shutdownMsg true] }) := by
    cases a with
    | left =>
      refine ordered_left ho hnew ?_ ho.parentControl ho.parentWakeup ?_ ?_ <;> rintro ⟨⟩
    | right =>
      refine ordered_right ho hnew ?_ (fun h => ho.childTold (.inr ?_)) ho.childWakeup ?_ id
      · rintro ⟨⟩
      · rcases h with h | h
        · cases h
        · exact h
      · rintro ⟨⟩
  have hin := ordered_inbox hstep a.other ((s.processes a.other).inbox ++ [shutdownMsg true])
  rwa [set_other] at hin

theorem ordered_message (hs : Sound s) (ho : Ordered s) (a : Side) {msg : List UInt8}
    {rest : List (List UInt8)} (hfd : (s.processes a).controlFd = true)
    (hin : (s.processes a).inbox = msg :: rest) : Ordered (s.set a
      ({ s.processes a with inbox := rest, received := (s.processes a).received ++ [msg] }.receive
        msg)) := by
  have hmem : msg ∈ (s.processes a.other).sent := by
    have h := hs.linked a.other
    rw [Handshake.other_other] at h
    rw [h, hin]
    simp
  rcases receive_cases
    { s.processes a with inbox := rest, received := (s.processes a).received ++ [msg] } msg with
    ⟨graceful, _, heq⟩ | ⟨hnone, _⟩
  · rw [heq]
    cases a with
    | left =>
      exact ordered_left ho (ho.graceful .left) nofun ho.parentControl ho.parentWakeup nofun nofun
    | right =>
      refine ordered_right ho (ho.graceful .right) nofun ?_ ho.childWakeup nofun id
      rintro (h | h)
      · cases h
      · exact absurd (hfd.symm.trans h) nofun
  · rw [ho.graceful a.other msg hmem] at hnone
    cases hnone

theorem ordered_effect (hs : Sound s) (ho : Ordered s) {a : Side} (hadm : Orderly s (.act a act))
    (h : Effect s a act t) : Ordered t := by
  cases h with
  | moved hm =>
    cases hplace : (s.processes a).place <;> rw [hplace] at hm <;> cases hm
    · exact ordered_place ho a nofun nofun nofun
    · cases hadm
    · exact ordered_place ho a nofun nofun nofun
    · cases hadm
    · exact ordered_place ho a nofun nofun nofun
    · cases hadm
  | signalled _ => exact ordered_signalled ho a
  | tested _ => exact ordered_tested hs ho a hadm
  | @sent graceful hplace _ =>
    cases graceful with
    | true => exact ordered_sent ho a
    | false => exact absurd hplace (ho.onTime a)
  | message _ hfd hin => exact ordered_message hs ho a hfd hin
  | closed hplace hfd _ hpeer =>
    cases a with
    | left =>
      exact ordered_left ho (ho.graceful .left) nofun (fun _ => hpeer) (fun _ => hpeer) nofun nofun
    | right => exact absurd (hfd.symm.trans (ho.parentControl hpeer)) nofun
  | wakeupClosed hplace hfd hpeer =>
    cases a with
    | left =>
      have hchild := ho.childWakeup hpeer
      exact ordered_left ho (ho.graceful .left) nofun ho.parentControl (fun _ => hchild)
        (fun _ => hchild) nofun
    | right =>
      -- the child would have seen the end of the control stream before
      have hopen := (hs.sane .right).opened (by rcases hplace with h | h <;> rw [h] <;> nofun)
      have hclosed := ho.parentWakeup hpeer
      by_cases hc : (s.processes .right).controlFdClosed = true
      · exact absurd (hfd.symm.trans ((hs.sane .right).closed hc).2.2) nofun
      · exact absurd ((hopen (Bool.eq_false_iff.mpr hc)).symm.trans hclosed) nofun
  | waits _ _ => cases hadm
  | reaps ha hplace hpeer =>
    subst ha
    have hchild := ((hs.sane .right).gone hpeer).1
    exact ordered_left ho (ho.graceful .left) nofun (fun _ => hchild) (fun _ => hchild) nofun nofun
  | panicked _ _ => cases hadm
  | ended hends =>
    generalize hplace : (s.processes a).place = place at hends
    cases hends with
    | throw => cases hadm
    | panic _ _ => cases hadm
    | kill _ => cases hadm
    | closeFds =>
      cases a with
      | left =>
        have hchild := ho.parentControl (ho.parentLeaving hplace)
        exact ordered_left ho (ho.graceful .left) nofun (fun _ => hchild)
          (fun _ => hchild) nofun nofun
      | right =>
        exact ordered_right ho (ho.graceful .right) nofun (fun _ => ho.childTold (.inl hplace))
          (fun _ => rfl) nofun fun _ => rfl
    | exit =>
      cases a with
      | left =>
        have hchild := ho.parentBlocked hplace
        exact ordered_left ho (ho.graceful .left) nofun (fun _ => hchild)
          (fun _ => hchild) nofun nofun
      | right => exact absurd hplace ho.childBlocked

/-! ## Every orderly run -/

theorem ordered_step {l : Label} (h : Sound s ∧ Ordered s)
    (hstep : guarded Orderly (ofFun step) s l t) : Sound t ∧ Ordered t := by
  obtain ⟨hadm, hstep⟩ := hstep
  refine ⟨sound_step h.1 hstep, ?_⟩
  cases l with
  | tick =>
    cases hstep
    exact ⟨h.2.graceful, h.2.onTime, h.2.childTold, h.2.childWakeup,
      h.2.childBlocked, h.2.parentControl, h.2.parentWakeup, h.2.parentBlocked, h.2.parentLeaving⟩
  | act a act => exact ordered_effect h.1 h.2 hadm (effect_of_step hstep)

/-- One of the two descriptors has been closed. -/
def Closing (p : Process) : Prop := p.controlFd = false ∨ p.wakeupFd = false

end ShmIpcShutdownOrder
