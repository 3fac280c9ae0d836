import ShmIpc.SocketFd

/-!
# No descriptor is left behind

Opening a socket either hands over the one descriptor it opened or leaves the
open descriptors as they were. Accepting does the same unless the peer has an
address that cannot be copied: then the connection stays open, and nobody knows
its descriptor.
-/
namespace ShmIpcSocketLeak

open ShmIpcSocketAddress ShmIpcSocketFd

/-- The descriptor returned is the one descriptor that is open now and was not before. -/
def Balanced (before : Finset Int) : Except String Int × World → Prop
  | (.ok fd, w) => if fd = -1 then w.opened ⊆ before else fd ∉ before ∧ w.opened = insert fd before
  | (.error _, w) => w.opened ⊆ before

theorem balanced_of_opened {before : Finset Int} {fd : Int} {w : World}
    (hfresh : fd ∉ before) (hfd : 0 ≤ fd) (h : w.opened = insert fd before) :
    Balanced before (.ok fd, w) := by
  have hne : fd ≠ -1 := by omega
  simp only [Balanced, if_neg hne]
  exact ⟨hfresh, h⟩

theorem balanced_failed (before : Finset Int) {w : World} (h : w.opened = before) :
    Balanced before (.ok (-1), w) :=
  h.subset

section
variable (k : Kernel)

/-! ## What a call opens -/

theorem invoke_opened (call : Call) (w : World) : (invoke k call w).2.opened = w.opened := by
  unfold invoke
  split <;> rfl

/-- Nothing was opened, or one descriptor that was not in use. -/
def Opens (before : Finset Int) (opened : Int × World) : Prop :=
  opened.1 = -1 ∧ opened.2.opened = before ∨
    opened.1 ∉ before ∧ 0 ≤ opened.1 ∧ opened.2.opened = insert opened.1 before

theorem invokeOpen_error {call : Call} {w : World} {e : Errno}
    (h : k.reply w.calls call = .error e) :
    (invokeOpen k call w).1 = -1 ∧ (invokeOpen k call w).2.opened = w.opened := by
  simp [invokeOpen, invoke, h]

theorem invokeOpen_ok {call : Call} {w : World} {value : UInt32}
    (h : k.reply w.calls call = .ok value) :
      (invokeOpen k call w).1 ∉ w.opened ∧ 0 ≤ (invokeOpen k call w).1 ∧
      (invokeOpen k call w).2.opened = insert (invokeOpen k call w).1 w.opened := by
  simp [invokeOpen, invoke, h, k.descriptor_fresh w.calls w.opened]

theorem opens_invokeOpen (call : Call) (w : World) : Opens w.opened (invokeOpen k call w) := by
  cases h : k.reply w.calls call with
  | error e => exact .inl (invokeOpen_error k h)
  | ok value => exact .inr (invokeOpen_ok k h)

theorem fdSetNonblock_opened (fd : Int) (w : World) :
    (fdSetNonblock k fd w).2.opened = w.opened := by
  have hget := invoke_opened k (.fcntl fd .getfl) w
  unfold fdSetNonblock
  split
  case h_1 w' h =>
    rw [h] at hget
    exact hget
  case h_2 flags w' h =>
    rw [h] at hget
    have hset := invoke_opened k (.fcntl fd (.setfl (flags ||| k.oNonblock))) w'
    split
    case h_1 w'' h =>
      rw [h] at hset
      exact hset.trans hget
    case h_2 value w'' h =>
      rw [h] at hset
      exact hset.trans hget

theorem setOption_opened (option : SocketOption) (fd : Int) (state : Bool) (w : World) :
    (setOption k option fd state w).2.opened = w.opened := by
  have h := invoke_opened k (.setsockopt fd option state) w
  unfold setOption
  split
  case h_1 w' hw =>
    rw [hw] at h
    exact h
  case h_2 value w' hw =>
    rw [hw] at h
    exact h

/-! ## Opening -/

theorem opens_openSocket (flags : FdFlags) (domain : SocketType) (protocol : Protocol) (w : World) :
    Opens w.opened (openSocket k flags domain protocol w) := by
  have hfirst : Opens w.opened
      (if !has flags fdFlagV4only then fdSocketCall k .inet6 domain protocol w else (-1, w)) := by
    split
    · exact opens_invokeOpen k _ w
    · exact .inl ⟨rfl, rfl⟩
  simp only [openSocket]
  generalize (if !has flags fdFlagV4only then fdSocketCall k .inet6 domain protocol w
    else (-1, w)) = first at hfirst ⊢
  split
  case isTrue h =>
    -- nothing was opened yet, so the second try starts from the same descriptors
    have hfd : first.1 = -1 := eq_of_beq (Bool.and_eq_true_iff.mp h).1
    rcases hfirst with ⟨_, hopened⟩ | ⟨_, hpos, _⟩
    · rw [← hopened]
      exact opens_invokeOpen k _ _
    · omega
  case isFalse => exact hfirst

theorem configure_balanced {before : Finset Int} {fd : Int} (hfresh : fd ∉ before) (hfd : 0 ≤ fd)
    (settings : List (Bool × (World → Bool × World)))
    (hsettings : ∀ setting ∈ settings, ∀ w, (setting.2 w).2.opened = w.opened) (w : World)
    (hw : w.opened = insert fd before) : Balanced before (configure fd settings w) := by
  induction settings generalizing w with
  | nil => exact balanced_of_opened hfresh hfd hw
  | cons setting settings ih =>
    obtain ⟨wanted, set⟩ := setting
    have hset : (set w).2.opened = w.opened := hsettings (wanted, set) List.mem_cons_self w
    replace ih := ih (fun setting h => hsettings setting (List.mem_cons_of_mem _ h))
    rw [configure]
    split
    · split
      case h_1 w' h =>
        rw [h] at hset
        exact ih w' (hset.trans hw)
      case h_2 w' h =>
        -- the setting failed: closing undoes the opening
        rw [h] at hset
        refine balanced_failed before ?_
        rw [fdCloseCall, hset, hw, Finset.erase_insert hfresh]
    · exact ih w hw

theorem configureOpened_balanced {before : Finset Int}
    (settings : Int → List (Bool × (World → Bool × World)))
    (hsettings : ∀ fd, ∀ setting ∈ settings fd, ∀ w, (setting.2 w).2.opened = w.opened)
    {opened : Int × World} (h : Opens before opened) :
    Balanced before (configureOpened settings opened) := by
  unfold configureOpened
  rcases h with ⟨hfd, h⟩ | ⟨hfresh, hfd, h⟩
  · rw [if_pos (beq_iff_eq.mpr hfd)]
    exact balanced_failed before h
  · have hne : opened.1 ≠ -1 := by omega
    rw [if_neg (mt beq_iff_eq.mp hne)]
    exact configure_balanced hfresh hfd _ (hsettings opened.1) _ h

theorem fdOpen_balanced (flags : FdFlags) (w : World) : Balanced w.opened (fdOpen k flags w) := by
  unfold fdOpen
  split
  · exact Finset.Subset.refl w.opened
  · split
    · exact balanced_failed w.opened rfl
    · refine configureOpened_balanced _ ?_ (opens_openSocket k flags _ _ w)
      intro fd setting h
      simp only [List.mem_cons, List.not_mem_nil, or_false] at h
      rcases h with rfl | rfl | rfl
      · exact setOption_opened k .v6only fd true
      · exact fdSetNonblock_opened k fd
      · exact setOption_opened k .reuseaddr fd true

theorem fdOpenFamily_balanced (flags : FdFlags) (family : Family) (w : World) :
    Balanced w.opened (fdOpenFamily k flags family w) := by
  unfold fdOpenFamily
  split
  · exact balanced_failed w.opened rfl
  · split
    · exact fdOpen_balanced k _ w
    · exact fdOpen_balanced k _ w

theorem fdOpenLocal_balanced (flags : FdFlags) (w : World) :
    Balanced w.opened (fdOpenLocal k flags w) := by
  unfold fdOpenLocal
  split
  · exact Finset.Subset.refl w.opened
  · split
    · exact Finset.Subset.refl w.opened
    · refine configureOpened_balanced _ ?_ (opens_invokeOpen k _ w)
      intro fd setting h
      simp only [List.mem_cons, List.not_mem_nil, or_false] at h
      rcases h with rfl | rfl
      · exact fdSetNonblock_opened k fd
      · exact setOption_opened k .reuseaddr fd true

/-! ## Accepting -/

/-- The descriptor that `fd_sap_accept` returns first. -/
def accepted (out : Except String (Int × Option Sockaddr) × World) : Except String Int × World :=
  (out.1.map Prod.fst, out.2)

/-- The call fails, or the family of the peer is one that `sa_copy` knows. -/
def PeerCopies (fd : Int) (w : World) : Prop :=
  (∃ e, k.reply w.calls (.accept fd) = .error e) ∨ (k.peer w.calls).saFamily.valid = true

theorem saCopy_valid {sa : Sockaddr} (h : sa.saFamily.valid = true) :
    ∃ sap, saCopy (some sa) = .ok sap := by
  cases sa with
  | unspec => exact ⟨_, rfl⟩
  | inet sin => exact ⟨_, rfl⟩
  | inet6 sin6 => exact ⟨_, rfl⟩
  | _ => cases h

theorem saCopy_invalid {sa : Sockaddr} (h : ¬ sa.saFamily.valid = true) :
    saCopy (some sa) = .error "torrent::sa_copy() sockaddr is not a valid family" := by
  cases sa with
  | unix => rfl
  | other number => rfl
  | _ => exact absurd rfl h

theorem fdSapAccept_error {fd : Int} {w : World} {e : Errno}
    (h : k.reply w.calls (.accept fd) = .error e) :
    Balanced w.opened (accepted (fdSapAccept k fd w)) := by
  obtain ⟨hfd, hopened⟩ := invokeOpen_error k h
  simp only [fdSapAccept, fdAcceptCall, hfd, beq_self_eq_true, if_true, accepted, Except.map]
  exact balanced_failed w.opened hopened

theorem fdSapAccept_ok {fd : Int} {w : World} {value : UInt32}
    (h : k.reply w.calls (.accept fd) = .ok value) :
    Balanced w.opened (accepted (fdSapAccept k fd w)) ↔ (k.peer w.calls).saFamily.valid = true := by
  obtain ⟨hfresh, hpos, hopened⟩ := invokeOpen_ok k h
  have hne : ((invokeOpen k (.accept fd) w).1 == -1) = false := beq_eq_false_iff_ne.mpr (by omega)
  simp only [fdSapAccept, fdAcceptCall, hne, accepted]
  by_cases hvalid : (k.peer w.calls).saFamily.valid = true
  · obtain ⟨sap, hsap⟩ := saCopy_valid hvalid
    refine iff_of_true ?_ hvalid
    rw [hsap]
    exact balanced_of_opened hfresh hpos hopened
  · refine iff_of_false ?_ hvalid
    rw [saCopy_invalid hvalid]
    -- the connection is open, and its descriptor is not returned
    intro hsubset
    have hmem : (invokeOpen k (.accept fd) w).1 ∈ (invokeOpen k (.accept fd) w).2.opened := by
      rw [hopened]
      exact Finset.mem_insert_self _ _
    exact hfresh (hsubset hmem)

/-- Sockets that are opened are never left behind, and connections exactly when the peer cannot be
copied. -/
theorem balanced_iff (flags : FdFlags) (family : Family) (fd : Int) (w : World) :
    Balanced w.opened (fdOpen k flags w) ∧ Balanced w.opened (fdOpenFamily k flags family w) ∧
    Balanced w.opened (fdOpenLocal k flags w) ∧
    (Balanced w.opened (accepted (fdSapAccept k fd w)) ↔ PeerCopies k fd w) := by
  refine ⟨fdOpen_balanced k flags w, fdOpenFamily_balanced k flags family w,
    fdOpenLocal_balanced k flags w, ?_⟩
  cases h : k.reply w.calls (.accept fd) with
  | error e => exact iff_of_true (fdSapAccept_error k h) (.inl ⟨e, h⟩)
  | ok value =>
    rw [fdSapAccept_ok k h, PeerCopies, h]
    simp

end

/-- A connection over a local socket: the copy of the peer's address throws, and descriptor 4 stays
open. -/
theorem local_connection_lost :
    (fdSapAccept (willing .unix) 3 ⟨[], {0, 1, 2, 3}, .EINVAL⟩).1 =
      .error "torrent::sa_copy() sockaddr is not a valid family" ∧
    (fdSapAccept (willing .unix) 3 ⟨[], {0, 1, 2, 3}, .EINVAL⟩).2.opened = {0, 1, 2, 3, 4} ∧
    ¬ Balanced {0, 1, 2, 3}
      (accepted (fdSapAccept (willing .unix) 3 ⟨[], {0, 1, 2, 3}, .EINVAL⟩)) := by
  refine ⟨by decide, by decide, fun h => ?_⟩
  have hmem : (4 : Int) ∈
    (accepted (fdSapAccept (willing .unix) 3 ⟨[], {0, 1, 2, 3}, .EINVAL⟩)).2.opened := by decide
  exact absurd (h hmem) (by decide)

end ShmIpcSocketLeak
