import Mathlib.Data.List.Basic

/-!
# Socket tapes

A tape is what the kernel hands to the successive calls of `recv` on a stream
socket: the bytes in the order they were sent, cut into short reads, with
failing calls and the close of the peer in between.
-/
namespace SocketTape

variable {ε : Type}

inductive Item (ε : Type) where
  | byte (b : UInt8) : Item ε
  | cut : Item ε
  | fail (e : ε) : Item ε
  | eof : Item ε
  deriving DecidableEq

/-- The outcome of one call of `recv`. -/
inductive Received (ε : Type) where
  | bytes (bs : List UInt8) : Received ε
  | closed : Received ε
  | failed (e : ε) : Received ε

/-- The bytes still to be received. -/
def bytes : List (Item ε) → List UInt8
  | [] => []
  | .byte b :: t => b :: bytes t
  | _ :: t => bytes t

/-- At most `n` bytes from the front, as far as no other item stands in between. -/
def takeBytes : Nat → List (Item ε) → List UInt8 × List (Item ε)
  | n + 1, .byte b :: t => (b :: (takeBytes n t).1, (takeBytes n t).2)
  | _, t => ([], t)

/-- One call of `recv` with room for `n` bytes. On an exhausted tape it fails with `idle`;
a peer that has closed stays closed. -/
def recv (idle : ε) (n : Nat) : List (Item ε) → Received ε × List (Item ε)
  | [] => (.failed idle, [])
  | .cut :: t => recv idle n t
  | .fail e :: t => (.failed e, t)
  | .eof :: t => (.closed, .eof :: t)
  | .byte b :: t => (.bytes (takeBytes n (.byte b :: t)).1, (takeBytes n (.byte b :: t)).2)

/-- A call fails with an error of `p` when exactly `k` bytes have been received. -/
def FailsAt (p : ε → Prop) : List (Item ε) → Nat → Prop
  | [], _ => False
  | .byte _ :: _, 0 => False
  | .byte _ :: t, k + 1 => FailsAt p t k
  | .fail e :: t, k => (k = 0 ∧ p e) ∨ FailsAt p t k
  | .cut :: t, k => FailsAt p t k
  | .eof :: t, k => FailsAt p t k

/-- The peer stays open and every failure is one of `p`. -/
def Soft (p : ε → Prop) (t : List (Item ε)) : Prop :=
  ∀ x ∈ t, x ≠ .eof ∧ ∀ e, x = .fail e → p e

theorem Soft.tail {p : ε → Prop} {x : Item ε} {t : List (Item ε)}
    (h : Soft p (x :: t)) : Soft p t :=
  fun y hy => h y (List.mem_cons_of_mem x hy)

/-- `t'` is left of `t` directly behind its `n`-th byte. -/
inductive Behind : Nat → List (Item ε) → List (Item ε) → Prop where
  | here (t : List (Item ε)) : Behind 0 t t
  | byte {n : Nat} {b : UInt8} {t t' : List (Item ε)} : Behind n t t' →
      Behind (n + 1) (.byte b :: t) t'
  | cut {n : Nat} {t t' : List (Item ε)} : Behind (n + 1) t t' → Behind (n + 1) (.cut :: t) t'
  | fail {n : Nat} {e : ε} {t t' : List (Item ε)} : Behind (n + 1) t t' →
      Behind (n + 1) (.fail e :: t) t'

section Behind

variable {n m : Nat} {t t' t'' : List (Item ε)}

theorem Behind.trans (h : Behind n t t') (h' : Behind m t' t'') : Behind (n + m) t t'' := by
  induction h with
  | here t => rwa [Nat.zero_add]
  | byte _ ih => rw [Nat.add_right_comm]; exact .byte (ih h')
  | cut _ ih =>
    have := ih h'
    rw [Nat.add_right_comm] at this ⊢
    exact .cut this
  | fail _ ih =>
    have := ih h'
    rw [Nat.add_right_comm] at this ⊢
    exact .fail this

theorem Behind.soft {p : ε → Prop} (h : Behind n t t') (hs : Soft p t) : Soft p t' := by
  induction h with
  | here t => exact hs
  | byte _ ih => exact ih hs.tail
  | cut _ ih => exact ih hs.tail
  | fail _ ih => exact ih hs.tail

theorem Behind.bytes_drop (h : Behind n t t') : bytes t' = (bytes t).drop n := by
  induction h with
  | here t => rfl
  | byte _ ih => simpa [bytes] using ih
  | cut _ ih => simpa [bytes] using ih
  | fail _ ih => simpa [bytes] using ih

theorem Behind.length_le (h : Behind n t t') : t'.length + n ≤ t.length := by
  induction h with
  | here t => exact Nat.le_refl _
  | byte _ ih => simp only [List.length_cons]; omega
  | cut _ ih => simp only [List.length_cons]; omega
  | fail _ ih => simp only [List.length_cons]; omega

/-- Failures behind the `n`-th byte count from there. -/
theorem Behind.failsAt {p : ε → Prop} (h : Behind n t t') (k : Nat) :
    FailsAt p t (n + k) ↔ FailsAt p t' k := by
  induction h with
  | here t => rw [Nat.zero_add]
  | byte _ ih =>
    rw [Nat.add_right_comm]
    exact ih
  | cut _ ih => exact ih
  | fail _ ih =>
    rw [← ih]
    simp [FailsAt]

end Behind

/-- Between `t` and what is left of it no byte has been received. -/
inductive Idle : List (Item ε) → List (Item ε) → Prop where
  | here (t : List (Item ε)) : Idle t t
  | cut {t t' : List (Item ε)} : Idle t t' → Idle (.cut :: t) t'
  | fail {e : ε} {t t' : List (Item ε)} : Idle t t' → Idle (.fail e :: t) t'

section Idle

variable {t t' : List (Item ε)}

theorem Idle.bytes_eq (h : Idle t t') : bytes t' = bytes t := by
  induction h with
  | here t => rfl
  | cut _ ih => exact ih
  | fail _ ih => exact ih

theorem Idle.soft {p : ε → Prop} (h : Idle t t') (hs : Soft p t) : Soft p t' := by
  induction h with
  | here t => exact hs
  | cut _ ih => exact ih hs.tail
  | fail _ ih => exact ih hs.tail

/-- Failures behind the first byte are not affected. -/
theorem Idle.failsAt {p : ε → Prop} (h : Idle t t') (k : Nat) :
    FailsAt p t (k + 1) ↔ FailsAt p t' (k + 1) := by
  induction h with
  | here t => exact Iff.rfl
  | cut _ ih => exact ih
  | fail _ ih =>
    rw [← ih]
    simp [FailsAt]

end Idle

end SocketTape
