import Mathlib.Data.UInt

/-!
# Flags in a mask

How raising a flag, `mask ||| flag`, and lowering it, `mask &&& ~~~flag`, show in the other bits.
-/
namespace Flags

variable {mask flag : UInt32}

theorem or_and_distrib (a b c : UInt32) : (a ||| b) &&& c = (a &&& c) ||| (b &&& c) :=
  UInt32.toBitVec_inj.mp BitVec.and_or_distrib_right

theorem and_or_distrib (a b c : UInt32) : a &&& (b ||| c) = (a &&& b) ||| (a &&& c) :=
  UInt32.toBitVec_inj.mp BitVec.and_or_distrib_left

theorem lower_unset (h : mask &&& flag = 0) : mask &&& ~~~flag = mask := by
  have hor := and_or_distrib mask flag (~~~flag)
  rw [UInt32.or_not_self, UInt32.and_neg_one, h, UInt32.zero_or] at hor
  exact hor.symm

theorem raise_ne (hflag : flag ≠ 0) (h : mask &&& flag = 0) : mask ||| flag ≠ mask := by
  intro heq
  have hor := or_and_distrib mask flag flag
  rw [heq, h, UInt32.and_self, UInt32.zero_or] at hor
  exact hflag hor.symm

theorem lower_ne (h : mask &&& flag ≠ 0) : mask &&& ~~~flag ≠ mask := by
  intro heq
  rw [← heq, UInt32.and_assoc, UInt32.not_and_self, UInt32.and_zero] at h
  exact h rfl

end Flags
