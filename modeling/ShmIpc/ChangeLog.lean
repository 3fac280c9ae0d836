import Mathlib.Data.List.Basic
import Mathlib.Logic.Function.Basic

/-!
# Change logs

A partial map together with a list of pending changes, oldest first. A change
sets one key or deletes it. What the log makes of the map is decided key by
key, and a log may be applied in pieces.
-/
namespace ChangeLog

variable {κ ν : Type} [DecidableEq κ]

/-- `value` is what the key is set to, or nothing for a deletion. -/
structure Change (κ ν : Type) where
  key : κ
  value : Option ν

def Change.apply (m : κ → Option ν) (c : Change κ ν) : κ → Option ν :=
  Function.update m c.key c.value

def applyLog (m : κ → Option ν) (log : List (Change κ ν)) : κ → Option ν := log.foldl Change.apply m

@[simp] theorem applyLog_nil (m : κ → Option ν) : applyLog m [] = m := rfl

theorem applyLog_append (m : κ → Option ν) (as bs : List (Change κ ν)) :
    applyLog m (as ++ bs) = applyLog (applyLog m as) bs := List.foldl_append

theorem applyLog_snoc (m : κ → Option ν) (log : List (Change κ ν)) (c : Change κ ν) :
    applyLog m (log ++ [c]) = Function.update (applyLog m log) c.key c.value :=
    applyLog_append m log [c]

/-- A key that no change is about keeps its value. -/
theorem applyLog_untouched {log : List (Change κ ν)} {k : κ} (h : ∀ c ∈ log, c.key ≠ k)
    (m : κ → Option ν) : applyLog m log k = m k := by
  induction log generalizing m with
  | nil => rfl
  | cons c log ih =>
    rw [applyLog, List.foldl_cons, ← applyLog, ih (fun d hd => h d (List.mem_cons_of_mem _ hd))]
    exact Function.update_of_ne (h c List.mem_cons_self).symm _ _

end ChangeLog
