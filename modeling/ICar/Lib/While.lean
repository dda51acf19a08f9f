import Mathlib.Logic.Function.Iterate
import Mathlib.Tactic.Common

/-!
# While loops

`exec test body n s` is `while (test s) s = body s`, with at most `n` tests: it has no result
when the loop has not ended by then. `Ends` says that the loop ends, and where.

* `ends_iff`: the loop ends at the first turn whose state fails the test.
* `not_ends_iff`: it does not end when every turn passes the test.
-/

namespace While

variable {σ : Type*} (test : σ → Bool) (body : σ → σ)

def exec : ℕ → σ → Option σ
  | 0, _ => none
  | n + 1, s => if test s then exec n (body s) else some s

/-- The loop started in `s` ends in `t`. -/
def Ends (s t : σ) : Prop := ∃ n, exec test body n s = some t

variable {test body}

/-- **The end of a loop**: the first state that fails the test. -/
theorem ends_iff {s t : σ} : Ends test body s t ↔
    ∃ k, (∀ j < k, test (body^[j] s) = true) ∧ test (body^[k] s) = false ∧ t = body^[k] s := by
  constructor
  · rintro ⟨n, h⟩
    induction n generalizing s with
    | zero => cases h
    | succ n ih =>
      unfold exec at h
      split at h
      · rename_i ht
        obtain ⟨k, hk, hend, rfl⟩ := ih h
        refine ⟨k + 1, fun j hj => ?_, hend, rfl⟩
        cases j with
        | zero => exact ht
        | succ j => exact hk j (Nat.lt_of_succ_lt_succ hj)
      · rename_i ht
        exact ⟨0, fun j hj => absurd hj (Nat.not_lt_zero j), Bool.not_eq_true _ ▸ ht, (Option.some.inj h).symm⟩
  · rintro ⟨k, hk, hend, rfl⟩
    refine ⟨k + 1, ?_⟩
    induction k generalizing s with
    | zero => exact if_neg (by rw [← Function.iterate_zero_apply body s, hend]; exact Bool.false_ne_true)
    | succ k ih =>
      have hstep : exec test body (k + 1 + 1) s = exec test body (k + 1) (body s) := if_pos (hk 0 (Nat.succ_pos k))
      rw [hstep]
      exact ih (fun j hj => hk (j + 1) (Nat.succ_lt_succ hj)) hend

/-- A loop that never ends. -/
theorem not_ends_iff {s : σ} : (∀ n, exec test body n s = none) ↔ ∀ k, test (body^[k] s) = true := by
  constructor
  · intro h k
    -- up to a turn that fails the test there would be a first one
    induction k using Nat.strongRecOn with
    | ind k ih =>
      by_contra hk
      obtain ⟨n, hn⟩ := ends_iff.2 ⟨k, ih, Bool.not_eq_true _ ▸ hk, rfl⟩
      rw [h n] at hn
      cases hn
  · intro h n
    by_contra hn
    obtain ⟨t, ht⟩ := Option.ne_none_iff_exists'.1 hn
    obtain ⟨k, -, hend, -⟩ := ends_iff.1 ⟨n, ht⟩
    rw [h k] at hend
    cases hend

end While
