import Mathlib.Algebra.Order.Group.Defs
import Mathlib.Data.List.Basic
import Mathlib.Tactic.Abel
/-!
# Sliding windows

A list of times and the part of it that lies less than a span before now. A list
in which every time had fewer than a limit of recent ones before it has at most
the limit in any half-open interval of the length of the span.
-/

namespace Sbarbase.Lib

section

variable {τ : Type*} [AddCommGroup τ] [LinearOrder τ]

/-- The times less than `span` before `now`. -/
def recent (span now : τ) (times : List τ) : List τ := times.filter fun time => now - time < span

variable {span earlier now time start : τ} {times : List τ} {limit : ℕ}

@[simp] theorem recent_nil : recent span now [] = [] := rfl

theorem recent_append (times rest : List τ) :
    recent span now (times ++ rest) = recent span now times ++ recent span now rest :=
  List.filter_append ..

variable [IsOrderedAddMonoid τ]

/-- What is recent later was recent earlier. -/
theorem recent_recent (h : earlier ≤ now) :
    recent span now (recent span earlier times) = recent span now times := by
  rw [recent, recent, List.filter_filter]
  apply List.filter_congr
  intro time _
  rw [Bool.and_eq_left_iff_imp, decide_eq_true_iff, decide_eq_true_iff]
  intro hrecent
  exact lt_of_le_of_lt (sub_le_sub_right h time) hrecent

/-- Lists with the same recent times have the same recent times later. -/
theorem recent_congr {times' : List τ} (h : earlier ≤ now)
    (hsame : recent span earlier times = recent span earlier times') :
    recent span now times = recent span now times' := by
  rw [← recent_recent h, hsame, recent_recent h]

/-- Each time was added when fewer than `limit` of those before it were recent. -/
inductive Spaced (span : τ) (limit : ℕ) : List τ → Prop
  | nil : Spaced span limit []
  | snoc {times : List τ} {now : τ} (hbefore : Spaced span limit times)
      (hlast : ∀ time ∈ times, time ≤ now) (hroom : (recent span now times).length < limit) :
      Spaced span limit (times ++ [now])

/-- Any half-open interval as long as the span has at most `limit` of the times. -/
theorem Spaced.length_le (h : Spaced span limit times) (start : τ) :
    (times.filter fun time => start ≤ time ∧ time < start + span).length ≤ limit := by
  induction h with
  | nil => exact Nat.zero_le _
  | @snoc times now hbefore hlast hroom ih =>
      rw [List.filter_append, List.length_append]
      by_cases hin : start ≤ now ∧ now < start + span
      · -- those of the interval that came before are recent now
        have hsub : (times.filter fun time => start ≤ time ∧ time < start + span).length ≤
            (recent span now times).length := by
          apply List.Sublist.length_le
          apply List.monotone_filter_right
          intro time htime
          obtain ⟨hstart, -⟩ := of_decide_eq_true htime
          apply decide_eq_true
          calc now - time ≤ now - start := sub_le_sub_left hstart now
            _ < span := sub_lt_iff_lt_add'.mpr hin.2
        have hone : ([now].filter fun time => start ≤ time ∧ time < start + span).length ≤ 1 :=
          List.length_filter_le ..
        omega
      · rw [List.filter_cons_of_neg (by simpa using hin), List.filter_nil, List.length_nil]
        exact ih

end

end Sbarbase.Lib
