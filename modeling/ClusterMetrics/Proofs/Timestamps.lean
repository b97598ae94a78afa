import Mathlib
import ClusterMetrics.Timestamp

/-! # The order of timestamps

Timestamps are ordered as their instants are, by seconds and then by nanoseconds, and never comes before all of
them. The latest of several is therefore the same in whatever order they are compared. -/

namespace ClusterMetrics.Timestamp

/-- The place of a timestamp in a linear order. -/
def rank : Timestamp → WithBot (ℤ ×ₗ ℕ)
  | zero => ⊥
  | instant i => some (toLex (i.seconds, i.nanoseconds))

variable {a b : Timestamp}

theorem rank_injective : Function.Injective rank := by
  rintro (_ | ⟨s, n⟩) (_ | ⟨s', n'⟩) h
  · rfl
  · cases h
  · cases h
  · cases h
    rfl

theorem instant_lt_iff {i j : Instant} :
    i.lt j = true ↔ toLex (i.seconds, i.nanoseconds) < toLex (j.seconds, j.nanoseconds) := by
  rw [Instant.lt, Prod.Lex.toLex_lt_toLex]
  simp

theorem lt_iff : a.lt b = true ↔ a.rank < b.rank := by
  cases a with
  | zero =>
    cases b with
    | zero => exact iff_of_false Bool.false_ne_true (lt_irrefl _)
    | instant j => exact iff_of_true rfl (WithBot.bot_lt_coe _)
  | instant i =>
    cases b with
    | zero => exact iff_of_false Bool.false_ne_true not_lt_bot
    | instant j => exact instant_lt_iff.trans WithBot.coe_lt_coe.symm

theorem rank_latest (a b : Timestamp) : (a.latest b).rank = max a.rank b.rank := by
  rw [latest]
  split
  next h => exact (max_eq_right (lt_iff.1 h).le).symm
  next h => exact (max_eq_left (not_lt.1 (lt_iff.not.1 h))).symm

theorem latest_comm (a b : Timestamp) : a.latest b = b.latest a := by
  refine rank_injective ?_
  rw [rank_latest, rank_latest, max_comm]

@[simp] theorem latest_zero (t : Timestamp) : t.latest .zero = t := by cases t <;> rfl

@[simp] theorem zero_latest (t : Timestamp) : Timestamp.zero.latest t = t := by cases t <;> rfl

theorem latest_assoc (a b c : Timestamp) : (a.latest b).latest c = a.latest (b.latest c) := by
  refine rank_injective ?_
  rw [rank_latest, rank_latest, rank_latest, rank_latest, max_assoc]

theorem latest_right_comm (a b c : Timestamp) : (a.latest b).latest c = (a.latest c).latest b := by
  rw [latest_assoc, latest_comm b c, latest_assoc]

end ClusterMetrics.Timestamp
