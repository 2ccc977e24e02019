import Mathlib.Order.Lattice

/-! Amounts that are released over time. What is left of an amount is a function of time; it is antitone for a linear
release, with or without a cliff, and for one release after another. -/

namespace LinearRelease

/-- What is left at a time of an amount that is released evenly in the time `total` before `stop`. -/
def remaining (amount total stop now : Nat) : Nat := amount * (stop - now) / total

section Remaining

variable {amount total stop stop' now later : Nat}

theorem remaining_of_le (h : stop ≤ now) : remaining amount total stop now = 0 := by
  rw [remaining, Nat.sub_eq_zero_of_le h, Nat.mul_zero, Nat.zero_div]

theorem remaining_le (h : stop - now ≤ total) : remaining amount total stop now ≤ amount := by
  apply Nat.div_le_of_le_mul
  rw [Nat.mul_comm total]
  exact Nat.mul_le_mul_left amount h

theorem remaining_le_of_stop_le (h : stop ≤ stop') :
    remaining amount total stop now ≤ remaining amount total stop' now :=
  Nat.div_le_div_right (Nat.mul_le_mul_left amount (Nat.sub_le_sub_right h now))

theorem antitone_remaining (amount total stop : Nat) : Antitone (remaining amount total stop) :=
  fun _ _ h => Nat.div_le_div_right (Nat.mul_le_mul_left amount (Nat.sub_le_sub_left h stop))

end Remaining

/-- One function before a moment and another one from it on. -/
def switch {τ β : Type} [LinearOrder τ] (moment : τ) (before after : τ → β) (now : τ) : β :=
  if now < moment then before now else after now

section Switch

variable {τ β : Type} [LinearOrder τ] {moment now : τ} {before after : τ → β}

theorem switch_of_lt (h : now < moment) : switch moment before after now = before now := if_pos h

theorem switch_of_le (h : moment ≤ now) : switch moment before after now = after now := if_neg (not_lt.mpr h)

variable [Preorder β]

theorem antitone_switch (hbefore : Antitone before) (hafter : Antitone after)
    (hdrop : ∀ now, moment ≤ now → after now ≤ before now) : Antitone (switch moment before after) := by
  intro now later hle
  rcases lt_or_ge later moment with hlater | hlater
  · rw [switch_of_lt hlater, switch_of_lt (hle.trans_lt hlater)]
    exact hbefore hle
  · rw [switch_of_le hlater]
    rcases lt_or_ge now moment with hnow | hnow
    · rw [switch_of_lt hnow]
      exact (hdrop later hlater).trans (hbefore hle)
    · rw [switch_of_le hnow]
      exact hafter hle

theorem switch_le {bound : β} (hbefore : now < moment → before now ≤ bound)
    (hafter : moment ≤ now → after now ≤ bound) : switch moment before after now ≤ bound := by
  rcases lt_or_ge now moment with hnow | hnow
  · rw [switch_of_lt hnow]
    exact hbefore hnow
  · rw [switch_of_le hnow]
    exact hafter hnow

end Switch

/-- What is left of an amount of which nothing is released before the cliff. -/
def remainingAfterCliff (amount start cliff stop : Nat) : Nat → Nat :=
  switch cliff (fun _ => amount) (remaining amount (stop - start) stop)

section Cliff

variable {amount start cliff stop now : Nat}

theorem remaining_le_after_cliff (hstart : start ≤ cliff) (hnow : cliff ≤ now) :
    remaining amount (stop - start) stop now ≤ amount :=
  remaining_le (Nat.sub_le_sub_left (hstart.trans hnow) stop)

theorem remainingAfterCliff_le (hstart : start ≤ cliff) : remainingAfterCliff amount start cliff stop now ≤ amount :=
  switch_le (fun _ => Nat.le_refl amount) (remaining_le_after_cliff hstart)

theorem antitone_remainingAfterCliff (hstart : start ≤ cliff) :
    Antitone (remainingAfterCliff amount start cliff stop) :=
  antitone_switch antitone_const (antitone_remaining _ _ _) fun _ => remaining_le_after_cliff hstart

end Cliff

end LinearRelease
