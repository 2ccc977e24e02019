import ExplorerIndexer.LockupContract

/-! What holds of the amount that a lockup contract keeps locked: its arithmetic is safe, it does not grow with time,
and the version with the bug keeps no more locked than the one without. -/

namespace ExplorerIndexer.Lockup

open MachineWords LinearRelease LockupContract

section Amounts

variable {self : LockupContract} {transfersTimestamp : Timestamp} {vestingSchedule : VestingSchedule} {start now : Nat}

/-! ### The functions of time -/

theorem transfers_le_lockedUntil (self : LockupContract) (transfersTimestamp : Timestamp) :
    transfersTimestamp.toNat ≤ self.lockedUntil transfersTimestamp := by
  have hlt := transfersTimestamp.isLt
  rw [lockedUntil, lockupEnd, toNat_maxWord, toNat_saturatingAdd]
  omega

theorem releaseStart_le_lockedUntil (self : LockupContract) (transfersTimestamp : Timestamp) (hasBug : Bool) :
    self.releaseStart transfersTimestamp hasBug ≤ self.lockedUntil transfersTimestamp := by
  cases hasBug with
  | true => exact transfers_le_lockedUntil self transfersTimestamp
  | false => exact Nat.le_refl _

theorem unreleased_le (h : start ≤ now) : self.unreleased start now ≤ self.lockupAmount := by
  unfold unreleased
  split
  · apply remaining_le
    omega
  · exact Nat.zero_le _

theorem antitone_unreleased (self : LockupContract) (start : Nat) : Antitone (self.unreleased start) := by
  unfold unreleased
  split
  · exact antitone_remaining _ _ _
  · exact antitone_const

/-- A release that starts earlier is ahead. -/
theorem unreleased_le_of_start_le {start' : Nat} (h : start ≤ start') :
    self.unreleased start now ≤ self.unreleased start' now := by
  unfold unreleased
  split
  · apply remaining_le_of_stop_le
    omega
  · exact Nat.le_refl _

theorem VestingSchedule.unvested_le (h : vestingSchedule.Valid) (amount now : Nat) :
    vestingSchedule.unvested amount now ≤ amount :=
  remainingAfterCliff_le h.start_le_cliff

theorem unvested_le (hsound : self.Sound)
    (hterminating : ∀ unvestedAmount, self.vestingInformation = .terminating unvestedAmount →
      unvestedAmount.toNat ≤ self.lockupAmount) (now : Nat) : self.unvested now ≤ self.lockupAmount := by
  unfold LockupContract.unvested
  split
  · rename_i vestingSchedule hvesting
    exact VestingSchedule.unvested_le (hsound.schedule _ hvesting) _ _
  · rename_i unvestedAmount hvesting
    exact hterminating _ hvesting
  · exact Nat.zero_le _
  · exact Nat.zero_le _

theorem antitone_unvested (hsound : self.Sound) : Antitone self.unvested := by
  unfold LockupContract.unvested
  split
  · rename_i vestingSchedule hvesting
    exact antitone_remainingAfterCliff (hsound.schedule _ hvesting).start_le_cliff
  · exact antitone_const
  · exact antitone_const
  · exact antitone_const

theorem locked_le (hsound : self.Sound)
    (hterminating : ∀ unvestedAmount, self.vestingInformation = .terminating unvestedAmount →
      unvestedAmount.toNat ≤ self.lockupAmount) (transfersTimestamp : Timestamp) (hasBug : Bool) (now : Nat) :
    self.locked transfersTimestamp hasBug now ≤ self.lockupAmount := by
  refine switch_le (fun _ => Nat.sub_le _ _) fun hnow => Nat.max_le.mpr ⟨?_, unvested_le hsound hterminating now⟩
  have hstart := (releaseStart_le_lockedUntil self transfersTimestamp hasBug).trans hnow
  calc self.unreleased (self.releaseStart transfersTimestamp hasBug) now - self.withdrawn
      ≤ self.unreleased (self.releaseStart transfersTimestamp hasBug) now := Nat.sub_le _ _
    _ ≤ self.lockupAmount := unreleased_le hstart

/-- The amount does not jump up when the lockup period ends: nothing was withdrawn while there is a schedule, and what
is kept for a termination was not withdrawn. -/
theorem antitone_locked (hsound : self.Sound)
    (hschedule : ∀ vestingSchedule, self.vestingInformation = .vestingSchedule vestingSchedule → self.withdrawn = 0)
    (hterminating : ∀ unvestedAmount, self.vestingInformation = .terminating unvestedAmount →
      self.withdrawn + unvestedAmount.toNat ≤ self.lockupAmount) (transfersTimestamp : Timestamp) (hasBug : Bool) :
    Antitone (self.locked transfersTimestamp hasBug) := by
  have hunvested : ∀ now, self.unvested now ≤ self.lockupAmount - self.withdrawn := by
    intro now
    unfold LockupContract.unvested
    split
    · rename_i vestingSchedule hvesting
      rw [hschedule _ hvesting, Nat.sub_zero]
      exact VestingSchedule.unvested_le (hsound.schedule _ hvesting) _ _
    · rename_i unvestedAmount hvesting
      have hle := hterminating _ hvesting
      omega
    · exact Nat.zero_le _
    · exact Nat.zero_le _
  have hreleased : Antitone fun now =>
      self.unreleased (self.releaseStart transfersTimestamp hasBug) now - self.withdrawn :=
    fun now later hle => Nat.sub_le_sub_right (antitone_unreleased self _ hle) _
  refine antitone_switch antitone_const (hreleased.max (antitone_unvested hsound)) fun now hnow => ?_
  have hstart := (releaseStart_le_lockedUntil self transfersTimestamp hasBug).trans hnow
  exact Nat.max_le.mpr ⟨Nat.sub_le_sub_right (unreleased_le hstart) _, hunvested now⟩

theorem locked_bug_le (self : LockupContract) (transfersTimestamp : Timestamp) (now : Nat) :
    self.locked transfersTimestamp true now ≤ self.locked transfersTimestamp false now := by
  unfold locked
  rcases Nat.lt_or_ge now (self.lockedUntil transfersTimestamp) with hnow | hnow
  · rw [switch_of_lt hnow, switch_of_lt hnow]
  · rw [switch_of_le hnow, switch_of_le hnow]
    have hle : self.unreleased (self.releaseStart transfersTimestamp true) now ≤
        self.unreleased (self.releaseStart transfersTimestamp false) now :=
      unreleased_le_of_start_le (transfers_le_lockedUntil self transfersTimestamp)
    omega

theorem locked_bug_eq (h : now < self.lockedUntil transfersTimestamp ∨
      self.lockedUntil transfersTimestamp = transfersTimestamp.toNat ∨
      self.lockupInformation.releaseDuration = none) :
    self.locked transfersTimestamp true now = self.locked transfersTimestamp false now := by
  unfold locked
  rcases h with hbefore | hsame | hnone
  · rw [switch_of_lt hbefore, switch_of_lt hbefore]
  · have hstart : self.releaseStart transfersTimestamp true = self.releaseStart transfersTimestamp false := hsame.symm
    rw [hstart]
  · simp only [unreleased, hnone]

/-! ### What the machine computes -/

/-- With transfers enabled, the amount is that of the function. -/
theorem yields_getLockedAmount (overflowChecks hasBug : Bool) (hsound : self.Sound)
    (henabled : self.lockupInformation.transfersInformation = .transfersEnabled transfersTimestamp)
    (timestamp : Timestamp) : Yields (self.getLockedAmount overflowChecks timestamp hasBug)
      (self.locked transfersTimestamp hasBug timestamp.toNat) := by
  unfold getLockedAmount locked
  dsimp only
  rw [henabled]
  dsimp only
  split
  · rename_i hend
    have hnow : self.lockedUntil transfersTimestamp ≤ timestamp.toNat := hend
    rw [switch_of_le hnow]
    have hstart : (if hasBug then transfersTimestamp else self.lockupEnd transfersTimestamp).toNat =
        self.releaseStart transfersTimestamp hasBug := by
      cases hasBug <;> rfl
    have hstarted := (releaseStart_le_lockedUntil self transfersTimestamp hasBug).trans hnow
    rw [← hstart] at hstarted ⊢
    refine (yields_getUnreleasedAmount overflowChecks hstarted).bind fun unreleasedAmount hunreleased => ?_
    refine Yields.bind (m := self.unvested timestamp.toNat) ?_ fun unvestedAmount hunvested => ?_
    · unfold LockupContract.unvested
      cases hvesting : self.vestingInformation with
      | vestingSchedule vestingSchedule =>
          exact yields_getUnvestedAmount overflowChecks (hsound.schedule _ hvesting) timestamp (by simp [hvesting])
            (by simp [hvesting])
      | terminating unvestedAmount => exact .ok _
      | none => exact .ok _
      | vestingHash _ => exact .ok _
    · refine (Yields.ok _).of_eq ?_
      rw [toNat_maxWord, toNat_saturatingSub, hunreleased, hunvested]
      rfl
  · rename_i hend
    have hbefore : timestamp.toNat < self.lockedUntil transfersTimestamp := Nat.lt_of_not_le hend
    rw [switch_of_lt hbefore]
    exact Yields.sub overflowChecks hsound.withdrawn_le

/-- Nothing goes out of range with transfers enabled, whatever the durations and timestamps are: also with overflow
checks there is an amount, and it is at most the lockup amount. -/
theorem amounts_in_range (hsound : self.Sound)
    (hterminating : ∀ unvestedAmount, self.vestingInformation = .terminating unvestedAmount →
      unvestedAmount.toNat ≤ self.lockupAmount)
    (henabled : self.lockupInformation.transfersInformation = .transfersEnabled transfersTimestamp)
    (overflowChecks : Bool) (timestamp : Timestamp) :
    (∀ hasBug, ∃ amount, self.getLockedAmount overflowChecks timestamp hasBug = .ok amount ∧
      amount.toNat ≤ self.lockupAmount) ∧
    ∀ vestingSchedule : VestingSchedule, vestingSchedule.Valid → ∃ amount,
      self.getUnvestedAmount overflowChecks vestingSchedule timestamp = .ok amount ∧
        amount.toNat ≤ self.lockupAmount := by
  constructor
  · intro hasBug
    obtain ⟨amount, hamount, hlocked⟩ := yields_getLockedAmount overflowChecks hasBug hsound henabled timestamp
    exact ⟨amount, hamount, hlocked ▸ locked_le hsound hterminating transfersTimestamp hasBug _⟩
  · intro vestingSchedule hvalid
    have hpublic : (∀ unvestedAmount, self.vestingInformation ≠ .terminating unvestedAmount) →
        self.vestingInformation ≠ .none → ∃ amount,
          self.getUnvestedAmount overflowChecks vestingSchedule timestamp = .ok amount ∧
            amount.toNat ≤ self.lockupAmount := by
      intro hnot hsome
      obtain ⟨amount, hamount, hunvested⟩ :=
        yields_getUnvestedAmount overflowChecks hvalid timestamp hnot hsome
      exact ⟨amount, hamount, hunvested ▸ VestingSchedule.unvested_le hvalid _ _⟩
    cases hvesting : self.vestingInformation with
    | none => exact ⟨0, by simp only [getUnvestedAmount, hvesting], Nat.zero_le _⟩
    | terminating unvestedAmount =>
        exact ⟨unvestedAmount, by simp only [getUnvestedAmount, hvesting], hterminating _ hvesting⟩
    | vestingHash hash => exact hpublic (by simp [hvesting]) (by simp [hvesting])
    | vestingSchedule _ => exact hpublic (by simp [hvesting]) (by simp [hvesting])

/-- The amount that is locked does not grow with time. -/
theorem locked_amount_antitone (hsound : self.Sound)
    (hschedule : ∀ vestingSchedule, self.vestingInformation = .vestingSchedule vestingSchedule → self.withdrawn = 0)
    (hterminating : ∀ unvestedAmount, self.vestingInformation = .terminating unvestedAmount →
      self.withdrawn + unvestedAmount.toNat ≤ self.lockupAmount)
    (henabled : self.lockupInformation.transfersInformation = .transfersEnabled transfersTimestamp)
    (overflowChecks hasBug : Bool) {timestamp later : Timestamp} (hle : timestamp ≤ later) :
    ∃ amount amountLater, self.getLockedAmount overflowChecks timestamp hasBug = .ok amount ∧
      self.getLockedAmount overflowChecks later hasBug = .ok amountLater ∧ amountLater ≤ amount := by
  obtain ⟨amount, hamount, hlocked⟩ := yields_getLockedAmount overflowChecks hasBug hsound henabled timestamp
  obtain ⟨amountLater, hlater, hlockedLater⟩ := yields_getLockedAmount overflowChecks hasBug hsound henabled later
  refine ⟨amount, amountLater, hamount, hlater, ?_⟩
  show amountLater.toNat ≤ amount.toNat
  rw [hlocked, hlockedLater]
  exact antitone_locked hsound hschedule hterminating transfersTimestamp hasBug hle

/-- The version with the bug keeps at most as much locked, and as much before the end of the lockup period, if the
period ends when transfers are enabled, and if there is no release. -/
theorem locked_amount_bug_le (hsound : self.Sound)
    (henabled : self.lockupInformation.transfersInformation = .transfersEnabled transfersTimestamp)
    (overflowChecks : Bool) (timestamp : Timestamp) :
    ∃ amountBug amount, self.getLockedAmount overflowChecks timestamp true = .ok amountBug ∧
      self.getLockedAmount overflowChecks timestamp false = .ok amount ∧ amountBug ≤ amount ∧
      (timestamp < self.lockupEnd transfersTimestamp ∨ self.lockupEnd transfersTimestamp = transfersTimestamp ∨
        self.lockupInformation.releaseDuration = none → amountBug = amount) := by
  obtain ⟨amountBug, hbug, hlockedBug⟩ := yields_getLockedAmount overflowChecks true hsound henabled timestamp
  obtain ⟨amount, hamount, hlocked⟩ := yields_getLockedAmount overflowChecks false hsound henabled timestamp
  refine ⟨amountBug, amount, hbug, hamount, ?_, fun hcase => ?_⟩
  · show amountBug.toNat ≤ amount.toNat
    rw [hlockedBug, hlocked]
    exact locked_bug_le self transfersTimestamp _
  · apply BitVec.eq_of_toNat_eq
    rw [hlockedBug, hlocked]
    exact locked_bug_eq (hcase.imp_right (Or.imp_left (congrArg BitVec.toNat)))

end Amounts

/-- Transfers are enabled at 1 and tokens are locked until 2, released by 6 and vested by 4. -/
def lockupWithVesting : LockupContract where
  lockupInformation :=
    { lockupAmount := 1000
      terminationWithdrawnTokens := 0
      lockupDuration := 0
      releaseDuration := some 4
      lockupTimestamp := some 2
      transfersInformation := .transfersEnabled 1 }
  vestingInformation := .vestingSchedule ⟨0, 1, 4⟩

theorem sound_lockupWithVesting : lockupWithVesting.Sound := by
  refine ⟨by decide, fun vestingSchedule hvesting => ?_⟩
  cases hvesting
  exact ⟨by decide, by decide, by decide⟩

theorem amounts_in_range_with_vesting :
    (∀ hasBug, ∃ amount, lockupWithVesting.getLockedAmount true 3 hasBug = .ok amount ∧
      amount.toNat ≤ lockupWithVesting.lockupAmount) ∧
    ∀ vestingSchedule : VestingSchedule, vestingSchedule.Valid → ∃ amount,
      lockupWithVesting.getUnvestedAmount true vestingSchedule 3 = .ok amount ∧
        amount.toNat ≤ lockupWithVesting.lockupAmount :=
  amounts_in_range sound_lockupWithVesting (fun _ => VestingInformation.noConfusion) rfl true 3

theorem locked_amount_antitone_with_vesting : ∃ amount amountLater,
    lockupWithVesting.getLockedAmount true 3 true = .ok amount ∧
      lockupWithVesting.getLockedAmount true 5 true = .ok amountLater ∧ amountLater ≤ amount :=
  locked_amount_antitone sound_lockupWithVesting (fun _ _ => rfl) (fun _ => VestingInformation.noConfusion) rfl true
    true (by decide)

theorem locked_amount_bug_le_with_vesting : ∃ amountBug amount,
    lockupWithVesting.getLockedAmount true 3 true = .ok amountBug ∧
      lockupWithVesting.getLockedAmount true 3 false = .ok amount ∧ amountBug ≤ amount ∧
      ((3 : Timestamp) < lockupWithVesting.lockupEnd 1 ∨ lockupWithVesting.lockupEnd 1 = 1 ∨
        lockupWithVesting.lockupInformation.releaseDuration = none → amountBug = amount) :=
  locked_amount_bug_le sound_lockupWithVesting rfl true 3

/-- Half of the release time is left with the bug and three quarters without it. -/
example : lockupWithVesting.getLockedAmount true 3 true = .ok 500 ∧
    lockupWithVesting.getLockedAmount true 3 false = .ok 750 := by decide

end ExplorerIndexer.Lockup
