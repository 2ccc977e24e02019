import ExplorerIndexer.LinearRelease
import ExplorerIndexer.MachineWords
import ExplorerIndexer.ModelViews

/-! The lockup contract's state and the amount that it keeps locked at a time. The arithmetic is that of machine
integers; next to it stands what it amounts to, a function of time on the natural numbers. -/

namespace ExplorerIndexer

open MachineWords LinearRelease

/-! ### The state -/

namespace Lockup

/-- Timestamps and durations are in nanoseconds. -/
abbrev Timestamp := BitVec 64
abbrev Duration := BitVec 64
abbrev Balance := BitVec 128

structure VestingSchedule where
  startTimestamp : Timestamp
  cliffTimestamp : Timestamp
  endTimestamp : Timestamp
  deriving DecidableEq

inductive VestingInformation where
  | none
  | vestingHash (hash : List UInt8)
  | vestingSchedule (vestingSchedule : VestingSchedule)
  | terminating (unvestedAmount : Balance)
  deriving DecidableEq

inductive TransfersInformation where
  | transfersEnabled (transfersTimestamp : Timestamp)
  | transfersDisabled (transferPollAccountId : AccountId)
  deriving DecidableEq

structure LockupInformation where
  lockupAmount : Balance
  terminationWithdrawnTokens : Balance
  lockupDuration : Duration
  releaseDuration : Option Duration
  lockupTimestamp : Option Timestamp
  transfersInformation : TransfersInformation
  deriving DecidableEq

/-- The part of the state that the amounts depend on. -/
structure LockupContract where
  lockupInformation : LockupInformation
  vestingInformation : VestingInformation
  deriving DecidableEq

/-! ### The amounts -/

/-- `lockup_amount * time_left / total_time` in 256 bits, whose operators panic in every build. -/
def proRata (lockupAmount : Balance) (timeLeft totalTime : Duration) : Except Panic Balance := do
  let product ← mul true (lockupAmount.setWidth 256) (timeLeft.setWidth 256)
  let quotient ← div product (totalTime.setWidth 256)
  narrow 128 quotient

namespace LockupContract

def getUnvestedAmount (overflowChecks : Bool) (self : LockupContract) (vestingSchedule : VestingSchedule)
    (blockTimestamp : Timestamp) : Except Panic Balance :=
  let lockupAmount := self.lockupInformation.lockupAmount
  match self.vestingInformation with
  | .terminating unvestedAmount => .ok unvestedAmount
  | .none => .ok 0
  | .vestingHash _ | .vestingSchedule _ =>
      if blockTimestamp < vestingSchedule.cliffTimestamp then .ok lockupAmount
      else if vestingSchedule.endTimestamp ≤ blockTimestamp then .ok 0
      else do
        let timeLeft ← sub overflowChecks vestingSchedule.endTimestamp blockTimestamp
        let totalTime ← sub overflowChecks vestingSchedule.endTimestamp vestingSchedule.startTimestamp
        proRata lockupAmount timeLeft totalTime

/-- The release starts at the lockup timestamp, or with the bug when transfers were enabled. -/
def getUnreleasedAmount (overflowChecks : Bool) (self : LockupContract) (startLockup blockTimestamp : Timestamp) :
    Except Panic Balance :=
  match self.lockupInformation.releaseDuration with
  | some releaseDuration =>
      let endTimestamp := saturatingAdd startLockup releaseDuration
      if endTimestamp ≤ blockTimestamp then .ok 0
      else do
        let timeLeft ← sub overflowChecks endTimestamp blockTimestamp
        proRata self.lockupInformation.lockupAmount timeLeft releaseDuration
  | none => .ok 0

/-- The end of the lockup period. -/
def lockupEnd (self : LockupContract) (transfersTimestamp : Timestamp) : Timestamp :=
  maxWord (saturatingAdd transfersTimestamp self.lockupInformation.lockupDuration)
    (self.lockupInformation.lockupTimestamp.getD 0)

def getLockedAmount (overflowChecks : Bool) (self : LockupContract) (timestamp : Timestamp) (hasBug : Bool) :
    Except Panic Balance :=
  let information := self.lockupInformation
  let entireBalance := sub overflowChecks information.lockupAmount information.terminationWithdrawnTokens
  match information.transfersInformation with
  | .transfersEnabled transfersTimestamp =>
      let lockupTimestamp := self.lockupEnd transfersTimestamp
      if lockupTimestamp ≤ timestamp then do
        let startLockup := if hasBug then transfersTimestamp else lockupTimestamp
        let unreleasedAmount ← self.getUnreleasedAmount overflowChecks startLockup timestamp
        let unvestedAmount ← (match self.vestingInformation with
          | .vestingSchedule vestingSchedule => self.getUnvestedAmount overflowChecks vestingSchedule timestamp
          | .terminating unvestedAmount => .ok unvestedAmount
          | .none | .vestingHash _ => .ok 0)
        .ok (maxWord (saturatingSub unreleasedAmount information.terminationWithdrawnTokens) unvestedAmount)
      else entireBalance
  | .transfersDisabled _ => entireBalance

end LockupContract

/-! ### The amounts as functions of time -/

/-- What the contract checks when it is initialized. -/
structure VestingSchedule.Valid (vestingSchedule : VestingSchedule) : Prop where
  start_le_cliff : vestingSchedule.startTimestamp.toNat ≤ vestingSchedule.cliffTimestamp.toNat
  cliff_le_end : vestingSchedule.cliffTimestamp.toNat ≤ vestingSchedule.endTimestamp.toNat
  start_lt_end : vestingSchedule.startTimestamp.toNat < vestingSchedule.endTimestamp.toNat

/-- What is unvested of an amount. -/
def VestingSchedule.unvested (vestingSchedule : VestingSchedule) (amount : Nat) : Nat → Nat :=
  remainingAfterCliff amount vestingSchedule.startTimestamp.toNat vestingSchedule.cliffTimestamp.toNat
    vestingSchedule.endTimestamp.toNat

namespace LockupContract

variable (self : LockupContract)

def lockupAmount : Nat := self.lockupInformation.lockupAmount.toNat

def withdrawn : Nat := self.lockupInformation.terminationWithdrawnTokens.toNat

/-- The end of the lockup period and the start of the release. -/
def lockedUntil (transfersTimestamp : Timestamp) : Nat := (self.lockupEnd transfersTimestamp).toNat

def releaseStart (transfersTimestamp : Timestamp) (hasBug : Bool) : Nat :=
  if hasBug then transfersTimestamp.toNat else self.lockedUntil transfersTimestamp

/-- What is not released yet, for a release that starts at some time. -/
def unreleased (start : Nat) (now : Nat) : Nat :=
  match self.lockupInformation.releaseDuration with
  | some releaseDuration =>
      remaining self.lockupAmount releaseDuration.toNat (min (start + releaseDuration.toNat) (2 ^ 64 - 1)) now
  | none => 0

/-- What is not vested yet. -/
def unvested (now : Nat) : Nat :=
  match self.vestingInformation with
  | .vestingSchedule vestingSchedule => vestingSchedule.unvested self.lockupAmount now
  | .terminating unvestedAmount => unvestedAmount.toNat
  | .none | .vestingHash _ => 0

/-- Everything is locked until the end of the lockup period, then what is unreleased or unvested. -/
def locked (transfersTimestamp : Timestamp) (hasBug : Bool) : Nat → Nat :=
  switch (self.lockedUntil transfersTimestamp) (fun _ => self.lockupAmount - self.withdrawn) fun now =>
    max (self.unreleased (self.releaseStart transfersTimestamp hasBug) now - self.withdrawn) (self.unvested now)

/-- What the contract guarantees whenever it is asked for the amount. -/
structure Sound (contract : LockupContract) : Prop where
  withdrawn_le : contract.withdrawn ≤ contract.lockupAmount
  schedule : ∀ vestingSchedule, contract.vestingInformation = .vestingSchedule vestingSchedule → vestingSchedule.Valid

end LockupContract

/-! ### The machine computes the functions -/

section Yields

open LockupContract

variable {self : LockupContract} {transfersTimestamp timestamp start : Timestamp}
  {vestingSchedule : VestingSchedule} {timeLeft totalTime : Duration}

/-- A product of a balance and a duration fits into 256 bits, and a share of a balance into a balance. -/
theorem yields_proRata (lockupAmount : Balance) (hle : timeLeft.toNat ≤ totalTime.toNat)
    (hpos : 0 < totalTime.toNat) :
    Yields (proRata lockupAmount timeLeft totalTime) (lockupAmount.toNat * timeLeft.toNat / totalTime.toNat) := by
  have hamount : (lockupAmount.setWidth 256).toNat = lockupAmount.toNat := BitVec.toNat_setWidth_of_le (by decide)
  have hleft : (timeLeft.setWidth 256).toNat = timeLeft.toNat := BitVec.toNat_setWidth_of_le (by decide)
  have htotal : (totalTime.setWidth 256).toNat = totalTime.toNat := BitVec.toNat_setWidth_of_le (by decide)
  have hproduct : lockupAmount.toNat * timeLeft.toNat < 2 ^ 256 :=
    calc lockupAmount.toNat * timeLeft.toNat
        ≤ 2 ^ 128 * 2 ^ 64 := Nat.mul_le_mul lockupAmount.isLt.le timeLeft.isLt.le
      _ < 2 ^ 256 := by decide
  have hshare : lockupAmount.toNat * timeLeft.toNat / totalTime.toNat ≤ lockupAmount.toNat :=
    Nat.div_le_of_le_mul (Nat.mul_comm totalTime.toNat _ ▸ Nat.mul_le_mul_left _ hle)
  unfold proRata
  refine (Yields.mul true (by rwa [hamount, hleft])).bind fun product hp => ?_
  refine (Yields.div (by rwa [htotal])).bind fun quotient hq => ?_
  rw [hp, hamount, hleft, htotal] at hq
  rw [← hq] at hshare ⊢
  exact Yields.narrow (hshare.trans_lt lockupAmount.isLt)

/-- From the cliff on a schedule has at most its total time left. -/
theorem yields_getUnvestedAmount (overflowChecks : Bool) (hvalid : vestingSchedule.Valid) (timestamp : Timestamp)
    (hpublic : ∀ unvestedAmount, self.vestingInformation ≠ .terminating unvestedAmount)
    (hvesting : self.vestingInformation ≠ .none) :
    Yields (self.getUnvestedAmount overflowChecks vestingSchedule timestamp)
      (vestingSchedule.unvested self.lockupAmount timestamp.toNat) := by
  have hschedule : Yields
      (if timestamp < vestingSchedule.cliffTimestamp then .ok self.lockupInformation.lockupAmount
        else if vestingSchedule.endTimestamp ≤ timestamp then .ok 0
        else do
          let timeLeft ← sub overflowChecks vestingSchedule.endTimestamp timestamp
          let totalTime ← sub overflowChecks vestingSchedule.endTimestamp vestingSchedule.startTimestamp
          proRata self.lockupInformation.lockupAmount timeLeft totalTime)
      (vestingSchedule.unvested self.lockupAmount timestamp.toNat) := by
    have hstart := hvalid.start_le_cliff
    unfold VestingSchedule.unvested remainingAfterCliff
    split
    · rename_i hcliff
      rw [switch_of_lt hcliff]
      exact .ok _
    rename_i hcliff
    have hnow : vestingSchedule.cliffTimestamp.toNat ≤ timestamp.toNat := Nat.le_of_not_lt hcliff
    rw [switch_of_le hnow]
    split
    · rename_i hend
      rw [remaining_of_le hend]
      exact .ok _
    · rename_i hend
      have hlater : timestamp.toNat < vestingSchedule.endTimestamp.toNat := Nat.lt_of_not_le hend
      refine (Yields.sub overflowChecks hlater.le).bind fun timeLeft hleft => ?_
      refine (Yields.sub overflowChecks hvalid.start_lt_end.le).bind fun totalTime htotal => ?_
      rw [remaining, ← hleft, ← htotal]
      exact yields_proRata _ (by omega) (by omega)
  unfold getUnvestedAmount
  cases hinformation : self.vestingInformation with
  | none => exact (hvesting hinformation).elim
  | terminating unvestedAmount => exact (hpublic unvestedAmount hinformation).elim
  | vestingHash _ => exact hschedule
  | vestingSchedule _ => exact hschedule

/-- A release that started has at most its duration left, and one without duration is over. -/
theorem yields_getUnreleasedAmount (overflowChecks : Bool) (hstart : start.toNat ≤ timestamp.toNat) :
    Yields (self.getUnreleasedAmount overflowChecks start timestamp)
      (self.unreleased start.toNat timestamp.toNat) := by
  unfold getUnreleasedAmount unreleased
  cases self.lockupInformation.releaseDuration with
  | none => exact .ok _
  | some releaseDuration =>
      dsimp only
      rw [← toNat_saturatingAdd]
      split
      · rename_i hend
        rw [remaining_of_le hend]
        exact .ok _
      · rename_i hend
        have hlater : timestamp.toNat < (saturatingAdd start releaseDuration).toNat := Nat.lt_of_not_le hend
        have hstop : (saturatingAdd start releaseDuration).toNat ≤ start.toNat + releaseDuration.toNat := by
          rw [toNat_saturatingAdd]
          exact Nat.min_le_left _ _
        refine (Yields.sub overflowChecks hlater.le).bind fun timeLeft hleft => ?_
        rw [remaining, ← hleft]
        exact yields_proRata _ (by omega) (by omega)

end Yields

end Lockup

end ExplorerIndexer
