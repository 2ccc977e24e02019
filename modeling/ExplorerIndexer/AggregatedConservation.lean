import ExplorerIndexer.AggregatedLockups
import ExplorerIndexer.AggregatedSupply
import ExplorerIndexer.LockupContract

/-! The figures of the circulating supply of a block, as a build without overflow checks computes them. What the node
answers is a parameter: the states of the lockup contracts, the versions of their code and the balances. -/

namespace ExplorerIndexer.Supply

open Store Models Lockup MachineWords

/-! ### Answers and errors -/

/-- An error with its contexts, the last one first, or a panic. -/
inductive Failure where
  | error (contexts : List String)
  | panic (reason : Panic)
  deriving DecidableEq

def bail {α : Type} (message : String) : Except Failure α := .error (.error [message])

/-- `Option::context` -/
def context {α : Type} (message : String) : Option α → Except Failure α
  | some value => .ok value
  | none => bail message

/-- `Result::with_context` -/
def withContext {α : Type} (message : String) : Except Failure α → Except Failure α
  | .error (.error contexts) => .error (.error (message :: contexts))
  | result => result

def orPanic {α : Type} : Except Panic α → Except Failure α
  | .ok value => .ok value
  | .error reason => .error (.panic reason)

structure AccountState where
  amount : Balance
  codeHash : CryptoHash

/-- What the node answers at a height, and what third-party crates decode. -/
structure Node where
  viewState : AccountId → Nat → Except Failure (List String)
  viewAccount : AccountId → Nat → Except Failure AccountState
  base64Decode : String → Option (List UInt8)
  tryFromSlice : List UInt8 → Option LockupContract

variable (node : Node) (db : Option Database) (block : Block)

/-! ### One lockup contract -/

/-- Transfers are always set to be enabled: the owner need not have asked the contract to check the vote. -/
def getLockupContractState (accountId : AccountId) (blockHeight : Nat) : Except Failure LockupContract := do
  let values ← node.viewState accountId blockHeight
  let viewState ← context ("Failed to find encoded lockup contract for " ++ accountId ++ ", block_height " ++
    toString blockHeight) values.head?
  let bytes ← context ("Failed to decode `view_state` for lockup contract " ++ accountId) (node.base64Decode viewState)
  let state ← context ("Failed to construct LockupContract for " ++ accountId) (node.tryFromSlice bytes)
  .ok { state with lockupInformation := { state.lockupInformation with
    transfersInformation := .transfersEnabled (BitVec.ofNat 64 transfersEnabled) } }

/-- Which version of the contract has the bug in the start of the release. -/
def isBugInsideContract (codeHash : CryptoHash) (accountId : AccountId) : Except Failure Bool :=
  match codeHash.text with
  | "3kVY9qcVRoW3B5498SMX6R3rtSLiCdmBzKs7zcnzDJ7Q" => .ok true
  | "DiC9bKCqUHqoYqUXovAnqugiuntHWnM3cAc7KrgaHTu" => .ok true
  | "Cw7bnyp4B6ypwvgZuMmJtY6rHsxP2D4PC8deqeJ3HP7D" => .ok false
  | "4Pfw2RU6e35dUsHQQoFYfwX8KFFvSRNwMSNLXuSFHXrC" => .ok false
  | other =>
      bail ("Unable to recognise the version of contract " ++ accountId ++ ", code hash " ++ other)

def getAccountBalance (accountId : AccountId) (blockHeight : Nat) : Except Failure Balance :=
  withContext ("Unable to get account balance for " ++ accountId)
    ((node.viewAccount accountId blockHeight).map (·.amount))

def getContractCodeHash (accountId : AccountId) (blockHeight : Nat) : Except Failure CryptoHash :=
  withContext ("Unable to get contract code hash for " ++ accountId)
    ((node.viewAccount accountId blockHeight).map (·.codeHash))

def lockedAmount (lockupAccountId : AccountId) : Except Failure Balance := do
  let state ← withContext ("Failed to get lockup contract details for " ++ lockupAccountId)
    (getLockupContractState node lockupAccountId block.blockHeight)
  let codeHash ← getContractCodeHash node lockupAccountId block.blockHeight
  let isLockupWithBug ← isBugInsideContract codeHash lockupAccountId
  orPanic (state.getLockedAmount false (BitVec.ofNat 64 block.blockTimestamp) isLockupWithBug)

/-! ### The sums -/

structure LockupTotals where
  lockupsLockedTokens : Balance
  unfinishedLockupContractsCount : BitVec 32

/-- One round of the loop, whose additions wrap around. -/
def LockupTotals.add (totals : LockupTotals) (lockedAmount : Balance) : LockupTotals where
  lockupsLockedTokens := totals.lockupsLockedTokens + lockedAmount
  unfinishedLockupContractsCount :=
    if 0 < lockedAmount then totals.unfinishedLockupContractsCount + 1 else totals.unfinishedLockupContractsCount

def lockupTotals (lockupAccountIds : List AccountId) : Except Failure LockupTotals :=
  lockupAccountIds.foldlM (fun totals lockupAccountId => return totals.add (← lockedAmount node block lockupAccountId))
    ⟨0, 0⟩

def foundationLockedAccountIds : List AccountId := ["lockup.near", "contributors.near"]

def foundationLockedTokens : Except Failure Balance :=
  foundationLockedAccountIds.foldlM
    (fun tokens accountId => return tokens + (← getAccountBalance node accountId block.blockHeight)) 0

/-- `parse::<u128>` -/
def toU128 (n : Nat) : Option Balance := if n < 2 ^ 128 then some (BitVec.ofNat 128 n) else none

def computeCirculatingSupplyForBlock : Except Failure CirculatingSupply := do
  let _ ← context "`block_timestamp` expected to be u64" (toU64 block.blockTimestamp)
  let blockHeight ← context "`block_height` expected to be u64" (toU64 block.blockHeight)
  let totalSupply ← context "`total_supply` expected to be u128" (toU128 block.totalSupply)
  let db ← context ("DB error while collecting lockup account ids for block_height " ++ toString blockHeight) db
  let lockupAccountIds := getLockupAccountIdsAtBlockHeight db blockHeight
  let totals ← lockupTotals node block lockupAccountIds
  let foundation ← foundationLockedTokens node block
  .ok (.ofBlock block
    { circulatingTokensSupply := (totalSupply - foundation - totals.lockupsLockedTokens).toNat
      totalLockupContractsCount := (BitVec.ofNat 32 lockupAccountIds.length).toInt
      unfinishedLockupContractsCount := totals.unfinishedLockupContractsCount.toInt
      foundationLockedTokens := foundation.toNat
      lockupsLockedTokens := totals.lockupsLockedTokens.toNat })

/-! ### What the computation learns and returns -/

/-- The accounts and amounts that a computation is told. -/
structure Learns (lockupAccountIds : List AccountId) (lockedAmounts balances : List Balance) : Prop where
  timestamp : block.blockTimestamp < UInt64.size
  height : block.blockHeight < UInt64.size
  totalSupply : block.totalSupply < 2 ^ 128
  answered : ∃ stored, db = some stored ∧
    lockupAccountIds = getLockupAccountIdsAtBlockHeight stored block.blockHeight
  lockedAmounts : List.Forall₂ (fun accountId amount => lockedAmount node block accountId = .ok amount)
    lockupAccountIds lockedAmounts
  balances : List.Forall₂ (fun accountId balance => getAccountBalance node accountId block.blockHeight = .ok balance)
    foundationLockedAccountIds balances

/-- The figures are the exact ones. -/
structure ExactRow (lockedAmounts balances : List Balance) (row : CirculatingSupply) : Prop where
  conserved : row.circulatingTokensSupply + row.foundationLockedTokens + row.lockupsLockedTokens =
    row.totalTokensSupply
  totalSupply : row.totalTokensSupply = block.totalSupply
  lockups : row.lockupsLockedTokens = exactSum lockedAmounts
  foundation : row.foundationLockedTokens = exactSum balances
  unfinished : row.unfinishedLockupContractsCount = lockedAmounts.countP (0 < ·)
  contracts : row.totalLockupContractsCount = lockedAmounts.length

/-- The figures as they are computed. -/
def wrappedFigures (totalSupply : Nat) (lockedAmounts balances : List Balance) : SupplyFigures where
  circulatingTokensSupply :=
    (BitVec.ofNat 128 totalSupply - wrappingSum balances - wrappingSum lockedAmounts).toNat
  totalLockupContractsCount := (BitVec.ofNat 32 lockedAmounts.length).toInt
  unfinishedLockupContractsCount := (BitVec.ofNat 32 (lockedAmounts.countP (0 < ·))).toInt
  foundationLockedTokens := (wrappingSum balances).toNat
  lockupsLockedTokens := (wrappingSum lockedAmounts).toNat

section Loops

variable {ε α β σ : Type} {f : α → Except ε β} {step : σ → β → σ} {xs : List α} {start final : σ}

/-- A loop that asks for a value in every round returns what it makes of the values, if it gets them all. -/
theorem foldlM_ok_iff : xs.foldlM (fun state x => return step state (← f x)) start = .ok final ↔
    ∃ ys, List.Forall₂ (fun x y => f x = .ok y) xs ys ∧ final = ys.foldl step start := by
  induction xs generalizing start with
  | nil =>
      constructor
      · intro h
        cases h
        exact ⟨[], .nil, rfl⟩
      · rintro ⟨ys, hys, rfl⟩
        cases hys
        rfl
  | cons x xs ih =>
      rw [List.foldlM_cons]
      cases hx : f x with
      | error failure =>
          constructor
          · intro h
            cases h
          · rintro ⟨ys, hys, _⟩
            cases hys with
            | cons hy _ => cases hx.symm.trans hy
      | ok y =>
          refine Iff.trans ih ?_
          constructor
          · rintro ⟨ys, hys, hfinal⟩
            exact ⟨y :: ys, .cons hx hys, hfinal⟩
          · rintro ⟨ys, hys, hfinal⟩
            cases hys with
            | cons hy hys =>
                cases hx.symm.trans hy
                exact ⟨_, hys, hfinal⟩

end Loops

theorem foldl_totals (lockedAmounts : List Balance) (totals : LockupTotals) :
    lockedAmounts.foldl LockupTotals.add totals =
      ⟨lockedAmounts.foldl (· + ·) totals.lockupsLockedTokens,
        totals.unfinishedLockupContractsCount + BitVec.ofNat 32 (lockedAmounts.countP (0 < ·))⟩ := by
  induction lockedAmounts generalizing totals with
  | nil => simp
  | cons amount amounts ih =>
      rw [List.foldl_cons, ih, List.foldl_cons, List.countP_cons, LockupTotals.add]
      by_cases hpositive : 0 < amount
      · simp only [hpositive, if_true, decide_true, BitVec.ofNat_add]
        rw [BitVec.add_assoc, BitVec.add_comm 1]
        rfl
      · simp only [hpositive, if_false, decide_false, Bool.false_eq_true, Nat.add_zero]

section Computation

variable {node : Node} {db : Option Database} {block : Block} {lockupAccountIds : List AccountId}
  {lockedAmounts balances : List Balance} {row : CirculatingSupply}

theorem lockupTotals_ok_iff {totals : LockupTotals} : lockupTotals node block lockupAccountIds = .ok totals ↔
    ∃ lockedAmounts, List.Forall₂ (fun accountId amount => lockedAmount node block accountId = .ok amount)
      lockupAccountIds lockedAmounts ∧
      totals = ⟨wrappingSum lockedAmounts, BitVec.ofNat 32 (lockedAmounts.countP (0 < ·))⟩ := by
  rw [lockupTotals, foldlM_ok_iff]
  simp only [foldl_totals, BitVec.ofNat_eq_ofNat, BitVec.zero_add]
  rfl

theorem foundationLockedTokens_ok_iff {tokens : Balance} : foundationLockedTokens node block = .ok tokens ↔
    ∃ balances, List.Forall₂ (fun accountId balance =>
      getAccountBalance node accountId block.blockHeight = .ok balance) foundationLockedAccountIds balances ∧
      tokens = wrappingSum balances :=
  foldlM_ok_iff

theorem bind_ok_iff {α β : Type} {x : Except Failure α} {f : α → Except Failure β} {b : β} :
    x >>= f = .ok b ↔ ∃ a, x = .ok a ∧ f a = .ok b := by
  cases x with
  | error failure =>
      constructor
      · intro h
        cases h
      · rintro ⟨a, ha, _⟩
        cases ha
  | ok a =>
      constructor
      · exact fun h => ⟨a, rfl, h⟩
      · rintro ⟨_, hok, h⟩
        cases hok
        exact h

theorem context_ok_iff {α : Type} {message : String} {x : Option α} {a : α} :
    context message x = .ok a ↔ x = some a := by
  cases x <;> simp [context, bail]

theorem toU64_eq_some_iff {n m : Nat} : toU64 n = some m ↔ n < UInt64.size ∧ m = n := by
  rw [toU64, Option.ite_none_right_eq_some, Option.some.injEq, @eq_comm _ m]

theorem toU128_eq_some_iff {n : Nat} {total : Balance} :
    toU128 n = some total ↔ n < 2 ^ 128 ∧ total = BitVec.ofNat 128 n := by
  rw [toU128, Option.ite_none_right_eq_some, Option.some.injEq, @eq_comm _ total]

theorem forall₂_unique {α β : Type} {f : α → Except Failure β} {xs : List α} {ys zs : List β}
    (hys : List.Forall₂ (fun x y => f x = .ok y) xs ys) (hzs : List.Forall₂ (fun x z => f x = .ok z) xs zs) :
    ys = zs := by
  induction hys generalizing zs with
  | nil =>
      cases hzs
      rfl
  | cons hy _ ih =>
      cases hzs with
      | cons hz hzs =>
          rw [ih hzs]
          cases hy.symm.trans hz
          rfl

/-- What is learnt is determined by the answers. -/
theorem Learns.unique {lockupAccountIds' : List AccountId} {lockedAmounts' balances' : List Balance}
    (h : Learns node db block lockupAccountIds lockedAmounts balances)
    (h' : Learns node db block lockupAccountIds' lockedAmounts' balances') :
    lockedAmounts = lockedAmounts' ∧ balances = balances' := by
  obtain ⟨stored, rfl, rfl⟩ := h.answered
  obtain ⟨_, hdb, rfl⟩ := h'.answered
  cases hdb
  exact ⟨forall₂_unique h.lockedAmounts h'.lockedAmounts, forall₂_unique h.balances h'.balances⟩

/-- A row is what the wrapping operators make of the amounts. -/
theorem compute_ok_iff : computeCirculatingSupplyForBlock node db block = .ok row ↔
    ∃ lockupAccountIds lockedAmounts balances, Learns node db block lockupAccountIds lockedAmounts balances ∧
      row = .ofBlock block (wrappedFigures block.totalSupply lockedAmounts balances) := by
  unfold computeCirculatingSupplyForBlock
  simp only [bind_ok_iff, context_ok_iff, lockupTotals_ok_iff, foundationLockedTokens_ok_iff, toU64_eq_some_iff,
    toU128_eq_some_iff]
  constructor
  · rintro ⟨_, ⟨htimestamp, _⟩, _, ⟨hheight, rfl⟩, _, ⟨htotal, rfl⟩, stored, rfl, _, ⟨amounts, hamounts, rfl⟩, _,
      ⟨balances, hbalances, rfl⟩, hrow⟩
    refine ⟨_, amounts, balances, ⟨htimestamp, hheight, htotal, ⟨stored, rfl, rfl⟩, hamounts, hbalances⟩, ?_⟩
    rw [← Except.ok.inj hrow, wrappedFigures, hamounts.length_eq]
  · rintro ⟨_, amounts, balances, ⟨htimestamp, hheight, htotal, ⟨stored, rfl, rfl⟩, hamounts, hbalances⟩, rfl⟩
    refine ⟨_, ⟨htimestamp, rfl⟩, _, ⟨hheight, rfl⟩, _, ⟨htotal, rfl⟩, stored, rfl, _, ⟨amounts, hamounts, rfl⟩, _,
      ⟨balances, hbalances, rfl⟩, ?_⟩
    rw [wrappedFigures, hamounts.length_eq]

/-- What the loop over the days writes is such a row. -/
theorem exists_figures (h : computeCirculatingSupplyForBlock node db block = .ok row) :
    ∃ figures, row = .ofBlock block figures := by
  obtain ⟨_, amounts, balances, _, hrow⟩ := compute_ok_iff.mp h
  exact ⟨_, hrow⟩

/-- A count is exact if it is below the bound of its signed type. -/
theorem toInt_ofNat_eq_iff (n : Nat) : (BitVec.ofNat 32 n).toInt = n ↔ n < 2 ^ 31 := by
  rw [BitVec.toInt_eq_toNat_cond, BitVec.toNat_ofNat]
  split <;> omega

/-- The wrapped figures are exact if the amounts are at most the total supply, and the contracts can be counted. -/
theorem exactRow_wrapped_iff (htotal : block.totalSupply < 2 ^ 128) :
    ExactRow block lockedAmounts balances (.ofBlock block (wrappedFigures block.totalSupply lockedAmounts balances)) ↔
      exactSum balances + exactSum lockedAmounts ≤ block.totalSupply ∧ lockedAmounts.length < 2 ^ 31 := by
  have htotalNat : (BitVec.ofNat 128 block.totalSupply).toNat = block.totalSupply := by
    rw [BitVec.toNat_ofNat, Nat.mod_eq_of_lt htotal]
  have hsums := sub_sub_exact_iff (BitVec.ofNat 128 block.totalSupply) balances lockedAmounts
  rw [htotalNat] at hsums
  constructor
  · intro hexact
    have hlockups := hexact.lockups
    have hfoundation := hexact.foundation
    have hconserved := hexact.conserved
    simp only [CirculatingSupply.ofBlock, wrappedFigures] at hlockups hfoundation hconserved
    refine ⟨hsums.mp ⟨?_, hfoundation, hlockups⟩, (toInt_ofNat_eq_iff _).mp hexact.contracts⟩
    rw [← hfoundation, ← hlockups]
    exact hconserved
  · rintro ⟨hle, hlength⟩
    obtain ⟨hconserved, hfoundation, hlockups⟩ := hsums.mpr hle
    refine ⟨?_, rfl, hlockups, hfoundation, ?_, (toInt_ofNat_eq_iff _).mpr hlength⟩
    · simp only [CirculatingSupply.ofBlock, wrappedFigures]
      rw [hfoundation, hlockups]
      exact hconserved
    · exact (toInt_ofNat_eq_iff _).mpr (Nat.lt_of_le_of_lt List.countP_le_length hlength)

/-- A computation returns no row but an exact one if and only if the amounts it learns are at most the total supply of
the block, and the contracts can be counted. -/
theorem supply_exact_iff (node : Node) (db : Option Database) (block : Block) :
    (∀ row lockupAccountIds lockedAmounts balances, computeCirculatingSupplyForBlock node db block = .ok row →
      Learns node db block lockupAccountIds lockedAmounts balances → ExactRow block lockedAmounts balances row) ↔
    ∀ lockupAccountIds lockedAmounts balances, Learns node db block lockupAccountIds lockedAmounts balances →
      exactSum balances + exactSum lockedAmounts ≤ block.totalSupply ∧ lockedAmounts.length < 2 ^ 31 := by
  constructor
  · intro hexact lockupAccountIds lockedAmounts balances hlearns
    have hrow := compute_ok_iff.mpr ⟨_, _, _, hlearns, rfl⟩
    exact (exactRow_wrapped_iff hlearns.totalSupply).mp (hexact _ _ _ _ hrow hlearns)
  · intro hfits row lockupAccountIds lockedAmounts balances hrow hlearns
    obtain ⟨_, _, _, hlearns', rfl⟩ := compute_ok_iff.mp hrow
    obtain ⟨rfl, rfl⟩ := hlearns'.unique hlearns
    exact (exactRow_wrapped_iff hlearns.totalSupply).mpr (hfits _ _ _ hlearns)

end Computation

/-- A node on which every account has 10 and no contract has a state. -/
def tenEach : Node where
  viewState _ _ := .ok []
  viewAccount _ _ := .ok ⟨10, .ofText "11111111111111111111111111111111"⟩
  base64Decode _ := none
  tryFromSlice _ := none

/-- A block with a total supply of 15. -/
def blockOfFifteen : Block := { Block.ofView lastBlockOfDay.block with totalSupply := 15 }

/-- The foundation has more than there is: the supply wraps around. -/
theorem supply_wraps :
    ¬ ∀ (node : Node) (db : Option Database) (block : Block) (row : CirculatingSupply)
      (lockupAccountIds : List AccountId) (lockedAmounts balances : List Balance),
      computeCirculatingSupplyForBlock node db block = .ok row →
      Learns node db block lockupAccountIds lockedAmounts balances → ExactRow block lockedAmounts balances row := by
  intro hall
  have hlearns : Learns tenEach (some {}) blockOfFifteen [] [] [10, 10] :=
    ⟨by decide, by decide, by decide, ⟨{}, rfl, rfl⟩, .nil, .cons rfl (.cons rfl .nil)⟩
  have hexact := hall _ _ _ _ _ _ _ (compute_ok_iff.mpr ⟨_, _, _, hlearns, rfl⟩) hlearns
  exact absurd ((exactRow_wrapped_iff (by decide)).mp hexact).1 (by decide)

example : (wrappedFigures 15 [] [10, 10]).circulatingTokensSupply = 2 ^ 128 - 5 := by decide

end ExplorerIndexer.Supply
