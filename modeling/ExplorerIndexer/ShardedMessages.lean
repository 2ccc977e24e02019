import ExplorerIndexer.AccessKeysReplay
import ExplorerIndexer.AccountsReplay

/-! The shards of a message. Accounts and access keys are handled shard by shard; as an account lives on one shard, that
comes to the same, for each row, as handling the outcomes of all shards at once. -/

namespace ExplorerIndexer

open Async Store Models
open Accounts (successfulReceipts successfulActions deletesAccount lastReceipt)

/-! ### The steps of one account -/

/-- The steps whose receipts an account receives. -/
def receivedBy (accountId : AccountId) (steps : List (ReceiptView × ActionView)) : List (ReceiptView × ActionView) :=
  steps.filter fun step => decide (step.1.receiverId = accountId)

section Received

variable (accountId : AccountId) (steps : List (ReceiptView × ActionView))

theorem foldl_receivedBy {β : Type} {act : β → ReceiptView × ActionView → β}
    (h : ∀ b step, step.1.receiverId ≠ accountId → act b step = b) (b : β) :
    (receivedBy accountId steps).foldl act b = steps.foldl act b := by
  rw [receivedBy, List.foldl_filter]
  congr 1
  funext b step
  by_cases hreceiver : step.1.receiverId = accountId
  · rw [if_pos (decide_eq_true hreceiver)]
  · rw [if_neg (by simpa using hreceiver), h b step hreceiver]

theorem Accounts.entryOf_receivedBy (blockHeight : Nat) :
    entryOf accountId blockHeight (receivedBy accountId steps) = entryOf accountId blockHeight steps :=
  foldl_receivedBy accountId steps (fun _ _ hreceiver => if_neg hreceiver) none

theorem AccessKeys.entryOf_receivedBy (decoders : Decoders) (key : PublicKey × AccountId) (blockHeight : Nat) :
    entryOf decoders key blockHeight (receivedBy key.2 steps) = entryOf decoders key blockHeight steps :=
  foldl_receivedBy key.2 steps (fun _ _ hreceiver => if_neg hreceiver) none

theorem lastReceipt_receivedBy : lastReceipt (deletesAccount accountId) (receivedBy accountId steps) =
    lastReceipt (deletesAccount accountId) steps := by
  rw [lastReceipt, lastReceipt, Accounts.lastStep, Accounts.lastStep, receivedBy, ← List.filter_reverse,
    List.find?_filter]
  congr 2
  funext step
  rw [deletesAccount]
  cases decide (step.1.receiverId = accountId) <;> simp

end Received

/-! ### What a message does to a row -/

/-- If two items never have elements with a property both, the elements with the property come from one item. -/
theorem filter_flatMap_of_pairwise {α β : Type} {f : α → List β} {p : β → Bool} {items : List α}
    (h : items.Pairwise fun a b => ∀ x ∈ f a, ∀ y ∈ f b, p x = true → p y = false) :
    (∀ a ∈ items, (f a).filter p = [] ∨ (f a).filter p = (items.flatMap f).filter p) ∧
      ((items.flatMap f).filter p = [] ∨ ∃ a ∈ items, (f a).filter p = (items.flatMap f).filter p) := by
  induction items with
  | nil => exact ⟨nofun, .inl rfl⟩
  | cons a items ih =>
      obtain ⟨hfirst, hrest⟩ := List.pairwise_cons.mp h
      obtain ⟨ihparts, ihwhole⟩ := ih hrest
      rw [List.flatMap_cons, List.filter_append]
      by_cases hnone : (f a).filter p = []
      · rw [hnone, List.nil_append]
        refine ⟨List.forall_mem_cons.mpr ⟨.inl hnone, ihparts⟩, ihwhole.imp_right ?_⟩
        rintro ⟨b, hb, heq⟩
        exact ⟨b, List.mem_cons_of_mem _ hb, heq⟩
      · obtain ⟨x, hx⟩ := List.exists_mem_of_ne_nil _ hnone
        obtain ⟨hxa, hpx⟩ := List.mem_filter.mp hx
        have hothers : ∀ b ∈ items, (f b).filter p = [] := fun b hb =>
          List.filter_eq_nil_iff.mpr fun y hy => by
            rw [hfirst b hb x hxa y hy hpx]
            exact Bool.false_ne_true
        have hwhole : (items.flatMap f).filter p = [] := by
          rw [List.filter_flatMap]
          exact List.flatMap_eq_nil_iff.mpr hothers
        rw [hwhole, List.append_nil]
        exact ⟨List.forall_mem_cons.mpr ⟨.inr rfl, fun b hb => .inl (hothers b hb)⟩, .inr ⟨a, List.mem_cons_self, rfl⟩⟩

/-- No account receives successful receipts on two shards. -/
def Sharded (message : StreamerMessage) : Prop :=
  message.shards.Pairwise fun shard other =>
    ∀ step ∈ successfulActions shard.receiptExecutionOutcomes,
      ∀ step' ∈ successfulActions other.receiptExecutionOutcomes, step.1.receiverId ≠ step'.1.receiverId

/-- The outcomes of all shards, as the outcomes of a block. -/
def StreamerMessage.blockOutcomes (message : StreamerMessage) : BlockOutcomes :=
  ⟨message.block.header.height, message.outcomes⟩

/-- The outcomes of one shard. -/
def StreamerMessage.shardOutcomes (message : StreamerMessage) (shard : IndexerShard) : BlockOutcomes :=
  ⟨message.block.header.height, shard.receiptExecutionOutcomes⟩

theorem successfulActions_flatMap {α : Type} (f : α → List IndexerExecutionOutcomeWithReceipt) (items : List α) :
    successfulActions (items.flatMap f) = items.flatMap fun item => successfulActions (f item) := by
  simp only [successfulActions, successfulReceipts, List.filter_flatMap, List.map_flatMap, List.flatMap_assoc]

section Message

variable {message : StreamerMessage} {accountId : AccountId}

/-- The steps of an account on a shard are none, or all those of the message. -/
theorem Sharded.received (h : Sharded message) (accountId : AccountId) :
    (∀ shard ∈ message.shards,
        receivedBy accountId (successfulActions shard.receiptExecutionOutcomes) = [] ∨
          receivedBy accountId (successfulActions shard.receiptExecutionOutcomes) =
            receivedBy accountId (successfulActions message.outcomes)) ∧
      (receivedBy accountId (successfulActions message.outcomes) = [] ∨ ∃ shard ∈ message.shards,
        receivedBy accountId (successfulActions shard.receiptExecutionOutcomes) =
          receivedBy accountId (successfulActions message.outcomes)) := by
  rw [StreamerMessage.outcomes, successfulActions_flatMap]
  refine filter_flatMap_of_pairwise (h.imp fun {shard other} hne step hstep step' hstep' hreceiver => ?_)
  rw [decide_eq_false_iff_not]
  exact fun hreceiver' => hne step hstep step' hstep' ((of_decide_eq_true hreceiver).trans hreceiver'.symm)

/-- What is a function of the steps of an account is on each shard what no steps give, or what the message gives. -/
theorem Sharded.congr {β : Type} (h : Sharded message) {g : List (ReceiptView × ActionView) → β}
    (hg : ∀ steps, g (receivedBy accountId steps) = g steps) :
    (∀ shard ∈ message.shards,
        g (successfulActions shard.receiptExecutionOutcomes) = g [] ∨
          g (successfulActions shard.receiptExecutionOutcomes) = g (successfulActions message.outcomes)) ∧
      (g (successfulActions message.outcomes) = g [] ∨ ∃ shard ∈ message.shards,
        g (successfulActions shard.receiptExecutionOutcomes) = g (successfulActions message.outcomes)) := by
  obtain ⟨hparts, hwhole⟩ := h.received accountId
  constructor
  · intro shard hshard
    rw [← hg (successfulActions shard.receiptExecutionOutcomes), ← hg (successfulActions message.outcomes)]
    exact (hparts shard hshard).imp (congrArg g) (congrArg g)
  · rw [← hg (successfulActions message.outcomes)]
    refine hwhole.imp (congrArg g) ?_
    rintro ⟨shard, hshard, heq⟩
    exact ⟨shard, hshard, by rw [← heq, hg]⟩

end Message

/-! ### The effects of a message -/

namespace Accounts

def effectsOf (message : StreamerMessage) (accountId : AccountId) : List (Option Account → Option Account) :=
  [blockEffect accountId message.blockOutcomes]

theorem guarded_effectsOf (message : StreamerMessage) (accountId : AccountId) :
    ∀ f ∈ effectsOf message accountId, Guarded Account.lastUpdateBlockHeight message.block.header.height f := by
  intro f hf
  rw [List.mem_singleton.mp hf]
  exact guarded_block accountId message.blockOutcomes

variable {message : StreamerMessage}

/-- Each shard leaves a row alone or does to it what the message does, and one of them does that. -/
theorem sharded_blockEffect (h : Sharded message) (accountId : AccountId) :
    (∀ shard ∈ message.shards,
        blockEffect accountId (message.shardOutcomes shard) = id ∨
          blockEffect accountId (message.shardOutcomes shard) = blockEffect accountId message.blockOutcomes) ∧
      (blockEffect accountId message.blockOutcomes = id ∨ ∃ shard ∈ message.shards,
        blockEffect accountId (message.shardOutcomes shard) = blockEffect accountId message.blockOutcomes) :=
  h.congr
    (g := fun steps => callEffect message.block.header.height (entryOf accountId message.block.header.height steps))
    fun steps => by rw [entryOf_receivedBy]

end Accounts

namespace AccessKeys

def effectsOf (decoders : Decoders) (message : StreamerMessage) (key : PublicKey × AccountId) :
    List (Option AccessKey → Option AccessKey) :=
  [sweepEffect message.block.header.height (lastReceipt (deletesAccount key.2) (successfulActions message.outcomes)),
    entryEffect message.block.header.height
      (entryOf decoders key message.block.header.height (successfulActions message.outcomes))]

variable {decoders : Decoders} {message : StreamerMessage}

theorem guarded_effectsOf (decoders : Decoders) (message : StreamerMessage) (key : PublicKey × AccountId) :
    ∀ f ∈ effectsOf decoders message key,
      Guarded AccessKey.lastUpdateBlockHeight message.block.header.height f := by
  intro f hf
  rcases List.mem_cons.mp hf with rfl | hf
  · exact guarded_sweepEffect _ _
  · rw [List.mem_singleton.mp hf]
    exact guarded_entryEffect fun e he => (wellFormed_entryOf he).height

theorem settled_effectsOf {key : PublicKey × AccountId} {x : Option AccessKey} :
    (∀ f ∈ effectsOf decoders message key, f x = x) ↔ Settled decoders message.blockOutcomes key x := by
  rw [effectsOf, List.forall_mem_cons, List.forall_mem_singleton]
  rfl

/-- Each shard leaves a row alone or does to it what the message does. -/
theorem sharded_effects (h : Sharded message) (key : PublicKey × AccountId) {shard : IndexerShard}
    (hshard : shard ∈ message.shards) {x y : Option AccessKey}
    (heffect : y = x ∨
      y = sweepEffect message.block.header.height
        (lastReceipt (deletesAccount key.2) (successfulActions shard.receiptExecutionOutcomes)) x ∨
      y = entryEffect message.block.header.height
        (entryOf decoders key message.block.header.height (successfulActions shard.receiptExecutionOutcomes)) x) :
    y = x ∨ ∃ f ∈ effectsOf decoders message key, y = f x := by
  have hsweep := (h.congr (g := lastReceipt (deletesAccount key.2)) (lastReceipt_receivedBy key.2)).1 shard hshard
  have hentry := (h.congr (g := entryOf decoders key message.block.header.height)
    fun steps => entryOf_receivedBy steps decoders key _).1 shard hshard
  rcases heffect with hsame | hswept | hentered
  · exact .inl hsame
  · rcases hsweep with hnone | hall
    · rw [hnone] at hswept
      exact .inl hswept
    · rw [hall] at hswept
      exact .inr ⟨_, List.mem_cons_self, hswept⟩
  · rcases hentry with hnone | hall
    · rw [hnone] at hentered
      exact .inl hentered
    · rw [hall] at hentered
      exact .inr ⟨_, List.mem_cons_of_mem _ List.mem_cons_self, hentered⟩

/-- When no shard has anything left to do for a row, the message has not. -/
theorem settled_of_shards (h : Sharded message) (key : PublicKey × AccountId) {x : Option AccessKey}
    (hshards : ∀ shard ∈ message.shards, Settled decoders (message.shardOutcomes shard) key x) :
    Settled decoders message.blockOutcomes key x := by
  constructor
  · rcases (h.congr (g := lastReceipt (deletesAccount key.2)) (lastReceipt_receivedBy key.2)).2 with
      hnone | ⟨shard, hshard, heq⟩
    · exact congrFun (congrArg _ hnone) x
    · exact heq ▸ (hshards shard hshard).1
  · rcases (h.congr (g := entryOf decoders key message.block.header.height)
      fun steps => entryOf_receivedBy steps decoders key _).2 with hnone | ⟨shard, hshard, heq⟩
    · exact congrFun (congrArg _ hnone) x
    · exact heq ▸ (hshards shard hshard).2

end AccessKeys

end ExplorerIndexer
