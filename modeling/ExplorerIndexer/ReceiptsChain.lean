import ExplorerIndexer.ParentsSound

/-! The order in which a chain includes and executes the receipts of its transactions, and what it means for a run
that handles a segment of the chain: a receipt that stems from a transaction of the segment, or a data id, is awaited
from the block that introduces it to the block that consumes it. -/

namespace ExplorerIndexer.Receipts

open Store Models

/-- The block at this place of the chain has the item. -/
def InBlock {β : Type} (items : StreamerMessage → List β) (chain : List StreamerMessage) (i : Nat) (item : β) : Prop :=
  ∃ message, chain[i]? = some message ∧ item ∈ items message

theorem InBlock.eq_of_nodup {β : Type} {items : StreamerMessage → List β} {chain : List StreamerMessage}
    (hnodup : (chain.flatMap items).Nodup) {i j : Nat} {item : β} (hi : InBlock items chain i item)
    (hj : InBlock items chain j item) : i = j := by
  obtain ⟨message, hmessage, hitem⟩ := hi
  obtain ⟨message', hmessage', hitem'⟩ := hj
  obtain ⟨hi, rfl⟩ := List.getElem?_eq_some_iff.mp hmessage
  obtain ⟨hj, rfl⟩ := List.getElem?_eq_some_iff.mp hmessage'
  have hdisjoint := List.pairwise_iff_getElem.mp (List.nodup_flatMap.mp hnodup).2
  rcases Nat.lt_trichotomy i j with hlt | heq | hgt
  · exact (hdisjoint i j hi hj hlt hitem hitem').elim
  · exact heq
  · exact (hdisjoint j i hj hi hgt hitem' hitem).elim

/-- The order of a chain. -/
structure Ordered (chain : List StreamerMessage) : Prop where
  /-- The first receipt of a transaction is included no earlier than the transaction. -/
  converted : ∀ i j tx receipt, InBlock (·.transactions) chain i tx → InBlock (·.receipts) chain j receipt →
    receipt.receiptId = tx.convertedIntoReceiptId → i ≤ j
  /-- A receipt is executed no earlier than the block that includes it. -/
  executed : ∀ j outcome, InBlock (·.outcomes) chain j outcome → ∃ i receipt, InBlock (·.receipts) chain i receipt ∧
    receipt.receiptId = outcome.executionOutcome.id ∧ i ≤ j
  /-- The receipts listed in an outcome are included in a later block. -/
  produced : ∀ i j outcome receipt, InBlock (·.outcomes) chain i outcome → InBlock (·.receipts) chain j receipt →
    receipt.receiptId ∈ outcome.executionOutcome.outcome.receiptIds → i < j
  /-- A Data receipt is included in a later block than the receipts that name its data id. -/
  output : ∀ i j receipt receiver data, InBlock (·.receipts) chain i receipt →
    receiver ∈ receipt.outputDataReceivers → InBlock (·.receipts) chain j data →
    data.dataId? = some receiver.dataId → i < j
  hashes : Parents.DistinctHashes chain
  dataIds : ((chain.flatMap (·.receipts)).filterMap (·.dataId?)).Nodup
  includedOnce : ((chain.flatMap (·.receipts)).map (·.receiptId)).Nodup
  executedOnce : ((chain.flatMap (·.outcomes)).map (·.executionOutcome.id)).Nodup

/-- The receipts and data ids that stem from a transaction of the stream, on a chain that it continues. A Data receipt
stems from the receipts that name its data id. -/
inductive Rooted (before stream : List StreamerMessage) : ReceiptOrDataId → Prop
  | converted {message : StreamerMessage} {tx : IndexerTransactionWithOutcome} (hmessage : message ∈ stream)
      (htx : tx ∈ message.transactions) : Rooted before stream (.receiptId tx.convertedIntoReceiptId)
  | produced {message : StreamerMessage} {outcome : IndexerExecutionOutcomeWithReceipt} {receiptId : CryptoHash}
      (hmessage : message ∈ before ++ stream) (houtcome : outcome ∈ message.outcomes)
      (hparent : Rooted before stream (.receiptId outcome.executionOutcome.id))
      (hproduced : receiptId ∈ outcome.executionOutcome.outcome.receiptIds) :
      Rooted before stream (.receiptId receiptId)
  | output {message : StreamerMessage} {receipt : ReceiptView} {receiver : DataReceiverView}
      (hmessage : message ∈ before ++ stream) (hreceipt : receipt ∈ message.receipts)
      (hparent : Rooted before stream (.receiptId receipt.receiptId))
      (hreceiver : receiver ∈ receipt.outputDataReceivers) : Rooted before stream (.dataId receiver.dataId)

/-! ### What a block introduces and what it consumes -/

def Converts (transactions : List IndexerTransactionWithOutcome) (key : ReceiptOrDataId) : Prop :=
  ∃ tx ∈ transactions, key = .receiptId tx.convertedIntoReceiptId

section Introduces

variable (rooted : ReceiptOrDataId → Prop)

def Names (receipts : List ReceiptView) (key : ReceiptOrDataId) : Prop :=
  ∃ receipt ∈ receipts, rooted (.receiptId receipt.receiptId) ∧
    ∃ receiver ∈ receipt.outputDataReceivers, key = .dataId receiver.dataId

def Produces (outcomes : List IndexerExecutionOutcomeWithReceipt) (key : ReceiptOrDataId) : Prop :=
  ∃ outcome ∈ outcomes, rooted (.receiptId outcome.executionOutcome.id) ∧
    ∃ receiptId ∈ outcome.executionOutcome.outcome.receiptIds, key = .receiptId receiptId

def Introduces (message : StreamerMessage) (key : ReceiptOrDataId) : Prop :=
  Converts message.transactions key ∨ Names rooted message.receipts key ∨ Produces rooted message.outcomes key

end Introduces

def Executes (outcomes : List IndexerExecutionOutcomeWithReceipt) (key : ReceiptOrDataId) : Prop :=
  ∃ outcome ∈ outcomes, key = .receiptId outcome.executionOutcome.id

def Delivers (receipts : List ReceiptView) (key : ReceiptOrDataId) : Prop :=
  ∃ receipt ∈ receipts, ∃ dataId, receipt.dataId? = some dataId ∧ key = .dataId dataId

def Consumes (message : StreamerMessage) (key : ReceiptOrDataId) : Prop :=
  Executes message.outcomes key ∨ Delivers message.receipts key

/-- Introduced by a handled block, and not consumed yet. -/
structure Awaited (rooted : ReceiptOrDataId → Prop) (done : List StreamerMessage) (key : ReceiptOrDataId) : Prop where
  introduced : ∃ message ∈ done, Introduces rooted message key
  pending : ∀ message ∈ done, ¬ Consumes message key

/-! ### The parts of a block consume different keys -/

section Parts

variable {chain : List StreamerMessage} {message : StreamerMessage}

theorem Ordered.nodup_dataIds (hchain : Ordered chain) (hmessage : message ∈ chain) :
    (message.receipts.filterMap (·.dataId?)).Nodup := by
  have hnodup := hchain.dataIds
  rw [List.filterMap_flatMap] at hnodup
  exact (List.nodup_flatMap.mp hnodup).1 message hmessage

theorem Ordered.nodup_executed (hchain : Ordered chain) (hmessage : message ∈ chain) :
    (message.outcomes.map (·.executionOutcome.id)).Nodup := by
  have hnodup := hchain.executedOnce
  rw [List.map_flatMap] at hnodup
  exact (List.nodup_flatMap.mp hnodup).1 message hmessage

theorem Ordered.delivers_disjoint (hchain : Ordered chain) (hmessage : message ∈ chain) :
    (chunksOf message.shards).Pairwise fun a b => ∀ key, Delivers a.receipts key → ¬ Delivers b.receipts key := by
  have hnodup := hchain.nodup_dataIds hmessage
  unfold StreamerMessage.receipts at hnodup
  rw [List.filterMap_flatMap] at hnodup
  refine (List.nodup_flatMap.mp hnodup).2.imp fun hdisjoint key => ?_
  rintro ⟨receipt, hreceipt, dataId, hdataId, rfl⟩ ⟨receipt', hreceipt', dataId', hdataId', hkey⟩
  cases hkey
  exact hdisjoint (List.mem_filterMap.mpr ⟨receipt, hreceipt, hdataId⟩)
    (List.mem_filterMap.mpr ⟨receipt', hreceipt', hdataId'⟩)

theorem Ordered.executes_disjoint (hchain : Ordered chain) (hmessage : message ∈ chain) :
    message.shards.Pairwise fun a b =>
      ∀ key, Executes a.receiptExecutionOutcomes key → ¬ Executes b.receiptExecutionOutcomes key := by
  have hnodup := hchain.nodup_executed hmessage
  unfold StreamerMessage.outcomes at hnodup
  rw [List.map_flatMap] at hnodup
  refine (List.nodup_flatMap.mp hnodup).2.imp fun hdisjoint key => ?_
  rintro ⟨outcome, houtcome, rfl⟩ ⟨outcome', houtcome', hkey⟩
  exact hdisjoint (List.mem_map.mpr ⟨outcome, houtcome, rfl⟩)
    (List.mem_map.mpr ⟨outcome', houtcome', (ReceiptOrDataId.receiptId.inj hkey).symm⟩)

theorem Ordered.nodup_executed_of_shard (hchain : Ordered chain) (hmessage : message ∈ chain) {shard : IndexerShard}
    (hshard : shard ∈ message.shards) : (shard.receiptExecutionOutcomes.map (·.executionOutcome.id)).Nodup := by
  have hnodup := hchain.nodup_executed hmessage
  unfold StreamerMessage.outcomes at hnodup
  rw [List.map_flatMap] at hnodup
  exact (List.nodup_flatMap.mp hnodup).1 shard hshard

end Parts

/-! ### Places -/

section Places

variable {before done rest : List StreamerMessage} {message : StreamerMessage}

theorem getElem?_of_mem_stream (before : List StreamerMessage) {stream : List StreamerMessage}
    {other : StreamerMessage} (h : other ∈ stream) :
    ∃ i, before.length ≤ i ∧ (before ++ stream)[i]? = some other := by
  obtain ⟨i, hi⟩ := List.getElem?_of_mem h
  refine ⟨before.length + i, Nat.le_add_right _ _, ?_⟩
  rwa [List.getElem?_append_right (Nat.le_add_right _ _), Nat.add_sub_cancel_left]

/-- The place of the message after those that are done. -/
theorem getElem?_place : (before ++ (done ++ message :: rest))[before.length + done.length]? = some message := by
  rw [List.getElem?_append_right (Nat.le_add_right _ _), Nat.add_sub_cancel_left,
    List.getElem?_append_right (Nat.le_refl _), Nat.sub_self, List.getElem?_cons_zero]

theorem getElem?_of_mem_done (before done rest : List StreamerMessage) (message : StreamerMessage)
    {other : StreamerMessage} (h : other ∈ done) :
    ∃ i, i < before.length + done.length ∧ (before ++ (done ++ message :: rest))[i]? = some other := by
  obtain ⟨i, hi⟩ := List.getElem?_of_mem h
  have hlt := (List.getElem?_eq_some_iff.mp hi).1
  refine ⟨before.length + i, Nat.add_lt_add_left hlt _, ?_⟩
  rwa [List.getElem?_append_right (Nat.le_add_right _ _), Nat.add_sub_cancel_left, List.getElem?_append_left hlt]

theorem mem_done_of_getElem? {other : StreamerMessage} {i : Nat}
    (h : (before ++ (done ++ message :: rest))[i]? = some other) (hlow : before.length ≤ i)
    (hhigh : i < before.length + done.length) : other ∈ done := by
  rw [List.getElem?_append_right hlow, List.getElem?_append_left (by omega)] at h
  exact List.mem_of_getElem? h

end Places

/-! ### Awaited receipts -/

section Order

variable {before stream : List StreamerMessage}

/-- A receipt that stems from the stream is included and executed there. -/
theorem Ordered.le_of_rooted (hchain : Ordered (before ++ stream)) {key : ReceiptOrDataId}
    (hroot : Rooted before stream key) {i : Nat} {receipt : ReceiptView}
    (hreceipt : InBlock (·.receipts) (before ++ stream) i receipt) (hkey : key = .receiptId receipt.receiptId) :
    before.length ≤ i := by
  induction hroot generalizing i receipt with
  | converted hmessage htx =>
      obtain ⟨k, hk, hplace⟩ := getElem?_of_mem_stream before hmessage
      exact Nat.le_trans hk (hchain.converted k i _ receipt ⟨_, hplace, htx⟩ hreceipt
        (ReceiptOrDataId.receiptId.inj hkey).symm)
  | produced hmessage houtcome _ hproduced ih =>
      obtain ⟨j, hj⟩ := List.getElem?_of_mem hmessage
      obtain ⟨i', parent, hparent, hid, hle⟩ := hchain.executed j _ ⟨_, hj, houtcome⟩
      have hlow := ih hparent (congrArg _ hid.symm)
      have hlater := hchain.produced j i _ receipt ⟨_, hj, houtcome⟩ hreceipt
        (ReceiptOrDataId.receiptId.inj hkey ▸ hproduced)
      exact Nat.le_trans hlow (Nat.le_trans hle (Nat.le_of_lt hlater))
  | output _ _ _ _ _ => cases hkey

theorem Ordered.included_eq (hchain : Ordered (before ++ stream)) {i j : Nat} {receipt receipt' : ReceiptView}
    (hreceipt : InBlock (·.receipts) (before ++ stream) i receipt)
    (hreceipt' : InBlock (·.receipts) (before ++ stream) j receipt') (heq : receipt.receiptId = receipt'.receiptId) :
    i = j := by
  have hnodup := hchain.includedOnce
  rw [List.map_flatMap] at hnodup
  obtain ⟨message, hmessage, hmem⟩ := hreceipt
  obtain ⟨message', hmessage', hmem'⟩ := hreceipt'
  exact InBlock.eq_of_nodup hnodup ⟨message, hmessage, List.mem_map.mpr ⟨receipt, hmem, rfl⟩⟩
    ⟨message', hmessage', List.mem_map.mpr ⟨receipt', hmem', heq.symm⟩⟩

variable {done rest : List StreamerMessage} {message : StreamerMessage}

/-- A receipt with a root, at its inclusion or later: it is introduced by a handled block or by a transaction of this
block. -/
theorem Ordered.introduced_of_rooted (hchain : Ordered (before ++ (done ++ message :: rest))) {i : Nat}
    {receipt : ReceiptView} (hreceipt : InBlock (·.receipts) (before ++ (done ++ message :: rest)) i receipt)
    (hi : i ≤ before.length + done.length)
    (hroot : Rooted before (done ++ message :: rest) (.receiptId receipt.receiptId)) :
    (∃ other ∈ done, Introduces (Rooted before (done ++ message :: rest)) other (.receiptId receipt.receiptId)) ∨
      Converts message.transactions (.receiptId receipt.receiptId) := by
  generalize hkey : ReceiptOrDataId.receiptId receipt.receiptId = key at hroot ⊢
  cases hroot with
  | @converted other tx hmessage htx =>
      obtain ⟨k, hk, hplace⟩ := getElem?_of_mem_stream before hmessage
      have hle := hchain.converted k i tx receipt ⟨_, hplace, htx⟩ hreceipt (ReceiptOrDataId.receiptId.inj hkey)
      rcases Nat.lt_or_eq_of_le (Nat.le_trans hle hi) with hlt | rfl
      · exact .inl ⟨other, mem_done_of_getElem? hplace hk hlt, .inl ⟨tx, htx, rfl⟩⟩
      · rw [getElem?_place] at hplace
        cases hplace
        exact .inr ⟨tx, htx, rfl⟩
  | @produced other outcome receiptId hmessage houtcome hparent hproduced =>
      obtain ⟨j, hj⟩ := List.getElem?_of_mem hmessage
      obtain ⟨i', parent, hincluded, hid, hle⟩ := hchain.executed j _ ⟨_, hj, houtcome⟩
      have hlow := hchain.le_of_rooted hparent hincluded (congrArg _ hid.symm)
      have hlater := hchain.produced j i _ receipt ⟨_, hj, houtcome⟩ hreceipt
        (ReceiptOrDataId.receiptId.inj hkey ▸ hproduced)
      have hdone := mem_done_of_getElem? hj (Nat.le_trans hlow hle) (Nat.lt_of_lt_of_le hlater hi)
      exact .inl ⟨other, hdone, .inr (.inr ⟨outcome, houtcome, hparent, receiptId, hproduced, rfl⟩)⟩
  | output _ _ _ _ => cases hkey

/-- The data id of a Data receipt of this block is awaited, if it has a root. -/
theorem Ordered.awaited_of_delivered (hchain : Ordered (before ++ (done ++ message :: rest))) {receipt : ReceiptView}
    (hreceipt : receipt ∈ message.receipts) {dataId : CryptoHash} (hdataId : receipt.dataId? = some dataId)
    (hroot : Rooted before (done ++ message :: rest) (.dataId dataId)) :
    Awaited (Rooted before (done ++ message :: rest)) done (.dataId dataId) := by
  constructor
  · cases hroot with
    | @output other parent receiver hmessage hparent hroot hreceiver =>
        obtain ⟨j, hj⟩ := List.getElem?_of_mem hmessage
        have hlow := hchain.le_of_rooted hroot ⟨other, hj, hparent⟩ rfl
        have hlater := hchain.output j _ parent receiver receipt ⟨other, hj, hparent⟩ hreceiver
          ⟨message, getElem?_place, hreceipt⟩ hdataId
        refine ⟨other, mem_done_of_getElem? hj hlow hlater, .inr (.inl ?_)⟩
        exact ⟨parent, hparent, hroot, receiver, hreceiver, rfl⟩
  · rintro other hother (⟨_, _, hkey⟩ | ⟨data, hdata, dataId', hdataId', hkey⟩)
    · cases hkey
    · obtain ⟨j, hj, hplace⟩ := getElem?_of_mem_done before done rest message hother
      cases hkey
      have hnodup := hchain.dataIds
      rw [List.filterMap_flatMap] at hnodup
      have heq := InBlock.eq_of_nodup hnodup ⟨other, hplace, List.mem_filterMap.mpr ⟨data, hdata, hdataId'⟩⟩
        ⟨message, getElem?_place, List.mem_filterMap.mpr ⟨receipt, hreceipt, hdataId⟩⟩
      omega

/-- A receipt of this block with a root is awaited, or introduced by a transaction of this block. -/
theorem Ordered.awaited_of_included (hchain : Ordered (before ++ (done ++ message :: rest))) {receipt : ReceiptView}
    (hreceipt : receipt ∈ message.receipts)
    (hroot : Rooted before (done ++ message :: rest) (receiptOrDataId receipt)) :
    Awaited (Rooted before (done ++ message :: rest)) done (receiptOrDataId receipt) ∨
      Converts message.transactions (receiptOrDataId receipt) := by
  have hplace : InBlock (·.receipts) (before ++ (done ++ message :: rest)) (before.length + done.length) receipt :=
    ⟨message, getElem?_place, hreceipt⟩
  cases haction : receipt.isAction with
  | true =>
      rw [receiptOrDataId_of_isAction haction] at hroot ⊢
      refine (hchain.introduced_of_rooted hplace (Nat.le_refl _) hroot).imp_left fun hintroduced =>
        ⟨hintroduced, fun other hother => ?_⟩
      rintro (⟨outcome, houtcome, hkey⟩ | ⟨_, _, _, _, hkey⟩)
      · obtain ⟨j, hj, hplace'⟩ := getElem?_of_mem_done before done rest message hother
        obtain ⟨i, included, hincluded, hid, hle⟩ := hchain.executed j _ ⟨_, hplace', houtcome⟩
        have heq := hchain.included_eq hincluded hplace (hid.trans (ReceiptOrDataId.receiptId.inj hkey).symm)
        omega
      · cases hkey
  | false =>
      obtain ⟨dataId, hdataId⟩ := isAction_eq_false.mp haction
      rw [receiptOrDataId_of_dataId? hdataId] at hroot ⊢
      exact .inl (hchain.awaited_of_delivered hreceipt hdataId hroot)

/-- A receipt with a root that is executed in this block is awaited, or introduced by a transaction of this block. -/
theorem Ordered.awaited_of_executed (hchain : Ordered (before ++ (done ++ message :: rest)))
    {outcome : IndexerExecutionOutcomeWithReceipt} (houtcome : outcome ∈ message.outcomes)
    (hroot : Rooted before (done ++ message :: rest) (.receiptId outcome.executionOutcome.id)) :
    Awaited (Rooted before (done ++ message :: rest)) done (.receiptId outcome.executionOutcome.id) ∨
      Converts message.transactions (.receiptId outcome.executionOutcome.id) := by
  obtain ⟨i, receipt, hreceipt, hid, hle⟩ := hchain.executed _ _ ⟨message, getElem?_place, houtcome⟩
  rw [← hid] at hroot ⊢
  refine (hchain.introduced_of_rooted hreceipt hle hroot).imp_left fun hintroduced =>
    ⟨hintroduced, fun other hother => ?_⟩
  rintro (⟨outcome', houtcome', hkey⟩ | ⟨_, _, _, _, hkey⟩)
  · obtain ⟨j, hj, hplace⟩ := getElem?_of_mem_done before done rest message hother
    have hnodup := hchain.executedOnce
    rw [List.map_flatMap] at hnodup
    have heq : j = before.length + done.length := by
      refine InBlock.eq_of_nodup hnodup ⟨other, hplace, List.mem_map.mpr ⟨outcome', houtcome', rfl⟩⟩
        ⟨message, getElem?_place, List.mem_map.mpr ⟨outcome, houtcome, ?_⟩⟩
      exact hid.symm.trans (ReceiptOrDataId.receiptId.inj hkey)
    omega
  · cases hkey

/-- A message with a transaction is handled once. -/
theorem Ordered.not_mem_done (hchain : Ordered (before ++ (done ++ message :: rest)))
    {tx : IndexerTransactionWithOutcome} (htx : tx ∈ message.transactions) : message ∉ done := by
  intro hdone
  obtain ⟨i, hi, hplace⟩ := getElem?_of_mem_done before done rest message hdone
  have hnodup := hchain.hashes
  unfold Parents.DistinctHashes at hnodup
  rw [List.map_flatMap] at hnodup
  have hhash : tx.transaction.hash ∈ message.transactions.map (·.transaction.hash) := List.mem_map.mpr ⟨tx, htx, rfl⟩
  have heq := InBlock.eq_of_nodup hnodup ⟨message, hplace, hhash⟩ ⟨message, getElem?_place, hhash⟩
  omega

end Order

/-- What the order of a chain says on the block that is handled next. -/
structure NextBlock (rooted : ReceiptOrDataId → Prop) (done : List StreamerMessage) (message : StreamerMessage) :
    Prop where
  /-- The receipts with a root that it includes are awaited, or its own transactions introduce them. -/
  included : ∀ receipt ∈ message.receipts, rooted (receiptOrDataId receipt) →
    Awaited rooted done (receiptOrDataId receipt) ∨ Converts message.transactions (receiptOrDataId receipt)
  executed : ∀ outcome ∈ message.outcomes, rooted (.receiptId outcome.executionOutcome.id) →
    Awaited rooted done (.receiptId outcome.executionOutcome.id) ∨
      Converts message.transactions (.receiptId outcome.executionOutcome.id)
  fresh : ∀ tx ∈ message.transactions, message ∉ done
  delivers : (chunksOf message.shards).Pairwise fun a b => ∀ key, Delivers a.receipts key → ¬ Delivers b.receipts key
  executes : message.shards.Pairwise fun a b =>
    ∀ key, Executes a.receiptExecutionOutcomes key → ¬ Executes b.receiptExecutionOutcomes key
  executedOnce : ∀ shard ∈ message.shards, (shard.receiptExecutionOutcomes.map (·.executionOutcome.id)).Nodup

theorem Ordered.nextBlock {before done rest : List StreamerMessage} {message : StreamerMessage}
    (hchain : Ordered (before ++ (done ++ message :: rest))) :
    NextBlock (Rooted before (done ++ message :: rest)) done message := by
  have hmessage : message ∈ before ++ (done ++ message :: rest) :=
    List.mem_append_right _ (List.mem_append_right _ List.mem_cons_self)
  refine ⟨?_, ?_, ?_, hchain.delivers_disjoint hmessage, hchain.executes_disjoint hmessage, ?_⟩
  · exact fun receipt hreceipt => hchain.awaited_of_included hreceipt
  · exact fun outcome houtcome => hchain.awaited_of_executed houtcome
  · exact fun tx htx => hchain.not_mem_done htx
  · exact fun shard hshard => hchain.nodup_executed_of_shard hmessage hshard

end ExplorerIndexer.Receipts
