import ExplorerIndexer.AggregatedLockups
import ExplorerIndexer.ChainState

/-! The lockup accounts that an indexer answers with after its life. If receipts are executed in the block that includes
them, the messages that it has handled are the blocks of a history, whatever it was interrupted by. -/

namespace ExplorerIndexer

open Async Store Models

/-- The message as a block of a history. The chunk and the parents that it has for its receipts do not matter. -/
def StreamerMessage.historyBlock (message : StreamerMessage) : HistoryBlock where
  block := message.block
  chunkHash := .ofText ""
  outcomes := message.outcomes
  txHashes := message.outcomes.foldl
    (fun txHashes outcome => txHashes.insert (Receipts.receiptOrDataId outcome.receipt) "") ∅
  found outcome houtcome := Table.mem_foldl_insert.mpr (.inl ⟨outcome, houtcome, rfl⟩)

/-- The receipts that a message executes are Action receipts that it includes. -/
def ExecutesIncluded (message : StreamerMessage) : Prop :=
  ∀ outcome ∈ message.outcomes, outcome.receipt ∈ message.receipts ∧ outcome.receipt.isAction = true

section Lives

variable {decoders : Decoders} {chain : List StreamerMessage} {genesisHeight : Nat} {records : List StateRecord}
  {sessions : List Session} {db : Database}

/-- Where the genesis leaves the database is where a history can begin. -/
theorem beforeHistory_imported (hlater : ∀ message ∈ chain, genesisHeight < message.block.header.height) :
    BeforeHistory (chain.map (·.historyBlock)) (Genesis.imported genesisHeight records {}) := by
  have hrow : ∀ accountId row, (Genesis.imported genesisHeight records {}).accounts.lookup accountId = some row →
      row = .newFromGenesis accountId genesisHeight := by
    intro accountId row hlookup
    rcases Table.mem_of_lookup_insertAllNew hlookup with hold | ⟨_, hnew, rfl⟩
    · cases hold
    · obtain ⟨record, _, hrecord⟩ := List.mem_filterMap.mp hnew
      cases record <;> cases hrecord
      rfl
  refine ⟨rfl, rfl, fun accountId row hlookup => hrow accountId row hlookup ▸ rfl, fun row hmem => ?_,
    fun row hmem b hb => ?_⟩
  · obtain ⟨accountId, hlookup⟩ := Table.mem_rows_iff_lookup.mp hmem
    exact hrow accountId row hlookup ▸ ⟨rfl, rfl⟩
  · obtain ⟨accountId, hlookup⟩ := Table.mem_rows_iff_lookup.mp hmem
    obtain ⟨message, hmessage, rfl⟩ := List.mem_map.mp hb
    exact hrow accountId row hlookup ▸ hlater message hmessage

/-- When all messages were handled, the three tables of the view are where the history leads. -/
theorem Life.historyStored {root : ReceiptOrDataId → CryptoHash} (hchain : WellFormed decoders chain)
    (hroot : Parents.Labelling chain root)
    (hheights : chain.Pairwise fun a b => a.block.header.height < b.block.header.height)
    (hsharded : ∀ message ∈ chain, Sharded message) (hexecutes : ∀ message ∈ chain, ExecutesIncluded message)
    (h : Life decoders chain genesisHeight records sessions db) (hfirst : GenesisFirst sessions)
    (hgenesis : .storeGenesis true ∈ sessions) (hall : AllHandled chain sessions) :
    HistoryStored (chain.map (·.historyBlock)) (Genesis.imported genesisHeight records {}) db := by
  refine ⟨fun accountId => ?_, fun b hb receipt hreceipt => ?_⟩
  · obtain ⟨done, rest, horder, hhandled, harrived⟩ := h.arrived hheights hsharded hfirst hgenesis
    obtain rfl := done_eq_chain hheights horder fun message hmem => (hhandled message).mp (hall message hmem)
    obtain rfl := List.append_right_eq_self.mp horder
    obtain ⟨soFar, hsoFar, hrow⟩ := Accounts.row_of_arrived (arrived_fst harrived) accountId
    rw [List.append_nil] at hsoFar
    rw [hsoFar.eq_chain] at hrow
    rw [List.map_map]
    exact hrow
  · obtain ⟨message, hmessage, rfl⟩ := List.mem_map.mp hb
    obtain ⟨outcome, houtcome, rfl⟩ := List.mem_map.mp hreceipt
    obtain ⟨hincluded, haction⟩ := hexecutes message hmessage outcome houtcome
    obtain ⟨chunk, hchunk, hreceipt⟩ := List.mem_flatMap.mp hincluded
    obtain ⟨index, hindex, hget⟩ := List.getElem_of_mem hreceipt
    have hentry : (outcome.receipt, index) ∈ chunk.receipts.zipIdx :=
      List.mk_mem_zipIdx_iff_getElem?.mpr (hget ▸ List.getElem?_eq_getElem hindex)
    have hstored := h.history.lookup_of_handled hchain hroot hall message hmessage chunk hchunk _ hentry haction
    have hblock : db.blocks.lookup message.block.header.hash = some (.ofView message.block) :=
      (h.history.lookup_iff hchain hall (show TableName.blocks.completed true = true from rfl) (parentOf root) _ _).mpr
        ⟨rfl, mem_chainRows.mpr ⟨message, hmessage, List.mem_cons_self⟩⟩
    rw [includedAt, hstored, Option.bind_some]
    exact congrArg (Option.map (·.blockHeight)) hblock

/-- However often the indexer was killed and started again: when all messages were handled, its answer for a height is
exact if and only if for every lockup account the last lifespan up to its own height is the one that counts. -/
theorem Life.lockups_iff {root : ReceiptOrDataId → CryptoHash} (hchain : WellFormed decoders chain)
    (hroot : Parents.Labelling chain root) (hhistory : InOrderHistory (chain.map (·.historyBlock)))
    (hsharded : ∀ message ∈ chain, Sharded message) (hexecutes : ∀ message ∈ chain, ExecutesIncluded message)
    (hlater : ∀ message ∈ chain, genesisHeight < message.block.header.height)
    (halternates : ∀ accountId, isLockup accountId = true →
      Alternates accountId (accountId ∈ (Genesis.imported genesisHeight records {}).accounts)
        (AccessKeys.stepsOf ((chain.map (·.historyBlock)).map (·.effects))))
    (h : Life decoders chain genesisHeight records sessions db) (hfirst : GenesisFirst sessions)
    (hgenesis : .storeGenesis true ∈ sessions) (hall : AllHandled chain sessions) (blockHeight : Nat) :
    LockupsAt (Genesis.imported genesisHeight records {}) (chain.map (·.historyBlock)) blockHeight
        (getLockupAccountIdsAtBlockHeight db blockHeight) ↔
      ∀ accountId, isLockup accountId = true →
        LastLifespanCounts (Genesis.imported genesisHeight records {}) (chain.map (·.historyBlock)) blockHeight
          accountId := by
  have hheights := List.pairwise_map.mp hhistory.heights
  exact (h.historyStored hchain hroot hheights hsharded hexecutes hfirst hgenesis hall).lockups_iff hhistory
    (beforeHistory_imported hlater) halternates blockHeight

end Lives

end ExplorerIndexer
