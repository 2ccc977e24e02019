import ExplorerIndexer.ChainConstraints

/-! On a closed chain the indexer can always go on. Whatever is stored of a block that was interrupted, the block can be
handled once those before it are, and so a run can come to the end of the chain. -/

namespace ExplorerIndexer

open Async Store Models

/-- The genesis and some messages of the chain are stored, next to whatever else of the chain. -/
structure PastStored (decoders : Decoders) (chain : List StreamerMessage) (genesisHeight : Nat)
    (records : List StateRecord) (past : List StreamerMessage) (w : World) : Prop
    extends FirstStored decoders chain past w where
  genesis : GenesisStored genesisHeight records w.db
  created : ∀ message ∈ past, CreatedStored message w.db

section Chain

variable {decoders : Decoders} {chain past rest messages : List StreamerMessage} {genesisHeight : Nat}
  {records : List StateRecord} {message : StreamerMessage} {root : ReceiptOrDataId → CryptoHash} {w : World}

/-- The handling of a message has come so far that it is in some of the tables. -/
structure Reached (decoders : Decoders) (chain : List StreamerMessage) (genesisHeight : Nat)
    (records : List StateRecord) (past : List StreamerMessage) (message : StreamerMessage) (names : List TableName)
    (w : World) : Prop where
  past : PastStored decoders chain genesisHeight records past w
  rows : ∀ name ∈ names, OwnRows decoders message name w

theorem Reached.add {names : List TableName} {name : TableName}
    (h : Reached decoders chain genesisHeight records past message names w) (hrows : OwnRows decoders message name w) :
    Reached decoders chain genesisHeight records past message (name :: names) w := by
  refine ⟨h.past, fun other hother => ?_⟩
  rcases List.mem_cons.mp hother with rfl | hother
  · exact hrows
  · exact h.rows other hother

theorem Reached.hasBlock {names : List TableName}
    (h : Reached decoders chain genesisHeight records past message names w) (hname : .blocks ∈ names) :
    w.db.hasBlock message.block.header.hash = true :=
  decide_eq_true (h.rows .blocks hname (.ofView message.block) List.mem_cons_self)

theorem Reached.placed {names : List TableName}
    (h : Reached decoders chain genesisHeight records past message names w) (hblocks : .blocks ∈ names)
    (hchunks : .chunks ∈ names) : Placed message.shards message.block.header.hash w.db :=
  ⟨h.hasBlock hblocks, fun chunk hchunk => decide_eq_true
    (h.rows .chunks hchunks (.fromChunkView chunk message.block.header.hash) (List.mem_map_of_mem hchunk))⟩

theorem Reached.transactions {names : List TableName}
    (h : Reached decoders chain genesisHeight records past message names w) (hname : .transactions ∈ names) :
    ∀ other ∈ past ++ [message], OwnRows decoders other .transactions w := by
  intro other hother
  rcases List.mem_append.mp hother with hother | hother
  · exact (h.past.messages other hother).rows .transactions rfl
  · exact List.mem_singleton.mp hother ▸ h.rows .transactions hname

/-- The handling of a message has come as far as its execution outcomes. -/
structure Entered (decoders : Decoders) (chain : List StreamerMessage) (genesisHeight : Nat)
    (records : List StateRecord) (past : List StreamerMessage) (message : StreamerMessage) (w : World) : Prop where
  reached : Reached decoders chain genesisHeight records past message [.transactions, .chunks, .blocks] w
  receipts : ∀ receipt ∈ message.receipts, receipt.isAction = true → receipt.receiptId ∈ w.db.receipts

theorem Entered.hasReceipt (h : Entered decoders chain genesisHeight records past message w) {receiptId : CryptoHash}
    (hincluded : Included (past ++ [message]) receiptId) : w.db.hasReceipt receiptId = true := by
  refine hasReceipt_of_included (fun other hother => ?_) hincluded
  rcases List.mem_append.mp hother with hother | hother
  · exact (h.reached.past.messages other hother).receipts rfl
  · exact List.mem_singleton.mp hother ▸ h.receipts

section Message

variable (hchain : WellFormed decoders chain) (hclosed : Closed records chain) (hroot : Parents.Labelling chain root)
  (hsplit : chain = past ++ message :: rest)

include hsplit

include hchain hroot

include hclosed

omit hchain hroot

section Accounts

variable {P : World → Prop} (hP : Stable (Evolves decoders chain) P)

include hP

include hchain

end Accounts

include hchain hroot

end Message

/-! ### The rest of the chain -/

end Chain

/-! ### A chain that goes on -/

end ExplorerIndexer
