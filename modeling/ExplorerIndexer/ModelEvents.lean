import ExplorerIndexer.ModelViews

/-! The token events contracts write to their logs, and the rows they are stored as. -/

namespace ExplorerIndexer

structure FtMintData where
  ownerId : String
  amount : String
  memo : Option String
  deriving DecidableEq

structure FtTransferData where
  oldOwnerId : String
  newOwnerId : String
  amount : String
  memo : Option String
  deriving DecidableEq

structure FtBurnData where
  ownerId : String
  amount : String
  memo : Option String
  deriving DecidableEq

inductive Nep141EventKind where
  | ftMint (data : List FtMintData)
  | ftTransfer (data : List FtTransferData)
  | ftBurn (data : List FtBurnData)
  deriving DecidableEq

structure NftMintData where
  ownerId : String
  tokenIds : List String
  memo : Option String
  deriving DecidableEq

structure NftTransferData where
  authorizedId : Option String
  oldOwnerId : String
  newOwnerId : String
  tokenIds : List String
  memo : Option String
  deriving DecidableEq

structure NftBurnData where
  authorizedId : Option String
  ownerId : String
  tokenIds : List String
  memo : Option String
  deriving DecidableEq

inductive Nep171EventKind where
  | nftMint (data : List NftMintData)
  | nftTransfer (data : List NftTransferData)
  | nftBurn (data : List NftBurnData)
  deriving DecidableEq

/-- A parsed event; its version is read but not used. -/
inductive NearEvent where
  | nep141 (eventKind : Nep141EventKind)
  | nep171 (eventKind : Nep171EventKind)
  deriving DecidableEq

namespace Models

inductive FtEventKind where
  | mint
  | transfer
  | burn
  deriving DecidableEq

inductive NftEventKind where
  | mint
  | transfer
  | burn
  deriving DecidableEq

structure FungibleTokenEvent where
  emittedForReceiptId : CryptoHash
  emittedAtBlockTimestamp : Nat
  emittedInShardId : Nat
  emittedIndexOfEventEntryInShard : Nat
  emittedByContractAccountId : AccountId
  amount : String
  eventKind : FtEventKind
  tokenOldOwnerAccountId : String
  tokenNewOwnerAccountId : String
  eventMemo : String
  deriving DecidableEq

structure NonFungibleTokenEvent where
  emittedForReceiptId : CryptoHash
  emittedAtBlockTimestamp : Nat
  emittedInShardId : Nat
  emittedIndexOfEventEntryInShard : Nat
  emittedByContractAccountId : AccountId
  tokenId : String
  eventKind : NftEventKind
  tokenOldOwnerAccountId : String
  tokenNewOwnerAccountId : String
  tokenAuthorizedAccountId : String
  eventMemo : String
  deriving DecidableEq

end Models

end ExplorerIndexer
