import ExplorerIndexer.AccessKeysGrouping
import ExplorerIndexer.ChainState

/-! The access keys of an indexer over its whole life. The row of a key is one that handling the blocks in order leaves,
each of them once; so where the order of the statements does not matter, it has the life that the actions give. -/

namespace ExplorerIndexer

open Async Store Models

namespace AccessKeys

open Accounts (successfulActions deletesAccount lastReceipt mem_of_lastReceipt lastStep)

section Call

variable {decoders : Decoders} {block : BlockOutcomes} {key : PublicKey × AccountId} {w : World}

end Call

section Arrived

variable {decoders : Decoders} {message : StreamerMessage} {done rest items soFar : List StreamerMessage}
  {x y : PublicKey × AccountId → Option AccessKey} {key : PublicKey × AccountId} {w w' : World} {z : Option AccessKey}

theorem Follows.beginning (h : Follows w (items.map (·.blockOutcomes))) (hsoFar : soFar <+: items) :
    Follows w (soFar.map (·.blockOutcomes)) :=
  ⟨h.increasing.sublist (hsoFar.sublist.map _), fun block hblock => h.older block ((hsoFar.map _).subset hblock)⟩

end Arrived

end AccessKeys

end ExplorerIndexer
