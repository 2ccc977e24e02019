import ExplorerIndexer.AsyncPool
import ExplorerIndexer.HandleMessage

/-! The runs of the indexer: messages of a stream are handled in any order, any number of times, next to each
other, and may be interrupted anywhere. -/

namespace ExplorerIndexer

open Async

/-- The handling of a message of the stream, in one of the two modes. -/
def Handles (decoders : Decoders) (stream : List StreamerMessage) (p : Prog World Unit) : Prop :=
  ∃ message ∈ stream, ∃ strictMode, p = handleMessage decoders message strictMode

/-- A restart loses the receipts cache. -/
def Restarts (w w' : World) : Prop := w'.cache.entries = ∅ ∧ w'.db = w.db

/-- What can be reached from an empty database. -/
def IndexerReachable (decoders : Decoders) (stream : List StreamerMessage) (pool : Pool World) : Prop :=
  ∃ cache : ReceiptsCache, cache.entries = ∅ ∧ PoolReachable (Handles decoders stream) Restarts ⟨cache, {}⟩ pool

theorem IndexerReachable.handled {decoders : Decoders} {stream : List StreamerMessage} {message : StreamerMessage}
    {strictMode : Bool} {w w' : World} (h : IndexerReachable decoders stream ⟨[], w⟩) (hmessage : message ∈ stream)
    (hfin : Finishes (handleMessage decoders message strictMode) w () w') :
    IndexerReachable decoders stream ⟨[], w'⟩ := by
  obtain ⟨cache, hcache, hreach⟩ := h
  exact ⟨cache, hcache, hreach.finishes ⟨message, hmessage, strictMode, rfl⟩ hfin⟩

/-! ### The empty database -/

def emptyWorld : World where
  cache := .withSize 10
  db := {}

theorem reachable_emptyWorld (decoders : Decoders) (stream : List StreamerMessage) :
    IndexerReachable decoders stream ⟨[], emptyWorld⟩ := ⟨.withSize 10, rfl, .start⟩

end ExplorerIndexer
