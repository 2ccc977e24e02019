import ExplorerIndexer.IndexerRuns
import ExplorerIndexer.ReceiptsCached
import ExplorerIndexer.ReceiptsResolved

/-! Uninterrupted runs. Between two blocks the cache has an entry for every receipt and data id that is awaited, so
all of them are resolved by their lookups. -/

namespace ExplorerIndexer.Receipts

open Async Store Models CacheSection

section Block

variable {rooted : ReceiptOrDataId → Prop} {done : List StreamerMessage} {message : StreamerMessage}

theorem delivers_of_chunk {chunk : IndexerChunkView} (hchunk : chunk ∈ chunksOf message.shards)
    {key : ReceiptOrDataId} (h : Delivers chunk.receipts key) : Delivers message.receipts key := by
  obtain ⟨receipt, hreceipt, hdata⟩ := h
  exact ⟨receipt, List.mem_flatMap.mpr ⟨chunk, hchunk, hreceipt⟩, hdata⟩

theorem executes_of_shard {shard : IndexerShard} (hshard : shard ∈ message.shards) {key : ReceiptOrDataId}
    (h : Executes shard.receiptExecutionOutcomes key) : Executes message.outcomes key := by
  obtain ⟨outcome, houtcome, hkey⟩ := h
  exact ⟨outcome, List.mem_flatMap.mpr ⟨shard, hshard, houtcome⟩, hkey⟩

/-- The chunks whose receipts are stored. -/
def askedChunks (message : StreamerMessage) : List IndexerChunkView :=
  (chunksOf message.shards).filter fun chunk => !chunk.receipts.isEmpty

theorem mem_chunksOf_of_mem_askedChunks {chunk : IndexerChunkView} (h : chunk ∈ askedChunks message) :
    chunk ∈ chunksOf message.shards := (List.mem_filter.mp h).1

theorem mem_askedChunks_of_receipt {receipt : ReceiptView} (h : receipt ∈ message.receipts) :
    ∃ chunk ∈ askedChunks message, receipt ∈ chunk.receipts := by
  obtain ⟨chunk, hchunk, hreceipt⟩ := List.mem_flatMap.mp h
  refine ⟨chunk, List.mem_filter.mpr ⟨hchunk, ?_⟩, hreceipt⟩
  rw [Bool.not_eq_true', List.isEmpty_eq_false_iff]
  exact List.ne_nil_of_mem hreceipt

/-- Between two blocks: what is awaited is cached. -/
structure Cached (rooted : ReceiptOrDataId → Prop) (done : List StreamerMessage) (x : RecordedWorld) : Prop where
  awaited : Has (Awaited rooted done) x
  sections : SectionsOf done x

/-- When the handling of a message begins, and as long as nothing is taken out. -/
structure Outset (rooted : ReceiptOrDataId → Prop) (done : List StreamerMessage) (message : StreamerMessage)
    (x : RecordedWorld) : Prop where
  awaited : Has (Awaited rooted done) x
  keptSince : message ∉ done → KeptSince message x

theorem stable_outset : Stable (Moves rooted message fun _ => True) (Outset rooted done message) := by
  intro x y hx hmoves
  exact ⟨stable_has (fun _ _ => trivial) x y hx.awaited hmoves,
    fun hfresh => stable_keptSince (fun _ => trivial) x y (hx.keptSince hfresh) hmoves⟩

theorem Cached.outset {x : RecordedWorld} (hx : Cached rooted done x) (message : StreamerMessage) :
    Outset rooted done message x :=
  ⟨hx.awaited, fun hfresh _ entry hentry heq => (hfresh (heq ▸ hx.sections entry hentry)).elim⟩

theorem outline_storeReceipts (hnext : NextBlock rooted done message) (decoders : Decoders) (blockHash : CryptoHash)
    (blockTimestamp : Nat) (strictMode : Bool) :
    Outline False (Moves rooted message fun _ => True)
      (Moves rooted message fun key => ¬ Delivers message.receipts key)
      (Outset rooted done message)
      ((storeReceipts decoders message.shards blockHash blockTimestamp strictMode).recorded (note message))
      fun _ x => ∀ chunk ∈ askedChunks message, DataIdsCached rooted message chunk.receipts x := by
  have hnone : ∀ key, ¬ Delivers message.receipts key →
      ∀ chunk ∈ askedChunks message, ¬ Delivers chunk.receipts key :=
    fun key hkey chunk hchunk hdelivers => hkey (delivers_of_chunk (mem_chunksOf_of_mem_askedChunks hchunk) hdelivers)
  refine Outline.pre (P := fun x => ∀ chunk ∈ askedChunks message, Ready rooted done message chunk.receipts x) ?_
    fun x hx chunk _ => ⟨fun hsmooth key hkey => hx.awaited hsmooth key hkey.1, hx.keptSince⟩
  refine (outline_consumers (fun chunk => Delivers chunk.receipts) ?_ (fun chunk => ?_) (fun chunk => ?_)
    fun chunk hchunk => ?_).guarantee_mono fun x y h => h.mono hnone
  · exact hnext.delivers.filter _
  · refine stable_ready (fun key hkey => hkey.imp_right (hnone key)) fun receiptId => .inr fun chunk _ => ?_
    rintro ⟨_, _, _, _, hkey⟩
    cases hkey
  · exact stable_dataIdsCached fun key hkey => .inr (hnone key hkey)
  · exact outline_storeChunkReceipts hnext (mem_chunksOf_of_mem_askedChunks hchunk)
      (fun key hkey => .inr (hnone key hkey)) _ _ _ _ _

/-- What is cached once the transactions and receipts of the block are stored. -/
def CachedBefore (rooted : ReceiptOrDataId → Prop) (done : List StreamerMessage) (message : StreamerMessage)
    (key : ReceiptOrDataId) : Prop :=
  Converts message.transactions key ∨
    ((Awaited rooted done key ∨ Names rooted message.receipts key) ∧ ¬ Delivers message.receipts key)

theorem not_delivers_of_isReceiptId {receipts : List ReceiptView} (key : ReceiptOrDataId) (h : IsReceiptId key) :
    ¬ Delivers receipts key := by
  obtain ⟨receiptId, rfl⟩ := h
  rintro ⟨_, _, _, _, hkey⟩
  cases hkey

/-- Transactions and receipts at once. -/
theorem outline_storeBoth (hnext : NextBlock rooted done message) (decoders : Decoders) (blockHash : CryptoHash)
    (blockTimestamp blockHeight : Nat) (strictMode : Bool) :
    Outline False (fun _ _ => False) (Moves rooted message fun key => ¬ Delivers message.receipts key)
      (Outset rooted done message)
      ((Prog.both (Transactions.storeTransactions decoders message.shards blockHash blockTimestamp blockHeight)
        (storeReceipts decoders message.shards blockHash blockTimestamp strictMode)).recorded (note message))
      fun _ x => Has (CachedBefore rooted done message) x ∧
        ∀ chunk ∈ askedChunks message, LookedUp message chunk.receipts x := by
  have hstay : Stable (Moves rooted message fun key => ¬ Delivers message.receipts key)
      (Has fun key => Awaited rooted done key ∧ ¬ Delivers message.receipts key) := stable_has fun _ hkey => hkey.2
  have hboth : Outline False (fun _ _ => False) (Moves rooted message fun key => ¬ Delivers message.receipts key)
      (fun x => True ∧ Outset rooted done message x)
      (Prog.both
        ((Transactions.storeTransactions decoders message.shards blockHash blockTimestamp blockHeight).recorded
          (note message))
        ((storeReceipts decoders message.shards blockHash blockTimestamp strictMode).recorded (note message)))
      fun _ x => Has (Converts message.transactions) x ∧
        ∀ chunk ∈ askedChunks message, DataIdsCached rooted message chunk.receipts x := by
    refine .both_enduring (outline_storeTransactions rooted decoders blockHash blockTimestamp blockHeight)
      (outline_storeReceipts hnext decoders blockHash blockTimestamp strictMode) ?_ ?_ ?_ ?_ (.const _ _) ?_ ?_ ?_
    · exact fun x y h => h.elim False.elim fun h => h.mono not_delivers_of_isReceiptId
    · exact fun x y h => h.elim False.elim id
    · exact fun x y h => h.mono fun _ _ => trivial
    · exact fun x y h => h
    · exact stable_outset
    · exact stable_has isReceiptId_of_converts
    · exact fun x y hx hmoves chunk hchunk => stable_dataIdsCached (fun _ _ => trivial) x y (hx chunk hchunk) hmoves
  refine ((hboth.frame (fun _ _ _ h => h.elim) hstay).pre fun x hx => ⟨⟨trivial, hx⟩, ?_⟩).post ?_
  · exact fun hsmooth key hkey => hx.awaited hsmooth key hkey.1
  · rintro _ x ⟨⟨hconverts, hasked⟩, hawaited⟩
    refine ⟨fun hsmooth key hkey => ?_, fun chunk hchunk => (hasked chunk hchunk).lookedUp⟩
    rcases hkey with hkey | ⟨hkey | ⟨receipt, hreceipt, hnames⟩, hpending⟩
    · exact hconverts hsmooth key hkey
    · exact hawaited hsmooth key ⟨hkey, hpending⟩
    · obtain ⟨chunk, hchunk, hreceipt⟩ := mem_askedChunks_of_receipt hreceipt
      exact (hasked chunk hchunk).named hsmooth key ⟨⟨receipt, hreceipt, hnames⟩, hpending⟩

/-! ### The execution outcomes of a block -/

theorem outline_storeExecutionOutcomesForChunk (hnext : NextBlock rooted done message) {shard : IndexerShard}
    (hshard : shard ∈ message.shards) {kept : ReceiptOrDataId → Prop}
    (hkept : ∀ key, ¬ Executes message.outcomes key → kept key) (blockTimestamp : Nat) :
    Outline False (Moves rooted message kept)
      (Moves rooted message fun key => ¬ Executes shard.receiptExecutionOutcomes key)
      (Has fun key => Executes shard.receiptExecutionOutcomes key ∧ rooted key)
      ((ExecutionOutcomes.storeExecutionOutcomesForChunk shard.receiptExecutionOutcomes shard.shardId
        blockTimestamp).recorded (note message))
      fun _ => Has fun key =>
        Produces rooted shard.receiptExecutionOutcomes key ∧ ¬ Executes message.outcomes key := by
  have hstable : Stable (Moves rooted message kept)
      (Has fun key => Produces rooted shard.receiptExecutionOutcomes key ∧ ¬ Executes message.outcomes key) :=
    stable_has fun key hkey => hkept key hkey.2
  refine .bind_recorded (outline_section (M := fun _ => Has fun key =>
    Produces rooted shard.receiptExecutionOutcomes key ∧ ¬ Executes message.outcomes key) (fun x hx => ?_)
    fun _ => hstable) fun _ => ?_
  · have hmoves : Moves rooted message (fun key => ¬ Executes shard.receiptExecutionOutcomes key) x
        (afterSection message (fun cache =>
          ((), ExecutionOutcomes.passOnParents shard.receiptExecutionOutcomes cache)) x) :=
      moves_update (fun _ _ hkey hcache => retains_passOnParents hcache hkey) x
    refine ⟨hmoves, ?_⟩
    rintro hsmooth key ⟨⟨outcome, houtcome, hroot, receiptId, hproduced, rfl⟩, hpending⟩
    have hparent := hx (hmoves.smooth hsmooth) _ ⟨⟨outcome, houtcome, rfl⟩, hroot⟩
    refine mem_afterSection hsmooth (retains_passOnParents_produced (hnext.executedOnce shard hshard) houtcome
      ⟨SizedCache.neverEvicts_unbounded _, hparent⟩ hproduced fun hexecutes => ?_)
    exact hpending (executes_of_shard hshard hexecutes)
  · exact outline_queries ((onlyQueries_await sameCache_execute).bind fun _ => onlyQueries_perform sameCache_execute)
      hstable

theorem outline_storeExecutionOutcomes (hnext : NextBlock rooted done message) (blockTimestamp : Nat) :
    Outline False (Moves rooted message fun _ => True)
      (Moves rooted message fun key => ¬ Executes message.outcomes key)
      (Has fun key => Executes message.outcomes key ∧ rooted key)
      ((ExecutionOutcomes.storeExecutionOutcomes message.shards blockTimestamp).recorded (note message))
      fun _ => Has fun key => Produces rooted message.outcomes key ∧ ¬ Executes message.outcomes key := by
  have hnone : ∀ key, ¬ Executes message.outcomes key →
      ∀ shard ∈ message.shards, ¬ Executes shard.receiptExecutionOutcomes key :=
    fun key hkey shard hshard hexecutes => hkey (executes_of_shard hshard hexecutes)
  refine Outline.pre (P := fun x => ∀ shard ∈ message.shards,
    Has (fun key => Executes shard.receiptExecutionOutcomes key ∧ rooted key) x) ?_
    fun x hx shard hshard hsmooth key hkey => hx hsmooth key ⟨executes_of_shard hshard hkey.1, hkey.2⟩
  refine ((outline_consumers (fun shard => Executes shard.receiptExecutionOutcomes) hnext.executes (fun shard => ?_)
    (fun shard => ?_) fun shard hshard => ?_).guarantee_mono fun x y h => h.mono hnone).post
    (Q := fun _ x => ∀ shard ∈ message.shards, Has (fun key =>
      Produces rooted shard.receiptExecutionOutcomes key ∧ ¬ Executes message.outcomes key) x) ?_
  · exact stable_has fun key hkey => .inl hkey.1
  · exact stable_has fun key hkey => .inr (hnone key hkey.2)
  · exact outline_storeExecutionOutcomesForChunk hnext hshard (fun key hkey => .inr (hnone key hkey)) blockTimestamp
  · rintro _ x hx hsmooth key ⟨⟨outcome, houtcome, hproduces⟩, hpending⟩
    obtain ⟨shard, hshard, houtcome⟩ := List.mem_flatMap.mp houtcome
    exact hx shard hshard hsmooth key ⟨⟨outcome, houtcome, hproduces⟩, hpending⟩

/-! ### The handling of a block -/

/-- An entry that is awaited after the block was cached before its execution outcomes, or one of them produced it. -/
theorem Awaited.of_append {key : ReceiptOrDataId} (h : Awaited rooted (done ++ [message]) key) :
    ¬ Executes message.outcomes key ∧
      (CachedBefore rooted done message key ∨ Produces rooted message.outcomes key) := by
  have hpending := h.pending message (List.mem_append_right _ List.mem_cons_self)
  have hdelivers : ¬ Delivers message.receipts key := fun hdelivers => hpending (.inr hdelivers)
  refine ⟨fun hexecutes => hpending (.inl hexecutes), ?_⟩
  obtain ⟨other, hother, hintroduces⟩ := h.introduced
  rcases List.mem_append.mp hother with hdone | hlast
  · have hold : Awaited rooted done key :=
      ⟨⟨other, hdone, hintroduces⟩, fun m hm => h.pending m (List.mem_append_left _ hm)⟩
    exact .inl (.inr ⟨.inl hold, hdelivers⟩)
  · rw [List.mem_singleton.mp hlast] at hintroduces
    rcases hintroduces with hconverts | hnames | hproduces
    · exact .inl (.inl hconverts)
    · exact .inl (.inr ⟨.inr hnames, hdelivers⟩)
    · exact .inr hproduces

/-- The parents of the executed receipts are cached. -/
theorem NextBlock.cached_of_executes (hnext : NextBlock rooted done message) {key : ReceiptOrDataId}
    (hexecutes : Executes message.outcomes key) (hroot : rooted key) : CachedBefore rooted done message key := by
  obtain ⟨outcome, houtcome, rfl⟩ := hexecutes
  rcases hnext.executed outcome houtcome hroot with hawaited | hconverts
  · exact .inr ⟨.inl hawaited, not_delivers_of_isReceiptId _ ⟨_, rfl⟩⟩
  · exact .inl hconverts

/-- The execution outcomes, and statements that run beside them. -/
theorem outline_outcomesBeside (hnext : NextBlock rooted done message) (blockTimestamp : Nat)
    {beside : Prog World Unit} (hbeside : OnlyQueries SameCache beside) :
    Outline False (fun _ _ => False) (Moves rooted message fun key => ¬ Executes message.outcomes key)
      (Has (CachedBefore rooted done message))
      ((Prog.both (ExecutionOutcomes.storeExecutionOutcomes message.shards blockTimestamp) beside).recorded
        (note message))
      fun _ => Has (Awaited rooted (done ++ [message])) := by
  have hstay : Stable (Moves rooted message fun key => ¬ Executes message.outcomes key)
      (Has fun key => CachedBefore rooted done message key ∧ ¬ Executes message.outcomes key) :=
    stable_has fun _ hkey => hkey.2
  have hboth : Outline False (fun _ _ => False) (Moves rooted message fun key => ¬ Executes message.outcomes key)
      (fun x => Has (fun key => Executes message.outcomes key ∧ rooted key) x ∧ True)
      (Prog.both
        ((ExecutionOutcomes.storeExecutionOutcomes message.shards blockTimestamp).recorded (note message))
        (beside.recorded (note message)))
      fun _ x =>
        Has (fun key => Produces rooted message.outcomes key ∧ ¬ Executes message.outcomes key) x ∧ True := by
    refine .both_enduring (outline_storeExecutionOutcomes hnext blockTimestamp)
      (outline_queries hbeside (.const _ True) : Outline False (Moves rooted message fun key =>
        ¬ Executes message.outcomes key) (Moves rooted message fun _ => True) _ _ _) ?_ ?_ ?_ ?_ ?_ (.const _ _) ?_
      (.const _ _)
    · exact fun x y h => h.elim False.elim id
    · exact fun x y h => h.elim False.elim id
    · exact fun x y h => h
    · exact fun x y h => h.mono fun _ _ => trivial
    · exact stable_has fun _ _ => trivial
    · exact stable_has fun _ _ => trivial
  refine ((hboth.frame (fun _ _ _ h => h.elim) hstay).pre fun x hx => ⟨⟨?_, trivial⟩, ?_⟩).post ?_
  · exact fun hsmooth key hkey => hx hsmooth key (hnext.cached_of_executes hkey.1 hkey.2)
  · exact fun hsmooth key hkey => hx hsmooth key hkey.1
  · rintro _ x ⟨⟨hproduced, _⟩, hcached⟩ hsmooth key hkey
    obtain ⟨hpending, hkey | hkey⟩ := hkey.of_append
    · exact hcached hsmooth key ⟨hkey, hpending⟩
    · exact hproduced hsmooth key ⟨hkey, hpending⟩

/-- The handling of a block leaves in the cache what is awaited afterwards, and looks up all its receipts. -/
theorem outline_handleMessage (hnext : NextBlock rooted done message) (decoders : Decoders) (strictMode : Bool) :
    Outline False (fun _ _ => False) (Moves rooted message fun _ => False) (Cached rooted done)
      ((handleMessage decoders message strictMode).recorded (note message))
      fun _ x => Cached rooted (done ++ [message]) x ∧
        ∀ chunk ∈ askedChunks message, LookedUp message chunk.receipts x := by
  have hall : ∀ {kept : ReceiptOrDataId → Prop} (x y : RecordedWorld), Moves rooted message kept x y →
      Moves rooted message (fun _ => False) x y := fun x y h => h.mono fun _ h => h.elim
  have hnone : ∀ {P : RecordedWorld → Prop}, Stable (fun _ _ => False) P := fun _ _ _ h => h.elim
  have hfree := freeBesideBlocks_sameCache.freeTables
  have hsections : ∀ {kept : ReceiptOrDataId → Prop}, Stable (Moves rooted message kept)
      (SectionsOf (done ++ [message])) := stable_sectionsOf (List.mem_append_right _ List.mem_cons_self)
  have hqueries : ∀ {p : Prog World Unit}, OnlyQueries SameCache p →
      Outline False (fun _ _ => False) (Moves rooted message fun _ => False)
        (fun x => Outset rooted done message x ∧ SectionsOf (done ++ [message]) x) (p.recorded (note message))
        fun _ x => Outset rooted done message x ∧ SectionsOf (done ++ [message]) x :=
    fun hp => (outline_queries hp (stable_outset.and hsections)).rely_mono fun _ _ h => h.elim
  have hrest : ∀ {beside : Prog World Unit}, OnlyQueries SameCache beside →
      Outline False (fun _ _ => False) (Moves rooted message fun _ => False) (fun x =>
        (Has (CachedBefore rooted done message) x ∧
          ∀ chunk ∈ askedChunks message, LookedUp message chunk.receipts x) ∧ SectionsOf (done ++ [message]) x)
        ((Prog.both (ExecutionOutcomes.storeExecutionOutcomes message.shards message.block.header.timestamp)
          beside).recorded (note message))
        fun _ x => Cached rooted (done ++ [message]) x ∧
          ∀ chunk ∈ askedChunks message, LookedUp message chunk.receipts x := by
    intro beside hbeside
    have hlooked : Stable (Moves rooted message fun key => ¬ Executes message.outcomes key) fun x =>
        ∀ chunk ∈ askedChunks message, LookedUp message chunk.receipts x :=
      fun x y hx hmoves chunk hchunk => stable_lookedUp x y (hx chunk hchunk) hmoves
    have hframe := (outline_outcomesBeside hnext message.block.header.timestamp hbeside).frame hnone
      (hlooked.and hsections)
    refine ((hframe.guarantee_mono hall).pre fun x hx => ⟨hx.1.1, hx.1.2, hx.2⟩).post ?_
    exact fun _ x hx => ⟨⟨hx.1, hx.2.2⟩, hx.2.1⟩
  refine Outline.pre (P := fun x => Outset rooted done message x ∧ SectionsOf (done ++ [message]) x) ?_
    fun x hx => ⟨hx.outset message, fun entry hentry => List.mem_append_left _ (hx.sections entry hentry)⟩
  refine .bind_recorded (hqueries (Blocks.onlyQueries_storeBlock (fun _ _ => ⟨rfl⟩) _)) fun _ => ?_
  refine .bind_recorded (hqueries (Blocks.onlyQueries_storeChunks hfree.chunks _ _)) fun _ => ?_
  refine .bind_recorded (((outline_storeBoth hnext decoders _ _ _ strictMode).frame hnone hsections).guarantee_mono
    hall) fun _ => ?_
  split
  · exact hrest (onlyQueries_besideOutcomes hfree decoders message)
  · exact hrest (onlyQueries_besideOutcomes_of_not_strict hfree decoders message)

end Block

/-! ### Runs -/

/-- `handleMessage` with a record of its critical sections. -/
def handleRecorded (decoders : Decoders) (strictMode : Bool) (message : StreamerMessage) : Prog RecordedWorld Unit :=
  (handleMessage decoders message strictMode).recorded (note message)

/-- Every run of `listenBlocks` has a record. -/
theorem recorded_of_listenBlocks {decoders : Decoders} {strictMode : Bool} {stream : List StreamerMessage}
    {db : Database} {trace : List (StreamEvent StreamerMessage)} {buffered : Buffered World StreamerMessage}
    (h : ListenBlocks decoders 1 strictMode stream db trace buffered) :
    ∃ recorded : Buffered RecordedWorld StreamerMessage, recorded.state.state = buffered.state ∧
      StreamRun (handleRecorded decoders strictMode) 1 ⟨stream, [], ⟨⟨.withSize 100000, db⟩, []⟩⟩ trace recorded := by
  obtain ⟨record, hrun⟩ := StreamRun.recorded note h
  exact ⟨_, rfl, hrun⟩

/-- At any time: what was looked up was resolved, and this was all receipts of the messages that are done. -/
structure Served (rooted : ReceiptOrDataId → Prop) (done : List StreamerMessage) (x : RecordedWorld) : Prop where
  resolved : AllResolved rooted x
  lookedUp : ∀ message ∈ done, ∀ chunk ∈ askedChunks message, LookedUp message chunk.receipts x

theorem stable_served {rooted kept : ReceiptOrDataId → Prop} (message : StreamerMessage)
    (done : List StreamerMessage) : Stable (Moves rooted message kept) (Served rooted done) := by
  intro x y hx hmoves
  exact ⟨stable_allResolved x y hx.resolved hmoves, fun other hother chunk hchunk =>
    stable_lookedUp x y (hx.lookedUp other hother chunk hchunk) hmoves⟩

/-- Between two messages. -/
structure Settled (rooted : ReceiptOrDataId → Prop) (done : List StreamerMessage) (x : RecordedWorld) : Prop where
  cached : Cached rooted done x
  served : Served rooted done x

theorem settled_nil (rooted : ReceiptOrDataId → Prop) (w : World) : Settled rooted [] ⟨w, []⟩ := by
  refine ⟨⟨fun _ key hkey => ?_, ?_⟩, ?_, ?_⟩
  · obtain ⟨_, hmem, _⟩ := hkey.introduced
    exact (List.not_mem_nil hmem).elim
  · exact fun _ hmem => (List.not_mem_nil hmem).elim
  · exact fun _ _ hmem => (List.not_mem_nil hmem).elim
  · exact fun _ hmem => (List.not_mem_nil hmem).elim

/-- The handling of a message settles it, and what was served stays so in every step of it. -/
theorem outline_handleRecorded {rooted : ReceiptOrDataId → Prop} {done : List StreamerMessage}
    {message : StreamerMessage} (hnext : NextBlock rooted done message) (decoders : Decoders) (strictMode : Bool) :
    Outline False (fun _ _ => False) (fun x y => ∀ items, Served rooted items x → Served rooted items y)
      (Settled rooted done) (handleRecorded decoders strictMode message)
      fun _ => Settled rooted (done ++ [message]) := by
  have hframe := (outline_handleMessage hnext decoders strictMode).frame (fun _ _ _ h => h.elim)
    (stable_served message done)
  have hserved := hframe.guarantee_mono fun x y hmoves items hx => stable_served message items x y hx hmoves
  refine (hserved.pre fun x hx => ⟨hx.cached, hx.served⟩).post ?_
  rintro _ x ⟨⟨hcached, hlast⟩, hserved⟩
  refine ⟨hcached, hserved.resolved, fun other hother => ?_⟩
  rcases List.mem_append.mp hother with hdone | hmessage
  · exact hserved.lookedUp other hdone
  · cases List.mem_singleton.mp hmessage
    exact hlast

/-- On an uninterrupted run the cache alone suffices, whatever it knows at the start: all receipts of the handled blocks
are looked up, and those whose root transaction is in the stream are resolved from the cache. -/
theorem resolved_from_cache (decoders : Decoders) (strictMode : Bool) (before stream : List StreamerMessage)
    (hchain : Ordered (before ++ stream)) (cache : ReceiptsCache) (db : Database)
    (trace : List (StreamEvent StreamerMessage)) (buffered : Buffered RecordedWorld StreamerMessage)
    (hrun : StreamRun (handleRecorded decoders strictMode) 1 ⟨stream, [], ⟨⟨cache, db⟩, []⟩⟩ trace buffered)
    (hhandled : ∀ message, .handled message false ∉ trace)
    (hevicts : ∀ entry ∈ buffered.state.record, entry.EvictsNothing)
    (hfirst : WritesFirst buffered.state.record) :
    (∀ message, .handled message true ∈ trace → ∀ chunk ∈ chunksOf message.shards, chunk.receipts ≠ [] →
      ∃ entry ∈ buffered.state.record, entry.message = message ∧ entry.looksUp chunk.receipts) ∧
    ∀ entry ∈ buffered.state.record, ∀ receipts, entry.looksUp receipts →
      ∀ receipt ∈ receipts, Rooted before stream (receiptOrDataId receipt) →
        ResolvedFromCache strictMode receipts entry.found.cache receipt := by
  obtain ⟨done, hserved, hdone⟩ := hrun.outlined hhandled (settled_nil (Rooted before stream) ⟨cache, db⟩)
    (fun _ _ h => h.served) fun done message rest hstream => by
      have hnext : NextBlock (Rooted before stream) done message := by
        rw [hstream] at hchain ⊢
        exact hchain.nextBlock
      exact outline_handleRecorded hnext decoders strictMode
  constructor
  · intro message hmessage chunk hchunk hreceipts
    refine hserved.lookedUp message (hdone message hmessage) chunk (List.mem_filter.mpr ⟨hchunk, ?_⟩)
    rwa [Bool.not_eq_true', List.isEmpty_eq_false_iff]
  · intro entry hentry receipts hlooks receipt hreceipt hroot
    exact .of_mem hreceipt (hserved.resolved ⟨hevicts, hfirst⟩ entry hentry receipts hlooks receipt hreceipt hroot)
      strictMode

/-! ### A transaction and its receipts -/

def blockAt (height : Nat) (hash prevHash : CryptoHash) (shard : IndexerShard) : StreamerMessage where
  block :=
    { author := "validator.near"
      header := { height, hash, prevHash, timestamp := height, totalSupply := 0, gasPrice := 0 } }
  shards := [shard]

def transfer : IndexerTransactionWithOutcome := .plain (.ofText "b7") (.ofText "t1") (.ofText "r1") "bob.near"

def sent : StreamerMessage :=
  blockAt 7 (.ofText "b7") (.ofText "b6") (.plain (.ofText "c7") [transfer] [] [])

def received : StreamerMessage :=
  blockAt 8 (.ofText "b8") (.ofText "b7")
    (.plain (.ofText "c8") [] [.plain (.ofText "r1") "bob.near" []]
      [.plain (.ofText "b8") (.plain (.ofText "r1") "bob.near" []) []])

def afterSent : RecordedWorld := (handleRecorded .silent true sent).after 1 ⟨emptyWorld, []⟩

def afterReceived : RecordedWorld := (handleRecorded .silent true received).after 1 afterSent

theorem run_received : ∃ trace : List (StreamEvent StreamerMessage),
    StreamRun (handleRecorded .silent true) 1 ⟨[sent, received], [], ⟨emptyWorld, []⟩⟩ trace ⟨[], [], afterReceived⟩ ∧
      (∀ message, .handled message false ∉ trace) ∧ .handled received true ∈ trace := by
  have hsent : Finishes (handleRecorded .silent true sent) ⟨emptyWorld, []⟩ () afterSent :=
    finishes_after 1 (by decide)
  have hreceived : Finishes (handleRecorded .silent true received) afterSent () afterReceived :=
    finishes_after 1 (by decide)
  obtain ⟨events, hrun⟩ := StreamRun.start.handles Nat.one_pos hsent
  obtain ⟨events', hrun⟩ := hrun.handles Nat.one_pos hreceived
  exact ⟨_, hrun, by simp, by simp⟩

theorem sections_afterReceived : ∃ act₁ w₁ act₂ w₂ act₃ w₃ w₄ act₅ w₅ act₆ w₆, afterReceived.record =
    [] ++ [note sent Unit act₁ w₁] ++ [note sent Unit act₂ w₂] ++ [note received Unit act₃ w₃] ++
      [note received TxHashes (lookUp [.plain (.ofText "r1") "bob.near" []]) w₄] ++ [note received Unit act₅ w₅] ++
      [note received Unit act₆ w₆] ∧
    ∀ chunk ∈ chunksOf received.shards, (fun w => (act₃ w).2) = writeTransactions chunk := by
  refine ⟨_, _, _, _, _, _, _, _, _, _, _, rfl, ?_⟩
  intro chunk hchunk
  cases List.mem_singleton.mp hchunk
  rfl

theorem smooth_afterReceived : Smooth afterReceived.record := by
  refine ⟨by decide, ?_⟩
  obtain ⟨act₁, w₁, act₂, w₂, act₃, w₃, w₄, act₅, w₅, act₆, w₆, hrecord, hwrites⟩ := sections_afterReceived
  rw [hrecord]
  refine (WritesFirst.snoc writesFirst_nil.update.update.update fun _ _ chunk hchunk => ?_).update.update
  exact ⟨_, List.mem_append_right _ List.mem_cons_self, rfl, hwrites chunk hchunk⟩

theorem inBlock_pair {β : Type} {items : StreamerMessage → List β} {first second : StreamerMessage} {i : Nat}
    {item : β} (h : InBlock items [first, second] i item) :
    (i = 0 ∧ item ∈ items first) ∨ (i = 1 ∧ item ∈ items second) := by
  obtain ⟨message, hmessage, hitem⟩ := h
  match i with
  | 0 =>
      cases hmessage
      exact .inl ⟨rfl, hitem⟩
  | 1 =>
      cases hmessage
      exact .inr ⟨rfl, hitem⟩
  | _ + 2 => cases hmessage

theorem ordered_sent_received : Ordered [sent, received] := by
  have houtcome : ∀ {j outcome}, InBlock (·.outcomes) [sent, received] j outcome →
      j = 1 ∧ outcome = .plain (.ofText "b8") (.plain (.ofText "r1") "bob.near" []) [] := fun h =>
    (inBlock_pair h).elim (fun h => (List.not_mem_nil h.2).elim) fun h => ⟨h.1, List.mem_singleton.mp h.2⟩
  have hreceipt : ∀ {j receipt}, InBlock (·.receipts) [sent, received] j receipt →
      j = 1 ∧ receipt = .plain (.ofText "r1") "bob.near" [] := fun h =>
    (inBlock_pair h).elim (fun h => (List.not_mem_nil h.2).elim) fun h => ⟨h.1, List.mem_singleton.mp h.2⟩
  refine ⟨?_, ?_, ?_, ?_, ?_, by decide, by decide, by decide⟩
  · intro i j tx receipt htx hincluded _
    obtain ⟨rfl, _⟩ := hreceipt hincluded
    rcases inBlock_pair htx with ⟨rfl, _⟩ | ⟨rfl, _⟩
    · exact Nat.zero_le 1
    · exact Nat.le_refl 1
  · intro j outcome hexecuted
    obtain ⟨rfl, rfl⟩ := houtcome hexecuted
    exact ⟨1, _, ⟨received, rfl, List.mem_cons_self⟩, rfl, Nat.le_refl 1⟩
  · intro i j outcome receipt hexecuted _ hproduced
    obtain ⟨_, rfl⟩ := houtcome hexecuted
    exact (List.not_mem_nil hproduced).elim
  · intro i j receipt receiver data hincluded hreceiver _ _
    obtain ⟨_, rfl⟩ := hreceipt hincluded
    exact (List.not_mem_nil hreceiver).elim
  · unfold Parents.DistinctHashes
    decide

/-- The transaction is handled in one block, its receipt in the next one. -/
theorem resolved_from_cache_received : ∃ entry ∈ afterReceived.record,
    entry.message = received ∧ entry.looksUp [.plain (.ofText "r1") "bob.near" []] ∧
      ResolvedFromCache true [.plain (.ofText "r1") "bob.near" []] entry.found.cache
        (.plain (.ofText "r1") "bob.near" []) := by
  obtain ⟨trace, hrun, hhandled, hreceived⟩ := run_received
  have hsmooth := smooth_afterReceived
  obtain ⟨hlooked, hresolved⟩ := resolved_from_cache .silent true [] [sent, received] ordered_sent_received _ _
    trace _ hrun hhandled hsmooth.evictsNothing hsmooth.writesFirst
  obtain ⟨entry, hentry, hmessage, hlooks⟩ :=
    hlooked received hreceived _ (List.mem_singleton_self _) (List.cons_ne_nil _ _)
  have hroot : Rooted [] [sent, received] (.receiptId transfer.convertedIntoReceiptId) :=
    .converted List.mem_cons_self (List.mem_singleton_self transfer)
  exact ⟨entry, hentry, hmessage, hlooks, hresolved entry hentry _ hlooks _ (List.mem_singleton_self _) hroot⟩

end ExplorerIndexer.Receipts
