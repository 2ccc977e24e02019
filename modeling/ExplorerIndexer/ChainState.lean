import ExplorerIndexer.ChainProgress
import ExplorerIndexer.HandleMessageState

/-! The accounts and the access keys of an indexer over its whole life. If the genesis was imported before any message
was handled, their rows are where the messages that were handled lead, in order and each of them once, or one message
further. -/

namespace ExplorerIndexer

open Async Store Models

/-- Messages are handled only after the genesis was imported to its end. -/
def GenesisFirst (sessions : List Session) : Prop :=
  ∀ before strictMode trace after, sessions = before ++ .listenBlocks strictMode trace :: after →
    .storeGenesis true ∈ before

/-- The accounts and the access keys of the genesis. -/
def genesisState (genesisHeight : Nat) (records : List StateRecord) : StateRows :=
  (Genesis.imported genesisHeight records {}).stateRows

section Sessions

variable {sessions : List Session} {message : StreamerMessage} {strictMode stored : Bool}
  {trace : List (StreamEvent StreamerMessage)}

theorem GenesisFirst.of_append {later : List Session} (h : GenesisFirst (sessions ++ later)) : GenesisFirst sessions :=
  fun before strictMode trace after heq =>
    h before strictMode trace (after ++ later) (by rw [heq, List.append_assoc, List.cons_append])

theorem GenesisFirst.imported (h : GenesisFirst sessions) (hmem : .listenBlocks strictMode trace ∈ sessions) :
    .storeGenesis true ∈ sessions := by
  obtain ⟨before, after, rfl⟩ := List.append_of_mem hmem
  exact List.mem_append_left _ (h before strictMode trace after rfl)

theorem handledIn_storeGenesis :
    HandledIn (sessions ++ [.storeGenesis stored]) true message ↔ HandledIn sessions true message := by
  refine ⟨fun ⟨trace, hmem, hevent⟩ => ?_, fun h => h.append _⟩
  rcases List.mem_append.mp hmem with hmem | hmem
  · exact ⟨trace, hmem, hevent⟩
  · cases List.mem_singleton.mp hmem

theorem handledIn_listenBlocks :
    HandledIn (sessions ++ [.listenBlocks true trace]) true message ↔
      HandledIn sessions true message ∨ .handled message true ∈ trace := by
  constructor
  · rintro ⟨trace', hmem, hevent⟩
    rcases List.mem_append.mp hmem with hmem | hmem
    · exact .inl ⟨trace', hmem, hevent⟩
    · cases List.mem_singleton.mp hmem
      exact .inr hevent
  · rintro (h | hevent)
    · exact h.append _
    · exact ⟨trace, List.mem_append_right _ List.mem_cons_self, hevent⟩

end Sessions

/-! ### The genesis -/

theorem Accounts.effectsOf_keeps (message : StreamerMessage) (accountId : AccountId) :
    ∀ f ∈ effectsOf message accountId, ∀ row, f (some row) ≠ none := by
  intro f hf row
  rw [List.mem_singleton.mp hf, blockEffect]
  cases hentry : entryOf accountId message.blockOutcomes.blockHeight
      (successfulActions message.blockOutcomes.outcomes) with
  | none => exact Option.some_ne_none row
  | some entry => cases hcreated : entry.createdByReceiptId <;> simp [callEffect, hcreated]

theorem AccessKeys.effectsOf_keeps (decoders : Decoders) (message : StreamerMessage) (key : PublicKey × AccountId) :
    ∀ f ∈ effectsOf decoders message key, ∀ row, f (some row) ≠ none := by
  intro f hf row
  rcases List.mem_cons.mp hf with rfl | hf
  · cases Accounts.lastReceipt (Accounts.deletesAccount key.2) (Accounts.successfulActions message.outcomes) <;>
      simp [sweepEffect]
  · rw [List.mem_singleton.mp hf]
    cases hentry : entryOf decoders key message.block.header.height
        (Accounts.successfulActions message.outcomes) with
    | none => exact Option.some_ne_none row
    | some entry => cases hcreated : entry.createdByReceiptId <;> simp [entryEffect, hcreated]

section Lives

variable {decoders : Decoders} {chain done rest : List StreamerMessage} {genesisHeight : Nat}
  {records : List StateRecord} {sessions : List Session} {db : Database}

/-- The genesis adds nothing to what it has led to. -/
theorem stateRows_imported
    (h : (stateEffects decoders).Arrived (genesisState genesisHeight records) done rest db.stateRows)
    {batches : List Genesis.Batch} (hbatches : batches <+: Genesis.batchesOf genesisHeight records) :
    (Genesis.importInto (Genesis.accountsOf batches) (Genesis.accessKeysOf batches) db).stateRows = db.stateRows := by
  have hstored := @genesisStored_imported genesisHeight records {}
  rw [Genesis.importInto, Table.insertAllNew_of_forall_mem fun row hrow => ?_,
    Table.insertAllNew_of_forall_mem fun row hrow => ?_]
  · have hrow := hstored.accessKeys row ((Genesis.accessKeysOf_beginning hbatches).subset hrow)
    rw [← AList.lookup_isSome, Option.isSome_iff_ne_none] at hrow ⊢
    exact present_of_arrived (AccessKeys.effectsOf_keeps decoders) (arrived_snd h) hrow
  · have hrow := hstored.accounts row ((Genesis.accountsOf_beginning hbatches).subset hrow)
    rw [← AList.lookup_isSome, Option.isSome_iff_ne_none] at hrow ⊢
    exact present_of_arrived Accounts.effectsOf_keeps (arrived_fst h) hrow

/-- Before messages are handled, and as long as no import came to its end, the first of the batches of the genesis are
stored. -/
theorem Life.importing (h : Life decoders chain genesisHeight records sessions db) (hfirst : GenesisFirst sessions)
    (hnone : .storeGenesis true ∉ sessions) : ∃ batches, batches <+: Genesis.batchesOf genesisHeight records ∧
      ∀ cache, (⟨cache, db⟩ : World) = applyAll Genesis.Batch.run batches ⟨cache, {}⟩ := by
  induction h with
  | empty => exact ⟨[], List.nil_prefix, fun _ => rfl⟩
  | @storeGenesis sessions w w' events p stored _ hrun _ ih =>
      obtain ⟨batches, hbatches, hdb⟩ := ih hfirst.of_append fun hmem => hnone (List.mem_append_left _ hmem)
      have hw : w = applyAll Genesis.Batch.run batches ⟨w.cache, {}⟩ := hdb w.cache
      rw [hw] at hrun
      obtain ⟨batches', hbatches', hw'⟩ := Genesis.resumable_run.steps
        (Genesis.sequence_storeGenesisRecords genesisHeight records) hbatches hrun
      refine ⟨batches', hbatches', fun cache => ?_⟩
      rw [hw', Genesis.applyAll_run, Genesis.applyAll_run]
  | listenBlocks => exact (hnone (List.mem_append_left _ (hfirst _ _ _ [] rfl))).elim

/-- The first import that comes to its end leaves the genesis. -/
theorem Life.imported {w w' : World} (h : Life decoders chain genesisHeight records sessions w.db)
    (hfirst : GenesisFirst sessions) (hnone : .storeGenesis true ∉ sessions)
    (hrun : Finishes (Genesis.storeGenesisRecords genesisHeight records) w () w') :
    w'.db = Genesis.imported genesisHeight records {} := by
  obtain ⟨batches, hbatches, hdb⟩ := h.importing hfirst hnone
  have hw : w = applyAll Genesis.Batch.run batches ⟨w.cache, {}⟩ := hdb w.cache
  rw [(Genesis.sequence_storeGenesisRecords genesisHeight records).finishes hrun, hw,
    Genesis.resumable_run.resume batches _ hbatches, Genesis.applyAll_batchesOf]

/-! ### The messages -/

/-- What a run leaves out is done, if the messages that are done come first and what it leaves out was handled. -/
theorem leftOut_of_handled {start : Nat}
    (hheights : chain.Pairwise fun a b => a.block.header.height < b.block.header.height) (horder : done ++ rest = chain)
    (hhandled : ∀ message ∈ leftOut chain start, message ∈ done) : leftOut chain start <+: done := by
  have hleft : leftOut chain start <+: chain :=
    ⟨streamFrom chain start, leftOut_append_streamFrom hheights start⟩
  have hdistinct : chain.Nodup := hheights.imp fun {a b} hlt heq => by
    rw [heq] at hlt
    exact Nat.lt_irrefl _ hlt
  have hlength := ((hdistinct.sublist hleft.sublist).subperm hhandled).length_le
  exact List.prefix_of_prefix_length_le hleft ⟨rest, horder⟩ hlength

/-- When all messages were handled, none is left. -/
theorem done_eq_chain (hheights : chain.Pairwise fun a b => a.block.header.height < b.block.header.height)
    (horder : done ++ rest = chain) (hall : ∀ message ∈ chain, message ∈ done) : done = chain := by
  rw [← horder] at hheights hall ⊢
  have hbefore := (List.pairwise_append.mp hheights).2.2
  have hrest : rest = [] := List.eq_nil_iff_forall_not_mem.mpr fun message hmem =>
    Nat.lt_irrefl _ (hbefore message (hall message (List.mem_append_right _ hmem)) message hmem)
  rw [hrest, List.append_nil]

/-- The accounts and the access keys are where the messages that were handled lead, or a part of the next one
further. -/
theorem Life.arrived (h : Life decoders chain genesisHeight records sessions db)
    (hheights : chain.Pairwise fun a b => a.block.header.height < b.block.header.height)
    (hsharded : ∀ message ∈ chain, Sharded message) (hfirst : GenesisFirst sessions)
    (hgenesis : .storeGenesis true ∈ sessions) :
    ∃ done rest, done ++ rest = chain ∧ (∀ message, HandledIn sessions true message ↔ message ∈ done) ∧
      (stateEffects decoders).Arrived (genesisState genesisHeight records) done rest db.stateRows := by
  induction h with
  | empty => exact (List.not_mem_nil hgenesis).elim
  | @storeGenesis sessions w w' events p stored hpast hrun hstored ih =>
      have hsessions : GenesisFirst sessions := hfirst.of_append
      by_cases hbefore : .storeGenesis true ∈ sessions
      · obtain ⟨done, rest, horder, hhandled, harrived⟩ := ih hsessions hbefore
        refine ⟨done, rest, horder, fun message => handledIn_storeGenesis.trans (hhandled message), ?_⟩
        obtain ⟨batches, rest, hbatches, rfl, _⟩ :=
          (Genesis.sequence_storeGenesisRecords genesisHeight records).steps hrun
        rw [Genesis.applyAll_run]
        exact (stateRows_imported harrived ⟨rest, hbatches.symm⟩).symm ▸ harrived
      · obtain rfl : stored = true := by
          rcases List.mem_append.mp hgenesis with hmem | hmem
          · exact (hbefore hmem).elim
          · cases List.mem_singleton.mp hmem
            rfl
        obtain rfl := hstored rfl
        refine ⟨[], chain, rfl, fun message => ⟨fun hhandled => ?_, fun hmem => (List.not_mem_nil hmem).elim⟩, ?_⟩
        · obtain ⟨_, hmem, _⟩ := handledIn_storeGenesis.mp hhandled
          exact (hbefore (hsessions.imported hmem)).elim
        · rw [hpast.imported hsessions hbefore ⟨_, hrun⟩]
          exact .start _ chain
  | @listenBlocks sessions db homeDir args start trace buffered hpast hstart hrun hok ih =>
      obtain ⟨done, rest, horder, hhandled, harrived⟩ := ih hfirst.of_append (hfirst _ _ _ [] rfl)
      have hpastDone : leftOut chain start <+: done := leftOut_of_handled hheights horder fun message hmessage =>
        (hhandled message).mp (hpast.leftOut_handled hheights hstart message hmessage)
      obtain ⟨done', later, hresumed⟩ := StreamRun.resumed hrun hok (lawful_stateEffects decoders)
        (horder ▸ hheights.imp Nat.le_of_lt) harrived
        (horder.trans (leftOut_append_streamFrom hheights start).symm) hpastDone fun message hmem =>
          outline_handleMessage_state decoders (hsharded message (mem_streamFrom.mp hmem).1)
      refine ⟨done', later, hresumed.order.trans horder, fun message => handledIn_listenBlocks.trans ?_,
        hresumed.arrived⟩
      constructor
      · rintro (hmem | hevent)
        · exact hresumed.kept.subset ((hhandled message).mp hmem)
        · exact hresumed.handled message hevent
      · exact fun hmem => (hresumed.origin message hmem).imp_left (hhandled message).mpr

end Lives

/-! ### The rows of accounts -/

/-- The messages that are done, and perhaps the one after them. -/
structure UpTo (chain done soFar : List StreamerMessage) : Prop where
  handled : done <+: soFar
  beginning : soFar <+: chain
  oneMore : soFar.length ≤ done.length + 1

section UpTo

variable {done rest : List StreamerMessage} {next : StreamerMessage}

theorem upTo_done (done rest : List StreamerMessage) : UpTo (done ++ rest) done done :=
  ⟨List.prefix_refl _, List.prefix_append _ _, Nat.le_succ _⟩

/-- When nothing is left, it is the whole chain. -/
theorem UpTo.eq_chain {chain soFar : List StreamerMessage} (h : UpTo chain chain soFar) : soFar = chain :=
  h.beginning.eq_of_length_le h.handled.length_le

theorem upTo_next (hnext : next ∈ rest.head?) : UpTo (done ++ rest) done (done ++ [next]) := by
  obtain ⟨later, rfl⟩ := List.head?_eq_some_iff.mp hnext
  refine ⟨List.prefix_append _ _, ⟨later, ?_⟩, by simp⟩
  rw [List.append_assoc, List.singleton_append]

end UpTo

namespace Accounts

section Rows

variable {accountId : AccountId} {blocks : List BlockOutcomes} {x : Option Account}

theorem rowAfter_append (accountId : AccountId) (blocks : List BlockOutcomes) (block : BlockOutcomes)
    (x : Option Account) :
    rowAfter accountId (blocks ++ [block]) x = blockEffect accountId block (rowAfter accountId blocks x) := by
  rw [rowAfter, List.foldl_append]
  rfl

/-- The row of a named account has the lifetime that the actions give. -/
theorem lifetimeOf_rowAfter (hlen : accountId.len ≠ 64)
    (hheights : blocks.Pairwise fun b b' => b.blockHeight < b'.blockHeight)
    (hold : ∀ block ∈ blocks, ∀ row, x = some row → row.lastUpdateBlockHeight < block.blockHeight) :
    (rowAfter accountId blocks x).map lifetimeOf =
      (blocks.flatMap fun block => successfulActions block.outcomes).foldl (liveThrough accountId)
        (x.map lifetimeOf) := by
  induction blocks generalizing x with
  | nil => rfl
  | cons block blocks ih =>
      obtain ⟨hlater, hheights⟩ := List.pairwise_cons.mp hheights
      have hblock := hold block List.mem_cons_self
      have hrest : ∀ later ∈ blocks, ∀ row, blockEffect accountId block x = some row →
          row.lastUpdateBlockHeight < later.blockHeight := fun later hmem row hrow =>
        Nat.lt_of_le_of_lt (callEffect_height hblock row hrow) (hlater later hmem)
      calc (rowAfter accountId (block :: blocks) x).map lifetimeOf
        _ = (rowAfter accountId blocks (blockEffect accountId block x)).map lifetimeOf := rfl
        _ = (blocks.flatMap fun block => successfulActions block.outcomes).foldl (liveThrough accountId)
            ((blockEffect accountId block x).map lifetimeOf) := ih hheights hrest
        _ = ((block :: blocks).flatMap fun block => successfulActions block.outcomes).foldl (liveThrough accountId)
            (x.map lifetimeOf) := by
          rw [blockEffect, lifetimeOf_callEffect hlen (fun e he => (wellFormed_entryOf he).account) hblock,
            lifetimeAfter_entryOf hlen, List.flatMap_cons, List.foldl_append]

end Rows

section Arrived

variable {done rest items : List StreamerMessage} {x y : AccountId → Option Account}

theorem row_of_undisturbed (h : (rowEffects effectsOf).Undisturbed x items y) (accountId : AccountId) :
    y accountId = rowAfter accountId (items.map (·.blockOutcomes)) (x accountId) := by
  induction h with
  | nil => rfl
  | @snoc items message y z _ hpart hsettled ih =>
      rw [List.map_append, List.map_singleton, rowAfter_append, ← ih]
      rcases hpart accountId with hsame | ⟨f, hf, hact⟩
      · rw [← hsame]
        exact (hsettled accountId _ List.mem_cons_self).symm
      · rw [hact, List.mem_singleton.mp hf]

theorem row_of_arrived (h : (rowEffects effectsOf).Arrived x done rest y) (accountId : AccountId) :
    ∃ soFar, UpTo (done ++ rest) done soFar ∧
      y accountId = rowAfter accountId (soFar.map (·.blockOutcomes)) (x accountId) := by
  obtain ⟨z, hdone, hy⟩ := h
  have hz := row_of_undisturbed hdone accountId
  rcases hy with rfl | ⟨next, hnext, hpart⟩
  · exact ⟨done, upTo_done done rest, hz⟩
  · rcases hpart accountId with hsame | ⟨f, hf, hact⟩
    · exact ⟨done, upTo_done done rest, hsame.trans hz⟩
    · refine ⟨done ++ [next], upTo_next hnext, ?_⟩
      rw [List.map_append, List.map_singleton, rowAfter_append, ← hz, hact, List.mem_singleton.mp hf]

end Arrived

end Accounts

/-- The rows of the genesis are at its height. -/
theorem height_of_genesis {genesisHeight : Nat} {records : List StateRecord} {accountId : AccountId} {row : Account}
    (hrow : (genesisState genesisHeight records).1 accountId = some row) :
    row.lastUpdateBlockHeight = genesisHeight := by
  rcases Table.mem_of_lookup_insertAllNew hrow with hold | ⟨_, hnew, _⟩
  · cases hold
  · obtain ⟨record, _, hrecord⟩ := List.mem_filterMap.mp hnew
    cases record <;> cases hrecord
    rfl

/-- At any moment of the life of an indexer that has imported the genesis first, the row of each account is the one that
the handled messages leave when each of them is handled once and in order, or these and the next one; and the receipts
that a named account was created and deleted by are those that all the successful actions of these messages give. -/
theorem accounts_of_life (decoders : Decoders) (chain : List StreamerMessage)
    (hheights : chain.Pairwise fun a b => a.block.header.height < b.block.header.height)
    (hsharded : ∀ message ∈ chain, Sharded message) (genesisHeight : Nat)
    (hlater : ∀ message ∈ chain, genesisHeight < message.block.header.height) (records : List StateRecord)
    (sessions : List Session) (db : Database) (h : Life decoders chain genesisHeight records sessions db)
    (hfirst : GenesisFirst sessions) (hgenesis : .storeGenesis true ∈ sessions) :
    ∃ done, done <+: chain ∧ (∀ message, HandledIn sessions true message ↔ message ∈ done) ∧
      (AllHandled chain sessions → done = chain) ∧ ∀ accountId, ∃ soFar, UpTo chain done soFar ∧
        db.accounts.lookup accountId = Accounts.rowAfter accountId (soFar.map (·.blockOutcomes))
          ((genesisState genesisHeight records).1 accountId) ∧
        (accountId.len ≠ 64 → (db.accounts.lookup accountId).map Accounts.lifetimeOf =
          (soFar.flatMap fun message => Accounts.successfulActions message.outcomes).foldl
            (Accounts.liveThrough accountId)
            (((genesisState genesisHeight records).1 accountId).map Accounts.lifetimeOf)) := by
  obtain ⟨done, rest, rfl, hhandled, harrived⟩ := h.arrived hheights hsharded hfirst hgenesis
  refine ⟨done, List.prefix_append _ _, hhandled, fun hall => ?_, fun accountId => ?_⟩
  · exact done_eq_chain hheights rfl fun message hmem => (hhandled message).mp (hall message hmem)
  obtain ⟨soFar, hsoFar, hrow⟩ : ∃ soFar, UpTo (done ++ rest) done soFar ∧ db.accounts.lookup accountId = _ :=
    Accounts.row_of_arrived (arrived_fst harrived) accountId
  refine ⟨soFar, hsoFar, hrow, fun hlen => ?_⟩
  have hblocks : (soFar.map (·.blockOutcomes)).Pairwise fun b b' => b.blockHeight < b'.blockHeight :=
    List.pairwise_map.mpr (hheights.sublist hsoFar.beginning.sublist)
  have hold : ∀ block ∈ soFar.map (·.blockOutcomes), ∀ row,
      (genesisState genesisHeight records).1 accountId = some row → row.lastUpdateBlockHeight < block.blockHeight := by
    intro block hblock row hgenesisRow
    obtain ⟨message, hmessage, rfl⟩ := List.mem_map.mp hblock
    rw [height_of_genesis hgenesisRow]
    exact hlater message (hsoFar.beginning.subset hmessage)
  have hlifetime := Accounts.lifetimeOf_rowAfter hlen hblocks hold
  rw [List.flatMap_map] at hlifetime
  rw [hrow]
  exact hlifetime

/-! The process is killed after the insert of a block that creates an account and gives it a key, and started again. -/

def newAccount : StreamerMessage :=
  let receipt := ReceiptView.plain (.ofText "r2") "eve.near" [.createAccount, .addKey "ed25519:9xk" ⟨0, .fullAccess⟩]
  { laterReceipt with
    shards := [.plain (.ofText "c8") [] [receipt] [.plain (.ofText "b8") receipt []]] }

def newAccountChain : List StreamerMessage := [Parents.localReceipt, newAccount]

theorem heights_newAccount :
    newAccountChain.Pairwise fun a b => a.block.header.height < b.block.header.height := by decide

theorem sharded_newAccount : ∀ message ∈ newAccountChain, Sharded message :=
  List.forall_mem_cons.mpr ⟨List.pairwise_singleton _ _, List.forall_mem_singleton.mpr (List.pairwise_singleton _ _)⟩

/-- The database when the next run has handled the block. -/
def afterNewAccount : Database :=
  ((handleMessage .silent newAccount true).after 1 ⟨.withSize 100000, killedAt newAccount⟩).db

theorem genesisFirst_cons (sessions : List Session) : GenesisFirst (.storeGenesis true :: sessions) := by
  intro before strictMode trace after heq
  cases before with
  | nil => cases heq
  | cons session before =>
      cases heq
      exact List.mem_cons_self

theorem life_newAccount : ∃ sessions, AllHandled newAccountChain (.storeGenesis true :: sessions) ∧
    Life .silent newAccountChain 0 Genesis.bobsGenesis (.storeGenesis true :: sessions) afterNewAccount := by
  obtain ⟨trace, hlife⟩ := life_killedAt (show 7 ≤ newAccount.block.header.height by decide)
  have hstart : StartedAt newAccountChain (killedAt newAccount) "~/.near" ⟨false, .syncFromInterruption ⟨0⟩⟩ 8 :=
    ⟨by decide, nofun⟩
  have hbegin : StreamRun (handleMessage .silent · true) 1
      ⟨[newAccount], [], ⟨.withSize 100000, killedAt newAccount⟩⟩ []
      ⟨[newAccount], [], ⟨.withSize 100000, killedAt newAccount⟩⟩ := .start
  obtain ⟨events, hrun⟩ := hbegin.handles Nat.one_pos (finishes_after 1 (by decide))
  refine ⟨_, hlife.allHandled heights_newAccount hstart hrun rfl rfl ?_, hlife.listenBlocks hstart hrun ?_⟩ <;>
    exact fun message hmem => by simp at hmem

theorem accounts_of_life_newAccount :
    (afterNewAccount.accounts.lookup "eve.near").map Accounts.lifetimeOf = some ⟨some (.ofText "r2"), none⟩ := by
  obtain ⟨sessions, hall, hlife⟩ := life_newAccount
  obtain ⟨done, -, -, hdone, hrows⟩ := accounts_of_life .silent _ heights_newAccount sharded_newAccount 0 (by decide) _
    _ _ hlife (genesisFirst_cons sessions) List.mem_cons_self
  obtain rfl := hdone hall
  obtain ⟨soFar, hsoFar, -, hlifetime⟩ := hrows "eve.near"
  rw [hlifetime (by decide), hsoFar.eq_chain]
  decide

end ExplorerIndexer
