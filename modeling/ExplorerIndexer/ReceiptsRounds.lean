import ExplorerIndexer.AsyncAlone
import ExplorerIndexer.AsyncRounds
import ExplorerIndexer.ReceiptsExit

/-! How many rounds the search for parent transactions takes: one if the parent of every receipt is known, and at most
five in the non-strict mode. -/

namespace ExplorerIndexer.Receipts

open Async Store Models

/-- What holds of a search that goes on. -/
def Going (K : Search → World → Prop) (stage : Search ⊕ TxHashes) (w : World) : Prop :=
  Sum.elim (K · w) (fun _ => True) stage

section Rounds

variable {others : World → World → Prop} {w : World} {search : Search} {strictMode : Bool}

theorem stable_going {K : Search → World → Prop} (hK : ∀ search, Stable others (K search)) (stage : Search ⊕ TxHashes) :
    Stable others (Going K stage) := by
  cases stage with
  | inl search => exact hK search
  | inr txHashes => exact .const others True

/-- A query returns the rows of some later database, in any order. -/
theorem returnsWithin_ask {P : World → Prop} {Q : Search ⊕ TxHashes → World → Prop} {attempts : Option Nat}
    {read : Database → List (CryptoHash × ParentTransactionHashString)}
    {next : List (CryptoHash × ParentTransactionHashString) → Search ⊕ TxHashes} (hattempts : attempts ≠ some 0)
    (hP : Stable others P) (hQ : ∀ stage, Stable others (Q stage)) (hw : P w)
    (hread : ∀ w, P w → ∀ rows, rows.Perm (read w.db) → Q (next rows) w) :
    ReturnsWithin others Q 0 (.query attempts (selectFrom read) (fun _ => false) fun rows =>
      .anyOrder (rows.getD []) fun rows => .ret (next rows)) w := by
  refine .query hattempts fun t ht => ⟨read t.db, t, rfl, .anyOrder fun t' ht' rows hperm => .ret ?_⟩
  exact (hQ _).star (hread t (hP.star hw ht) rows hperm) ht'

/-- A round asks three times, unless the search is over before. -/
theorem returnsWithin_round {A B C E : Search → World → Prop} {Q : Search ⊕ TxHashes → World → Prop}
    (hdata : ∀ search w, A search w → ReturnsWithin others (Going B) 0 search.askDataOutput w)
    (houtcomes : ∀ search w, B search w → ReturnsWithin others (Going C) 0 search.askOutcomes w)
    (htransactions : ∀ search w, C search w → ReturnsWithin others (Going E) 0 search.askTransactions w)
    (hretry : ∀ search w, E search w → Q (search.retry strictMode) w) (hover : ∀ txHashes w, Q (.inr txHashes) w)
    (h : A search w) : ReturnsWithin others Q 0 (search.round strictMode) w := by
  refine (hdata search w h).straight fun stage w hstage => ?_
  cases stage with
  | inr txHashes => exact .ret (hover txHashes w)
  | inl search =>
      refine (houtcomes search w hstage).straight fun stage w hstage => ?_
      cases stage with
      | inr txHashes => exact .ret (hover txHashes w)
      | inl search =>
          refine (htransactions search w hstage).straight fun stage w hstage => ?_
          cases stage with
          | inr txHashes => exact .ret (hover txHashes w)
          | inl search => exact .ret (hretry search w hstage)

/-- The rounds begin with the receipts that the cache does not know. -/
theorem returnsWithin_findTxHashesForReceipts {receipts : List ReceiptView} {rounds : Nat}
    {I : Nat → Search → World → Prop} (hnone : ∀ search w, ¬ I 0 search w)
    (hstable : ∀ n search, Stable others (I n search))
    (hround : ∀ n search w, I (n + 1) search w → ReturnsWithin others
      (fun answer t => Sum.elim (I n · t) (fun _ => True) answer) 0 (search.round strictMode) w)
    (hstart : ∀ t, Relation.ReflTransGen others w t →
      I rounds ⟨(askCacheForAll receipts t.cache).1, uncached t receipts, 4⟩
        { t with cache := (askCacheForAll receipts t.cache).2 }) :
    ReturnsWithin others (fun _ _ => True) rounds (findTxHashesForReceipts strictMode receipts) w := by
  refine .access fun t ht => ?_
  have hleft : (receipts.filter fun r => receiptOrDataId r ∉ (askCacheForAll receipts t.cache).1) =
      uncached t receipts := filter_not_fromCache (lookup_askCacheForAll receipts t.cache)
  rw [Prog.bind_ret]
  dsimp only
  rw [hleft]
  split
  · exact .ret trivial
  · exact .loop (D := fun _ _ => True) hnone hstable hround (fun _ _ _ => .ret trivial) (hstart t ht)

/-! ### The non-strict mode -/

/-- A query leaves the retries as they are. -/
theorem going_extend_retries {n : Nat} (h : search.retriesLeft ≤ n)
    (found : List (CryptoHash × ParentTransactionHashString)) :
    Going (fun search _ => search.retriesLeft ≤ n) (search.extend found) w := by
  rw [Search.extend_eq]
  split
  · trivial
  · exact h

theorem returnsWithin_round_retries {n : Nat} (h : search.retriesLeft ≤ n) :
    ReturnsWithin others
      (fun answer _ => Sum.elim (fun search : Search => search.retriesLeft < n) (fun _ => True) answer) 0
      (search.round false) w := by
  have hstable : ∀ stage, Stable others (Going (fun search _ => search.retriesLeft ≤ n) stage) :=
    stable_going fun _ => .const others _
  refine returnsWithin_round (A := fun search _ => search.retriesLeft ≤ n) (B := fun search _ => search.retriesLeft ≤ n)
    (C := fun search _ => search.retriesLeft ≤ n) (E := fun search _ => search.retriesLeft ≤ n)
    (fun search w hn => ?_) (fun search w hn => ?_) (fun search w hn => ?_) (fun search w hn => ?_)
    (fun _ _ => trivial) h
  · unfold Search.askDataOutput
    split
    · exact .ret hn
    · exact returnsWithin_ask (by decide) (.const others True) hstable trivial fun _ _ _ _ =>
        going_extend_retries hn _
  · exact returnsWithin_ask (by decide) (.const others True) hstable trivial fun _ _ _ _ => going_extend_retries hn _
  · exact returnsWithin_ask (by decide) (.const others True) hstable trivial fun _ _ _ _ => going_extend_retries hn _
  · rw [Search.retry, if_neg Bool.false_ne_true]
    split
    · show search.retriesLeft - 1 < n
      omega
    · trivial

/-- In the non-strict mode the search returns after at most five rounds. -/
theorem returnsWithin_nonStrict (receipts : List ReceiptView) (w : World) :
    ReturnsWithin others (fun _ _ => True) 5 (findTxHashesForReceipts false receipts) w := by
  refine returnsWithin_findTxHashesForReceipts (I := fun n search _ => search.retriesLeft < n)
    (fun _ _ => Nat.not_lt_zero _) (fun n search => .const others _)
    (fun n search w h => returnsWithin_round_retries (Nat.le_of_lt_succ h)) fun t _ => ?_
  show 4 < 5
  decide

/-! ### A parent for every receipt -/

/-- What a receipt has in the database stays there. -/
def Lasting (has : Database → ReceiptView → Prop) : Prop := ∀ db db' r, has db r → SearchedTablesGrow db db' → has db' r

/-- Each receipt that is left has something in the database. -/
structure Left (has : Database → ReceiptView → Prop) (search : Search) (w : World) : Prop where
  parents : ParentsOnce w.db
  distinct : (search.receipts.map (·.receiptId)).Nodup
  has : ∀ r ∈ search.receipts, has w.db r

variable {receipts : List ReceiptView} {has has' : Database → ReceiptView → Prop}
  {found : List (CryptoHash × ParentTransactionHashString)}

theorem stable_left (hlasting : Lasting has) (search : Search) :
    Stable (Growing receipts ParentsOnce) (Left has search) := fun _ _ h hstep =>
  ⟨hstep.wellFormed, h.distinct, fun r hr => hlasting _ _ r (h.has r hr) hstep.grows⟩

/-- A receipt that is left after a query has something that the query does not return. -/
theorem Left.extend (h : Left has search w)
    (hleft : ∀ r ∈ search.receipts, has w.db r → (¬ ∃ entry ∈ found, entry.1 = r.receiptId) → has' w.db r) :
    Going (Left has') (search.extend found) w := by
  rw [Search.extend_eq]
  split
  · trivial
  · refine ⟨h.parents, h.distinct.sublist (List.filter_sublist.map _), fun r hr => ?_⟩
    obtain ⟨hmem, hnot⟩ := List.mem_filter.mp hr
    refine hleft r hmem (h.has r hmem) fun hfound => of_decide_eq_true hnot ?_
    exact receiptId_mem_addFound.mpr (.inl hfound)

/-- The parent is an outcome or a transaction. -/
def HasExecution (db : Database) (r : ReceiptView) : Prop :=
  r.isAction = true ∧ (HasOutcome db r ∨ HasTransaction db r)

def HasConversion (db : Database) (r : ReceiptView) : Prop := r.isAction = true ∧ HasTransaction db r

theorem lasting_inTables : Lasting InTables := fun _ _ _ h hgrows => h.mono hgrows

theorem lasting_hasExecution : Lasting HasExecution := fun _ _ _ h hgrows =>
  ⟨h.1, h.2.imp (·.mono hgrows) (·.mono hgrows)⟩

theorem lasting_hasConversion : Lasting HasConversion := fun _ _ _ h hgrows => ⟨h.1, h.2.mono hgrows⟩

theorem InTables.resolve {db : Database} {r : ReceiptView} (h : InTables db r)
    (hnot : ∀ dataId, r.dataId? = some dataId → ¬ HasDataOutput db dataId) : HasExecution db r :=
  h.resolve_right fun ⟨dataId, hdata, houtput⟩ => hnot dataId hdata houtput

/-- The first query finds the parents of all Data receipts. -/
theorem returnsWithin_askDataOutput_parents (h : Left InTables search w) :
    ReturnsWithin (Growing receipts ParentsOnce) (Going (Left HasExecution)) 0 search.askDataOutput w := by
  have hmem : ∀ r ∈ search.receipts, ∀ dataId, r.dataId? = some dataId → dataId ∈ search.dataIds :=
    fun r hr dataId hdata => List.mem_filterMap.mpr ⟨r, hr, hdata⟩
  unfold Search.askDataOutput
  split
  · rename_i hempty
    rw [List.isEmpty_iff] at hempty
    refine .ret ⟨h.parents, h.distinct, fun r hr => (h.has r hr).resolve fun dataId hdata _ => ?_⟩
    have hnone := hmem r hr dataId hdata
    rw [hempty] at hnone
    cases hnone
  · refine returnsWithin_ask (by decide) (stable_left lasting_inTables search)
      (stable_going (stable_left lasting_hasExecution)) h fun w hw rows hperm => ?_
    refine hw.extend fun r hr htables hnone => htables.resolve fun dataId hdata houtput => hnone ?_
    obtain ⟨hash, hrow⟩ := exists_viaDataOutput houtput (hmem r hr dataId hdata)
    exact exists_ofDataIds hr hdata (hperm.mem_iff.mpr hrow)

/-- The second one finds the Action receipts that an outcome has produced. -/
theorem returnsWithin_askOutcomes_parents (h : Left HasExecution search w) :
    ReturnsWithin (Growing receipts ParentsOnce) (Going (Left HasConversion)) 0 search.askOutcomes w := by
  refine returnsWithin_ask (by decide) (stable_left lasting_hasExecution search)
    (stable_going (stable_left lasting_hasConversion)) h fun w hw rows hperm => ?_
  refine hw.extend fun r hr hexecution hnone => ⟨hexecution.1, hexecution.2.resolve_left fun houtcome => hnone ?_⟩
  obtain ⟨entry, hentry, hid⟩ := exists_viaOutcomes houtcome (mem_actionReceiptIds_iff.mpr ⟨r, hr, hexecution.1, rfl⟩)
  exact ⟨entry, hperm.mem_iff.mpr hentry, hid⟩

/-- The third one returns one row for each of the others, which ends the search. -/
theorem returnsWithin_askTransactions_parents (h : Left HasConversion search w) :
    ReturnsWithin (Growing receipts ParentsOnce) (Going fun _ _ => False) 0 search.askTransactions w := by
  refine returnsWithin_ask (by decide) (stable_left lasting_hasConversion search)
    (stable_going fun _ => .const _ False) h fun w hw rows hperm => ?_
  have hids : (rows.map Prod.fst).Perm (search.receipts.map (·.receiptId)) := by
    refine (List.perm_ext_iff_of_nodup ?_ hw.distinct).mpr fun id => ⟨fun hid => ?_, fun hid => ?_⟩
    · exact (hperm.map _).nodup_iff.mpr (nodup_viaTransactions hw.parents _)
    · obtain ⟨entry, hentry, rfl⟩ := List.mem_map.mp hid
      obtain ⟨row, _, hasked, hid, _⟩ := mem_viaTransactions.mp (hperm.mem_iff.mp hentry)
      exact mem_left_of_mem_actionReceiptIds (hid ▸ hasked)
    · obtain ⟨r, hr, rfl⟩ := List.mem_map.mp hid
      have hconversion := hw.has r hr
      obtain ⟨entry, hentry, hid⟩ := exists_viaTransactions hconversion.2
        (mem_actionReceiptIds_iff.mpr ⟨r, hr, hconversion.1, rfl⟩)
      exact List.mem_map.mpr ⟨entry, hperm.mem_iff.mpr hentry, hid⟩
  have hlength := hids.length_eq
  rw [List.length_map, List.length_map] at hlength
  rw [Search.extend_eq, if_pos hlength]
  trivial

/-- If every receipt has a parent, the search returns within one round. -/
theorem returnsWithin_parents (strictMode : Bool) (hdistinct : (receipts.map (·.receiptId)).Nodup)
    (hparents : ParentsOnce w.db) (hlinked : ∀ r ∈ receipts, ∃ hash, ParentHash w r hash) :
    ReturnsWithin (Growing receipts ParentsOnce) (fun _ _ => True) 1
      (findTxHashesForReceipts strictMode receipts) w := by
  have hstable : Stable (Growing receipts ParentsOnce) fun t => ParentsOnce t.db ∧ ∀ r ∈ receipts,
      (∃ hash, t.cache.lookup (receiptOrDataId r) = some hash) ∨ InTables t.db r := by
    intro s t hs hstep
    refine ⟨hstep.wellFormed, fun r hr => (hs.2 r hr).imp ?_ (·.mono hstep.grows)⟩
    exact fun ⟨hash, hlookup⟩ => ⟨hash, hstep.cache r hr hash hlookup⟩
  have hnow : ∀ r ∈ receipts, (∃ hash, w.cache.lookup (receiptOrDataId r) = some hash) ∨ InTables w.db r := by
    intro r hr
    obtain ⟨hash, hparent⟩ := hlinked r hr
    exact hparent.cases_tables.imp_left fun hlookup => ⟨hash, hlookup⟩
  refine returnsWithin_findTxHashesForReceipts (I := fun n search t => n = 1 ∧ Left InTables search t)
    (fun _ _ h => by cases h.1) (fun n search => (Stable.const _ _).and (stable_left lasting_inTables search))
    (fun n search t h => ?_) fun t ht => ?_
  · exact returnsWithin_round (A := Left InTables) (B := Left HasExecution) (C := Left HasConversion)
      (E := fun _ _ => False) (fun _ _ => returnsWithin_askDataOutput_parents)
      (fun _ _ => returnsWithin_askOutcomes_parents) (fun _ _ => returnsWithin_askTransactions_parents)
      (fun _ _ h => h.elim) (fun _ _ => trivial) h.2
  · obtain ⟨hparents', hlinked'⟩ := hstable.star ⟨hparents, hnow⟩ ht
    refine ⟨rfl, hparents', hdistinct.sublist (List.filter_sublist.map _), fun r hr => ?_⟩
    obtain ⟨hreceipt, hnone⟩ := mem_uncached.mp hr
    refine (hlinked' r hreceipt).resolve_left fun ⟨hash, hlookup⟩ => ?_
    rw [hnone] at hlookup
    cases hlookup

end Rounds

/-- The strict mode returns only with every receipt found, if no outcome lists a receipt twice; with a parent for every
receipt one round is enough in both modes, and the non-strict mode never takes more than five. -/
theorem search_exits {receipts : List ReceiptView} {w : World} (hdistinct : (receipts.map (·.receiptId)).Nodup)
    (hparents : ParentsOnce w.db) :
    (ListedOnce w.db → ∀ txHashes w', Amid (Growing receipts FoundOnce) (findTxHashesForReceipts true receipts) w
      txHashes w' → ∀ r ∈ receipts, HasEntry txHashes r) ∧
    ((∀ r ∈ receipts, ∃ hash, ParentHash w r hash) → ∀ strictMode,
      ReturnsWithin (Growing receipts ParentsOnce) (fun _ _ => True) 1 (findTxHashesForReceipts strictMode receipts) w) ∧
    ReturnsWithin (fun _ _ => True) (fun _ _ => True) 5 (findTxHashesForReceipts false receipts) w := by
  refine ⟨fun hlisted txHashes w' hrun => ?_, fun hlinked strictMode => ?_, returnsWithin_nonStrict receipts w⟩
  · exact ((outline_findTxHashesForReceipts_found hdistinct).amid ⟨hparents, hlisted⟩ stable_foundOnce hrun).1
  · exact returnsWithin_parents strictMode hdistinct hparents hlinked

/-! ### One outcome -/

def producedReceipts : List ReceiptView :=
  [.plain (.ofText "r1") "bob.near" [], .plain (.ofText "r2") "bob.near" []]

def producingReceipt : Receipt where
  receiptId := .ofText "r0"
  includedInBlockHash := .ofText "b7"
  includedInChunkHash := .ofText "c7"
  indexInChunk := 0
  includedInBlockTimestamp := 7
  predecessorAccountId := "bob.near"
  receiverAccountId := "bob.near"
  receiptKind := .action
  originatedFromTransactionHash := "t"

/-- The outcome of one receipt produces the given ones. -/
def worldOfOutcome (produced : List CryptoHash) : World where
  cache := .withSize 1
  db :=
    { receipts := (∅ : Table CryptoHash Receipt).insert producingReceipt.receiptId producingReceipt
      executionOutcomeReceipts := (∅ : Table (CryptoHash × Nat × CryptoHash) ExecutionOutcomeReceipt).insertAllNew
        ExecutionOutcomeReceipt.key (produced.zipIdx.map fun (id, index) => ⟨producingReceipt.receiptId, index, id⟩) }

theorem of_lookup_worldOfOutcome {produced : List CryptoHash} {k : CryptoHash × Nat × CryptoHash}
    {row : ExecutionOutcomeReceipt}
    (h : (worldOfOutcome produced).db.executionOutcomeReceipts.lookup k = some row) :
    row.executedReceiptId = producingReceipt.receiptId ∧ row.key = k ∧
      produced[row.indexInExecutionOutcome]? = some row.producedReceiptId := by
  rcases Table.mem_of_lookup_insertAllNew h with hold | ⟨_, hmem, hkey⟩
  · cases hold
  · obtain ⟨⟨id, index⟩, hentry, rfl⟩ := List.mem_map.mp hmem
    exact ⟨rfl, hkey, List.mk_mem_zipIdx_iff_getElem?.mp hentry⟩

theorem parentsOnce_worldOfOutcome (produced : List CryptoHash) : ParentsOnce (worldOfOutcome produced).db := by
  refine ⟨fun k k' row row' hrow hrow' _ => ?_, fun k k' row row' hrow => by cases hrow⟩
  rw [(of_lookup_worldOfOutcome hrow).1, (of_lookup_worldOfOutcome hrow').1]

theorem listedOnce_worldOfOutcome {produced : List CryptoHash} (hdistinct : produced.Nodup) :
    ListedOnce (worldOfOutcome produced).db := by
  intro k k' row row' hrow hrow' hexecuted hproduced
  obtain ⟨_, hkey, hlisted⟩ := of_lookup_worldOfOutcome hrow
  obtain ⟨_, hkey', hlisted'⟩ := of_lookup_worldOfOutcome hrow'
  rw [← hproduced] at hlisted'
  have hindex := (List.getElem?_inj (List.getElem?_eq_some_iff.mp hlisted).1 hdistinct).mp (hlisted.trans hlisted'.symm)
  rw [← hkey, ← hkey', ExecutionOutcomeReceipt.key, ExecutionOutcomeReceipt.key, hexecuted, hindex, hproduced]

theorem search_exits_produced :
    (∃ txHashes w', Finishes (findTxHashesForReceipts true producedReceipts)
        (worldOfOutcome [.ofText "r1", .ofText "r2"]) txHashes w' ∧ ∀ r ∈ producedReceipts, HasEntry txHashes r) ∧
      ReturnsWithin (Growing producedReceipts ParentsOnce) (fun _ _ => True) 1
        (findTxHashesForReceipts true producedReceipts) (worldOfOutcome [.ofText "r1", .ofText "r2"]) := by
  have hexits := search_exits (by decide : (producedReceipts.map (·.receiptId)).Nodup)
    (parentsOnce_worldOfOutcome [.ofText "r1", .ofText "r2"])
  constructor
  · have hreturns : ((findTxHashesForReceipts true producedReceipts).alone 1
        (worldOfOutcome [.ofText "r1", .ofText "r2"])).isSome = true := by decide
    obtain ⟨⟨txHashes, w'⟩, hrun⟩ := Option.isSome_iff_exists.mp hreturns
    have hfinishes := finishes_alone hrun
    exact ⟨txHashes, w', hfinishes, hexits.1 (listedOnce_worldOfOutcome (by decide)) txHashes w' hfinishes.amid⟩
  · refine hexits.2.1 (fun r hr => ⟨"t", ?_⟩) true
    have hrow : ⟨producingReceipt.receiptId, if r.receiptId = .ofText "r1" then 0 else 1, r.receiptId⟩ ∈
        (worldOfOutcome [.ofText "r1", .ofText "r2"]).db.executionOutcomeReceipts.rows := by
      revert r
      decide
    have haction : r.isAction = true := by
      revert r
      decide
    have hparent : (worldOfOutcome [.ofText "r1", .ofText "r2"]).db.receipts.lookup producingReceipt.receiptId =
        some producingReceipt := AList.lookup_insert _
    exact .outcome haction hrow rfl hparent

/-- The search takes the two rows of the first receipt for the rows of both. -/
theorem listed_twice_lost :
    ¬ ∀ (receipts : List ReceiptView) (w : World), (receipts.map (·.receiptId)).Nodup → ParentsOnce w.db →
      ∀ txHashes w', Amid (Growing receipts ParentsOnce) (findTxHashesForReceipts true receipts) w txHashes w' →
        ∀ r ∈ receipts, HasEntry txHashes r := by
  intro h
  have hlost : ((findTxHashesForReceipts true producedReceipts).alone 1
      (worldOfOutcome [.ofText "r1", .ofText "r1"])).map
        (fun result => decide (ReceiptOrDataId.receiptId (.ofText "r2") ∈ result.1)) = some false := by decide
  obtain ⟨⟨txHashes, w'⟩, hrun, hnot⟩ := Option.map_eq_some_iff.mp hlost
  have hfound := h producedReceipts _ (by decide) (parentsOnce_worldOfOutcome _) txHashes w'
    (finishes_alone hrun).amid (.plain (.ofText "r2") "bob.near" []) (by decide)
  rcases hfound with hmem | ⟨dataId, hdata, _⟩
  · exact of_decide_eq_false hnot hmem
  · cases hdata

end ExplorerIndexer.Receipts
