import ExplorerIndexer.AsyncStatements
import ExplorerIndexer.HandleMessageQueries
import ExplorerIndexer.ReceiptsLookups

/-! What it is to be resolved from the cache: a receipt that the cache knows gets the parent that is cached, and no
statement of the search is for it. -/

namespace ExplorerIndexer.Receipts

open Async Store Models

/-- A query of the search that is not for the receipt or data id. -/
inductive AsksForOthers (key : ReceiptOrDataId) : (β : Type) → Statement World β → Prop
  | dataOutput {dataIds : List CryptoHash} (h : ∀ dataId ∈ dataIds, .dataId dataId ≠ key) :
      AsksForOthers key _ (selectFrom (viaDataOutput dataIds))
  | outcomes {receiptIds : List CryptoHash} (h : ∀ receiptId ∈ receiptIds, .receiptId receiptId ≠ key) :
      AsksForOthers key _ (selectFrom (viaOutcomes receiptIds))
  | transactions {receiptIds : List CryptoHash} (h : ∀ receiptId ∈ receiptIds, .receiptId receiptId ≠ key) :
      AsksForOthers key _ (selectFrom (viaTransactions receiptIds))

/-- The parent of the receipt is in the cache. When the cache has been asked, whatever happens to the state from there:
no statement of `findTxHashesForReceipts` is for the receipt, and it answers with the parent that was cached, unless
another receipt of the list has the same id. -/
structure ResolvedFromCache (strictMode : Bool) (receipts : List ReceiptView) (cache : ReceiptsCache)
    (receipt : ReceiptView) : Prop where
  notAskedFor : ∀ db event asked w, Step (findTxHashesForReceipts strictMode receipts) ⟨cache, db⟩ event asked w →
    ∀ left, Leaves asked left → ∀ β stmt, Sends stmt left → AsksForOthers (receiptOrDataId receipt) β stmt
  found : ∃ hash, (askCacheForAll receipts cache).1.lookup (receiptOrDataId receipt) = some hash ∧
    ((receipts.map (·.receiptId)).Nodup → ∀ db event asked w,
      Step (findTxHashesForReceipts strictMode receipts) ⟨cache, db⟩ event asked w →
        ∀ txHashes, Leaves asked (.ret txHashes) → txHashes.lookup (receiptOrDataId receipt) = some hash)

section Search

variable {key : ReceiptOrDataId} {hash : ParentTransactionHashString} {apart : Prop} {search : Search}

/-- The answer has what is known of a receipt apart from the others. -/
def Answers (key : ReceiptOrDataId) (hash : ParentTransactionHashString) (apart : Prop) (txHashes : TxHashes) : Prop :=
  apart → txHashes.lookup key = some hash

/-- The search has left out the receipt. -/
structure LeavesOut (key : ReceiptOrDataId) (hash : ParentTransactionHashString) (apart : Prop) (search : Search) :
    Prop where
  answers : Answers key hash apart search.txHashes
  others : ∀ r ∈ search.receipts, receiptOrDataId r ≠ key
  otherIds : apart → ∀ r ∈ search.receipts, .receiptId r.receiptId ≠ key

/-- What comes out of a query or a round. -/
abbrev StillOut (key : ReceiptOrDataId) (hash : ParentTransactionHashString) (apart : Prop) :
    Search ⊕ TxHashes → Prop := Sum.elim (LeavesOut key hash apart) (Answers key hash apart)

theorem LeavesOut.dataIds (h : LeavesOut key hash apart search) :
    ∀ dataId ∈ search.dataIds, .dataId dataId ≠ key := by
  intro dataId hmem
  obtain ⟨r, hr, hdata⟩ := List.mem_filterMap.mp hmem
  exact receiptOrDataId_of_dataId? hdata ▸ h.others r hr

theorem LeavesOut.actionReceiptIds (h : LeavesOut key hash apart search) :
    ∀ receiptId ∈ search.actionReceiptIds, .receiptId receiptId ≠ key := by
  intro receiptId hmem
  obtain ⟨r, hr, haction, rfl⟩ := mem_actionReceiptIds_iff.mp hmem
  exact receiptOrDataId_of_isAction haction ▸ h.others r hr

theorem LeavesOut.extend (h : LeavesOut key hash apart search)
    {found : List (CryptoHash × ParentTransactionHashString)}
    (hfound : ∀ entry ∈ found, ∃ r ∈ search.receipts, r.receiptId = entry.1) :
    StillOut key hash apart (search.extend found) := by
  have hanswers : Answers key hash apart (addFound search.txHashes found) := fun hapart =>
    (Table.lookup_foldl_insert_of_ne fun entry hentry heq => by
      obtain ⟨r, hr, hid⟩ := hfound entry hentry
      exact h.otherIds hapart r hr (hid ▸ heq)).trans (h.answers hapart)
  rw [Search.extend_eq]
  split
  · exact hanswers
  · exact ⟨hanswers, fun r hr => h.others r (List.mem_filter.mp hr).1,
      fun hapart r hr => h.otherIds hapart r (List.mem_filter.mp hr).1⟩

theorem LeavesOut.retry (h : LeavesOut key hash apart search) (strictMode : Bool) :
    StillOut key hash apart (search.retry strictMode) := by
  unfold Search.retry
  split
  · exact h
  · split
    · exact ⟨h.answers, h.others, h.otherIds⟩
    · exact h.answers

theorem sendsOnly_rows {α ρ : Type} {attempts : Option Nat} {read : Database → List ρ} {next : List ρ → α}
    {Q : α → Prop} (hstmt : AsksForOthers key _ (selectFrom read))
    (hrows : ∀ db rows, rows.Perm (read db) → Q (next rows)) :
    SendsOnly (AsksForOthers key) Q (.query attempts (selectFrom read) (fun _ => false) fun rows =>
      .anyOrder (rows.getD []) fun rows => .ret (next rows)) := by
  refine .query hstmt (fun w rows w' hrun => .anyOrder fun rows' hperm => .ret ?_) nofun
  obtain ⟨rfl, rfl⟩ := selectFrom_ok hrun
  exact hrows _ rows' hperm

theorem sendsOnly_unlessOver {stage : Search ⊕ TxHashes} {next : Search → Prog World (Search ⊕ TxHashes)}
    (hstage : StillOut key hash apart stage) (hnext : ∀ search, LeavesOut key hash apart search →
      SendsOnly (AsksForOthers key) (StillOut key hash apart) (next search)) :
    SendsOnly (AsksForOthers key) (StillOut key hash apart) (Search.unlessOver stage next) := by
  cases stage with
  | inl search => exact hnext search hstage
  | inr txHashes => exact .ret hstage

theorem sendsOnly_round (strictMode : Bool) (h : LeavesOut key hash apart search) :
    SendsOnly (AsksForOthers key) (StillOut key hash apart) (search.round strictMode) := by
  have hask : SendsOnly (AsksForOthers key) (StillOut key hash apart) search.askDataOutput := by
    unfold Search.askDataOutput
    split
    · exact .ret h
    · refine sendsOnly_rows (.dataOutput h.dataIds) fun db rows _ => h.extend fun entry hentry => ?_
      obtain ⟨r, hr, hid, _⟩ := of_mem_ofDataIds hentry
      exact ⟨r, hr, hid⟩
  refine hask.bind fun stage hstage => sendsOnly_unlessOver hstage fun search h => ?_
  refine SendsOnly.bind (Q := StillOut key hash apart)
    (sendsOnly_rows (.outcomes h.actionReceiptIds) fun db rows hperm => h.extend fun entry hentry => ?_)
    fun stage hstage => sendsOnly_unlessOver hstage fun search h => ?_
  · obtain ⟨row, _, hasked, hid, _⟩ := mem_viaOutcomes.mp (hperm.mem_iff.mp hentry)
    obtain ⟨r, hr, _, hsame⟩ := mem_actionReceiptIds_iff.mp hasked
    exact ⟨r, hr, hsame.trans hid⟩
  refine SendsOnly.bind (Q := StillOut key hash apart)
    (sendsOnly_rows (.transactions h.actionReceiptIds) fun db rows hperm => h.extend fun entry hentry => ?_)
    fun stage hstage => sendsOnly_unlessOver hstage fun search h => .ret (h.retry strictMode)
  obtain ⟨row, _, hasked, hid, _⟩ := mem_viaTransactions.mp (hperm.mem_iff.mp hentry)
  obtain ⟨r, hr, _, hsame⟩ := mem_actionReceiptIds_iff.mp hasked
  exact ⟨r, hr, hsame.trans hid⟩

theorem sendsOnly_searchForOthers (strictMode : Bool) {receipts : List ReceiptView} {receipt : ReceiptView}
    (hreceipt : receipt ∈ receipts) {txHashes : TxHashes}
    (hlookup : txHashes.lookup (receiptOrDataId receipt) = some hash) :
    SendsOnly (AsksForOthers (receiptOrDataId receipt))
      (Answers (receiptOrDataId receipt) hash (receipts.map (·.receiptId)).Nodup)
      (searchForOthers strictMode receipts txHashes) := by
  have hothers : ∀ r ∈ receipts.filter fun r => receiptOrDataId r ∉ txHashes,
      receiptOrDataId r ≠ receiptOrDataId receipt := fun r hr heq =>
    of_decide_eq_true (List.mem_filter.mp hr).2 (heq ▸ Table.mem_iff_lookup.mpr ⟨hash, hlookup⟩)
  unfold searchForOthers
  dsimp only
  split
  · exact .ret fun _ => hlookup
  · refine .loop (I := LeavesOut _ hash (receipts.map (·.receiptId)).Nodup) ⟨fun _ => hlookup, hothers, ?_⟩
      (fun search h => sendsOnly_round strictMode h) fun txHashes h => .ret h
    intro hdistinct r hr heq
    have hsame : receipt = r := List.inj_on_of_nodup_map hdistinct hreceipt (List.mem_filter.mp hr).1
      (of_receiptOrDataId_eq heq.symm).2
    exact hothers r hr (hsame ▸ rfl)

theorem ResolvedFromCache.of_mem {receipts : List ReceiptView} {cache : ReceiptsCache} {receipt : ReceiptView}
    (hreceipt : receipt ∈ receipts)
    (h : ∃ hash, (askCacheForAll receipts cache).1.lookup (receiptOrDataId receipt) = some hash) (strictMode : Bool) :
    ResolvedFromCache strictMode receipts cache receipt := by
  obtain ⟨hash, hlookup⟩ := h
  have hasked : ∀ db event asked w, Step (findTxHashesForReceipts strictMode receipts) ⟨cache, db⟩ event asked w →
      SendsOnly (AsksForOthers (receiptOrDataId receipt))
        (Answers (receiptOrDataId receipt) hash (receipts.map (·.receiptId)).Nodup) asked := by
    intro db event asked w hstep
    rw [findTxHashesForReceipts_eq] at hstep
    cases hstep with
    | access => exact sendsOnly_searchForOthers strictMode hreceipt hlookup
  exact ⟨fun db event asked w hstep left hleft β stmt hsends =>
      ((hasked db event asked w hstep).leaves hleft).allowed_of_sends hsends,
    hash, hlookup, fun hdistinct db event asked w hstep txHashes hleft =>
      ((hasked db event asked w hstep).leaves hleft).answer hdistinct⟩

end Search

end ExplorerIndexer.Receipts
