import ExplorerIndexer.DatabaseOutlines
import ExplorerIndexer.HandleMessageQueries

/-! Proof outlines of the search for parent transactions: what is known after a query, a round and the whole search,
whatever it is that is known of the receipts that are left and of those that were found. -/

namespace ExplorerIndexer.Receipts

open Async Store Models

variable {rely guarantee : World → World → Prop} {P : World → Prop} {strictMode : Bool} {search : Search}

/-- The search for the data ids is left out if there are none. -/
theorem outline_askDataOutput {Q : Search ⊕ TxHashes → World → Prop}
    (hnone : search.dataIds = [] → ∀ w, P w → Q (.inl search) w)
    (hrows : ∀ w, P w → guarantee w w ∧ ∀ rows, rows.Perm (viaDataOutput search.dataIds w.db) →
      Q (search.extend (search.ofDataIds rows)) w)
    (hstable : ∀ stage, Stable rely (Q stage)) : Outline False rely guarantee P search.askDataOutput Q := by
  unfold Search.askDataOutput
  split
  · rename_i hempty
    exact .ret (hnone (List.isEmpty_iff.mp hempty))
  · exact outline_rows hrows hstable

theorem outline_unlessOver {B Q : Search ⊕ TxHashes → World → Prop} {stage : Search ⊕ TxHashes}
    {next : Search → Prog World (Search ⊕ TxHashes)}
    (hnext : ∀ search, Outline False rely guarantee (B (.inl search)) (next search) Q)
    (hover : ∀ txHashes w, B (.inr txHashes) w → Q (.inr txHashes) w) :
    Outline False rely guarantee (B stage) (Search.unlessOver stage next) Q := by
  cases stage with
  | inl search => exact hnext search
  | inr txHashes => exact .ret (hover txHashes)

/-- A round asks three times. What is known when a query ends the search is known of the round. -/
theorem outline_round {B C E Q : Search ⊕ TxHashes → World → Prop}
    (hdata : Outline False rely guarantee P search.askDataOutput B)
    (houtcomes : ∀ search, Outline False rely guarantee (B (.inl search)) search.askOutcomes C)
    (htransactions : ∀ search, Outline False rely guarantee (C (.inl search)) search.askTransactions E)
    (hover : ∀ txHashes w, B (.inr txHashes) w ∨ C (.inr txHashes) w ∨ E (.inr txHashes) w → Q (.inr txHashes) w)
    (hretry : ∀ search w, E (.inl search) w → Q (search.retry strictMode) w) :
    Outline False rely guarantee P (search.round strictMode) Q := by
  refine hdata.bind fun stage => outline_unlessOver (fun search => ?_) fun txHashes w h => hover txHashes w (.inl h)
  refine (houtcomes search).bind fun stage =>
    outline_unlessOver (fun search => ?_) fun txHashes w h => hover txHashes w (.inr (.inl h))
  refine (htransactions search).bind fun stage =>
    outline_unlessOver (fun search => ?_) fun txHashes w h => hover txHashes w (.inr (.inr h))
  exact .ret (hretry search)

/-- Round after round, until all receipts are found that the cache does not know. -/
theorem outline_searchForOthers {I : Search → World → Prop} {D : TxHashes → World → Prop}
    {receipts : List ReceiptView} {txHashes : TxHashes}
    (hfound : (receipts.filter fun r => receiptOrDataId r ∉ txHashes) = [] → ∀ w, P w → D txHashes w)
    (hstart : ∀ w, P w → I ⟨txHashes, receipts.filter fun r => receiptOrDataId r ∉ txHashes, 4⟩ w)
    (hinvariant : ∀ search, Stable rely (I search)) (hdone : ∀ txHashes, Stable rely (D txHashes))
    (hround : ∀ search, Outline False rely guarantee (I search) (search.round strictMode)
      fun stage w => Sum.elim (I · w) (D · w) stage) :
    Outline False rely guarantee P (searchForOthers strictMode receipts txHashes) D := by
  unfold searchForOthers
  dsimp only
  split
  · rename_i hempty
    exact .ret (hfound (List.isEmpty_iff.mp hempty))
  · exact .loop id hstart hinvariant hdone hround fun txHashes => .ret fun _ hw => hw

end ExplorerIndexer.Receipts
