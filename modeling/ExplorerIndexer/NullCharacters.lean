import ExplorerIndexer.AdapterEvents
import ExplorerIndexer.ModelSerializers

/-! Null characters. The database takes none in texts and in JSON, so the texts that contracts choose are escaped
before they are stored; here is which of them still reach a row as they are. -/

namespace ExplorerIndexer

/-- U+0000 -/
def nullCharacter : Char := Char.ofNat 0

/-- A text that the database takes. -/
def NullFree (text : String) : Prop := nullCharacter ∉ text.toList

instance (text : String) : Decidable (NullFree text) := inferInstanceAs (Decidable (¬ _))

/-! ### Texts -/

theorem NullFree.ofList {chars : List Char} (h : ∀ c ∈ chars, c ≠ nullCharacter) : NullFree (String.ofList chars) := by
  unfold NullFree
  rw [String.toList_ofList]
  exact fun hmem => h _ hmem rfl

theorem digitChar_ne_null (d : Nat) : Nat.digitChar d ≠ nullCharacter := Nat.digitChar_ne nullCharacter (by decide)

/-- The characters of a number are digits. -/
theorem mem_toDigitsCore {base fuel n : Nat} {rest : List Char} {c : Char}
    (h : c ∈ Nat.toDigitsCore base fuel n rest) : (∃ d, c = Nat.digitChar d) ∨ c ∈ rest := by
  induction fuel generalizing n rest with
  | zero => exact .inr h
  | succ fuel ih =>
      rw [Nat.toDigitsCore] at h
      split at h
      · rcases List.mem_cons.mp h with rfl | hrest
        · exact .inl ⟨_, rfl⟩
        · exact .inr hrest
      · rcases ih h with hdigit | hrest
        · exact .inl hdigit
        · rcases List.mem_cons.mp hrest with rfl | hrest
          · exact .inl ⟨_, rfl⟩
          · exact .inr hrest

theorem toDigits_ne_null {base n : Nat} {c : Char} (h : c ∈ Nat.toDigits base n) : c ≠ nullCharacter := by
  rcases mem_toDigitsCore h with ⟨d, rfl⟩ | hrest
  · exact digitChar_ne_null d
  · exact absurd hrest List.not_mem_nil

theorem nullFree_toString (n : Nat) : NullFree (toString n) :=
  NullFree.ofList fun _ hc => toDigits_ne_null hc

/-- The text of a hash is base58. -/
theorem CryptoHash.nullFree (hash : CryptoHash) : NullFree hash.text := by
  intro hmem
  have hbase58 := List.all_eq_true.mp hash.base58 _ hmem
  exact absurd hbase58 (by decide)

namespace Models

theorem escapeChar_ne_null {c escaped : Char} (h : escaped ∈ escapeChar c) : escaped ≠ nullCharacter := by
  unfold escapeChar at h
  dsimp only at h
  rintro rfl
  split at h
  case h_7 =>
    split at h
    next hprintable =>
      rw [List.mem_singleton] at h
      rw [← h] at hprintable
      exact absurd hprintable (by decide)
    next =>
      simp only [List.mem_append] at h
      rcases h with (hopen | hdigits) | hclose
      · revert hopen
        decide
      · exact toDigits_ne_null hdigits rfl
      · revert hclose
        decide
  case h_1 | h_2 | h_3 =>
    revert h
    decide
  case h_4 hc | h_5 hc | h_6 hc =>
    -- the quoted character is itself escaped
    rcases List.mem_cons.mp h with hbackslash | hquoted
    · exact absurd hbackslash (by decide)
    · rw [← List.mem_singleton.mp hquoted] at hc
      exact absurd hc (by decide)

theorem nullFree_escapeDefault (text : String) : NullFree (escapeDefault text) := by
  refine NullFree.ofList fun c hc => ?_
  obtain ⟨source, _, hescaped⟩ := List.mem_flatMap.mp hc
  exact escapeChar_ne_null hescaped

theorem nullFree_hexEncode (bytes : List UInt8) : NullFree (hexEncode bytes) := by
  refine NullFree.ofList fun c hc => ?_
  obtain ⟨byte, _, hdigits⟩ := List.mem_flatMap.mp hc
  rcases List.mem_append.mp hdigits with hhigh | hlow
  · exact toDigits_ne_null hhigh
  · exact toDigits_ne_null hlow

end Models

/-! ### JSON -/

namespace Json

mutual

/-- The keys of the objects in a document, at any depth. -/
def keys : Json → List String
  | .object entries => keysOfEntries entries
  | .array values => keysOfValues values
  | .string _ | .null | .bool _ | .number _ => []

def keysOfValues : List Json → List String
  | [] => []
  | element :: values => element.keys ++ keysOfValues values

def keysOfEntries : List (String × Json) → List String
  | [] => []
  | (key, val) :: entries => key :: (val.keys ++ keysOfEntries entries)

end

mutual

/-- The strings among the values in a document, at any depth. -/
def strings : Json → List String
  | .object entries => stringsOfEntries entries
  | .array values => stringsOfValues values
  | .string value => [value]
  | .null | .bool _ | .number _ => []

def stringsOfValues : List Json → List String
  | [] => []
  | element :: values => element.strings ++ stringsOfValues values

def stringsOfEntries : List (String × Json) → List String
  | [] => []
  | (_, val) :: entries => val.strings ++ stringsOfEntries entries

end

/-- A document that the database takes: no string in it has a null character, neither a value nor a key. -/
structure NullFree (json : Json) : Prop where
  keys : ∀ key ∈ json.keys, ExplorerIndexer.NullFree key
  strings : ∀ value ∈ json.strings, ExplorerIndexer.NullFree value

theorem nullFree_object_nil : (object []).NullFree :=
  ⟨fun _ hkey => (List.not_mem_nil hkey).elim, fun _ hvalue => (List.not_mem_nil hvalue).elim⟩

theorem nullFree_object_cons {key : String} {val : Json} {entries : List (String × Json)} :
    (object ((key, val) :: entries)).NullFree ↔
      ExplorerIndexer.NullFree key ∧ val.NullFree ∧ (object entries).NullFree := by
  constructor
  · intro ⟨hkeys, hstrings⟩
    obtain ⟨hkey, hkeys⟩ := List.forall_mem_cons.mp hkeys
    obtain ⟨hvalKeys, hrestKeys⟩ := List.forall_mem_append.mp hkeys
    obtain ⟨hvalStrings, hrestStrings⟩ := List.forall_mem_append.mp hstrings
    exact ⟨hkey, ⟨hvalKeys, hvalStrings⟩, ⟨hrestKeys, hrestStrings⟩⟩
  · intro ⟨hkey, hval, hrest⟩
    refine ⟨List.forall_mem_cons.mpr ⟨hkey, ?_⟩, ?_⟩
    · exact List.forall_mem_append.mpr ⟨hval.keys, hrest.keys⟩
    · exact List.forall_mem_append.mpr ⟨hval.strings, hrest.strings⟩

theorem nullFree_string {value : String} : (string value).NullFree ↔ ExplorerIndexer.NullFree value := by
  constructor
  · intro h
    exact h.strings value List.mem_cons_self
  · intro h
    exact ⟨fun _ hkey => (List.not_mem_nil hkey).elim, List.forall_mem_singleton.mpr h⟩

theorem nullFree_number (literal : String) : (number literal).NullFree :=
  ⟨fun _ hkey => (List.not_mem_nil hkey).elim, fun _ hvalue => (List.not_mem_nil hvalue).elim⟩

theorem nullFree_null : null.NullFree :=
  ⟨fun _ hkey => (List.not_mem_nil hkey).elim, fun _ hvalue => (List.not_mem_nil hvalue).elim⟩

theorem nullFree_array_nil : (array []).NullFree :=
  ⟨fun _ hkey => (List.not_mem_nil hkey).elim, fun _ hvalue => (List.not_mem_nil hvalue).elim⟩

theorem nullFree_array_cons {element : Json} {values : List Json} :
    (array (element :: values)).NullFree ↔ element.NullFree ∧ (array values).NullFree := by
  constructor
  · intro ⟨hkeys, hstrings⟩
    obtain ⟨helementKeys, hrestKeys⟩ := List.forall_mem_append.mp hkeys
    obtain ⟨helementStrings, hrestStrings⟩ := List.forall_mem_append.mp hstrings
    exact ⟨⟨helementKeys, helementStrings⟩, ⟨hrestKeys, hrestStrings⟩⟩
  · intro ⟨helement, hrest⟩
    exact ⟨List.forall_mem_append.mpr ⟨helement.keys, hrest.keys⟩,
      List.forall_mem_append.mpr ⟨helement.strings, hrest.strings⟩⟩

end Json

namespace Models

mutual

/-- Escaping leaves the keys as they are. -/
theorem keys_escapeJson : ∀ json : Json, (escapeJson json).keys = json.keys
  | .object entries => keys_escapeEntries entries
  | .array values => keys_escapeValues values
  | .string _ | .null | .bool _ | .number _ => rfl

theorem keys_escapeValues : ∀ values : List Json, Json.keysOfValues (escapeValues values) = Json.keysOfValues values
  | [] => rfl
  | element :: values => by
      rw [escapeValues, Json.keysOfValues, Json.keysOfValues, keys_escapeJson element, keys_escapeValues values]

theorem keys_escapeEntries :
    ∀ entries : List (String × Json), Json.keysOfEntries (escapeEntries entries) = Json.keysOfEntries entries
  | [] => rfl
  | (key, val) :: entries => by
      rw [escapeEntries, Json.keysOfEntries, Json.keysOfEntries, keys_escapeJson val, keys_escapeEntries entries]

end

mutual

/-- Every other string is escaped. -/
theorem strings_escapeJson : ∀ json : Json, (escapeJson json).strings = json.strings.map escapeDefault
  | .object entries => strings_escapeEntries entries
  | .array values => strings_escapeValues values
  | .string _ | .null | .bool _ | .number _ => rfl

theorem strings_escapeValues : ∀ values : List Json,
    Json.stringsOfValues (escapeValues values) = (Json.stringsOfValues values).map escapeDefault
  | [] => rfl
  | element :: values => by
      rw [escapeValues, Json.stringsOfValues, Json.stringsOfValues, List.map_append, strings_escapeJson element,
        strings_escapeValues values]

theorem strings_escapeEntries : ∀ entries : List (String × Json),
    Json.stringsOfEntries (escapeEntries entries) = (Json.stringsOfEntries entries).map escapeDefault
  | [] => rfl
  | (_, val) :: entries => by
      rw [escapeEntries, Json.stringsOfEntries, Json.stringsOfEntries, List.map_append, strings_escapeJson val,
        strings_escapeEntries entries]

end

/-- An escaped document is safe exactly when its keys were. -/
theorem nullFree_escapeJson_iff (json : Json) : (escapeJson json).NullFree ↔ ∀ key ∈ json.keys, NullFree key := by
  constructor
  · intro h
    exact keys_escapeJson json ▸ h.keys
  · intro hkeys
    refine ⟨(keys_escapeJson json).symm ▸ hkeys, ?_⟩
    rw [strings_escapeJson]
    intro text htext
    obtain ⟨value, _, rfl⟩ := List.mem_map.mp htext
    exact nullFree_escapeDefault value

/-! ### Actions -/

/-- The method names of a permission are escaped one by one. -/
theorem nullFree_methodNames (methodNames : List String) :
    (Json.array (methodNames.map fun name => .string (escapeDefault name))).NullFree := by
  induction methodNames with
  | nil => exact Json.nullFree_array_nil
  | cons name methodNames ih =>
      exact Json.nullFree_array_cons.mpr ⟨Json.nullFree_string.mpr (nullFree_escapeDefault name), ih⟩

theorem nullFree_permissionJson (permission : AccessKeyPermissionView) : (permissionJson permission).NullFree := by
  cases permission with
  | fullAccess =>
      simp only [permissionJson, Json.nullFree_object_cons, Json.nullFree_string, Json.nullFree_object_nil, and_true]
      decide
  | functionCall allowance receiverId methodNames =>
      have hallowance : ((allowance.map fun n => Json.string (toString n)).getD .null).NullFree := by
        cases allowance with
        | none => exact Json.nullFree_null
        | some n => exact Json.nullFree_string.mpr (nullFree_toString n)
      simp only [permissionJson, Json.nullFree_object_cons, Json.nullFree_string, Json.nullFree_object_nil, and_true,
        nullFree_escapeDefault, nullFree_methodNames, hallowance]
      decide

theorem nullFree_accessKeyJson (accessKey : AccessKeyView) : (accessKeyJson accessKey).NullFree := by
  simp only [accessKeyJson, Json.nullFree_object_cons, Json.nullFree_number, nullFree_permissionJson,
    Json.nullFree_object_nil, and_true]
  decide

/-- The texts of an action that the chain has checked: base64, public keys and the ids of accounts. -/
def checkedTexts : ActionView → List String
  | .functionCall _ args _ _ => [args]
  | .stake _ publicKey | .addKey publicKey _ | .deleteKey publicKey => [publicKey]
  | .deleteAccount beneficiaryId => [beneficiaryId]
  | .createAccount | .deployContract _ | .transfer _ => []

/-- The document in the arguments of a call. -/
def argsJson (decoders : Decoders) : ActionView → Option Json
  | .functionCall _ args _ _ => (decoders.base64Decode args).bind decoders.jsonFromSlice
  | _ => none

/-- What is stored with an action that is no call. -/
theorem nullFree_value_of_checked {decoders : Decoders} {action : ActionView}
    (hnoCall : ∀ methodName args gas deposit, action ≠ .functionCall methodName args gas deposit)
    (hchecked : ∀ text ∈ checkedTexts action, NullFree text) :
    (extractActionTypeAndValueFromActionView decoders action).2.NullFree := by
  cases action with
  | createAccount => exact Json.nullFree_object_nil
  | deployContract code =>
      refine Json.nullFree_object_cons.mpr ⟨by decide, ?_, Json.nullFree_object_nil⟩
      exact Json.nullFree_string.mpr (nullFree_hexEncode code)
  | functionCall methodName args gas deposit => exact absurd rfl (hnoCall methodName args gas deposit)
  | transfer deposit =>
      refine Json.nullFree_object_cons.mpr ⟨by decide, ?_, Json.nullFree_object_nil⟩
      exact Json.nullFree_string.mpr (nullFree_toString deposit)
  | stake stake publicKey =>
      have hpublicKey : NullFree publicKey := hchecked publicKey List.mem_cons_self
      refine Json.nullFree_object_cons.mpr ⟨by decide, Json.nullFree_string.mpr (nullFree_toString stake), ?_⟩
      exact Json.nullFree_object_cons.mpr ⟨by decide, Json.nullFree_string.mpr hpublicKey, Json.nullFree_object_nil⟩
  | addKey publicKey accessKey =>
      have hpublicKey : NullFree publicKey := hchecked publicKey List.mem_cons_self
      refine Json.nullFree_object_cons.mpr ⟨by decide, Json.nullFree_string.mpr hpublicKey, ?_⟩
      exact Json.nullFree_object_cons.mpr ⟨by decide, nullFree_accessKeyJson accessKey, Json.nullFree_object_nil⟩
  | deleteKey publicKey =>
      have hpublicKey : NullFree publicKey := hchecked publicKey List.mem_cons_self
      exact Json.nullFree_object_cons.mpr ⟨by decide, Json.nullFree_string.mpr hpublicKey, Json.nullFree_object_nil⟩
  | deleteAccount beneficiaryId =>
      have hbeneficiary : NullFree beneficiaryId := hchecked beneficiaryId List.mem_cons_self
      exact Json.nullFree_object_cons.mpr ⟨by decide, Json.nullFree_string.mpr hbeneficiary, Json.nullFree_object_nil⟩

/-- What is stored with an action has no null character exactly when no object in the arguments of a call has one in a
key: keys are not escaped. -/
theorem action_value_nullFree_iff {decoders : Decoders} {action : ActionView}
    (hchecked : ∀ text ∈ checkedTexts action, NullFree text) :
    (extractActionTypeAndValueFromActionView decoders action).2.NullFree ↔
      ∀ json, argsJson decoders action = some json → ∀ key ∈ json.keys, NullFree key := by
  cases action with
  | functionCall methodName args gas deposit =>
      have hargs : NullFree args := hchecked args List.mem_cons_self
      simp only [extractActionTypeAndValueFromActionView, argsJson]
      cases (decoders.base64Decode args).bind decoders.jsonFromSlice with
      | none =>
          simp only [Json.nullFree_object_cons, Json.nullFree_string, Json.nullFree_number, Json.nullFree_object_nil,
            nullFree_escapeDefault, nullFree_toString, hargs, and_true, reduceCtorEq, false_implies, implies_true,
            iff_true]
          decide
      | some json =>
          simp only [List.cons_append, List.nil_append, Json.nullFree_object_cons, Json.nullFree_string,
            Json.nullFree_number, Json.nullFree_object_nil, nullFree_escapeDefault, nullFree_toString, hargs, and_true,
            true_and, nullFree_escapeJson_iff, Option.some.injEq, forall_eq']
          constructor
          · rintro ⟨-, -, -, -, -, hkeys⟩
            exact hkeys
          · intro hkeys
            exact ⟨by decide, by decide, by decide, by decide, by decide, hkeys⟩
  | _ =>
      simp only [argsJson, reduceCtorEq, false_implies, implies_true, iff_true]
      refine nullFree_value_of_checked ?_ hchecked
      nofun

/-- A document with the null character in a value, as JSON writes it, -/
def nullValueBytes : List UInt8 := [123, 34, 110, 97, 109, 101, 34, 58, 34, 92, 117, 48, 48, 48, 48, 34, 125]

/-- and one with it in a key. -/
def nullKeyBytes : List UInt8 := [123, 34, 92, 117, 48, 48, 48, 48, 34, 58, 48, 125]

/-- Decoders that know the two documents and their base64 texts. -/
def documentDecoders : Decoders where
  implicitPublicKey _ := none
  base64Decode text :=
    if text = "eyJuYW1lIjoiXHUwMDAwIn0=" then some nullValueBytes
    else if text = "eyJcdTAwMDAiOjB9" then some nullKeyBytes
    else none
  jsonFromSlice bytes :=
    if bytes = nullValueBytes then some (.object [("name", .string (String.singleton nullCharacter))])
    else if bytes = nullKeyBytes then some (.object [(String.singleton nullCharacter, .number "0")])
    else none
  nearEventFromStr _ := none

/-- The null character of a value is escaped. -/
theorem null_value_escaped :
    (extractActionTypeAndValueFromActionView documentDecoders
      (.functionCall "set" "eyJuYW1lIjoiXHUwMDAwIn0=" 1 0)).2.NullFree := by
  refine (action_value_nullFree_iff (by decide)).mpr ?_
  intro json hjson
  cases hjson
  decide

/-- That of a key is not. -/
theorem null_key_stored :
    ¬ ∀ action, (∀ text ∈ checkedTexts action, NullFree text) →
      (extractActionTypeAndValueFromActionView documentDecoders action).2.NullFree := by
  intro h
  have hkeys := (h (.functionCall "set" "eyJcdTAwMDAiOjB9" 1 0) (by decide)).keys
  exact absurd (hkeys (String.singleton nullCharacter) (by decide)) (by decide)

end Models

/-! ### Events -/

namespace Events

open Models

/-- The text columns of a row. -/
def textsOfFtRow (row : FungibleTokenEvent) : List String :=
  [row.emittedForReceiptId.text, row.emittedByContractAccountId, row.amount, row.tokenOldOwnerAccountId,
    row.tokenNewOwnerAccountId, row.eventMemo]

def textsOfNftRow (row : NonFungibleTokenEvent) : List String :=
  [row.emittedForReceiptId.text, row.emittedByContractAccountId, row.tokenId, row.tokenOldOwnerAccountId,
    row.tokenNewOwnerAccountId, row.tokenAuthorizedAccountId, row.eventMemo]

/-- The amounts in an event. -/
def amounts : Nep141EventKind → List String
  | .ftMint data => data.map (·.amount)
  | .ftTransfer data => data.map (·.amount)
  | .ftBurn data => data.map (·.amount)

theorem amounts_eq (event : Nep141EventKind) : (ftEntries event).map (·.amount) = amounts event := by
  cases event with
  | ftMint data | ftTransfer data | ftBurn data =>
      rw [ftEntries, List.map_map]
      rfl

section Rows

variable {ftEvents : List (Nep141EventKind × IndexerExecutionOutcomeWithReceipt)}
  {nftEvents : List (Nep171EventKind × IndexerExecutionOutcomeWithReceipt)} {blockTimestamp shardId : Nat}

/-- What holds of the rows of some events, when it is a matter of the entry and its outcome. -/
theorem forall_rows_iff {ε α ρ : Type} {entriesOf : ε → List α}
    {row : (α × IndexerExecutionOutcomeWithReceipt) × Nat → ρ} {safe : ρ → Prop}
    (safeEntry : α → IndexerExecutionOutcomeWithReceipt → Prop)
    (hrow : ∀ entry outcome index, safe (row ((entry, outcome), index)) ↔ safeEntry entry outcome)
    (events : List (ε × IndexerExecutionOutcomeWithReceipt)) :
    (∀ r ∈ (events.flatMap fun (event, outcome) => (entriesOf event).map (·, outcome)).zipIdx.map row, safe r) ↔
      ∀ event outcome, (event, outcome) ∈ events → ∀ entry ∈ entriesOf event, safeEntry entry outcome := by
  constructor
  · intro h event outcome hevent entry hentry
    have hmem : (entry, outcome) ∈ events.flatMap fun (event, outcome) => (entriesOf event).map (·, outcome) :=
      List.mem_flatMap.mpr ⟨(event, outcome), hevent, List.mem_map_of_mem hentry⟩
    obtain ⟨index, hindex⟩ := List.mem_iff_getElem?.mp hmem
    have hzip := List.mk_mem_zipIdx_iff_getElem?.mpr hindex
    exact (hrow entry outcome index).mp (h _ (List.mem_map_of_mem hzip))
  · intro h r hr
    obtain ⟨⟨⟨entry, outcome⟩, index⟩, hzip, rfl⟩ := List.mem_map.mp hr
    obtain ⟨⟨event, source⟩, hevent, hentry⟩ := List.mem_flatMap.mp (List.fst_mem_of_mem_zipIdx hzip)
    obtain ⟨other, hother, heq⟩ := List.mem_map.mp hentry
    cases heq
    exact (hrow entry outcome index).mpr (h event outcome hevent entry hother)

/-- Of the texts of a fungible token event, the amount is stored as it is. -/
theorem nullFree_ftRows_iff (hreceivers : ∀ event outcome, (event, outcome) ∈ ftEvents →
      NullFree outcome.receipt.receiverId) :
    (∀ row ∈ composeFtDbEvents ftEvents blockTimestamp shardId, ∀ text ∈ textsOfFtRow row, NullFree text) ↔
      ∀ event outcome, (event, outcome) ∈ ftEvents → ∀ amount ∈ amounts event, NullFree amount := by
  unfold composeFtDbEvents
  rw [forall_rows_iff (fun entry outcome => NullFree outcome.receipt.receiverId ∧ NullFree entry.amount)]
  · refine forall₃_congr fun event outcome hevent => ?_
    rw [← amounts_eq, List.forall_mem_map]
    refine forall₂_congr fun entry _ => ?_
    exact and_iff_right (hreceivers event outcome hevent)
  · intro entry outcome index
    simp only [textsOfFtRow, List.forall_mem_cons, CryptoHash.nullFree, nullFree_escapeDefault, true_and]
    simp

/-- All texts of a non-fungible token event are escaped, but for the id of the contract. -/
theorem nullFree_nftRows (hreceivers : ∀ event outcome, (event, outcome) ∈ nftEvents →
      NullFree outcome.receipt.receiverId) :
    ∀ row ∈ composeNftDbEvents nftEvents blockTimestamp shardId, ∀ text ∈ textsOfNftRow row, NullFree text := by
  unfold composeNftDbEvents
  rw [forall_rows_iff (fun _ outcome => NullFree outcome.receipt.receiverId)]
  · exact fun event outcome hevent _ _ => hreceivers event outcome hevent
  · intro entry outcome index
    simp only [textsOfNftRow, List.forall_mem_cons, CryptoHash.nullFree, nullFree_escapeDefault, true_and]
    simp

/-- The rows of a shard's events have no null character exactly when no amount of a fungible token event has one. -/
theorem event_rows_nullFree_iff
    (hreceivers : ∀ outcome, outcome ∈ ftEvents.map (·.2) ∨ outcome ∈ nftEvents.map (·.2) →
      NullFree outcome.receipt.receiverId) :
    ((∀ row ∈ composeFtDbEvents ftEvents blockTimestamp shardId, ∀ text ∈ textsOfFtRow row, NullFree text) ∧
      ∀ row ∈ composeNftDbEvents nftEvents blockTimestamp shardId, ∀ text ∈ textsOfNftRow row, NullFree text) ↔
      ∀ event outcome, (event, outcome) ∈ ftEvents → ∀ amount ∈ amounts event, NullFree amount := by
  rw [and_iff_left (nullFree_nftRows fun event outcome hevent => hreceivers outcome (.inr ?_)),
    nullFree_ftRows_iff fun event outcome hevent => hreceivers outcome (.inl ?_)]
  · exact List.mem_map_of_mem hevent
  · exact List.mem_map_of_mem hevent

/-- The outcome of a receipt of the contract. -/
def tokenOutcome : IndexerExecutionOutcomeWithReceipt :=
  .plain (.ofText "block") (.plain (.ofText "receipt") "token.near" []) []

/-- The owner of a mint is a text like any other: with null characters everywhere but in the amount the rows are
safe. -/
theorem null_owner_escaped :
    (∀ row ∈ composeFtDbEvents [(.ftMint [⟨String.singleton nullCharacter, "10", String.singleton nullCharacter⟩],
        tokenOutcome)] 5 0, ∀ text ∈ textsOfFtRow row, NullFree text) ∧
      ∀ row ∈ composeNftDbEvents [(.nftMint [⟨String.singleton nullCharacter, [String.singleton nullCharacter], none⟩],
        tokenOutcome)] 5 0, ∀ text ∈ textsOfNftRow row, NullFree text := by
  refine (event_rows_nullFree_iff ?_).mpr ?_
  · rintro outcome (hft | hnft)
    · rw [List.mem_singleton.mp hft]
      decide
    · rw [List.mem_singleton.mp hnft]
      decide
  · intro event outcome hevent
    cases List.mem_singleton.mp hevent
    decide

/-- The amount of a mint is stored as the contract wrote it. -/
theorem null_amount_stored :
    ¬ ∀ (ftEvents : List (Nep141EventKind × IndexerExecutionOutcomeWithReceipt))
      (nftEvents : List (Nep171EventKind × IndexerExecutionOutcomeWithReceipt)) (blockTimestamp shardId : Nat),
      (∀ outcome, outcome ∈ ftEvents.map (·.2) ∨ outcome ∈ nftEvents.map (·.2) →
        NullFree outcome.receipt.receiverId) →
      (∀ row ∈ composeFtDbEvents ftEvents blockTimestamp shardId, ∀ text ∈ textsOfFtRow row, NullFree text) ∧
        ∀ row ∈ composeNftDbEvents nftEvents blockTimestamp shardId, ∀ text ∈ textsOfNftRow row, NullFree text := by
  intro h
  have hrows := (h [(.ftMint [⟨"alice.near", String.singleton nullCharacter, none⟩], tokenOutcome)] [] 5 0 (by
    rintro outcome (hft | hnft)
    · rw [List.mem_singleton.mp hft]
      decide
    · exact (List.not_mem_nil hnft).elim)).1
  exact absurd (hrows _ List.mem_cons_self (String.singleton nullCharacter) (by decide)) (by decide)

end Rows

end Events

end ExplorerIndexer
