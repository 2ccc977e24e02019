import ExplorerIndexer.EscapedArguments

/-! Stored actions can be read back. The kind of an action tells which fields its document has; amounts are decimal
texts, code is a hexadecimal text, and what users chose is escaped. What third-party crates make of the arguments of a
function call is stored beside them and need not be looked at. -/

namespace ExplorerIndexer

namespace Json

def field? (name : String) : Json → Option Json
  | .object entries => entries.lookup name
  | .null | .bool _ | .number _ | .string _ | .array _ => none

def text? : Json → Option String
  | .string value => some value
  | .null | .bool _ | .number _ | .array _ | .object _ => none

def literal? : Json → Option String
  | .number literal => some literal
  | .null | .bool _ | .string _ | .array _ | .object _ => none

def items? : Json → Option (List Json)
  | .array values => some values
  | .null | .bool _ | .number _ | .string _ | .object _ => none

end Json

namespace Models

open Codes

/-! ### Numbers and bytes -/

def readNat (text : String) : Nat := Nat.ofDigitChars 10 text.toList 0

@[simp] theorem readNat_repr (n : Nat) : readNat n.repr = n := by
  show Nat.ofDigitChars 10 (String.ofList (Nat.toDigits 10 n)).toList 0 = n
  rw [String.toList_ofList, Nat.ofDigitChars_ten_toDigits]

/-- A reader of bytes waits for the first digit or, with its value, for the second one. -/
def hexStep : Option Nat → Char → Option Nat × List UInt8
  | none, digit => (some (hexDigitValue digit), [])
  | some high, digit => (none, [UInt8.ofNat (16 * high + hexDigitValue digit)])

def hexDecoder : StreamDecoder (Option Nat) UInt8 Char where
  start := none
  step := hexStep

def hexDecode (text : String) : List UInt8 := hexDecoder.decode text.toList

theorem hexDigitValue_digitChar {digit : Nat} (h : digit < 16) : hexDigitValue digit.digitChar = digit := by
  revert digit
  decide

theorem hexDecoder_decodes :
    hexDecoder.Decodes fun b : UInt8 => hexDigits (b.toNat / 16) ++ hexDigits (b.toNat % 16) := by
  intro b
  have hhigh : b.toNat / 16 < 16 := by
    have hbyte := b.toNat_lt
    omega
  have hlow : b.toNat % 16 < 16 := Nat.mod_lt _ (by decide)
  show hexDecoder.run none (hexDigits (b.toNat / 16) ++ hexDigits (b.toNat % 16)) = (none, [b])
  unfold hexDigits
  rw [Nat.toDigits_of_lt_base hhigh, Nat.toDigits_of_lt_base hlow]
  show ((none : Option Nat), [UInt8.ofNat _]) = _
  rw [hexDigitValue_digitChar hhigh, hexDigitValue_digitChar hlow, Nat.div_add_mod, UInt8.ofNat_toNat]

theorem hexDecode_hexEncode (bytes : List UInt8) : hexDecode (hexEncode bytes) = bytes := by
  rw [hexDecode, hexEncode, String.toList_ofList, hexDecoder_decodes.decode_flatMap]

/-! ### Access keys -/

def readAllowance : Json → Option (Option Nat)
  | .null => some none
  | json => json.text?.map fun text => some (readNat text)

def readText (json : Json) : Option String := json.text?.map unescapeDefault

def readPermission (json : Json) : Option AccessKeyPermissionView := do
  let kind ← (← json.field? "permission_kind").text?
  if kind = "FUNCTION_CALL" then
    let details ← json.field? "permission_details"
    let allowance ← readAllowance (← details.field? "allowance")
    let receiverId ← readText (← details.field? "receiver_id")
    let methodNames ← (← (← details.field? "method_names").items?).mapM readText
    return .functionCall allowance receiverId methodNames
  else if kind = "FULL_ACCESS" then
    return .fullAccess
  else
    none

def readAccessKey (json : Json) : Option AccessKeyView := do
  let nonce ← (← json.field? "nonce").literal?
  let permission ← readPermission (← json.field? "permission")
  return { nonce := readNat nonce, permission }

@[simp] theorem readAllowance_allowance (allowance : Option Nat) :
    readAllowance ((allowance.map fun n => Json.string n.repr).getD .null) = some allowance := by
  cases allowance with
  | none => rfl
  | some n => exact congrArg (some ∘ some) (readNat_repr n)

@[simp] theorem readText_escaped (text : String) : readText (.string (escapeDefault text)) = some text :=
  congrArg some (unescapeDefault_escapeDefault text)

@[simp] theorem mapM_readText (texts : List String) :
    texts.mapM (readText ∘ fun text => Json.string (escapeDefault text)) = some texts := by
  induction texts with
  | nil => rfl
  | cons text texts ih => simp [List.mapM_cons, ih]

@[simp] theorem readPermission_permissionJson (permission : AccessKeyPermissionView) :
    readPermission (permissionJson permission) = some permission := by
  cases permission with
  | functionCall allowance receiverId methodNames =>
      simp [readPermission, permissionJson, Json.field?, Json.text?, Json.items?, List.lookup_cons]
  | fullAccess => simp [readPermission, permissionJson, Json.field?, Json.text?, List.lookup_cons]

@[simp] theorem readAccessKey_accessKeyJson (accessKey : AccessKeyView) :
    readAccessKey (accessKeyJson accessKey) = some accessKey := by
  simp [readAccessKey, accessKeyJson, Json.field?, Json.literal?, List.lookup_cons]

/-! ### Actions -/

def readAction (actionKind : ActionKind) (args : Json) : Option ActionView :=
  match actionKind with
  | .createAccount => some .createAccount
  | .deployContract => do
      let code ← (← args.field? "code_sha256").text?
      return .deployContract (hexDecode code)
  | .functionCall => do
      let methodName ← readText (← args.field? "method_name")
      let argsBase64 ← (← args.field? "args_base64").text?
      let gas ← (← args.field? "gas").literal?
      let deposit ← (← args.field? "deposit").text?
      return .functionCall methodName argsBase64 (readNat gas) (readNat deposit)
  | .transfer => do
      let deposit ← (← args.field? "deposit").text?
      return .transfer (readNat deposit)
  | .stake => do
      let stake ← (← args.field? "stake").text?
      let publicKey ← (← args.field? "public_key").text?
      return .stake (readNat stake) publicKey
  | .addKey => do
      let publicKey ← (← args.field? "public_key").text?
      let accessKey ← readAccessKey (← args.field? "access_key")
      return .addKey publicKey accessKey
  | .deleteKey => do
      let publicKey ← (← args.field? "public_key").text?
      return .deleteKey publicKey
  | .deleteAccount => do
      let beneficiaryId ← (← args.field? "beneficiary_id").text?
      return .deleteAccount beneficiaryId

/-- What is stored with a function call, with the decoded arguments or without them. -/
theorem readAction_functionCall (methodName args : String) (gas deposit : Nat) (decoded : List (String × Json)) :
    readAction .functionCall (.object ([("method_name", .string (escapeDefault methodName)),
      ("args_base64", .string args), ("gas", .number (toString gas)), ("deposit", .string (toString deposit))] ++
        decoded)) = some (.functionCall methodName args gas deposit) := by
  simp [readAction, Json.field?, Json.text?, Json.literal?, List.lookup_cons]

/-- Whatever the crates decode, an action can be read back from its kind and its document. -/
theorem readAction_extractActionTypeAndValueFromActionView (decoders : Decoders) (action : ActionView) :
    readAction (extractActionTypeAndValueFromActionView decoders action).1
      (extractActionTypeAndValueFromActionView decoders action).2 = some action := by
  cases action with
  | createAccount => rfl
  | deployContract code => exact congrArg (some ∘ ActionView.deployContract) (hexDecode_hexEncode code)
  | functionCall methodName args gas deposit =>
      rw [extractActionTypeAndValueFromActionView]
      cases (decoders.base64Decode args).bind decoders.jsonFromSlice with
      | some argsJson => exact readAction_functionCall methodName args gas deposit _
      | none => exact readAction_functionCall methodName args gas deposit []
  | transfer deposit => exact congrArg (some ∘ ActionView.transfer) (readNat_repr deposit)
  | stake stake publicKey => exact congrArg (fun n => some (ActionView.stake n publicKey)) (readNat_repr stake)
  | addKey publicKey accessKey =>
      simp [extractActionTypeAndValueFromActionView, readAction, Json.field?, Json.text?, List.lookup_cons]
  | deleteKey publicKey => rfl
  | deleteAccount beneficiaryId => rfl

end Models

end ExplorerIndexer
