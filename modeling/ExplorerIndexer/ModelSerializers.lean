import ExplorerIndexer.ModelEvents

/-! The JSON stored with actions. Texts chosen by contracts are escaped, since the database takes no
null character; what third-party crates decode is a parameter. -/

namespace ExplorerIndexer

/-- `serde_json::Value`; a number is kept as its literal. -/
inductive Json where
  | null
  | bool (value : Bool)
  | number (literal : String)
  | string (value : String)
  | array (values : List Json)
  | object (entries : List (String × Json))

/-- Decoders of third-party crates. -/
structure Decoders where
  /-- `hex::decode`, `ED25519PublicKey::try_from` and the text of the key, in this order. -/
  implicitPublicKey : AccountId → Option PublicKey
  base64Decode : String → Option (List UInt8)
  jsonFromSlice : List UInt8 → Option Json
  nearEventFromStr : String → Option NearEvent

/-- Decoders that find nothing to decode. -/
def Decoders.silent : Decoders where
  implicitPublicKey _ := none
  base64Decode _ := none
  jsonFromSlice _ := none
  nearEventFromStr _ := none

namespace Models

def hexDigits (n : Nat) : List Char := Nat.toDigits 16 n

/-- `char::escape_default` -/
def escapeChar (c : Char) : List Char :=
  let backslash := Char.ofNat 92
  match c.toNat with
  | 9 => [backslash, 't']
  | 10 => [backslash, 'n']
  | 13 => [backslash, 'r']
  | 34 | 39 | 92 => [backslash, c]
  | n => if 32 ≤ n ∧ n ≤ 126 then [c]
      else [backslash, 'u', Char.ofNat 123] ++ hexDigits n ++ [Char.ofNat 125]

/-- `str::escape_default` -/
def escapeDefault (s : String) : String := String.ofList (s.toList.flatMap escapeChar)

mutual

def escapeJson : Json → Json
  | .object entries => .object (escapeEntries entries)
  | .array values => .array (escapeValues values)
  | .string value => .string (escapeDefault value)
  | .null => .null
  | .bool value => .bool value
  | .number literal => .number literal

def escapeValues : List Json → List Json
  | [] => []
  | element :: values => escapeJson element :: escapeValues values

def escapeEntries : List (String × Json) → List (String × Json)
  | [] => []
  | (key, val) :: entries => (key, escapeJson val) :: escapeEntries entries

end

/-- `hex::encode` -/
def hexEncode (bytes : List UInt8) : String :=
  String.ofList (bytes.flatMap fun b => hexDigits (b.toNat / 16) ++ hexDigits (b.toNat % 16))

inductive ActionKind where
  | createAccount
  | deployContract
  | functionCall
  | transfer
  | stake
  | addKey
  | deleteKey
  | deleteAccount
  deriving DecidableEq

/-- The permission, with the texts chosen by the user escaped. -/
def permissionJson : AccessKeyPermissionView → Json
  | .functionCall allowance receiverId methodNames =>
      .object [("permission_kind", .string "FUNCTION_CALL"),
        ("permission_details", .object [
          ("allowance", (allowance.map fun n => Json.string (toString n)).getD .null),
          ("receiver_id", .string (escapeDefault receiverId)),
          ("method_names", .array (methodNames.map fun name => .string (escapeDefault name)))])]
  | .fullAccess => .object [("permission_kind", .string "FULL_ACCESS")]

def accessKeyJson (accessKey : AccessKeyView) : Json :=
  .object [("nonce", .number (toString accessKey.nonce)),
    ("permission", permissionJson accessKey.permission)]

def extractActionTypeAndValueFromActionView (decoders : Decoders) : ActionView → ActionKind × Json
  | .createAccount => (.createAccount, .object [])
  | .deployContract code => (.deployContract, .object [("code_sha256", .string (hexEncode code))])
  | .functionCall methodName args gas deposit =>
      let arguments := [("method_name", .string (escapeDefault methodName)),
        ("args_base64", .string args), ("gas", .number (toString gas)),
        ("deposit", .string (toString deposit))]
      match (decoders.base64Decode args).bind decoders.jsonFromSlice with
      | some argsJson => (.functionCall, .object (arguments ++ [("args_json", escapeJson argsJson)]))
      | none => (.functionCall, .object arguments)
  | .transfer deposit => (.transfer, .object [("deposit", .string (toString deposit))])
  | .stake stake publicKey =>
      (.stake, .object [("stake", .string (toString stake)), ("public_key", .string publicKey)])
  | .addKey publicKey accessKey =>
      (.addKey, .object [("public_key", .string publicKey), ("access_key", accessKeyJson accessKey)])
  | .deleteKey publicKey => (.deleteKey, .object [("public_key", .string publicKey)])
  | .deleteAccount beneficiaryId =>
      (.deleteAccount, .object [("beneficiary_id", .string beneficiaryId)])

end Models

end ExplorerIndexer
