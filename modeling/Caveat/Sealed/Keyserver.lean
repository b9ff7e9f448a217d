import Caveat.Js.Uri
import Caveat.Js.Decoder
import Caveat.Js.Stringify
import Caveat.Lib.Base64
import Mathlib.Data.List.Infix

/-!
# The key server

A reader of a bundle asks a server for its key, and the id of the key is a part of the path that it asks
for. The server reads the id from the path and answers with the key that is stored under it.
-/

namespace Caveat.Sealed.Keyserver

open Js Lib

variable (doubles : Doubles)

/-- The string of a text of the source. -/
def str (s : String) : Units := unitsOf s.toList

/-- A stored key. -/
structure ContentKey where
  bytes : Bytes
  length_eq : bytes.length = 32
deriving DecidableEq

/-! ## The server -/

structure Response where
  status : Nat
  body : Bytes
deriving DecidableEq

/-- `response.ok`. -/
def Response.ok (response : Response) : Bool := 200 ≤ response.status && response.status < 300

def jsonResponse (members : List (Units × Json)) (status : Nat) : Response :=
  ⟨status, encodeUtf8 (stringify doubles (.object members))⟩

def maxIdLength : Nat := 128

/-- `KEY_PATH_PATTERN`: its group. -/
def keyPathId (pathname : Text) : Option Text :=
  let start := "/v1/keys/".toList
  let rest := pathname.drop start.length
  if start.isPrefixOf pathname && rest ≠ [] && !rest.contains '/' then some rest else none

def isValidId (id : Units) : Bool :=
  id.length ≠ 0 && id.length ≤ maxIdLength && !id.contains (unitOf '/') &&
    !id.contains (unitOf '\\') && !decide (str ".." <:+: id)

/-- `env.KEYS.get(id)`: the keys are stored as base64. -/
def kvGet (keys : Units → Option ContentKey) (id : Units) : Option Units :=
  (keys id).map (fun key => unitsOf (Base64.encode key.bytes))

/-- The answer to an id that could be read. -/
def answerId (keys : Units → Option ContentKey) (id : Units) : Response :=
  if isValidId id then
    match kvGet keys id with
    | none => jsonResponse doubles [(str "error", .string (str "not found"))] 404
    | some key => jsonResponse doubles [(str "keyId", .string id), (str "key", .string key)] 200
  else jsonResponse doubles [(str "error", .string (str "invalid id"))] 400

/-- `handleKeyRequest`, with the path of the URL of the request. -/
def handleKeyRequest (keys : Units → Option ContentKey) (method path : Text) : Response :=
  if method = "GET".toList then
    match keyPathId (urlPathname path) with
    | none => jsonResponse doubles [(str "error", .string (str "not found"))] 404
    | some rawId =>
        match decodeURIComponent rawId with
        | none => jsonResponse doubles [(str "error", .string (str "malformed id"))] 400
        | some id => answerId doubles keys id
  else jsonResponse doubles [(str "error", .string (str "method not allowed"))] 405

/-! ## The client -/

inductive SealedKeyErrorCode where
  | keyUnavailable
  | keyInvalid
  | malformedKeyId
deriving DecidableEq

def keyIdPrefix : Units := str "keyserver:"

def parseKeyserverKeyId (keyId : Units) : Except SealedKeyErrorCode Units :=
  let bareId := keyId.drop keyIdPrefix.length
  if !keyIdPrefix.isPrefixOf keyId || keyId.length = keyIdPrefix.length then .error .malformedKeyId
  else if bareId.contains (unitOf '/') || bareId.contains (unitOf '\\') ||
      decide (str ".." <:+: bareId) then .error .malformedKeyId
  else .ok bareId

/-- `[A-Za-z0-9+/]`. -/
def isBase64Char (c : Char) : Bool := c.isAlphanum || c = '+' || c = '/'

/-- `/^(?:[A-Za-z0-9+/]{4})*(?:[A-Za-z0-9+/]{2}==|[A-Za-z0-9+/]{3}=)?$/`. -/
def isBase64 : Text → Bool
  | [] => true
  | [a, b, c, d] =>
      isBase64Char a && isBase64Char b &&
        (isBase64Char c && (isBase64Char d || d = '=') || c = '=' && d = '=')
  | a :: b :: c :: d :: rest =>
      isBase64Char a && isBase64Char b && isBase64Char c && isBase64Char d && isBase64 rest
  | _ => false

def decodeBase64Key (value : Option Json) : Except SealedKeyErrorCode Bytes :=
  match value with
  | some (.string s) =>
      let text := s.map (fun u => Char.ofNat u.toNat)
      if isBase64 text then
        let key := Base64.decode text
        if key.length = 32 then .ok key else .error .keyInvalid
      else .error .keyInvalid
  | _ => .error .keyInvalid

/-- The path that the client asks for, behind the address of the server. -/
def requestPath (bareId : Units) : Option Text :=
  (encodeURIComponent bareId).map (fun id => "/v1/keys/".toList ++ id)

/-- `response.json()`: a mark at the start is dropped. -/
def responseJson (body : Bytes) : Option Json :=
  parseJson doubles.round (decodeUtf8 (if body.take 3 = bom then body.drop 3 else body))

/-- What the client makes of an answer. -/
def readResponse (bareId : Units) (response : Response) : Except SealedKeyErrorCode Bytes :=
  if response.ok then
    match responseJson doubles response.body with
    | none => .error .keyInvalid
    | some parsed =>
        match parsed.member? "keyId".toList with
        | some (.string id) =>
            if id = bareId then decodeBase64Key (parsed.member? "key".toList)
            else .error .keyInvalid
        | _ => .error .keyInvalid
  else .error .keyUnavailable

/-- `fetchKey`. The URL of the request has its path already normalised. -/
def fetchKey (keys : Units → Option ContentKey) (keyId : Units) :
    Except SealedKeyErrorCode Bytes := do
  let bareId ← parseKeyserverKeyId keyId
  match requestPath bareId with
  | none => .error .keyUnavailable
  | some path =>
      readResponse doubles bareId (handleKeyRequest doubles keys "GET".toList (urlPathname path))

/-! ## Agreement -/

/-- The id that the handler reads from a path. -/
def routedId (path : Text) : Option Units :=
  (keyPathId (urlPathname path)).bind decodeURIComponent

/-- The request for an id is routed with that id, and the client takes every key it is answered. -/
structure Agrees (bareId : Units) : Prop where
  routed : ∀ path, requestPath bareId = some path → routedId (urlPathname path) = some bareId
  accepted : ∀ path keys, requestPath bareId = some path →
    (handleKeyRequest doubles keys "GET".toList (urlPathname path)).ok = true →
      ∃ key, keys bareId = some key ∧ readResponse doubles bareId
        (handleKeyRequest doubles keys "GET".toList (urlPathname path)) = .ok key.bytes

/-- A stored key can be fetched. -/
def Fetches (keyId bareId : Units) : Prop :=
  ∀ keys key, keys bareId = some key → fetchKey doubles keys keyId = .ok key.bytes

end Caveat.Sealed.Keyserver
