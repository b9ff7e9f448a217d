import Caveat.Lib.Base64
import Caveat.Js.Json
import Mathlib.Data.List.Sort

/-!
# Sealed bundles

A bundle is a magic, a version, a JSON header and an encrypted payload. The payload has one JSON
row for each file, ordered by the bytes of the paths, and the nonce is derived from it. The
cryptographic functions are parameters.
-/

namespace Caveat.Sealed

open Js

/-! ## Errors -/

inductive SealedBundleErrorCode where
  | badMagic | unsupportedVersion | malformedHeader | authFailed | invalidRelPath
  | duplicateRelPath | entryCountMismatch | sealInvariantViolation
deriving DecidableEq

inductive SealedBundleError where
  | sealed (code : SealedBundleErrorCode) (message : Units)
  /-- A length that does not fit into 32 bits. -/
  | range
deriving DecidableEq

def errorWith {α : Type} (code : SealedBundleErrorCode) (message : String) :
    Except SealedBundleError α := .error (.sealed code (unitsOf message.toList))

/-! ## Cryptographic functions -/

structure Crypto where
  /-- Key, salt and information; 32 bytes. -/
  hkdf : Bytes → Text → Text → Bytes
  /-- HMAC-SHA256 of a key and a message. -/
  hmac : Bytes → Bytes → Bytes
  /-- Key, nonce, associated data and plaintext; the ciphertext and the tag. -/
  encrypt : Bytes → Bytes → Bytes → Bytes → Bytes × Bytes
  /-- Key, nonce, associated data, ciphertext and tag. -/
  decrypt : Bytes → Bytes → Bytes → Bytes → Bytes → Option Bytes

/-- What AES-256-GCM and HMAC-SHA256 are documented to do. -/
structure Crypto.Lawful (c : Crypto) : Prop where
  hmac_length : ∀ key message, (c.hmac key message).length = 32
  tag_length : ∀ key nonce aad plain, (c.encrypt key nonce aad plain).2.length = 16
  decrypt_encrypt : ∀ key nonce aad plain,
    c.decrypt key nonce aad (c.encrypt key nonce aad plain).1 (c.encrypt key nonce aad plain).2 =
      some plain

/-! ## Files -/

structure BundleFile where
  relPath : Units
  content : Bytes
deriving DecidableEq

/-- `/^[A-Za-z]:[\\/]/`. -/
def hasDrive : Units → Bool
  | letter :: colon :: slash :: _ =>
      isAsciiLetter letter && colon = unitOf ':' && (slash = unitOf '\\' || slash = unitOf '/')
  | _ => false

def badSegment (segment : Units) : Bool :=
  segment = [] || segment = [unitOf '.'] || segment = [unitOf '.', unitOf '.']

/-- The paths that `assertRelPath` lets pass. -/
def validRelPath (relPath : Units) : Bool :=
  !(relPath.length = 0 || !isWellFormed relPath || hasDrive relPath ||
    relPath.contains (unitOf '\\') || (relPath.splitOn (unitOf '/')).any badSegment)

def assertRelPath (relPath : Units) : Except SealedBundleError Unit :=
  if validRelPath relPath then .ok ()
  else .error (.sealed .invalidRelPath (unitsOf "invalid relPath: ".toList ++ relPath))

/-- Check one path after those seen so far. -/
def assertNewRelPath (seen : List Units) (relPath : Units) : Except SealedBundleError Unit := do
  assertRelPath relPath
  if seen.any (fun other => other = relPath) then
    .error (.sealed .duplicateRelPath (unitsOf "duplicate relPath: ".toList ++ relPath))

def assertRelPaths (seen : List Units) : List BundleFile → Except SealedBundleError Unit
  | [] => .ok ()
  | file :: files => do
      assertNewRelPath seen file.relPath
      assertRelPaths (file.relPath :: seen) files

/-- `Buffer.compare(a, b) <= 0`. -/
def bytesLe : Bytes → Bytes → Bool
  | [], _ => true
  | _ :: _, [] => false
  | a :: as, b :: bs => a.toNat < b.toNat || (a = b && bytesLe as bs)

/-- Sorted by the bytes of the paths. -/
def sortFiles (files : List BundleFile) : List BundleFile :=
  files.insertionSort (fun a b => bytesLe (toUtf8 a.relPath) (toUtf8 b.relPath) = true)

def canonicalizeFiles (files : List BundleFile) : Except SealedBundleError (List BundleFile) := do
  assertRelPaths [] files
  return sortFiles files

/-- One row of the payload, without its line break. -/
def rowText (file : BundleFile) : Text :=
  "\x7b\"relPath\":".toList ++ quote file.relPath ++ ",\"content\":".toList ++
    quote (unitsOf (Lib.Base64.encode file.content)) ++ "\x7d".toList

def payloadOf (files : List BundleFile) : Bytes :=
  encodeUtf8 (files.flatMap (fun file => rowText file ++ ['\n']))

/-- `buildCanonicalPayload`. -/
def buildCanonicalPayload (files : List BundleFile) : Except SealedBundleError Bytes := do
  let sorted ← canonicalizeFiles files
  return payloadOf sorted

/-! ## Framing -/

/-- `writeUInt32LE`. -/
def writeUInt32LE (n : Nat) : Except SealedBundleError Bytes :=
  if n < 2 ^ 32 then
    .ok [UInt8.ofNat (n % 256), UInt8.ofNat (n / 256 % 256), UInt8.ofNat (n / 65536 % 256),
      UInt8.ofNat (n / 16777216)]
  else .error .range

def readUInt32LE : Bytes → Nat
  | a :: b :: c :: d :: _ => a.toNat + b.toNat * 256 + c.toNat * 65536 + d.toNat * 16777216
  | _ => 0

def frame (bytes : Bytes) : Except SealedBundleError Bytes := do
  let len ← writeUInt32LE bytes.length
  return len ++ bytes

def contentKeyBytes : Nat := 32
def gcmTagBytes : Nat := 16
def nonceBytes : Nat := 12
def headerPrefixBytes : Nat := 9
def sealedFormatVersion : Nat := 1
def sealedMagicBytes : Bytes := encodeUtf8 "CVLT".toList
def sealedAlg : Units := unitsOf "aes-256-gcm".toList

structure SealedHeader where
  formatVersion : Nat
  alg : Units
  keyId : Units
  keyserverUrl : Units
  nonce : Units
  entryCount : Nat
deriving DecidableEq

def assertContentKey (contentKey : Bytes) : Except SealedBundleError Unit :=
  if contentKey.length = contentKeyBytes then .ok ()
  else errorWith .authFailed "contentKey must be exactly 32 bytes"

/-- The text of a nonce. -/
def base64Units (bytes : Bytes) : Units := unitsOf (Lib.Base64.encode bytes)

/-- `Buffer.from(s, 'base64')`. -/
def fromBase64 (s : Units) : Bytes := Lib.Base64.decode (s.map (fun u => Char.ofNat u.toNat))

def serializeHeader (header : SealedHeader) : Bytes :=
  encodeUtf8 ("\x7b\"formatVersion\":".toList ++ ofNat header.formatVersion ++
    ",\"alg\":".toList ++ quote header.alg ++ ",\"keyId\":".toList ++ quote header.keyId ++
    ",\"keyserverUrl\":".toList ++ quote header.keyserverUrl ++
    ",\"nonce\":".toList ++ quote header.nonce ++
    ",\"entryCount\":".toList ++ ofNat header.entryCount ++ "\x7d".toList)

section Crypto

variable (c : Crypto)

def deriveKey (contentKey : Bytes) (info : String) : Bytes :=
  c.hkdf contentKey "caveat-sealed-v1".toList info.toList

/-- The first bytes of a keyed hash of what is sealed. -/
def deriveNonce (nonceKey : Bytes) (formatVersion : Nat) (keyId keyserverUrl : Units)
    (canonicalPayload : Bytes) : Except SealedBundleError Bytes := do
  let version ← frame [UInt8.ofNat formatVersion]
  let key ← frame (toUtf8 keyId)
  let url ← frame (toUtf8 keyserverUrl)
  let payload ← frame canonicalPayload
  return (c.hmac nonceKey (version ++ key ++ url ++ payload)).take nonceBytes

/-- The header of the files under a nonce. -/
def headerFor (files : List BundleFile) (keyId keyserverUrl : Units) (nonce : Bytes) :
    SealedHeader :=
  { formatVersion := sealedFormatVersion, alg := sealedAlg, keyId, keyserverUrl
    nonce := base64Units nonce, entryCount := files.length }

/-- `sealBundle`. -/
def sealBundle (files : List BundleFile) (contentKey : Bytes) (keyId keyserverUrl : Units) :
    Except SealedBundleError Bytes := do
  assertContentKey contentKey
  let canonicalPayload ← buildCanonicalPayload files
  let encKey := deriveKey c contentKey "enc"
  let nonceKey := deriveKey c contentKey "nonce"
  let nonce ← deriveNonce c nonceKey sealedFormatVersion keyId keyserverUrl canonicalPayload
  let headerBytes := serializeHeader (headerFor files keyId keyserverUrl nonce)
  let headerLen ← writeUInt32LE headerBytes.length
  let (ciphertext, tag) := c.encrypt encKey nonce headerBytes canonicalPayload
  return sealedMagicBytes ++ [UInt8.ofNat sealedFormatVersion] ++ headerLen ++ headerBytes ++
    ciphertext ++ tag

/-! ## Reading -/

variable (round : Rat → JsNumber)

/-- A number that is an integer and not negative. -/
def natural? : JsNumber → Option Nat
  | .finite q => if q.den = 1 ∧ 0 ≤ q.num then some q.num.toNat else none
  | _ => none

def isOne : JsNumber → Bool
  | .finite q => q = 1
  | _ => false

/-- The fields of a header, if they are what they should be. -/
def headerFields (v : Json) : Option SealedHeader :=
  match v.member? "formatVersion".toList, v.member? "alg".toList, v.member? "keyId".toList,
    v.member? "keyserverUrl".toList, v.member? "nonce".toList, v.member? "entryCount".toList with
  | some (.number version), some (.string alg), some (.string keyId),
    some (.string keyserverUrl), some (.string nonce), some (.number count) =>
      match natural? count with
      | some entryCount =>
          if isOne version && alg = sealedAlg then
            some { formatVersion := sealedFormatVersion, alg, keyId, keyserverUrl, nonce,
                   entryCount }
          else none
      | none => none
  | _, _, _, _, _, _ => none

/-- A nonce is spelled as it is written. -/
def isNonceText (nonce : Units) : Bool :=
  (fromBase64 nonce).length = nonceBytes && base64Units (fromBase64 nonce) = nonce

def isJsonObject : Json → Bool
  | .object _ => true
  | .array _ => true
  | _ => false

def parseHeaderBytes (headerBytes : Bytes) : Except SealedBundleError SealedHeader :=
  match parseJson round (decodeUtf8 headerBytes) with
  | none => errorWith .malformedHeader "sealed bundle header is not valid JSON"
  | some v =>
      if !isJsonObject v then errorWith .malformedHeader "sealed bundle header must be an object"
      else
        match headerFields v with
        | none => errorWith .malformedHeader "sealed bundle header has invalid fields"
        | some header =>
            if isNonceText header.nonce then .ok header
            else errorWith .malformedHeader
              "sealed bundle header nonce must be base64-encoded 12 bytes"

/-- `unsupported sealed bundle formatVersion ${formatVersion}`. -/
def unsupportedVersion (formatVersion : Nat) : Units :=
  unitsOf ("unsupported sealed bundle formatVersion ".toList ++ ofNat formatVersion)

def upgradeAdvice : Units := unitsOf "; caveat をアップグレードせよ".toList

structure ReadHeader where
  header : SealedHeader
  headerBytes : Bytes
  payloadOffset : Nat

/-- `readSealedHeader`. -/
def readSealedHeader (bundle : Bytes) : Except SealedBundleError ReadHeader :=
  if bundle.length < headerPrefixBytes then
    errorWith .malformedHeader "sealed bundle is too short"
  else if bundle.take 4 ≠ sealedMagicBytes then
    errorWith .badMagic "sealed bundle magic is not CVLT"
  else
    let formatVersion := (bundle.getD 4 0).toNat
    if sealedFormatVersion < formatVersion then
      .error (.sealed .unsupportedVersion (unsupportedVersion formatVersion ++ upgradeAdvice))
    else if formatVersion ≠ sealedFormatVersion then
      .error (.sealed .unsupportedVersion (unsupportedVersion formatVersion))
    else
      let headerLen := readUInt32LE (bundle.drop 5)
      let payloadOffset := headerPrefixBytes + headerLen
      if headerLen = 0 ∨ bundle.length < payloadOffset ∨
          bundle.length - payloadOffset < gcmTagBytes then
        errorWith .malformedHeader "sealed bundle header length is out of bounds"
      else
        let headerBytes := (bundle.drop headerPrefixBytes).take headerLen
        match parseHeaderBytes round headerBytes with
        | .error e => .error e
        | .ok header => .ok { header, headerBytes, payloadOffset }

/-- `header entryCount ${entryCount} does not match ${rows} payload rows`. -/
def countMismatch (entryCount rows : Nat) : SealedBundleError :=
  .sealed .entryCountMismatch (unitsOf ("header entryCount ".toList ++ ofNat entryCount ++
    " does not match ".toList ++ ofNat rows ++ " payload rows".toList))

/-- One row of a payload. -/
def parseRow (row : Text) : Except SealedBundleError BundleFile :=
  match parseJson round row with
  | none => errorWith .malformedHeader "sealed bundle payload row is not valid JSON"
  | some v =>
      match v.member? "relPath".toList, v.member? "content".toList with
      | some (.string relPath), some (.string content) =>
          .ok { relPath, content := fromBase64 content }
      | _, _ => errorWith .malformedHeader "sealed bundle payload row has invalid fields"

def parseRows (seen : List Units) : List Text → Except SealedBundleError (List BundleFile)
  | [] => .ok []
  | row :: rows => do
      let file ← parseRow round row
      assertNewRelPath seen file.relPath
      let files ← parseRows (file.relPath :: seen) rows
      return file :: files

def parsePayload (payload : Bytes) (entryCount : Nat) :
    Except SealedBundleError (List BundleFile) :=
  if payload = [] then
    if entryCount ≠ 0 then .error (countMismatch entryCount 0) else .ok []
  else if payload.getLast? ≠ some 0x0a then
    errorWith .malformedHeader "sealed bundle payload must be newline-terminated JSON Lines"
  else
    let rows := ((decodeUtf8 payload).splitOn '\n').dropLast
    if rows.length ≠ entryCount then .error (countMismatch entryCount rows.length)
    else parseRows round [] rows

/-- What `unsealBundle` returns. -/
structure Unsealed where
  header : SealedHeader
  files : List BundleFile
deriving DecidableEq

/-- `unsealBundle`. -/
def unsealBundle (bundle contentKey : Bytes) : Except SealedBundleError Unsealed := do
  assertContentKey contentKey
  let { header, headerBytes, payloadOffset } ← readSealedHeader round bundle
  let encKey := deriveKey c contentKey "enc"
  let nonceKey := deriveKey c contentKey "nonce"
  let nonce := fromBase64 header.nonce
  let ciphertext := (bundle.take (bundle.length - gcmTagBytes)).drop payloadOffset
  let tag := bundle.drop (bundle.length - gcmTagBytes)
  match c.decrypt encKey nonce headerBytes ciphertext tag with
  | none => errorWith .authFailed "sealed bundle authentication failed"
  | some plaintext => do
      let expectedNonce ← deriveNonce c nonceKey header.formatVersion header.keyId
        header.keyserverUrl plaintext
      if expectedNonce ≠ nonce then
        errorWith .sealInvariantViolation
          "sealed bundle nonce does not match decrypted canonical payload"
      let files ← parsePayload round plaintext header.entryCount
      return { header, files }

end Crypto

end Caveat.Sealed
