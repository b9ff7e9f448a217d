import Caveat.Js.Indented
import Caveat.Lib.Transition
import Caveat.Sealed.Keyserver
import Mathlib.Logic.Function.Basic

/-!
# Keys that are kept

A reader of sealed bundles fetches each key once and keeps it, in its memory and in a file. Several
readers may run at the same time, each of them with any number of calls that wait for an answer, and
they have the files in common. What a server answers is not known, nor in which order, and a file may
be removed at any time.
-/

namespace Caveat.Sealed.KeyProvider

open Js Lib
open Keyserver

/-- The URLs of the platform, and its digests. -/
structure Host where
  doubles : Doubles
  Url : Type
  /-- `new URL(text)`; `none` where it throws. -/
  parse : Units → Option Url
  protocol : Url → Units
  hostname : Url → Units
  pathname : Url → Units
  /-- `url.toString()`, with another path, and without a search or a hash. -/
  withPath : Url → Units → Units
  /-- `createHash('sha256').update(text).digest('hex').slice(0, 32)` -/
  digest : Units → Units

variable (host : Host)

/-- `.replace(/\/$/, '')` -/
def dropSlash (s : Units) : Units := if s.getLast? = some (unitOf '/') then s.dropLast else s

def isLoopback (hostname : Units) : Bool :=
  hostname = str "127.0.0.1" || hostname = str "::1" || hostname = str "localhost"

def normalizeKeyserverUrl (keyserverUrl : Units) : Except SealedKeyErrorCode Units :=
  match host.parse keyserverUrl with
  | none => .error .keyInvalid
  | some url =>
      let isLoopbackHttp := host.protocol url = str "http:" && isLoopback (host.hostname url)
      if host.protocol url ≠ str "https:" && !isLoopbackHttp then .error .keyInvalid
      else .ok (dropSlash (host.withPath url ((host.pathname url).rdropWhile (· = unitOf '/'))))

def memoryKey (keyserverUrl keyId : Units) : Units := keyserverUrl ++ unitOf '\n' :: keyId

/-- The name of the file, less its directory and its extension. -/
def cacheFilePath (keyserverUrl keyId : Units) : Units := host.digest (memoryKey keyserverUrl keyId)

/-! ## Files -/

def cacheMembers (keyserverUrl keyId key : Units) : List (Units × Units) :=
  [(str "keyserverUrl", keyserverUrl), (str "keyId", keyId), (str "key", key)]

/-- What `writeCache` writes. -/
def cacheText (keyserverUrl keyId : Units) (key : Bytes) : Bytes :=
  encodeUtf8 (indentedObject (cacheMembers keyserverUrl keyId (unitsOf (Base64.encode key))) ++ ['\n'])

/-- What `readCache` makes of a file; `none` is a file that is invalid. -/
def readCacheText (bytes : Bytes) (keyserverUrl keyId : Units) : Option Bytes :=
  match parseJson host.doubles.round (decodeUtf8 bytes) with
  | none => none
  | some parsed =>
      match parsed.member? "keyserverUrl".toList, parsed.member? "keyId".toList with
      | some (.string url), some (.string id) =>
          if url = keyserverUrl ∧ id = keyId then
            (decodeBase64Key (parsed.member? "key".toList)).toOption
          else none
      | _, _ => none

/-! ## Readers -/

inductive EnsureError where
  | sealedKey (code : SealedKeyErrorCode)
  | fileSystem
deriving DecidableEq

/-- Where a call of `ensureKeyAvailable` is. -/
inductive Phase where
  | readCache
  | removeInvalid
  | fetch
  | waiting (path : Text)
  | writeCache (key : Bytes)
  | available
  | failed (error : EnsureError)
deriving DecidableEq

/-- A call that has passed the checks of its arguments. -/
structure EnsureCall where
  keyId : Units
  /-- As it is normalised. -/
  url : Units
  bareId : Units
  phase : Phase
deriving DecidableEq

/-- What `createKeyserverKeyProvider` makes. -/
structure Provider where
  memory : Units → Option Bytes := fun _ => none
  calls : List EnsureCall := []

def Provider.resolveContentKey (p : Provider) (keyId keyserverUrl : Units) :
    Except SealedKeyErrorCode Bytes := do
  let url ← normalizeKeyserverUrl host keyserverUrl
  let _ ← parseKeyserverKeyId keyId
  match p.memory (memoryKey url keyId) with
  | none => .error .keyUnavailable
  | some key => .ok key

/-- The start of `ensureKeyAvailable`. -/
def Provider.ensureKeyAvailable (p : Provider) (keyId keyserverUrl : Units) :
    Except SealedKeyErrorCode Provider := do
  let url ← normalizeKeyserverUrl host keyserverUrl
  let bareId ← parseKeyserverKeyId keyId
  let phase := if (p.memory (memoryKey url keyId)).isSome then .available else .readCache
  return { p with calls := p.calls ++ [⟨keyId, url, bareId, phase⟩] }

def Provider.keep (p : Provider) (c : EnsureCall) (key : Bytes) : Provider :=
  { p with memory := Function.update p.memory (memoryKey c.url c.keyId) (some key) }

def Provider.move (p : Provider) (j : Nat) (c : EnsureCall) (phase : Phase) : Provider :=
  { p with calls := p.calls.set j { c with phase := phase } }

/-! ## The system -/

/-- What a server answered to a request. -/
structure Answer where
  url : Units
  path : Text
  response : Response

structure State where
  providers : Nat → Provider := fun _ => {}
  /-- The files of the directory `keys`. -/
  files : Units → Option Bytes := fun _ => none
  answers : List Answer := []

/-- `createCachedContentKeyProvider`: a reader of the files. -/
def resolveCachedKey (s : State) (keyId keyserverUrl : Units) : Except SealedKeyErrorCode Bytes := do
  let url ← normalizeKeyserverUrl host keyserverUrl
  let _ ← parseKeyserverKeyId keyId
  match (s.files (cacheFilePath host url keyId)).bind (readCacheText host · url keyId) with
  | none => .error .keyUnavailable
  | some key => .ok key

inductive Action where
  /-- A reader calls `ensureKeyAvailable`. -/
  | ensure (i : Nat) (keyId keyserverUrl : Units)
  /-- A call reads its file, or fails to. -/
  | read (i j : Nat) (fails : Bool)
  | remove (i j : Nat) (fails : Bool)
  | request (i j : Nat)
  /-- An answer comes, or none in time. -/
  | respond (i j : Nat) (response : Option Response)
  | write (i j : Nat) (fails : Bool)
  /-- A reader ends. -/
  | stop (i : Nat)
  /-- Somebody removes a file. -/
  | removeFile (name : Units)

def State.setProvider (s : State) (i : Nat) (p : Provider) : State :=
  { s with providers := Function.update s.providers i p }

/-- The reading of a file. -/
def readStep (s : State) (p : Provider) (j : Nat) (c : EnsureCall) (fails : Bool) : Provider :=
  if fails then p.move j c .removeInvalid
  else
    match s.files (cacheFilePath host c.url c.keyId) with
    | none => p.move j c .fetch
    | some bytes =>
        match readCacheText host bytes c.url c.keyId with
        | none => p.move j c .removeInvalid
        | some key => (p.keep c key).move j c .available

/-- The end of `fetchKey`. -/
def respondStep (p : Provider) (j : Nat) (c : EnsureCall) (response : Response) : Provider :=
  match readResponse host.doubles c.bareId response with
  | .error code => p.move j c (.failed (.sealedKey code))
  | .ok key => (p.keep c key).move j c (.writeCache key)

/-- The next step of a call. -/
def callStep (s : State) (i j : Nat) (c : EnsureCall) : Action → Option State
  | .read _ _ fails =>
      match c.phase with
      | .readCache => some (s.setProvider i (readStep host s (s.providers i) j c fails))
      | _ => none
  | .remove _ _ fails =>
      match c.phase with
      | .removeInvalid =>
          if fails then some (s.setProvider i ((s.providers i).move j c (.failed .fileSystem)))
          else
            some { s.setProvider i ((s.providers i).move j c .fetch) with
              files := Function.update s.files (cacheFilePath host c.url c.keyId) none }
      | _ => none
  | .request _ _ =>
      match c.phase with
      | .fetch =>
          match requestPath c.bareId with
          | none => some (s.setProvider i ((s.providers i).move j c (.failed (.sealedKey .keyUnavailable))))
          | some path => some (s.setProvider i ((s.providers i).move j c (.waiting path)))
      | _ => none
  | .respond _ _ response =>
      match c.phase with
      | .waiting path =>
          match response with
          | none => some (s.setProvider i ((s.providers i).move j c (.failed (.sealedKey .keyUnavailable))))
          | some response =>
              some { s.setProvider i (respondStep host (s.providers i) j c response) with
                answers := ⟨c.url, path, response⟩ :: s.answers }
      | _ => none
  | .write _ _ fails =>
      match c.phase with
      | .writeCache key =>
          if fails then some (s.setProvider i ((s.providers i).move j c (.failed .fileSystem)))
          else
            some { s.setProvider i ((s.providers i).move j c .available) with
              files := Function.update s.files (cacheFilePath host c.url c.keyId)
                (some (cacheText c.url c.keyId key)) }
      | _ => none
  | _ => none

def step (s : State) (a : Action) : Option State :=
  match a with
  | .ensure i keyId keyserverUrl =>
      match (s.providers i).ensureKeyAvailable host keyId keyserverUrl with
      | .error _ => some s
      | .ok p => some (s.setProvider i p)
  | .stop i => some (s.setProvider i {})
  | .removeFile name => some { s with files := Function.update s.files name none }
  | .read i j _ | .remove i j _ | .request i j | .respond i j _ | .write i j _ =>
      match (s.providers i).calls[j]? with
      | none => none
      | some c => callStep host s i j c a

/-- Nobody has fetched a key yet. -/
def Initial (s : State) : Prop := s = {}

end Caveat.Sealed.KeyProvider
