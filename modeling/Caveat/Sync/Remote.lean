import Caveat.Entry.Lines
import Caveat.Sync.AutoSync

/-!
# Remote URLs

What `sync.ts` does with the URLs of a remote: the list that git gives of them, the URL that is
probed without credentials, and the targets that a named GitHub account may have. `new URL` is a
parameter.
-/

namespace Caveat.Sync

open Js Entry

/-! ## Push URLs -/

/-- A URL that a push delivers to, as git lists it on a line of its own. -/
structure PushUrl where
  text : Text
  line : '\n' ∉ text
  trimStart : Js.trimStart text = text
  trimEnd : Js.trimEnd text = text
  nonempty : text ≠ []

/-- The output of `remote get-url --push --all`. -/
def listed (urls : List PushUrl) : Text := urls.flatMap (fun url => url.text ++ ['\n'])

/-- The URLs of such an output. -/
def parsePushUrls (raw : Text) : List Text :=
  ((splitLines raw).map Js.trim).filter (fun url => !url.isEmpty)

/-- **The URLs are read as git lists them.** -/
theorem parsePushUrls_listed (urls : List PushUrl) :
    parsePushUrls (listed urls) = urls.map PushUrl.text := by
  induction urls with
  | nil => rfl
  | cons url urls ih =>
      have hline : splitLines (url.text ++ '\n' :: listed urls) =
          [url.text] ++ splitLines (listed urls) := by
        rw [splitLines_append_newline (getLast?_ne_return url.trimEnd),
          splitLines_of_no_newline url.line]
      have htrim : Js.trim url.text = url.text := by rw [Js.trim, url.trimStart, url.trimEnd]
      have hkept : (!url.text.isEmpty) = true := by simpa using url.nonempty
      show ((splitLines (url.text ++ ['\n'] ++ listed urls)).map Js.trim).filter _ = _
      rw [List.append_assoc, List.singleton_append, hline, List.map_append, List.filter_append,
        List.map_singleton, htrim, List.filter_singleton, hkept, cond_true]
      exact congrArg (url.text :: ·) ih

/-! ## The URL to probe -/

/-- The parts of a URL, as `new URL` gives them. -/
structure Url where
  protocol : Text
  username : Text
  password : Text
  host : Text
  hostname : Text
  pathname : Text
  search : Text
  hash : Text
  href : Text
deriving DecidableEq

/-- `[^:/\s]+:.+` behind a user: the host and the path. -/
def scpHostPath (s : Text) : Option (Text × Text) :=
  let host := s.takeWhile (fun c => !(c = ':' || c = '/' || isSpace c))
  match s.drop host.length with
  | ':' :: path =>
      if !host.isEmpty && !path.isEmpty && path.all (fun c => !isLineTerminator c) then
        some (host, path)
      else none
  | _ => none

/-- `/^(?:[^@/\s]+@)?([^:/\s]+):(.+)$/`. -/
def scpParts (s : Text) : Option (Text × Text) :=
  let user := s.takeWhile (fun c => !(c = '@' || c = '/' || isSpace c))
  match s.drop user.length with
  | '@' :: rest => if user.isEmpty then scpHostPath s else (scpHostPath rest).or (scpHostPath s)
  | _ => scpHostPath s

section Urls

variable (parseUrl : Text → Option Url)

def deriveAnonymousProbeUrl (remoteUrl : Text) : Option Text :=
  match parseUrl remoteUrl with
  | some url =>
      if url.protocol ≠ "https:".toList ∧ url.protocol ≠ "ssh:".toList then none
      else some ("https://".toList ++ url.host ++ url.pathname ++ url.search ++ url.hash)
  | none =>
      match scpParts remoteUrl with
      | some (host, path) =>
          (parseUrl ("https://".toList ++ host ++ '/' :: path)).map Url.href
      | none => none

/-! ## A named account -/

def isAlnum (c : Char) : Bool := c.isDigit || c.isUpper || c.isLower

/-- `/^[A-Za-z0-9]+(?:-[A-Za-z0-9]+)*$/`, of at most 39 characters. -/
def validGithubUser (user : Text) : Bool :=
  user.length ≤ 39 && (user.splitOn '-').all (fun part => !part.isEmpty && part.all isAlnum)

def namedGithubTarget (target : Text) : Bool :=
  match parseUrl target with
  | some url => url.protocol = "https:".toList && url.hostname = "github.com".toList &&
      url.username.isEmpty && url.password.isEmpty
  | none => false

/-- `assertNamedGithubTargets`, with the code of what it throws. -/
def assertNamedGithubTargets (urls : List Text) : Option Text → Except SyncErrorCode Unit
  | none => .ok ()
  | some user =>
      if !validGithubUser user then .error .CAVEAT_GITHUB_USER_INVALID
      else if urls.all (namedGithubTarget parseUrl) then .ok ()
      else .error .CAVEAT_GITHUB_TARGET_UNSUPPORTED

end Urls

end Caveat.Sync
