import Caveat.Js.Text

/-!
# What the guard observes of a tree

An identity is what one native snapshot says of an object; a tree is the list of the identities in
it, the root's first. Its numbers are decimal texts.
-/

namespace Caveat.Managed

open Js

inductive ObjectKind where
  | file
  | directory
  | link
deriving DecidableEq

/-- `GlobalGuardIdentity`. -/
structure GlobalGuardIdentity where
  dev : Text
  ino : Text
  kind : ObjectKind
  size : Text
  links : Text
  mtime : Text
  ctime : Text
  owner : Text
  group : Text
  mode : Nat
  securitySha256 : Option Text := none
  contentSha256 : Option Text := none
  linkTarget : Option Text := none
deriving DecidableEq

/-- `GlobalGuardTreeRow`. -/
structure GlobalGuardTreeRow where
  relativePath : Text
  identity : GlobalGuardIdentity
deriving DecidableEq

abbrev Rows := List GlobalGuardTreeRow

/-- The rows with another change time of the root; there is none in an empty list. -/
def Rows.retimed (rows : Rows) (ctime : Text) : Option Rows :=
  match rows with
  | [] => none
  | root :: rest => some ({ root with identity := { root.identity with ctime } } :: rest)

/-- `rows[0]!.identity`. -/
def Rows.root? (rows : Rows) : Option GlobalGuardIdentity := rows.head?.map (·.identity)

/-- `/[\\\x00-\x1f:]/`. -/
def isPathForbidden (c : Char) : Bool := c = '\\' || c.toNat < 0x20 || c = ':'

/-- One row's path, after those of the rows before it. -/
def rowPathValid (names : List Text) (path : Text) : Bool :=
  !names.contains path && path.length ≤ 32768 && !path.any isPathForbidden &&
    (path = [] || (path.splitOn '/').all (fun part => part ≠ [] && part ≠ ['.'] && part ≠ ['.', '.']))

def isHexDigit (c : Char) : Bool :=
  ('0'.toNat ≤ c.toNat && c.toNat ≤ '9'.toNat) || ('a'.toNat ≤ c.toNat && c.toNat ≤ 'f'.toNat)

/-- What a row's identity must be like, beyond its type. -/
def identityValid (identity : GlobalGuardIdentity) : Bool :=
  identity.mode ≤ 0xffffffff && (identity.kind ≠ .file ||
    identity.contentSha256.any (fun sha => sha.length = 64 && sha.all isHexDigit))

/-- `globalRecoveryRows`. -/
def globalRecoveryRows (rows : Rows) : Bool :=
  rows ≠ [] && rows.length ≤ 100000 &&
    (rows.mapIdx (fun i row =>
      rowPathValid ((rows.take i).map (·.relativePath)) row.relativePath &&
        identityValid row.identity)).all id &&
    rows.head?.any (fun row => row.relativePath = [])

end Caveat.Managed
