import Caveat.Js.Utf
import Mathlib.Data.List.Sort

/-!
# Git repositories

What the commands that the repository issues do to a working copy. Commits are the entries of one
list that all repositories share, and a ref is a name with a place in it. What git decides by
settings outside, such as ignored files, is a parameter.
-/

namespace Caveat.Git

open Js

/-- Files by their paths below a directory. -/
abbrev Files := List (Text × Bytes)

def Files.get? (files : Files) (path : Text) : Option Bytes :=
  (files.find? (fun f => f.1 = path)).map Prod.snd

def Files.has (files : Files) (path : Text) : Bool := files.any (fun f => f.1 = path)

def Files.write (files : Files) (path : Text) (bytes : Bytes) : Files :=
  files.filter (fun f => f.1 ≠ path) ++ [(path, bytes)]

structure Commit where
  tree : Files
  parents : List Nat
deriving DecidableEq

abbrev Refs := List (Text × Nat)

def Refs.get? (refs : Refs) (name : Text) : Option Nat :=
  (refs.find? (fun r => r.1 = name)).map Prod.snd

def Refs.set (refs : Refs) (name : Text) (commit : Nat) : Refs :=
  (name, commit) :: refs.filter (fun r => r.1 ≠ name)

def Refs.delete (refs : Refs) (name : Text) : Refs := refs.filter (fun r => r.1 ≠ name)

/-- Where HEAD is; a branch need not have a commit yet. -/
inductive Head where
  | branch (name : Text)
  | detached (commit : Nat)
deriving DecidableEq

structure Repo where
  head : Head
  branches : Refs := []
  index : Files := []
  origin : Option Units := none
  /-- `refs/remotes/origin`. -/
  tracking : Refs := []
  /-- The branch that `refs/remotes/origin/HEAD` names. -/
  trackingHead : Option Text := none
deriving DecidableEq

structure Remote where
  head : Text
  branches : Refs
deriving DecidableEq

/-- A working copy: the files outside of `.git`, and `.git`. -/
structure Copy where
  files : Files
  repo : Repo
deriving DecidableEq

/-- `rev-parse --verify HEAD`. -/
def Repo.headCommit (repo : Repo) : Option Nat :=
  match repo.head with
  | .branch name => repo.branches.get? name
  | .detached commit => some commit

/-- Move HEAD, or the branch it is on. -/
def Repo.moveHead (repo : Repo) (commit : Nat) : Repo :=
  match repo.head with
  | .branch name => { repo with branches := repo.branches.set name commit }
  | .detached _ => { repo with head := .detached commit }

/-- The files become a tree; untracked ones stay where the tree has none. -/
def Copy.checkoutTree (copy : Copy) (tree : Files) : Copy :=
  { files := tree ++ copy.files.filter (fun f => !copy.repo.index.has f.1 && !tree.has f.1)
    repo := { copy.repo with index := tree } }

/-- `clean -ffdx`. -/
def Copy.clean (copy : Copy) : Copy :=
  { copy with files := copy.files.filter (fun f => copy.repo.index.has f.1) }

/-- `add -A`. -/
def Copy.addAll (ignored : Text → Bool) (copy : Copy) : Copy :=
  { copy with repo := { copy.repo with
      index := copy.files.filter (fun f => copy.repo.index.has f.1 || !ignored f.1) } }

/-- `clone`. -/
def cloneOf (commits : List Commit) (remote : Remote) (url : Units) : Copy :=
  let repo : Repo := { head := .branch remote.head, origin := some url, tracking := remote.branches }
  match remote.branches.get? remote.head with
  | none => { files := [], repo }
  | some id =>
      let tree := (commits[id]?.map Commit.tree).getD []
      { files := tree
        repo := { repo with branches := [(remote.head, id)], index := tree
                            trackingHead := some remote.head } }

/-- `commit`, of what `add` has put into the index; without a change there is no commit. -/
def commitIndex (commits : List Commit) (repo : Repo) : List Commit × Repo :=
  let base := ((repo.headCommit.bind (commits[·]?)).map Commit.tree).getD []
  if repo.index.isPerm base then (commits, repo)
  else (commits ++ [{ tree := repo.index, parents := repo.headCommit.toList }],
    repo.moveHead commits.length)

/-- `branch -M name`. -/
def Repo.renameBranch (repo : Repo) (name : Text) : Option Repo :=
  match repo.head with
  | .detached _ => none
  | .branch current =>
      let others := (repo.branches.delete current).delete name
      some
        { repo with
          head := .branch name
          branches := match repo.branches.get? current with
            | some id => (name, id) :: others
            | none => others }

/-- The commits behind a commit, in so many generations. -/
def history (commits : List Commit) : Nat → Nat → List Nat
  | 0, _ => []
  | fuel + 1, id =>
      id :: ((commits[id]?.map Commit.parents).getD []).flatMap (history commits fuel)

/-- `rev-list --count HEAD`. -/
def revisionCount (commits : List Commit) (repo : Repo) : Option Nat :=
  repo.headCommit.map (fun id => (history commits (commits.length + 1) id).dedup.length)

/-- `push`, of a branch. -/
def pushBranch (repo : Repo) (name : Text) (remote : Remote) : Option Remote :=
  (repo.branches.get? name).map (fun id => { remote with branches := remote.branches.set name id })

/-- `push` without force: the branch must be behind the commit. -/
def fastForwards (commits : List Commit) (remote : Remote) (name : Text) (commit : Nat) : Bool :=
  match remote.branches.get? name with
  | none => true
  | some old => commit = old || (history commits (commits.length + 1) commit).contains old

/-- The tree that HEAD has. -/
def Repo.headTree (commits : List Commit) (repo : Repo) : Files :=
  ((repo.headCommit.bind (commits[·]?)).map Commit.tree).getD []

/-- `status`: the paths that differ between HEAD, the index and the files. -/
def Copy.status (ignored : Text → Bool) (commits : List Commit) (copy : Copy) : List Text :=
  let head := copy.repo.headTree commits
  let index := copy.repo.index
  ((head ++ index ++ copy.files).map Prod.fst).dedup.filter (fun path =>
    head.get? path ≠ index.get? path ||
      (if index.has path then index.get? path ≠ copy.files.get? path
       else copy.files.has path && !ignored path))

/-- `ls-remote --heads` with a name. -/
def Remote.heads (remote : Remote) (name : Text) : List Text :=
  (remote.branches.map Prod.fst).filter (fun head =>
    head = name || ('/' :: name).isSuffixOf head)

/-- The order in which git lists names. -/
def nameLe (a b : Text) : Bool :=
  !(b.map Char.toNat).lex (a.map Char.toNat) (fun m n => decide (m < n))

/-- The first of the branches that `ls-remote --heads` lists. -/
def Remote.firstHead (remote : Remote) : Option Text :=
  ((remote.branches.map Prod.fst).insertionSort (fun a b => nameLe a b = true)).head?

/-- `fetch`, of a branch. -/
def Repo.fetch (repo : Repo) (name : Text) (remote : Remote) : Option Repo :=
  (remote.branches.get? name).map (fun id => { repo with tracking := repo.tracking.set name id })

/-- A file that checking out a tree would overwrite, and that git does not know. -/
def Copy.inTheWay (ignored : Text → Bool) (copy : Copy) (tree : Files) : List Text :=
  (copy.files.map Prod.fst).filter (fun path =>
    tree.has path && !copy.repo.index.has path && !ignored path)

/-- `checkout --track -B name origin/name`. -/
def Copy.checkoutTrack (ignored : Text → Bool) (commits : List Commit) (name : Text) (copy : Copy) :
    Option Copy :=
  match copy.repo.tracking.get? name with
  | none => none
  | some id =>
      match commits[id]? with
      | none => none
      | some commit =>
          if copy.inTheWay ignored commit.tree = [] then
            let out := copy.checkoutTree commit.tree
            some { out with repo := { out.repo with
              head := .branch name, branches := out.repo.branches.set name id } }
          else none

end Caveat.Git
