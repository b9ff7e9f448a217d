import Caveat.Index.Reindex
import Caveat.Lib.Separated
import Mathlib.Data.Set.Function
import Mathlib.Data.List.Perm.Basic

/-!
# The digest of the entry files

`computeEntriesDigest` hashes one line for each Markdown file of each source, and one for each
sealed bundle: the source, the path, the time and the size, but not the content. Two directories
with one digest have the same lines, as long as no name holds the separators and the hash has no
collision on the texts that occur.
-/

namespace Caveat.Index

open Js Entry

/-- A file of a bundle, without the time it is read at. -/
structure BundleFile where
  relPath : Text
  size : Nat
  content : Text

/-- What `sourceRoots` finds for a source. -/
inductive RootDir where
  | plaintext (files : List SourceFile)
  | sealed (mtimeMs : Rat) (size : Nat) (files : List BundleFile)

/-- The entry files and the community repositories as they are on disk. -/
structure EntryTrees where
  /-- `entriesDir`, if it exists. -/
  own : Option (List SourceFile)
  /-- The directories under `communityDir`, some without a bundle and without `entries/`. -/
  community : List (Text × Option RootDir)
  nodup : (community.map Prod.fst).Nodup

/-- The names of the community directories. -/
def EntryTrees.listed (f : EntryTrees) : List Text := f.community.map Prod.fst

def EntryTrees.root (f : EntryTrees) : Source → Option RootDir
  | .own => f.own.map .plaintext
  | .community handle => (f.community.find? (fun d => d.1 = handle)).bind Prod.snd

/-! ## Lines -/

structure DigestLine where
  source : Source
  /-- `none` for a bundle. -/
  path : Option Text
  mtimeMs : Rat
  size : Nat
deriving DecidableEq

def fileLine (source : Source) (file : SourceFile) : DigestLine :=
  { source, path := some file.path, mtimeMs := file.mtimeMs, size := file.size }

/-- The lines of a source. -/
def sourceLines (source : Source) : Option RootDir → List DigestLine
  | some (.plaintext files) => files.map (fileLine source)
  | some (.sealed mtimeMs size _) => [{ source, path := none, mtimeMs, size }]
  | none => []

def EntryTrees.lines (f : EntryTrees) : List DigestLine :=
  sourceLines .own (f.root .own) ++
    f.community.flatMap (fun d => sourceLines (.community d.1) d.2)

def Source.text : Source → Text
  | .own => "own".toList
  | .community handle => "community/".toList ++ handle

/-- `${source}\t${rel}\t${stat.mtimeMs}\t${stat.size}`. -/
def DigestLine.text (host : Host) (line : DigestLine) : Text :=
  ['\t'].intercalate [line.source.text, line.path.getD "bundle".toList,
    host.numberText (.finite line.mtimeMs), ofNat line.size]

/-- The UTF-16 code units of a character. -/
def codeUnits (c : Char) : List Nat :=
  let v := c.val.toNat
  if v < 0x10000 then [v] else [0xd800 + (v - 0x10000) / 0x400, 0xdc00 + (v - 0x10000) % 0x400]

/-- `a <= b` on strings. -/
def codeUnitsLe : List Nat → List Nat → Bool
  | [], _ => true
  | _ :: _, [] => false
  | a :: as, b :: bs => a < b || (a = b && codeUnitsLe as bs)

/-- `lines.sort()`. -/
def sortLines (lines : List Text) : List Text :=
  lines.insertionSort (fun a b => codeUnitsLe (a.flatMap codeUnits) (b.flatMap codeUnits) = true)

/-- What is hashed. -/
def digestText (host : Host) (f : EntryTrees) : Text :=
  joinLines (sortLines (f.lines.map (DigestLine.text host)))

structure EntriesDigest where
  digest : Text
  fileCount : Nat
deriving DecidableEq

/-- `computeEntriesDigest`, with the hash as it is printed. -/
def computeEntriesDigest (host : Host) (sha256 : Text → Text) (f : EntryTrees) : EntriesDigest :=
  { digest := sha256 (digestText host f), fileCount := f.lines.length }

/-! ## The lines of one source -/

theorem source_of_mem_sourceLines {s : Source} {r : Option RootDir} {line : DigestLine}
    (h : line ∈ sourceLines s r) : line.source = s := by
  cases r with
  | none => exact absurd h (by simp [sourceLines])
  | some root =>
      cases root with
      | plaintext files =>
          obtain ⟨file, _, rfl⟩ := List.mem_map.mp h
          rfl
      | sealed mtimeMs size files =>
          rw [List.mem_singleton.mp h]

/-- The lines of a tree that belong to a source are the lines of its root. -/
theorem filter_lines (f : EntryTrees) (s : Source) :
    f.lines.filter (fun line => line.source = s) = sourceLines s (f.root s) := by
  have hself : ∀ r, (sourceLines s r).filter (fun line => line.source = s) = sourceLines s r :=
    fun r => List.filter_eq_self.mpr fun line hl => by simp [source_of_mem_sourceLines hl]
  have hother : ∀ s' r, s' ≠ s → (sourceLines s' r).filter (fun line => line.source = s) = [] :=
    fun s' r hne => List.filter_eq_nil_iff.mpr fun line hl => by
      simp [source_of_mem_sourceLines hl, hne]
  have hcommunity : ∀ dirs : List (Text × Option RootDir), (dirs.map Prod.fst).Nodup →
      (dirs.flatMap (fun d => sourceLines (.community d.1) d.2)).filter
          (fun line => line.source = s) =
        match s with
        | .own => []
        | .community handle =>
            sourceLines s ((dirs.find? (fun d => d.1 = handle)).bind Prod.snd) := by
    intro dirs hnodup
    induction dirs with
    | nil => cases s <;> rfl
    | cons d dirs ih =>
        rw [List.map_cons, List.nodup_cons] at hnodup
        rw [List.flatMap_cons, List.filter_append, ih hnodup.2]
        cases s with
        | own => rw [hother _ _ (by simp)]; rfl
        | community handle =>
            by_cases hd : d.1 = handle
            · subst hd
              have hnone : dirs.find? (fun e => e.1 = d.1) = none := by
                rw [List.find?_eq_none]
                intro e he heq
                refine hnodup.1 (List.mem_map.mpr ⟨e, he, by simpa using heq⟩)
              have hnil : sourceLines (.community d.1) none = [] := rfl
              simp only [hself, hnone, List.find?_cons, decide_true, Option.bind_none,
                Option.bind_some, hnil, List.append_nil]
            · rw [hother _ _ (by simpa using hd), List.nil_append]
              simp only [List.find?_cons, hd, decide_false]
  rw [EntryTrees.lines, List.filter_append, hcommunity f.community f.nodup]
  cases s with
  | own => rw [hself, List.append_nil]
  | community handle => rw [hother _ _ (by simp)]; rfl

/-! ## Equal digests -/

/-- Neither separator of the digest is in a name. -/
def Plain (name : Text) : Prop := '\t' ∉ name ∧ '\n' ∉ name

/-- The names in a line hold no separator. -/
structure DigestLine.Plain (line : DigestLine) : Prop where
  source : Index.Plain line.source.text
  path : ∀ path, line.path = some path → Index.Plain path
  /-- Markdown files are not called `bundle`. -/
  file : line.path ≠ some "bundle".toList

/-- `String(n)` tells numbers apart and writes no separator. -/
structure PlainNumbers (host : Host) : Prop where
  injective : Function.Injective (fun q : Rat => host.numberText (.finite q))
  plain : ∀ q : Rat, Plain (host.numberText (.finite q))

theorem plain_ofNat (n : Nat) : Plain (ofNat n) := by
  constructor
  · intro h
    exact absurd (isDigit_of_mem_ofNat h) (by decide)
  · intro h
    exact absurd (isDigit_of_mem_ofNat h) (by decide)

theorem text_own : Source.own.text = "own".toList := rfl

theorem text_community (handle : Text) :
    (Source.community handle).text = "community/".toList ++ handle := rfl

theorem ownText_ne (handle : Text) : Source.own.text ≠ (Source.community handle).text := by
  rw [text_own, text_community]
  intro h
  have hlen := congrArg List.length h
  simp at hlen

theorem sourceText_injective {s s' : Source} (h : s.text = s'.text) : s = s' := by
  cases s with
  | own =>
      cases s' with
      | own => rfl
      | community handle => exact absurd h (ownText_ne handle)
  | community handle =>
      cases s' with
      | own => exact absurd h.symm (ownText_ne handle)
      | community handle' =>
          rw [text_community, text_community] at h
          rw [List.append_cancel_left h]

variable {host : Host} {line line' : DigestLine}

/-- The parts of a line's text. -/
theorem splitOn_lineText (hnum : PlainNumbers host) (h : line.Plain) :
    (line.text host).splitOn '\t' = [line.source.text, line.path.getD "bundle".toList,
      host.numberText (.finite line.mtimeMs), ofNat line.size] := by
  refine List.splitOn_intercalate '\t' ?_ (by simp)
  intro part hpart
  have hpath : Plain (line.path.getD "bundle".toList) := by
    cases hp : line.path with
    | none => exact ⟨by decide, by decide⟩
    | some path => exact h.path path hp
  simp only [List.mem_cons, List.not_mem_nil, or_false] at hpart
  rcases hpart with rfl | rfl | rfl | rfl
  · exact h.source.1
  · exact hpath.1
  · exact (hnum.plain _).1
  · exact (plain_ofNat _).1

theorem lineText_injective (hnum : PlainNumbers host) (h : line.Plain) (h' : line'.Plain)
    (he : line.text host = line'.text host) : line = line' := by
  have hparts := splitOn_lineText hnum h
  rw [he, splitOn_lineText hnum h'] at hparts
  simp only [List.cons.injEq, and_true] at hparts
  obtain ⟨hsource, hpath, hmtime, hsize⟩ := hparts
  obtain ⟨source, path, mtimeMs, size⟩ := line
  obtain ⟨source', path', mtimeMs', size'⟩ := line'
  obtain rfl := sourceText_injective hsource
  obtain rfl := hnum.injective hmtime
  obtain rfl := ofNat_inj.mp hsize
  have hfile := h.file
  have hfile' := h'.file
  cases path with
  | none =>
      cases path' with
      | none => rfl
      | some p => exact absurd (congrArg some hpath) hfile'
  | some p =>
      cases path' with
      | none => exact absurd (congrArg some hpath.symm) hfile
      | some p' => rw [show p = p' from hpath.symm]

theorem newline_notMem_lineText (hnum : PlainNumbers host) (h : line.Plain) :
    '\n' ∉ line.text host := by
  intro hmem
  rcases Lib.mem_intercalate hmem with he | ⟨part, hpart, hc⟩
  · exact absurd he (by decide)
  · simp only [List.mem_cons, List.not_mem_nil, or_false] at hpart
    rcases hpart with rfl | rfl | rfl | rfl
    · exact h.source.2 hc
    · cases hp : line.path with
      | none => rw [hp] at hc; exact absurd hc (by decide)
      | some path => rw [hp] at hc; exact (h.path path hp).2 hc
    · exact (hnum.plain _).2 hc
    · exact (plain_ofNat _).2 hc

/-- A list is determined up to order by its image under a map that is injective on it. -/
theorem perm_of_perm_map {α β : Type} [Nonempty α] {f : α → β} {S : Set α} (hf : Set.InjOn f S)
    {l l' : List α} (hl : ∀ x ∈ l, x ∈ S) (hl' : ∀ x ∈ l', x ∈ S)
    (h : (l.map f).Perm (l'.map f)) : l.Perm l' := by
  have hback : ∀ k : List α, (∀ x ∈ k, x ∈ S) → (k.map f).map (Function.invFunOn f S) = k := by
    intro k hk
    rw [List.map_map]
    conv_rhs => rw [← List.map_id k]
    exact List.map_congr_left fun x hx => hf.leftInvOn_invFunOn (hk x hx)
  have := h.map (Function.invFunOn f S)
  rwa [hback l hl, hback l' hl'] at this

theorem sortLines_perm (lines : List Text) : (sortLines lines).Perm lines :=
  List.perm_insertionSort _ lines

variable {sha256 : Text → Text} {texts : Set Text} {f f' : EntryTrees}

/-- **Trees with one digest have the same lines**, source by source. -/
theorem sourceLines_perm_of_digest (hnum : PlainNumbers host) (hsha : Set.InjOn sha256 texts)
    (hf : ∀ line ∈ f.lines, line.Plain) (hf' : ∀ line ∈ f'.lines, line.Plain)
    (ht : digestText host f ∈ texts) (ht' : digestText host f' ∈ texts)
    (he : computeEntriesDigest host sha256 f = computeEntriesDigest host sha256 f') (s : Source) :
    (sourceLines s (f.root s)).Perm (sourceLines s (f'.root s)) := by
  obtain ⟨hdigest, hcount⟩ := EntriesDigest.mk.injEq .. ▸ he
  have htext : digestText host f = digestText host f' := hsha ht ht' hdigest
  have hclean : ∀ g : EntryTrees, (∀ line ∈ g.lines, line.Plain) →
      ∀ t ∈ sortLines (g.lines.map (DigestLine.text host)), '\n' ∉ t := by
    intro g hg t ht
    obtain ⟨line, hline, rfl⟩ := List.mem_map.mp ((sortLines_perm _).mem_iff.mp ht)
    exact newline_notMem_lineText hnum (hg line hline)
  have hsorted : sortLines (f.lines.map (DigestLine.text host)) =
      sortLines (f'.lines.map (DigestLine.text host)) := by
    refine Lib.intercalate_injective (hclean f hf) (hclean f' hf') ?_ htext
    rw [(sortLines_perm _).length_eq, (sortLines_perm _).length_eq, List.length_map,
      List.length_map]
    exact hcount
  have hmap : (f.lines.map (DigestLine.text host)).Perm (f'.lines.map (DigestLine.text host)) :=
    (sortLines_perm _).symm.trans (hsorted ▸ sortLines_perm _)
  have hinj : Set.InjOn (DigestLine.text host) { line | line.Plain } :=
    fun _ hx _ hy hxy => lineText_injective hnum hx hy hxy
  have : Nonempty DigestLine := ⟨{ source := .own, path := none, mtimeMs := 0, size := 0 }⟩
  have hlines := perm_of_perm_map hinj hf hf' hmap
  rw [← filter_lines f s, ← filter_lines f' s]
  exact hlines.filter _

end Caveat.Index
