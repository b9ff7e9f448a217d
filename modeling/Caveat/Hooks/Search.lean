import Caveat.Hooks.RetrievalLaw
import Caveat.Lib.Limit

/-!
# Searches with a limit

The search of the repository filters by source, confidence and visibility in SQL, and by tags behind
the limit. The search of a hook takes its hits up to a limit, of one input or of several that are
merged, and asks behind it which of them apply to the task.
-/

namespace Caveat.Hooks

open Js Lib
open Publish (isSpaceUnit)

variable (uni : Unicode)

/-! ## The search of the repository -/

/-- A row with the value that `tags` is the text of. -/
structure StoredEntry where
  row : EntryRow
  tags : Json

inductive SourceFilter where
  | own
  | community
  | all
deriving DecidableEq

inductive VisibilityFilter where
  | onlyPublic
  | onlyPrivate
  | all
deriving DecidableEq

/-- A filter that is absent is like one that is empty. -/
structure SearchFilters where
  tags : List Units := []
  confidence : List Units := []
  source : SourceFilter := .all
  visibility : VisibilityFilter := .all

/-- `json_extract(e.frontmatter_json, '$.updated_at')`. -/
def StoredEntry.updatedAt (e : StoredEntry) : Option Json :=
  e.row.frontmatter.member? "updated_at".toList

/-- The table, what `MATCH` finds in it, and the order in which rows come. -/
structure SearchDb where
  rows : List StoredEntry
  found : Units → StoredEntry → Bool
  /-- The rows as they come: of a full-text query, or of the query that orders them. -/
  arrange : Option Units → List StoredEntry → List StoredEntry
  arrange_perm : ∀ query entries, (arrange query entries).Perm entries
  /-- The order of SQLite on what `json_extract` gives. -/
  atMost : Option Json → Option Json → Prop
  recentFirst : ∀ entries,
    (arrange none entries).Pairwise (fun a b => atMost b.updatedAt a.updatedAt)

def sanitizeFtsQuery (raw : Units) : Units :=
  (units " ").intercalate ((((blankOthers uni raw).splitOnP isSpaceUnit).filter (· ≠ [])).map phrase)

/-- The full-text query, if there is one. -/
def ftsQuery (query : Option Units) : Option Units :=
  let rawQuery := trimUnits (query.getD [])
  let fts := if rawQuery = [] then [] else sanitizeFtsQuery uni rawQuery
  if fts = [] then none else some fts

/-- `LIKE 'community/%'`. -/
def isCommunitySource (source : Units) : Bool :=
  (units "community/").isPrefixOf (source.map lowerUnit)

/-- The conditions in SQL. -/
def SearchFilters.admits (filters : SearchFilters) (row : EntryRow) : Bool :=
  (match filters.source with
    | .own => row.source = units "own"
    | .community => isCommunitySource row.source
    | .all => true) &&
  (filters.confidence = [] || filters.confidence.contains row.confidence) &&
  (match filters.visibility with
    | .onlyPublic => row.visibility = some (units "public")
    | .onlyPrivate => row.visibility = some (units "private")
    | .all => true)

/-- The rows of the SQL query without its limit. -/
def sqlRows (db : SearchDb) (query : Option Units) (filters : SearchFilters) : List StoredEntry :=
  let fts := ftsQuery uni query
  db.arrange fts (db.rows.filter (fun e => fts.all (fun q => db.found q e) && filters.admits e.row))

/-- `entryTags.includes` is not a function. -/
inductive TagsError where
  | notFunction
deriving DecidableEq

/-- `tags.every((t) => entryTags.includes(t))`. -/
def includesTags (wanted : List Units) (entryTags : Json) : Except TagsError Bool :=
  match entryTags with
  | .array items => .ok (wanted.all (fun t => items.any (fun item => textOfItem item = some t)))
  | .string s => .ok (wanted.all (fun t => includes t s))
  | _ => .error .notFunction
where
  textOfItem : Json → Option Units
    | .string s => some s
    | _ => none

/-- The filter of one row. -/
def SearchFilters.tagged (filters : SearchFilters) (e : StoredEntry) : Except TagsError Bool :=
  if filters.tags = [] then .ok true else includesTags filters.tags e.tags

/-- The loop over the rows. -/
def taggedResults (filters : SearchFilters) (entries : List StoredEntry) :
    Except TagsError (List SearchResult) :=
  (filterE filters.tagged entries).map (List.map (fun e => toSearchResult e.row))

def search (db : SearchDb) (query : Option Units) (filters : SearchFilters) (limit : Option Nat) :
    Except TagsError (List SearchResult) :=
  taggedResults filters ((sqlRows uni db query filters).take (limit.getD 50))

/-! ## The search of a hook -/

/-- The index of a table in which `(source, id)` is unique, and a source is a name of a directory. -/
structure UniqueIndex extends Index where
  unique : (entries.map (fun r => (r.source, r.id))).Nodup
  sources : ∀ r ∈ entries, (0 : UInt16) ∉ r.source

/-- `${hit.source}\u0000${hit.id}`. -/
def SearchResult.key (h : SearchResult) : Units := h.source ++ (0 : UInt16) :: h.id

/-- The loop over the hits of all inputs, which stops at the limit. -/
def findCaveatsForHookSegments (ix : Index) (inputs : List HookSearchInput) (limit : Option Nat)
    (selfIdentity : List Units) : List SearchResult :=
  let limit := limit.getD defaultReminderHitLimit
  collect SearchResult.key limit []
    (inputs.flatMap (fun input => findCaveatsForHook uni ix input (some limit) selfIdentity))

/-- What `searchCaveatsSafely` finds before it filters. -/
def foundFor (ix : Index) (inputs : List HookSearchInput) (selfIdentity : List Units) :
    List SearchResult :=
  match inputs with
  | [input] => findCaveatsForHook uni ix input none selfIdentity
  | _ => findCaveatsForHookSegments uni ix inputs none selfIdentity

/-- `searchCaveatsSafely`, over an index. -/
def hookHits (ix : Index) (inputs : List HookSearchInput) (selfIdentity : List Units)
    (hostPlatform : Units) : List SearchResult :=
  searchCaveatsSafely (foundFor uni ix inputs selfIdentity) inputs hostPlatform

end Caveat.Hooks
