import Caveat.Hooks.Search
import Caveat.Lib.Separated

/-!
# Filters behind a limit

A search gives the first of all entries that pass its filters where the filter that stands behind the
limit rejects nothing before it or accepts nothing beyond it.
-/

namespace Caveat.Hooks

open Js Lib

variable (uni : Unicode)

/-! ## All hits of a hook -/

/-- The hits of some inputs without a limit, each once. -/
def everyHit (ix : Index) (inputs : List HookSearchInput) (selfIdentity : List Units) :
    List SearchResult :=
  firstBy SearchResult.key [] (inputs.flatMap (fun input =>
    findCaveatsForHook uni ix input (some ix.entries.length) selfIdentity))

/-- A search ranks entries, and cuts at its limit. -/
theorem findCaveatsForText_ranked (ix : Index) (prompt : Units) (selfIdentity : List Units)
    (evidence : Option (List Units)) : ∃ ranked : List EntryRow, ∀ limit : Option Nat,
      findCaveatsForText uni ix prompt limit selfIdentity evidence =
        (ranked.take (limit.getD 5)).map toSearchResult := by
  by_cases hprompt : prompt = []
  · exact ⟨[], fun limit => by rw [findCaveatsForText, if_pos hprompt, List.take_nil]; rfl⟩
  · by_cases htokens : searchTokens uni prompt selfIdentity = []
    · refine ⟨[], fun limit => ?_⟩
      rw [findCaveatsForText, if_neg hprompt]
      dsimp only
      rw [if_pos htokens, List.take_nil]
      rfl
    · let s := (searchTokens uni prompt selfIdentity).foldl (gatherToken uni ix evidence) ⟨[], []⟩
      by_cases hvalid : validDfs s.tokenDf = []
      · refine ⟨[], fun limit => ?_⟩
        rw [findCaveatsForText, if_neg hprompt]
        dsimp only
        rw [if_neg htokens, if_pos hvalid, List.take_nil]
        rfl
      · refine ⟨((s.perEntry.filter (passes (minMatches (searchTokens uni prompt selfIdentity))
          (rareTokens s.tokenDf))).mergeSort (fun a b => b.groups.length ≤ a.groups.length)).map
            (·.row), fun limit => ?_⟩
        rw [findCaveatsForText, if_neg hprompt]
        dsimp only
        rw [if_neg htokens, if_neg hvalid, ← List.map_take, List.map_map]
        rfl

theorem findCaveatsForHook_ranked (ix : Index) (input : HookSearchInput) (selfIdentity : List Units) :
    ∃ ranked : List EntryRow, ∀ limit : Option Nat,
      findCaveatsForHook uni ix input limit selfIdentity =
        (ranked.take (limit.getD 5)).map toSearchResult := by
  simp only [findCaveatsForHook]
  cases input.surface with
  | userPrompt => exact findCaveatsForText_ranked uni ix _ _ _
  | stop => exact findCaveatsForText_ranked uni ix _ _ _
  | toolError => exact findCaveatsForText_ranked uni ix _ _ _

/-- The rows of a search: entries, each once. -/
theorem findCaveatsForHook_rows (ix : Index) (input : HookSearchInput) (limit : Option Nat)
    (selfIdentity : List Units) : ∃ rows : List EntryRow, rows.Nodup ∧ rows ⊆ ix.entries ∧
      findCaveatsForHook uni ix input limit selfIdentity = rows.map toSearchResult := by
  obtain ⟨rows, hresults, hnodup, hmem, _⟩ := (three_gates uni ix limit selfIdentity).2 input
  refine ⟨rows.take (limit.getD 5), hnodup.sublist (List.take_sublist _ _), fun r hr => ?_, hresults⟩
  exact ((hmem r).mp (List.mem_of_mem_take hr)).entry

/-- A limit cuts off what is found with all entries as the limit. -/
theorem findCaveatsForHook_take (ix : Index) (input : HookSearchInput) (limit : Option Nat)
    (selfIdentity : List Units) : findCaveatsForHook uni ix input limit selfIdentity =
      (findCaveatsForHook uni ix input (some ix.entries.length) selfIdentity).take (limit.getD 5) := by
  obtain ⟨ranked, hranked⟩ := findCaveatsForHook_ranked uni ix input selfIdentity
  have hbound : ranked.length ≤ ix.entries.length := by
    obtain ⟨rows, hnodup, hsub, hrows⟩ :=
      findCaveatsForHook_rows uni ix input (some ranked.length) selfIdentity
    rw [hranked, Option.getD_some, List.take_length] at hrows
    have hlength := congrArg List.length hrows
    rw [List.length_map, List.length_map] at hlength
    rw [hlength]
    exact (List.subperm_of_subset hnodup hsub).length_le
  rw [hranked, hranked, Option.getD_some, List.take_of_length_le hbound, List.map_take]

/-- Two entries of a table have different keys. -/
theorem UniqueIndex.key_inj (ix : UniqueIndex) {r r' : EntryRow} (hr : r ∈ ix.entries)
    (hr' : r' ∈ ix.entries) (h : (toSearchResult r).key = (toSearchResult r').key) : r = r' := by
  obtain ⟨hsource, hid⟩ := append_separator_inj (ix.sources r hr) (ix.sources r' hr') h
  exact List.inj_on_of_nodup_map ix.unique hr hr' (Prod.ext hsource hid)

theorem nodup_keys (ix : UniqueIndex) (input : HookSearchInput) (limit : Option Nat)
    (selfIdentity : List Units) : ((findCaveatsForHook uni ix.toIndex input limit selfIdentity).map
      SearchResult.key).Nodup := by
  obtain ⟨rows, hnodup, hsub, hrows⟩ :=
    findCaveatsForHook_rows uni ix.toIndex input limit selfIdentity
  rw [hrows, List.map_map]
  exact hnodup.map_on fun r hr r' hr' h => ix.key_inj (hsub hr) (hsub hr') h

/-- **What a hook finds is the first of all hits**, of one input and of several. -/
theorem foundFor_eq (ix : UniqueIndex) (inputs : List HookSearchInput) (selfIdentity : List Units) :
    foundFor uni ix.toIndex inputs selfIdentity =
      (everyHit uni ix.toIndex inputs selfIdentity).take 5 := by
  have hkeys : ∀ input ∈ inputs, ((findCaveatsForHook uni ix.toIndex input
      (some ix.entries.length) selfIdentity).map SearchResult.key).Nodup :=
    fun input _ => nodup_keys uni ix input _ selfIdentity
  have hmerged : findCaveatsForHookSegments uni ix.toIndex inputs none selfIdentity =
      (everyHit uni ix.toIndex inputs selfIdentity).take 5 := by
    have hlimited := @take_firstBy_flatMap _ _ _ SearchResult.key _ _ 5 _ hkeys [] (Nat.zero_le _)
    have hcut : ∀ input, findCaveatsForHook uni ix.toIndex input (some 5) selfIdentity =
        (findCaveatsForHook uni ix.toIndex input (some ix.entries.length) selfIdentity).take 5 :=
      fun input => findCaveatsForHook_take uni ix.toIndex input (some 5) selfIdentity
    rw [findCaveatsForHookSegments, everyHit]
    dsimp only [Option.getD_none, defaultReminderHitLimit]
    rw [collect_eq _ _ (by decide), List.nil_append, List.map_nil]
    simp only [hcut]
    exact hlimited
  cases inputs with
  | nil => exact hmerged
  | cons input rest =>
      cases rest with
      | cons second rest => exact hmerged
      | nil =>
          have hone : everyHit uni ix.toIndex [input] selfIdentity =
              findCaveatsForHook uni ix.toIndex input (some ix.entries.length) selfIdentity := by
            have hfirst := firstBy_append (hkeys input List.mem_cons_self) [] []
            rw [List.append_nil] at hfirst
            rw [everyHit, List.flatMap_singleton, hfirst]
            simp [firstBy]
          rw [hone]
          exact findCaveatsForHook_take uni ix.toIndex input none selfIdentity

/-! ## The filter behind the limit -/

/-- An entry whose environment applies to the task. -/
def appliesTo (inputs : List HookSearchInput) (hostPlatform : Units) : SearchResult → Bool :=
  accepts (fun h => environmentAppliesToTask h.environment (taskTextOf inputs) hostPlatform)

/-- Without a text nothing is found. -/
theorem everyHit_of_empty (ix : Index) {inputs : List HookSearchInput} (selfIdentity : List Units)
    (h : inputs.all (fun i => i.topicText = [] && i.failureText = []) = true) :
    everyHit uni ix inputs selfIdentity = [] := by
  have hnone : inputs.flatMap (fun input =>
      findCaveatsForHook uni ix input (some ix.entries.length) selfIdentity) = [] := by
    rw [List.flatMap_eq_nil_iff]
    intro input hinput
    have hempty := List.all_eq_true.mp h input hinput
    rw [Bool.and_eq_true, decide_eq_true_iff, decide_eq_true_iff] at hempty
    obtain ⟨htopic, hfailure⟩ := hempty
    rw [findCaveatsForHook, bothTexts, orText, htopic, hfailure]
    cases input.surface <;> rfl
  rw [everyHit, hnone]
  rfl

/-- A hook shows the first hits that apply. -/
theorem hookHits_iff (ix : UniqueIndex) (inputs : List HookSearchInput) (selfIdentity : List Units)
    (hostPlatform : Units) :
    hookHits uni ix.toIndex inputs selfIdentity hostPlatform =
        ((everyHit uni ix.toIndex inputs selfIdentity).filter (appliesTo inputs hostPlatform)).take 5 ↔
      (∀ h ∈ everyHit uni ix.toIndex inputs selfIdentity,
          appliesTo inputs hostPlatform h = false) ∨
        ((∀ h ∈ (everyHit uni ix.toIndex inputs selfIdentity).take 5, ¬ Malformed h) ∧
          FilterFits (appliesTo inputs hostPlatform) (everyHit uni ix.toIndex inputs selfIdentity)
            5) := by
  rw [hookHits, foundFor_eq]
  by_cases hempty : inputs.all (fun i => i.topicText = [] && i.failureText = []) = true
  · rw [everyHit_of_empty uni ix.toIndex selfIdentity hempty, searchCaveatsSafely, if_pos hempty]
    simp
  · have hinputs := Bool.eq_false_iff.mpr hempty
    generalize everyHit uni ix.toIndex inputs selfIdentity = hits
    have hnone : (∀ h ∈ hits, appliesTo inputs hostPlatform h = false) ↔
        (hits.filter (appliesTo inputs hostPlatform)).take 5 = [] := by
      rw [List.take_eq_nil_iff, List.filter_eq_nil_iff]
      simp
    rcases searchCaveatsSafely_eq (hits.take 5) hinputs hostPlatform with ⟨hbad, heq⟩ | ⟨hgood, heq⟩
    · -- an entry that is malformed hides all others
      rw [heq, hnone]
      obtain ⟨h, hh, hmalformed⟩ := hbad
      constructor
      · exact fun heq => .inl heq.symm
      · rintro (heq | ⟨hgood, _⟩)
        · exact heq.symm
        · exact absurd hmalformed (hgood h hh)
    · rw [heq]
      change (hits.take 5).filter (appliesTo inputs hostPlatform) = _ ↔ _
      rw [filter_take_eq_iff]
      constructor
      · exact fun hfits => .inr ⟨hgood, hfits⟩
      · rintro (hnothing | ⟨_, hfits⟩)
        · exact .inr fun h hh => hnothing h (List.mem_of_mem_drop hh)
        · exact hfits

/-! ## Tags behind the limit -/

/-- The first rows that carry the tags. -/
def firstTagged (db : SearchDb) (query : Option Units) (filters : SearchFilters)
    (limit : Option Nat) : List SearchResult :=
  (((sqlRows uni db query filters).filter (accepts filters.tagged)).take (limit.getD 50)).map
    (fun e => toSearchResult e.row)

theorem search_iff (db : SearchDb) (query : Option Units) (filters : SearchFilters)
    (limit : Option Nat) :
    search uni db query filters limit = .ok (firstTagged uni db query filters limit) ↔
      (∀ e ∈ (sqlRows uni db query filters).take (limit.getD 50),
          ∃ keep, filters.tagged e = .ok keep) ∧
        FilterFits (accepts filters.tagged) (sqlRows uni db query filters) (limit.getD 50) := by
  rw [search, firstTagged, taggedResults]
  generalize sqlRows uni db query filters = rows
  generalize limit.getD 50 = n
  constructor
  · intro heq
    cases hread : filterE filters.tagged (rows.take n) with
    | error e => rw [hread] at heq; cases heq
    | ok kept =>
        obtain ⟨hall, rfl⟩ := filterE_eq_ok hread
        rw [hread] at heq
        have hlength := congrArg List.length (Except.ok.inj heq)
        rw [List.length_map, List.length_map] at hlength
        exact ⟨hall, (filter_take_eq_iff _ _ _).mp (filter_take_eq_of_length hlength)⟩
  · rintro ⟨hall, hfits⟩
    rw [filterE_ok hall, (filter_take_eq_iff _ _ _).mpr hfits]
    rfl

/--
**A search gives the first of all entries that pass its filters** where the filter that stands behind
the limit fits, and what it asks of the rows before the limit does not throw.
-/
theorem filters_before_limit_iff (uni : Unicode) :
    (∀ (db : SearchDb) (query : Option Units) (filters : SearchFilters) (limit : Option Nat),
      search uni db query filters limit = .ok (firstTagged uni db query filters limit) ↔
        (∀ e ∈ (sqlRows uni db query filters).take (limit.getD 50),
            ∃ keep, filters.tagged e = .ok keep) ∧
          FilterFits (accepts filters.tagged) (sqlRows uni db query filters) (limit.getD 50)) ∧
    ∀ (ix : UniqueIndex) (inputs : List HookSearchInput) (selfIdentity : List Units)
        (hostPlatform : Units),
      hookHits uni ix.toIndex inputs selfIdentity hostPlatform =
          ((everyHit uni ix.toIndex inputs selfIdentity).filter
            (appliesTo inputs hostPlatform)).take 5 ↔
        (∀ h ∈ everyHit uni ix.toIndex inputs selfIdentity,
            appliesTo inputs hostPlatform h = false) ∨
          ((∀ h ∈ (everyHit uni ix.toIndex inputs selfIdentity).take 5, ¬ Malformed h) ∧
            FilterFits (appliesTo inputs hostPlatform)
              (everyHit uni ix.toIndex inputs selfIdentity) 5) :=
  ⟨search_iff uni, hookHits_iff uni⟩

/-- Letters and digits of ASCII. -/
def asciiUnicode : Unicode := { letterOrNumber := Char.isAlphanum, lower := List.map lowerUnit }

def storedTrap (rowid : Nat) (id : String) (tags : List String) : StoredEntry :=
  { row := { rowid, id := units id, source := units "own", title := units id, body := units "trap"
             frontmatter := .object [], confidence := units "confirmed"
             visibility := some (units "private"), topicalText := none, symptomText := none }
    tags := .array (tags.map (fun t => .string (units t))) }

/-- Two entries that a full-text query finds, of which the second has a tag. -/
def twoTraps : SearchDb :=
  { rows := [storedTrap 1 "trap-a" [], storedTrap 2 "trap-b" ["gpu"]]
    found := fun _ _ => true
    arrange := fun _ => id
    arrange_perm := fun _ _ => .refl _
    atMost := fun _ _ => True
    recentFirst := fun entries => List.pairwise_of_forall fun _ _ => trivial }

/-- With a limit of one the entry that has the tag is not returned. -/
theorem tag_behind_limit :
    let filters : SearchFilters := { tags := [units "gpu"] }
    (search asciiUnicode twoTraps (some (units "trap")) filters (some 1)).map
        (List.map SearchResult.id) = .ok [] ∧
      (firstTagged asciiUnicode twoTraps (some (units "trap")) filters (some 1)).map
        SearchResult.id = [units "trap-b"] ∧
      search asciiUnicode twoTraps (some (units "trap")) filters (some 1) ≠
        .ok (firstTagged asciiUnicode twoTraps (some (units "trap")) filters (some 1)) := by
  intro filters
  have hfound : (search asciiUnicode twoTraps (some (units "trap")) filters (some 1)).map
      (List.map SearchResult.id) = .ok [] := rfl
  have hfirst : (firstTagged asciiUnicode twoTraps (some (units "trap")) filters (some 1)).map
      SearchResult.id = [units "trap-b"] := rfl
  refine ⟨hfound, hfirst, fun heq => ?_⟩
  rw [heq] at hfound
  have hids : (firstTagged asciiUnicode twoTraps (some (units "trap")) filters (some 1)).map
      SearchResult.id = [] := Except.ok.inj hfound
  rw [hfirst] at hids
  cases hids

end Caveat.Hooks
