import Caveat.Hooks.RetrievalLaw

/-!
# Words that meet in an entry

An entry counts the groups of the tokens that find it. Each token is kept once, in the group of the
first word that it comes from, and only fifty tokens are kept. So two words that meet in an entry are
two groups where no token comes from two words and no token is cut off, and otherwise there is an
entry in which they meet and are fewer.
-/

namespace Caveat.Hooks

open Js

variable (uni : Unicode)

/-- The words of a text with the tokens that come from them and are not of one's own identity. -/
def wordTokens (prompt : Units) (selfIdentity : List Units) : List (Units × Units) :=
  ((rawTokens uni prompt).flatMap fun w => (expandToken w 0).map fun c => (w, c.token)).filter
    fun p => uni.lower p.2 ∉ selfIdentity

/-- The tokens of a text in lower case, each at its first place. -/
def tokenKeys (prompt : Units) : List Units :=
  ((rawTokens uni prompt).flatMap fun w =>
    (expandToken w 0).map fun c => uni.lower c.token).eraseDups

/-- The full-text index takes no account of case. -/
def CaseBlind (ix : Index) : Prop :=
  ∀ t t', uni.lower t = uni.lower t' → ix.search (phrase t) = ix.search (phrase t')

/-- What is gathered for a text. -/
def gathered (ix : Index) (prompt : Units) (selfIdentity : List Units)
    (evidence : Option (List Units)) : Gathered :=
  (searchTokens uni prompt selfIdentity).foldl (gatherToken uni ix evidence) ⟨[], []⟩

/-- Tokens of two distinct words of a text find an entry. -/
def Meet (ix : Index) (prompt : Units) (selfIdentity : List Units) (r : EntryRow) : Prop :=
  ∃ p ∈ wordTokens uni prompt selfIdentity, ∃ q ∈ wordTokens uni prompt selfIdentity,
    p.1 ≠ q.1 ∧ ix.finds ⟨p.2, 0⟩ r = true ∧ ix.finds ⟨q.2, 0⟩ r = true

/-- An entry is counted as found by at least two groups. -/
def MeetCounted (ix : Index) (prompt : Units) (selfIdentity : List Units)
    (evidence : Option (List Units)) (r : EntryRow) : Prop :=
  ∃ e ∈ (gathered uni ix prompt selfIdentity evidence).perEntry,
    e.row.rowid = r.rowid ∧ 2 ≤ e.groups.length

/-- All tokens are of one word, or none is of two words and none comes after the first fifty. -/
def TokensApart (prompt : Units) (selfIdentity : List Units) : Prop :=
  (∀ p ∈ wordTokens uni prompt selfIdentity, ∀ q ∈ wordTokens uni prompt selfIdentity, p.1 = q.1) ∨
    (∀ p ∈ wordTokens uni prompt selfIdentity, ∀ q ∈ wordTokens uni prompt selfIdentity,
      uni.lower p.2 = uni.lower q.2 → p.1 = q.1) ∧
    ∀ p ∈ wordTokens uni prompt selfIdentity, uni.lower p.2 ∈ (tokenKeys uni prompt).take 50

variable {uni}

/-! ## The tokens that are kept -/

theorem expandToken_group (w : Units) (g : Nat) :
    expandToken w g = (expandToken w 0).map fun c => ⟨c.token, g⟩ := by
  unfold expandToken
  split
  · split
    · rfl
    · rw [List.map_map]
      rfl
  · split
    · rfl
    · rfl

/-- Every candidate of a text, with the place of its word. -/
def candidates (ws : List (Units × Nat)) : List PromptCandidate :=
  ws.flatMap fun t => expandToken t.1 t.2

theorem word_of_candidate {ws : List (Units × Nat)} {c : PromptCandidate} (h : c ∈ candidates ws) :
    ∃ w, (w, c.group) ∈ ws ∧ ∃ d ∈ expandToken w 0, d.token = c.token := by
  obtain ⟨⟨w, g⟩, hw, hc⟩ := List.mem_flatMap.mp h
  rw [expandToken_group] at hc
  obtain ⟨d, hd, rfl⟩ := List.mem_map.mp hc
  exact ⟨w, hw, d, hd, rfl⟩

theorem keys_candidates (ws : List (Units × Nat)) :
    (candidates ws).map (fun c => uni.lower c.token) =
      (ws.map Prod.fst).flatMap fun w => (expandToken w 0).map fun c => uni.lower c.token := by
  rw [candidates, List.map_flatMap, List.flatMap_map]
  refine List.flatMap_congr fun t _ => ?_
  rw [expandToken_group, List.map_map]
  rfl

theorem mem_firstByToken {seen : List Units} {cs : List PromptCandidate} {c : PromptCandidate}
    (h : c ∈ firstByToken uni seen cs) : c ∈ cs := by
  induction cs generalizing seen with
  | nil => exact h
  | cons d cs ih =>
      rw [firstByToken] at h
      split at h
      · exact List.mem_cons_of_mem d (ih h)
      · rcases List.mem_cons.mp h with rfl | h
        · exact List.mem_cons_self
        · exact List.mem_cons_of_mem d (ih h)

/-- Each key is kept at its first place. -/
theorem keys_firstByToken (cs : List PromptCandidate) : ∀ seen : List Units,
    (firstByToken uni seen cs).map (fun c => uni.lower c.token) =
      ((cs.map fun c => uni.lower c.token).filter (fun k => !seen.contains k)).eraseDups := by
  induction cs with
  | nil => intro seen; rfl
  | cons c cs ih =>
      intro seen
      rw [firstByToken, List.map_cons]
      split
      · rename_i hseen
        rw [ih, List.filter_cons_of_neg (by simpa using hseen)]
      · rename_i hseen
        rw [List.map_cons, ih, List.filter_cons_of_pos (by simpa using hseen), List.eraseDups_cons,
          List.filter_filter]
        congr 2
        refine List.filter_congr fun k _ => ?_
        simp only [List.contains_cons, Bool.not_or]

theorem keys_buildPromptCandidates (prompt : Units) :
    (buildPromptCandidates uni prompt).map (fun c => uni.lower c.token) =
      (tokenKeys uni prompt).take 50 := by
  have hall : (fun k : Units => !([] : List Units).contains k) = fun _ => true := by
    funext k
    rfl
  rw [buildPromptCandidates, List.map_take, keys_firstByToken, hall, List.filter_true]
  have hkeys := @keys_candidates uni (rawTokens uni prompt).zipIdx
  rw [candidates] at hkeys
  rw [hkeys, List.zipIdx_map_fst]
  rfl

theorem mem_wordTokens {prompt : Units} {selfIdentity : List Units} {p : Units × Units} :
    p ∈ wordTokens uni prompt selfIdentity ↔ p.1 ∈ rawTokens uni prompt ∧
      (∃ d ∈ expandToken p.1 0, d.token = p.2) ∧ uni.lower p.2 ∉ selfIdentity := by
  simp only [wordTokens, List.mem_filter, List.mem_flatMap, List.mem_map, decide_eq_true_eq]
  constructor
  · rintro ⟨⟨w, hw, d, hd, rfl⟩, hself⟩
    exact ⟨hw, ⟨d, hd, rfl⟩, hself⟩
  · rintro ⟨hw, ⟨d, hd, htoken⟩, hself⟩
    exact ⟨⟨p.1, hw, d, hd, by rw [htoken]⟩, hself⟩

/-- A kept token comes from the word at its group. -/
theorem word_of_promptToken {prompt : Units} {selfIdentity : List Units} {c : PromptCandidate}
    (h : c ∈ promptTokens uni prompt selfIdentity) :
    ∃ w, (rawTokens uni prompt)[c.group]? = some w ∧
      (w, c.token) ∈ wordTokens uni prompt selfIdentity := by
  obtain ⟨hbuild, hself⟩ := List.mem_filter.mp h
  rw [buildPromptCandidates] at hbuild
  obtain ⟨w, hw, d, hd, htoken⟩ := word_of_candidate (mem_firstByToken (List.mem_of_mem_take hbuild))
  have hat := List.mk_mem_zipIdx_iff_getElem?.mp hw
  exact ⟨w, hat, mem_wordTokens.mpr ⟨List.mem_of_getElem? hat, ⟨d, hd, htoken⟩, by simpa using hself⟩⟩

/-- A token among the first fifty is kept. -/
theorem exists_promptToken {prompt : Units} {selfIdentity : List Units} {p : Units × Units}
    (hp : p ∈ wordTokens uni prompt selfIdentity)
    (hkey : uni.lower p.2 ∈ (tokenKeys uni prompt).take 50) :
    ∃ c ∈ promptTokens uni prompt selfIdentity, uni.lower c.token = uni.lower p.2 := by
  rw [← keys_buildPromptCandidates] at hkey
  obtain ⟨c, hc, hlower⟩ := List.mem_map.mp hkey
  refine ⟨c, List.mem_filter.mpr ⟨hc, ?_⟩, hlower⟩
  simp only [decide_eq_true_eq]
  rw [hlower]
  exact (mem_wordTokens.mp hp).2.2

/-! ## What an entry counts -/

theorem counted_iff {ix : Index} {prompt : Units} {selfIdentity : List Units}
    {evidence : Option (List Units)} {r : EntryRow} (hr : r ∈ ix.entries) :
    MeetCounted uni ix prompt selfIdentity evidence r ↔
      2 ≤ matchedGroups ix (promptTokens uni prompt selfIdentity) r := by
  have hkeys := nodup_promptTokens uni prompt selfIdentity
  have hknown := (known_gathered ix evidence _ hkeys).perEntry
  have hlength : ∀ e ∈ (gathered uni ix prompt selfIdentity evidence).perEntry,
      e.row.rowid = r.rowid →
        e.groups.length = matchedGroups ix (promptTokens uni prompt selfIdentity) r := by
    intro e he hid
    rw [gathered, searchTokens_eq] at he
    obtain ⟨heq, hentry⟩ := hknown.exact e he
    obtain rfl := ix.row_ext hentry hr hid
    have hg := @gathers_entryOf uni ix evidence (promptTokens uni prompt selfIdentity) e.row
    rw [← heq] at hg
    exact length_groups hg
  constructor
  · rintro ⟨e, he, hid, hcount⟩
    rwa [hlength e he hid] at hcount
  · intro hcount
    have hfound : ∃ c ∈ promptTokens uni prompt selfIdentity, ix.finds c r = true := by
      by_contra hnone
      have hnil : (promptTokens uni prompt selfIdentity).filter (fun c => ix.finds c r) = [] :=
        List.filter_eq_nil_iff.mpr fun c hc hf => hnone ⟨c, hc, hf⟩
      rw [matchedGroups, hnil] at hcount
      exact absurd hcount (by decide)
    obtain ⟨e, he, hid⟩ := List.mem_map.mp ((hknown.rows r hr).mpr hfound)
    have he' : e ∈ (gathered uni ix prompt selfIdentity evidence).perEntry := by
      rwa [gathered, searchTokens_eq]
    exact ⟨e, he', hid, by rw [hlength e he' hid]; exact hcount⟩

theorem finds_of_lower {ix : Index} (hblind : CaseBlind uni ix) {t t' : Units} {g g' : Nat}
    {r : EntryRow} (h : uni.lower t = uni.lower t') (hf : ix.finds ⟨t, g⟩ r = true) :
    ix.finds ⟨t', g'⟩ r = true := by
  unfold Index.finds Index.rowsOf at hf ⊢
  rwa [← hblind t t' h]

/-- Where tokens are apart, two words that meet in an entry are two groups. -/
theorem counted_of_tokensApart {ix : Index} {prompt : Units} {selfIdentity : List Units}
    (hapart : TokensApart uni prompt selfIdentity) (hblind : CaseBlind uni ix) {r : EntryRow}
    (h : Meet uni ix prompt selfIdentity r) :
    2 ≤ matchedGroups ix (promptTokens uni prompt selfIdentity) r := by
  obtain ⟨p, hp, q, hq, hne, hfp, hfq⟩ := h
  rcases hapart with hone | ⟨hkeys, hfirst⟩
  · exact absurd (hone p hp q hq) hne
  · -- the token of a word's own key is in the group of that word
    have hgroup : ∀ o ∈ wordTokens uni prompt selfIdentity, ix.finds ⟨o.2, 0⟩ r = true →
        ∃ c ∈ promptTokens uni prompt selfIdentity, ix.finds c r = true ∧
          (rawTokens uni prompt)[c.group]? = some o.1 := by
      intro o ho hfo
      obtain ⟨c, hc, hlower⟩ := exists_promptToken ho (hfirst o ho)
      obtain ⟨w, hw, hword⟩ := word_of_promptToken hc
      have hsame : w = o.1 := hkeys _ hword o ho hlower
      exact ⟨c, hc, finds_of_lower hblind hlower.symm hfo, hsame ▸ hw⟩
    obtain ⟨c, hc, hfc, hwc⟩ := hgroup p hp hfp
    obtain ⟨d, hd, hfd, hwd⟩ := hgroup q hq hfq
    have hgroups : c.group ≠ d.group := by
      intro heq
      rw [heq, hwd] at hwc
      exact hne (Option.some.inj hwc).symm
    have hmem : ∀ o ∈ promptTokens uni prompt selfIdentity, ix.finds o r = true → o.group ∈
        (((promptTokens uni prompt selfIdentity).filter fun c => ix.finds c r).map (·.group)).dedup :=
      fun o ho hfo => List.mem_dedup.mpr (List.mem_map_of_mem (List.mem_filter.mpr ⟨ho, hfo⟩))
    have hpair : [c.group, d.group].Nodup := by simpa using hgroups
    have hsub : [c.group, d.group] ⊆
        (((promptTokens uni prompt selfIdentity).filter fun c => ix.finds c r).map
          (·.group)).dedup := by
      intro g hg
      rcases List.mem_pair.mp hg with rfl | rfl
      · exact hmem c hc hfc
      · exact hmem d hd hfd
    exact (List.subperm_of_subset hpair hsub).length_le

/-! ## An entry that a few tokens find -/

def someEntry : EntryRow where
  rowid := 1
  id := []
  source := []
  title := []
  body := []
  frontmatter := .null
  confidence := []
  visibility := none
  topicalText := none
  symptomText := none

variable (uni) in
def someRows (keys : List Units) (query : Units) : List EntryRow :=
  if uni.lower ((query.drop 1).dropLast) ∈ keys then [someEntry] else []

theorem someRows_found (keys : List Units) (query : Units) (rows : List EntryRow)
    (h : some (someRows uni keys query) = some rows) : rows.Nodup ∧ ∀ r ∈ rows, r ∈ [someEntry] := by
  obtain rfl := Option.some.inj h
  rw [someRows]
  split
  · exact ⟨List.nodup_singleton _, fun _ hr => hr⟩
  · exact ⟨List.nodup_nil, fun r hr => absurd hr List.not_mem_nil⟩

variable (uni) in
/-- The index of one entry that the tokens of these keys find. -/
def indexOf (keys : List Units) : Index where
  entries := [someEntry]
  search query := some (someRows uni keys query)
  rowids := List.nodup_singleton _
  found := someRows_found keys

theorem search_indexOf (keys : List Units) (t : Units) : (indexOf uni keys).search (phrase t) =
    some (if uni.lower t ∈ keys then [someEntry] else []) := by
  have hphrase : ((phrase t).drop 1).dropLast = t := by
    rw [phrase, List.cons_append, List.drop_one, List.tail_cons, List.dropLast_concat]
  rw [indexOf]
  dsimp only
  rw [someRows, hphrase]

theorem caseBlind_indexOf (keys : List Units) : CaseBlind uni (indexOf uni keys) := by
  intro t t' h
  rw [search_indexOf, search_indexOf, h]

theorem finds_indexOf (keys : List Units) (c : PromptCandidate) :
    (indexOf uni keys).finds c someEntry = true ↔ uni.lower c.token ∈ keys := by
  rw [Index.finds, Index.rowsOf, search_indexOf]
  split
  · rename_i hin
    simpa using hin
  · rename_i hout
    simpa using hout

/-- At most as many groups are counted as keys of the entry's tokens are kept. -/
theorem matchedGroups_indexOf_le {prompt : Units} {selfIdentity keys : List Units} {k : Units}
    (h : ∀ c ∈ promptTokens uni prompt selfIdentity, uni.lower c.token ∈ keys → uni.lower c.token = k) :
    matchedGroups (indexOf uni keys) (promptTokens uni prompt selfIdentity) someEntry ≤ 1 := by
  have hnodup := nodup_promptTokens uni prompt selfIdentity
  rw [matchedGroups]
  generalize hfound : (promptTokens uni prompt selfIdentity).filter
    (fun c => (indexOf uni keys).finds c someEntry) = found
  have hkey : ∀ c ∈ found, uni.lower c.token = k := by
    intro c hc
    rw [← hfound] at hc
    obtain ⟨hmem, hf⟩ := List.mem_filter.mp hc
    exact h c hmem ((finds_indexOf keys c).mp hf)
  have hsub : (found.map fun c => uni.lower c.token).Nodup := by
    rw [← hfound]
    exact hnodup.sublist (List.filter_sublist.map _)
  have hlen : found.length ≤ 1 := by
    cases found with
    | nil => exact Nat.zero_le _
    | cons c rest =>
        cases rest with
        | nil => exact Nat.le_refl _
        | cons d rest =>
            have heq := (hkey c (by simp)).trans (hkey d (by simp)).symm
            simp [heq] at hsub
  exact (List.dedup_sublist _).length_le.trans (by rw [List.length_map]; exact hlen)

theorem meet_indexOf {prompt : Units} {selfIdentity : List Units} {p q : Units × Units}
    (hp : p ∈ wordTokens uni prompt selfIdentity) (hq : q ∈ wordTokens uni prompt selfIdentity)
    (hne : p.1 ≠ q.1) :
    Meet uni (indexOf uni [uni.lower p.2, uni.lower q.2]) prompt selfIdentity someEntry :=
  ⟨p, hp, q, hq, hne, (finds_indexOf _ _).mpr (by simp), (finds_indexOf _ _).mpr (by simp)⟩

/-- Two words of which at most one key is kept meet where one group is counted. -/
theorem exists_uncounted {prompt : Units} {selfIdentity : List Units} {p q : Units × Units}
    (hp : p ∈ wordTokens uni prompt selfIdentity) (hq : q ∈ wordTokens uni prompt selfIdentity)
    (hne : p.1 ≠ q.1)
    (hlost : uni.lower p.2 = uni.lower q.2 ∨ uni.lower q.2 ∉ (tokenKeys uni prompt).take 50)
    (evidence : Option (List Units)) :
    ∃ ix : Index, CaseBlind uni ix ∧ ∃ r ∈ ix.entries, Meet uni ix prompt selfIdentity r ∧
      ¬ MeetCounted uni ix prompt selfIdentity evidence r := by
  refine ⟨indexOf uni [uni.lower p.2, uni.lower q.2], caseBlind_indexOf _, someEntry,
    List.mem_singleton_self _, meet_indexOf hp hq hne, fun hcounted => ?_⟩
  rw [counted_iff (List.mem_singleton_self _)] at hcounted
  have hle := @matchedGroups_indexOf_le uni prompt selfIdentity [uni.lower p.2, uni.lower q.2]
    (uni.lower p.2) fun c hc hkey => by
      rcases List.mem_pair.mp hkey with hkey | hkey
      · exact hkey
      · rcases hlost with heq | hcut
        · exact hkey.trans heq.symm
        · -- the key was cut off, so no token that is kept has it
          have hkept : uni.lower c.token ∈ (tokenKeys uni prompt).take 50 := by
            rw [← keys_buildPromptCandidates]
            exact List.mem_map_of_mem (List.mem_filter.mp hc).1
          exact absurd (hkey ▸ hkept) hcut
  omega

/--
**Words that meet are counted** whatever the index holds, exactly where tokens are apart: all tokens
of the text come from one word, or none comes from two words and all are among the first fifty.
-/
theorem meeting_words_counted_iff (uni : Unicode) (prompt : Units) (selfIdentity : List Units) :
    (∀ (ix : Index) (evidence : Option (List Units)), CaseBlind uni ix → ∀ r ∈ ix.entries,
      Meet uni ix prompt selfIdentity r → MeetCounted uni ix prompt selfIdentity evidence r) ↔
      TokensApart uni prompt selfIdentity := by
  constructor
  · intro h
    by_contra hnot
    have hlost : ∃ p ∈ wordTokens uni prompt selfIdentity,
        ∃ q ∈ wordTokens uni prompt selfIdentity, p.1 ≠ q.1 ∧
          (uni.lower p.2 = uni.lower q.2 ∨ uni.lower q.2 ∉ (tokenKeys uni prompt).take 50) := by
      unfold TokensApart at hnot
      push Not at hnot
      obtain ⟨⟨p, hp, q, hq, hne⟩, hkeys⟩ := hnot
      by_cases hshared : ∀ p ∈ wordTokens uni prompt selfIdentity,
          ∀ q ∈ wordTokens uni prompt selfIdentity, uni.lower p.2 = uni.lower q.2 → p.1 = q.1
      · obtain ⟨o, ho, hcut⟩ := hkeys hshared
        -- one of the two words is not the one of the token that is cut off
        by_cases hpo : p.1 = o.1
        · exact ⟨q, hq, o, ho, fun heq => hne (hpo.trans heq.symm), .inr hcut⟩
        · exact ⟨p, hp, o, ho, hpo, .inr hcut⟩
      · push Not at hshared
        obtain ⟨a, ha, b, hb, hkey, hword⟩ := hshared
        exact ⟨a, ha, b, hb, hword, .inl hkey⟩
    obtain ⟨p, hp, q, hq, hne, hlost⟩ := hlost
    obtain ⟨ix, hblind, r, hr, hmeet, huncounted⟩ := exists_uncounted hp hq hne hlost none
    exact huncounted (h ix none hblind r hr hmeet)
  · intro hapart ix evidence hblind r hr hmeet
    exact (counted_iff hr).mpr (counted_of_tokensApart hapart hblind hmeet)

/-- The tables of the engine for kanji, which have no case. -/
def kanjiUnicode : Unicode where
  letterOrNumber c := 0x4e00 ≤ c.toNat && c.toNat ≤ 0x9fff
  lower := id

theorem rawTokens_refused : rawTokens kanjiUnicode (units "接続拒 接続拒否") =
    [units "接続拒", units "接続拒否"] := by decide +kernel

/-- Two words of which one begins with the other meet in an entry and are one group. -/
theorem shared_trigram_counted_once :
    ¬ ∀ (uni : Unicode) (prompt : Units) (selfIdentity : List Units) (ix : Index)
      (evidence : Option (List Units)), CaseBlind uni ix → ∀ r ∈ ix.entries,
      Meet uni ix prompt selfIdentity r → MeetCounted uni ix prompt selfIdentity evidence r := by
  intro h
  have hshort : expandToken (units "接続拒") 0 = [⟨units "接続拒", 0⟩] := by decide +kernel
  have hlong : expandToken (units "接続拒否") 0 = [⟨units "接続拒", 0⟩, ⟨units "続拒否", 0⟩] := by
    decide +kernel
  have hp : (units "接続拒", units "接続拒") ∈
      wordTokens kanjiUnicode (units "接続拒 接続拒否") [] :=
    mem_wordTokens.mpr ⟨by rw [rawTokens_refused]; simp,
      ⟨⟨units "接続拒", 0⟩, by rw [hshort]; simp, rfl⟩, List.not_mem_nil⟩
  have hq : (units "接続拒否", units "接続拒") ∈
      wordTokens kanjiUnicode (units "接続拒 接続拒否") [] :=
    mem_wordTokens.mpr ⟨by rw [rawTokens_refused]; simp,
      ⟨⟨units "接続拒", 0⟩, by rw [hlong]; simp, rfl⟩, List.not_mem_nil⟩
  obtain ⟨ix, hblind, r, hr, hmeet, huncounted⟩ :=
    exists_uncounted hp hq (by decide +kernel) (.inl rfl) none
  exact huncounted (h _ _ _ ix none hblind r hr hmeet)

end Caveat.Hooks
