import Caveat.Hooks.RetrievalProof

/-!
# The three gates

What a search returns is told by the index alone: which tokens find an entry, from how many words of the
prompt they are, which of them are in its symptom and in its topic, and how many entries each finds.
-/

namespace Caveat.Hooks

open Js

variable (uni : Unicode)

/-- The candidates of a prompt that are no tokens of one's own identity. -/
def promptTokens (prompt : Units) (selfIdentity : List Units) : List PromptCandidate :=
  (buildPromptCandidates uni prompt).filter (fun c => uni.lower c.token ∉ selfIdentity)

/-- The number of words whose tokens find an entry. -/
def matchedGroups (ix : Index) (tokens : List PromptCandidate) (r : EntryRow) : Nat :=
  ((tokens.filter (fun c => ix.finds c r)).map (·.group)).dedup.length

/-- An entry that passes all gates. -/
structure Retrieved (ix : Index) (tokens : List PromptCandidate) (evidence : Option (List Units))
    (r : EntryRow) : Prop where
  entry : r ∈ ix.entries
  groups : min 2 (tokens.map (·.group)).dedup.length ≤ matchedGroups ix tokens r
  symptom : ∃ c ∈ tokens, ix.finds c r = true ∧ inSymptom uni evidence c r = true
  topic : ∃ c ∈ tokens, ix.finds c r = true ∧ inTopic uni c r = true ∧ Rarest ix tokens c

/-- The results are the entries that pass, those of more words first, up to a limit. -/
def Retrieves (ix : Index) (tokens : List PromptCandidate) (evidence : Option (List Units))
    (limit : Nat) (results : List SearchResult) : Prop :=
  ∃ rows : List EntryRow, results = (rows.take limit).map toSearchResult ∧ rows.Nodup ∧
    (∀ r, r ∈ rows ↔ Retrieved uni ix tokens evidence r) ∧
    rows.Pairwise (fun a b => matchedGroups ix tokens b ≤ matchedGroups ix tokens a)

/-- The text that a hook searches for. -/
def hookPrompt (input : HookSearchInput) : Units :=
  match input.surface with
  | .userPrompt => orText input.topicText input.failureText
  | .stop => input.failureText
  | .toolError => bothTexts input

/-- The tokens that count in a symptom: all, or those of the failure. -/
def hookEvidence (input : HookSearchInput) : Option (List Units) :=
  match input.surface with
  | .toolError =>
      some ((buildPromptCandidates uni input.failureText).map (fun c => uni.lower c.token))
  | _ => none

variable {uni}

/-! ## The candidates -/

theorem searchTokens_eq (prompt : Units) (selfIdentity : List Units) :
    searchTokens uni prompt selfIdentity = promptTokens uni prompt selfIdentity := by
  rw [searchTokens, promptTokens]
  split
  · exact List.filter_congr fun c _ => by simp
  · rename_i hnone
    simp only [ne_eq, not_not] at hnone
    simp [hnone]

theorem key_not_mem_of_firstByToken {seen : List Units} {cs : List PromptCandidate}
    {c : PromptCandidate} (h : c ∈ firstByToken uni seen cs) : uni.lower c.token ∉ seen := by
  induction cs generalizing seen with
  | nil => exact absurd h (by simp [firstByToken])
  | cons d cs ih =>
      rw [firstByToken] at h
      split at h
      · exact ih h
      · rename_i hnew
        rcases List.mem_cons.mp h with rfl | h
        · simpa using hnew
        · exact fun hmem => ih h (List.mem_cons_of_mem _ hmem)

theorem nodup_firstByToken (seen : List Units) (cs : List PromptCandidate) :
    ((firstByToken uni seen cs).map (fun c => uni.lower c.token)).Nodup := by
  induction cs generalizing seen with
  | nil => exact List.nodup_nil
  | cons c cs ih =>
      rw [firstByToken]
      split
      · exact ih seen
      · refine List.nodup_cons.mpr ⟨fun hmem => ?_, ih _⟩
        obtain ⟨d, hd, heq⟩ := List.mem_map.mp hmem
        exact key_not_mem_of_firstByToken hd (by rw [heq]; exact List.mem_cons_self)

variable (uni) in
/-- No token is asked for twice. -/
theorem nodup_promptTokens (prompt : Units) (selfIdentity : List Units) :
    ((promptTokens uni prompt selfIdentity).map (fun c => uni.lower c.token)).Nodup := by
  have hsub : (promptTokens uni prompt selfIdentity).Sublist (firstByToken uni [] _) :=
    List.filter_sublist.trans (List.take_sublist _ _)
  exact (nodup_firstByToken [] _).sublist (hsub.map _)

theorem promptTokens_nil (selfIdentity : List Units) : promptTokens uni [] selfIdentity = [] := by
  have hstrip : stripFsPaths [] = [] := by decide +kernel
  have hraw : rawTokens uni [] = [] := by
    rw [rawTokens, hstrip]
    rfl
  rw [promptTokens, buildPromptCandidates, hraw]
  rfl

/-! ## The gates -/

theorem not_retrieved_nil {ix : Index} {evidence : Option (List Units)} {r : EntryRow} :
    ¬ Retrieved uni ix [] evidence r := by
  intro h
  obtain ⟨c, hc, _⟩ := h.symptom
  exact absurd hc (by simp)

/-- Nothing passes where no token is found. -/
theorem retrieves_nil {ix : Index} {tokens : List PromptCandidate}
    {evidence : Option (List Units)} (limit : Nat)
    (h : ∀ r, ¬ Retrieved uni ix tokens evidence r) :
    Retrieves uni ix tokens evidence limit [] :=
  ⟨[], by simp, List.nodup_nil, fun r => ⟨fun hr => absurd hr (by simp), fun hr => absurd hr (h r)⟩,
    List.Pairwise.nil⟩

theorem length_groups {ix : Index} {evidence : Option (List Units)} {tokens : List PromptCandidate}
    {r : EntryRow} {e : PerEntry} (h : Gathers uni ix evidence tokens r e) :
    e.groups.length = matchedGroups ix tokens r := by
  refine ((List.perm_ext_iff_of_nodup h.nodup (List.nodup_dedup _)).mpr fun g => ?_).length_eq
  rw [h.groups g, List.mem_dedup, List.mem_map]
  simp only [List.mem_filter, and_assoc]

/-- The filter of the code is what the gates say. -/
theorem passes_iff {ix : Index} {evidence : Option (List Units)} {tokens : List PromptCandidate}
    (hkeys : (tokens.map (fun c => uni.lower c.token)).Nodup) {r : EntryRow} (hr : r ∈ ix.entries)
    {e : PerEntry} (h : Gathers uni ix evidence tokens r e) :
    passes (minMatches tokens)
        (rareTokens (tokens.map (fun c => (uni.lower c.token, ix.df c)))) e = true ↔
      Retrieved uni ix tokens evidence r := by
  have hsymptom : e.symptomTokens ≠ [] ↔
      ∃ c ∈ tokens, ix.finds c r = true ∧ inSymptom uni evidence c r = true := by
    refine ⟨fun hne => ?_, fun ⟨c, hc, hfinds, hin⟩ =>
      List.ne_nil_of_mem ((h.symptom _).mpr ⟨c, hc, hfinds, hin, rfl⟩)⟩
    obtain ⟨t, ht⟩ := List.exists_mem_of_ne_nil _ hne
    obtain ⟨c, hc, hfinds, hin, _⟩ := (h.symptom t).mp ht
    exact ⟨c, hc, hfinds, hin⟩
  have htopic : (∃ t ∈ e.topicalTokens,
      t ∈ rareTokens (tokens.map (fun c => (uni.lower c.token, ix.df c)))) ↔
        ∃ c ∈ tokens, ix.finds c r = true ∧ inTopic uni c r = true ∧ Rarest ix tokens c := by
    refine ⟨fun ⟨t, ht, hrare⟩ => ?_, fun ⟨c, hc, hfinds, hin, hrare⟩ =>
      ⟨_, (h.topic _).mpr ⟨c, hc, hfinds, hin, rfl⟩, mem_rareTokens.mpr ⟨c, hc, rfl, hrare⟩⟩⟩
    obtain ⟨c, hc, hfinds, hin, hkey⟩ := (h.topic t).mp ht
    obtain ⟨d, hd, hkey', hrare⟩ := mem_rareTokens.mp hrare
    -- a lower case stands for one token
    have hsame : d = c := List.inj_on_of_nodup_map hkeys hd hc (hkey'.trans hkey.symm)
    exact ⟨c, hc, hfinds, hin, hsame ▸ hrare⟩
  have hgroups : minMatches tokens ≤ e.groups.length ↔
      min 2 (tokens.map (·.group)).dedup.length ≤ matchedGroups ix tokens r := by
    rw [length_groups h]
    rfl
  simp only [passes, Bool.and_eq_true, decide_eq_true_eq, List.any_eq_true,
    List.contains_eq_mem, hsymptom, hgroups, htopic]
  exact ⟨fun ⟨⟨h1, h2⟩, h3⟩ => ⟨hr, h1, h2, h3⟩, fun h => ⟨⟨h.groups, h.symptom⟩, h.topic⟩⟩

/-- The entries that pass, sorted. -/
theorem retrieves_sorted {ix : Index} {evidence : Option (List Units)}
    {tokens : List PromptCandidate} {es : List PerEntry}
    (hkeys : (tokens.map (fun c => uni.lower c.token)).Nodup)
    (h : Holds uni ix (entryOf uni ix evidence tokens) (fun r => ∃ c ∈ tokens, ix.finds c r = true)
      es) (limit : Nat) :
    Retrieves uni ix tokens evidence limit
      ((((es.filter (passes (minMatches tokens)
        (rareTokens (tokens.map (fun c => (uni.lower c.token, ix.df c)))))).mergeSort
          (fun a b => b.groups.length ≤ a.groups.length)).take limit).map
            (fun e => toSearchResult e.row)) := by
  have hgathers : ∀ e ∈ es, e.row ∈ ix.entries ∧ Gathers uni ix evidence tokens e.row e := by
    intro e he
    obtain ⟨heq, hentry⟩ := h.exact e he
    refine ⟨hentry, ?_⟩
    have hg : Gathers uni ix evidence tokens e.row (entryOf uni ix evidence tokens e.row) :=
      gathers_entryOf ix evidence tokens e.row
    rwa [← heq] at hg
  generalize hq : passes (minMatches tokens)
    (rareTokens (tokens.map (fun c => (uni.lower c.token, ix.df c)))) = q
  have hperm := List.mergeSort_perm (es.filter q) (fun a b => b.groups.length ≤ a.groups.length)
  have hsorted : ((es.filter q).mergeSort (fun a b => b.groups.length ≤ a.groups.length)).Pairwise
      (fun a b => decide (b.groups.length ≤ a.groups.length) = true) := by
    refine List.pairwise_mergeSort (fun a b c hab hbc => ?_) (fun a b => ?_) _
    · simp only [decide_eq_true_eq] at hab hbc ⊢
      omega
    · simp only [Bool.or_eq_true, decide_eq_true_eq]
      omega
  generalize (es.filter q).mergeSort (fun a b => b.groups.length ≤ a.groups.length) = sorted
    at hperm hsorted ⊢
  have hmem : ∀ e, e ∈ sorted ↔ e ∈ es ∧ q e = true := fun e => by
    rw [hperm.mem_iff, List.mem_filter]
  refine ⟨sorted.map (·.row), ?_, ?_, fun r => ?_, ?_⟩
  · rw [← List.map_take, List.map_map]
    rfl
  · have hids : (sorted.map (·.row.rowid)).Nodup :=
      (hperm.map _).nodup_iff.mpr (h.rowids.sublist (List.filter_sublist.map _))
    have hrows : sorted.map (·.row.rowid) = (sorted.map (·.row)).map (·.rowid) := by
      rw [List.map_map]
      rfl
    rw [hrows] at hids
    exact hids.of_map
  · rw [List.mem_map]
    refine ⟨?_, fun hr => ?_⟩
    · rintro ⟨e, he, rfl⟩
      obtain ⟨he, hpass⟩ := (hmem e).mp he
      obtain ⟨hentry, hg⟩ := hgathers e he
      rw [← hq] at hpass
      exact (passes_iff hkeys hentry hg).mp hpass
    · obtain ⟨c, hc, hfinds, _⟩ := hr.symptom
      obtain ⟨e, he, hid⟩ := List.mem_map.mp ((h.rows r hr.entry).mpr ⟨c, hc, hfinds⟩)
      obtain ⟨hentry, hg⟩ := hgathers e he
      have hrow : e.row = r := ix.row_ext hentry hr.entry hid
      refine ⟨e, (hmem e).mpr ⟨he, ?_⟩, hrow⟩
      rw [← hq]
      exact (passes_iff hkeys hentry hg).mpr (hrow ▸ hr)
  · rw [List.pairwise_map]
    refine hsorted.imp_of_mem fun {a b} ha hb hab => ?_
    rw [← length_groups (hgathers a ((hmem a).mp ha).1).2,
      ← length_groups (hgathers b ((hmem b).mp hb).1).2]
    simpa using hab

variable (uni) in
theorem findCaveatsForText_retrieves (ix : Index) (prompt : Units) (limit : Option Nat)
    (selfIdentity : List Units) (evidence : Option (List Units)) :
    Retrieves uni ix (promptTokens uni prompt selfIdentity) evidence (limit.getD 5)
      (findCaveatsForText uni ix prompt limit selfIdentity evidence) := by
  rw [findCaveatsForText]
  split
  · rename_i hprompt
    rw [hprompt, promptTokens_nil]
    exact retrieves_nil _ fun r => not_retrieved_nil
  · dsimp only
    rw [searchTokens_eq]
    have hkeys := nodup_promptTokens uni prompt selfIdentity
    generalize promptTokens uni prompt selfIdentity = tokens at hkeys ⊢
    have hknown := known_gathered ix evidence tokens hkeys
    generalize tokens.foldl (gatherToken uni ix evidence) ⟨[], []⟩ = s at hknown ⊢
    rw [hknown.df]
    split
    · rename_i hnone
      rw [hnone]
      exact retrieves_nil _ fun r => not_retrieved_nil
    · split
      · rename_i hinvalid
        refine retrieves_nil _ fun r hr => ?_
        obtain ⟨c, hc, _, _, hpos, _⟩ := hr.topic
        have hmem : (uni.lower c.token, ix.df c) ∈
            validDfs (tokens.map (fun c => (uni.lower c.token, ix.df c))) :=
          mem_validDfs.mpr ⟨c, hc, rfl, rfl, hpos⟩
        rw [hinvalid] at hmem
        exact absurd hmem (by simp)
      · exact retrieves_sorted hkeys hknown.perEntry _

/--
**The three gates.** What a search for a text returns is the entries that pass the gates; a hook searches
for the text of its surface, and only the failure of a tool counts in a symptom.
-/
theorem three_gates (uni : Unicode) (ix : Index) (limit : Option Nat) (selfIdentity : List Units) :
    (∀ prompt evidence,
      Retrieves uni ix (promptTokens uni prompt selfIdentity) evidence (limit.getD 5)
        (findCaveatsForText uni ix prompt limit selfIdentity evidence)) ∧
    ∀ input,
      Retrieves uni ix (promptTokens uni (hookPrompt input) selfIdentity) (hookEvidence uni input)
        (limit.getD 5) (findCaveatsForHook uni ix input limit selfIdentity) := by
  have htext := fun prompt evidence =>
    findCaveatsForText_retrieves uni ix prompt limit selfIdentity evidence
  refine ⟨htext, fun input => ?_⟩
  rw [findCaveatsForHook, hookPrompt, hookEvidence]
  cases input.surface with
  | userPrompt => exact htext _ _
  | stop => exact htext _ _
  | toolError => exact htext _ _

end Caveat.Hooks

