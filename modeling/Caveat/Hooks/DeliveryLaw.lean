import Caveat.Hooks.ReadBack
import Caveat.Lib.Separated

/-!
# What a session is shown of the hits it was reminded of

The text of a reminder stands for its hits if a session keeps of it each hit that it has not been shown,
once and with its source and id, whatever it has been shown before. The texts of prompts and of tool
errors do so exactly where the hits are legible; the one at the end of a session also shows paths and
queries, and what these read as is kept with the hits.
-/

namespace Caveat.Hooks

open Js
open Publish (isSpaceUnit isDigitUnit)

def SearchResult.pair (h : SearchResult) : Units × Units := (h.source, h.id)

def Hit.pair (h : Hit) : Units × Units := (h.source, h.id)

theorem Hit.ref_eq (h : Hit) : h.ref = refOf h.pair.1 h.pair.2 := rfl

/-- `Source`: the handle is the name of a directory. -/
def IsSource (source : Units) : Prop :=
  source = units "own" ∨
    ∃ handle, handle ≠ [] ∧ unitOf '/' ∉ handle ∧ source = units "community/" ++ handle

/-- Of a text a session keeps the hits that it has not been shown. -/
def ReadsBack (text : Units) (hits : List SearchResult) : Prop :=
  ∀ managed state additionally,
    let kept := (prepareSessionDelivery managed state [text] additionally).hits.map Hit.pair
    kept.Nodup ∧ ∀ p, p ∈ kept ↔
      p ∈ hits.map SearchResult.pair ∧ refOf p.1 p.2 ∉ state.ids ++ additionally

/-- What the hits say can be read. -/
structure Legible (hits : List SearchResult) : Prop where
  id : ∀ h ∈ hits, h.id ≠ [] ∧ (∀ u ∈ h.id, isSpaceUnit u = false) ∧
    sanitizeReminderDisplay h.id reminderIdMax = h.id
  source : ∀ h ∈ hits, unitOf ')' ∉ h.source ∧
    sanitizeReminderDisplay h.source reminderSourceMax = h.source
  /-- A reference is read from a line with a title. -/
  title : ∀ h ∈ hits, ∃ g ∈ hits, g.pair = h.pair ∧ shownTitle g ≠ []

/-- The same where some other lines read as hits, of which the first with a reference counts. -/
def LegibleBeside (others : List Hit) (hits : List SearchResult) : Prop :=
  ∀ p, p ∈ (newHits [] (others ++ hits.filterMap readBack)).map Hit.pair ↔
    p ∈ hits.map SearchResult.pair

/-! ## References -/

theorem nodup_pairs (seen : List Units) (hs : List Hit) :
    ((newHits seen hs).map Hit.pair).Nodup := by
  have href := nodup_newHits seen hs
  have heq : (newHits seen hs).map Hit.ref =
      ((newHits seen hs).map Hit.pair).map (fun p => refOf p.1 p.2) := by
    rw [List.map_map]
    rfl
  rw [heq] at href
  exact href.of_map

/-- A slash stands behind `own`, or behind the handle. -/
theorem refOf_inj {s s' i i' : Units} (hs : IsSource s) (hs' : IsSource s')
    (h : refOf s i = refOf s' i') : s = s' ∧ i = i' := by
  have hhead : ∀ (handle rest rest' : Units),
      refOf (units "community/" ++ handle) rest ≠ refOf (units "own") rest' := by
    intro handle rest rest' heq
    exact absurd (List.cons.inj heq).1 (by decide)
  rcases hs with rfl | ⟨handle, _, hslash, rfl⟩
  · rcases hs' with rfl | ⟨handle', _, _, rfl⟩
    · exact ⟨rfl, (List.cons.inj (List.append_cancel_left h)).2⟩
    · exact absurd h.symm (hhead handle' i' i)
  · rcases hs' with rfl | ⟨handle', _, hslash', rfl⟩
    · exact absurd h (hhead handle i i')
    · simp only [refOf, List.append_assoc, List.append_cancel_left_eq] at h
      obtain ⟨rfl, rfl⟩ := Lib.append_separator_inj hslash hslash' h
      exact ⟨rfl, rfl⟩

theorem IsSource.ne_nil {source : Units} (h : IsSource source) : source ≠ [] := by
  rcases h with rfl | ⟨handle, hne, _, rfl⟩
  · exact units_ne_nil _ _ (by decide)
  · simp [hne]

/-- What is kept of a text is told by the hits that are read of it. -/
theorem readsBack_iff {text : Units} (hframed : Framed text) (hits : List SearchResult) :
    ReadsBack text hits ↔ ∀ p, p ∈ (newHits [] (reads text)).map Hit.pair ↔
      p ∈ hits.map SearchResult.pair := by
  refine ⟨fun h p => ?_, fun h managed state additionally => ?_⟩
  · -- a session that has been shown nothing
    have hfirst := (h false DeliveredState.empty []).2 p
    rw [hits_prepareSessionDelivery hframed] at hfirst
    simpa [DeliveredState.empty] using hfirst
  · dsimp only
    rw [hits_prepareSessionDelivery hframed]
    refine ⟨nodup_pairs _ _, fun p => ?_⟩
    have hseen := newHits_append [] (state.ids ++ additionally) (reads text)
    rw [List.nil_append] at hseen
    rw [hseen, ← h p, List.mem_map, List.mem_map]
    refine ⟨?_, ?_⟩
    · rintro ⟨g, hg, rfl⟩
      obtain ⟨hg, hnew⟩ := List.mem_filter.mp hg
      exact ⟨⟨g, hg, rfl⟩, by simpa [Hit.ref_eq] using hnew⟩
    · rintro ⟨⟨g, hg, rfl⟩, hnew⟩
      exact ⟨g, List.mem_filter.mpr ⟨hg, by simpa [Hit.ref_eq] using hnew⟩, rfl⟩

/-! ## Legible hits -/

theorem sanitize_of_solid {s : Units} (h : ∀ u ∈ s, isSpaceUnit u = false) (n : Nat) :
    sanitizeReminderDisplay s n = (s.map disarmUnit).take n := by
  rw [sanitizeReminderDisplay, collapseSpace_of_noRuns (noRuns_of_solid h),
    trimUnits_of_tight (tight_of_solid h)]

theorem solid_sanitize {s : Units} (h : ∀ u ∈ s, isSpaceUnit u = false) {n : Nat} :
    ∀ u ∈ sanitizeReminderDisplay s n, isSpaceUnit u = false := by
  intro u hu
  rw [sanitize_of_solid h] at hu
  obtain ⟨v, hv, rfl⟩ := List.mem_map.mp (List.mem_of_mem_take hu)
  rw [isSpaceUnit_disarmUnit]
  exact h v hv

theorem paren_not_mem_sanitize {s : Units} (h : unitOf ')' ∉ s) (n : Nat) :
    unitOf ')' ∉ sanitizeReminderDisplay s n := by
  intro hmem
  obtain ⟨v, hv, heq⟩ := List.mem_map.mp (List.mem_of_mem_take hmem)
  have hv' : v = unitOf ')' := by
    rw [disarmUnit] at heq
    split at heq
    · exact absurd heq (by decide)
    · split at heq
      · exact absurd heq (by decide)
      · exact heq
  rcases mem_collapseSpace ((trimUnits_within _).subset hv) with hspace | ⟨hv, _⟩
  · rw [hspace] at hv'
    exact absurd hv' (by decide)
  · rw [hv'] at hv
    exact h hv

/-- The parts of the line of a hit are read if they can be. -/
theorem readBack_parts {h : SearchResult} (hsolid : ∀ u ∈ h.id, isSpaceUnit u = false)
    (hid : sanitizeReminderDisplay h.id reminderIdMax ≠ []) (hparen : unitOf ')' ∉ h.source)
    (hsource : sanitizeReminderDisplay h.source reminderSourceMax ≠ []) :
    readBack h = if shownTitle h = [] then none else
      some ⟨sanitizeReminderDisplay h.id reminderIdMax,
        sanitizeReminderDisplay h.source reminderSourceMax, shownTitle h⟩ := by
  rw [readBack, reminderHitLine, readHit_hitLine]
  exact readNumbered_parts hid (solid_sanitize hsolid) hsource (paren_not_mem_sanitize hparen _)
    fun u hu => no_lineEnd_shownTitle hu

theorem readBack_eq_some {h : SearchResult} {r : Hit}
    (hsolid : ∀ u ∈ h.id, isSpaceUnit u = false) (hparen : unitOf ')' ∉ h.source)
    (hread : readBack h = some r) :
    r.id = sanitizeReminderDisplay h.id reminderIdMax ∧
      r.source = sanitizeReminderDisplay h.source reminderSourceMax ∧ shownTitle h ≠ [] := by
  have hline := hread
  rw [readBack, reminderHitLine, readHit_hitLine] at hline
  by_cases hid : sanitizeReminderDisplay h.id reminderIdMax = []
  · rw [hid, List.nil_append, readNumbered_no_id] at hline
    exact absurd hline (by simp)
  · by_cases hsource : sanitizeReminderDisplay h.source reminderSourceMax = []
    · rw [hsource, List.nil_append, readNumbered_no_source hid (solid_sanitize hsolid)] at hline
      exact absurd hline (by simp)
    · rw [readBack_parts hsolid hid hparen hsource] at hread
      split at hread
      · exact absurd hread (by simp)
      · rename_i htitle
        obtain rfl := Option.some.inj hread
        exact ⟨rfl, rfl, htitle⟩

theorem readBack_fields {h : SearchResult} {r : Hit} (hread : readBack h = some r) :
    r.id ≠ [] ∧ (∀ u ∈ r.id, isSpaceUnit u = false) ∧ unitOf ')' ∉ r.source := by
  rw [readBack, reminderHitLine, readHit_hitLine] at hread
  exact readNumbered_fields hread

/--
If each reference is read from some line, then every id and every source is a shown one, and what has
been shown is shown as it is.
-/
theorem legible_of_read {hits : List SearchResult}
    (h : ∀ g ∈ hits, ∃ g' ∈ hits, ∃ r, readBack g' = some r ∧ r.pair = g.pair) : Legible hits := by
  have hplain : ∀ g ∈ hits, g.id ≠ [] ∧ (∀ u ∈ g.id, isSpaceUnit u = false) ∧
      unitOf ')' ∉ g.source := by
    intro g hg
    obtain ⟨g', _, r, hread, hpair⟩ := h g hg
    obtain ⟨hsource, hid⟩ := Prod.mk.inj hpair
    rw [← hid, ← hsource]
    exact readBack_fields hread
  have hshown : ∀ g ∈ hits, ∃ g' ∈ hits, g.id = sanitizeReminderDisplay g'.id reminderIdMax ∧
      g.source = sanitizeReminderDisplay g'.source reminderSourceMax ∧ shownTitle g' ≠ [] := by
    intro g hg
    obtain ⟨g', hg', r, hread, hpair⟩ := h g hg
    obtain ⟨hsource, hid⟩ := Prod.mk.inj hpair
    obtain ⟨hrid, hrsource, htitle⟩ :=
      readBack_eq_some (hplain g' hg').2.1 (hplain g' hg').2.2 hread
    exact ⟨g', hg', hid.symm.trans hrid, hsource.symm.trans hrsource, htitle⟩
  have hid : ∀ g ∈ hits, sanitizeReminderDisplay g.id reminderIdMax = g.id := by
    intro g hg
    obtain ⟨g', _, heq, _⟩ := hshown g hg
    refine sanitize_of_displayed (displayed_of_solid (hplain g hg).2.1 (fun u hu => ?_) ?_)
    · rw [heq] at hu
      exact unarmed_sanitize hu
    · rw [heq]
      exact length_sanitize _ _
  have hshort : ∀ g ∈ hits, g.source.length ≤ reminderSourceMax := by
    intro g hg
    obtain ⟨g', _, _, heq, _⟩ := hshown g hg
    rw [heq]
    exact length_sanitize _ _
  have hsource : ∀ g ∈ hits, sanitizeReminderDisplay g.source reminderSourceMax = g.source := by
    intro g hg
    obtain ⟨g', hg', _, heq, _⟩ := hshown g hg
    rw [heq]
    exact sanitize_of_displayed (displayed_sanitize (hshort g' hg'))
  refine ⟨fun g hg => ⟨(hplain g hg).1, (hplain g hg).2.1, hid g hg⟩,
    fun g hg => ⟨(hplain g hg).2.2, hsource g hg⟩, fun g hg => ?_⟩
  obtain ⟨g', hg', hgid, hgsource, htitle⟩ := hshown g hg
  refine ⟨g', hg', ?_, htitle⟩
  rw [SearchResult.pair, SearchResult.pair, hgid, hgsource, hid g' hg', hsource g' hg']

theorem readBack_of_legible {hits : List SearchResult} (hlegible : Legible hits)
    (hsources : ∀ h ∈ hits, IsSource h.source) {h : SearchResult} (hh : h ∈ hits) :
    readBack h = if shownTitle h = [] then none else some ⟨h.id, h.source, shownTitle h⟩ := by
  obtain ⟨hne, hsolid, hid⟩ := hlegible.id h hh
  obtain ⟨hparen, hsource⟩ := hlegible.source h hh
  have hparts := readBack_parts hsolid (by rw [hid]; exact hne) hparen
    (by rw [hsource]; exact (hsources h hh).ne_nil)
  rw [hid, hsource] at hparts
  exact hparts

theorem legibleBeside_nil {hits : List SearchResult} (hsources : ∀ h ∈ hits, IsSource h.source) :
    LegibleBeside [] hits ↔ Legible hits := by
  refine ⟨fun h => legible_of_read fun g hg => ?_, fun h p => ⟨fun hp => ?_, fun hp => ?_⟩⟩
  · obtain ⟨r, hr, hpair⟩ := List.mem_map.mp ((h g.pair).mpr (List.mem_map_of_mem hg))
    obtain ⟨g', hg', hread⟩ := List.mem_filterMap.mp ((newHits_sublist _ _).subset hr)
    exact ⟨g', hg', r, hread, hpair⟩
  · obtain ⟨r, hr, rfl⟩ := List.mem_map.mp hp
    obtain ⟨g, hg, hread⟩ := List.mem_filterMap.mp ((newHits_sublist _ _).subset hr)
    rw [readBack_of_legible h hsources hg] at hread
    split at hread
    · exact absurd hread (by simp)
    · obtain rfl := Option.some.inj hread
      exact List.mem_map.mpr ⟨g, hg, rfl⟩
  · obtain ⟨g, hg, rfl⟩ := List.mem_map.mp hp
    obtain ⟨g', hg', hpair, htitle⟩ := h.title g hg
    have hread := readBack_of_legible h hsources hg'
    rw [if_neg htitle] at hread
    -- the line is read, and what is kept of its reference is a hit with that reference
    have hmem : (⟨g'.id, g'.source, shownTitle g'⟩ : Hit) ∈ [] ++ hits.filterMap readBack :=
      List.mem_filterMap.mpr ⟨g', hg', hread⟩
    obtain ⟨r, hr, href⟩ := List.mem_map.mp (ref_mem_newHits hmem (List.not_mem_nil))
    obtain ⟨g2, hg2, hread2⟩ := List.mem_filterMap.mp ((newHits_sublist _ _).subset hr)
    rw [readBack_of_legible h hsources hg2] at hread2
    split at hread2
    · exact absurd hread2 (by simp)
    · obtain rfl := Option.some.inj hread2
      obtain ⟨hsource, hid⟩ := refOf_inj (hsources g2 hg2) (hsources g' hg') href
      rw [← hpair]
      exact List.mem_map.mpr ⟨_, hr, Prod.ext hsource hid⟩

/--
The texts of prompts and of tool errors are read as their hits exactly where these are legible; so is
that at the end of a session where no line of the signals reads as a hit.
-/
theorem reminders_read_back (hits : List SearchResult) (hsources : ∀ h ∈ hits, IsSource h.source) :
    (∀ surface managed,
      ReadsBack (userPromptSubmitReminderText hits surface managed) hits ↔ Legible hits) ∧
    (∀ surface managed,
      ReadsBack (toolErrorReminderText hits surface managed) hits ↔ Legible hits) ∧
    (∀ signals surface managed,
      ReadsBack (stopReminderText signals hits surface managed) hits ↔
        LegibleBeside (signalHits signals) hits) ∧
    (LegibleBeside [] hits ↔ Legible hits) := by
  have hnone := legibleBeside_nil hsources
  refine ⟨fun surface managed => ?_, fun surface managed => ?_, fun signals surface managed => ?_,
    hnone⟩
  · rw [readsBack_iff (framed_userPrompt hits surface managed), reads_userPrompt, ← hnone]
    rfl
  · rw [readsBack_iff (framed_toolError hits surface managed), reads_toolError, ← hnone]
    rfl
  · rw [readsBack_iff (framed_stop signals hits surface managed), reads_stop]
    rfl

/-- A hit of the own knowledge. -/
def ownHit (id title : String) : SearchResult :=
  ⟨units id, units "own", units title, [], units "confirmed", units "public", .null⟩

theorem legible_ownHit : Legible [ownHit "trap-a" "Trap A"] := by
  have hplain : ∀ u ∈ (ownHit "trap-a" "Trap A").id, (!isSpaceUnit u) = true :=
    List.all_eq_true.mp rfl
  have hkept : (ownHit "trap-a" "Trap A").id ≠ [] ∧
      sanitizeReminderDisplay (ownHit "trap-a" "Trap A").id reminderIdMax =
        (ownHit "trap-a" "Trap A").id := by decide +kernel
  have hsource : unitOf ')' ∉ (ownHit "trap-a" "Trap A").source ∧
      sanitizeReminderDisplay (ownHit "trap-a" "Trap A").source reminderSourceMax =
        (ownHit "trap-a" "Trap A").source := by decide +kernel
  have htitle : shownTitle (ownHit "trap-a" "Trap A") ≠ [] := by decide +kernel
  constructor
  all_goals
    intro h hh
    obtain rfl := List.mem_singleton.mp hh
  · exact ⟨hkept.1, fun u hu => by simpa using hplain u hu, hkept.2⟩
  · exact hsource
  · exact ⟨_, List.mem_singleton_self _, rfl, htitle⟩

theorem isSource_ownHit (id title : String) : ∀ h ∈ [ownHit id title], IsSource h.source := by
  intro h hh
  obtain rfl := List.mem_singleton.mp hh
  exact .inl rfl

theorem reminders_read_back_own :
    ReadsBack (userPromptSubmitReminderText [ownHit "trap-a" "Trap A"] .claudeMcp false)
      [ownHit "trap-a" "Trap A"] :=
  ((reminders_read_back [ownHit "trap-a" "Trap A"] (isSource_ownHit _ _)).1 .claudeMcp false).mpr
    legible_ownHit

theorem not_readsBack {text : Units} {h : SearchResult} (hframed : Framed text)
    (hreads : reads text = []) : ¬ ReadsBack text [h] := by
  rw [readsBack_iff hframed, hreads]
  intro hall
  have hmem := (hall h.pair).mpr List.mem_cons_self
  exact absurd hmem (by simp [newHits])

/-- A hit whose id has a space is in no text found again, although it is in each of them. -/
theorem spaced_id_lost :
    let hits := [ownHit "my trap" "Trap"]
    (∀ h ∈ hits, IsSource h.source) ∧
      ¬ ReadsBack (userPromptSubmitReminderText hits .claudeMcp false) hits ∧
      ¬ ReadsBack (toolErrorReminderText hits .claudeMcp false) hits ∧
      ¬ ReadsBack (stopReminderText ⟨1, [], 0, 0, 0, 0, []⟩ hits .claudeMcp false) hits := by
  have hnone : [ownHit "my trap" "Trap"].filterMap readBack = [] := by decide +kernel
  have hsignals : signalHits ⟨1, [], 0, 0, 0, 0, []⟩ = [] := by decide +kernel
  refine ⟨isSource_ownHit _ _, ?_, ?_, ?_⟩
  · exact not_readsBack (framed_userPrompt _ _ _) ((reads_userPrompt _ _ _).trans hnone)
  · exact not_readsBack (framed_toolError _ _ _) ((reads_toolError _ _ _).trans hnone)
  · refine not_readsBack (framed_stop _ _ _ _) ?_
    rw [reads_stop, hsignals, hnone]
    rfl

end Caveat.Hooks
