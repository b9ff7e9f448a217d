import Caveat.Install.HookQuoting
import Caveat.Install.HookRemovalLaw

/-!
# One hook for each event

An upsert of hooks acts on the list of its event and on nothing else, and on this list as an upsert of
the hooks in it does, however the agent keeps them. So a run of upserts leaves one hook of Caveat's
for each event if every list is one that an upsert can put right.
-/

namespace Caveat.Install

open Js
open Lib (Scan Hit Upsertable Upserting upsertList)
open Cursor (listFor)

/-! ## Assignment -/

/-- Settings that are an object, with an object of hooks, if any. -/
def Shaped (settings : Settings) : Bool :=
  match settings with
  | .object _ =>
      match settings.prop hooksKey with
      | none | some .null | some (.object _) => true
      | _ => false
  | _ => false

/-- What holds the lists of the events. -/
theorem Shaped.hooks {settings : Settings} (h : Shaped settings = true) :
    ∃ members events, settings = .object members ∧ hooksOrEmpty settings = .object events ∧
      ∀ key, eventProp settings key = own events key := by
  cases settings with
  | object members =>
      rw [Shaped] at h
      cases hprop : (Data.object members : Settings).prop hooksKey with
      | none => exact ⟨members, [], rfl, by rw [hooksOrEmpty, hprop], fun key => by
          rw [eventProp, hprop]; rfl⟩
      | some hooks =>
          rw [hprop] at h
          cases hooks with
          | null => exact ⟨members, [], rfl, by rw [hooksOrEmpty, hprop], fun key => by
              rw [eventProp, hprop]; rfl⟩
          | object events => exact ⟨members, events, rfl, by rw [hooksOrEmpty, hprop], fun key => by
              rw [eventProp, hprop]; rfl⟩
          | string s => cases h
          | scalar s => cases h
          | array items => cases h
  | null => cases h
  | string s => cases h
  | scalar s => cases h
  | array items => cases h

section Assign

variable {settings : Settings} (h : Shaped settings = true) (event : Units) (list : List Settings)
include h

theorem prop_assignEvent : ∃ events, (assignEvent settings event list).prop hooksKey = some (.object events) ∧
    ∀ key, own events key = if key = event then some (.array list) else eventProp settings key := by
  obtain ⟨members, events, rfl, hhooks, hprop⟩ := Shaped.hooks h
  rw [assignEvent, hhooks]
  refine ⟨define events (event, .array list), ?_, fun key => ?_⟩
  · show own (define members (hooksKey, _)) hooksKey = _
    rw [own_define, if_pos rfl]
    rfl
  · rw [own_define, hprop]

theorem eventProp_assignEvent (key : Units) : eventProp (assignEvent settings event list) key =
    if key = event then some (.array list) else eventProp settings key := by
  obtain ⟨events, hevents, hown⟩ := prop_assignEvent h event list
  rw [eventProp, hevents, ← hown]
  rfl

omit h in
theorem prop_assignEvent_of_ne {key : Units} (hkey : key ≠ hooksKey) :
    (assignEvent settings event list).prop key = settings.prop key :=
  Data.prop_setProp_of_ne _ _ hkey

theorem shaped_assignEvent : Shaped (assignEvent settings event list) = true := by
  obtain ⟨events, hevents, _⟩ := prop_assignEvent h event list
  cases hassigned : assignEvent settings event list with
  | object members =>
      rw [hassigned] at hevents
      unfold Shaped
      simp only [hevents]
  | null => rw [hassigned] at hevents; cases hevents
  | string s => rw [hassigned] at hevents; cases hevents
  | scalar s => rw [hassigned] at hevents; cases hevents
  | array items => rw [hassigned] at hevents; cases hevents

theorem listFor_assignEvent : listFor (assignEvent settings event list) event = list := by
  rw [listFor, eventProp_assignEvent h, if_pos rfl]

end Assign

/-! ## Runs -/

/-- A list, or nothing that stands for an empty one. -/
def IsList : Option Settings → Prop
  | none | some .null | some (.array _) => True
  | _ => False

/-- What a change of an event is, where the settings have their shape: `up` of its list. -/
def ActsOnList (change : Settings → Except HookError (Option Settings))
    (up : List Settings → Except HookError (Option (List Settings))) (event : Units) : Prop :=
  ∀ settings, Shaped settings = true → IsList (eventProp settings event) →
    change settings = (up (listFor settings event)).map (Option.map (assignEvent settings event))

theorem listFor_congr {settings settings' : Settings} {key : Units}
    (h : eventProp settings' key = eventProp settings key) : listFor settings' key = listFor settings key := by
  rw [listFor, listFor, h]

variable {change : ManagedEvent → Settings → Except HookError (Option Settings)}
  {up : ManagedEvent → List Settings → Except HookError (Option (List Settings))}

/-- What a run of changes leaves. -/
structure Ran (events : List ManagedEvent) (c : ManagedEvent → Option (List Settings))
    (run run' : HookRun) : Prop where
  shaped : Shaped run'.settings = true
  lists : ∀ e ∈ events, listFor run'.settings e.key = (c e).getD (listFor run.settings e.key) ∧
    IsList (eventProp run'.settings e.key)
  others : ∀ key, key ∉ events.map ManagedEvent.key →
    eventProp run'.settings key = eventProp run.settings key
  settings : ∀ key, key ≠ hooksKey → run'.settings.prop key = run.settings.prop key
  changed : run'.hooks.any id = true ↔ run.hooks.any id = true ∨ ∃ e ∈ events, (c e).isSome = true
  same : (∀ e ∈ events, c e = none) → run'.settings = run.settings

/-- A change of one event. -/
theorem ran_next {run : HookRun} (hshaped : Shaped run.settings = true) {e : ManagedEvent}
    (hlist : IsList (eventProp run.settings e.key)) {c : ManagedEvent → Option (List Settings)} :
    Ran [e] c run (run.next ((c e).map (assignEvent run.settings e.key))) := by
  cases hc : c e with
  | none =>
      refine ⟨hshaped, ?_, fun _ _ => rfl, fun _ _ => rfl, ?_, fun _ => rfl⟩
      · simpa [hc, HookRun.next] using hlist
      · simp [HookRun.next, hc]
  | some list =>
      refine ⟨shaped_assignEvent hshaped e.key list, ?_, ?_, ?_, ?_, ?_⟩
      · have hprop := eventProp_assignEvent hshaped e.key list e.key
        rw [if_pos rfl] at hprop
        have hfor := listFor_assignEvent hshaped e.key list
        simpa [hc, HookRun.next, hprop, IsList] using hfor
      · intro key hkey
        have hne : key ≠ e.key := by simpa using hkey
        show eventProp (assignEvent run.settings e.key list) key = _
        rw [eventProp_assignEvent hshaped, if_neg hne]
      · intro key hkey
        exact prop_assignEvent_of_ne e.key list hkey
      · simp [HookRun.next, hc]
      · intro hnone
        rw [hnone e List.mem_cons_self] at hc
        cases hc

theorem Ran.cons {e : ManagedEvent} {events : List ManagedEvent} {c : ManagedEvent → Option (List Settings)}
    {run run₁ run₂ : HookRun} (hnew : e.key ∉ events.map ManagedEvent.key) (h : Ran [e] c run run₁)
    (h' : Ran events c run₁ run₂) : Ran (e :: events) c run run₂ := by
  have hne : ∀ e' ∈ events, e'.key ∉ [e].map ManagedEvent.key := by
    intro e' he' hmem
    exact hnew (List.mem_singleton.mp hmem ▸ List.mem_map_of_mem he')
  refine ⟨h'.shaped, ?_, ?_, ?_, ?_, ?_⟩
  · intro e' he'
    rcases List.mem_cons.mp he' with rfl | he'
    · have hprop := h'.others e'.key hnew
      obtain ⟨hlist, his⟩ := h.lists e' List.mem_cons_self
      exact ⟨(listFor_congr hprop).trans hlist, hprop ▸ his⟩
    · obtain ⟨hlist, his⟩ := h'.lists e' he'
      rw [listFor_congr (h.others e'.key (hne e' he'))] at hlist
      exact ⟨hlist, his⟩
  · intro key hkey
    rw [List.map_cons, List.mem_cons, not_or] at hkey
    rw [h'.others key hkey.2, h.others key (by simpa using hkey.1)]
  · intro key hkey
    rw [h'.settings key hkey, h.settings key hkey]
  · rw [h'.changed, h.changed]
    simp [or_assoc]
  · intro hnone
    rw [List.forall_mem_cons] at hnone
    rw [h'.same hnone.2, h.same (by simpa using hnone.1)]

/-- A run that notes no change makes none. -/
theorem Ran.nothing {events : List ManagedEvent} {c : ManagedEvent → Option (List Settings)}
    {run run' : HookRun} (h : Ran events c run run') (hnone : run'.hooks.any id = false) :
    ∀ e ∈ events, c e = none := by
  intro e he
  rw [← Bool.not_eq_true, h.changed] at hnone
  cases hc : c e with
  | none => rfl
  | some list => exact absurd (.inr ⟨e, he, by rw [hc]; rfl⟩) hnone

/-- A run changes each list as it is at the start. -/
theorem foldlM_ran {c : ManagedEvent → Option (List Settings)} {events : List ManagedEvent}
    (hacts : ∀ e ∈ events, ActsOnList (change e) (up e) e.key)
    (hnodup : (events.map ManagedEvent.key).Nodup) (run : HookRun) (hshaped : Shaped run.settings = true)
    (hlists : ∀ e ∈ events, IsList (eventProp run.settings e.key))
    (hup : ∀ e ∈ events, up e (listFor run.settings e.key) = .ok (c e)) :
    ∃ run', events.foldlM (fun run e => (change e run.settings).map run.next) run = .ok run' ∧
      Ran events c run run' := by
  induction events generalizing run with
  | nil =>
      exact ⟨run, rfl, hshaped, fun _ he => absurd he List.not_mem_nil, fun _ _ => rfl, fun _ _ => rfl,
        by simp, fun _ => rfl⟩
  | cons e events ih =>
      rw [List.map_cons, List.nodup_cons] at hnodup
      rw [List.forall_mem_cons] at hacts hlists hup
      have hfirst := ran_next hshaped hlists.1 (c := c)
      have hne : ∀ e' ∈ events, e'.key ∉ [e].map ManagedEvent.key := by
        intro e' he' hmem
        exact hnodup.1 (List.mem_singleton.mp hmem ▸ List.mem_map_of_mem he')
      obtain ⟨run', hrun', hran⟩ := ih hacts.2 hnodup.2 _ hfirst.shaped
        (fun e' he' => by rw [hfirst.others e'.key (hne e' he')]; exact hlists.2 e' he')
        (fun e' he' => by rw [listFor_congr (hfirst.others e'.key (hne e' he'))]; exact hup.2 e' he')
      refine ⟨run', ?_, Ran.cons hnodup.1 hfirst hran⟩
      rw [List.foldlM_cons, hacts.1 run.settings hshaped hlists.1, hup.1]
      exact hrun'

/-- A run that ends has changed each list. -/
theorem up_of_foldlM {events : List ManagedEvent}
    (hacts : ∀ e ∈ events, ActsOnList (change e) (up e) e.key)
    (hnodup : (events.map ManagedEvent.key).Nodup) (run : HookRun) {run' : HookRun}
    (hshaped : Shaped run.settings = true) (hlists : ∀ e ∈ events, IsList (eventProp run.settings e.key))
    (hrun : events.foldlM (fun run e => (change e run.settings).map run.next) run = .ok run') :
    ∀ e ∈ events, ∃ c, up e (listFor run.settings e.key) = .ok c := by
  induction events generalizing run with
  | nil => exact fun _ he => absurd he List.not_mem_nil
  | cons e events ih =>
      rw [List.map_cons, List.nodup_cons] at hnodup
      rw [List.forall_mem_cons] at hacts hlists
      rw [List.foldlM_cons, hacts.1 run.settings hshaped hlists.1] at hrun
      cases hup : up e (listFor run.settings e.key) with
      | error err =>
          rw [hup] at hrun
          cases hrun
      | ok c =>
          rw [hup] at hrun
          have hfirst := ran_next hshaped hlists.1 (c := fun _ => c)
          have hne : ∀ e' ∈ events, e'.key ∉ [e].map ManagedEvent.key := by
            intro e' he' hmem
            exact hnodup.1 (List.mem_singleton.mp hmem ▸ List.mem_map_of_mem he')
          rw [List.forall_mem_cons]
          refine ⟨⟨c, hup⟩, fun e' he' => ?_⟩
          obtain ⟨c', hc'⟩ := ih hacts.2 hnodup.2 _ hfirst.shaped
            (fun e' he' => by rw [hfirst.others e'.key (hne e' he')]; exact hlists.2 e' he') hrun e' he'
          rw [listFor_congr (hfirst.others e'.key (hne e' he'))] at hc'
          exact ⟨c', hc'⟩

/-- **What a run has done.** -/
theorem ran_of_runEvents {events : List ManagedEvent}
    (hacts : ∀ e ∈ events, ActsOnList (change e) (up e) e.key)
    (hnodup : (events.map ManagedEvent.key).Nodup) {settings : Settings} {run : HookRun}
    (hshaped : Shaped settings = true) (hlists : ∀ e ∈ events, IsList (eventProp settings e.key))
    (hrun : runEvents change events settings = .ok run) :
    ∃ c, (∀ e ∈ events, up e (listFor settings e.key) = .ok (c e)) ∧ Ran events c ⟨[], settings⟩ run := by
  have hup := up_of_foldlM hacts hnodup ⟨[], settings⟩ hshaped hlists hrun
  let c (e : ManagedEvent) : Option (List Settings) := ((up e (listFor settings e.key)).toOption).join
  have hc : ∀ e ∈ events, up e (listFor settings e.key) = .ok (c e) := by
    intro e he
    obtain ⟨d, hd⟩ := hup e he
    simp only [c, hd]
    rfl
  obtain ⟨run', hrun', hran⟩ := foldlM_ran hacts hnodup ⟨[], settings⟩ hshaped hlists hc
  obtain rfl : run' = run := Except.ok.inj (hrun'.symm.trans hrun)
  exact ⟨c, hc, hran⟩

/-! ## Lists of hooks -/

/-- How an agent keeps the hooks of an event. -/
structure HookLists where
  hooksIn : List Settings → List Settings
  /-- What is left of a list without the hooks of Caveat. -/
  foreignIn : (Units → Bool) → List Settings → List Settings
  WellFormed : List Settings → Prop

/-- An upsert of a list is one of its hooks. -/
structure UpsertsHooks (lists : HookLists) (owns : Units → Bool) (accepted : Settings → Prop)
    (scan : Settings → Except HookError (Scan Settings)) (fresh : Settings)
    (up : List Settings → Except HookError (Option (List Settings))) : Prop where
  hooks : ∀ list, lists.WellFormed list →
    (up list).map (Option.map lists.hooksIn) = upsertList scan fresh (lists.hooksIn list)
  wellFormed : ∀ list c, lists.WellFormed list → up list = .ok c → lists.WellFormed (c.getD list)
  foreign : ∀ list c, lists.WellFormed list → up list = .ok c →
    Upsertable scan (isOwned owns) accepted (lists.hooksIn list) →
      lists.foreignIn owns (c.getD list) = lists.foreignIn owns list

/-- What is foreign of a list are the hooks that are not Caveat's. -/
def HookLists.Separates (lists : HookLists) : Prop :=
  ∀ owns list, lists.hooksIn (lists.foreignIn owns list) =
    (lists.hooksIn list).filter fun hook => !isOwned owns hook

/-- What an upsert has done to the hooks. -/
theorem UpsertsHooks.upsert {lists : HookLists} {owns : Units → Bool} {accepted : Settings → Prop}
    {scan : Settings → Except HookError (Scan Settings)} {fresh : Settings}
    {up : List Settings → Except HookError (Option (List Settings))}
    (h : UpsertsHooks lists owns accepted scan fresh up) {list : List Settings}
    (hlist : lists.WellFormed list) :
    (∀ c, up list = .ok c → ∃ d, upsertList scan fresh (lists.hooksIn list) = .ok d ∧
      d.isSome = c.isSome ∧ lists.hooksIn (c.getD list) = d.getD (lists.hooksIn list)) ∧
    ∀ d, upsertList scan fresh (lists.hooksIn list) = .ok d → ∃ c, up list = .ok c ∧ c.isSome = d.isSome := by
  have hhooks := h.hooks list hlist
  constructor
  · intro c hc
    rw [hc] at hhooks
    refine ⟨_, hhooks.symm, ?_, ?_⟩
    · cases c <;> rfl
    · cases c <;> rfl
  · intro d hd
    rw [hd] at hhooks
    cases hup : up list with
    | error e =>
        rw [hup] at hhooks
        cases hhooks
    | ok c =>
        rw [hup] at hhooks
        refine ⟨c, rfl, ?_⟩
        rw [← Except.ok.inj hhooks]
        cases c <;> rfl

/-! ### Lists that are the hooks -/

def flatLists : HookLists where
  hooksIn list := list
  foreignIn owns list := list.filter fun hook => !isOwned owns hook
  WellFormed _ := True

theorem flatLists_separates : flatLists.Separates := fun _ _ => rfl

theorem upsertsHooks_flat {owns : Units → Bool} {accepted : Settings → Prop}
    {scan : Settings → Except HookError (Scan Settings)} {fresh : Settings}
    (hupserting : Upserting scan (isOwned owns) accepted fresh) :
    UpsertsHooks flatLists owns accepted scan fresh (upsertList scan fresh) where
  hooks list _ := by
    show (upsertList scan fresh list).map (Option.map id) = upsertList scan fresh list
    rw [Option.map_id]
    cases upsertList scan fresh list <;> rfl
  wellFormed _ _ _ _ := trivial
  foreign list c _ hc hupsertable := by
    obtain ⟨c', hc', _, hforeign, _⟩ := hupsertable.upsert hupserting
    obtain rfl : c' = c := Except.ok.inj (hc'.symm.trans hc)
    exact hforeign

/-! ### Lists of entries -/

/-- An entry with a list of hooks, if any. -/
def EntryShaped (entry : Settings) : Prop :=
  entry ≠ .null ∧ ∀ value, entry.prop hooksKey = some value →
    value = .null ∨ ∃ hooks, value = .array hooks

def entryLists : HookLists where
  hooksIn list := list.flatMap hooksOf
  foreignIn := foreignEntries
  WellFormed list := ∀ entry ∈ list, EntryShaped entry

theorem entryLists_separates : entryLists.Separates := hooksOf_foreignEntries

def putHooks (entry : Settings) (hooks : List Settings) : Settings :=
  entry.setProp hooksKey (.array hooks)

theorem hooksOf_putHooks {entry : Settings} (h : hooksOf entry ≠ []) (hooks : List Settings) :
    hooksOf (putHooks entry hooks) = hooks := by
  rw [hooksOf] at h
  split at h
  · rename_i old hprop
    rw [hooksOf, putHooks, Data.prop_setProp_self hprop]
  · exact absurd rfl h

section Entries

variable {scan : Settings → Except HookError (Scan Settings)}

theorem scanEntry_eq {entry : Settings} (h : EntryShaped entry) :
    scanEntry scan entry = (Lib.scanList scan (hooksOf entry)).map (Scan.map (putHooks entry)) := by
  obtain ⟨hnull, hprop⟩ := h
  cases entry with
  | null => exact absurd rfl hnull
  | string s => rfl
  | scalar s => rfl
  | array items => rfl
  | object members =>
      unfold scanEntry hooksOf
      cases hvalue : (Data.object members : Settings).prop hooksKey with
      | none => rfl
      | some value =>
          rcases hprop value hvalue with rfl | ⟨hooks, rfl⟩
          · rfl
          · rfl

/-- The entry that is hit. -/
theorem hit_scanEntry {entry entry' : Settings} (h : EntryShaped entry)
    (hhit : Hit (scanEntry scan) entry entry') :
    ∃ pre a b post, hooksOf entry = pre ++ a :: post ∧ (∀ p ∈ pre, scan p = .ok .absent) ∧ Hit scan a b ∧
      (entry' = entry ∧ b = a ∨ entry' = putHooks entry (pre ++ b :: post)) := by
  have hcases : ∀ found, (Lib.scanList scan (hooksOf entry)).map (Scan.map (putHooks entry)) = .ok found →
      ∃ seen, Lib.scanList scan (hooksOf entry) = .ok seen ∧ seen.map (putHooks entry) = found := by
    intro found hfound
    cases hscan : Lib.scanList scan (hooksOf entry) with
    | error e =>
        rw [hscan] at hfound
        cases hfound
    | ok seen =>
        rw [hscan] at hfound
        exact ⟨seen, rfl, Except.ok.inj hfound⟩
  rcases hhit with ⟨hsettled, rfl⟩ | hrenewed
  · rw [scanEntry_eq h] at hsettled
    obtain ⟨seen, hseen, hmap⟩ := hcases _ hsettled
    rcases Lib.scanList_cases hseen with ⟨_, rfl⟩ | ⟨pre, a, post, hhooks, hpre, ⟨ha, rfl⟩ | ⟨b, hb, rfl⟩⟩
    · cases hmap
    · exact ⟨pre, a, a, post, hhooks, hpre, .inl ⟨ha, rfl⟩, .inl ⟨rfl, rfl⟩⟩
    · cases hmap
  · rw [scanEntry_eq h] at hrenewed
    obtain ⟨seen, hseen, hmap⟩ := hcases _ hrenewed
    rcases Lib.scanList_cases hseen with ⟨_, rfl⟩ | ⟨pre, a, post, hhooks, hpre, ⟨ha, rfl⟩ | ⟨b, hb, rfl⟩⟩
    · cases hmap
    · cases hmap
    · cases hmap
      exact ⟨pre, a, b, post, hhooks, hpre, .inr hb, .inr rfl⟩

theorem entryShaped_putHooks {entry : Settings} (h : EntryShaped entry) (hooks : List Settings) :
    EntryShaped (putHooks entry hooks) := by
  obtain ⟨hnull, hprop⟩ := h
  cases entry with
  | null => exact absurd rfl hnull
  | string s => exact ⟨hnull, hprop⟩
  | scalar s => exact ⟨hnull, hprop⟩
  | array items => exact ⟨hnull, hprop⟩
  | object members =>
      refine ⟨by simp [putHooks, Data.setProp], fun value hvalue => .inr ⟨hooks, ?_⟩⟩
      have hself : own (define members (hooksKey, .array hooks)) hooksKey = some (.array hooks) := by
        rw [own_define, if_pos rfl]
      exact (Option.some.inj (hself.symm.trans hvalue)).symm

end Entries

theorem setProp_setProp (value v w : Settings) (key : Units) :
    (value.setProp key v).setProp key w = value.setProp key w := by
  cases value with
  | object members => exact congrArg Data.object (define_define members key v w)
  | null => rfl
  | string s => rfl
  | scalar s => rfl
  | array items => rfl

section Entries

variable {scan : Settings → Except HookError (Scan Settings)} {owns : Units → Bool}

/-- A hook of Caveat's in the place of another one changes nothing foreign. -/
theorem foreignEntry_putHooks {entry : Settings} {pre post : List Settings} {a b : Settings}
    (hhooks : hooksOf entry = pre ++ a :: post) (ha : isOwned owns a = true) (hb : isOwned owns b = true) :
    foreignEntry owns (putHooks entry (pre ++ b :: post)) = foreignEntry owns entry := by
  have hany : ∀ h, isOwned owns h = true → (pre ++ h :: post).any (isOwned owns) = true := by
    intro h hh
    simp [hh]
  rw [hooksOf] at hhooks
  split at hhooks
  · rename_i hooks hprop
    have hprop' : (putHooks entry (pre ++ b :: post)).prop hooksKey = some (.array (pre ++ b :: post)) :=
      Data.prop_setProp_self hprop _ _
    rw [foreignEntry, foreignEntry, hprop, hprop', hhooks]
    simp only [hany a ha, hany b hb, if_true]
    rw [Lib.filter_foreign_hit pre post ha hb, putHooks]
    simp only [setProp_setProp]
  · simp at hhooks

/-- The entry that holds nothing but a new hook of Caveat's. -/
def freshEntry (fresh : Settings) : Settings := .object [(hooksKey, .array [fresh])]

theorem upsertsHooks_entries {accepted : Settings → Prop} {fresh : Settings}
    (hupserting : Upserting scan (isOwned owns) accepted fresh) :
    UpsertsHooks entryLists owns accepted scan fresh (upsertList (scanEntry scan) (freshEntry fresh)) where
  hooks list hlist :=
    Lib.upsertList_groups (fun _ bs h => hooksOf_putHooks h bs) (fun entry he => scanEntry_eq (hlist entry he)) rfl
  wellFormed list c hlist hc := by
    rcases Lib.upsertList_cases hc with ⟨_, rfl⟩ | ⟨pre, entry, entry', post, rfl, _, hhit, hget⟩
    · intro entry hentry
      rcases List.mem_append.mp hentry with hentry | hentry
      · exact hlist entry hentry
      · obtain rfl := List.mem_singleton.mp hentry
        refine ⟨by simp [freshEntry], fun value hvalue => .inr ⟨[fresh], ?_⟩⟩
        exact (Option.some.inj hvalue).symm
    · have hentry := hlist entry (by simp)
      have hentry' : EntryShaped entry' := by
        obtain ⟨_, _, _, _, _, _, _, ⟨rfl, _⟩ | rfl⟩ := hit_scanEntry hentry hhit
        · exact hentry
        · exact entryShaped_putHooks hentry _
      rw [hget]
      intro other hother
      rcases List.mem_append.mp hother with hother | hother
      · exact hlist other (List.mem_append_left _ hother)
      · rcases List.mem_cons.mp hother with rfl | hother
        · exact hentry'
        · exact hlist other (by simp [hother])
  foreign list c hlist hc hupsertable := by
    rcases Lib.upsertList_cases hc with ⟨_, rfl⟩ | ⟨pre, entry, entry', post, rfl, hpre, hhit, hget⟩
    · have hnone : foreignEntry owns (freshEntry fresh) = none := by
        rw [foreignEntry]
        show (if [fresh].any (isOwned owns) then _ else _) = none
        rw [if_pos (by simp [hupserting.fresh_owned])]
        simp [hupserting.fresh_owned]
      show foreignEntries owns (list ++ [freshEntry fresh]) = foreignEntries owns list
      rw [foreignEntries, List.filterMap_append, List.filterMap_cons_none hnone, List.filterMap_nil,
        List.append_nil, foreignEntries]
    · have hentry := hlist entry (by simp)
      obtain ⟨pre', a, b, post', hhooks, hpre', ha, hcase⟩ := hit_scanEntry hentry hhit
      -- the hooks before the entry are passed over, so its hook is the first that is hit
      have hpassed : ∀ p ∈ pre.flatMap hooksOf ++ pre', scan p = .ok .absent := by
        intro p hp
        rcases List.mem_append.mp hp with hp | hp
        · obtain ⟨other, hother, hp⟩ := List.mem_flatMap.mp hp
          have habsent := hpre other hother
          rw [scanEntry_eq (hlist other (List.mem_append_left _ hother))] at habsent
          cases hscan : Lib.scanList scan (hooksOf other) with
          | error e =>
              rw [hscan] at habsent
              cases habsent
          | ok seen =>
              rw [hscan] at habsent
              rcases Lib.scanList_cases hscan with ⟨hall, _⟩ | ⟨_, _, _, _, _, ⟨_, rfl⟩ | ⟨_, _, rfl⟩⟩
              · exact hall p hp
              · cases habsent
              · cases habsent
        · exact hpre' p hp
      have hsplit : (pre ++ entry :: post).flatMap hooksOf =
          (pre.flatMap hooksOf ++ pre') ++ a :: (post' ++ post.flatMap hooksOf) := by
        rw [List.flatMap_append, List.flatMap_cons, hhooks]
        simp only [List.append_assoc, List.cons_append]
      have howned : isOwned owns a = true ∧ isOwned owns b = true := by
        rcases hupsertable with hall | ⟨pre₂, a₂, b₂, post₂, heq, hpre₂, hown, hhit₂, haccepted, _⟩
        · have hmem : a ∈ (pre ++ entry :: post).flatMap hooksOf := by
            rw [hsplit]
            simp
          exact absurd (hall a hmem).1 ha.not_absent
        · obtain ⟨_, rfl, _⟩ := Lib.first_hit_unique (hsplit.symm.trans heq) hpassed
            (fun p hp => (hpre₂ p hp).1) ha hhit₂
          obtain rfl := ha.unique hhit₂
          exact ⟨hown, hupserting.hit_owned a b ha haccepted⟩
      have hsame : foreignEntry owns entry' = foreignEntry owns entry := by
        rcases hcase with ⟨rfl, _⟩ | rfl
        · rfl
        · exact foreignEntry_putHooks hhooks howned.1 howned.2
      rw [hget]
      show foreignEntries owns (pre ++ entry' :: post) = foreignEntries owns (pre ++ entry :: post)
      rw [foreignEntries, foreignEntries, List.filterMap_append, List.filterMap_append,
        List.filterMap_cons, List.filterMap_cons, hsame]

end Entries

theorem actsOnList_upsertEvent (up : List Settings → Except HookError (Option (List Settings)))
    (event : Units) : ActsOnList (upsertEvent up event) up event := by
  intro settings hshaped hlist
  obtain ⟨members, events, rfl, hhooks, hprop⟩ := Shaped.hooks hshaped
  rw [hprop] at hlist
  unfold upsertEvent
  simp only [hhooks]
  rw [listFor, hprop]
  cases hvalue : own events event with
  | none => rfl
  | some value =>
      rw [hvalue] at hlist
      cases value with
      | null => rfl
      | array list => rfl
      | string s => exact absurd hlist id
      | scalar s => exact absurd hlist id
      | object members => exact absurd hlist id

/-! ## Installers -/

/-- What an agent's installer is, and how its hooks are to be recognised. -/
structure Installer where
  events : List ManagedEvent
  lists : HookLists
  owns : HookEvent → Units → Bool
  /-- A diagnosis accepts the hook. -/
  accepts : HookEvent → Settings → Prop
  /-- Settings that are added where they are missing. -/
  added : List Units
  install : Settings → Except HookError HookRun

namespace Installer

variable (i : Installer)

def hooksAt (settings : Settings) (e : ManagedEvent) : List Settings :=
  i.lists.hooksIn (listFor settings e.key)

/-- The lists of the managed events are lists. -/
def WellShaped (settings : Settings) : Prop :=
  Shaped settings = true ∧
    ∀ e ∈ i.events, IsList (eventProp settings e.key) ∧ i.lists.WellFormed (listFor settings e.key)

/-- One hook of Caveat's for an event, which is accepted, and all that is foreign. -/
def LeavesEvent (settings after : Settings) (e : ManagedEvent) : Prop :=
  (∃ hook, (i.hooksAt after e).filter (isOwned (i.owns e.event)) = [hook] ∧ i.accepts e.event hook) ∧
    i.lists.foreignIn (i.owns e.event) (listFor after e.key) =
      i.lists.foreignIn (i.owns e.event) (listFor settings e.key)

/-- What an installation is to leave. -/
structure Leaves (settings after : Settings) : Prop where
  event : ∀ e ∈ i.events, i.LeavesEvent settings after e
  others : ∀ key, key ∉ i.events.map ManagedEvent.key → eventProp after key = eventProp settings key
  settings : ∀ key, key ≠ hooksKey →
    after.prop key = settings.prop key ∨ key ∈ i.added ∧ settings.prop key = none

/-- An installation succeeds and leaves what it should, and the next one leaves it so. -/
def Converges (settings : Settings) : Prop :=
  ∃ run, i.install settings = .ok run ∧ i.Leaves settings run.settings ∧
    ∃ again, i.install run.settings = .ok again ∧ again.settings = run.settings

/-- What an installer does with the events one after the other. -/
structure Upserting (change : ManagedEvent → Settings → Except HookError (Option Settings))
    (scan : ManagedEvent → Settings → Except HookError (Scan Settings)) (fresh : ManagedEvent → Settings)
    (up : ManagedEvent → List Settings → Except HookError (Option (List Settings))) : Prop where
  nodup : (i.events.map ManagedEvent.key).Nodup
  separates : i.lists.Separates
  acts : ∀ e ∈ i.events, ActsOnList (change e) (up e) e.key
  upserting : ∀ e ∈ i.events,
    Lib.Upserting (scan e) (isOwned (i.owns e.event)) (i.accepts e.event) (fresh e)
  hooks : ∀ e ∈ i.events,
    UpsertsHooks i.lists (i.owns e.event) (i.accepts e.event) (scan e) (fresh e) (up e)

variable {i} {change : ManagedEvent → Settings → Except HookError (Option Settings)}
  {scan : ManagedEvent → Settings → Except HookError (Scan Settings)} {fresh : ManagedEvent → Settings}
  {up : ManagedEvent → List Settings → Except HookError (Option (List Settings))}

/-- All lists can be put right. -/
def Ready (i : Installer) (scan : ManagedEvent → Settings → Except HookError (Scan Settings))
    (settings : Settings) : Prop :=
  ∀ e ∈ i.events, Upsertable (scan e) (isOwned (i.owns e.event)) (i.accepts e.event) (i.hooksAt settings e)

/-- What a run leaves of lists that can be put right. -/
theorem Upserting.runEvents (h : i.Upserting change scan fresh up) {settings : Settings}
    (hshaped : i.WellShaped settings) (hready : i.Ready scan settings) :
    ∃ run c, Install.runEvents change i.events settings = .ok run ∧
      Ran i.events c ⟨[], settings⟩ run ∧ (∀ e ∈ i.events, i.LeavesEvent settings run.settings e) ∧
      (∀ e ∈ i.events, ((c e).isSome = true ↔
        upsertList (scan e) (fresh e) (i.hooksAt settings e) ≠ .ok none)) ∧
      i.WellShaped run.settings ∧ ∀ e ∈ i.events, up e (listFor run.settings e.key) = .ok none := by
  have hup : ∀ e ∈ i.events, ∃ c, up e (listFor settings e.key) = .ok c := by
    intro e he
    obtain ⟨d, hd, _⟩ := (hready e he).upsert (h.upserting e he)
    obtain ⟨c, hc, _⟩ := ((h.hooks e he).upsert (hshaped.2 e he).2).2 d hd
    exact ⟨c, hc⟩
  let c (e : ManagedEvent) : Option (List Settings) := ((up e (listFor settings e.key)).toOption).join
  have hc : ∀ e ∈ i.events, up e (listFor settings e.key) = .ok (c e) := by
    intro e he
    obtain ⟨d, hd⟩ := hup e he
    simp only [c, hd]
    rfl
  obtain ⟨run, hrun, hran⟩ := foldlM_ran h.acts h.nodup ⟨[], settings⟩ hshaped.1
    (fun e he => (hshaped.2 e he).1) hc
  -- each list, with the hooks in it, is what the upsert has made of it
  have hevent : ∀ e ∈ i.events, i.LeavesEvent settings run.settings e ∧
      i.lists.WellFormed (listFor run.settings e.key) ∧
      ((c e).isSome = true ↔ upsertList (scan e) (fresh e) (i.hooksAt settings e) ≠ .ok none) ∧
      up e (listFor run.settings e.key) = .ok none := by
    intro e he
    have hwell := (hshaped.2 e he).2
    have hlist := (hran.lists e he).1
    obtain ⟨d, hd, hsome, hget⟩ := ((h.hooks e he).upsert hwell).1 (c e) (hc e he)
    obtain ⟨d', hd', hsingle, _, hagain⟩ := (hready e he).upsert (h.upserting e he)
    obtain rfl : d' = d := Except.ok.inj (hd'.symm.trans hd)
    have hwell' := (h.hooks e he).wellFormed _ _ hwell (hc e he)
    have hget' : i.lists.hooksIn ((c e).getD (listFor settings e.key)) = d'.getD (i.hooksAt settings e) := hget
    rw [← hget'] at hsingle hagain
    rw [LeavesEvent, hooksAt, hlist]
    refine ⟨⟨hsingle, (h.hooks e he).foreign _ _ hwell (hc e he) (hready e he)⟩, hwell', ?_, ?_⟩
    · rw [hooksAt, hd, ← hsome]
      cases d' <;> simp
    · obtain ⟨c', hc', hnone⟩ := ((h.hooks e he).upsert hwell').2 none hagain
      rw [hc']
      cases c' with
      | none => rfl
      | some list => cases hnone
  exact ⟨run, c, hrun, hran, fun e he => (hevent e he).1, fun e he => (hevent e he).2.2.1,
    ⟨hran.shaped, fun e he => ⟨(hran.lists e he).2, (hevent e he).2.1⟩⟩,
    fun e he => (hevent e he).2.2.2⟩

/-- Where nothing is to be done, a run does nothing. -/
theorem Upserting.runEvents_settled (h : i.Upserting change scan fresh up) {settings : Settings}
    (hshaped : i.WellShaped settings)
    (hup : ∀ e ∈ i.events, up e (listFor settings e.key) = .ok none) :
    ∃ run, Install.runEvents change i.events settings = .ok run ∧ run.settings = settings ∧
      run.hooks.any id = false := by
  obtain ⟨run, hrun, hran⟩ := foldlM_ran (c := fun _ => none) h.acts h.nodup
    ⟨[], settings⟩ hshaped.1 (fun e he => (hshaped.2 e he).1) hup
  refine ⟨run, hrun, hran.same fun _ _ => rfl, ?_⟩
  rw [← Bool.not_eq_true, hran.changed]
  simp

/-- Lists of which a run has left what it should can be put right. -/
theorem Upserting.ready (h : i.Upserting change scan fresh up) {settings : Settings} {run : HookRun}
    (hshaped : i.WellShaped settings) (hrun : Install.runEvents change i.events settings = .ok run)
    (hleaves : ∀ e ∈ i.events, i.LeavesEvent settings run.settings e) : i.Ready scan settings := by
  obtain ⟨c, hc, hran⟩ := ran_of_runEvents h.acts h.nodup hshaped.1
    (fun e he => (hshaped.2 e he).1) hrun
  intro e he
  obtain ⟨⟨hook, hsingle, haccepts⟩, hforeign⟩ := hleaves e he
  obtain ⟨d, hd, _, hget⟩ := ((h.hooks e he).upsert (hshaped.2 e he).2).1 (c e) (hc e he)
  have hlist := (hran.lists e he).1
  rw [hooksAt, hlist, hget] at hsingle
  refine Lib.upsertable_of_upsert (h.upserting e he) hd hsingle haccepts ?_
  have hhooks := congrArg i.lists.hooksIn hforeign
  rw [h.separates, h.separates, hlist, hget] at hhooks
  exact hhooks

/-- **When an installation converges.** It has to do nothing but the upserts. -/
theorem Upserting.converges_iff (h : i.Upserting change scan fresh up)
    (hinstall : ∀ settings, i.install settings = Install.runEvents change i.events settings)
    {settings : Settings} (hshaped : i.WellShaped settings) :
    i.Converges settings ↔ i.Ready scan settings := by
  constructor
  · intro hconverges
    obtain ⟨run, hrun, hleaves, _⟩ := hconverges
    rw [hinstall] at hrun
    exact h.ready hshaped hrun hleaves.event
  · intro hready
    obtain ⟨run, c, hrun, hran, hevent, _, hshaped', hup⟩ := h.runEvents hshaped hready
    obtain ⟨again, hagain, hsame, _⟩ := h.runEvents_settled hshaped' hup
    refine ⟨run, (hinstall settings).trans hrun, ⟨hevent, hran.others, ?_⟩,
      again, (hinstall _).trans hagain, hsame⟩
    exact fun key hkey => .inl (hran.settings key hkey)

end Installer

end Caveat.Install
