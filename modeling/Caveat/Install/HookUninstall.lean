import Caveat.Install.HookRemovalLaw

/-!
# What an uninstall leaves

The installer of Cursor drops single hooks. So it leaves what it should but for a version that it
overwrites, unlike those of Claude and Codex, which drop whole entries.
-/

namespace Caveat.Install

open Js
open Hooks (units)

variable {matched owns : Units → Bool}

/-! ## The list of an event of Cursor -/

namespace Cursor

/-- A list that is looked through without an exception. -/
def NoNull (value : Option Settings) : Prop :=
  ∀ list, value = some (.array list) → .null ∉ list

theorem keepsEntry_of_ne_null {hook : Settings} (h : hook ≠ .null) :
    keepsEntry matched hook = .ok (!isOwned matched hook) := by
  cases hook with
  | null => exact absurd rfl h
  | _ => rfl

theorem filterE_keepsEntry {list : List Settings} (h : .null ∉ list) :
    Lib.filterE (keepsEntry matched) list = .ok (list.filter fun hook => !isOwned matched hook) := by
  have hkeeps : ∀ hook ∈ list, keepsEntry matched hook = .ok (!isOwned matched hook) :=
    fun hook hhook => keepsEntry_of_ne_null fun hnull => h (hnull ▸ hhook)
  rw [Lib.filterE_ok fun hook hhook => ⟨_, hkeeps hook hhook⟩]
  refine congrArg _ (List.filter_congr fun hook hhook => ?_)
  rw [Lib.accepts, hkeeps hook hhook]
  rfl

theorem removeHook_of_noNull {command event : Units} {subcommand : HookEvent} {file : Settings}
    (h : NoNull (eventProp file event)) : removeHook command subcommand event file =
      .ok (withoutList (fun actual => isSameCommand actual command ||
        isCaveatCursorHookCommand actual subcommand) event file) := by
  rw [removeHook, withoutList, listFor]
  split
  · rename_i list hprop
    have hnull := h list hprop
    split
    · rename_i hempty
      obtain rfl := List.length_eq_zero_iff.mp hempty
      rfl
    · rw [filterList, filterE_keepsEntry hnull]
      refine congrArg Except.ok ?_
      generalize (fun actual => isSameCommand actual command ||
        isCaveatCursorHookCommand actual subcommand) = owns
      show (if (list.filter fun hook => !isOwned owns hook).length = list.length then none
        else if (list.filter fun hook => !isOwned owns hook).length > 0 then
          some (setEvent file event _)
        else some (deleteEvent file event)) = _
      by_cases hany : list.any (isOwned owns) = true
      · have hshorter : (list.filter fun hook => !isOwned owns hook).length ≠ list.length := by
          intro hlength
          obtain ⟨hook, hhook, howned⟩ := List.any_eq_true.mp hany
          have := List.length_filter_eq_length_iff.mp hlength hook hhook
          rw [howned] at this
          cases this
        rw [if_neg hshorter, if_pos hany]
        cases hkept : list.filter fun hook => !isOwned owns hook with
        | nil => rfl
        | cons hook kept => rfl
      · have hall : (list.filter fun hook => !isOwned owns hook).length = list.length := by
          rw [List.length_filter_eq_length_iff]
          rw [Bool.not_eq_true, List.any_eq_false] at hany
          exact fun hook hhook => by simpa using hany hook hhook
        rw [if_pos hall, if_neg hany]
  · rfl

theorem noNull_of_removeHook {command event : Units} {subcommand : HookEvent} {file : Settings}
    {changed : Option Settings} (h : removeHook command subcommand event file = .ok changed) :
    NoNull (eventProp file event) := by
  intro list hprop hnull
  have hlist : listFor file event = list := by rw [listFor, hprop]
  rw [removeHook, hlist] at h
  have hne : list.length ≠ 0 := fun hempty => by
    rw [List.length_eq_zero_iff.mp hempty] at hnull
    exact absurd hnull List.not_mem_nil
  simp only [if_neg hne, filterList] at h
  generalize (fun actual => isSameCommand actual command ||
    isCaveatCursorHookCommand actual subcommand) = matched at h
  have hthrows : ∃ hook ∈ list, ∃ e, keepsEntry matched hook = .error e :=
    ⟨.null, hnull, .typeError, rfl⟩
  obtain ⟨e, he⟩ := Lib.filterE_error hthrows
  rw [he] at h
  cases h

theorem withoutList_cases (event : Units) (file : Settings) :
    withoutList owns event file = none ∨
      (∃ kept, withoutList owns event file = some (setEvent file event kept)) ∨
      withoutList owns event file = some (deleteEvent file event) := by
  rw [withoutList]
  split
  · split
    · split
      · exact .inr (.inr rfl)
      · exact .inr (.inl ⟨_, rfl⟩)
    · exact .inl rfl
  · exact .inl rfl

theorem withoutList_confined (owns : HookEvent → Units → Bool) :
    Confined fun e => withoutList (owns e.event) e.key := by
  intro e file key hkey
  rcases @withoutList_cases (owns e.event) e.key file with h | ⟨kept, h⟩ | h
  · simp only [h, Option.getD_none]
  · simp only [h, Option.getD_some]
    exact eventValue_setEvent_of_ne file hkey kept
  · simp only [h, Option.getD_some]
    exact eventValue_deleteEvent_of_ne file hkey

/-- What `withoutList` makes of what an event holds. -/
def foreignList (owns : Units → Bool) : Option Settings → Option Settings
  | some (.array list) =>
      if list.any (isOwned owns) then
        match list.filter (fun hook => !isOwned owns hook) with
        | [] => none
        | kept => some (.array kept)
      else some (.array list)
  | value => value

theorem eventValue_withoutList (event : Units) (file : Settings) :
    eventValue ((withoutList owns event file).getD file) event =
      (eventValue file event).map (foreignList owns) := by
  by_cases hnull : file = .null
  · subst hnull
    rfl
  rw [eventValue_eq_ok.mpr ⟨hnull, rfl⟩, withoutList]
  show _ = Except.ok (foreignList owns (eventProp file event))
  split
  · rename_i list hprop
    rw [hprop, foreignList]
    by_cases hany : list.any (isOwned owns) = true
    · rw [if_pos hany, if_pos hany]
      cases list.filter fun hook => !isOwned owns hook with
      | nil =>
          refine eventValue_eq_ok.mpr ⟨fun h => hnull (deleteEvent_eq_null.mp h), ?_⟩
          exact (eventProp_deleteEvent file event event).trans (if_pos rfl)
      | cons hook kept =>
          exact eventValue_eq_ok.mpr
            ⟨fun h => hnull (setEvent_eq_null.mp h), eventProp_setEvent_self hprop _⟩
    · rw [if_neg hany, if_neg hany]
      exact eventValue_eq_ok.mpr ⟨hnull, hprop⟩
  · rename_i hprop
    refine eventValue_eq_ok.mpr ⟨hnull, ?_⟩
    unfold foreignList
    split
    · rename_i list hlist
      exact absurd hlist (hprop list)
    · rfl

theorem noNull_of_eventValue {event : Units} {file : Settings}
    (h : ∀ value, eventValue file event = .ok value → NoNull value) :
    NoNull (eventProp file event) := by
  by_cases hnull : file = .null
  · subst hnull
    exact fun list hlist => nomatch hlist
  · exact h _ (eventValue_eq_ok.mpr ⟨hnull, rfl⟩)

theorem removeHook_confined {command event : Units} {subcommand : HookEvent} {file : Settings}
    {changed : Option Settings} (h : removeHook command subcommand event file = .ok changed)
    {key : Units} (hkey : key ≠ event) :
    eventValue (changed.getD file) key = eventValue file key := by
  rw [removeHook_of_noNull (noNull_of_removeHook h)] at h
  obtain rfl := Except.ok.inj h
  exact withoutList_confined (fun _ actual => isSameCommand actual command ||
    isCaveatCursorHookCommand actual subcommand) ⟨event, subcommand⟩ file key hkey

theorem prescribed_lists (paths : HookPaths) :
    Lib.Prescribed ManagedEvent.key runView fun (e : ManagedEvent) (run : HookRun) =>
      run.next (withoutList (Cursor.owns paths e.event) e.key run.settings) :=
  prescribed_of (withoutList_confined (Cursor.owns paths))
    fun e file => eventValue_withoutList e.key file

theorem managedEvents_nodup : (managedEvents.map ManagedEvent.key).Nodup := by decide +kernel

theorem noNull_of_runEvents {paths : HookPaths} {file : Settings} {run : HookRun}
    (hrun : runEvents (fun e => removeHook (hookCommand paths e.event) e.event e.key)
      managedEvents file = .ok run) : ∀ e ∈ managedEvents, NoNull (eventProp file e.key) := by
  have hapart : Lib.Apart ManagedEvent.key runView fun e (run : HookRun) =>
      (removeHook (hookCommand paths e.event) e.event e.key run.settings).map run.next :=
    runEvents_apart fun e settings changed h key hkey => removeHook_confined h hkey
  intro e he
  refine noNull_of_eventValue fun value hvalue => ?_
  obtain ⟨s₁, s₂, hview, hstep, -⟩ := hapart.step_of_mem managedEvents_nodup hrun he
  have hprop := (eventValue_eq_ok.mp ((hview : eventValue s₁.settings e.key = _).trans hvalue)).2
  cases hremove : removeHook (hookCommand paths e.event) e.event e.key s₁.settings with
  | error err =>
      rw [hremove] at hstep
      cases hstep
  | ok changed =>
      rw [← hprop]
      exact noNull_of_removeHook hremove

theorem runEvents_of_noNull {paths : HookPaths} {file : Settings}
    (h : ∀ e ∈ managedEvents, NoNull (eventProp file e.key)) :
    runEvents (fun e => removeHook (hookCommand paths e.event) e.event e.key) managedEvents file =
      .ok (prescribed (fun e => withoutList (Cursor.owns paths e.event) e.key) managedEvents
        file) := by
  let Good (_ : ManagedEvent) (view : Except HookError (Option Settings)) : Prop :=
    ∀ value, view = .ok value → NoNull value
  have hgood : ∀ (e : ManagedEvent) (run : HookRun), Good e (runView e.key run) →
      (removeHook (hookCommand paths e.event) e.event e.key run.settings).map run.next =
        .ok (run.next (withoutList (Cursor.owns paths e.event) e.key run.settings)) := by
    intro e run hnull
    rw [removeHook_of_noNull (noNull_of_eventValue hnull)]
    rfl
  refine (prescribed_lists paths).foldlM_eq_ok hgood managedEvents_nodup ?_
  intro e he value hvalue
  rw [← (eventValue_eq_ok.mp hvalue).2]
  exact h e he

/-! ## What is written -/

/-- An event with a hook of Caveat's. -/
def HoldsOwned (owns : Units → Bool) (file : Settings) (event : Units) : Prop :=
  ∃ list, eventProp file event = some (.array list) ∧ list.any (isOwned owns) = true

theorem withoutList_isSome {event : Units} {file : Settings} :
    (withoutList owns event file).isSome = true ↔ HoldsOwned owns file event := by
  rw [withoutList, HoldsOwned]
  split
  · rename_i list hprop
    by_cases hany : list.any (isOwned owns) = true
    · rw [if_pos hany]
      refine iff_of_true ?_ ⟨list, hprop, hany⟩
      split <;> rfl
    · rw [if_neg hany]
      refine iff_of_false Bool.false_ne_true ?_
      rintro ⟨list', hlist, hany'⟩
      obtain rfl := Data.array.inj (Option.some.inj (hlist.symm.trans hprop))
      exact hany hany'
  · rename_i hprop
    refine iff_of_false Bool.false_ne_true ?_
    rintro ⟨list, hlist, -⟩
    exact hprop list hlist

/-- Whether an event changes is told by what it holds at the start. -/
theorem changed_iff (own : HookEvent → Units → Bool) {events : List ManagedEvent}
    (hnodup : (events.map ManagedEvent.key).Nodup) {file : Settings} (hobject : file ≠ .null)
    (done : List Bool) :
    (events.foldl (fun run e => run.next (withoutList (own e.event) e.key run.settings))
        (HookRun.mk done file)).hooks.any id = true ↔
      done.any id = true ∨ ∃ e ∈ events, HoldsOwned (own e.event) file e.key := by
  induction events generalizing file done with
  | nil => simp
  | cons e events ih =>
      rw [List.map_cons, List.nodup_cons] at hnodup
      have hconfined := withoutList_confined own e file
      have hnext : (withoutList (own e.event) e.key file).getD file ≠ .null := by
        rcases @withoutList_cases (own e.event) e.key file with h | ⟨kept, h⟩ | h
        · rwa [h]
        · rw [h]
          exact fun hnull => hobject (setEvent_eq_null.mp hnull)
        · rw [h]
          exact fun hnull => hobject (deleteEvent_eq_null.mp hnull)
      rw [List.foldl_cons, HookRun.next, ih hnodup.2 hnext, List.any_append, Bool.or_eq_true,
        List.any_cons, List.any_nil, Bool.or_false, id, withoutList_isSome, or_assoc,
        List.exists_mem_cons_iff]
      refine or_congr_right (or_congr_right (exists_congr fun e' => and_congr_right fun he' => ?_))
      have hne : e'.key ≠ e.key := fun h => hnodup.1 (h ▸ List.mem_map_of_mem he')
      have hprop := hconfined e'.key hne
      rw [eventValue_eq_ok.mpr ⟨hobject, rfl⟩] at hprop
      rw [HoldsOwned, HoldsOwned, ← (eventValue_eq_ok.mp hprop).2]

/-- Without hooks of Caveat's nothing changes. -/
theorem unchanged_of_not_owned (own : HookEvent → Units → Bool) {events : List ManagedEvent}
    {file : Settings} (h : ∀ e ∈ events, ¬HoldsOwned (own e.event) file e.key)
    (done : List Bool) :
    events.foldl (fun run e => run.next (withoutList (own e.event) e.key run.settings))
        (HookRun.mk done file) = ⟨done ++ events.map fun _ => false, file⟩ := by
  induction events generalizing done with
  | nil => rw [List.foldl_nil, List.map_nil, List.append_nil]
  | cons e events ih =>
      rw [List.forall_mem_cons] at h
      have hnone : withoutList (own e.event) e.key file = none := by
        rw [← withoutList_isSome, Bool.not_eq_true, Option.isSome_eq_false_iff,
          Option.isNone_iff_eq_none] at h
        exact h.1
      rw [List.foldl_cons, hnone, List.map_cons]
      show events.foldl _ (HookRun.mk (done ++ [false]) file) = _
      rw [ih h.2, List.append_assoc, List.singleton_append]

/-- An object with the version that another one has. -/
def SameVersion (members : List (Units × Settings)) (file : Settings) : Prop :=
  ∃ members', file = .object members' ∧
    ∀ v, (versionKey, v) ∈ members' ↔ (versionKey, v) ∈ members

theorem SameVersion.updateHooks {members : List (Units × Settings)} {file : Settings}
    (h : SameVersion members file) (f : Settings → Settings) :
    SameVersion members (updateHooks file f) := by
  obtain ⟨members', rfl, hversion⟩ := h
  rw [Install.updateHooks]
  split
  · rename_i hooks _
    refine ⟨_, rfl, fun v => ?_⟩
    have hne : versionKey ≠ hooksKey := by decide +kernel
    rw [mem_define_of_ne hne, hversion]
  · exact ⟨members', rfl, hversion⟩

/-- Changes of hooks leave the version. -/
theorem sameVersion_foldl (own : HookEvent → Units → Bool) (events : List ManagedEvent)
    {members : List (Units × Settings)} {run : HookRun} (h : SameVersion members run.settings) :
    SameVersion members (events.foldl
      (fun run e => run.next (withoutList (own e.event) e.key run.settings)) run).settings := by
  induction events generalizing run with
  | nil => exact h
  | cons e events ih =>
      rw [List.foldl_cons]
      refine ih ?_
      rw [HookRun.next]
      rcases @withoutList_cases (own e.event) e.key run.settings with hcase | ⟨kept, hcase⟩ | hcase
      · rwa [hcase]
      · rw [hcase]
        exact h.updateHooks _
      · rw [hcase]
        exact h.updateHooks _

theorem withVersion_object (members : List (Units × Settings)) :
    withVersion (.object members) = match own members versionKey with
      | none => (Data.object members).setProp versionKey versionOne
      | some _ => .object members := rfl

theorem readHooks_object (members : List (Units × Settings)) :
    readHooks (.object members) = match own members hooksKey with
      | none | some .null => .ok ((Data.object members).setProp hooksKey (.object []))
      | some (.object _) => .ok (.object members)
      | some _ => .error .hooksInvalid := rfl

/-- To write the only version changes nothing but a missing one. -/
theorem withVersion_eq_iff {members : List (Units × Settings)} {file : Settings}
    (h : SameVersion members file) :
    file.setProp versionKey versionOne = withVersion file ↔
      ∀ v, (versionKey, v) ∈ members → v = versionOne := by
  obtain ⟨members', rfl, hversion⟩ := h
  rw [withVersion_object]
  cases hown : own members' versionKey with
  | none =>
      refine iff_of_true rfl fun v hv => ?_
      rw [own_eq_none] at hown
      exact absurd (List.mem_map_of_mem ((hversion v).mpr hv)) hown
  | some w =>
      simp only [← hversion]
      rw [← define_eq_self_iff hown]
      exact ⟨fun h => Data.object.inj h, fun h => congrArg Data.object h⟩

/-- Where an uninstall leaves what it should: the file is an object with an object of hooks, if any,
no list of a managed event holds `null`, and the version is the only one if a hook is removed. -/
def Removable (paths : HookPaths) (file : Settings) : Prop :=
  ∃ members, file = .object members ∧
    (∀ hooks, own members hooksKey = some hooks → hooks = .null ∨ ∃ events, hooks = .object events) ∧
    (∀ e ∈ managedEvents, NoNull (eventProp file e.key)) ∧
    ((∃ e ∈ managedEvents, HoldsOwned (Cursor.owns paths e.event) file e.key) →
      ∀ v, (versionKey, v) ∈ members → v = versionOne)

/-- Where there are no hooks at all, nothing is removed. -/
theorem uninstallHooks_of_none {paths : HookPaths} {file read : Settings}
    (hread : readHooks file = .ok read) (hnone : ∀ event, eventProp file event = none)
    (hnone' : ∀ event, eventProp read event = none) :
    uninstallHooks paths file = .ok (withoutHooks paths file) := by
  have howned : ∀ {settings : Settings}, (∀ event, eventProp settings event = none) →
      ∀ e ∈ managedEvents, ¬HoldsOwned (Cursor.owns paths e.event) settings e.key := by
    rintro settings h e - ⟨list, hlist, -⟩
    rw [h] at hlist
    cases hlist
  have hprescribed : ∀ {settings : Settings}, (∀ event, eventProp settings event = none) →
      prescribed (fun e => withoutList (Cursor.owns paths e.event) e.key) managedEvents settings =
        ⟨managedEvents.map fun _ => false, settings⟩ :=
    fun h => unchanged_of_not_owned (Cursor.owns paths) (howned h) []
  have hrun := @runEvents_of_noNull paths read fun e _ list hlist => by
    rw [hnone'] at hlist
    cases hlist
  rw [uninstallHooks, hread]
  show Except.map (persist file) (runEvents _ managedEvents read) = _
  rw [hrun, hprescribed hnone', withoutHooks, hprescribed hnone]
  rfl

/-- Hooks that are missing or `null` count as none. -/
theorem uninstallHooks_missing (paths : HookPaths) {members : List (Units × Settings)}
    (h : own members hooksKey = none ∨ own members hooksKey = some .null) :
    uninstallHooks paths (.object members) = .ok (withoutHooks paths (.object members)) ∧
      Removable paths (.object members) := by
  have hnone : ∀ event, eventProp (.object members) event = none := by
    intro event
    show (own members hooksKey).bind _ = none
    rcases h with h | h <;> rw [h] <;> rfl
  have hnone' : ∀ event, eventProp
      ((Data.object members : Settings).setProp hooksKey (.object [])) event = none := by
    intro event
    show (own (define members (hooksKey, _)) hooksKey).bind _ = none
    rw [own_define, if_pos rfl]
    rfl
  refine ⟨uninstallHooks_of_none ?_ hnone hnone', members, rfl, ?_, ?_, ?_⟩
  · rw [readHooks_object]
    rcases h with h | h <;> rw [h]
  · intro hooks hhooks
    rcases h with h | h
    · cases hhooks.symm.trans h
    · exact .inl (Option.some.inj (hhooks.symm.trans h))
  · intro e _ list hlist
    rw [hnone] at hlist
    cases hlist
  · rintro ⟨e, -, list, hlist, -⟩
    rw [hnone] at hlist
    cases hlist

/-- With an object of hooks, it is down to the lists and to the version. -/
theorem uninstallHooks_object (paths : HookPaths) {members events : List (Units × Settings)}
    (h : own members hooksKey = some (.object events)) :
    uninstallHooks paths (.object members) = .ok (withoutHooks paths (.object members)) ↔
      Removable paths (.object members) := by
  have hread : readHooks (.object members) = .ok (.object members) := by
    rw [readHooks_object, h]
  have hrun : uninstallHooks paths (.object members) = (runEvents
      (fun e => removeHook (hookCommand paths e.event) e.event e.key) managedEvents
        (.object members)).map (persist (.object members)) := by
    rw [uninstallHooks, hread]
  let wanted := prescribed (fun e => withoutList (Cursor.owns paths e.event) e.key) managedEvents
    (.object members)
  have hchanged : wanted.hooks.any id = true ↔
      ∃ e ∈ managedEvents, HoldsOwned (Cursor.owns paths e.event) (.object members) e.key := by
    have hnull : (Data.object members : Settings) ≠ .null := by simp
    have := changed_iff (Cursor.owns paths) managedEvents_nodup hnull []
    rwa [List.any_nil, Bool.false_eq_true, false_or] at this
  -- what is written is what should be, but for the version
  have hpersist : persist (.object members) wanted = withoutHooks paths (.object members) ↔
      ((∃ e ∈ managedEvents, HoldsOwned (Cursor.owns paths e.event) (.object members) e.key) →
        ∀ v, (versionKey, v) ∈ members → v = versionOne) := by
    have hsame : SameVersion members wanted.settings :=
      sameVersion_foldl (Cursor.owns paths) managedEvents ⟨members, rfl, fun _ => Iff.rfl⟩
    show persist _ wanted = (if wanted.hooks.any id then
      { wanted with settings := withVersion wanted.settings } else wanted) ↔ _
    rw [persist, ← withVersion_eq_iff hsame, ← hchanged]
    by_cases hany : wanted.hooks.any id = true
    · rw [if_pos hany, if_pos hany]
      exact ⟨fun heq _ => congrArg HookRun.settings heq, fun heq => by rw [heq hany]⟩
    · rw [if_neg hany, if_neg hany]
      refine iff_of_true ?_ fun hyes => absurd hyes hany
      have hfile := unchanged_of_not_owned (Cursor.owns paths)
        (fun e he howned => hany (hchanged.mpr ⟨e, he, howned⟩)) []
      show HookRun.mk wanted.hooks _ = wanted
      rw [show wanted = _ from hfile]
  rw [hrun]
  constructor
  · intro hok
    cases hevents : runEvents (fun e => removeHook (hookCommand paths e.event) e.event e.key)
        managedEvents (.object members) with
    | error e =>
        rw [hevents] at hok
        cases hok
    | ok run =>
        have hnull := noNull_of_runEvents hevents
        rw [runEvents_of_noNull hnull] at hok
        refine ⟨members, rfl, fun hooks hhooks => ?_, hnull, hpersist.mp (Except.ok.inj hok)⟩
        exact .inr ⟨events, Option.some.inj (hhooks.symm.trans h)⟩
  · rintro ⟨members', hmembers, -, hnull, hversion⟩
    cases hmembers
    rw [runEvents_of_noNull hnull]
    exact congrArg Except.ok (hpersist.mpr hversion)

/-- **An uninstall of Cursor.** -/
theorem uninstallHooks_iff (paths : HookPaths) (file : Settings) :
    uninstallHooks paths file = .ok (withoutHooks paths file) ↔ Removable paths file := by
  have hinvalid : (∃ e, readHooks file = .error e) → ¬Removable paths file →
      (uninstallHooks paths file = .ok (withoutHooks paths file) ↔ Removable paths file) := by
    rintro ⟨e, he⟩ hnot
    refine iff_of_false ?_ hnot
    rw [uninstallHooks, he]
    intro h
    cases h
  cases file with
  | object members =>
      have hread := readHooks_object members
      cases hhooks : own members hooksKey with
      | none =>
          obtain ⟨hok, hremovable⟩ := uninstallHooks_missing paths (.inl hhooks)
          exact iff_of_true hok hremovable
      | some hooks =>
          have hnot : hooks ≠ .null → (∀ events, hooks ≠ .object events) →
              ¬Removable paths (.object members) := by
            rintro hnull hobject ⟨members', hmembers, hvalue, -⟩
            cases hmembers
            rcases hvalue hooks hhooks with h | ⟨events, h⟩
            · exact hnull h
            · exact hobject events h
          rw [hhooks] at hread
          cases hooks with
          | null =>
              obtain ⟨hok, hremovable⟩ := uninstallHooks_missing paths (.inr hhooks)
              exact iff_of_true hok hremovable
          | object events => exact uninstallHooks_object paths hhooks
          | _ => exact hinvalid ⟨_, hread⟩ (hnot (by simp) (by simp))
  | _ =>
      refine hinvalid ⟨_, rfl⟩ ?_
      rintro ⟨members, hmembers, -⟩
      cases hmembers

end Cursor

/-! ## All agents -/

/-- Where an uninstall of Claude leaves what it should. -/
def Claude.Removable (paths : HookPaths) (settings : Settings) : Prop :=
  ∀ e ∈ managedEvents, ∃ value, eventValue settings e.key = .ok value ∧
    ListRemovable (EntryRemovable
      (fun actual => isSameHookCommand actual (hookCommand paths e.event))
      (Claude.owns paths e.event)) value

/-- Where an uninstall of Codex leaves what it should. -/
def Codex.Removable (windows : Bool) (paths : HookPaths) (settings : Settings) : Prop :=
  ∀ e ∈ managedEvents, ∃ value, eventValue settings e.key = .ok value ∧
    ListRemovable (EntryRemovable (Codex.owns windows paths e.event)
      (Codex.owns windows paths e.event)) value

/-- **What an uninstall leaves.** For each agent, the hooks of Caveat's and nothing else go, just
where the settings are removable: entries are not shared with hooks of others, the commands that are
looked at are strings, and Cursor's version is the one that is written. -/
theorem uninstall_foreign_kept_iff (windows : Bool) (paths : HookPaths) (settings : Settings) :
    (Claude.uninstallHooks paths settings =
        .ok (withoutHooks (Claude.owns paths) Claude.managedEvents settings) ↔
      Claude.Removable paths settings) ∧
    (Codex.uninstallHooks windows paths settings =
        .ok (withoutHooks (Codex.owns windows paths) Codex.managedEvents settings) ↔
      Codex.Removable windows paths settings) ∧
    (Cursor.uninstallHooks paths settings = .ok (Cursor.withoutHooks paths settings) ↔
      Cursor.Removable paths settings) := by
  have hclaude : (Claude.managedEvents.map ManagedEvent.key).Nodup := by decide +kernel
  have hcodex : (Codex.managedEvents.map ManagedEvent.key).Nodup := by decide +kernel
  have howns : ∀ event command,
      Claude.isSameHookCommand command (Claude.hookCommand paths event) = true →
        Claude.owns paths event command = true := by
    intro event command h
    rw [Claude.owns, h, Bool.true_or]
  refine ⟨?_, ?_, Cursor.uninstallHooks_iff paths settings⟩
  · exact @uninstall_entries_iff
      (fun event actual => Claude.isSameHookCommand actual (Claude.hookCommand paths event))
      (Claude.owns paths) howns _ hclaude settings
  · exact @uninstall_entries_iff (Codex.owns windows paths) (Codex.owns windows paths)
      (fun _ _ h => h) _ hcodex settings

/-! ## An entry that is shared -/

def hookOf (command : Units) : Settings := .object [(commandKey, .string command)]

/-- Settings with one entry for the event `Stop`. -/
def stopSettings (hooks : List Settings) : Settings :=
  .object [(hooksKey, .object [(units "Stop", .array [.object [(hooksKey, .array hooks)]])])]

/-- The hook of another tool goes with that of Caveat's. -/
theorem shared_entry_lost :
    ∃ (paths : HookPaths) (settings : Settings),
      (Claude.uninstallHooks paths settings).map HookRun.settings =
        .ok (.object [(hooksKey, .object [(units "Stop", .array [])])]) ∧
      Claude.uninstallHooks paths settings ≠
        .ok (withoutHooks (Claude.owns paths) Claude.managedEvents settings) := by
  let paths : HookPaths := ⟨units "node", units "/opt/caveat/cli.js"⟩
  let shared := stopSettings [hookOf (units "node /opt/caveat/cli.js hook stop"),
    hookOf (units "notify done")]
  have hlost : (Claude.uninstallHooks paths shared).map HookRun.settings =
      .ok (.object [(hooksKey, .object [(units "Stop", .array [])])]) := rfl
  have hkept : (withoutHooks (Claude.owns paths) Claude.managedEvents shared).settings =
      stopSettings [hookOf (units "notify done")] := rfl
  refine ⟨paths, shared, hlost, fun h => ?_⟩
  rw [h, Except.map, hkept] at hlost
  simp [stopSettings] at hlost

end Caveat.Install
