import Caveat.Install.HookRemoval

/-!
# What is left of lists of entries

The installers of Claude and Codex leave of the list of an event what they should just where no
entry holds hooks of Caveat's together with others, and where nothing that is looked at makes them
throw.
-/

namespace Caveat.Install

open Js

/-! ## Parts of the settings -/

section Parts

variable {σ : Type}

theorem Data.prop_setProp_of_ne (value v : Data σ) {key k : Units} (h : k ≠ key) :
    (value.setProp key v).prop k = value.prop k := by
  cases value with
  | object members =>
      show own (define members (key, v)) k = own members k
      rw [own_define, if_neg h]
  | _ => rfl

theorem Data.prop_setProp_self {value w : Data σ} {k : Units} (h : value.prop k = some w)
    (key : Units) (v : Data σ) : (value.setProp key v).prop key = some v := by
  cases value with
  | object members =>
      show own (define members (key, v)) key = some v
      rw [own_define, if_pos rfl]
  | _ => cases h

theorem Data.prop_deleteProp (value : Data σ) (key k : Units) :
    (value.deleteProp key).prop k = if k = key then none else value.prop k := by
  cases value with
  | object members => exact own_erase members key k
  | _ =>
      split <;> rfl

end Parts

theorem eventProp_updateHooks (settings : Settings) (f : Settings → Settings) (event : Units) :
    eventProp (updateHooks settings f) event =
      (settings.prop hooksKey).bind fun hooks => (f hooks).prop event := by
  rw [updateHooks]
  cases hhooks : settings.prop hooksKey with
  | none =>
      show (settings.prop hooksKey).bind _ = none
      rw [hhooks]
      rfl
  | some hooks =>
      show ((settings.setProp hooksKey (f hooks)).prop hooksKey).bind _ = _
      rw [Data.prop_setProp_self hhooks]
      rfl

theorem updateHooks_eq_null {settings : Settings} {f : Settings → Settings} :
    updateHooks settings f = .null ↔ settings = .null := by
  rw [updateHooks]
  cases settings with
  | object members =>
      split
      · simp [Data.setProp]
      · rfl
  | _ => rfl

theorem eventValue_eq_ok {settings : Settings} {event : Units} {value : Option Settings} :
    eventValue settings event = .ok value ↔ settings ≠ .null ∧ eventProp settings event = value := by
  cases settings <;> simp [eventValue]

/-- What an event holds is told by its property, unless the settings are `null`. -/
theorem eventValue_congr {settings settings' : Settings} {event : Units}
    (hnull : settings' = .null ↔ settings = .null)
    (hprop : eventProp settings' event = eventProp settings event) :
    eventValue settings' event = eventValue settings event := by
  by_cases h : settings = .null
  · rw [h, hnull.mpr h]
  · rw [eventValue_eq_ok.mpr ⟨h, rfl⟩, eventValue_eq_ok.mpr ⟨fun h' => h (hnull.mp h'), hprop⟩]

theorem eventProp_setEvent_of_ne (settings : Settings) {event key : Units} (h : key ≠ event)
    (list : List Settings) : eventProp (setEvent settings event list) key = eventProp settings key := by
  rw [setEvent, eventProp_updateHooks, eventProp]
  simp only [Data.prop_setProp_of_ne _ _ h]

theorem eventProp_setEvent_self {settings : Settings} {event key : Units} {w : Settings}
    (h : eventProp settings key = some w) (list : List Settings) :
    eventProp (setEvent settings event list) event = some (.array list) := by
  obtain ⟨hooks, hhooks, hw⟩ := Option.bind_eq_some_iff.mp h
  rw [setEvent, eventProp_updateHooks, hhooks, Option.bind_some, Data.prop_setProp_self hw]

theorem eventProp_deleteEvent (settings : Settings) (event key : Units) :
    eventProp (deleteEvent settings event) key =
      if key = event then none else eventProp settings key := by
  rw [deleteEvent, eventProp_updateHooks, eventProp]
  simp only [Data.prop_deleteProp]
  split
  · cases settings.prop hooksKey <;> rfl
  · rfl

theorem setEvent_eq_null {settings : Settings} {event : Units} {list : List Settings} :
    setEvent settings event list = .null ↔ settings = .null := updateHooks_eq_null

theorem deleteEvent_eq_null {settings : Settings} {event : Units} :
    deleteEvent settings event = .null ↔ settings = .null := updateHooks_eq_null

theorem eventValue_setEvent_of_ne (settings : Settings) {event key : Units} (h : key ≠ event)
    (list : List Settings) :
    eventValue (setEvent settings event list) key = eventValue settings key :=
  eventValue_congr setEvent_eq_null (eventProp_setEvent_of_ne settings h list)

theorem eventValue_deleteEvent_of_ne (settings : Settings) {event key : Units} (h : key ≠ event) :
    eventValue (deleteEvent settings event) key = eventValue settings key :=
  eventValue_congr deleteEvent_eq_null (by rw [eventProp_deleteEvent, if_neg h])

/-! ## Runs -/

/-- What a run shows of an event. -/
def runView (event : Units) (run : HookRun) : Except HookError (Option Settings) :=
  eventValue run.settings event

theorem runView_next (event : Units) (run : HookRun) (changed : Option Settings) :
    runView event (run.next changed) = eventValue (changed.getD run.settings) event := rfl

/-- A change of an event that is confined to the list of the event. -/
def Confined (change : ManagedEvent → Settings → Option Settings) : Prop :=
  ∀ e settings key, key ≠ e.key →
    eventValue ((change e settings).getD settings) key = eventValue settings key

theorem runEvents_apart {change : ManagedEvent → Settings → Except HookError (Option Settings)}
    (h : ∀ e settings changed, change e settings = .ok changed → ∀ key, key ≠ e.key →
      eventValue (changed.getD settings) key = eventValue settings key) :
    Lib.Apart ManagedEvent.key runView
      (fun e (run : HookRun) => (change e run.settings).map run.next) := by
  intro e run run' hrun key hkey
  replace hrun : (change e run.settings).map run.next = .ok run' := hrun
  cases hchange : change e run.settings with
  | error err =>
      rw [hchange] at hrun
      cases hrun
  | ok changed =>
      rw [hchange] at hrun
      obtain rfl := Except.ok.inj hrun
      exact h e run.settings changed hchange key hkey

theorem prescribed_of {change : ManagedEvent → Settings → Option Settings}
    {become : ManagedEvent → Option Settings → Option Settings} (hconfined : Confined change)
    (hbecome : ∀ e settings, eventValue ((change e settings).getD settings) e.key =
      (eventValue settings e.key).map (become e)) :
    Lib.Prescribed ManagedEvent.key runView
      (fun e (run : HookRun) => run.next (change e run.settings)) where
  apart e run key hkey := hconfined e run.settings key hkey
  told e run run' h := by
    rw [runView_next, runView_next, hbecome, hbecome]
    exact congrArg (Except.map (become e)) h

/-! ## Entries -/

/-- All hooks of an entry that are looked at have commands, and either none is Caveat's or all are,
with one among them that is recognised. -/
def Unmixed (matched owns : Units → Bool) (hooks : List Settings) : Prop :=
  (∀ hook ∈ hooks, ∃ command, commandOf hook = some command ∧ owns command = false) ∨
    ((∀ hook ∈ hooks, ∃ command, commandOf hook = some command ∧ owns command = true) ∧
      ∃ hook ∈ hooks, ∃ command, commandOf hook = some command ∧ matched command = true)

def EntryRemovable (matched owns : Units → Bool) (entry : Settings) : Prop :=
  entry ≠ .null ∧ ∀ value, entry.prop hooksKey = some value →
    value = .null ∨ ∃ hooks, value = .array hooks ∧ Unmixed matched owns hooks

/-- The list of an event: what is no list must count as missing. -/
def ListRemovable (EntryOk : Settings → Prop) (value : Option Settings) : Prop :=
  ∀ list, value = some list → truthy list = true →
    ∃ entries, list = .array entries ∧ ∀ entry ∈ entries, EntryOk entry

variable {matched owns : Units → Bool}

theorem isOwned_eq_true {hook : Settings} :
    isOwned owns hook = true ↔ ∃ command, commandOf hook = some command ∧ owns command = true := by
  rw [isOwned, Option.any_eq_true_iff_get]
  cases commandOf hook <;> simp

theorem isOwned_of_command {hook : Settings} {command : Units}
    (h : commandOf hook = some command) : isOwned owns hook = owns command := by
  rw [isOwned, h]
  rfl

/-- Hooks that all have commands are looked through to the end. -/
theorem someHook_of_commands {hooks : List Settings}
    (h : ∀ hook ∈ hooks, ∃ command, commandOf hook = some command) :
    someHook matched hooks = .ok (hooks.any (isOwned matched)) := by
  induction hooks with
  | nil => rfl
  | cons hook hooks ih =>
      obtain ⟨command, hcommand⟩ := h hook List.mem_cons_self
      rw [someHook, hcommand, List.any_cons, isOwned_of_command hcommand]
      cases hmatched : matched command with
      | true => simp only [hmatched, if_true, Bool.true_or]
      | false =>
          simp only [hmatched, Bool.false_eq_true, if_false, Bool.false_or]
          exact ih fun other hother => h other (List.mem_cons_of_mem _ hother)

theorem someHook_eq_false {hooks : List Settings} (h : someHook matched hooks = .ok false) :
    ∀ hook ∈ hooks, ∃ command, commandOf hook = some command ∧ matched command = false := by
  induction hooks with
  | nil => exact fun _ h => absurd h List.not_mem_nil
  | cons hook hooks ih =>
      rw [someHook] at h
      cases hcommand : commandOf hook with
      | none =>
          rw [hcommand] at h
          cases h
      | some command =>
          simp only [hcommand] at h
          cases hmatched : matched command with
          | true =>
              rw [hmatched] at h
              cases h
          | false =>
              rw [hmatched] at h
              rw [List.forall_mem_cons]
              exact ⟨⟨command, hcommand, hmatched⟩, ih h⟩

theorem someHook_eq_true {hooks : List Settings} (h : someHook matched hooks = .ok true) :
    ∃ hook ∈ hooks, ∃ command, commandOf hook = some command ∧ matched command = true := by
  induction hooks with
  | nil => cases h
  | cons hook hooks ih =>
      rw [someHook] at h
      cases hcommand : commandOf hook with
      | none =>
          rw [hcommand] at h
          cases h
      | some command =>
          simp only [hcommand] at h
          cases hmatched : matched command with
          | true => exact ⟨hook, List.mem_cons_self, command, hcommand, hmatched⟩
          | false =>
              rw [hmatched] at h
              obtain ⟨other, hother, hfound⟩ := ih h
              exact ⟨other, List.mem_cons_of_mem _ hother, hfound⟩

/-- An entry that is no `null`: its hooks decide. -/
theorem entryMatches_of_ne_null {entry : Settings} (h : entry ≠ .null) :
    entryMatches matched entry = match entry.prop hooksKey with
      | none | some .null => .ok false
      | some (.array hooks) => someHook matched hooks
      | some _ => .error .typeError := by
  cases entry with
  | null => exact absurd rfl h
  | _ => rfl

/-- What is seen of an entry, where the hooks are looked through. -/
theorem entryMatches_eq_ok {entry : Settings} {found : Bool}
    (h : entryMatches matched entry = .ok found) : entry ≠ .null ∧
      ((∀ value, entry.prop hooksKey = some value → value = .null) ∧ found = false ∨
        ∃ hooks, entry.prop hooksKey = some (.array hooks) ∧ someHook matched hooks = .ok found) := by
  have hnull : entry ≠ .null := by
    rintro rfl
    cases h
  refine ⟨hnull, ?_⟩
  rw [entryMatches_of_ne_null hnull] at h
  split at h
  · rename_i hprop
    refine .inl ⟨fun value hvalue => ?_, (Except.ok.inj h).symm⟩
    cases hvalue.symm.trans hprop
  · rename_i hprop
    refine .inl ⟨fun value hvalue => ?_, (Except.ok.inj h).symm⟩
    exact Option.some.inj (hvalue.symm.trans hprop)
  · rename_i hooks hprop
    exact .inr ⟨hooks, hprop, h⟩
  · cases h

/-- What is left of an entry holds no hook of Caveat's. -/
theorem ownedEntry_of_foreignEntry {entry left : Settings}
    (h : foreignEntry owns entry = some left) : ownedEntry owns left = false := by
  rw [foreignEntry] at h
  split at h
  · rename_i hooks hprop
    split at h
    · split at h
      · cases h
      · obtain rfl := Option.some.inj h
        rw [ownedEntry, Data.prop_setProp_self hprop]
        simp
    · rename_i hnone
      obtain rfl := Option.some.inj h
      rw [ownedEntry, hprop]
      exact Bool.eq_false_iff.mpr hnone
  · rename_i hprop
    obtain rfl := Option.some.inj h
    rw [ownedEntry]
    split
    · rename_i hooks hhooks
      exact absurd hhooks (hprop hooks)
    · rfl

theorem foreignEntry_of_not_owned {entry : Settings} (h : ownedEntry owns entry = false) :
    foreignEntry owns entry = some entry := by
  rw [foreignEntry]
  split
  · rename_i hooks hprop
    rw [ownedEntry, hprop] at h
    rw [if_neg (Bool.eq_false_iff.mp h)]
  · rfl

/-- An entry goes if all of its hooks are Caveat's. -/
theorem foreignEntry_eq_none {entry : Settings} : foreignEntry owns entry = none ↔
    ∃ hooks, entry.prop hooksKey = some (.array hooks) ∧ hooks ≠ [] ∧
      ∀ hook ∈ hooks, isOwned owns hook = true := by
  constructor
  · intro h
    rw [foreignEntry] at h
    split at h
    · rename_i hooks hprop
      split at h
      · rename_i hany
        split at h
        · rename_i hnone
          refine ⟨hooks, hprop, ?_, ?_⟩
          · rintro rfl
            cases hany
          · simpa using hnone
        · cases h
      · cases h
    · cases h
  · rintro ⟨hooks, hprop, hne, hall⟩
    obtain ⟨hook, hhook⟩ := List.exists_mem_of_ne_nil hooks hne
    have hany : hooks.any (isOwned owns) = true := List.any_eq_true.mpr ⟨hook, hhook, hall hook hhook⟩
    have hnone : hooks.filter (fun hook => !isOwned owns hook) = [] := by simpa using hall
    rw [foreignEntry, hprop]
    simp only [hany, if_true, hnone]

/-- The hooks of an entry. -/
def hooksOf (entry : Settings) : List Settings :=
  match entry.prop hooksKey with
  | some (.array hooks) => hooks
  | _ => []

theorem hooksOf_foreignEntry (owns : Units → Bool) (entry : Settings) :
    (foreignEntry owns entry).toList.flatMap hooksOf =
      (hooksOf entry).filter fun hook => !isOwned owns hook := by
  by_cases howned : ownedEntry owns entry = true
  · rw [ownedEntry] at howned
    split at howned
    · rename_i hooks hprop
      have hhooks : hooksOf entry = hooks := by rw [hooksOf, hprop]
      rw [hhooks, foreignEntry, hprop]
      simp only [howned, if_true]
      cases hooks.filter fun hook => !isOwned owns hook with
      | nil => rfl
      | cons hook kept =>
          show hooksOf (entry.setProp hooksKey (.array (hook :: kept))) ++ [] = hook :: kept
          rw [List.append_nil, hooksOf, Data.prop_setProp_self hprop]
    · cases howned
  · rw [Bool.not_eq_true] at howned
    rw [foreignEntry_of_not_owned howned]
    show hooksOf entry ++ [] = _
    rw [List.append_nil]
    refine (List.filter_eq_self.mpr fun hook hhook => ?_).symm
    rw [hooksOf] at hhook
    rw [ownedEntry] at howned
    split at hhook
    · rename_i hooks hprop
      rw [hprop] at howned
      simpa using List.any_eq_false.mp howned hook hhook
    · exact absurd hhook List.not_mem_nil

/-- **What should be left.** The hooks that are not Caveat's, all of them and in their order. -/
theorem hooksOf_foreignEntries (owns : Units → Bool) (entries : List Settings) :
    (foreignEntries owns entries).flatMap hooksOf =
      (entries.flatMap hooksOf).filter fun hook => !isOwned owns hook := by
  induction entries with
  | nil => rfl
  | cons entry entries ih =>
      rw [foreignEntries] at ih
      have hentry := hooksOf_foreignEntry owns entry
      rw [List.flatMap_cons, List.filter_append, ← ih, ← hentry, foreignEntries,
        List.filterMap_cons]
      cases foreignEntry owns entry with
      | none => rfl
      | some left => rw [Option.toList_some, List.flatMap_singleton, List.flatMap_cons]

/-- Where an entry is left, its matcher and all else but its hooks is. -/
theorem foreignEntry_prop {entry left : Settings} (h : foreignEntry owns entry = some left)
    {key : Units} (hkey : key ≠ hooksKey) : left.prop key = entry.prop key := by
  rw [foreignEntry] at h
  split at h
  · split at h
    · split at h
      · cases h
      · obtain rfl := Option.some.inj h
        exact Data.prop_setProp_of_ne entry _ hkey
    · rw [Option.some.inj h]
  · rw [Option.some.inj h]

/-! ## The list of an event of Claude or Codex -/

theorem entryMatches_of_removable {entry : Settings} (h : EntryRemovable matched owns entry)
    (howns : ∀ command, matched command = true → owns command = true) :
    entryMatches matched entry = .ok (ownedEntry owns entry) ∧
      foreignEntry owns entry = if !ownedEntry owns entry then some entry else none := by
  obtain ⟨hnull, hvalue⟩ := h
  have hmatches := @entryMatches_of_ne_null matched entry hnull
  cases hprop : entry.prop hooksKey with
  | none =>
      have howned : ownedEntry owns entry = false := by rw [ownedEntry, hprop]
      rw [hmatches, hprop, howned, foreignEntry_of_not_owned howned]
      exact ⟨rfl, rfl⟩
  | some value =>
      rcases hvalue value hprop with rfl | ⟨hooks, rfl, hunmixed⟩
      · have howned : ownedEntry owns entry = false := by rw [ownedEntry, hprop]
        rw [hmatches, hprop, howned, foreignEntry_of_not_owned howned]
        exact ⟨rfl, rfl⟩
      have howned : ownedEntry owns entry = hooks.any (isOwned owns) := by rw [ownedEntry, hprop]
      rw [hmatches, hprop]
      show someHook matched hooks = _ ∧ _
      rcases hunmixed with hforeign | ⟨hall, hook, hhook, command, hcommand, hmatched⟩
      · have hnone : hooks.any (isOwned owns) = false := by
          rw [List.any_eq_false]
          intro hook hhook
          obtain ⟨command, hcommand, hnot⟩ := hforeign hook hhook
          rw [isOwned_of_command hcommand, hnot]
          exact Bool.false_ne_true
        have hunmatched : hooks.any (isOwned matched) = false := by
          rw [List.any_eq_false]
          intro hook hhook
          obtain ⟨command, hcommand, hnot⟩ := hforeign hook hhook
          rw [isOwned_of_command hcommand]
          intro hmatched
          rw [howns command hmatched] at hnot
          cases hnot
        rw [someHook_of_commands fun hook hhook => ?_, hunmatched, howned, hnone,
          foreignEntry_of_not_owned (howned.trans hnone)]
        · exact ⟨rfl, rfl⟩
        · obtain ⟨command, hcommand, _⟩ := hforeign hook hhook
          exact ⟨command, hcommand⟩
      · have hfound : hooks.any (isOwned matched) = true :=
          List.any_eq_true.mpr ⟨hook, hhook, isOwned_eq_true.mpr ⟨command, hcommand, hmatched⟩⟩
        have hany : hooks.any (isOwned owns) = true :=
          List.any_eq_true.mpr
            ⟨hook, hhook, isOwned_eq_true.mpr ⟨command, hcommand, howns command hmatched⟩⟩
        have hgone : foreignEntry owns entry = none :=
          foreignEntry_eq_none.mpr ⟨hooks, hprop, List.ne_nil_of_mem hhook,
            fun other hother => isOwned_eq_true.mpr (hall other hother)⟩
        rw [someHook_of_commands fun other hother => ?_, hfound, howned, hany, hgone]
        · exact ⟨rfl, rfl⟩
        · obtain ⟨command, hcommand, _⟩ := hall other hother
          exact ⟨command, hcommand⟩

/-- Where every entry is removable, those go that should. -/
theorem removeEntries_of_removable {event : Units} {settings : Settings} {value : Option Settings}
    (howns : ∀ command, matched command = true → owns command = true)
    (hvalue : eventValue settings event = .ok value)
    (h : ListRemovable (EntryRemovable matched owns) value) :
    removeEntries matched event settings = .ok (withoutEntries owns event settings) := by
  obtain ⟨-, hprop⟩ := eventValue_eq_ok.mp hvalue
  rw [removeEntries, hvalue, withoutEntries, hprop]
  cases value with
  | none => rfl
  | some list =>
      cases htruthy : truthy list with
      | false =>
          cases list with
          | array entries => cases htruthy
          | _ => simp [htruthy]
      | true =>
          obtain ⟨entries, rfl, hentries⟩ := h list rfl htruthy
          have hseen := fun entry hentry => entryMatches_of_removable (hentries entry hentry) howns
          have haccepts : ∀ entry ∈ entries, (entryMatches matched entry).map not =
              .ok (!ownedEntry owns entry) := by
            intro entry hentry
            rw [(hseen entry hentry).1]
            rfl
          have hkept : Lib.filterE (fun entry => (entryMatches matched entry).map not) entries =
              .ok (foreignEntries owns entries) := by
            rw [Lib.filterE_ok fun entry hentry => ⟨_, haccepts entry hentry⟩, foreignEntries,
              Lib.filterMap_eq_filter_of fun entry hentry => (hseen entry hentry).2]
            refine congrArg _ (List.filter_congr fun entry hentry => ?_)
            rw [Lib.accepts, haccepts entry hentry]
            rfl
          have hlength : (foreignEntries owns entries).length = entries.length ↔
              ¬entries.any (ownedEntry owns) = true := by
            rw [foreignEntries,
              Lib.filterMap_eq_filter_of fun entry hentry => (hseen entry hentry).2,
              List.length_filter_eq_length_iff]
            simp
          simp only [htruthy, if_true]
          rw [filterEvent, hkept]
          show Except.ok (if (foreignEntries owns entries).length = entries.length then _ else _) = _
          by_cases hany : entries.any (ownedEntry owns) = true
          · rw [if_neg fun h => hlength.mp h hany, if_pos hany]
          · rw [if_pos (hlength.mpr hany), if_neg hany]

/-- What a removal that does not throw has found and left. -/
theorem removeEntries_eq_ok {event : Units} {settings : Settings} {changed : Option Settings}
    (h : removeEntries matched event settings = .ok changed) :
    ∃ value, eventValue settings event = .ok value ∧
      ((∀ list, value = some list → truthy list = false) ∧ changed = none ∨
        ∃ entries kept, value = some (.array entries) ∧
          Lib.filterE (fun entry => (entryMatches matched entry).map not) entries = .ok kept ∧
          eventProp (changed.getD settings) event = some (.array kept) ∧
          (changed = none ∨ changed = some (setEvent settings event kept))) := by
  rw [removeEntries] at h
  cases hvalue : eventValue settings event with
  | error e =>
      rw [hvalue] at h
      cases h
  | ok value =>
      rw [hvalue] at h
      obtain ⟨-, hprop⟩ := eventValue_eq_ok.mp hvalue
      refine ⟨value, rfl, ?_⟩
      cases value with
      | none =>
          refine .inl ⟨fun list hlist => ?_, (Except.ok.inj h).symm⟩
          cases hlist
      | some list =>
          cases htruthy : truthy list with
          | false =>
              simp only [htruthy, Bool.false_eq_true, if_false] at h
              refine .inl ⟨fun list' hlist => ?_, (Except.ok.inj h).symm⟩
              rw [← Option.some.inj hlist, htruthy]
          | true =>
              simp only [htruthy, if_true] at h
              cases list with
              | array entries =>
                  refine .inr ⟨entries, ?_⟩
                  replace h : filterEvent matched event settings entries = .ok changed := h
                  rw [filterEvent] at h
                  cases hkept : Lib.filterE
                      (fun entry => (entryMatches matched entry).map not) entries with
                  | error e =>
                      rw [hkept] at h
                      cases h
                  | ok kept =>
                      rw [hkept] at h
                      refine ⟨kept, rfl, rfl, ?_⟩
                      replace h : (if kept.length = entries.length then none
                        else some (setEvent settings event kept)) = changed := Except.ok.inj h
                      by_cases hlength : kept.length = entries.length
                      · have hsame : kept = entries := by
                          obtain ⟨-, rfl⟩ := Lib.filterE_eq_ok hkept
                          exact List.filter_eq_self.mpr (List.length_filter_eq_length_iff.mp hlength)
                        rw [if_pos hlength] at h
                        subst h
                        rw [hsame]
                        exact ⟨hprop, .inl rfl⟩
                      · rw [if_neg hlength] at h
                        subst h
                        exact ⟨eventProp_setEvent_self hprop kept, .inr rfl⟩
              | _ => cases h

/-- What `withoutEntries` makes of what an event holds. -/
def foreignValue (owns : Units → Bool) : Option Settings → Option Settings
  | some (.array entries) => some (.array (foreignEntries owns entries))
  | value => value

theorem foreignEntries_of_not_owned {entries : List Settings}
    (h : ¬entries.any (ownedEntry owns) = true) : foreignEntries owns entries = entries := by
  rw [Bool.not_eq_true, List.any_eq_false] at h
  rw [foreignEntries, List.filterMap_congr (g := some) fun entry hentry =>
    foreignEntry_of_not_owned (Bool.eq_false_iff.mpr (h entry hentry)), List.filterMap_some]

theorem withoutEntries_cases (event : Units) (settings : Settings) :
    withoutEntries owns event settings = none ∨
      ∃ entries, eventProp settings event = some (.array entries) ∧ withoutEntries owns event settings =
        some (setEvent settings event (foreignEntries owns entries)) := by
  rw [withoutEntries]
  split
  · rename_i entries hprop
    split
    · exact .inr ⟨entries, hprop, rfl⟩
    · exact .inl rfl
  · exact .inl rfl

theorem eventValue_withoutEntries (event : Units) (settings : Settings) :
    eventValue ((withoutEntries owns event settings).getD settings) event =
      (eventValue settings event).map (foreignValue owns) := by
  by_cases hnull : settings = .null
  · subst hnull
    rfl
  rw [eventValue_eq_ok.mpr ⟨hnull, rfl⟩, withoutEntries]
  show _ = Except.ok (foreignValue owns (eventProp settings event))
  split
  · rename_i entries hprop
    rw [hprop]
    show _ = Except.ok (some (Data.array (foreignEntries owns entries)))
    split
    · exact eventValue_eq_ok.mpr
        ⟨fun h => hnull (setEvent_eq_null.mp h), eventProp_setEvent_self hprop _⟩
    · rename_i hnone
      rw [foreignEntries_of_not_owned hnone]
      exact eventValue_eq_ok.mpr ⟨hnull, hprop⟩
  · rename_i hprop
    refine eventValue_eq_ok.mpr ⟨hnull, ?_⟩
    unfold foreignValue
    split
    · rename_i entries hentries
      exact absurd hentries (hprop entries)
    · rfl

theorem withoutEntries_confined (events : HookEvent → Units → Bool) :
    Confined fun e => withoutEntries (events e.event) e.key := by
  intro e settings key hkey
  rcases @withoutEntries_cases (events e.event) e.key settings with h | ⟨entries, -, h⟩
  · simp only [h, Option.getD_none]
  · simp only [h, Option.getD_some]
    exact eventValue_setEvent_of_ne settings hkey _

/-- Where what is left is what should be left, every entry was removable. -/
theorem removable_of_removeEntries {event : Units} {settings : Settings}
    {changed : Option Settings} (h : removeEntries matched event settings = .ok changed)
    (hleft : eventValue (changed.getD settings) event =
      eventValue ((withoutEntries owns event settings).getD settings) event) :
    ∃ value, eventValue settings event = .ok value ∧
      ListRemovable (EntryRemovable matched owns) value := by
  obtain ⟨value, hvalue, ⟨hfalsy, -⟩ | ⟨entries, kept, rfl, hkept, hprop, -⟩⟩ :=
    removeEntries_eq_ok h
  · refine ⟨value, hvalue, fun list hlist htruthy => ?_⟩
    rw [hfalsy list hlist] at htruthy
    cases htruthy
  refine ⟨_, hvalue, fun list hlist _ => ⟨entries, (Option.some.inj hlist).symm, ?_⟩⟩
  rw [eventValue_withoutEntries, hvalue] at hleft
  have hsame : kept = foreignEntries owns entries := by
    have := (eventValue_eq_ok.mp hleft).2
    rw [hprop] at this
    exact Data.array.inj (Option.some.inj this)
  obtain ⟨hall, hfilter⟩ := Lib.filterE_eq_ok hkept
  have hfound : ∀ entry ∈ entries, ∃ found, entryMatches matched entry = .ok found := by
    intro entry hentry
    obtain ⟨keep, hkeep⟩ := hall entry hentry
    cases hmatches : entryMatches matched entry with
    | error e =>
        rw [hmatches] at hkeep
        cases hkeep
    | ok found => exact ⟨found, rfl⟩
  have haccepts : ∀ entry, ∀ found, entryMatches matched entry = .ok found →
      Lib.accepts (fun entry => (entryMatches matched entry).map not) entry = !found := by
    intro entry found hmatches
    rw [Lib.accepts, hmatches]
    rfl
  -- what is kept is left as it is, so it holds no hook of Caveat's
  have hkeptOwned : ∀ entry ∈ entries, entryMatches matched entry = .ok false →
      ownedEntry owns entry = false := by
    intro entry hentry hmatches
    have hmem : entry ∈ foreignEntries owns entries := by
      rw [← hsame, hfilter, List.mem_filter]
      exact ⟨hentry, haccepts entry false hmatches⟩
    obtain ⟨entry', -, hentry'⟩ := List.mem_filterMap.mp hmem
    exact ownedEntry_of_foreignEntry hentry'
  -- as many go as should, and all that are kept should be, so that the same go
  have hgone : ∀ entry ∈ entries, entryMatches matched entry = .ok true →
      foreignEntry owns entry = none := by
    intro entry hentry hmatches
    cases hleft : foreignEntry owns entry with
    | none => rfl
    | some left =>
        have hlength : (entries.filterMap (foreignEntry owns)).length = (entries.filter
            (Lib.accepts fun entry => (entryMatches matched entry).map not)).length := by
          rw [← hfilter, hsame, foreignEntries]
        have haccepted := Lib.accepted_of_filterMap_length (fun other hother hkeeps => ?_) hlength
          entry hentry (by rw [hleft]; rfl)
        · rw [haccepts entry true hmatches] at haccepted
          cases haccepted
        · obtain ⟨found, hfound⟩ := hfound other hother
          rw [haccepts other found hfound] at hkeeps
          obtain rfl : found = false := by simpa using hkeeps
          rw [foreignEntry_of_not_owned (hkeptOwned other hother hfound)]
          rfl
  intro entry hentry
  obtain ⟨found, hmatches⟩ := hfound entry hentry
  obtain ⟨hnull, ⟨hvalues, -⟩ | ⟨hooks, hhooks, hsome⟩⟩ := entryMatches_eq_ok hmatches
  · exact ⟨hnull, fun value hvalue => .inl (hvalues value hvalue)⟩
  refine ⟨hnull, fun value hvalue => .inr ⟨hooks, Option.some.inj (hvalue.symm.trans hhooks), ?_⟩⟩
  cases found with
  | false =>
      refine .inl fun hook hhook => ?_
      obtain ⟨command, hcommand, -⟩ := someHook_eq_false hsome hook hhook
      have hnot := hkeptOwned entry hentry hmatches
      rw [ownedEntry, hhooks] at hnot
      have := List.any_eq_false.mp hnot hook hhook
      rw [isOwned_of_command hcommand, Bool.not_eq_true] at this
      exact ⟨command, hcommand, this⟩
  | true =>
      obtain ⟨hooks', hhooks', -, hall⟩ := foreignEntry_eq_none.mp (hgone entry hentry hmatches)
      obtain rfl := Data.array.inj (Option.some.inj (hhooks'.symm.trans hhooks))
      exact .inr ⟨fun hook hhook => isOwned_eq_true.mp (hall hook hhook), someHook_eq_true hsome⟩

theorem removeEntries_confined {event : Units} {settings : Settings} {changed : Option Settings}
    (h : removeEntries matched event settings = .ok changed) {key : Units} (hkey : key ≠ event) :
    eventValue (changed.getD settings) key = eventValue settings key := by
  obtain ⟨value, -, ⟨-, rfl⟩ | ⟨entries, kept, -, -, -, rfl | rfl⟩⟩ := removeEntries_eq_ok h
  · rfl
  · rfl
  · exact eventValue_setEvent_of_ne settings hkey kept

/-- **An uninstall from lists of entries.** -/
theorem uninstall_entries_iff {matched owns : HookEvent → Units → Bool}
    (howns : ∀ event command, matched event command = true → owns event command = true)
    {events : List ManagedEvent} (hnodup : (events.map ManagedEvent.key).Nodup)
    (settings : Settings) :
    runEvents (fun e => removeEntries (matched e.event) e.key) events settings =
        .ok (withoutHooks owns events settings) ↔
      ∀ e ∈ events, ∃ value, eventValue settings e.key = .ok value ∧
        ListRemovable (EntryRemovable (matched e.event) (owns e.event)) value := by
  let Good (e : ManagedEvent) (view : Except HookError (Option Settings)) : Prop :=
    ∃ value, view = .ok value ∧
      ListRemovable (EntryRemovable (matched e.event) (owns e.event)) value
  have hapart : Lib.Apart ManagedEvent.key runView fun e (run : HookRun) =>
      (removeEntries (matched e.event) e.key run.settings).map run.next :=
    runEvents_apart fun e settings changed h key hkey => removeEntries_confined h hkey
  have hspec := prescribed_of (withoutEntries_confined owns)
    fun e settings => eventValue_withoutEntries e.key settings
  have hgood : ∀ e (run : HookRun), Good e (runView e.key run) →
      (removeEntries (matched e.event) e.key run.settings).map run.next =
        .ok (run.next (withoutEntries (owns e.event) e.key run.settings)) := by
    rintro e run ⟨value, hvalue, hremovable⟩
    rw [removeEntries_of_removable (howns e.event) hvalue hremovable]
    rfl
  have hbad : ∀ e (run run' : HookRun),
      (removeEntries (matched e.event) e.key run.settings).map run.next = .ok run' →
      runView e.key run' =
        runView e.key (run.next (withoutEntries (owns e.event) e.key run.settings)) →
      Good e (runView e.key run) := by
    intro e run run' hstep hview
    cases hremove : removeEntries (matched e.event) e.key run.settings with
    | error err =>
        rw [hremove] at hstep
        cases hstep
    | ok changed =>
        rw [hremove] at hstep
        obtain rfl := Except.ok.inj hstep
        exact removable_of_removeEntries hremove hview
  exact hapart.foldlM_eq_ok_iff hspec hgood hbad hnodup ⟨[], settings⟩

end Caveat.Install
