import Caveat.Install.HookConverge

/-!
# Installers that converge

Codex and Cursor look at a hook in the same way: one that is Caveat's is left or renewed, all others
are passed over. So an installation leaves one hook for each event, and the next one leaves it so, if
no event has two of them and a scan reaches the first one.
-/

namespace Caveat.Install

open Js
open Lib (Scan Hit Upsertable Upserting upsertList)
open Cursor (listFor)
open Hooks (units)

/-- No event has two hooks of Caveat's, and all hooks before the first one can be read. -/
def Tidy (owns : Units → Bool) (readable : Settings → Bool) (hooks : List Settings) : Prop :=
  (hooks.filter (isOwned owns)).length ≤ 1 ∧
    ∀ hook ∈ hooks.takeWhile (fun hook => !isOwned owns hook), readable hook = true

instance (owns : Units → Bool) (readable : Settings → Bool) (hooks : List Settings) :
    Decidable (Tidy owns readable hooks) :=
  inferInstanceAs (Decidable (_ ∧ _))

theorem isPrimitive_iff {value : Option Settings} {expected : Settings}
    (h : isPrimitive (some expected) expected = true) :
    isPrimitive value expected = true ↔ value = some expected := by
  constructor
  · intro hvalue
    unfold isPrimitive at hvalue
    split at hvalue
    · rfl
    · simp_all
    · simp_all
    · cases hvalue
  · intro hvalue
    rw [hvalue, h]

/-- Only an object has a command. -/
theorem object_of_command {hook : Settings} {actual : Units} (h : commandOf hook = some actual) :
    ∃ members, hook = .object members := by
  cases hook with
  | object members => exact ⟨members, rfl⟩
  | null => cases h
  | string s => cases h
  | scalar s => cases h
  | array items => cases h

theorem isOwned_of_command_none {owns : Units → Bool} {hook : Settings} (h : commandOf hook = none) :
    isOwned owns hook = false := by
  rw [isOwned, h]
  rfl

/-! ## How a hook is looked at -/

/-- A hook whose command is the one to be installed is left if it is complete; this one, and any other
one of Caveat's, is renewed else. A hook without a command is passed over where it can be read. -/
structure LooksAt (scan : Settings → Except HookError (Scan Settings)) (readable : Settings → Bool)
    (same owns : Units → Bool) (complete : Settings → Bool) (renew : Settings → Settings) : Prop where
  unnamed : ∀ hook, commandOf hook = none →
    scan hook = if readable hook then .ok .absent else .error .typeError
  readable : ∀ hook actual, commandOf hook = some actual → readable hook = true
  named : ∀ hook actual, commandOf hook = some actual →
    scan hook = if same actual && complete hook then .ok .settled
      else if owns actual then .ok (.renewed (renew hook)) else .ok .absent
  owns : ∀ actual, same actual = true → owns actual = true
  renews : ∀ hook actual, commandOf hook = some actual →
    ∃ command, commandOf (renew hook) = some command ∧ same command = true ∧ complete (renew hook) = true

namespace LooksAt

variable {scan : Settings → Except HookError (Scan Settings)} {readable : Settings → Bool}
  {same owns : Units → Bool} {complete : Settings → Bool} {renew : Settings → Settings}
  {accepted : Settings → Prop} {hook b : Settings} {actual : Units}
  (h : LooksAt scan readable same owns complete renew)
include h

theorem settled (hactual : commandOf hook = some actual) (hsame : same actual = true)
    (hcomplete : complete hook = true) : scan hook = .ok .settled := by
  rw [h.named hook actual hactual, hsame, hcomplete]
  rfl

/-- What is hit is a hook of Caveat's, and afterwards the command to be installed, with all its fields. -/
theorem hit (hhit : Hit scan hook b) : isOwned owns hook = true ∧
    ∃ command, commandOf b = some command ∧ same command = true ∧ complete b = true := by
  cases hactual : commandOf hook with
  | none =>
      have hscan := h.unnamed hook hactual
      rcases hhit with ⟨hhit, _⟩ | hhit
      · rw [hhit] at hscan
        split at hscan
        · cases hscan
        · cases hscan
      · rw [hhit] at hscan
        split at hscan
        · cases hscan
        · cases hscan
  | some actual =>
      have hscan := h.named hook actual hactual
      rw [isOwned_of_command hactual]
      rcases hhit with ⟨hhit, rfl⟩ | hhit
      · rw [hhit] at hscan
        split at hscan
        · rename_i hsettled
          rw [Bool.and_eq_true] at hsettled
          exact ⟨h.owns actual hsettled.1, actual, hactual, hsettled⟩
        · split at hscan
          · cases hscan
          · cases hscan
      · rw [hhit] at hscan
        split at hscan
        · cases hscan
        · split at hscan
          · rename_i howns
            obtain rfl := Scan.renewed.inj (Except.ok.inj hscan)
            exact ⟨howns, h.renews hook actual hactual⟩
          · cases hscan

/-- What is passed over. -/
theorem absent_iff : scan hook = .ok .absent ↔ readable hook = true ∧ isOwned owns hook = false := by
  cases hactual : commandOf hook with
  | none =>
      rw [h.unnamed hook hactual, isOwned_of_command_none hactual]
      cases readable hook with
      | true => simp
      | false => simp
  | some actual =>
      rw [h.named hook actual hactual, h.readable hook actual hactual, isOwned_of_command hactual]
      cases howns : owns actual with
      | true =>
          split
          · simp
          · simp
      | false =>
          have hsame : same actual = false := by
            rw [← Bool.not_eq_true]
            intro hsame
            rw [h.owns actual hsame] at howns
            cases howns
          simp [hsame]

theorem hit_of_owned (howned : isOwned owns hook = true) : ∃ b, Hit scan hook b := by
  obtain ⟨actual, hactual, howns⟩ := isOwned_eq_true.mp howned
  have hscan := h.named hook actual hactual
  split at hscan
  · exact ⟨hook, .inl ⟨hscan, rfl⟩⟩
  · exact ⟨renew hook, .inr hscan⟩

/-- Nothing is to be done where a hook is left. -/
theorem upsertList_none_iff {fresh : Settings} {hooks : List Settings}
    (hupsertable : Upsertable scan (isOwned owns) accepted hooks) :
    upsertList scan fresh hooks = .ok none ↔ ∃ hook ∈ hooks, scan hook = .ok .settled := by
  rcases hupsertable with hall | ⟨pre, a, b, post, rfl, hpre, howned, hhit, _, hpost⟩
  · rw [Lib.upsertList_absent fun hook hhook => (hall hook hhook).1]
    constructor
    · intro hnone
      cases hnone
    · intro hsettled
      obtain ⟨hook, hhook, hscan⟩ := hsettled
      rw [(hall hook hhook).1] at hscan
      cases hscan
  · have hscan : ∀ p ∈ pre, scan p = .ok .absent := fun p hp => (hpre p hp).1
    constructor
    · intro hnone
      rcases hhit with ⟨hsettled, _⟩ | hrenewed
      · exact ⟨a, by simp, hsettled⟩
      · rw [upsertList, Lib.scanList_renewed hscan hrenewed] at hnone
        cases hnone
    · intro hsettled
      obtain ⟨hook, hhook, hsettled⟩ := hsettled
      have hmine := (h.hit (.inl ⟨hsettled, rfl⟩)).1
      rcases List.mem_append.mp hhook with hhook | hhook
      · rw [(hpre hook hhook).2] at hmine
        cases hmine
      · rcases List.mem_cons.mp hhook with rfl | hhook
        · exact Lib.upsertList_settled hscan hsettled
        · rw [hpost hook hhook] at hmine
          cases hmine

variable (haccepted : ∀ hook actual, commandOf hook = some actual → same actual = true →
  complete hook = true → accepted hook)
include haccepted

theorem upserting {fresh : Settings} (hfresh : commandOf fresh = some actual) (hsame : same actual = true)
    (hcomplete : complete fresh = true) : Upserting scan (isOwned owns) accepted fresh where
  fresh_owned := (isOwned_of_command hfresh).trans (h.owns actual hsame)
  fresh_accepted := haccepted fresh actual hfresh hsame hcomplete
  fresh_settled := h.settled hfresh hsame hcomplete
  hit_owned a b hhit _ := by
    obtain ⟨_, command, hcommand, hsame, _⟩ := h.hit hhit
    exact (isOwned_of_command hcommand).trans (h.owns command hsame)
  hit_settled a b hhit _ := by
    obtain ⟨_, command, hcommand, hsame, hcomplete⟩ := h.hit hhit
    exact h.settled hcommand hsame hcomplete
  same_owned a hhit := (h.hit hhit).1

/-- **A list can be put right if it is tidy.** -/
theorem upsertable_iff (hooks : List Settings) :
    Upsertable scan (isOwned owns) accepted hooks ↔ Tidy owns readable hooks := by
  refine Lib.upsertable_iff (fun hook => h.absent_iff) (fun hook howned => ?_) hooks
  obtain ⟨b, hhit⟩ := h.hit_of_owned howned
  obtain ⟨_, command, hcommand, hsame, hcomplete⟩ := h.hit hhit
  exact ⟨b, hhit, haccepted b command hcommand hsame hcomplete⟩

end LooksAt

/-- Assets that are where they are expected. -/
def samePath : AssetFiles := ⟨units "/usr/bin/node", fun _ path expected => path = expected⟩

def optPaths : HookPaths := ⟨units "/usr/bin/node", units "/opt/caveat/cli.js"⟩

/-! ## Codex -/

namespace Codex

variable (windows : Bool) (files : AssetFiles) (paths : HookPaths)

def installer : Installer where
  events := managedEvents
  lists := entryLists
  owns := owns windows paths
  accepts event hook := isCanonicalCaveatCodexHookEntry windows files paths event hook = true
  added := []
  install := installHooks windows paths

/-- The hooks that are installed are accepted by the diagnosis. -/
def InstallsCanonical : Prop :=
  ∀ event, isCanonicalCaveatCodexHookEntry windows files paths event
    (freshHook (hookCommand windows paths event)) = true

theorem prop_renewHook (command : Units) (members : List (Units × Settings)) (key : Units) :
    (renewHook command (.object members)).prop key =
      if key = statusMessageKey then some .null
      else if key = asyncKey then some notAsync
      else if key = timeoutSecKey then none
      else if key = timeoutKey then some timeout
      else if key = typeKey then some commandType
      else if key = commandKey then some (.string command)
      else own members key := by
  show own (define (define (List.filter _ (define (define (define members _) _) _)) _) _) key = _
  simp only [own_define, own_erase]

theorem commandOf_renewHook {hook : Settings} {actual : Units} (h : commandOf hook = some actual)
    (command : Units) : commandOf (renewHook command hook) = some command := by
  obtain ⟨members, rfl⟩ := object_of_command h
  rw [commandOf, prop_renewHook]
  rfl

theorem isComplete_renewHook {hook : Settings} {actual : Units} (h : commandOf hook = some actual)
    (command : Units) : isComplete (renewHook command hook) = true := by
  obtain ⟨members, rfl⟩ := object_of_command h
  simp only [isComplete, prop_renewHook]
  rfl

variable {windows files paths}

/-- What the diagnosis asks of a hook: fields as they are installed, and words that it accepts. -/
theorem canonical_iff {event : HookEvent} {hook : Settings} {actual : Units}
    (h : commandOf hook = some actual) :
    isCanonicalCaveatCodexHookEntry windows files paths event hook = true ↔
      (normalizedTokens actual).any (canonicalTokens windows files paths (units "codex-hook") event) = true ∧
        isComplete hook = true := by
  rw [isCanonicalCaveatCodexHookEntry, h]
  exact Bool.and_eq_true _ _ ▸ Iff.rfl

/-- The words of what is installed are accepted. -/
theorem InstallsCanonical.words (h : InstallsCanonical windows files paths) (event : HookEvent) :
    (normalizedTokens (hookCommand windows paths event)).any
      (canonicalTokens windows files paths (units "codex-hook") event) = true :=
  ((canonical_iff rfl).mp (h event)).1

/-- The words of what is installed are the same ones. -/
theorem InstallsCanonical.isSame (h : InstallsCanonical windows files paths) (event : HookEvent) :
    isSameHookCommand (hookCommand windows paths event) (hookCommand windows paths event) = true := by
  have hwords := h.words event
  rw [isSameHookCommand, sameTokens]
  cases htokens : normalizedTokens (hookCommand windows paths event) with
  | none =>
      rw [htokens] at hwords
      cases hwords
  | some tokens => simp

theorem InstallsCanonical.looksAt (h : InstallsCanonical windows files paths) (event : HookEvent) :
    LooksAt (scanHook (hookCommand windows paths event) event) (fun hook => (commandOf hook).isSome)
      (fun actual => isSameHookCommand actual (hookCommand windows paths event))
      (owns windows paths event) isComplete (renewHook (hookCommand windows paths event)) where
  unnamed hook hnone := by
    rw [scanHook, hnone]
    rfl
  readable hook actual hactual := by
    rw [hactual]
    rfl
  named hook actual hactual := by
    rw [scanHook, hactual]
    rfl
  owns actual hsame := by
    rw [owns, hsame]
    rfl
  renews hook actual hactual :=
    ⟨_, commandOf_renewHook hactual _, h.isSame event, isComplete_renewHook hactual _⟩

/-- A complete hook with the words of what is installed is accepted. -/
theorem InstallsCanonical.accepts (h : InstallsCanonical windows files paths) (event : HookEvent)
    (hook : Settings) (actual : Units) (hactual : commandOf hook = some actual)
    (hsame : isSameHookCommand actual (hookCommand windows paths event) = true)
    (hcomplete : isComplete hook = true) :
    isCanonicalCaveatCodexHookEntry windows files paths event hook = true := by
  rw [isSameHookCommand, sameTokens, Bool.and_eq_true, decide_eq_true_eq] at hsame
  refine (canonical_iff hactual).mpr ⟨?_, hcomplete⟩
  rw [hsame.2]
  exact h.words event

theorem InstallsCanonical.upserting (h : InstallsCanonical windows files paths) :
    (installer windows files paths).Upserting
      (fun e => upsertHook (hookCommand windows paths e.event) e.event e.key)
      (fun e => scanHook (hookCommand windows paths e.event) e.event)
      (fun e => freshHook (hookCommand windows paths e.event))
      (fun e => upsertList (scanEntry (scanHook (hookCommand windows paths e.event) e.event))
        (freshEntry (freshHook (hookCommand windows paths e.event)))) where
  nodup := show (managedEvents.map ManagedEvent.key).Nodup by decide
  separates := entryLists_separates
  acts e _ := actsOnList_upsertEvent _ e.key
  upserting e _ := (h.looksAt e.event).upserting (h.accepts e.event) rfl (h.isSame e.event) rfl
  hooks e _ := upsertsHooks_entries
    ((h.looksAt e.event).upserting (h.accepts e.event) rfl (h.isSame e.event) rfl)

/--
Where the diagnosis accepts what is installed, an installation for Codex succeeds, leaves for each
event one hook of Caveat's, which is accepted, and all else as it was, and the next one changes nothing,
if and only if no event has two hooks of Caveat's and every hook before the first one has a command.
-/
theorem codex_hooks_converge_iff (h : InstallsCanonical windows files paths) {settings : Settings}
    (hshaped : (installer windows files paths).WellShaped settings) :
    (installer windows files paths).Converges settings ↔
      ∀ e ∈ managedEvents, Tidy (owns windows paths e.event) (fun hook => (commandOf hook).isSome)
        ((listFor settings e.key).flatMap hooksOf) := by
  rw [h.upserting.converges_iff (fun _ => rfl) hshaped]
  constructor
  · intro hready e he
    exact ((h.looksAt e.event).upsertable_iff (h.accepts e.event) _).mp (hready e he)
  · intro htidy e he
    exact ((h.looksAt e.event).upsertable_iff (h.accepts e.event) _).mpr (htidy e he)

/-- A hook of somebody else's, and one of Caveat's from another place. -/
def earlierSettings : Settings :=
  .object [(hooksKey, .object [(units "Stop", .array [.object [(hooksKey, .array [
    .object [(commandKey, .string (units "say done"))],
    .object [(commandKey, .string (units "node /old/caveat/cli.js codex-hook stop"))]])]])])]

theorem codex_hooks_converge_earlier :
    (installer false samePath optPaths).Converges earlierSettings := by
  have hcanonical : InstallsCanonical false samePath optPaths := by
    intro event
    cases event with
    | userPromptSubmit => decide
    | postToolUse => decide
    | stop => decide
  have hshaped : (installer false samePath optPaths).WellShaped earlierSettings := by
    refine ⟨by decide, fun e he => ?_⟩
    have hcases : e = ⟨units "UserPromptSubmit", .userPromptSubmit⟩ ∨
        e = ⟨units "PostToolUse", .postToolUse⟩ ∨ e = ⟨units "Stop", .stop⟩ := by
      rw [← List.mem_pair, ← List.mem_cons]
      exact he
    rcases hcases with rfl | rfl | rfl
    · exact ⟨trivial, fun entry hentry => absurd hentry List.not_mem_nil⟩
    · exact ⟨trivial, fun entry hentry => absurd hentry List.not_mem_nil⟩
    · refine ⟨trivial, fun entry hentry => ?_⟩
      obtain rfl := List.mem_singleton.mp hentry
      exact ⟨by simp, fun value hvalue => .inr ⟨_, (Option.some.inj hvalue).symm⟩⟩
  exact (codex_hooks_converge_iff hcanonical hshaped).mpr (by decide)

end Codex

/-! ## Cursor -/

/-- Settings with the same lists. -/
structure SameLists (settings other : Settings) : Prop where
  shaped : Shaped other = true
  events : ∀ key, eventProp other key = eventProp settings key

theorem SameLists.refl {settings : Settings} (h : Shaped settings = true) : SameLists settings settings :=
  ⟨h, fun _ => rfl⟩

theorem SameLists.trans {a b c : Settings} (h : SameLists a b) (h' : SameLists b c) : SameLists a c :=
  ⟨h'.shaped, fun key => (h'.events key).trans (h.events key)⟩

theorem SameLists.listFor {settings other : Settings} (h : SameLists settings other) (key : Units) :
    listFor other key = listFor settings key :=
  listFor_congr (h.events key)

theorem shaped_object (members : List (Units × Settings)) : Shaped (.object members) =
    match (Data.object members : Settings).prop hooksKey with
    | none | some .null | some (.object _) => true
    | _ => false := rfl

theorem prop_setProp_shaped {settings : Settings} (h : Shaped settings = true) (key : Units) (v : Settings) :
    (settings.setProp key v).prop key = some v := by
  obtain ⟨members, _, rfl, _⟩ := Shaped.hooks h
  show own (define members (key, v)) key = _
  rw [own_define, if_pos rfl]

/-- A property other than the hooks does not matter. -/
theorem sameLists_setProp {settings : Settings} (h : Shaped settings = true) {key : Units}
    (hkey : hooksKey ≠ key) (v : Settings) : SameLists settings (settings.setProp key v) := by
  have hprop : (settings.setProp key v).prop hooksKey = settings.prop hooksKey :=
    Data.prop_setProp_of_ne settings v hkey
  refine ⟨?_, fun event => ?_⟩
  · cases settings with
    | object members =>
        rw [shaped_object] at h
        show Shaped (.object (define members (key, v))) = true
        rw [shaped_object]
        rw [← hprop] at h
        exact h
    | null => cases h
    | string s => cases h
    | scalar s => cases h
    | array items => cases h
  · rw [eventProp, eventProp, hprop]

namespace Installer

variable {i : Installer} {settings other : Settings}

theorem WellShaped.congr (h : i.WellShaped settings) (hsame : SameLists settings other) :
    i.WellShaped other := by
  refine ⟨hsame.shaped, fun e he => ?_⟩
  rw [hsame.events, hsame.listFor]
  exact h.2 e he

theorem LeavesEvent.congr {after after' : Settings} {e : ManagedEvent} (h : i.LeavesEvent settings after e)
    (hbefore : SameLists settings other) (hafter : SameLists after after') :
    i.LeavesEvent other after' e := by
  rw [LeavesEvent, hooksAt, hafter.listFor, hbefore.listFor]
  exact h

end Installer

namespace Cursor

variable (windows : Bool) (files : AssetFiles) (paths : HookPaths)

def installer : Installer where
  events := managedEvents
  lists := flatLists
  owns := owns paths
  accepts event hook := isCanonicalCaveatCursorHookEntry windows files paths event hook = true
  added := [versionKey]
  install := installHooks paths

/-- The hooks that are installed are accepted by the diagnosis. -/
def InstallsCanonical : Prop :=
  ∀ event, isCanonicalCaveatCursorHookEntry windows files paths event
    (freshHook (hookCommand paths event)) = true

theorem prop_renewHook (command : Units) (members : List (Units × Settings)) (key : Units) :
    (renewHook command (.object members)).prop key =
      if key = timeoutKey then some timeout
      else if key = commandKey then some (.string command)
      else own members key := by
  show own (define (define members _) _) key = _
  simp only [own_define]

def isComplete (hook : Settings) : Bool := isPrimitive (hook.prop timeoutKey) timeout

/-- What a scan can ask for a command. -/
def isReadable : Settings → Bool
  | .null => false
  | _ => true

variable {windows files paths}

theorem canonical_iff {event : HookEvent} {hook : Settings} {actual : Units}
    (h : commandOf hook = some actual) :
    isCanonicalCaveatCursorHookEntry windows files paths event hook = true ↔
      (commandTokens actual).any (canonicalTokens windows files paths (units "cursor-hook") event) = true ∧
        isComplete hook = true := by
  rw [isCanonicalCaveatCursorHookEntry, h]
  exact Bool.and_eq_true _ _ ▸ Iff.rfl

theorem InstallsCanonical.words (h : InstallsCanonical windows files paths) (event : HookEvent) :
    (commandTokens (hookCommand paths event)).any
      (canonicalTokens windows files paths (units "cursor-hook") event) = true :=
  ((canonical_iff rfl).mp (h event)).1

theorem InstallsCanonical.isSame (h : InstallsCanonical windows files paths) (event : HookEvent) :
    isSameCommand (hookCommand paths event) (hookCommand paths event) = true := by
  have hwords := h.words event
  rw [isSameCommand, sameTokens]
  cases htokens : commandTokens (hookCommand paths event) with
  | none =>
      rw [htokens] at hwords
      cases hwords
  | some tokens => simp

theorem InstallsCanonical.looksAt (h : InstallsCanonical windows files paths) (event : HookEvent) :
    LooksAt (scanHook (hookCommand paths event) event) isReadable
      (fun actual => isSameCommand actual (hookCommand paths event)) (owns paths event) isComplete
      (renewHook (hookCommand paths event)) where
  unnamed hook hnone := by
    cases hook with
    | null => rfl
    | string s => rfl
    | scalar s => rfl
    | array items => rfl
    | object members =>
        rw [scanHook, hnone]
        · rfl
        · simp
  readable hook actual hactual := by
    obtain ⟨members, rfl⟩ := object_of_command hactual
    rfl
  named hook actual hactual := by
    obtain ⟨members, rfl⟩ := object_of_command hactual
    rw [scanHook, hactual]
    · rfl
    · simp
  owns actual hsame := by
    rw [owns, hsame]
    rfl
  renews hook actual hactual := by
    obtain ⟨members, rfl⟩ := object_of_command hactual
    refine ⟨hookCommand paths event, ?_, h.isSame event, ?_⟩
    · rw [commandOf, prop_renewHook]
      rfl
    · rw [isComplete, prop_renewHook]
      rfl

theorem InstallsCanonical.accepts (h : InstallsCanonical windows files paths) (event : HookEvent)
    (hook : Settings) (actual : Units) (hactual : commandOf hook = some actual)
    (hsame : isSameCommand actual (hookCommand paths event) = true)
    (hcomplete : isComplete hook = true) :
    isCanonicalCaveatCursorHookEntry windows files paths event hook = true := by
  rw [isSameCommand, sameTokens, Bool.and_eq_true, decide_eq_true_eq] at hsame
  refine (canonical_iff hactual).mpr ⟨?_, hcomplete⟩
  rw [hsame.2]
  exact h.words event

theorem InstallsCanonical.upserting (h : InstallsCanonical windows files paths) :
    (installer windows files paths).Upserting
      (fun e => upsertHook (hookCommand paths e.event) e.event e.key)
      (fun e => scanHook (hookCommand paths e.event) e.event)
      (fun e => freshHook (hookCommand paths e.event))
      (fun e => upsertList (scanHook (hookCommand paths e.event) e.event)
        (freshHook (hookCommand paths e.event))) where
  nodup := show (managedEvents.map ManagedEvent.key).Nodup by decide
  separates := flatLists_separates
  acts e _ _ _ _ := rfl
  upserting e _ := (h.looksAt e.event).upserting (h.accepts e.event) rfl (h.isSame e.event) rfl
  hooks e _ := upsertsHooks_flat
    ((h.looksAt e.event).upserting (h.accepts e.event) rfl (h.isSame e.event) rfl)

/-- The file as it is read: the hooks are there. -/
theorem readHooks_ok {file : Settings} (h : Shaped file = true) : ∃ read, readHooks file = .ok read ∧
    SameLists file read ∧ SameLists read file ∧
      ∀ key, key ≠ hooksKey → read.prop key = file.prop key := by
  have hadded : ∀ members, file = .object members → eventProp file = (fun _ => none) →
      SameLists file (file.setProp hooksKey (.object [])) ∧
        SameLists (file.setProp hooksKey (.object [])) file ∧
          ∀ key, key ≠ hooksKey → (file.setProp hooksKey (.object [])).prop key = file.prop key := by
    intro members hfile hnone
    subst hfile
    have hprop := prop_setProp_shaped h hooksKey (.object [])
    have hevents : ∀ key, eventProp ((Data.object members : Settings).setProp hooksKey (.object [])) key =
        none := by
      intro key
      rw [eventProp, hprop]
      rfl
    refine ⟨⟨?_, fun key => ?_⟩, ⟨h, fun key => ?_⟩, fun key hkey => Data.prop_setProp_of_ne _ _ hkey⟩
    · show Shaped (.object (define members (hooksKey, .object []))) = true
      rw [shaped_object]
      show (match ((Data.object members : Settings).setProp hooksKey (.object [])).prop hooksKey with
        | none | some .null | some (.object _) => true
        | _ => false) = true
      rw [hprop]
    · rw [hevents, hnone]
    · rw [hevents, hnone]
  obtain ⟨members, events, rfl, hhooks, hevents⟩ := Shaped.hooks h
  rw [Shaped] at h
  cases hprop : (Data.object members : Settings).prop hooksKey with
  | none =>
      refine ⟨_, by rw [readHooks, hprop], hadded members rfl ?_⟩
      funext key
      rw [eventProp, hprop]
      rfl
  | some hooks =>
      rw [hprop] at h
      cases hooks with
      | null =>
          refine ⟨_, by rw [readHooks, hprop], hadded members rfl ?_⟩
          funext key
          rw [eventProp, hprop]
          rfl
      | object hooks =>
          have hsame : SameLists (.object members) (.object members) := .refl (by rw [Shaped, hprop])
          exact ⟨_, by rw [readHooks, hprop], hsame, hsame, fun _ _ => rfl⟩
      | string s => cases h
      | scalar s => cases h
      | array items => cases h

/-- The version is the one that is written. -/
def VersionFits (file : Settings) : Prop :=
  file.prop versionKey = none ∨ file.prop versionKey = some versionOne

/-- For each event there is a hook that is left. -/
def Settled (paths : HookPaths) (file : Settings) : Prop :=
  ∀ e ∈ managedEvents, ∃ hook ∈ listFor file e.key,
    scanHook (hookCommand paths e.event) e.event hook = .ok .settled

theorem installHooks_eq {file read : Settings} (hread : readHooks file = .ok read) :
    installHooks paths file =
      (runEvents (fun e => upsertHook (hookCommand paths e.event) e.event e.key) managedEvents read).map
        (persist file) := by
  rw [installHooks, hread]

/-- What is written has the lists of the run, and so has what is not written. -/
theorem persist_sameLists {file read : Settings} {run : HookRun} (hread : SameLists read file)
    (hshaped : Shaped run.settings = true)
    (hsame : run.hooks.any id = false → run.settings = read) :
    SameLists run.settings (persist file run).settings := by
  rw [persist]
  split
  · exact sameLists_setProp hshaped (by decide) versionOne
  · rename_i hunchanged
    rw [hsame (by rwa [Bool.not_eq_true] at hunchanged)]
    exact hread

variable {file : Settings}

/-- A run over lists that need nothing writes nothing. -/
theorem InstallsCanonical.installs_nothing (h : InstallsCanonical windows files paths)
    (hshaped : (installer windows files paths).WellShaped file)
    (hup : ∀ e ∈ managedEvents, upsertList (scanHook (hookCommand paths e.event) e.event)
      (freshHook (hookCommand paths e.event)) (listFor file e.key) = .ok none) :
    ∃ run, installHooks paths file = .ok run ∧ run.settings = file := by
  obtain ⟨read, hread, hsame, _⟩ := readHooks_ok hshaped.1
  obtain ⟨run, hrun, _, hnone⟩ := h.upserting.runEvents_settled (hshaped.congr hsame)
    (fun e he => by rw [hsame.listFor]; exact hup e he)
  have hrun' : runEvents (fun e => upsertHook (hookCommand paths e.event) e.event e.key) managedEvents
      read = .ok run := hrun
  refine ⟨persist file run, ?_, ?_⟩
  · rw [installHooks_eq hread, hrun']
    rfl
  · rw [persist, hnone]
    rfl

theorem InstallsCanonical.ready_iff (h : InstallsCanonical windows files paths) :
    (installer windows files paths).Ready (fun e => scanHook (hookCommand paths e.event) e.event) file ↔
      ∀ e ∈ managedEvents, Tidy (owns paths e.event) isReadable (listFor file e.key) := by
  constructor
  · intro hready e he
    exact ((h.looksAt e.event).upsertable_iff (h.accepts e.event) _).mp (hready e he)
  · intro htidy e he
    exact ((h.looksAt e.event).upsertable_iff (h.accepts e.event) _).mpr (htidy e he)

/-- What an installation that converges needs. -/
theorem InstallsCanonical.of_converges (h : InstallsCanonical windows files paths)
    (hshaped : (installer windows files paths).WellShaped file)
    (hconverges : (installer windows files paths).Converges file) :
    (∀ e ∈ managedEvents, Tidy (owns paths e.event) isReadable (listFor file e.key)) ∧
      (VersionFits file ∨ Settled paths file) := by
  obtain ⟨run, hrun, hleaves, _⟩ := hconverges
  obtain ⟨read, hread, hsame, hback, hothers⟩ := readHooks_ok hshaped.1
  have hwell := hshaped.congr hsame
  have hinstall : installHooks paths file = .ok run := hrun
  rw [installHooks_eq hread] at hinstall
  cases hrun₀ : runEvents (fun e => upsertHook (hookCommand paths e.event) e.event e.key) managedEvents
      read with
  | error e =>
      rw [hrun₀] at hinstall
      cases hinstall
  | ok run₀ =>
      rw [hrun₀] at hinstall
      obtain rfl := Except.ok.inj hinstall
      obtain ⟨c, hc, hran⟩ := ran_of_runEvents h.upserting.acts h.upserting.nodup hwell.1
        (fun e he => (hwell.2 e he).1) hrun₀
      have hlists := persist_sameLists hback hran.shaped fun hunchanged => hran.same (hran.nothing hunchanged)
      have hlists' : SameLists (persist file run₀).settings run₀.settings :=
        ⟨hran.shaped, fun key => (hlists.events key).symm⟩
      have hready := h.upserting.ready hwell hrun₀ fun e he =>
        (hleaves.event e he).congr hsame hlists'
      refine ⟨fun e he => ?_, ?_⟩
      · rw [← hsame.listFor]
        exact h.ready_iff.mp hready e he
      · cases hchanged : run₀.hooks.any id with
        | true =>
            have hwritten : (persist file run₀).settings.prop versionKey = some versionOne := by
              rw [persist, hchanged]
              exact prop_setProp_shaped hran.shaped versionKey versionOne
            rcases hleaves.settings versionKey (by decide) with hkept | ⟨_, hnone⟩
            · exact .inl (.inr (hkept.symm.trans hwritten))
            · exact .inl (.inl hnone)
        | false =>
            refine .inr fun e he => ?_
            have hce := hc e he
            rw [hran.nothing hchanged e he] at hce
            rw [← hsame.listFor]
            exact ((h.looksAt e.event).upsertList_none_iff (hready e he)).mp hce

/--
Where the diagnosis accepts what is installed, an installation for Cursor succeeds, leaves for each
event one hook of Caveat's, which is accepted, and all else as it was, except for a version that is
missing, and the next one changes nothing, if and only if no event has two hooks of Caveat's, no `null`
stands before the first one, and the file has no other version, or there is nothing to be done.
-/
theorem cursor_hooks_converge_iff (h : InstallsCanonical windows files paths)
    (hshaped : (installer windows files paths).WellShaped file) :
    (installer windows files paths).Converges file ↔
      (∀ e ∈ managedEvents, Tidy (owns paths e.event) isReadable (listFor file e.key)) ∧
        (VersionFits file ∨ Settled paths file) := by
  constructor
  · exact h.of_converges hshaped
  · intro hfile
    obtain ⟨htidy, hversion⟩ := hfile
    obtain ⟨read, hread, hsame, hback, hothers⟩ := readHooks_ok hshaped.1
    have hwell := hshaped.congr hsame
    have hready := h.ready_iff.mpr fun e he => by rw [hsame.listFor]; exact htidy e he
    obtain ⟨run, c, hrun, hran, hevent, hsome, hwell', hup⟩ := h.upserting.runEvents hwell hready
    have hlists := persist_sameLists hback hran.shaped fun hunchanged => hran.same (hran.nothing hunchanged)
    have hrun' : runEvents (fun e => upsertHook (hookCommand paths e.event) e.event e.key) managedEvents
        read = .ok run := hrun
    obtain ⟨again, hagain, hkept⟩ := h.installs_nothing (hwell'.congr hlists)
      (fun e he => by rw [hlists.listFor]; exact hup e he)
    refine ⟨persist file run, ?_, ⟨?_, ?_, ?_⟩, again, hagain, hkept⟩
    · show installHooks paths file = _
      rw [installHooks_eq hread, hrun']
      rfl
    · exact fun e he => (hevent e he).congr hback hlists
    · intro key hkey
      rw [hlists.events, hran.others key hkey, hsame.events]
    · intro key hkey
      cases hchanged : run.hooks.any id with
      | false =>
          rw [persist, hchanged]
          exact .inl rfl
      | true =>
          rw [persist, hchanged]
          show (run.settings.setProp versionKey versionOne).prop key = _ ∨ _
          by_cases hv : key = versionKey
          · subst hv
            rw [prop_setProp_shaped hran.shaped]
            rcases hversion with (hnone | hone) | hsettled
            · exact .inr ⟨List.mem_singleton_self _, hnone⟩
            · exact .inl hone.symm
            · -- nothing would have been done
              rw [hran.changed] at hchanged
              rcases hchanged with hchanged | ⟨e, he, hchanged⟩
              · cases hchanged
              · rw [hsome e he] at hchanged
                refine absurd (((h.looksAt e.event).upsertList_none_iff (hready e he)).mpr ?_) hchanged
                obtain ⟨hook, hhook, hscan⟩ := hsettled e he
                refine ⟨hook, ?_, hscan⟩
                show hook ∈ listFor read e.key
                rw [hsame.listFor]
                exact hhook
          · rw [Data.prop_setProp_of_ne _ _ hv]
            exact .inl ((hran.settings key hkey).trans (hothers key hkey))

/-- A file without a version, with a hook of somebody else's and one of Caveat's from another place. -/
def earlierFile : Settings :=
  .object [(hooksKey, .object [(units "stop", .array [
    .object [(commandKey, .string (units "say done"))],
    .object [(commandKey, .string (units "node /old/caveat/cli.js cursor-hook stop"))]])])]

theorem cursor_hooks_converge_earlier :
    (installer false samePath optPaths).Converges earlierFile := by
  have hcanonical : InstallsCanonical false samePath optPaths := by
    intro event
    cases event with
    | userPromptSubmit => decide
    | postToolUse => decide
    | stop => decide
  have hshaped : (installer false samePath optPaths).WellShaped earlierFile := by
    refine ⟨by decide, fun e he => ⟨?_, trivial⟩⟩
    have hcases : e = ⟨units "beforeSubmitPrompt", .userPromptSubmit⟩ ∨
        e = ⟨units "postToolUse", .postToolUse⟩ ∨ e = ⟨units "postToolUseFailure", .postToolUse⟩ ∨
          e = ⟨units "stop", .stop⟩ := by
      rw [← List.mem_pair, ← List.mem_cons, ← List.mem_cons]
      exact he
    rcases hcases with rfl | rfl | rfl | rfl
    · trivial
    · trivial
    · trivial
    · trivial
  exact (cursor_hooks_converge_iff hcanonical hshaped).mpr ⟨by decide, .inl (.inl rfl)⟩

end Cursor

end Caveat.Install
