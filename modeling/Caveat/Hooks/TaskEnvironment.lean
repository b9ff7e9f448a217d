import Caveat.Hooks.DeliveryLaw

/-!
# Hits that apply to the task

An entry may say which operating system it applies to. What it says comes from its file as it is; a
value that is no known name is an error, and one error leaves a hook without any hits.
-/

namespace Caveat.Hooks

open Js
open Publish (isAlnumUnit)
open Lib (Re Place)

inductive TargetOs where
  | windows
  | macos
  | linux
deriving DecidableEq

/-- `toLowerCase` of a code unit that has an ASCII lower case: a capital letter, or the Kelvin sign. -/
def lowerUnit (u : UInt16) : UInt16 :=
  if unitOf 'A' ≤ u && u ≤ unitOf 'Z' then u + 32 else if u = 0x212a then unitOf 'k' else u

/-- Only ASCII names are compared with, so that other lower cases do not matter. -/
def normalizeTargetOs (value : Units) : Option TargetOs :=
  let lower := value.map lowerUnit
  if lower = units "win32" || lower = units "windows" then some .windows
  else if lower = units "darwin" || lower = units "macos" then some .macos
  else if lower = units "linux" then some .linux
  else none

/-! ## What a task names -/

/-- A character of a pattern with the flags `iu`: the long s and the Kelvin sign fold to letters. -/
def foldUnit (u : UInt16) : UInt16 :=
  if u = 0x17f then unitOf 's' else lowerUnit u

/-- `\w` with the flags `iu`. -/
def isFoldedWordUnit (u : UInt16) : Bool := isAlnumUnit (foldUnit u) || u = unitOf '_'

/-- A name, in any case. -/
def nameRe : List Char → Re UInt16
  | [] => .rep (.one fun _ => false) 0 (some 0)
  | c :: cs => .seq (.one fun u => foldUnit u = unitOf c) (nameRe cs)

/-- `/\b(?:a|b|…)\b/iu`. -/
def namesRe (names : List String) : Re UInt16 :=
  .seq (.boundary isFoldedWordUnit)
    (.seq (names.foldr (fun name re => .alt (nameRe name.toList) re) (.one fun _ => false))
      (.boundary isFoldedWordUnit))

/-- `RegExp.prototype.test`. -/
def testRe (re : Re UInt16) (s : Units) : Bool := (re.matchAll s) ≠ []

def taskTargets (taskText : Units) : List TargetOs :=
  (if testRe (namesRe ["windows", "win32"]) taskText then [.windows] else []) ++
  (if testRe (namesRe ["mac", "macos", "darwin"]) taskText then [.macos] else []) ++
  (if testRe (namesRe ["linux", "ubuntu", "wsl"]) taskText then [.linux] else [])

/-! ## What an entry asks for -/

/-- Whether a value counts as true. -/
def truthy : Json → Bool
  | .null => false
  | .bool b => b
  | .number n => n ≠ .nan && n ≠ .finite 0
  | .string s => s ≠ []
  | .array _ => true
  | .object _ => true

inductive EnvironmentError where
  /-- `toLowerCase` is not a function. -/
  | notText
  /-- `invalid applies_to_os: ${requiredRaw}`. -/
  | invalid (requiredRaw : Units)

def requiredOs : Json → Except EnvironmentError TargetOs
  | .string s =>
      match normalizeTargetOs s with
      | some os => .ok os
      | none => .error (.invalid s)
  | _ => .error .notText

/-- The targets of the task, or the platform where it names none. -/
def targetsOr (taskText hostPlatform : Units) : List TargetOs :=
  if taskTargets taskText = [] then (normalizeTargetOs hostPlatform).toList else taskTargets taskText

def environmentAppliesToTask (environment : Json) (taskText hostPlatform : Units) :
    Except EnvironmentError Bool :=
  match environment.member? "applies_to_os".toList with
  | none => .ok true
  | some requiredRaw =>
      if truthy requiredRaw then
        (requiredOs requiredRaw).map (fun required => (targetsOr taskText hostPlatform).contains required)
      else .ok true

/-! ## The search of a hook -/

inductive HookSearchSurface where
  | userPrompt
  | toolError
  | stop
deriving DecidableEq

structure HookSearchInput where
  topicText : Units
  failureText : Units
  surface : HookSearchSurface

/-- What the task says: the texts of all inputs. -/
def taskTextOf (inputs : List HookSearchInput) : Units :=
  joinUnits (inputs.map (fun i => i.topicText ++ unitOf '\n' :: i.failureText))

/-- `found.filter(…)`, which throws with its predicate. -/
def filterHits (p : SearchResult → Except EnvironmentError Bool) :
    List SearchResult → Except EnvironmentError (List SearchResult)
  | [] => .ok []
  | h :: hits => do
      let keep ← p h
      let rest ← filterHits p hits
      return if keep then h :: rest else rest

/-- The hits of `searchCaveatsSafely`, of those that the index has for the inputs. -/
def searchCaveatsSafely (found : List SearchResult) (inputs : List HookSearchInput)
    (hostPlatform : Units) : List SearchResult :=
  if inputs.all (fun i => i.topicText = [] && i.failureText = []) then []
  else
    match filterHits (fun h => environmentAppliesToTask h.environment (taskTextOf inputs) hostPlatform)
      found with
    | .ok hits => hits
    | .error _ => []

/-! ## Malformed entries -/

/-- What an entry asks for is neither left open nor a known name. -/
def Malformed (h : SearchResult) : Prop :=
  ∃ requiredRaw, h.environment.member? "applies_to_os".toList = some requiredRaw ∧
    truthy requiredRaw = true ∧ ∀ s, requiredRaw = .string s → normalizeTargetOs s = none

/-- An entry that is shown for a task. -/
def Applies (taskText hostPlatform : Units) (h : SearchResult) : Prop :=
  environmentAppliesToTask h.environment taskText hostPlatform = .ok true

/-- The hits but those with a reference. -/
def without (ref : Units × Units) (hits : List SearchResult) : List SearchResult :=
  hits.filter (fun h => h.pair ≠ ref)

theorem applies_error_iff (h : SearchResult) (taskText hostPlatform : Units) :
    (∃ e, environmentAppliesToTask h.environment taskText hostPlatform = .error e) ↔
      Malformed h := by
  rw [environmentAppliesToTask, Malformed]
  cases h.environment.member? "applies_to_os".toList with
  | none => simp
  | some requiredRaw =>
      by_cases htruthy : truthy requiredRaw = true
      · have hmap : ∀ r : Except EnvironmentError TargetOs,
            (∃ e, r.map (fun required => (targetsOr taskText hostPlatform).contains required) =
              .error e) ↔ ∀ os, r ≠ .ok os := by
          intro r
          cases r with
          | ok os => simp [Except.map]
          | error e => simp [Except.map]
        simp only [htruthy, if_true, hmap, Option.some.injEq, exists_eq_left', true_and]
        cases requiredRaw with
        | string s =>
            cases hos : normalizeTargetOs s with
            | some os => simp [requiredOs, hos]
            | none => simp [requiredOs, hos]
        | _ => simp [requiredOs]
      · simp [htruthy]

/-- One hit that is malformed, and nothing is found. -/
theorem filterHits_error (p : SearchResult → Except EnvironmentError Bool)
    {hits : List SearchResult} (h : ∃ g ∈ hits, ∃ e, p g = .error e) :
    ∃ e, filterHits p hits = .error e := by
  induction hits with
  | nil => simp at h
  | cons g hits ih =>
      rw [filterHits]
      cases hg : p g with
      | error e => exact ⟨e, rfl⟩
      | ok keep =>
          have hrest : ∃ g ∈ hits, ∃ e, p g = .error e := by
            obtain ⟨g', hg', e, he⟩ := h
            rcases List.mem_cons.mp hg' with rfl | hg'
            · rw [hg] at he
              exact absurd he (by simp)
            · exact ⟨g', hg', e, he⟩
          obtain ⟨e, he⟩ := ih hrest
          rw [he]
          exact ⟨e, rfl⟩

theorem filterHits_ok {p : SearchResult → Except EnvironmentError Bool} {hits : List SearchResult}
    (h : ∀ g ∈ hits, ∃ keep, p g = .ok keep) :
    filterHits p hits = .ok (hits.filter (fun g => (p g).toOption.getD false)) := by
  induction hits with
  | nil => rfl
  | cons g hits ih =>
      obtain ⟨keep, hg⟩ := h g List.mem_cons_self
      rw [filterHits, hg, ih fun g' hg' => h g' (List.mem_cons_of_mem _ hg'), List.filter_cons, hg]
      cases keep with
      | true => rfl
      | false => rfl

/-- What a hook is given of the raw hits. -/
theorem searchCaveatsSafely_eq (found : List SearchResult) {inputs : List HookSearchInput}
    (hinputs : inputs.all (fun i => i.topicText = [] && i.failureText = []) = false)
    (hostPlatform : Units) :
    ((∃ h ∈ found, Malformed h) ∧ searchCaveatsSafely found inputs hostPlatform = []) ∨
      ((∀ h ∈ found, ¬ Malformed h) ∧ searchCaveatsSafely found inputs hostPlatform =
        found.filter (fun h => (environmentAppliesToTask h.environment (taskTextOf inputs)
          hostPlatform).toOption.getD false)) := by
  rw [searchCaveatsSafely, if_neg (by rw [hinputs]; simp)]
  by_cases hbad : ∃ h ∈ found, Malformed h
  · obtain ⟨h, hh, hmalformed⟩ := hbad
    have herror := (applies_error_iff h (taskTextOf inputs) hostPlatform).mpr hmalformed
    obtain ⟨e, he⟩ := filterHits_error
      (fun h => environmentAppliesToTask h.environment (taskTextOf inputs) hostPlatform)
      ⟨h, hh, herror⟩
    rw [he]
    exact .inl ⟨⟨h, hh, hmalformed⟩, rfl⟩
  · have hgood : ∀ h ∈ found, ¬ Malformed h := fun h hh hm => hbad ⟨h, hh, hm⟩
    refine .inr ⟨hgood, ?_⟩
    rw [filterHits_ok fun h hh => ?_]
    cases hresult : environmentAppliesToTask h.environment (taskTextOf inputs) hostPlatform with
    | ok keep => exact ⟨keep, rfl⟩
    | error e =>
        exact absurd ((applies_error_iff h (taskTextOf inputs) hostPlatform).mp ⟨e, hresult⟩)
          (hgood h hh)

theorem without_eq_nil {ref : Units × Units} {found : List SearchResult} {q : SearchResult → Bool} :
    (without ref found).filter q = [] ↔ ∀ h ∈ found, h.pair ≠ ref → q h = false := by
  rw [List.filter_eq_nil_iff]
  refine ⟨fun h g hg hne => ?_, fun h g hg => ?_⟩
  · simpa using h g (List.mem_filter.mpr ⟨hg, by simpa using hne⟩)
  · obtain ⟨hg, hne⟩ := List.mem_filter.mp hg
    simp [h g hg (by simpa using hne)]

/--
**Who hides the others.** Without an entry a hook is given the same other hits unless the entry is
malformed, no other one is, and some other one applies to the task.
-/
theorem others_unaffected_iff (found : List SearchResult) (inputs : List HookSearchInput)
    (hostPlatform : Units) (ref : Units × Units) :
    without ref (searchCaveatsSafely found inputs hostPlatform) =
        searchCaveatsSafely (without ref found) inputs hostPlatform ↔
      (∀ i ∈ inputs, i.topicText = [] ∧ i.failureText = []) ∨
        (∀ h ∈ found, h.pair = ref → ¬ Malformed h) ∨
        (∃ h ∈ found, h.pair ≠ ref ∧ Malformed h) ∨
        ∀ h ∈ found, h.pair ≠ ref → ¬ Applies (taskTextOf inputs) hostPlatform h := by
  by_cases hblank : inputs.all (fun i => i.topicText = [] && i.failureText = []) = true
  · have hnone : ∀ hits, searchCaveatsSafely hits inputs hostPlatform = [] := fun hits => by
      rw [searchCaveatsSafely, if_pos hblank]
    rw [hnone, hnone]
    exact ⟨fun _ => .inl (by simpa using hblank), fun _ => rfl⟩
  · have hinputs : inputs.all (fun i => i.topicText = [] && i.failureText = []) = false := by
      simpa using hblank
    have hopen : ¬ ∀ i ∈ inputs, i.topicText = [] ∧ i.failureText = [] := by simpa using hblank
    have hall := searchCaveatsSafely_eq found hinputs hostPlatform
    have hrest := searchCaveatsSafely_eq (without ref found) hinputs hostPlatform
    have hmem : ∀ h, h ∈ without ref found ↔ h ∈ found ∧ h.pair ≠ ref := fun h => by
      simp [without]
    rcases hall with ⟨⟨h, hh, hm⟩, hall⟩ | ⟨hgood, hall⟩
    · rcases hrest with ⟨⟨g, hg, hgm⟩, hrest⟩ | ⟨hgood, hrest⟩
      · -- another malformed entry: nothing is found either way
        obtain ⟨hg, hne⟩ := (hmem g).mp hg
        rw [hall, hrest]
        exact ⟨fun _ => .inr (.inr (.inl ⟨g, hg, hne, hgm⟩)), fun _ => rfl⟩
      · have hother : ∀ g ∈ found, g.pair ≠ ref → ¬ Malformed g :=
          fun g hg hne => hgood g ((hmem g).mpr ⟨hg, hne⟩)
        have href : h.pair = ref := by
          by_contra hne
          exact hother h hh hne hm
        rw [hall, hrest, show without ref [] = [] from rfl, eq_comm, without_eq_nil]
        refine ⟨fun hnone => .inr (.inr (.inr fun g hg hne => ?_)), fun hcond g hg hne => ?_⟩
        · have hfalse := hnone g hg hne
          intro happlies
          rw [happlies] at hfalse
          exact absurd hfalse (by simp [Except.toOption])
        · rcases hcond with hempty | hfine | ⟨g', hg', hne', hm'⟩ | hnone
          · exact absurd hempty hopen
          · exact absurd hm (hfine h hh href)
          · exact absurd hm' (hother g' hg' hne')
          · have happlies := hnone g hg hne
            rw [Applies] at happlies
            cases hresult : environmentAppliesToTask g.environment (taskTextOf inputs) hostPlatform with
            | error e => rfl
            | ok keep =>
                cases keep with
                | false => rfl
                | true => exact absurd hresult happlies
    · rcases hrest with ⟨⟨g, hg, hgm⟩, _⟩ | ⟨_, hrest⟩
      · exact absurd hgm (hgood g ((hmem g).mp hg).1)
      · rw [hall, hrest, without, without, List.filter_filter, List.filter_filter]
        refine ⟨fun _ => .inr (.inl fun g hg _ => hgood g hg), fun _ => ?_⟩
        exact List.filter_congr fun g _ => Bool.and_comm _ _

/-- A community entry that asks for a system without a known name. -/
def unknownSystem : SearchResult :=
  ⟨units "trap-b", units "community/alice", units "Trap B", [], units "confirmed", units "public",
    .object [(units "applies_to_os", .string (units "freebsd"))]⟩

/-- Such an entry hides an entry of one's own. -/
theorem unknown_system_hides :
    let found := [ownHit "trap-a" "Trap A", unknownSystem]
    let inputs := [⟨units "CUDA", units "CUDA", .userPrompt⟩]
    without unknownSystem.pair (searchCaveatsSafely found inputs (units "linux")) ≠
      searchCaveatsSafely (without unknownSystem.pair found) inputs (units "linux") := by
  intro found inputs heq
  have hpairs := congrArg (List.map SearchResult.pair) heq
  exact absurd hpairs (by decide +kernel)

end Caveat.Hooks
