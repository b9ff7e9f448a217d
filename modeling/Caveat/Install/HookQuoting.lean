import Caveat.Install.HookUpsert
import Caveat.Lib.Shell

/-!
# Hook commands as words

An agent hands the command of a hook to a shell. `quoteCommandPath` puts a path with white space or a
backslash between double quotes and leaves every other path as it is; nothing within a path is
escaped. So a path arrives as one word, the path itself, only if it holds no symbol that the shell
treats on its own, between the quotes or without them.
-/

namespace Caveat.Install

open Js Lib
open Publish (isSpaceUnit)
open Hooks (units)

/-! ## What symbols mean to a shell -/

def shellKinds : List (Char × ShellKind) :=
  [(' ', .blank), ('\t', .blank), ('\n', .newline), ('|', .operator), ('&', .operator), (';', .operator),
    ('<', .operator), ('>', .operator), ('(', .operator), (')', .operator), ('\'', .single),
    ('"', .double), ('\\', .back), ('$', .expand), ('`', .expand), ('#', .hash)]

def unitKind (u : UInt16) : ShellKind :=
  ((shellKinds.find? fun e => unitOf e.1 = u).map Prod.snd).getD .plain

/-- A unit of a kind is one of those listed. -/
theorem mem_of_unitKind {u : UInt16} {k : ShellKind} (h : unitKind u = k) (hk : k ≠ .plain) :
    ∃ c, (c, k) ∈ shellKinds ∧ unitOf c = u := by
  unfold unitKind at h
  cases hfind : shellKinds.find? fun e => unitOf e.1 = u with
  | none => rw [hfind] at h; exact absurd h.symm hk
  | some e =>
      rw [hfind] at h
      have hmem := List.mem_of_find?_eq_some hfind
      have hunit := List.find?_some hfind
      obtain ⟨c, k'⟩ := e
      obtain rfl : k' = k := h
      exact ⟨c, hmem, by simpa using hunit⟩

theorem unitKind_double {u : UInt16} : unitKind u = .double ↔ u = quoteMark := by
  constructor
  · intro h
    obtain ⟨c, hc, rfl⟩ := mem_of_unitKind h (by decide)
    have hall : ∀ e ∈ shellKinds, e.2 = .double → unitOf e.1 = quoteMark := by decide
    exact hall _ hc rfl
  · rintro rfl
    decide

/-- What `quoteCommandPath` looks for. -/
def needsQuotes (p : Units) : Bool := p.any fun u => isSpaceUnit u || u = unitOf '\\'

theorem quoteCommandPath_eq (p : Units) : quoteCommandPath p =
    if needsQuotes p then quoteMark :: (p ++ [quoteMark]) else p := rfl

/-- Where no quotes are put, none are called for. -/
theorem unquoted_of_not_needsQuotes {p : Units} (hp : needsQuotes p = false) (hmark : quoteMark ∉ p) :
    ∀ u ∈ p, Unquoted unitKind u := by
  intro u hu
  have hplain := List.any_eq_false.mp hp u hu
  rw [Bool.not_eq_true, Bool.or_eq_false_iff] at hplain
  have hspace : ∀ e ∈ shellKinds, e.2 = .blank ∨ e.2 = .newline → isSpaceUnit (unitOf e.1) = true := by
    decide
  have hback : ∀ e ∈ shellKinds, e.2 = .back → unitOf e.1 = unitOf '\\' := by decide
  refine ⟨fun h => ?_, fun h => ?_, fun h => ?_, fun h => hmark (unitKind_double.mp h ▸ hu)⟩
  · obtain ⟨c, hc, rfl⟩ := mem_of_unitKind h (by decide)
    rw [hspace _ hc (.inl rfl)] at hplain
    exact Bool.noConfusion hplain.1
  · obtain ⟨c, hc, rfl⟩ := mem_of_unitKind h (by decide)
    rw [hspace _ hc (.inr rfl)] at hplain
    exact Bool.noConfusion hplain.1
  · obtain ⟨c, hc, rfl⟩ := mem_of_unitKind h (by decide)
    rw [hback _ hc rfl] at hplain
    simp at hplain

/-- An absolute path does not look like a comment. -/
theorem head_of_isAbsolute {windows : Bool} {p : Units} (h : isAbsolute windows p = true) :
    p ≠ [] ∧ ∀ u ∈ p.head?, unitKind u ≠ .hash := by
  cases p with
  | nil => cases h
  | cons u p =>
      refine ⟨by simp, fun v hv hkind => ?_⟩
      obtain rfl := Option.some.inj hv
      obtain ⟨c, hc, rfl⟩ := mem_of_unitKind hkind (by decide)
      have hall : ∀ e ∈ shellKinds, e.2 = .hash → e.1 = '#' := by decide
      obtain rfl : c = '#' := hall _ hc rfl
      have hhash : isAbsolute windows (unitOf '#' :: p) = false := by
        cases windows with
        | false => rfl
        | true =>
            rcases p with _ | ⟨v, _ | ⟨w, p⟩⟩
            · rfl
            · rfl
            · rfl
      rw [hhash] at h
      cases h

/-! ## A path within a command -/

/-- A path that a shell takes for itself where it holds no double quote. -/
def StaysWord (p : Units) : Prop :=
  if needsQuotes p then staysInDouble unitKind false p = true else p.all (isBare unitKind) = true

instance (p : Units) : Decidable (StaysWord p) := inferInstanceAs
  (Decidable (if needsQuotes p then staysInDouble unitKind false p = true
    else p.all (isBare unitKind) = true))

/-- A path that both splitters take for itself. -/
def Survives (p : Units) : Prop := quoteMark ∉ p ∧ StaysWord p

instance (p : Units) : Decidable (Survives p) := inferInstanceAs (Decidable (_ ∧ _))

theorem shellWords_path_iff {windows : Bool} {p : Units} (hp : isAbsolute windows p = true)
    (hmark : quoteMark ∉ p) (rest : Units) (words : List Units) :
    shellWords unitKind .gap (quoteCommandPath p ++ (units " " ++ rest)) = some (p :: words) ↔
      StaysWord p ∧ shellWords unitKind .gap rest = some words := by
  have hspace : unitKind (unitOf ' ') = .blank := by decide
  rw [quoteCommandPath_eq, StaysWord]
  cases hneeds : needsQuotes p with
  | true =>
      rw [if_pos rfl, if_pos rfl]
      have hdouble : ∀ c ∈ p, unitKind c ≠ .double := fun c hc hk => hmark (unitKind_double.mp hk ▸ hc)
      have h := shellWords_quoted_iff (unitKind_double.mpr rfl) hspace hdouble rest words
      rw [List.cons_append, List.append_assoc]
      exact h
  | false =>
      rw [if_neg Bool.false_ne_true, if_neg Bool.false_ne_true]
      obtain ⟨hne, hhash⟩ := head_of_isAbsolute hp
      exact shellWords_bare_iff hspace hne hhash (unquoted_of_not_needsQuotes hneeds hmark) rest words

/-! ### Tokens -/

theorem tokensFrom_quoted (rest : Units) : ∀ (p read : Units), quoteMark ∉ p →
    tokensFrom (.quoted read) (p ++ quoteMark :: rest) = (tokensFrom .gap rest).map ((read ++ p) :: ·) := by
  intro p
  induction p with
  | nil => intro read _; rw [List.nil_append, tokensFrom, if_pos rfl, List.append_nil]
  | cons u p ih =>
      intro read hp
      have hu : u ≠ quoteMark := fun he => hp (he ▸ List.mem_cons_self)
      rw [List.cons_append, tokensFrom, if_neg hu, ih _ fun hm => hp (List.mem_cons_of_mem u hm),
        List.append_assoc, List.singleton_append]

theorem tokensFrom_word (rest : Units) : ∀ (p read : Units),
    (∀ u ∈ p, isSpaceUnit u = false ∧ u ≠ quoteMark) →
      tokensFrom (.word read) (p ++ unitOf ' ' :: rest) = (tokensFrom .gap rest).map ((read ++ p) :: ·) := by
  intro p
  induction p with
  | nil => intro read _; rw [List.nil_append, tokensFrom, if_pos (by decide), List.append_nil]
  | cons u p ih =>
      intro read hp
      obtain ⟨hspace, hmark⟩ := hp u List.mem_cons_self
      rw [List.cons_append, tokensFrom, if_neg (by simp [hspace]), if_neg hmark,
        ih _ fun v hv => hp v (List.mem_cons_of_mem u hv), List.append_assoc, List.singleton_append]

/-- Without a double quote a path is one token. -/
theorem tokensFrom_path {p : Units} (hne : p ≠ []) (hmark : quoteMark ∉ p) (rest : Units) :
    tokensFrom .gap (quoteCommandPath p ++ (units " " ++ rest)) = (tokensFrom .gap rest).map (p :: ·) := by
  rw [quoteCommandPath_eq]
  cases hneeds : needsQuotes p with
  | true =>
      rw [if_pos rfl, List.cons_append, List.append_assoc, tokensFrom, if_neg (by decide), if_pos rfl,
        List.singleton_append, tokensFrom_quoted _ _ _ hmark]
      show (tokensFrom .gap (unitOf ' ' :: rest)).map (p :: ·) = _
      rw [tokensFrom, if_pos (by decide)]
  | false =>
      rw [if_neg Bool.false_ne_true]
      have hplain : ∀ u ∈ p, isSpaceUnit u = false ∧ u ≠ quoteMark := by
        intro u hu
        have hspace := List.any_eq_false.mp hneeds u hu
        rw [Bool.not_eq_true, Bool.or_eq_false_iff] at hspace
        exact ⟨hspace.1, fun he => hmark (he ▸ hu)⟩
      cases p with
      | nil => exact absurd rfl hne
      | cons u p =>
          obtain ⟨hspace, hu⟩ := hplain u List.mem_cons_self
          rw [List.cons_append, tokensFrom, if_neg (by simp [hspace]), if_neg hu]
          exact tokensFrom_word _ _ _ fun v hv => hplain v (List.mem_cons_of_mem u hv)

/-- What a state has read of a token. -/
def TokenState.read : TokenState → Units
  | .gap => []
  | .word read | .quoted read => read

/-- No token holds a double quote. -/
theorem mark_not_mem_tokens : ∀ (s : Units) (state : TokenState) (tokens : List Units),
    quoteMark ∉ state.read → tokensFrom state s = some tokens → ∀ token ∈ tokens, quoteMark ∉ token := by
  intro s
  induction s with
  | nil =>
      intro state tokens hread h token htoken
      cases state with
      | gap => cases h; cases htoken
      | word read => cases h; rw [List.mem_singleton.mp htoken]; exact hread
      | quoted read => cases h
  | cons u s ih =>
      intro state tokens hread h token htoken
      have hgap : ∀ {read : Units}, quoteMark ∉ read →
          (tokensFrom .gap s).map (read :: ·) = some tokens → quoteMark ∉ token := by
        intro read hread h
        obtain ⟨rest, hrest, rfl⟩ := Option.map_eq_some_iff.mp h
        rcases List.mem_cons.mp htoken with rfl | htoken
        · exact hread
        · exact ih .gap rest List.not_mem_nil hrest token htoken
      have hnext : ∀ {read : Units}, quoteMark ∉ read → u ≠ quoteMark → quoteMark ∉ read ++ [u] := by
        intro read hread hu hmem
        rcases List.mem_append.mp hmem with hmem | hmem
        · exact hread hmem
        · exact hu (List.mem_singleton.mp hmem).symm
      cases state with
      | gap =>
          rw [tokensFrom] at h
          split at h
          · exact ih .gap tokens List.not_mem_nil h token htoken
          · split at h
            · exact ih (.quoted []) tokens List.not_mem_nil h token htoken
            · rename_i hu
              exact ih (.word [u]) tokens (hnext List.not_mem_nil hu) h token htoken
      | word read =>
          rw [tokensFrom] at h
          split at h
          · exact hgap hread h
          · split at h
            · obtain ⟨rest, hrest, rfl⟩ := Option.map_eq_some_iff.mp h
              rcases List.mem_cons.mp htoken with rfl | htoken
              · exact hread
              · exact ih (.quoted []) rest List.not_mem_nil hrest token htoken
            · rename_i hu
              exact ih (.word (read ++ [u])) tokens (hnext hread hu) h token htoken
      | quoted read =>
          rw [tokensFrom] at h
          split at h
          · exact hgap hread h
          · rename_i hu
            exact ih (.quoted (read ++ [u])) tokens (hnext hread hu) h token htoken

/-! ## Whole commands -/

/-- Both splitters find these words. -/
def SplitsInto (command : Units) (words : List Units) : Prop :=
  shellWords unitKind .gap command = some words ∧ commandTokens command = some words

instance (command : Units) (words : List Units) : Decidable (SplitsInto command words) :=
  inferInstanceAs (Decidable (_ ∧ _))

/-- The command behind the call operator of PowerShell. -/
def behindCall (windows : Bool) (command : Units) : Units :=
  command.drop (powershellCallPrefix windows).length

theorem pathCommand_words_iff {windows : Bool} {paths : HookPaths} {verb : Units} {event : HookEvent}
    (hnode : isAbsolute windows paths.nodePath = true)
    (hcli : isAbsolute windows paths.cliScriptPath = true)
    (hverb : SplitsInto (verb ++ (units " " ++ event.name)) [verb, event.name]) :
    SplitsInto (pathCommand verb paths event)
        [paths.nodePath, paths.cliScriptPath, verb, event.name] ↔
      Survives paths.nodePath ∧ Survives paths.cliScriptPath := by
  have hnodeNe := (head_of_isAbsolute hnode).1
  have hcliNe := (head_of_isAbsolute hcli).1
  constructor
  · rintro ⟨hwords, htokens⟩
    have hmarks := mark_not_mem_tokens _ .gap _ List.not_mem_nil htokens
    have hnodeMark := hmarks paths.nodePath (by simp)
    have hcliMark := hmarks paths.cliScriptPath (by simp)
    obtain ⟨hnodeStays, hwords⟩ := (shellWords_path_iff hnode hnodeMark _ _).mp hwords
    exact ⟨⟨hnodeMark, hnodeStays⟩, hcliMark, ((shellWords_path_iff hcli hcliMark _ _).mp hwords).1⟩
  · rintro ⟨⟨hnodeMark, hnodeStays⟩, hcliMark, hcliStays⟩
    refine ⟨?_, ?_⟩
    · refine (shellWords_path_iff hnode hnodeMark _ _).mpr ⟨hnodeStays, ?_⟩
      exact (shellWords_path_iff hcli hcliMark _ _).mpr ⟨hcliStays, hverb.1⟩
    · have htokens : tokensFrom .gap (verb ++ (units " " ++ event.name)) = some [verb, event.name] :=
        hverb.2
      rw [commandTokens, pathCommand, tokensFrom_path hnodeNe hnodeMark, tokensFrom_path hcliNe hcliMark,
        htokens]
      rfl

theorem behindCall_hookCommand (windows : Bool) (paths : HookPaths) (event : HookEvent) :
    behindCall windows (Codex.hookCommand windows paths event) =
      pathCommand (units "codex-hook") paths event :=
  List.drop_left

/--
The command of a hook, of Claude and of Codex, is split by a POSIX shell and by `commandTokens` into
exactly the two paths, the verb and the event if and only if each path holds no double quote and,
where it is put between quotes, stays what it is there, and elsewhere has no symbol of the shell.
-/
theorem hook_command_words_iff {windows : Bool} {paths : HookPaths}
    (hnode : isAbsolute windows paths.nodePath = true)
    (hcli : isAbsolute windows paths.cliScriptPath = true) (event : HookEvent) :
    (SplitsInto (Claude.hookCommand paths event)
        [paths.nodePath, paths.cliScriptPath, units "hook", event.name] ↔
      Survives paths.nodePath ∧ Survives paths.cliScriptPath) ∧
    (SplitsInto (behindCall windows (Codex.hookCommand windows paths event))
        [paths.nodePath, paths.cliScriptPath, units "codex-hook", event.name] ↔
      Survives paths.nodePath ∧ Survives paths.cliScriptPath) := by
  have hclaude : SplitsInto (units "hook" ++ (units " " ++ event.name)) [units "hook", event.name] := by
    cases event with
    | userPromptSubmit => decide
    | postToolUse => decide
    | stop => decide
  have hcodex : SplitsInto (units "codex-hook" ++ (units " " ++ event.name))
      [units "codex-hook", event.name] := by
    cases event with
    | userPromptSubmit => decide
    | postToolUse => decide
    | stop => decide
  rw [behindCall_hookCommand]
  exact ⟨pathCommand_words_iff hnode hcli hclaude, pathCommand_words_iff hnode hcli hcodex⟩

def programFiles : HookPaths :=
  ⟨units "C:\\Program Files\\node.exe", units "C:/caveat/cli.js"⟩

theorem hook_command_words_programFiles :
    SplitsInto (Claude.hookCommand programFiles .stop)
      [programFiles.nodePath, programFiles.cliScriptPath, units "hook", units "stop"] :=
  (hook_command_words_iff (show isAbsolute true programFiles.nodePath = true by decide)
    (show isAbsolute true programFiles.cliScriptPath = true by decide) .stop).1.mpr (by decide)

/-- A path with an ampersand. -/
def ampersandPaths : HookPaths := ⟨units "/usr/bin/node", units "/opt/r&d/cli.js"⟩

/-- The shell runs the beginning of the command in the background, and the rest of it as another one. -/
theorem ampersand_splits_command :
    ¬ ∀ (windows : Bool) (paths : HookPaths) (event : HookEvent),
      isAbsolute windows paths.nodePath = true → isAbsolute windows paths.cliScriptPath = true →
        SplitsInto (Claude.hookCommand paths event)
          [paths.nodePath, paths.cliScriptPath, units "hook", event.name] := by
  intro h
  have hsplit := h false ampersandPaths .stop (by decide) (by decide)
  exact absurd hsplit.1 (by decide)

end Caveat.Install
