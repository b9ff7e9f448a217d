import Caveat.Hooks.HitLines
import Caveat.Lib.Loop
import Caveat.Managed.ShellWrappers

/-!
# What the shell wrappers start

Each wrapper is read back from what was rendered, one interpreter after the other. The script for a
POSIX shell is read as it was meant. So is the batch file, unless the caller's own line holds an operator.
PowerShell knows more marks than `psQuote` doubles.
-/

namespace Caveat.Managed.ShellWrappers

open Js Lib
open Hooks (units after after_append)
open Install (isAbsolute unitKind mem_of_unitKind shellKinds)

/-! ## Rendering -/

theorem literal_ok {value : Units} {windows : Bool} (h : literal value windows = .ok ()) :
    value.any isLineUnit = false ∧ isAbsolute windows value = true ∧
      (windows = true → value.any isWindowsSpecial = false) := by
  unfold literal at h
  split at h
  · cases h
  · rename_i hpath
    simp only [Bool.or_eq_true, decide_eq_true_eq, Bool.not_eq_true', not_or, Bool.not_eq_true,
      Bool.not_eq_false] at hpath
    split at h
    · cases h
    · rename_i hspecial
      refine ⟨hpath.1.2, hpath.2, fun hwindows => ?_⟩
      simpa [hwindows] using hspecial

/-- A check that is made under a condition only. -/
theorem of_checked {ε β : Type} {c : Prop} [Decidable c] {x : Except ε Unit} {k : Unit → Except ε β} {b : β}
    (h : (if c then x >>= k else k ()) = .ok b) : (c → x = .ok ()) ∧ k () = .ok b := by
  split at h
  · obtain ⟨_, hx, hk⟩ := bind_eq_ok.mp h
    exact ⟨fun _ => hx, hk⟩
  · rename_i hc
    exact ⟨fun hc' => absurd hc' hc, h⟩

/-- What was rendered has passed its checks. -/
theorem render_ok {sha : Sha256} {node entry : Units} {windows : Bool} {files : List WrapperFile}
    (h : renderManagedShellWrappers sha node entry windows = .ok files) :
    (node ≠ units "node" → literal node windows = .ok ()) ∧ literal entry windows = .ok () ∧
      (windows = true → node.any isOutsideAscii = false) ∧
      files.map (fun f => (f.name, f.content)) =
        (.caveat, caveatContent node entry windows) ::
          if windows then [(.caveatCmd, cmdContent node entry), (.caveatPs1, ps1Content node entry)]
          else [] := by
  unfold renderManagedShellWrappers at h
  obtain ⟨hnode, h⟩ := of_checked h
  obtain ⟨_, hentry, h⟩ := bind_eq_ok.mp h
  refine ⟨hnode, hentry, ?_⟩
  cases windows with
  | false =>
      cases h
      exact ⟨fun hw => Bool.noConfusion hw, rfl⟩
  | true =>
      rw [if_pos rfl] at h
      obtain ⟨hascii, h⟩ := of_checked h
      cases h
      refine ⟨fun _ => ?_, rfl⟩
      cases hany : node.any isOutsideAscii with
      | false => rfl
      | true => cases hascii hany

/-! ## Reading on -/

/-- A property of the units of a text, as a test that runs over them. -/
theorem forall_of_all {P : UInt16 → Prop} [DecidablePred P] {s : Units} (h : (s.all fun u => P u) = true) :
    ∀ u ∈ s, P u := fun u hu => of_decide_eq_true (List.all_eq_true.mp h u hu)

theorem after_eq_none {u v : UInt16} (huv : u ≠ v) (part s : Units) : after (u :: part) (v :: s) = none := by
  rw [after, if_neg]
  simp [List.isPrefixOf, huv]

/-- A check that is there or not is passed over, if what follows it starts otherwise. -/
theorem getD_after {p : Prop} [Decidable p] {part rest : Units} (h : after part rest = none) :
    (after part ((if p then part else []) ++ rest)).getD ((if p then part else []) ++ rest) = rest := by
  split
  · rw [after_append, Option.getD_some]
  · rw [List.nil_append, h, Option.getD_none]

theorem before_append (s part : Units) : before part (s ++ part) = some s := by
  rw [before, List.reverse_append, after_append, Option.map_some, List.reverse_reverse]

/-! ## The POSIX shell -/

theorem unitKind_single {u : UInt16} : unitKind u = .single ↔ u = unitOf '\'' := by
  constructor
  · intro h
    obtain ⟨c, hc, rfl⟩ := mem_of_unitKind h (by decide)
    have hall : ∀ e ∈ shellKinds, e.2 = .single → unitOf e.1 = unitOf '\'' := by decide
    exact hall _ hc rfl
  · rintro rfl
    decide

theorem runCaveat_caveatContent (node entry : Units) (windows : Bool) (args : List Units) :
    runCaveat (caveatContent node entry windows) args =
      some (slashes windows node, slashes windows entry :: args) := by
  have hback : unitKind (unitOf '\\') = .back := by decide
  have hspace : unitKind (unitOf ' ') = .blank := by decide
  have hwords : shellWords unitKind .gap
      (quote (slashes windows node) ++ unitOf ' ' :: quote (slashes windows entry)) =
        some [slashes windows node, slashes windows entry] := by
    rw [quote, quote, shellWords_singleQuote (fun _ => unitKind_single) hback hspace,
      shellWords_singleQuote_nil (fun _ => unitKind_single) hback]
    rfl
  have hguard : ∀ rest, after checkNode (units "exec " ++ rest) = none :=
    fun rest => after_eq_none (by decide) _ _
  rw [runCaveat, caveatContent, after_append]
  simp only [Option.bind_eq_bind, Option.bind_some]
  rw [getD_after (hguard _), after_append, Option.bind_some, before_append, Option.bind_some, hwords]
  rfl

/-! ## The batch file -/

/-- What the command interpreter reads as it is, within quotation marks. -/
def IsQuotable (u : UInt16) : Prop := isLineUnit u = false ∧ u ≠ unitOf '"' ∧ u ≠ unitOf '%'

instance (u : UInt16) : Decidable (IsQuotable u) := inferInstanceAs (Decidable (_ ∧ _ ∧ _))

/-- So does the whole of the program. -/
theorem bootstrap_quotable (entry : Units) : ∀ u ∈ bootstrap entry, IsQuotable u ∧ u ≠ unitOf '\\' := by
  have hhead : (bootstrapHead.all fun u => IsQuotable u ∧ u ≠ unitOf '\\') = true := by decide +kernel
  have htail : (bootstrapTail.all fun u => IsQuotable u ∧ u ≠ unitOf '\\') = true := by decide +kernel
  have hchars : ∀ ch ∈ Base64.encode (toUtf8 entry), IsQuotable (unitOf ch) ∧ unitOf ch ≠ unitOf '\\' := by
    refine Base64.of_mem_encode (fun n hn => ?_) (by decide) _
    have hall : ∀ i : Fin 64, IsQuotable (unitOf (Base64.charOf i)) ∧
        unitOf (Base64.charOf i) ≠ unitOf '\\' := by decide
    exact hall ⟨n, hn⟩
  intro u hu
  rw [bootstrap, List.mem_append, List.mem_append, List.mem_map] at hu
  rcases hu with hu | ⟨ch, hch, rfl⟩ | hu
  · exact of_decide_eq_true (List.all_eq_true.mp hhead u hu)
  · exact hchars ch hch
  · exact of_decide_eq_true (List.all_eq_true.mp htail u hu)

theorem bootstrapEntry_bootstrap (entry : Units) :
    bootstrapEntry (bootstrap entry) = some (unitsOf (decodeUtf8 (toUtf8 entry))) := by
  have hmark : ∀ u ∈ (Base64.encode (toUtf8 entry)).map unitOf, u ≠ unitOf '\'' := by
    intro u hu
    obtain ⟨ch, hch, rfl⟩ := List.mem_map.mp hu
    refine Base64.of_mem_encode (P := fun ch => unitOf ch ≠ unitOf '\'') (fun n hn => ?_) (by decide) _ ch hch
    have hall : ∀ i : Fin 64, unitOf (Base64.charOf i) ≠ unitOf '\'' := by decide
    exact hall ⟨n, hn⟩
  have hstop : bootstrapTail.takeWhile (· ≠ unitOf '\'') = [] := rfl
  have hdrop : bootstrapTail.dropWhile (· ≠ unitOf '\'') = bootstrapTail := rfl
  have hchars : ((Base64.encode (toUtf8 entry)).map unitOf).map (fun u => Char.ofNat u.toNat) =
      Base64.encode (toUtf8 entry) := by
    rw [List.map_map]
    refine (List.map_congr_left fun ch hch => ?_).trans (List.map_id _)
    have hascii := Base64.encode_isAscii _ ch hch
    have hunit : (unitOf ch).toNat = ch.toNat := by
      rw [unitOf, UInt16.toNat_ofNat']
      omega
    rw [Function.comp_apply, hunit, Char.ofNat_toNat]
    rfl
  rw [bootstrapEntry, bootstrap, after_append]
  simp only [Option.bind_eq_bind, Option.bind_some]
  rw [List.dropWhile_append_of_pos (by simpa using hmark), hdrop, if_pos rfl,
    List.takeWhile_append_of_pos (by simpa using hmark), hstop, List.append_nil, hchars,
    Base64.decode_encode]

theorem expandPercent_append (tail : Units) : ∀ s : Units, unitOf '%' ∉ s →
    expandPercent tail (s ++ units "%*") = some (s ++ tail) := by
  intro s
  induction s with
  | nil =>
      intro _
      have hstart : units "%*" = [unitOf '%', unitOf '*'] := rfl
      rw [List.nil_append, hstart, expandPercent, if_pos rfl, if_pos rfl]
      simp [expandPercent]
  | cons u s ih =>
      intro h
      rw [List.mem_cons, not_or] at h
      have hcons : ∃ v t, s ++ units "%*" = v :: t := by
        cases s with
        | nil => exact ⟨_, _, rfl⟩
        | cons v t => exact ⟨_, _, rfl⟩
      obtain ⟨v, t, hvt⟩ := hcons
      rw [List.cons_append, hvt, expandPercent, if_neg (Ne.symm h.1), ← hvt, ih h.2]
      rfl

theorem isOneCommand_quoted (rest : Units) : ∀ s : Units, (∀ u ∈ s, IsQuotable u) →
    isOneCommand true (s ++ unitOf '"' :: rest) = isOneCommand false rest := by
  intro s
  induction s with
  | nil =>
      intro _
      rw [List.nil_append, isOneCommand, if_neg (by decide), if_pos rfl]
      rfl
  | cons u s ih =>
      intro hs
      obtain ⟨hline, hmark, _⟩ := hs u List.mem_cons_self
      rw [List.cons_append, isOneCommand, if_neg (by simp [hline]), if_neg hmark,
        ih fun v hv => hs v (List.mem_cons_of_mem u hv)]
      rfl

theorem isOneCommand_plain (rest : Units) : ∀ s : Units,
    (∀ u ∈ s, IsQuotable u ∧ Publish.oneOf "&|<>^" u = false) →
      isOneCommand false (s ++ rest) = isOneCommand false rest := by
  intro s
  induction s with
  | nil => intro _; rfl
  | cons u s ih =>
      intro hs
      obtain ⟨⟨hline, hmark, _⟩, hplain⟩ := hs u List.mem_cons_self
      rw [List.cons_append, isOneCommand, if_neg (by simp [hline]), if_neg hmark,
        ih fun v hv => hs v (List.mem_cons_of_mem u hv), hplain]
      rfl

/-- The name of a program ends with its mark. -/
theorem programOf_quoted {name : Units} (h : unitOf '"' ∉ name) (rest : Units) :
    programOf (unitOf '"' :: (name ++ unitOf '"' :: rest)) = some (name, rest) := by
  have hname : ∀ u ∈ name, (decide (u ≠ unitOf '"')) = true := by
    intro u hu
    have hne : u ≠ unitOf '"' := fun heq => h (heq ▸ hu)
    simpa using hne
  have hstop : (unitOf '"' :: rest).takeWhile (· ≠ unitOf '"') = [] := List.takeWhile_cons_of_neg (by simp)
  have hdrop : (unitOf '"' :: rest).dropWhile (· ≠ unitOf '"') = unitOf '"' :: rest :=
    List.dropWhile_cons_of_neg (by simp)
  rw [programOf, if_pos rfl, List.takeWhile_append_of_pos hname, List.dropWhile_append_of_pos hname,
    hstop, hdrop, List.append_nil]
  rfl

/-- The arguments of Node: the program, and behind it what the caller wrote. -/
theorem argumentsOf_call {code : Units} (hcode : ∀ u ∈ code, u ≠ unitOf '"' ∧ u ≠ unitOf '\\')
    (tail : Units) :
    argumentsOf (units " -e " ++ (unitOf '"' :: (code ++ unitOf '"' :: (units " -- " ++ tail)))) =
      units "-e" :: code :: units "--" :: argumentsOf tail := by
  have hspace : isBlank (unitOf ' ') = true := by decide
  have hquote : unitOf '"' :: (code ++ unitOf '"' :: (units " -- " ++ tail)) =
      quoteArgument (unitOf '"') (unitOf '\\') code ++ (units " -- " ++ tail) := by
    rw [quoteArgument_plain (fun h => (hcode _ h).1 rfl) (fun h => (hcode _ h).2 rfl)]
    simp only [List.cons_append, List.append_assoc, List.nil_append]
  have hflag : units " -e " = unitOf ' ' :: (units "-e" ++ [unitOf ' ']) := rfl
  have hseparator : units " -- " = unitOf ' ' :: (units "--" ++ [unitOf ' ']) := rfl
  have hskip : ∀ s, splitArguments (unitOf '"') (unitOf '\\') isBlank none (unitOf ' ' :: s) =
      splitArguments (unitOf '"') (unitOf '\\') isBlank none s := by
    intro s
    rw [splitArguments, if_pos hspace]
  rw [argumentsOf, argumentsOf, hquote, hflag, List.cons_append, List.append_assoc, hskip,
    List.singleton_append, splitArguments_word hspace _ (by decide) (forall_of_all (by decide)),
    splitArguments_quoteArgument (by decide) (by decide) (by decide), hseparator, List.cons_append,
    splitArguments, if_pos ⟨hspace, rfl⟩, List.append_assoc, List.singleton_append,
    splitArguments_word hspace _ (by decide) (forall_of_all (by decide))]
  simp [Argument.close]

/-- What a path may hold on Windows. -/
theorem quotable_of_literal {path : Units} (hline : path.any isLineUnit = false)
    (hspecial : path.any isWindowsSpecial = false) : ∀ u ∈ path, IsQuotable u := by
  intro u hu
  have hu' := List.any_eq_false.mp hspecial u hu
  refine ⟨by simpa using List.any_eq_false.mp hline u hu, ?_, ?_⟩
  · rintro rfl
    exact hu' (by decide)
  · rintro rfl
    exact hu' (by decide)

theorem isOneCommand_call {node code : Units} (hnode : ∀ u ∈ node, IsQuotable u)
    (hcode : ∀ u ∈ code, IsQuotable u) (tail : Units) :
    isOneCommand false (unitOf '"' :: (node ++ unitOf '"' :: (units " -e " ++
      (unitOf '"' :: (code ++ unitOf '"' :: (units " -- " ++ tail)))))) = isOneCommand false tail := by
  have hopen : ∀ s, isOneCommand false (unitOf '"' :: s) = isOneCommand true s := by
    intro s
    rw [isOneCommand, if_neg (by decide), if_pos rfl]
    rfl
  rw [hopen, isOneCommand_quoted _ _ hnode, isOneCommand_plain _ _ (forall_of_all (by decide)), hopen,
    isOneCommand_quoted _ _ hcode, isOneCommand_plain _ _ (forall_of_all (by decide))]

/-- What is called, with the caller's arguments in their place. -/
def callLine (node entry tail : Units) : Units :=
  unitOf '"' :: (node ++ unitOf '"' :: (units " -e " ++
    (unitOf '"' :: (bootstrap entry ++ unitOf '"' :: (units " -- " ++ tail)))))

theorem of_mem_callLine {P : UInt16 → Prop} (hmark : P (unitOf '"')) (hfirst : ∀ u ∈ units " -e ", P u)
    (hsecond : ∀ u ∈ units " -- ", P u) {node entry tail : Units} (hnode : ∀ u ∈ node, P u)
    (hentry : ∀ u ∈ bootstrap entry, P u) (htail : ∀ u ∈ tail, P u) :
    ∀ u ∈ callLine node entry tail, P u := by
  intro u hu
  simp only [callLine, List.mem_cons, List.mem_append] at hu
  rcases hu with rfl | hu | rfl | hu | rfl | hu | rfl | hu | hu
  · exact hmark
  · exact hnode u hu
  · exact hmark
  · exact hfirst u hu
  · exact hmark
  · exact hentry u hu
  · exact hmark
  · exact hsecond u hu
  · exact htail u hu

theorem runCmd_cmdContent {node : Units} (hnode : ∀ u ∈ node, IsQuotable u) (entry tail : Units) :
    runCmd (cmdContent node entry) tail =
      if isOneCommand false tail then
        some (node, unitsOf (decodeUtf8 (toUtf8 entry)) :: argumentsOf tail)
      else none := by
  have hboot : ∀ u ∈ bootstrap entry, IsQuotable u := fun u hu => (bootstrap_quotable entry u hu).1
  have hguard : ∀ rest, after cmdCheckNode (unitOf '"' :: rest) = none :=
    fun rest => after_eq_none (by decide) _ _
  have hfirst : units "\" -e \"" = unitOf '"' :: (units " -e " ++ [unitOf '"']) := rfl
  have hsecond : units "\" -- %*" = unitOf '"' :: (units " -- " ++ units "%*") := rfl
  have hline : unitOf '"' :: (node ++ (units "\" -e \"" ++ (bootstrap entry ++ (units "\" -- %*" ++
      units "\r\nexit /b %errorlevel%\r\n")))) =
        callLine node entry (units "%*") ++ units "\r\nexit /b %errorlevel%\r\n" := by
    rw [hfirst, hsecond, callLine]
    simp only [List.cons_append, List.append_assoc, List.nil_append]
  have hstop : (callLine node entry (units "%*") ++ units "\r\nexit /b %errorlevel%\r\n").takeWhile
      (· ≠ unitOf '\r') = callLine node entry (units "%*") := by
    rw [List.takeWhile_append_of_pos]
    · exact List.append_nil _
    · refine of_mem_callLine (by decide) (forall_of_all (by decide)) (forall_of_all (by decide)) ?_ ?_
        (forall_of_all (by decide))
      · intro u hu
        have hne : u ≠ unitOf '\r' := fun heq => absurd (heq ▸ (hnode u hu).1) (by decide)
        simpa using hne
      · intro u hu
        have hne : u ≠ unitOf '\r' := fun heq => absurd (heq ▸ (hboot u hu).1) (by decide)
        simpa using hne
  have hexpand : expandPercent tail (callLine node entry (units "%*")) =
      some (callLine node entry tail) := by
    have happend : ∀ t, callLine node entry t = callLine node entry [] ++ t := by
      intro t
      simp only [callLine, List.cons_append, List.append_assoc, List.append_nil]
    rw [happend, happend tail, expandPercent_append]
    intro hmem
    refine of_mem_callLine (P := fun u => u ≠ unitOf '%') (by decide) (forall_of_all (by decide))
      (forall_of_all (by decide)) (fun u hu => (hnode u hu).2.2) (fun u hu => (hboot u hu).2.2)
      (fun u hu => ?_) _ hmem rfl
    cases hu
  rw [runCmd, cmdContent, after_append]
  simp only [Option.bind_eq_bind, Option.bind_some]
  rw [getD_after (hguard _), hline, hstop, hexpand, Option.bind_some, callLine, isOneCommand_call hnode hboot]
  refine if_congr Iff.rfl ?_ rfl
  rw [programOf_quoted (fun h => (hnode _ h).2.1 rfl), Option.bind_some,
    argumentsOf_call fun u hu => ⟨(bootstrap_quotable entry u hu).1.2.1, (bootstrap_quotable entry u hu).2⟩,
    runBootstrap, if_pos ⟨rfl, rfl⟩, bootstrapEntry_bootstrap]
  rfl

/-! ## PowerShell -/

/-- The value that PowerShell passes on for a value. -/
def psDecode (value : Units) : Units :=
  if value.getLast? = some (unitOf '\n') then
    doubleLast (unitOf '\\') value.dropLast ++ [unitOf '\n']
  else value

/-- It is the quoted argument for that other value. -/
theorem psArgument_eq (value : Units) :
    psArgument value = quoteArgument (unitOf '"') (unitOf '\\') (psDecode value) := by
  have hback : unitOf '\n' ≠ unitOf '\\' := by decide
  have hmark : unitOf '\n' ≠ unitOf '"' := by decide
  rw [psArgument, quoteArgument, doubleAtEnd, psDecode, getLast?_escapeMarks, List.replicate_zero,
    List.nil_append]
  split
  · rename_i hlast
    have hvalue : value = value.dropLast ++ [unitOf '\n'] :=
      (List.dropLast_append_getLast? _ hlast).symm
    have hescape : escapeMarks (unitOf '"') (unitOf '\\') 0 value =
        escapeMarks (unitOf '"') (unitOf '\\') 0 value.dropLast ++ [unitOf '\n'] := by
      conv_lhs => rw [hvalue]
      rw [escapeMarks_append_plain hmark hback]
      rfl
    rw [hescape, List.dropLast_concat, escapeMarks_append_plain hmark hback,
      escapeMarks_doubleLast (by decide), doubleLast_append_cons hback]
    rfl
  · rfl

/-- Backslashes before a line break at the end are doubled, and nothing else is. -/
theorem psDecode_eq_self_iff (value : Units) :
    psDecode value = value ↔ ¬ [unitOf '\\', unitOf '\n'] <:+ value := by
  rw [psDecode]
  split
  · rename_i hlast
    obtain ⟨b, rfl⟩ : ∃ b, value = b ++ [unitOf '\n'] :=
      ⟨_, (List.dropLast_append_getLast? _ hlast).symm⟩
    rw [List.dropLast_concat]
    rcases List.eq_nil_or_concat b with rfl | ⟨b, c, rfl⟩
    · decide
    · rw [List.concat_eq_append]
      by_cases hc : c = unitOf '\\'
      · subst hc
        refine iff_of_false (fun h => ?_) (not_not.mpr ⟨b, by simp⟩)
        have hlength := congrArg List.length h
        rw [doubleLast, List.rtakeWhile_concat_pos _ _ _ (by simp)] at hlength
        simp only [List.length_append, List.length_singleton] at hlength
        omega
      · refine iff_of_true (by rw [doubleLast_append_cons hc]; rfl) (fun h => hc ?_)
        obtain ⟨t, ht⟩ := h
        have hsplit : (t ++ [unitOf '\\']) ++ [unitOf '\n'] = (b ++ [c]) ++ [unitOf '\n'] := by
          rw [← ht, List.append_assoc, List.singleton_append]
        exact (List.append_inj' (List.append_cancel_right hsplit) rfl).2 |> List.head_eq_of_cons_eq |>.symm
  · rename_i hlast
    refine iff_of_true rfl (fun h => hlast ?_)
    obtain ⟨t, ht⟩ := h
    rw [← ht]
    simp

/-- The process is given each value as PowerShell has passed it on. -/
theorem argumentsOf_psArguments (args : List Units) :
    argumentsOf ([unitOf ' '].intercalate (args.map psArgument)) = args.map psDecode := by
  have hmap : args.map psArgument =
      (args.map psDecode).map (quoteArgument (unitOf '"') (unitOf '\\')) := by
    rw [List.map_map]
    exact List.map_congr_left fun a _ => psArgument_eq a
  rw [argumentsOf, hmap, splitArguments_join (by decide) (by decide) (by decide) (by decide)]

theorem psLiteral_psQuote_iff {rest : Units} (hrest : ∀ u ∈ rest.head?, isPsMark u = false)
    (value : Units) : psLiteral (psQuote value ++ rest) = some (value, rest) ↔
      ∀ u ∈ value, isPsMark u = true → u = unitOf '\'' := by
  have hmark : isPsMark (unitOf '\'') = true := by decide
  rw [← readLiteral_doubleMarks_iff hmark hrest value, psQuote, List.cons_append, psLiteral,
    if_pos hmark, List.append_assoc, List.singleton_append]

theorem runPs1_ps1Content {node : Units} (hnode : ∀ u ∈ node, isOutsideAscii u = false) (entry : Units)
    (args : List Units) : runPs1 (ps1Content node entry) args =
      (psLiteral (psQuote entry ++ psEnd)).bind fun r =>
        if r.2 = psEnd then some (node, (r.1 :: args).map psDecode) else none := by
  -- all marks but the first are outside ASCII
  have hmarks : ∀ u ∈ node, isPsMark u = true → u = unitOf '\'' := by
    intro u hu hmark
    have hascii := hnode u hu
    simp only [isPsMark, Bool.or_eq_true, decide_eq_true_eq] at hmark
    rcases hmark with (((rfl | rfl) | rfl) | rfl) | rfl
    · rfl
    · exact absurd hascii (by decide)
    · exact absurd hascii (by decide)
    · exact absurd hascii (by decide)
    · exact absurd hascii (by decide)
  have hguard : ∀ rest, after psCheckNode (psStart ++ rest) = none :=
    fun rest => after_eq_none (by decide) _ _
  have hvalues : ∀ u ∈ (units "\r\n$values = @(" ++ (psQuote entry ++ psEnd)).head?, isPsMark u = false := by
    intro u hu
    obtain rfl : unitOf '\r' = u := Option.some.inj hu
    decide
  rw [runPs1, ps1Content, ← List.cons_append, after_append]
  simp only [Option.bind_eq_bind, Option.bind_some]
  rw [getD_after (hguard _), after_append, Option.bind_some, (psLiteral_psQuote_iff hvalues node).mpr hmarks,
    Option.bind_some, after_append, Option.bind_some]
  simp only [argumentsOf_psArguments]

/-- The script starts what it should exactly if the entry has no other mark and no argument ends in a
backslash and a line break. -/
theorem runPs1_iff {node entry : Units} (hnode : ∀ u ∈ node, isOutsideAscii u = false)
    (hentry : entry.any isLineUnit = false) (args : List Units) :
    runPs1 (ps1Content node entry) args = some (node, entry :: args) ↔
      (∀ u ∈ entry, isPsMark u = true → u = unitOf '\'') ∧
        ∀ a ∈ args, ¬ [unitOf '\\', unitOf '\n'] <:+ a := by
  have hend : ∀ u ∈ psEnd.head?, isPsMark u = false := by
    rintro u ⟨⟩
    rfl
  have hbreak : unitOf '\n' ∉ entry := fun hmem =>
    absurd (List.any_eq_false.mp hentry _ hmem) (by decide)
  have hkeep : ∀ value, psDecode value = entry ↔ value = entry := by
    intro value
    constructor
    · intro h
      rw [psDecode] at h
      split at h
      · exact absurd (h ▸ List.mem_append_right _ List.mem_cons_self) hbreak
      · exact h
    · rintro rfl
      rw [psDecode_eq_self_iff]
      exact fun hsuffix => hbreak (hsuffix.subset (by simp))
  have hargs : args.map psDecode = args ↔ ∀ a ∈ args, ¬ [unitOf '\\', unitOf '\n'] <:+ a := by
    conv_lhs => rw [← List.map_id args, List.map_map, List.map_inj_left]
    exact forall₂_congr fun a _ => psDecode_eq_self_iff a
  rw [runPs1_ps1Content hnode, ← hargs, ← psLiteral_psQuote_iff hend]
  constructor
  · intro h
    obtain ⟨⟨value, rest⟩, hread, h⟩ := Option.bind_eq_some_iff.mp h
    split at h
    · rename_i hrest
      obtain rfl : rest = psEnd := hrest
      have hlist : psDecode value :: args.map psDecode = entry :: args :=
        congrArg Prod.snd (Option.some.inj h)
      obtain ⟨hvalue, hsame⟩ := List.cons.inj hlist
      rw [hread, (hkeep value).mp hvalue]
      exact ⟨rfl, hsame⟩
    · cases h
  · rintro ⟨hread, hsame⟩
    rw [hread, Option.bind_some, if_pos rfl, List.map_cons, (hkeep entry).mpr rfl, hsame]

/-! ## All wrappers -/

/-- What comes out of UTF-8 again is well formed. -/
theorem unitsOf_decodeUtf8_eq_iff (s : Units) :
    unitsOf (decodeUtf8 (toUtf8 s)) = s ↔ isWellFormed s = true := by
  constructor
  · intro h
    rw [← h, isWellFormed, codePoints_unitsOf, List.all_map, List.all_eq_true]
    exact fun _ _ => rfl
  · intro h
    obtain ⟨t, _, rfl⟩ := exists_text_of_isWellFormed h
    rw [decodeUtf8_toUtf8]

theorem samePath_slashes (windows : Bool) (path : Units) : SamePath windows (slashes windows path) path := by
  cases windows with
  | false => rfl
  | true =>
      show List.map _ (List.map _ path) = List.map _ path
      rw [List.map_map]
      refine List.map_congr_left fun u _ => ?_
      by_cases hu : u = unitOf '\\'
      · rw [Function.comp_apply, if_pos hu, if_neg (by decide)]
      · rw [Function.comp_apply, if_neg hu, if_neg hu]

theorem runCmd_iff {node : Units} (hnode : ∀ u ∈ node, IsQuotable u) (entry tail : Units) :
    runCmd (cmdContent node entry) tail = some (node, entry :: argumentsOf tail) ↔
      isWellFormed entry = true ∧ isOneCommand false tail = true := by
  rw [runCmd_cmdContent hnode, ← unitsOf_decodeUtf8_eq_iff]
  constructor
  · intro h
    split at h
    · rename_i hone
      exact ⟨(List.cons.inj (congrArg Prod.snd (Option.some.inj h))).1, hone⟩
    · cases h
  · rintro ⟨hentry, hone⟩
    rw [if_pos hone, hentry]

/-- **What the wrappers start.** A script for a POSIX shell starts what it should. Of the other two the
batch file needs a well-formed entry and a line without an operator, and PowerShell an entry without
a mark that is not doubled, and arguments that do not end in a backslash and a line break. -/
theorem wrappers_start_iff {sha : Sha256} {node entry : Units} {windows : Bool} {files : List WrapperFile}
    (h : renderManagedShellWrappers sha node entry windows = .ok files) (args : List Units) (tail : Units) :
    (∀ f ∈ files, Starts windows node entry args tail f) ↔
      (windows = true → (∀ u ∈ entry, isPsMark u = true → u = unitOf '\'') ∧
        (∀ a ∈ args, ¬ [unitOf '\\', unitOf '\n'] <:+ a) ∧
          isWellFormed entry = true ∧ isOneCommand false tail = true) := by
  obtain ⟨hnode, hentry, hascii, hfiles⟩ := render_ok h
  have hstarts : (∀ f ∈ files, Starts windows node entry args tail f) ↔
      ∀ p ∈ files.map (fun f => (f.name, f.content)),
        Starts windows node entry args tail ⟨p.1, p.2, []⟩ := by
    rw [List.forall_mem_map]
    exact Iff.rfl
  have hcaveat : Starts windows node entry args tail ⟨.caveat, caveatContent node entry windows, []⟩ :=
    ⟨_, _, runCaveat_caveatContent node entry windows args, samePath_slashes windows node,
      samePath_slashes windows entry⟩
  rw [hstarts, hfiles, List.forall_mem_cons]
  cases windows with
  | false => exact iff_of_true ⟨hcaveat, fun p hp => by cases hp⟩ fun hw => Bool.noConfusion hw
  | true =>
      have hquotable : ∀ u ∈ node, IsQuotable u := by
        by_cases hne : node = units "node"
        · rw [hne]
          exact forall_of_all (by decide)
        · obtain ⟨hline, _, hspecial⟩ := literal_ok (hnode hne)
          exact quotable_of_literal hline (hspecial rfl)
      have hplain : ∀ u ∈ node, isOutsideAscii u = false := fun u hu => by
        simpa using List.any_eq_false.mp (hascii rfl) u hu
      have hps := runPs1_iff hplain (literal_ok hentry).1 args
      have hcmd := runCmd_iff hquotable entry tail
      rw [if_pos rfl, List.forall_mem_cons, List.forall_mem_cons]
      constructor
      · rintro ⟨_, hcmd', hps', _⟩ _
        obtain ⟨hentry', hargs⟩ := hps.mp hps'
        exact ⟨hentry', hargs, hcmd.mp hcmd'⟩
      · intro hall
        obtain ⟨hentry', hargs, hrest⟩ := hall rfl
        exact ⟨hcaveat, hcmd.mpr hrest, hps.mpr ⟨hentry', hargs⟩, fun p hp => by cases hp⟩

theorem isDigest_zeros : isDigest (List.replicate 64 (unitOf '0')) = true := by decide

def zeroSha : Sha256 := ⟨fun _ => List.replicate 64 (unitOf '0'), fun _ => isDigest_zeros⟩

def spacedEntry : Units := units "C:\\o'p\\a b\\cli.js"

theorem wrappers_start_spaced : ∃ files,
    renderManagedShellWrappers zeroSha (units "node") spacedEntry true = .ok files ∧
      ∀ f ∈ files, Starts true (units "node") spacedEntry [units "a\\"] (units "a") f := by
  obtain ⟨files, hfiles⟩ : ∃ files,
      renderManagedShellWrappers zeroSha (units "node") spacedEntry true = .ok files := ⟨_, rfl⟩
  exact ⟨files, hfiles, (wrappers_start_iff hfiles _ _).mpr fun _ =>
    ⟨forall_of_all (by decide), by decide, by decide, by decide⟩⟩

/-- A path with a typographic apostrophe. -/
def apostropheEntry : Units := units "C:\\o" ++ 0x2019 :: units "p\\cli.js"

theorem apostrophe_ends_literal : ∃ files,
    renderManagedShellWrappers zeroSha (units "node") apostropheEntry true = .ok files ∧
      ∃ f ∈ files, ¬ Starts true (units "node") apostropheEntry [] [] f := by
  refine ⟨_, rfl, _, List.mem_cons_of_mem _ (List.mem_cons_of_mem _ List.mem_cons_self), fun h => ?_⟩
  have hmarks := ((runPs1_iff (forall_of_all (by decide)) (by decide) []).mp h).1
  exact absurd (hmarks 0x2019 (by decide) (by decide)) (by decide)

end Caveat.Managed.ShellWrappers
