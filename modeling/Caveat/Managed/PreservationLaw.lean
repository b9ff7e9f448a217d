import Caveat.Managed.JournalAppend
import Caveat.Managed.PreservationShell

/-!
# No mutation without its intent

A check, a read and a change of what is remembered leave the journal and the issued mutations alone. An
intent that was appended is the last record until its result is, and every mutation is issued in between.
A confirmed result is recorded only where the mutation was done.
-/

namespace Caveat.Managed.Preservation

open Js Lib Recovery

variable {host : Host} {r : Reviewed} {α : Type} {s s' : State host} {step : Text}

/-! ## Programs that ask for nothing -/

/-- What was written, and what was asked for. -/
def noted (s : State host) : JournalFile × List Issue := (s.journal, s.issued)

theorem keeps_outside {δ : Type} {f : State host → δ} (h : ∀ s w, f { s with world := w } = f s)
    (x : EStateM Failure host.World α) : Keeps f (outside x) := by
  intro s
  unfold outside
  cases x s.world with
  | ok a w => exact h s w
  | error e w => exact h s w

theorem keeps_attempt {δ : Type} {f : State host → δ} {x : Program host α} (h : Keeps f x) :
    Keeps f (attempt x) :=
  Keeps.tryCatch (h.bind fun _ => .pure) fun _ => .pure

theorem keeps_given {δ : Type} {f : State host → δ} (a : Option α) : Keeps f (given a : Program host α) := by
  cases a with
  | none => exact .throw
  | some a => exact .pure

theorem keeps_savedAt {δ : Type} {f : State host → δ} (i : Nat) :
    Keeps f (savedAt i : Program host (Saved host)) :=
  Keeps.get.bind fun _ => keeps_given _

section Checks

variable {δ : Type} {f : State host → δ} (h : ∀ s w, f { s with world := w } = f s)
include h

theorem keeps_readJournal : Keeps f (readJournal : Program host ParsedJournal) := by
  refine (keeps_outside h _).bind fun _ => Keeps.get.bind fun s => .ite .throw ?_
  split
  · exact .throw
  · exact .pure

theorem keeps_readTree (tree : Option host.Tree) : Keeps f (readTree tree) :=
  (keeps_given tree).bind fun _ => keeps_outside h _

theorem keeps_verifySaved (row : Saved host) : Keeps f (verifySaved row) := by
  refine (keeps_readTree h _).bind fun _ => Keeps.throwIf.bind fun _ => ?_
  split
  · exact .pure
  · exact .doIf ((keeps_readTree h _).bind fun _ => .throwIf)

theorem keeps_verifyRetained : Keeps f (verifyRetained : Program host Unit) :=
  (keeps_outside h _).bind fun _ => Keeps.get.bind fun _ => .forEach (keeps_verifySaved h) _

theorem keeps_verifyGenerated (row : ShellObject) :
    Keeps f (verifyGenerated row : Program host Unit) :=
  .doIf (Keeps.get.bind fun _ => (keeps_readTree h _).bind fun _ => .throwIf)

theorem keeps_verifyOwned : Keeps f (verifyOwned : Program host Unit) :=
  Keeps.get.bind fun _ => Keeps.throwIf.bind fun _ => .forEach (keeps_verifyGenerated h) _

theorem keeps_verifyProtected : Keeps f (verifyProtected : Program host Unit) :=
  (keeps_outside h _).bind fun _ => (keeps_verifyOwned h).bind fun _ => keeps_outside h _

theorem keeps_verify : Keeps f (verify : Program host Unit) :=
  ((keeps_verifyProtected h).bind fun _ => (keeps_outside h _).bind fun _ =>
    keeps_verifyProtected h).bind fun _ => keeps_verifyRetained h

theorem keeps_look (directory name : Text) : Keeps f (look directory name : Program host Unit) :=
  (keeps_attempt (keeps_outside h _)).bind fun _ => .pure

theorem keeps_assertVacant (directory name : Text) (message : String) :
    Keeps f (assertVacant directory name message : Program host Unit) :=
  (keeps_outside h _).bind fun _ => .throwIf

end Checks

/-! ## The journal -/

section Journal

variable {n : JournalFile × List Issue} {es : List JournalEvent} {answers : List Bool}

/-- One mutation was asked for a step, and it was done. -/
def Done (issued : List Issue) (step : Units) : Prop :=
  (issued.filter (fun i => unitsOf i.step = step)).map (·.done) = [true]

theorem Done.done {issued : List Issue} {step : Units} (h : Done issued step) {i : Issue}
    (hi : i ∈ issued) (hstep : unitsOf i.step = step) : i.done = true := by
  have hmem : i.done ∈ (issued.filter (fun i => unitsOf i.step = step)).map (·.done) :=
    List.mem_map_of_mem (List.mem_filter.mpr ⟨hi, decide_eq_true hstep⟩)
  rw [h] at hmem
  exact List.mem_singleton.mp hmem

theorem Done.snoc {issued : List Issue} {step : Units} (h : Done issued step) {i : Issue}
    (hstep : unitsOf i.step ≠ step) : Done (issued ++ [i]) step := by
  have hnone : [i].filter (fun i => unitsOf i.step = step) = [] := by
    rw [List.filter_singleton, decide_eq_false hstep]
    rfl
  rw [Done, List.filter_append, hnone, List.append_nil]
  exact h

/--
A mutation was asked for in its turn: the journal announces it, and each one before it was done and has
its confirmed result there.
-/
def Turn (host : Host) (before : List Issue) (i : Issue) : Prop :=
  ∃ es, Announced host.doubles host.sha host.plan i.journal es (unitsOf i.step) ∧
    ∀ k ∈ before, k.done = true ∧ ∃ operation stateSha256,
      JournalEvent.result (unitsOf k.step) operation .confirmed stateSha256 ∈ es

/-- Each mutation was asked for in its turn. -/
def InTurn (host : Host) (issued : List Issue) : Prop :=
  ∀ before i after, issued = before ++ i :: after → Turn host before i

theorem InTurn.snoc {issued : List Issue} (h : InTurn host issued) {i : Issue}
    (hi : Turn host issued i) : InTurn host (issued ++ [i]) := by
  intro before k after heq
  rcases List.eq_nil_or_concat after with rfl | ⟨after, last, rfl⟩
  · obtain ⟨rfl, hlast⟩ := List.append_inj' heq rfl
    rw [← (List.cons.inj hlast).1]
    exact hi
  · rw [List.concat_eq_append, ← List.cons_append, ← List.append_assoc] at heq
    exact h before k after (List.append_inj' heq rfl).1

/-- The journal and the mutations, between two intents or behind one that is open. -/
structure Recorded (host : Host) (es : List JournalEvent) (n : JournalFile × List Issue) : Prop where
  written : Written host.doubles host.sha host.plan n.1 es
  inTurn : InTurn host n.2
  opened : ∀ i ∈ n.2, unitsOf i.step ∈ es.filterMap JournalEvent.opens
  confirmed : ∀ step operation stateSha256,
    .result step operation .confirmed stateSha256 ∈ es → Done n.2 step

def Sound (host : Host) (n : JournalFile × List Issue) : Prop := ∃ es, Recorded host es n

/-- An intent is open, and the mutations that were asked for since then have these answers. -/
structure Underway (host : Host) (step : Text) (answers : List Bool) (es : List JournalEvent)
    (n : JournalFile × List Issue) : Prop where
  whole : n.1.failed = false
  intent : ∃ operation stateSha256, Follows es (.intent (unitsOf step) operation stateSha256) ∧
    Written host.doubles host.sha host.plan n.1
      (es ++ [.intent (unitsOf step) operation stateSha256])
  inTurn : InTurn host n.2
  settled : ∀ i ∈ n.2, unitsOf i.step ∈ es.filterMap JournalEvent.settles ∨
    unitsOf i.step = unitsOf step
  answers : (n.2.filter (fun i => unitsOf i.step = unitsOf step)).map (·.done) = answers
  confirmed : ∀ step operation stateSha256,
    .result step operation .confirmed stateSha256 ∈ es → Done n.2 step

def Working (host : Host) (step : Text) (answers : List Bool) (n : JournalFile × List Issue) : Prop :=
  ∃ es, Underway host step answers es n

theorem settles_of_confirmed {step : Units} {operation : GlobalJournalOperation}
    {outcome : JournalOutcome} {stateSha256 : Option Units}
    (h : .result step operation outcome stateSha256 ∈ es) :
    step ∈ es.filterMap JournalEvent.settles :=
  List.mem_filterMap.mpr ⟨_, h, rfl⟩

/-- Where no result is unknown, a step that has one has a confirmed one. -/
theorem confirmed_of_settles {step : Units} (hclosed : ∀ e ∈ es, e.closes = false)
    (h : step ∈ es.filterMap JournalEvent.settles) : ∃ operation stateSha256,
      JournalEvent.result step operation .confirmed stateSha256 ∈ es := by
  obtain ⟨e, he, hsettles⟩ := List.mem_filterMap.mp h
  cases e with
  | intent _ _ _ => cases hsettles
  | complete _ => cases hsettles
  | result step' operation outcome stateSha256 =>
      obtain rfl := Option.some.inj hsettles
      cases outcome with
      | confirmed => exact ⟨operation, stateSha256, he⟩
      | unknown => cases hclosed _ he

/-- What is done behind an open intent leaves a journal that is sound. -/
theorem Underway.sound (h : Underway host step answers es n) : Sound host n := by
  obtain ⟨operation, stateSha256, hfollows, hwritten⟩ := h.intent
  refine ⟨_, hwritten, h.inTurn, fun i hi => ?_, fun step' operation' stateSha256' hmem => ?_⟩
  · rw [opens_snoc]
    rcases h.settled i hi with hsettled | hstep
    · have hgrammatical := (hwritten.grammatical).opens.1
      rw [opens_snoc] at hgrammatical
      rw [hgrammatical, settles_snoc]
      exact List.mem_append_left _ (List.mem_append_left _ hsettled)
    · exact List.mem_append_right _ (by rw [hstep]; exact List.mem_singleton_self _)
  · rcases List.mem_append.mp hmem with hmem | hmem
    · exact h.confirmed step' operation' stateSha256' hmem
    · cases List.mem_singleton.mp hmem

/-- The first mutation behind an intent is asked for in its turn. -/
theorem Underway.turn (h : Underway host step [] es n) {i : Issue} (hstep : i.step = step)
    (hjournal : i.journal = n.1) : Turn host n.2 i := by
  obtain ⟨operation, stateSha256, hfollows, hwritten⟩ := h.intent
  have hclosed := hwritten.grammatical.init.open hfollows.1
  refine ⟨es, by rw [hjournal, hstep]; exact hwritten.announced hfollows h.whole, fun k hk => ?_⟩
  rcases h.settled k hk with hsettled | hsame
  · obtain ⟨operation', stateSha256', hmem⟩ := confirmed_of_settles hclosed hsettled
    exact ⟨(h.confirmed _ _ _ hmem).done hk rfl, operation', stateSha256', hmem⟩
  · -- no mutation of this step has been asked for
    have hnone := List.filter_eq_nil_iff.mp (List.map_eq_nil_iff.mp h.answers) k hk
    exact absurd (decide_eq_true hsame) hnone

/-- A mutation is asked for. -/
theorem Underway.issue (h : Underway host step [] es n) {i : Issue} (hstep : i.step = step)
    (hjournal : i.journal = n.1) : Underway host step [i.done] es (n.1, n.2 ++ [i]) := by
  obtain ⟨operation, stateSha256, hfollows, -⟩ := h.intent
  refine ⟨h.whole, h.intent, h.inTurn.snoc (h.turn hstep hjournal), fun k hk => ?_, ?_,
    fun step' _ _ hmem => (h.confirmed step' _ _ hmem).snoc fun hsame => ?_⟩
  · rcases List.mem_append.mp hk with hk | hk
    · exact h.settled k hk
    · exact .inr (by rw [List.mem_singleton.mp hk, hstep])
  · rw [List.filter_append, List.map_append, h.answers, List.filter_singleton, hstep]
    simp
  · -- the step has no result yet
    rw [hstep] at hsame
    exact hfollows.2.2 (hsame ▸ settles_of_confirmed hmem)

/-- An intent is appended. -/
theorem Recorded.intent (h : Recorded host es n) {f : JournalFile} {operation : GlobalJournalOperation}
    {stateSha256 : Units} (hfollows : Follows es (.intent (unitsOf step) operation stateSha256))
    (hwritten : Written host.doubles host.sha host.plan f
      (es ++ [.intent (unitsOf step) operation stateSha256])) (hwhole : f.failed = false) :
    Underway host step [] es (f, n.2) := by
  have hopens : es.filterMap JournalEvent.opens = es.filterMap JournalEvent.settles := by
    rw [h.written.grammatical.opens.1, hfollows.2.1]
    simp
  have hsettled : ∀ i ∈ n.2, unitsOf i.step ∈ es.filterMap JournalEvent.settles :=
    fun i hi => hopens ▸ h.opened i hi
  refine ⟨hwhole, ⟨operation, stateSha256, hfollows, hwritten⟩, h.inTurn,
    fun i hi => .inl (hsettled i hi), ?_, h.confirmed⟩
  rw [List.map_eq_nil_iff, List.filter_eq_nil_iff]
  intro i hi hstep
  exact hfollows.2.2 (of_decide_eq_true hstep ▸ hsettled i hi)

/-- An event is begun that is no confirmed result. -/
theorem Recorded.snoc (h : Recorded host es n) {f : JournalFile} {e : JournalEvent}
    (hwritten : Written host.doubles host.sha host.plan f (es ++ [e]))
    (he : ∀ step operation stateSha256, e ≠ .result step operation .confirmed stateSha256) :
    Recorded host (es ++ [e]) (f, n.2) := by
  refine ⟨hwritten, h.inTurn, fun i hi => ?_, fun step operation stateSha256 hmem => ?_⟩
  · rw [opens_snoc]
    exact List.mem_append_left _ (h.opened i hi)
  · rcases List.mem_append.mp hmem with hmem | hmem
    · exact h.confirmed step operation stateSha256 hmem
    · exact absurd (List.mem_singleton.mp hmem).symm (he step operation stateSha256)

/-- A result is begun: if it is a confirmed one, what was asked for was done. -/
theorem Underway.result (h : Underway host step answers es n) {f : JournalFile}
    {operation operation' : GlobalJournalOperation} {stateSha256 : Units} {outcome : JournalOutcome}
    {stateSha256' : Option Units}
    (hwritten : Written host.doubles host.sha host.plan f
      ((es ++ [.intent (unitsOf step) operation stateSha256]) ++
        [.result (unitsOf step) operation' outcome stateSha256']))
    (hdone : outcome = .confirmed → answers = [true]) : Sound host (f, n.2) := by
  refine ⟨_, hwritten, h.inTurn, fun i hi => ?_, fun step' operation' stateSha256' hmem => ?_⟩
  · have hgrammatical := hwritten.grammatical.opens.1
    rw [hgrammatical, settles_snoc, settles_snoc]
    refine List.mem_append_left _ ?_
    rcases h.settled i hi with hsettled | hstep
    · exact List.mem_append_left _ (List.mem_append_left _ hsettled)
    · exact List.mem_append_right _ (by rw [hstep]; exact List.mem_singleton_self _)
  · rcases List.mem_append.mp hmem with hmem | hmem
    · rcases List.mem_append.mp hmem with hmem | hmem
      · exact h.confirmed step' _ _ hmem
      · cases List.mem_singleton.mp hmem
    · obtain ⟨rfl, -, rfl, -⟩ := JournalEvent.result.inj (List.mem_singleton.mp hmem)
      exact h.answers.trans (hdone rfl)

end Journal

/-! ## Appending and asking -/

section Programs

variable {n : JournalFile × List Issue} {es : List JournalEvent} {answers : List Bool}
  {Q : α → State host → Prop} {E : Failure → State host → Prop}

theorem Meets.attempt {P : State host → Prop} {x : Program host α}
    {R : Except Failure α → State host → Prop} {F : Failure → State host → Prop} (hx : Meets P x Q E)
    (hok : ∀ a s, Q a s → R (.ok a) s) (herror : ∀ e s, E e s → R (.error e) s) :
    Meets P (attempt x) R F := by
  unfold Preservation.attempt
  refine Meets.tryCatch (hx.bind fun a => Meets.pure fun s hs => hok a s hs) fun e => ?_
  exact Meets.pure fun s hs => herror e s hs

theorem append_meets {e : JournalEvent} (h : Written host.doubles host.sha host.plan n.1 es) :
    Meets (fun s : State host => noted s = n) (append e)
      (fun _ s => ∃ f, noted s = (f, n.2) ∧ f.failed = false ∧ Follows es e ∧
        Written host.doubles host.sha host.plan f (es ++ [e]))
      (fun _ s => noted s = n ∨ ∃ f, noted s = (f, n.2) ∧ Follows es e ∧
        Written host.doubles host.sha host.plan f (es ++ [e])) := by
  intro s hs
  subst hs
  unfold append
  dsimp only
  have hcases := Written.append (f := s.journal) h e (host.appendFault s.world).1
  cases hrun : appendEvent host.doubles host.sha host.plan s.journal e
      (host.appendFault s.world).1 with
  | mk result f =>
      rw [hrun] at hcases
      cases result with
      | ok j =>
          rcases hcases with ⟨-, err, herr⟩ | ⟨-, hfollows, hwritten, hwhole⟩
          · cases herr
          · exact ⟨f, rfl, hwhole rfl, hfollows, hwritten⟩
      | error err =>
          rcases hcases with ⟨hsame, -⟩ | ⟨-, hfollows, hwritten, -⟩
          · exact .inl (Prod.ext hsame rfl)
          · exact .inr ⟨f, rfl, hfollows, hwritten⟩

/-- An intent that is not refused is open. -/
theorem intent_meets {operation : GlobalJournalOperation} {stateSha256 : Units} :
    Meets (fun s : State host => Sound host (noted s)) (intent step operation stateSha256)
      (fun _ s => Working host step [] (noted s)) (fun _ s => Sound host (noted s)) := by
  intro s hs
  obtain ⟨es, hrecorded⟩ := hs
  refine (append_meets hrecorded.written).weaken (fun s hs => hs) (fun _ s hs => ?_)
    (fun _ s hs => ?_) s rfl
  · obtain ⟨f, hnoted, hwhole, hfollows, hwritten⟩ := hs
    rw [hnoted]
    exact ⟨es, hrecorded.intent hfollows hwritten hwhole⟩
  · rcases hs with hsame | ⟨f, hnoted, hfollows, hwritten⟩
    · rw [hsame]
      exact ⟨es, hrecorded⟩
    · rw [hnoted]
      exact ⟨_, hrecorded.snoc hwritten nofun⟩

theorem sound_of_keeps {x : Program host α} (h : Keeps noted x) :
    Meets (fun s => Sound host (noted s)) x (fun _ s => Sound host (noted s))
      (fun _ s => Sound host (noted s)) := h.meets

theorem working_of_keeps {x : Program host α} (h : Keeps noted x) :
    Meets (fun s => Working host step answers (noted s)) x (fun _ s => Working host step answers (noted s))
      (fun _ s => Working host step answers (noted s)) := h.meets

/-- An intent that stays open is one that the journal is sound with. -/
theorem sound_of_working {P : State host → Prop} {x : Program host α}
    (h : Meets P x Q (fun _ s => Working host step answers (noted s))) :
    Meets P x Q (fun _ s => Sound host (noted s)) :=
  h.weaken (fun _ hs => hs) (fun _ _ hs => hs) fun _ _ hs => hs.choose_spec.sound

/-- A result that is not refused closes the intent. -/
theorem record_meets {operation : GlobalJournalOperation} {outcome : JournalOutcome} {ofShell : Bool}
    {error : Option Failure} (hdone : outcome = .confirmed → answers = [true]) :
    Meets (fun s : State host => Working host step answers (noted s))
      (record r step operation outcome ofShell error)
      (fun _ s => Sound host (noted s)) (fun _ s => Sound host (noted s)) := by
  unfold record
  refine (sound_of_working (working_of_keeps (keeps_readJournal fun _ _ => rfl))).bind fun j => ?_
  refine (sound_of_working (working_of_keeps Keeps.get)).bind fun s => ?_
  refine (sound_of_working (working_of_keeps (keeps_outside (fun _ _ => rfl) _))).bind fun evidence => ?_
  rintro s ⟨es, hunderway⟩
  obtain ⟨operation', stateSha256, -, hwritten⟩ := hunderway.intent
  refine (append_meets hwritten).weaken (fun s hs => hs) (fun _ s hs => ?_) (fun _ s hs => ?_) s rfl
  · obtain ⟨f, hnoted, -, -, hwritten'⟩ := hs
    rw [hnoted]
    exact hunderway.result hwritten' hdone
  · rcases hs with hsame | ⟨f, hnoted, -, hwritten'⟩
    · rw [hsame]
      exact hunderway.sound
    · rw [hnoted]
      exact hunderway.result hwritten' hdone

/-- What was asked for has been answered: if the rest says that it is done, it is. -/
def Answered (host : Host) (step : Text) (done : Prop) (n : JournalFile × List Issue) : Prop :=
  ∃ answers, Working host step answers n ∧ (done → answers = [true])

theorem answered_of_keeps {done : Prop} {x : Program host α} (h : Keeps noted x) :
    Meets (fun s => Answered host step done (noted s)) x (fun _ s => Answered host step done (noted s))
      (fun _ s => Answered host step done (noted s)) := h.meets

theorem Answered.sound {done : Prop} (h : Answered host step done n) : Sound host n := by
  obtain ⟨answers, ⟨es, hunderway⟩, -⟩ := h
  exact hunderway.sound

theorem Answered.weaken {done done' : Prop} (h : Answered host step done n) (hdone : done' → done) :
    Answered host step done' n := by
  obtain ⟨answers, hworking, hanswers⟩ := h
  exact ⟨answers, hworking, fun hd => hanswers (hdone hd)⟩

/-- Before a mutation. -/
theorem asking_of_keeps {x : Program host α} (h : Keeps noted x) :
    Meets (fun s => Working host step [] (noted s)) x (fun _ s => Working host step [] (noted s))
      (fun _ s => Answered host step False (noted s)) :=
  (working_of_keeps h).weaken (fun _ hs => hs) (fun _ _ hs => hs) fun _ _ hs => ⟨[], hs, False.elim⟩

/-- Behind a mutation. -/
theorem answering_of_keeps {done : Prop} {x : Program host α} (h : Keeps noted x) :
    Meets (fun s => Answered host step done (noted s)) x (fun _ s => Answered host step done (noted s))
      (fun _ s => Answered host step False (noted s)) :=
  (answered_of_keeps h).weaken (fun _ hs => hs) (fun _ _ hs => hs) fun _ _ hs => hs.weaken False.elim

/-- Where what becomes of a mutation is remembered. -/
theorem leaving_of_keeps {done : Prop} {x : Program host α} (h : Keeps noted x) :
    Meets (fun s => Answered host step done (noted s)) x (fun _ s => Answered host step done (noted s))
      (fun _ s => Sound host (noted s)) :=
  (answered_of_keeps h).weaken (fun _ hs => hs) (fun _ _ hs => hs) fun _ _ hs => hs.sound

/-- One mutation behind its intent. -/
theorem mutate_answered {mutation : Mutation} {isDone : α → Bool} {x : EStateM Failure host.World α} :
    Meets (fun s : State host => Working host step [] (noted s)) (mutate mutation step isDone x)
      (fun a s => Answered host step (isDone a = true) (noted s))
      (fun _ s => Answered host step False (noted s)) := by
  rintro s ⟨es, hunderway⟩
  unfold mutate
  dsimp only
  cases x s.world with
  | ok a w =>
      refine ⟨[isDone a], ⟨es, ?_⟩, fun hdone => by rw [hdone]⟩
      exact hunderway.issue (i := ⟨mutation, step, s.journal, s.objects, s.shell, isDone a⟩) rfl rfl
  | error e w =>
      refine ⟨[false], ⟨es, ?_⟩, False.elim⟩
      exact hunderway.issue (i := ⟨mutation, step, s.journal, s.objects, s.shell, false⟩) rfl rfl

theorem record_answered {operation : GlobalJournalOperation} {outcome : JournalOutcome}
    {ofShell : Bool} {error : Option Failure} :
    Meets (fun s : State host => Answered host step (outcome = .confirmed) (noted s))
      (record r step operation outcome ofShell error)
      (fun _ s => Sound host (noted s)) (fun _ s => Sound host (noted s)) := by
  rintro s ⟨answers, hworking, hanswers⟩
  exact record_meets hanswers s hworking

/-- What becomes of a mutation. -/
theorem conclude_answered {leave : Program host Unit} {x : Program host Bool} (hleave : Keeps noted leave)
    (hx : Meets (fun s => Working host step [] (noted s)) x
      (fun done s => Answered host step (done = true) (noted s))
      (fun _ s => Answered host step False (noted s))) :
    Meets (fun s => Working host step [] (noted s)) (conclude leave x)
      (fun outcome s => Answered host step (outcome.1 = .confirmed) (noted s))
      (fun _ s => Sound host (noted s)) := by
  unfold conclude
  refine (Meets.attempt (R := fun a s => Answered host step (∃ done, a = .ok done ∧ done = true) (noted s))
    hx (fun done s hs => ?_) fun e s hs => ?_).bind fun a => ?_
  · refine hs.weaken ?_
    rintro ⟨done', heq, hdone⟩
    rw [Except.ok.inj heq]
    exact hdone
  · refine hs.weaken ?_
    rintro ⟨done, heq, -⟩
    cases heq
  · have hunknown : ∀ error, Meets
        (fun s => Answered host step (∃ done, a = .ok done ∧ done = true) (noted s))
        (do leave; return (JournalOutcome.unknown, error) : Program host (JournalOutcome × Option Failure))
        (fun outcome s => Answered host step (outcome.1 = .confirmed) (noted s))
        (fun _ s => Sound host (noted s)) := fun error =>
      (leaving_of_keeps hleave).bind fun _ => Meets.pure fun s hs => hs.weaken nofun
    split
    · exact Meets.pure fun s hs => hs.weaken fun _ => ⟨true, rfl, rfl⟩
    · exact hunknown none
    · exact hunknown _

theorem keeps_stop : Keeps noted (stop : Program host Unit) := Keeps.modify fun _ => rfl

theorem settle_sound {operation : GlobalJournalOperation} {outcome : JournalOutcome}
    {error : Option Failure} :
    Meets (fun s : State host => Answered host step (outcome = .confirmed) (noted s))
      (settle r step operation outcome error)
      (fun _ s => Sound host (noted s)) (fun _ s => Sound host (noted s)) := by
  unfold settle
  refine (Meets.attempt (R := fun _ s => Sound host (noted s)) record_answered (fun _ _ hs => hs)
    fun _ _ hs => hs).bind fun a => sound_of_keeps ?_
  split
  · exact keeps_stop.bind fun _ => .pure
  · refine .ite .pure ((keeps_attempt (keeps_verify fun _ _ => rfl)).bind fun b => ?_)
    split
    · exact .pure
    · exact keeps_stop.bind fun _ => .pure

end Programs

/-! ## The engine -/

theorem keeps_setSaved (i : Nat) (f : Saved host → Saved host) :
    Keeps noted (setSaved i f : Program host Unit) := Keeps.modify fun _ => rfl

theorem keeps_setObject (i : Nat) (f : EvidenceObject → EvidenceObject) :
    Keeps noted (setObject i f : Program host Unit) := keeps_setSaved i _

/-- What is done where a mutation is left in doubt. -/
theorem keeps_leave (i : Nat) (f : EvidenceObject → EvidenceObject) :
    Keeps noted (stop >>= fun _ => setObject i f : Program host Unit) :=
  keeps_stop.bind fun _ => keeps_setObject i f

theorem moveSaved_answered {i : Nat} {restore : Bool} :
    Meets (fun s : State host => Working host step [] (noted s)) (moveSaved i restore step)
      (fun done s => Answered host step (done = true) (noted s))
      (fun _ s => Answered host step False (noted s)) := by
  unfold moveSaved
  refine (asking_of_keeps (keeps_savedAt i)).bind fun row => ?_
  refine mutate_answered.bind fun moved => ?_
  refine (answering_of_keeps ?_).bind fun _ => Meets.pure fun _ hs => hs
  exact .doIf ((keeps_readTree (fun _ _ => rfl) _).bind fun _ => keeps_setObject i _)

theorem move_sound (i : Nat) (restore : Bool) :
    Meets (fun s : State host => Sound host (noted s)) (move r i restore)
      (fun _ s => Sound host (noted s)) (fun _ s => Sound host (noted s)) := by
  unfold move
  refine (sound_of_keeps Keeps.get).bind fun _ => ?_
  refine (sound_of_keeps (keeps_savedAt i)).bind fun row => ?_
  refine (sound_of_keeps Keeps.throwIf).bind fun _ => ?_
  refine (sound_of_keeps (keeps_attempt (keeps_verify fun _ _ => rfl))).bind fun a => ?_
  split
  · exact sound_of_keeps (keeps_stop.bind fun _ => .pure)
  · refine (sound_of_keeps Keeps.get).bind fun _ => intent_meets.bind fun _ => ?_
    refine (conclude_answered (keeps_leave i _) moveSaved_answered).bind
      fun outcome => settle_sound.bind fun settled => ?_
    split <;> exact Meets.pure fun _ hs => hs

theorem untilReturned_meets {P : State host → Prop} {E : Failure → State host → Prop}
    {body : α → Program host (Option Returned)} {last : Returned}
    (hbody : ∀ a, Meets P (body a) (fun _ => P) E) (as : List α) :
    Meets P (untilReturned body last as) (fun _ => P) E := by
  induction as with
  | nil => exact Meets.pure fun _ hs => hs
  | cons a as ih =>
      refine (hbody a).bind fun returned => ?_
      cases returned with
      | some returned => exact Meets.pure fun _ hs => hs
      | none => exact ih

theorem preserveAll_sound :
    Meets (fun s : State host => Sound host (noted s)) (preserveAll r)
      (fun _ s => Sound host (noted s)) (fun _ s => Sound host (noted s)) := by
  unfold preserveAll
  refine (sound_of_keeps Keeps.get).bind fun _ => (sound_of_keeps Keeps.throwIf).bind fun _ => ?_
  exact untilReturned_meets (fun i => (move_sound i false).bind fun _ => Meets.pure fun _ hs => hs) _

theorem copySaved_answered {i : Nat} {stagingName : Text} :
    Meets (fun s : State host => Working host step [] (noted s)) (copySaved i step stagingName)
      (fun done s => Answered host step (done = true) (noted s))
      (fun _ s => Answered host step False (noted s)) := by
  unfold copySaved
  refine (asking_of_keeps (keeps_savedAt i)).bind fun row => ?_
  refine mutate_answered.bind fun copied => ?_
  cases copied with
  | none => exact Meets.pure fun _ hs => hs
  | some copy =>
      refine (answering_of_keeps (keeps_setSaved i _)).bind fun _ => Meets.pure fun _ hs => ?_
      exact hs.weaken fun _ => rfl

theorem createWorkingCopy_sound (i : Nat) :
    Meets (fun s : State host => Sound host (noted s)) (createWorkingCopy r i)
      (fun _ s => Sound host (noted s)) (fun _ s => Sound host (noted s)) := by
  unfold createWorkingCopy
  refine (sound_of_keeps (keeps_savedAt i)).bind fun row => ?_
  refine (sound_of_keeps (keeps_attempt (keeps_verify fun _ _ => rfl))).bind fun a => ?_
  split
  · exact sound_of_keeps (keeps_stop.bind fun _ => .pure)
  · refine (sound_of_keeps Keeps.get).bind fun _ => intent_meets.bind fun _ => ?_
    refine (conclude_answered (keeps_leave i _) copySaved_answered).bind
      fun outcome => settle_sound.bind fun settled => ?_
    split <;> exact Meets.pure fun _ hs => hs

theorem createWorkingCopies_sound :
    Meets (fun s : State host => Sound host (noted s)) (createWorkingCopies r)
      (fun _ s => Sound host (noted s)) (fun _ s => Sound host (noted s)) := by
  unfold createWorkingCopies
  refine (sound_of_keeps Keeps.get).bind fun _ => (sound_of_keeps Keeps.throwIf).bind fun _ => ?_
  exact untilReturned_meets createWorkingCopy_sound _

theorem keeps_releaseWorking (i : Nat) : Keeps noted (releaseWorking i : Program host Unit) :=
  (keeps_savedAt i).bind fun _ => (keeps_given _).bind fun _ =>
    (keeps_outside (fun _ _ => rfl) _).bind fun _ => keeps_setSaved i _

theorem keeps_assertAfter {δ : Type} {f : State host → δ} (before rows : Rows) :
    Keeps f (assertAfter before rows : Program host Unit) := by
  refine Keeps.throwIf.bind fun _ => .forEach (fun value => ?_) rows
  split <;> exact .throwIf

theorem keeps_observeAfter (i : Nat) : Keeps noted (observeAfter i : Program host Unit) := by
  refine (keeps_savedAt i).bind fun row => (keeps_outside (fun _ _ => rfl) _).bind fun observed => ?_
  split
  · exact keeps_setObject i _
  · exact (keeps_outside (fun _ _ => rfl) _).bind fun _ => (keeps_readTree (fun _ _ => rfl) _).bind
      fun _ => (keeps_given _).bind fun _ => (keeps_given _).bind fun _ =>
        (keeps_assertAfter _ _).bind fun _ => (keeps_setSaved i _).bind fun _ => keeps_setObject i _

theorem uninstallCopies_answered {is : List Nat} :
    Meets (fun s : State host => Working host uninstallStep [] (noted s)) (uninstallCopies is)
      (fun _ s => Answered host uninstallStep True (noted s))
      (fun _ s => Answered host uninstallStep False (noted s)) := by
  unfold uninstallCopies
  refine (asking_of_keeps (.forEach keeps_releaseWorking is)).bind fun _ => ?_
  refine mutate_answered.bind fun receipt => ?_
  refine Meets.throwIf_bind (fun _ hs _ => hs.weaken False.elim) fun hterminal => ?_
  refine (answering_of_keeps (.forEach keeps_observeAfter is)).bind fun _ => Meets.pure fun _ hs => ?_
  exact hs.weaken fun _ => not_not.mp hterminal

theorem keeps_forgetReleased : Keeps noted (forgetReleased : Program host Unit) :=
  Keeps.modify fun _ => rfl

theorem uninstallWorking_sound :
    Meets (fun s : State host => Sound host (noted s)) (uninstallWorking r)
      (fun _ s => Sound host (noted s)) (fun _ s => Sound host (noted s)) := by
  unfold uninstallWorking
  refine (sound_of_keeps Keeps.get).bind fun _ => (sound_of_keeps Keeps.throwIf).bind fun _ => ?_
  refine (sound_of_keeps (keeps_attempt (keeps_verify fun _ _ => rfl))).bind fun a => ?_
  split
  · exact sound_of_keeps (keeps_stop.bind fun _ => .pure)
  · refine (sound_of_keeps Keeps.get).bind fun _ => intent_meets.bind fun _ => ?_
    refine (Meets.attempt (R := fun ran s => Answered host uninstallStep (ran.isOk = true) (noted s))
      uninstallCopies_answered (fun _ _ hs => hs.weaken fun _ => trivial)
      fun _ _ hs => hs.weaken nofun).bind fun ran => ?_
    refine Meets.bind (Q := fun outcome s =>
      Answered host uninstallStep (outcome.1 = .confirmed) (noted s)) ?_ fun outcome => ?_
    · cases ran with
      | ok receipt => exact Meets.pure fun _ hs => hs.weaken fun _ => rfl
      | error e =>
          refine (leaving_of_keeps keeps_stop).bind fun _ => ?_
          exact (leaving_of_keeps keeps_forgetReleased).bind fun _ => Meets.pure fun _ hs => hs.weaken nofun
    · refine settle_sound.bind fun settled => ?_
      split
      · exact Meets.pure fun _ hs => hs
      · exact Meets.pure fun _ hs => hs
      · exact Meets.pure fun _ hs => hs
      · exact (sound_of_keeps Keeps.get).bind fun _ => Meets.pure fun _ hs => hs

theorem retireSaved_answered {i : Nat} :
    Meets (fun s : State host => Working host step [] (noted s)) (retireSaved i step)
      (fun done s => Answered host step (done = true) (noted s))
      (fun _ s => Answered host step False (noted s)) := by
  unfold retireSaved
  refine (asking_of_keeps (keeps_savedAt i)).bind fun row => ?_
  refine (asking_of_keeps (keeps_given _)).bind fun working => ?_
  refine (asking_of_keeps (keeps_given _)).bind fun tree => mutate_answered.bind fun moved => ?_
  refine (answering_of_keeps ?_).bind fun _ => Meets.pure fun _ hs => hs
  exact .doIf ((keeps_readTree (fun _ _ => rfl) _).bind fun _ => keeps_setObject i _)

theorem quarantineWorking_sound (name : Text) :
    Meets (fun s : State host => Sound host (noted s)) (quarantineWorking r name)
      (fun _ s => Sound host (noted s)) (fun _ s => Sound host (noted s)) := by
  unfold quarantineWorking
  refine (sound_of_keeps Keeps.get).bind fun _ => (sound_of_keeps Keeps.throwIf).bind fun _ => ?_
  refine (sound_of_keeps (keeps_given _)).bind fun i => ?_
  refine (sound_of_keeps (keeps_attempt (keeps_verify fun _ _ => rfl))).bind fun a => ?_
  split
  · exact sound_of_keeps (keeps_stop.bind fun _ => .pure)
  · refine (sound_of_keeps Keeps.get).bind fun _ => intent_meets.bind fun _ => ?_
    refine (conclude_answered (keeps_leave i _) retireSaved_answered).bind
      fun outcome => settle_sound.bind fun settled => ?_
    split <;> exact Meets.pure fun _ hs => hs

theorem keeps_assertGlobalRestoreOrder {δ : Type} {f : State host → δ} (objects : List EvidenceObject)
    (role : Role) : Keeps f (assertGlobalRestoreOrder objects role : Program host Unit) :=
  (Keeps.doIf .throwIf).bind fun _ => .doIf .throwIf

theorem restoreKnown_sound (name : Text) :
    Meets (fun s : State host => Sound host (noted s)) (restoreKnown r name)
      (fun _ s => Sound host (noted s)) (fun _ s => Sound host (noted s)) := by
  unfold restoreKnown
  refine (sound_of_keeps Keeps.get).bind fun _ => (sound_of_keeps Keeps.throwIf).bind fun _ => ?_
  refine (sound_of_keeps (keeps_given _)).bind fun i => ?_
  refine (sound_of_keeps (keeps_savedAt i)).bind fun row => (sound_of_keeps Keeps.throwIf).bind fun _ => ?_
  exact (sound_of_keeps (keeps_assertGlobalRestoreOrder _ _)).bind fun _ => move_sound i true

/-! ## The shell -/

theorem keeps_generatedAt {δ : Type} {f : State host → δ} (g : Generated) :
    Keeps f (generatedAt g : Program host ShellObject) :=
  Keeps.get.bind fun _ => keeps_given _

theorem keeps_required {δ : Type} {f : State host → δ} (message : String) (a : Option α) :
    Keeps f (required message a : Program host α) := by
  cases a with
  | none => exact .throw
  | some a => exact .pure

theorem keeps_verifyCurrent {δ : Type} {f : State host → δ}
    (h : ∀ s w b, f { s with world := w, stopped := b } = f s) :
    Keeps f (verifyCurrent : Program host Unit) := by
  refine Keeps.get.bind fun _ => Keeps.throwIf.bind fun _ => ?_
  refine (keeps_attempt (keeps_verify fun s w => h s w s.stopped)).bind fun a => ?_
  split
  · exact .pure
  · exact (Keeps.modify fun s => h s s.world true).bind fun _ => .throw

/-- What the shell leaves alone, but for the journal and the mutations. -/
def IgnoresShell {δ : Type} (f : State host → δ) : Prop :=
  ∀ s world generated stopped shell held attempted uncertain,
    f { s with world, generated, stopped, shell, held, attempted, uncertain } = f s

theorem noted_ignoresShell : IgnoresShell (@noted host) := fun _ _ _ _ _ _ _ _ => rfl

section Shell

variable {δ : Type} {f : State host → δ} (h : IgnoresShell f)
include h

theorem keeps_setGenerated (g : Generated) (change : ShellObject → ShellObject) :
    Keeps f (setGenerated g change : Program host Unit) := Keeps.modify fun _ => h _ _ _ _ _ _ _ _

theorem keeps_hold (name : Text) (tree : host.Tree) : Keeps f (hold name tree : Program host Unit) :=
  Keeps.modify fun _ => h _ _ _ _ _ _ _ _

theorem keeps_doubt : Keeps f (doubt : Program host Unit) := Keeps.modify fun _ => h _ _ _ _ _ _ _ _

theorem IgnoresShell.world (s : State host) (w : host.World) : f { s with world := w } = f s :=
  h s w s.generated s.stopped s.shell s.held s.attempted s.uncertain

theorem keeps_confirmGeneratedTree (place : Text × Text) (tree : Option host.Tree)
    (previous : Option (Text × Text)) :
    Keeps f (confirmGeneratedTree place tree previous : Program host Unit) :=
  (keeps_readJournal h.world).bind fun _ => Keeps.throwIf.bind fun _ => Keeps.get.bind fun _ =>
    Keeps.throwIf.bind fun _ => (keeps_given _).bind fun _ =>
      (keeps_readTree h.world _).bind fun _ => .modify fun _ => h _ _ _ _ _ _ _ _

theorem keeps_confirm (g : Generated) (restore : Bool) :
    Keeps f (confirm r g restore : Program host Unit) :=
  (keeps_generatedAt g).bind fun _ => Keeps.get.bind fun _ =>
    (keeps_confirmGeneratedTree h _ _ _).bind fun _ =>
      (keeps_verifyCurrent fun s w b => h s w _ b _ _ _ _).bind fun _ => keeps_verifyOwned h.world

theorem keeps_lookAround (g : Generated) : Keeps f (lookAround r g : Program host Unit) :=
  (keeps_generatedAt g).bind fun _ => (keeps_look h.world _ _).bind fun _ =>
    (keeps_look h.world _ _).bind fun _ => keeps_look h.world _ _

end Shell

/-- What is done for a generated object between its intent and its result. -/
def Performs (body : Text → Program host Unit) : Prop :=
  ∀ step, Meets (fun s => Working host step [] (noted s)) (body step)
    (fun _ s => Answered host step True (noted s)) (fun _ s => Answered host step False (noted s))

theorem perform_sound {g : Generated} {restore : Bool} {body : Text → Program host Unit}
    (hbody : Performs body) :
    Meets (fun s : State host => Sound host (noted s)) (perform r g restore body)
      (fun _ s => Sound host (noted s)) (fun _ s => Sound host (noted s)) := by
  unfold perform
  refine (sound_of_keeps Keeps.get).bind fun _ => (sound_of_keeps Keeps.throwIf).bind fun _ => ?_
  refine (sound_of_keeps (keeps_readJournal fun _ _ => rfl)).bind fun _ => ?_
  refine (sound_of_keeps Keeps.throwIf).bind fun _ => ?_
  refine (sound_of_keeps (keeps_generatedAt g)).bind fun row => ?_
  refine (sound_of_keeps (keeps_attempt ((keeps_verifyCurrent fun _ _ _ => rfl).bind fun _ =>
    keeps_verifyOwned fun _ _ => rfl))).bind fun a => ?_
  split
  · exact Meets.pure fun _ hs => hs
  · refine (sound_of_keeps Keeps.get).bind fun _ => intent_meets.bind fun _ => ?_
    refine (conclude_answered ((keeps_doubt noted_ignoresShell).bind fun _ =>
      (keeps_setGenerated noted_ignoresShell g _).bind fun _ => keeps_lookAround noted_ignoresShell g)
        ?_).bind fun outcome => ?_
    · refine (hbody _).bind fun _ => ?_
      refine (answering_of_keeps (keeps_verifyRetained fun _ _ => rfl)).bind fun _ => ?_
      refine (answering_of_keeps (keeps_verifyOwned fun _ _ => rfl)).bind fun _ => Meets.pure fun _ hs => ?_
      exact hs.weaken fun _ => trivial
    refine (Meets.attempt (R := fun _ s => Sound host (noted s)) record_answered (fun _ _ hs => hs)
      fun _ _ hs => hs).bind fun recorded => ?_
    split
    · exact (sound_of_keeps (keeps_doubt noted_ignoresShell)).bind fun _ => Meets.pure fun _ hs => hs
    · split
      · exact Meets.pure fun _ hs => hs
      · refine (sound_of_keeps (keeps_attempt (keeps_confirm noted_ignoresShell g restore))).bind
          fun confirmed => ?_
        split
        · exact Meets.pure fun _ hs => hs
        · refine (sound_of_keeps (keeps_doubt noted_ignoresShell)).bind fun _ =>
            Meets.ite (fun _ => Meets.pure fun _ hs => hs) fun _ => ?_
          refine (sound_of_keeps (keeps_setGenerated noted_ignoresShell g _)).bind fun _ => ?_
          refine (sound_of_keeps Keeps.get).bind fun _ => intent_meets.bind fun _ => ?_
          refine Meets.bind (record_answered.pre fun _ hs => ⟨[], hs, nofun⟩) fun _ => ?_
          exact Meets.pure fun _ hs => hs

theorem publish_performs {g : Generated} {name : Text} {tree : host.Tree} :
    Performs (publish r g name tree) := by
  intro step
  unfold publish
  refine (asking_of_keeps (keeps_generatedAt g)).bind fun row => mutate_answered.bind fun moved => ?_
  refine Meets.throwIf_bind (fun _ hs _ => hs.weaken False.elim) fun hmoved => ?_
  refine (answering_of_keeps (keeps_hold noted_ignoresShell name tree)).bind fun _ => ?_
  refine (answering_of_keeps (keeps_readTree (fun _ _ => rfl) _)).bind fun rows => ?_
  exact (answering_of_keeps (keeps_setGenerated noted_ignoresShell g _)).post fun _ _ hs =>
    hs.weaken fun _ => not_not.mp hmoved

theorem publishFile_performs {i : Nat} : Performs (publishFile r i : Text → Program host Unit) := by
  intro step
  unfold publishFile
  refine (asking_of_keeps (keeps_generatedAt _)).bind fun row => ?_
  refine (asking_of_keeps (keeps_assertVacant (fun _ _ => rfl) _ _ _)).bind fun _ => ?_
  refine (asking_of_keeps (keeps_given _)).bind fun content => ?_
  refine (asking_of_keeps (keeps_outside (fun _ _ => rfl) _)).bind fun token => ?_
  refine (asking_of_keeps (keeps_outside (fun _ _ => rfl) _)).bind fun sealedTree => ?_
  exact (asking_of_keeps (keeps_required _ _)).bind fun tree => publish_performs step

theorem publishManifest_performs : Performs (publishManifest r : Text → Program host Unit) := by
  intro step
  unfold publishManifest
  refine (asking_of_keeps (keeps_outside (fun _ _ => rfl) _)).bind fun directory => ?_
  refine (asking_of_keeps Keeps.get).bind fun _ => ?_
  refine (asking_of_keeps (keeps_outside (fun _ _ => rfl) _)).bind fun identity => ?_
  refine (asking_of_keeps (.forEach (fun _ => (keeps_given _).bind fun _ => .pure) _)).bind fun _ => ?_
  refine (asking_of_keeps (keeps_outside (fun _ _ => rfl) _)).bind fun token => ?_
  refine (asking_of_keeps (keeps_outside (fun _ _ => rfl) _)).bind fun sealedFile => ?_
  refine (asking_of_keeps (keeps_required _ _)).bind fun file => ?_
  refine (asking_of_keeps (keeps_outside (fun _ _ => rfl) _)).bind fun _ => ?_
  refine (asking_of_keeps (keeps_outside (fun _ _ => rfl) _)).bind fun sealedTree => ?_
  exact (asking_of_keeps (keeps_required _ _)).bind fun tree => publish_performs step

theorem withdraw_performs {g : Generated} : Performs (withdraw r g : Text → Program host Unit) := by
  intro step
  unfold withdraw
  refine (asking_of_keeps (keeps_generatedAt g)).bind fun row => (asking_of_keeps Keeps.get).bind fun _ => ?_
  refine (asking_of_keeps (keeps_given _)).bind fun tree => mutate_answered.bind fun moved => ?_
  refine Meets.throwIf_bind (fun _ hs _ => hs.weaken False.elim) fun hmoved => ?_
  refine (answering_of_keeps (keeps_readTree (fun _ _ => rfl) _)).bind fun rows => ?_
  exact (answering_of_keeps (keeps_setGenerated noted_ignoresShell g _)).post fun _ _ hs =>
    hs.weaken fun _ => not_not.mp hmoved

theorem install_sound :
    Meets (fun s : State host => Sound host (noted s)) (install r)
      (fun _ s => Sound host (noted s)) (fun _ s => Sound host (noted s)) := by
  unfold install
  refine (sound_of_keeps Keeps.get).bind fun _ => (sound_of_keeps Keeps.throwIf).bind fun _ => ?_
  refine Meets.bind (sound_of_keeps (Keeps.modify ?_)) fun _ => ?_
  · exact fun _ => rfl
  refine (sound_of_keeps Keeps.throwIf).bind fun _ => ?_
  refine (sound_of_keeps (.forEach (fun _ => keeps_assertVacant (fun _ _ => rfl) _ _ _) _)).bind fun _ => ?_
  refine (sound_of_keeps (keeps_assertVacant (fun _ _ => rfl) _ _ _)).bind fun _ => ?_
  refine (untilReturned_meets (fun i => (perform_sound publishFile_performs).bind fun _ =>
    Meets.pure fun _ hs => hs) _).bind fun published => ?_
  split
  · exact Meets.pure fun _ hs => hs
  · exact (perform_sound publishManifest_performs).bind fun _ => Meets.pure fun _ hs => hs

theorem quarantineKnown_sound :
    Meets (fun s : State host => Sound host (noted s)) (quarantineKnown r)
      (fun _ s => Sound host (noted s)) (fun _ s => Sound host (noted s)) := by
  unfold quarantineKnown
  refine (sound_of_keeps Keeps.get).bind fun _ => (sound_of_keeps Keeps.throwIf).bind fun _ => ?_
  refine (sound_of_keeps (keeps_readJournal fun _ _ => rfl)).bind fun _ => ?_
  refine (sound_of_keeps Keeps.throwIf).bind fun _ => untilReturned_meets (fun g => ?_) _
  refine (sound_of_keeps (keeps_generatedAt g)).bind fun row => Meets.ite (fun _ => ?_)
    fun _ => Meets.pure fun _ hs => hs
  exact (perform_sound withdraw_performs).bind fun _ => Meets.pure fun _ hs => hs

theorem keeps_assertReady : Keeps noted (assertReady : Program host Unit) :=
  Keeps.get.bind fun _ => Keeps.throwIf.bind fun _ => (keeps_verifyOwned fun _ _ => rfl).bind fun _ =>
    .throwIf

/-- The last event is no result. -/
theorem append_complete_sound {stateSha256 : Units} :
    Meets (fun s : State host => Sound host (noted s)) (append (.complete stateSha256))
      (fun _ s => Sound host (noted s)) (fun _ s => Sound host (noted s)) := by
  rintro s ⟨es, hrecorded⟩
  refine (append_meets hrecorded.written).weaken (fun s hs => hs) (fun _ s hs => ?_)
    (fun _ s hs => ?_) s rfl
  · obtain ⟨f, hnoted, -, -, hwritten⟩ := hs
    rw [hnoted]
    exact ⟨_, hrecorded.snoc hwritten nofun⟩
  · rcases hs with hsame | ⟨f, hnoted, -, hwritten⟩
    · rw [hsame]
      exact ⟨es, hrecorded⟩
    · rw [hnoted]
      exact ⟨_, hrecorded.snoc hwritten nofun⟩

theorem checkpoint_sound :
    Meets (fun s : State host => Sound host (noted s)) checkpoint
      (fun _ s => Sound host (noted s)) (fun _ s => Sound host (noted s)) := by
  unfold checkpoint
  refine (sound_of_keeps (keeps_verifyCurrent fun _ _ _ => rfl)).bind fun _ => ?_
  refine (sound_of_keeps keeps_assertReady).bind fun _ => ?_
  refine (sound_of_keeps Keeps.get).bind fun _ => append_complete_sound.bind fun _ => ?_
  exact Meets.pure fun _ hs => hs

/-! ## Runs -/

theorem programOf_sound (c : Call) :
    Meets (fun s : State host => Sound host (noted s)) (programOf r c)
      (fun _ s => Sound host (noted s)) (fun _ s => Sound host (noted s)) := by
  cases c with
  | verifyCurrent =>
      exact (sound_of_keeps (keeps_verifyCurrent fun _ _ _ => rfl)).bind fun _ => Meets.pure fun _ hs => hs
  | preserveAll => exact preserveAll_sound
  | createWorkingCopies => exact createWorkingCopies_sound
  | uninstallWorking => exact uninstallWorking_sound
  | quarantineWorking name => exact quarantineWorking_sound name
  | restoreKnown name => exact restoreKnown_sound name
  | install => exact install_sound
  | quarantineKnown => exact quarantineKnown_sound
  | checkpoint => exact checkpoint_sound

theorem Initial.sound (h : Initial s) : Sound host (noted s) := by
  have hnone : s.issued = [] := h.issued
  refine ⟨[], written_start h.journal, fun before i after heq => ?_, fun i hi => ?_, nofun⟩
  · exact absurd (hnone.symm.trans heq) (by simp)
  · have hmem : i ∈ s.issued := hi
    rw [hnone] at hmem
    exact absurd hmem List.not_mem_nil

/-- What every call keeps holds in every run. -/
theorem invariant_of_programs {I : State host → Prop} (hinit : ∀ s, Initial s → I s)
    (hcall : ∀ c, Meets I (programOf r c) (fun _ => I) (fun _ => I))
    (h : Reaches (Preservation.step r) (fun _ _ => True) Initial s) : I s := by
  refine h.invariant hinit fun s c s' hi _ hs => ?_
  obtain rfl := Option.some.inj hs
  rcases (hcall c).run hi with ⟨returned, s', hrun, hs'⟩ | ⟨e, s', hrun, hs'⟩
  · rw [hrun]
    exact hs'
  · rw [hrun]
    exact hs'

theorem sound_of_reaches (h : Reaches (Preservation.step r) (fun _ _ => True) Initial s) :
    Sound host (noted s) :=
  invariant_of_programs (fun _ hs => hs.sound) programOf_sound h

/-! ## A run -/

/-- A guard to which nothing happens. -/
def quietHost : Host where
  World := Unit
  Tree := Unit
  File := Unit
  doubles := someDoubles
  sha := someSha
  plan := somePlan
  manifestSha256 _ := somePlan
  shellSha256 _ := somePlan
  completeSha256 _ _ := somePlan
  readTree _ := pure []
  retainTree _ _ := pure ()
  releaseWorkingTree _ := pure ()
  observe _ _ := pure none
  directoryIdentity _ := throw .type
  moveTreeNoReplace _ _ _ := pure true
  copyTreeNoReplace _ _ _ _ _ := pure (some ((), []))
  createJournal _ _ _ := pure ()
  sealJournalFile _ _ := pure (some ())
  createPrivateDirectory _ _ := pure []
  sealPrivateDirectory _ := pure (some ())
  readJournal := pure ()
  appendFault w := (.none, w)
  originalEvidence := pure ()
  writeGlobalPrivateEvidence _ _ := pure somePlan
  protectedBefore := pure ()
  protectedAfter := pure ()
  processCheck := pure ()
  runNpm := pure ⟨true, true, true, true, none, false⟩

def somePackage : EvidenceObject where
  step := "package".toList
  role := .package
  directory := "lib".toList
  name := "caveat".toList
  backupDirectory := "run".toList
  backupName := "package".toList
  state := .original
  working := none
  rows := []

def someReviewed : Reviewed where
  runId := "run".toList
  runDirectory := "run".toList
  root := "root".toList
  binDirectory := "bin".toList
  contents := []
  manifestText _ _ := []

def someState : State quietHost where
  world := ()
  journal := { bytes := line someDoubles (headerOf somePlan someRunId) }
  saved := [⟨somePackage, (), none⟩]
  generated := []
  stopped := false
  shell := ⟨[], ⟨"shell".toList, "generated-shell".toList, .absent, none⟩⟩
  held := []
  attempted := false
  uncertain := false
  issued := []

theorem someState_initial : Initial someState where
  journal := .created (by decide) (by decide) length_someHeader
  objects o ho := by
    rw [List.mem_singleton.mp ho]
    exact ⟨rfl, rfl⟩
  files _ ho := absurd ho List.not_mem_nil
  manifest := rfl
  stopped := rfl
  attempted := rfl
  uncertain := rfl
  generated := rfl
  held := rfl
  issued := rfl

/-- The journal of a run, as it can be read. -/
def readBack (s : State quietHost) : Option ParsedJournal :=
  (parseGlobalMutationJournal quietHost.doubles quietHost.sha s.journal.bytes quietHost.plan).toOption

/-- The one original was moved, and its intent and its result were written. -/
def isRetained (s : State quietHost) : Bool :=
  s.issued.length = 1 && (readBack s).any (fun j => j.records.length = 2)

section

variable {host : Host} {α β : Type} {s : State host}

theorem bind_ok {x : Program host α} {f : α → Program host β} (a : α) (s' : State host)
    (h : x s = .ok a s') : (x >>= f) s = f a s' := by
  show EStateM.bind x f s = f a s'
  rw [EStateM.bind, h]

theorem append_ok {event : JournalEvent} {j : ParsedJournal} {f : JournalFile}
    (h : appendEvent host.doubles host.sha host.plan s.journal event (host.appendFault s.world).1 =
      (.ok j, f)) : append event s =
        .ok () { s with world := (host.appendFault s.world).2, journal := f } := by
  unfold append
  dsimp only
  rw [h]

theorem attempt_ok {x : Program host α} {a : α} {s' : State host} (h : x s = .ok a s') :
    attempt x s = .ok (.ok a) s' := by
  have hx : (do let a ← x; return (Except.ok a : Except Failure α) : Program host _) s = .ok (.ok a) s' :=
    bind_ok a s' h
  unfold attempt
  show EStateM.tryCatch _ _ s = _
  rw [EStateM.tryCatch, hx]

theorem readJournal_ok {j : ParsedJournal} (hread : outside host.readJournal s = .ok () s)
    (hopen : s.journal.failed = false)
    (hparse : parseGlobalMutationJournal host.doubles host.sha s.journal.bytes host.plan = .ok j) :
    readJournal s = .ok j s := by
  unfold readJournal
  refine Eq.trans (bind_ok () s hread) (Eq.trans (bind_ok s s (by rfl)) ?_)
  rw [if_neg (by rw [hopen]; exact Bool.false_ne_true), hparse]
  rfl

end

def someStep : Text := moveStep false somePackage

def someHeader : JsObject := headerOf somePlan someRunId

def someIntent : JournalEvent := .intent (unitsOf someStep) .retain somePlan

def someResult : JournalEvent := .result (unitsOf someStep) .retain .confirmed (some somePlan)

def someRows : List JsObject :=
  [recordOf 1 (someSha.hash (line someDoubles someHeader)) someIntent,
    recordOf 2 (someSha.hash []) someResult]

theorem length_someRows :
    ∀ v ∈ someHeader :: someRows, (line someDoubles v).length ≤ maxRecordBytes + 1 := by
  decide +kernel

theorem length_someJournal :
    (serialize someDoubles someHeader someRows).length ≤ maxJournalBytes := by
  decide +kernel

theorem isStep_someStep : isStep (unitsOf someStep) = true := by decide +kernel

theorem someIntent_legal : LegalJournal someDoubles someSha somePlan someHeader (someRows.take 1)
    [someIntent] (someSha.hash []) where
  planned := by decide
  headed := ⟨someRunId, by decide, .refl _⟩
  records := .snoc .nil (.refl _) ⟨isStep_someStep, by decide⟩ ⟨rfl, rfl, List.not_mem_nil⟩
  lines := by decide
  bound v hv := length_someRows v ((List.take_prefix 2 _).subset hv)

theorem someResult_legal : LegalJournal someDoubles someSha somePlan someHeader someRows
    [someIntent, someResult] (someSha.hash []) where
  planned := by decide
  headed := ⟨someRunId, by decide, .refl _⟩
  records := .snoc someIntent_legal.records (.refl _) ⟨isStep_someStep, somePlan, rfl, by decide⟩
    ⟨rfl, rfl⟩
  lines := by decide
  bound := length_someRows

/-- The states of a move, by the journal. -/
def someIntended (f : JournalFile) : State quietHost := { someState with journal := f }

def someMoved (f₁ f : JournalFile) : State quietHost :=
  { someState with
    journal := f
    saved := [⟨{ somePackage with state := .preserved }, (), none⟩]
    issued := [⟨.retain somePackage, someStep, f₁, [somePackage], someState.shell, true⟩] }

section
variable {f₁ f₂ : JournalFile} {j j₁ j₂ : ParsedJournal}

theorem verify_someIntended (f : JournalFile) : verify (someIntended f) = .ok () (someIntended f) := by
  unfold verify
  exact Eq.trans (bind_ok () (someIntended f) (by rfl)) (by rfl)

theorem verify_someMoved (f : JournalFile) :
    verify (someMoved f₁ f) = .ok () (someMoved f₁ f) := by
  unfold verify
  exact Eq.trans (bind_ok () (someMoved f₁ f) (by rfl)) (by rfl)

variable (h₁ : appendEvent someDoubles someSha somePlan someState.journal someIntent .none = (.ok j₁, f₁))
  (h₂ : appendEvent someDoubles someSha somePlan f₁ someResult .none = (.ok j₂, f₂))
  (hopen : f₁.failed = false)
  (hparse : parseGlobalMutationJournal someDoubles someSha f₁.bytes somePlan = .ok j)

include h₂ hopen hparse in
theorem record_someResult : record someReviewed someStep .retain .confirmed false none
    (someMoved f₁ f₁) = .ok () (someMoved f₁ f₂) := by
  unfold record
  refine Eq.trans (bind_ok j (someMoved f₁ f₁) (readJournal_ok (by rfl) hopen hparse)) ?_
  refine Eq.trans (bind_ok (someMoved f₁ f₁) (someMoved f₁ f₁) (by rfl)) ?_
  refine Eq.trans (bind_ok somePlan (someMoved f₁ f₁) (by rfl)) ?_
  exact append_ok (s := someMoved f₁ f₁) h₂

include h₂ hopen hparse in
theorem settle_someResult : settle someReviewed someStep .retain .confirmed none
    (someMoved f₁ f₁) = .ok .confirmed (someMoved f₁ f₂) := by
  unfold settle
  refine Eq.trans (bind_ok _ (someMoved f₁ f₂) (attempt_ok (record_someResult h₂ hopen hparse))) ?_
  dsimp only
  rw [if_neg (by decide)]
  exact Eq.trans (bind_ok _ (someMoved f₁ f₂) (attempt_ok (verify_someMoved f₂))) (by rfl)

theorem moveSaved_somePackage : moveSaved 0 false someStep (someIntended f₁) =
    .ok true (someMoved f₁ f₁) := by
  unfold moveSaved
  refine Eq.trans (bind_ok ⟨somePackage, (), none⟩ (someIntended f₁) (by rfl)) ?_
  dsimp only
  refine Eq.trans (bind_ok true { someIntended f₁ with issued :=
    [⟨.retain somePackage, someStep, f₁, [somePackage], someState.shell, true⟩] } (by rfl)) ?_
  rfl

include h₁ h₂ hopen hparse in
theorem move_somePackage : move someReviewed 0 false someState =
    .ok { status := .confirmed, resultRecorded := some true } (someMoved f₁ f₂) := by
  unfold move
  refine Eq.trans (bind_ok someState someState (by rfl)) ?_
  refine Eq.trans (bind_ok ⟨somePackage, (), none⟩ someState (by rfl)) ?_
  refine Eq.trans (bind_ok () someState (by rfl)) ?_
  refine Eq.trans (bind_ok _ someState (attempt_ok (verify_someIntended someState.journal))) ?_
  dsimp only
  refine Eq.trans (bind_ok someState someState (by rfl)) ?_
  refine Eq.trans (bind_ok () (someIntended f₁) (append_ok (s := someState) h₁)) ?_
  refine Eq.trans (bind_ok (.confirmed, none) (someMoved f₁ f₁)
    (Eq.trans (bind_ok _ (someMoved f₁ f₁) (attempt_ok moveSaved_somePackage)) (by rfl))) ?_
  exact Eq.trans (bind_ok Settled.confirmed (someMoved f₁ f₂) (settle_someResult h₂ hopen hparse)) (by rfl)

include h₁ h₂ hopen hparse in
theorem preserveAll_someState : preserveAll someReviewed someState =
    .ok { status := .preserved } (someMoved f₁ f₂) := by
  unfold preserveAll
  refine Eq.trans (bind_ok someState someState (by rfl)) ?_
  refine Eq.trans (bind_ok () someState (by rfl)) ?_
  show untilReturned _ _ [0] someState = _
  unfold untilReturned
  refine Eq.trans (bind_ok none (someMoved f₁ f₂) (Eq.trans (bind_ok _ (someMoved f₁ f₂)
    (move_somePackage h₁ h₂ hopen hparse)) (by rfl))) ?_
  rfl

end

theorem someHeader_legal : LegalJournal someDoubles someSha somePlan someHeader []
    [] (someSha.hash (line someDoubles someHeader)) where
  planned := by decide
  headed := ⟨someRunId, by decide, .refl _⟩
  records := .nil
  lines := by decide
  bound v hv := length_someRows v (List.mem_cons.mpr (.inl (List.mem_singleton.mp hv)))

theorem length_someIntended :
    (serialize someDoubles someHeader (someRows.take 1)).length ≤ maxJournalBytes := by
  decide +kernel

def someJournal (rows : List JsObject) : JournalFile :=
  { bytes := serialize someDoubles someHeader rows, attempted := rows }

theorem append_someIntent : ∃ j, appendEvent someDoubles someSha somePlan someState.journal someIntent
    .none = (.ok j, someJournal (someRows.take 1)) :=
  LegalJournal.appendEvent_ok (f := someState.journal) someHeader_legal rfl (List.append_nil _).symm
    someIntent_legal length_someIntended

theorem append_someResult : ∃ j, appendEvent someDoubles someSha somePlan
    (someJournal (someRows.take 1)) someResult .none = (.ok j, someJournal someRows) :=
  LegalJournal.appendEvent_ok (f := someJournal (someRows.take 1)) someIntent_legal rfl rfl
    someResult_legal length_someJournal

theorem retained_reached : ∃ s : State quietHost,
    Reaches (Preservation.step someReviewed) (fun _ _ => True) Initial s ∧ isRetained s = true := by
  obtain ⟨j₁, h₁⟩ := append_someIntent
  obtain ⟨j₂, h₂⟩ := append_someResult
  obtain ⟨st₁, hparse₁, -⟩ := someIntent_legal.parse (.inr rfl) List.not_mem_nil
    (by rw [List.nil_append, List.append_nil]) length_someIntended
  obtain ⟨st, hparse, hrecords, -⟩ := someResult_legal.parse (.inr rfl) List.not_mem_nil
    (by rw [List.nil_append, List.append_nil]) length_someJournal
  refine ⟨someMoved (someJournal (someRows.take 1)) (someJournal someRows),
    (Reaches.init someState_initial).tail (a := .preserveAll) trivial ?_, ?_⟩
  · show some (stateAfter (preserveAll someReviewed someState)) = _
    rw [preserveAll_someState h₁ h₂ rfl hparse₁]
    rfl
  · refine Bool.and_eq_true_iff.mpr ⟨rfl, ?_⟩
    unfold readBack
    show (parseGlobalMutationJournal someDoubles someSha (serialize someDoubles someHeader someRows)
      somePlan).toOption.any _ = true
    rw [hparse]
    show decide (st.records.length = 2) = true
    rw [hrecords]
    rfl

theorem issued_ne_nil_of_isRetained {s : State quietHost} (h : isRetained s = true) : s.issued ≠ [] := by
  obtain ⟨hone, -⟩ := Bool.and_eq_true_iff.mp h
  intro hnone
  rw [hnone] at hone
  exact absurd hone (by decide)

/-! ## Results -/

/--
**Mutations are made in turn.** In every run of the calls, whatever the guard, npm and the checks answer
and however appends end: when a mutation is asked for, its intent is the last record of the journal as it
can be read at that time, and all mutations before it were done and have confirmed results there. So
nothing is asked for behind a mutation of which it is not known that it was done.
-/
theorem mutations_in_turn (h : Reaches (Preservation.step r) (fun _ _ => True) Initial s) :
    InTurn host s.issued :=
  (sound_of_reaches h).choose_spec.inTurn

/-- The law for the move of one original. -/
theorem mutations_in_turn_retained : ∃ s : State quietHost, s.issued ≠ [] ∧
    InTurn quietHost s.issued := by
  obtain ⟨s, hs, htest⟩ := retained_reached
  exact ⟨s, issued_ne_nil_of_isRetained htest, mutations_in_turn hs⟩

/--
**A confirmed result was done.** In every run, each confirmed result that can be read in the journal, or
in what a crash leaves of it, stands for one mutation that was asked for under its step and was done.
-/
theorem confirmed_results_done (h : Reaches (Preservation.step r) (fun _ _ => True) Initial s)
    {j : ParsedJournal}
    (hparse : parseGlobalMutationJournal host.doubles host.sha s.journal.bytes host.plan = .ok j) :
    ∃ es, RecordsOf j.records es ∧ ∀ step operation stateSha256,
      .result step operation .confirmed stateSha256 ∈ es → Done s.issued step := by
  obtain ⟨es, hrecorded⟩ := sound_of_reaches h
  obtain ⟨es', hcut, hrecords⟩ := hrecorded.written.parse_cut hparse
  exact ⟨es', hrecords, fun step operation stateSha256 hmem =>
    hrecorded.confirmed step operation stateSha256 (hcut.subset hmem)⟩

/-- The law for the two records of one move. -/
theorem confirmed_results_done_retained : ∃ (s : State quietHost) (j : ParsedJournal),
    j.records.length = 2 ∧ ∃ es, RecordsOf j.records es ∧ ∀ step operation stateSha256,
      .result step operation .confirmed stateSha256 ∈ es → Done s.issued step := by
  obtain ⟨s, hs, htest⟩ := retained_reached
  obtain ⟨-, hread⟩ := Bool.and_eq_true_iff.mp htest
  unfold readBack at hread
  cases hparse : parseGlobalMutationJournal quietHost.doubles quietHost.sha s.journal.bytes
      quietHost.plan with
  | error e =>
      rw [hparse] at hread
      cases hread
  | ok j =>
      rw [hparse] at hread
      exact ⟨s, j, of_decide_eq_true hread, confirmed_results_done hs hparse⟩

end Caveat.Managed.Preservation
