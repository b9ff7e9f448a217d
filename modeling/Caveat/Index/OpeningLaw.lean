import Caveat.Index.OpeningProof

/-!
# Openings recover

A file of an older version is brought up by one process for each migration; the others stop at its first
column. With the new files this gives the law: an opening recovers wherever processes died, but in the
middle of `schema.sql` or of a migration.
-/

namespace Caveat.Index.Opening

open Js Entry Lib

variable {host : Host} {start db : Database} {Proc : Type} [DecidableEq Proc] {w w' : World Proc}

/-! ## A file of an older version -/

def isBoundary (k : Nat) : Bool := k = 0 || k = 2 || k = 5

/-- What a process is at, when the file has the schema of place `k`. -/
inductive OldPhase (host : Host) (start : Database) (k : Nat) : Phase → Prop
  | start : OldPhase host start k .start
  | finished {phase : Phase} (h : phase.finished = true) : OldPhase host start k phase
  | script (j : Nat) (hj : j ≤ 5) (h : j = k ∨ j ≤ k ∧ isBoundary j = true) :
      OldPhase host start k (.script ((applyMigrations 1).drop j) true)
  | backfill {left : List Statement} (h : k = 5) (hleft : ∀ st ∈ left, Fills host start st) :
      OldPhase host start k (.backfill left)

theorem place_migrations {j : Nat} (hj : j ≤ 5) (backfills : Bool) :
    (Phase.script ((applyMigrations 1).drop j) backfills).place 5 = j := by
  have hlength : ((applyMigrations 1).drop j).length = 5 - j := List.length_drop
  rw [Phase.place, hlength]
  omega

/-- In the middle of a migration one process is at work, and it knows it. -/
structure OldInv (host : Host) (start : Database) (w : World Proc) (k : Nat) : Prop where
  bound : k ≤ 5
  db : ∃ done, w.db = ⟨oldSchema k, filled host start done⟩
  phase : ∀ p, OldPhase host start k (w.phase p)
  single : ∀ p q, isBoundary ((w.phase p).place 5) = false → isBoundary ((w.phase q).place 5) = false →
    p = q
  held : isBoundary k = false → ∃ p, w.phase p = .script ((applyMigrations 1).drop k) true

/-- A process that is in the middle of a migration is where the file is. -/
theorem OldPhase.place_eq {k : Nat} {phase : Phase} (h : OldPhase host start k phase)
    (hplace : isBoundary (phase.place 5) = false) : phase.place 5 = k := by
  cases h with
  | start => exact absurd hplace (by decide)
  | finished hfinished =>
      rw [place_of_finished hfinished] at hplace
      exact absurd hplace (by decide)
  | backfill _ _ => exact absurd hplace (by simp [Phase.place, isBoundary])
  | script j hj hjk =>
      rw [place_migrations hj] at hplace ⊢
      rcases hjk with heq | ⟨_, hboundary⟩
      · exact heq
      · rw [hboundary] at hplace
        exact absurd hplace (by simp)

/-- Only a process in the middle of a migration may not be overtaken. -/
theorem OldPhase.mono {k : Nat} {phase : Phase} (h : OldPhase host start k phase) (hk : k < 5)
    (hplace : isBoundary (phase.place 5) = true) : OldPhase host start (k + 1) phase := by
  cases h with
  | start => exact .start
  | finished h => exact .finished h
  | backfill h _ => omega
  | script j hj hjk =>
      rw [place_migrations hj] at hplace
      exact .script j hj (.inr ⟨by omega, hplace⟩)

/-- A process goes on, and the schema stays. -/
theorem OldInv.stay {k : Nat} {p : Proc} {next : Phase} {done : Nat → Bool} (h : OldInv host start w k)
    (hnext : OldPhase host start k next) (hplace : isBoundary (next.place 5) = true)
    (hat : isBoundary k = false → w.phase p ≠ .script ((applyMigrations 1).drop k) true) :
    OldInv host start ({ w with db := ⟨oldSchema k, filled host start done⟩ }.setPhase p next) k where
  bound := h.bound
  db := ⟨done, rfl⟩
  phase q := by
    by_cases hq : q = p
    · rw [hq, setPhase_self]
      exact hnext
    · rw [setPhase_of_ne _ hq]
      exact h.phase q
  single q q' := by
    intro h1 h2
    by_cases hq : q = p
    · rw [hq, setPhase_self, hplace] at h1
      exact absurd h1 (by simp)
    · by_cases hq' : q' = p
      · rw [hq', setPhase_self, hplace] at h2
        exact absurd h2 (by simp)
      · rw [setPhase_of_ne _ hq] at h1
        rw [setPhase_of_ne _ hq'] at h2
        exact h.single q q' h1 h2
  held hmid := by
    obtain ⟨q, hq⟩ := h.held hmid
    have hne : q ≠ p := by
      rintro rfl
      exact hat hmid hq
    exact ⟨q, by rw [setPhase_of_ne _ hne]; exact hq⟩

/-- The process that is where the file is goes on, and the file with it. -/
theorem OldInv.forward {k : Nat} {p : Proc} {done : Nat → Bool} (h : OldInv host start w k) (hk : k < 5)
    (hat : w.phase p = .script ((applyMigrations 1).drop k) true) :
    OldInv host start ({ w with db := ⟨oldSchema (k + 1), filled host start done⟩ }.setPhase p
      (.script ((applyMigrations 1).drop (k + 1)) true)) (k + 1) := by
  have hpplace : (w.phase p).place 5 = k := by
    rw [hat, place_migrations (by omega)]
  have hothers : ∀ q ≠ p, isBoundary ((w.phase q).place 5) = true := by
    intro q hne
    by_contra hq
    rw [Bool.not_eq_true] at hq
    have hqplace := (h.phase q).place_eq hq
    refine hne (h.single q p hq ?_)
    rw [hpplace, ← hqplace]
    exact hq
  refine ⟨hk, ⟨done, rfl⟩, fun q => ?_, fun q q' h1 h2 => ?_, fun _ => ⟨p, setPhase_self ..⟩⟩
  · by_cases hq : q = p
    · rw [hq, setPhase_self]
      exact .script (k + 1) (by omega) (.inl rfl)
    · rw [setPhase_of_ne _ hq]
      exact (h.phase q).mono hk (hothers q hq)
  · have hself : ∀ q, isBoundary (((({ w with db := ⟨oldSchema (k + 1), filled host start done⟩ } :
        World Proc).setPhase p (.script ((applyMigrations 1).drop (k + 1)) true)).phase q).place 5) =
        false → q = p := by
      intro q hq
      by_contra hne
      rw [setPhase_of_ne _ hne, hothers q hne] at hq
      exact absurd hq (by simp)
    rw [hself q h1, hself q' h2]

variable (host) in
/-- The first look of a process at a file of an older version. -/
theorem advance_start_old {k : Nat} (hk : k ≤ 5) (rows : List StoredEntry) :
    ∃ j ≤ k, isBoundary j = true ∧ advance host ⟨oldSchema k, rows⟩ .start =
      some (⟨oldSchema k, rows⟩, .script ((applyMigrations 1).drop j) true) := by
  have hcases : k = 0 ∨ k = 1 ∨ k = 2 ∨ k = 3 ∨ k = 4 ∨ k = 5 := by omega
  rcases hcases with rfl | rfl | rfl | rfl | rfl | rfl
  · exact ⟨0, by omega, rfl, rfl⟩
  · exact ⟨0, by omega, rfl, rfl⟩
  · exact ⟨2, by omega, rfl, rfl⟩
  · exact ⟨2, by omega, rfl, rfl⟩
  · exact ⟨2, by omega, rfl, rfl⟩
  · exact ⟨5, by omega, rfl, rfl⟩

/-- The next statement of a migration, where other processes may have been faster. -/
theorem advance_migrations {k j : Nat} (hk : k ≤ 5) (hj : j < 5)
    (hjk : j = k ∨ j ≤ k ∧ isBoundary j = true) (rows : List StoredEntry) :
    advance host ⟨oldSchema k, rows⟩ (.script ((applyMigrations 1).drop j) true) =
      if j = k then
        some (⟨oldSchema (k + 1), rows⟩, .script ((applyMigrations 1).drop (k + 1)) true)
      else some (⟨oldSchema k, rows⟩, .threw) := by
  have hlt : j < (applyMigrations 1).length := hj
  have hdrop : (applyMigrations 1).drop j =
      (applyMigrations 1)[j] :: (applyMigrations 1).drop (j + 1) := List.drop_eq_getElem_cons hlt
  have hplace : j = k ∨ j ≤ k ∧ (j = 0 ∨ j = 2) := by
    refine hjk.imp_right fun h => ⟨h.1, ?_⟩
    have hboundary : ∀ j < 5, isBoundary j = true → j = 0 ∨ j = 2 := by decide
    exact hboundary j hj h.2
  have hchange := migrations_change k hk j hj hplace
  rw [List.getElem?_eq_getElem hlt, Option.bind_some] at hchange
  rw [hdrop]
  show some (runStatement _ _ _) = _
  rw [runStatement, Statement.exec, write_migrations _ (List.getElem_mem hlt)]
  dsimp only
  rw [hchange]
  by_cases heq : j = k
  · rw [if_pos heq, if_pos heq, heq]
    rfl
  · rw [if_neg heq, if_neg heq]
    rfl

/-- **A step of a process**, on a file of an older version. -/
theorem OldInv.advance {k : Nat} {p : Proc} (hstart : Start start) (h : OldInv host start w k)
    (hstep : step host w (.advance p) = some w') : ∃ k', OldInv host start w' k' := by
  obtain ⟨db, phase, hadvance, rfl⟩ := step_advance hstep
  have hphase := h.phase p
  have hbound := h.bound
  obtain ⟨done, hdb⟩ := h.db
  rw [hdb] at hadvance
  cases hat : w.phase p with
  | start =>
      obtain ⟨j, hjk, hboundary, hrun⟩ := advance_start_old host hbound (filled host start done)
      rw [hat, hrun] at hadvance
      obtain ⟨rfl, rfl⟩ := Prod.mk.inj (Option.some.inj hadvance)
      refine ⟨k, h.stay (.script j (by omega) (.inr ⟨hjk, hboundary⟩)) ?_ fun _ => ?_⟩
      · rw [place_migrations (by omega)]
        exact hboundary
      · rw [hat]
        simp
  | script left backfills =>
      rw [hat] at hadvance hphase
      cases hphase with
      | finished hfinished => exact absurd hfinished (by simp [Phase.finished])
      | script j hj hplace =>
          by_cases h5 : j = 5
          · -- the migrations are done, and the rows without role texts are selected
            obtain rfl : k = 5 := by omega
            subst h5
            obtain ⟨rfl, rfl⟩ := Prod.mk.inj (Option.some.inj hadvance)
            exact ⟨5, h.stay (.backfill rfl fun st hst => backfill_fills hst) rfl
              fun hmid => absurd hmid (by decide)⟩
          · rw [advance_migrations hbound (by omega) hplace] at hadvance
            by_cases heq : j = k
            · rw [if_pos heq] at hadvance
              obtain ⟨rfl, rfl⟩ := Prod.mk.inj (Option.some.inj hadvance)
              exact ⟨k + 1, h.forward (by omega) (heq ▸ hat)⟩
            · rw [if_neg heq] at hadvance
              obtain ⟨rfl, rfl⟩ := Prod.mk.inj (Option.some.inj hadvance)
              refine ⟨k, h.stay (.finished rfl) rfl fun _ hsame => heq ?_⟩
              have hpplace := congrArg (Phase.place 5) (hat.symm.trans hsame)
              rwa [place_migrations hj, place_migrations hbound] at hpplace
  | backfill left =>
      rw [hat] at hadvance hphase
      have hnot : isBoundary k = false → w.phase p ≠ .script ((applyMigrations 1).drop k) true := by
        intro _
        rw [hat]
        simp
      cases hphase with
      | finished hfinished => exact absurd hfinished (by simp [Phase.finished])
      | backfill h5 hleft =>
          cases left with
          | nil =>
              obtain ⟨rfl, rfl⟩ := Prod.mk.inj (Option.some.inj hadvance)
              exact ⟨k, h.stay (.finished rfl) rfl hnot⟩
          | cons st left =>
              subst h5
              obtain ⟨r, hr, hnone, rfl⟩ := hleft st List.mem_cons_self
              have hexec : (Statement.setRoleTexts r.rowid (r.roleTexts host)).exec
                  ⟨oldSchema 5, filled host start done⟩ =
                  some ⟨oldSchema 5, filled host start (fun n => done n || n = r.rowid)⟩ := by
                rw [Statement.exec, write_filled hstart hr hnone]
                rfl
              have hrun : Opening.advance host ⟨oldSchema 5, filled host start done⟩
                  (.backfill (.setRoleTexts r.rowid (r.roleTexts host) :: left)) =
                  some (⟨oldSchema 5, filled host start (fun n => done n || n = r.rowid)⟩,
                    .backfill left) := by
                rw [Opening.advance, runStatement, hexec]
              rw [hrun] at hadvance
              obtain ⟨rfl, rfl⟩ := Prod.mk.inj (Option.some.inj hadvance)
              exact ⟨5, h.stay (.backfill rfl fun st hst => hleft st (List.mem_cons_of_mem _ hst)) rfl
                hnot⟩
  | _ =>
      rw [hat, advance_finished rfl] at hadvance
      exact absurd hadvance (by simp)

theorem inside_migrations : ∀ k ≤ 5, (Phase.script ((applyMigrations 1).drop k) true).inside =
    !isBoundary k := by
  decide

/-- A process dies between its scripts. -/
theorem OldInv.die {k : Nat} {p : Proc} (h : OldInv host start w k)
    (hp : (w.phase p).inside = false) : OldInv host start (w.setPhase p .died) k := by
  obtain ⟨done, hdb⟩ := h.db
  have hsame : ({ w with db := ⟨oldSchema k, filled host start done⟩ } : World Proc) = w := by
    rw [← hdb]
  rw [← hsame]
  refine h.stay (.finished rfl) rfl fun hmid heq => ?_
  rw [heq, inside_migrations k h.bound, hmid] at hp
  exact absurd hp (by simp)

/-! ## The law -/

/-- A file that processes open: a new one, or one of an older version. -/
def Known (host : Host) (start : Database) (w : World Proc) : Prop :=
  start.rows = [] ∧ (∃ k, NewInv w k) ∨ ∃ k, OldInv host start w k

omit [DecidableEq Proc] in
theorem known_begins (hstart : Start start) (h : Begins start w) : Known host start w := by
  obtain ⟨hdb, hphase⟩ := h
  have hold : ∀ k ≤ 5, isBoundary k = true → start.schema = oldSchema k → Known host start w := by
    intro k hk hboundary hschema
    refine .inr ⟨k, hk, ⟨fun _ => false, ?_⟩, fun p => hphase p ▸ .start, fun p q hp => ?_, fun hmid => ?_⟩
    · rw [hdb, filled_none, ← hschema]
    · rw [hphase] at hp
      exact absurd hp (by decide)
    · rw [hboundary] at hmid
      exact absurd hmid (by simp)
  have hschema := hstart.schema
  simp only [List.mem_cons, List.not_mem_nil, or_false] at hschema
  rcases hschema with hempty | hfirst | hsecond | hcurrent
  · refine .inl ⟨hstart.empty hempty, 0, by omega, ?_, fun p => hphase p ▸ .start, fun p q hp => ?_,
      fun hone => by omega⟩
    · have hrows : start = ⟨start.schema, start.rows⟩ := rfl
      rw [hdb, hrows, hempty, hstart.empty hempty]
      rfl
    · rw [hphase] at hp
      exact absurd hp (by simp [Phase.place])
  · exact hold 0 (by omega) rfl hfirst
  · exact hold 2 (by omega) rfl hsecond
  · exact hold 5 (by omega) rfl hcurrent

theorem known_step (hstart : Start start) {a : Action Proc} (h : Known host start w)
    (hok : DiesBetween w a) (hstep : step host w a = some w') : Known host start w' := by
  cases a with
  | advance p =>
      rcases h with ⟨hempty, k, hinv⟩ | ⟨k, hinv⟩
      · exact .inl ⟨hempty, hinv.advance hstep⟩
      · exact .inr (hinv.advance hstart hstep)
  | die p =>
      obtain rfl := Option.some.inj hstep
      rcases h with ⟨hempty, k, hinv⟩ | ⟨k, hinv⟩
      · exact .inl ⟨hempty, k, hinv.die hok⟩
      · exact .inr ⟨k, hinv.die hok⟩

omit [DecidableEq Proc] in
/-- A file at which no process is in the middle of a script can be opened. -/
theorem Known.recovers (hstart : Start start) (h : Known host start w)
    (houtside : ∀ p, (w.phase p).inside = false) : Recovers host start w.db := by
  rcases h with ⟨hempty, k, hinv⟩ | ⟨k, hinv⟩
  · rw [hinv.db, recovers_newSchema hempty hinv.bound]
    by_contra hmid
    obtain ⟨p, hp | ⟨h6, _⟩⟩ := hinv.held (by omega)
    · have hbound := hinv.bound
      have hinside := houtside p
      rw [hp, inside_schemaSql (by omega) (by omega)] at hinside
      exact absurd hinside (by simp)
    · omega
  · obtain ⟨done, hdb⟩ := hinv.db
    rw [hdb, recovers_oldSchema hstart hinv.bound]
    by_contra hmid
    have hboundary : isBoundary k = false := by
      simp only [isBoundary, Bool.or_eq_false_iff, decide_eq_false_iff_not]
      omega
    obtain ⟨p, hp⟩ := hinv.held hboundary
    have hinside := houtside p
    rw [hp, inside_migrations k hinv.bound, hboundary] at hinside
    exact absurd hinside (by simp)

/-- A process that is alone in the middle of a script leaves a file that cannot be opened. -/
theorem Known.stuck {w : World Unit} (hstart : Start start) (h : Known host start w)
    (hinside : (w.phase ()).inside = true) : ¬ Recovers host start w.db := by
  rcases h with ⟨hempty, k, hinv⟩ | ⟨k, hinv⟩
  · have hphase := hinv.phase ()
    have hbound := hinv.bound
    rw [hinv.db, recovers_newSchema hempty hbound]
    generalize hat : w.phase () = phase at hphase hinside
    cases hphase with
    | start => exact absurd hinside (by simp [Phase.inside])
    | backfill => exact absurd hinside (by simp [Phase.inside])
    | migrated _ => exact absurd hinside (by decide)
    | finished hfinished => cases phase <;> simp [Phase.finished, Phase.inside] at hfinished hinside
    | script j hj hplace =>
        have hends : ∀ j ≤ 6, (Phase.script (schemaSql.drop j) false).inside = true → j ≠ 0 ∧ j ≠ 6 := by
          decide
        have hj' := hends j hj hinside
        -- the process itself has done what is done
        have hat_k : j = k := by
          obtain ⟨⟨⟩, hp | ⟨_, hp⟩⟩ := hinv.held (by omega)
          · have heq := congrArg (Phase.place 6) (hat.symm.trans hp)
            rwa [place_schemaSql hj, place_schemaSql hbound] at heq
          · rw [hat] at hp
            exact absurd hp (by simp [Phase.finished])
        omega
  · have hphase := hinv.phase ()
    have hbound := hinv.bound
    obtain ⟨done, hdb⟩ := hinv.db
    rw [hdb, recovers_oldSchema hstart hbound]
    generalize hat : w.phase () = phase at hphase hinside
    cases hphase with
    | start => exact absurd hinside (by simp [Phase.inside])
    | backfill _ _ => exact absurd hinside (by simp [Phase.inside])
    | finished hfinished => cases phase <;> simp [Phase.finished, Phase.inside] at hfinished hinside
    | script j hj hplace =>
        rw [inside_migrations j hj] at hinside
        simp only [isBoundary, Bool.not_eq_true', Bool.or_eq_false_iff, decide_eq_false_iff_not]
          at hinside hplace
        rcases hplace with rfl | ⟨_, hboundary⟩
        · omega
        · simp [hinside] at hboundary

/--
**Openings recover.** Any number of processes open a file that is new, or of an older version or the
current one, and none dies in the middle of `schema.sql` or of a migration. Once none is in the middle
of one, a later `openDb` succeeds with the current schema and all rows. A process that opens the file
alone leaves such a file at a point if and only if it is not in the middle of one there.
-/
theorem openings_recover (host : Host) (start : Database) (hstart : Start start) :
    (∀ (Proc : Type) [DecidableEq Proc] (w : World Proc),
      Reaches (step host) DiesBetween (Begins start) w → (∀ p, (w.phase p).inside = false) →
        Recovers host start w.db) ∧
    ∀ w : World Unit, Reaches (step host) DiesBetween (Begins start) w →
      (Recovers host start w.db ↔ (w.phase ()).inside = false) := by
  have hknown : ∀ {Proc : Type} [DecidableEq Proc] {w : World Proc},
      Reaches (step host) DiesBetween (Begins start) w → Known host start w := by
    intro Proc _ w h
    exact h.invariant (fun s hs => known_begins hstart hs)
      fun s a s' hs hok hstep => known_step hstart hs hok hstep
  refine ⟨fun Proc _ w h houtside => (hknown h).recovers hstart houtside, fun w h => ⟨fun hrec => ?_,
    fun houtside => (hknown h).recovers hstart fun _ => houtside⟩⟩
  by_contra hinside
  rw [Bool.not_eq_false] at hinside
  exact (hknown h).stuck hstart hinside hrec

def emptyFile : Database := ⟨emptySchema, []⟩

theorem start_emptyFile : Start emptyFile where
  schema := List.mem_cons_self
  empty _ := rfl
  rowids := List.nodup_nil

/-- The law of an empty file. -/
theorem openings_recover_empty :
    (∀ (Proc : Type) [DecidableEq Proc] (w : World Proc),
      Reaches (step flatHost) DiesBetween (Begins emptyFile) w → (∀ p, (w.phase p).inside = false) →
        Recovers flatHost emptyFile w.db) ∧
    ∀ w : World Unit, Reaches (step flatHost) DiesBetween (Begins emptyFile) w →
      (Recovers flatHost emptyFile w.db ↔ (w.phase ()).inside = false) :=
  openings_recover flatHost emptyFile start_emptyFile

/-- A process that opens an empty file dies behind the first statement of `schema.sql`. -/
theorem dead_opening_stuck : ∃ (host : Host) (start : Database) (w : World Unit), Start start ∧
    Reaches (step host) (fun _ _ => True) (Begins start) w ∧ w.phase () = .died ∧
    ¬ Recovers host start w.db := by
  have hbegins : Reaches (step flatHost) (fun _ _ => True) (Begins emptyFile)
      (⟨emptyFile, fun _ => .start⟩ : World Unit) := .init ⟨rfl, fun _ => rfl⟩
  have hlooked := hbegins.act (.advance ()) trivial rfl
  have hversion := hlooked.act (.advance ()) trivial rfl
  have hdied := hversion.act (.die ()) trivial rfl
  refine ⟨flatHost, emptyFile, _, start_emptyFile, hdied, setPhase_self .., fun hrec => ?_⟩
  have h1 : Recovers flatHost emptyFile ⟨newSchema 1, []⟩ := hrec
  rw [recovers_newSchema rfl (by omega)] at h1
  omega

end Caveat.Index.Opening
