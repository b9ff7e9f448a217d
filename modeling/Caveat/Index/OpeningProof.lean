import Caveat.Index.Opening

/-!
# Which openings can be repeated

The version is set before the tables of a new file are there, and after the columns of a migration. A
process that dies in between leaves a file that a later `openDb` takes for complete, or whose columns it
cannot add again. Processes that overlap do no harm: what one of them has created stops the others, and
it goes on by itself.
-/

namespace Caveat.Index.Opening

open Js Entry Lib

variable {host : Host} {start db db' : Database}

/-! ## The schemas on the way -/

/-- The schema after the first statements of `schema.sql`. -/
def newSchema : Nat → Schema
  | 0 => emptySchema
  | 1 => ⟨3, none, false, []⟩
  | 2 => ⟨3, some [.lastHitAt, .topicalText, .symptomText], false, []⟩
  | 3 => ⟨3, some [.lastHitAt, .topicalText, .symptomText], true, []⟩
  | 4 => ⟨3, some [.lastHitAt, .topicalText, .symptomText], true, [.afterInsert]⟩
  | 5 => ⟨3, some [.lastHitAt, .topicalText, .symptomText], true, [.afterInsert, .afterDelete]⟩
  | _ => currentSchema

/-- The schema after the first statements of the migrations behind version 1. -/
def oldSchema : Nat → Schema
  | 0 => versionSchema 1 []
  | 1 => versionSchema 1 [.lastHitAt]
  | 2 => versionSchema 2 [.lastHitAt]
  | 3 => versionSchema 2 [.lastHitAt, .topicalText]
  | 4 => versionSchema 2 [.lastHitAt, .topicalText, .symptomText]
  | _ => currentSchema

theorem schemaSql_change : ∀ k ≤ 6, ∀ j < 6, j ≤ k →
    (schemaSql[j]?).bind (Statement.change (newSchema k)) =
      if j = 0 then some (newSchema (max k 1)) else if j = k then some (newSchema (k + 1)) else none := by
  decide

/-- A migration's statement, where an earlier process is ahead, or not. -/
theorem migrations_change : ∀ k ≤ 5, ∀ j < 5, j = k ∨ j ≤ k ∧ (j = 0 ∨ j = 2) →
    ((applyMigrations 1)[j]?).bind (Statement.change (oldSchema k)) =
      if j = k then some (oldSchema (k + 1)) else none := by
  decide

theorem write_schemaSql : ∀ st ∈ schemaSql, ∀ rows, st.write rows = rows := by
  simp [schemaSql, Statement.write]

theorem write_migrations : ∀ st ∈ applyMigrations 1, ∀ rows, st.write rows = rows := by
  simp [applyMigrations, migrations, Statement.write]

/-! ## Role texts -/

/-- The rows of the start, some of them with their role texts. -/
def filled (host : Host) (start : Database) (done : Nat → Bool) : List StoredEntry :=
  start.rows.map (fun r => if done r.rowid then r.complete host else r)

theorem filled_none (host : Host) (start : Database) : filled host start (fun _ => false) = start.rows := by
  simp [filled]

theorem rowid_complete (r : StoredEntry) : (r.complete host).rowid = r.rowid := by
  unfold StoredEntry.complete
  split <;> rfl

/-- An update that belongs to a row of the start. -/
def Fills (host : Host) (start : Database) (st : Statement) : Prop :=
  ∃ r ∈ start.rows, r.topicalText = none ∧ st = .setRoleTexts r.rowid (r.roleTexts host)

theorem eq_of_rowid (h : Start start) {r r' : StoredEntry} (hr : r ∈ start.rows) (hr' : r' ∈ start.rows)
    (heq : r.rowid = r'.rowid) : r = r' :=
  List.inj_on_of_nodup_map h.rowids hr hr' heq

theorem complete_idem {r : StoredEntry} (hnone : r.topicalText = none) :
    (r.complete host).withTexts (r.roleTexts host) = r.complete host := by
  rw [StoredEntry.complete, hnone]
  rfl

theorem write_setRoleTexts (rows : List StoredEntry) (rowid : Nat) (texts : RoleTexts) :
    (Statement.setRoleTexts rowid texts).write rows =
      rows.map (fun r => if r.rowid = rowid then r.withTexts texts else r) := rfl

/-- **An update** completes one row. -/
theorem write_filled (h : Start start) {r : StoredEntry} (hr : r ∈ start.rows)
    (hnone : r.topicalText = none) (done : Nat → Bool) :
    (Statement.setRoleTexts r.rowid (r.roleTexts host)).write (filled host start done) =
      filled host start (fun n => done n || n = r.rowid) := by
  rw [write_setRoleTexts, filled, filled, List.map_map]
  refine List.map_congr_left fun r' hr' => ?_
  dsimp only [Function.comp]
  by_cases hrow : r'.rowid = r.rowid
  · obtain rfl := eq_of_rowid h hr' hr hrow
    by_cases hdone : done r'.rowid = true
    · simp [hdone, rowid_complete, complete_idem hnone]
    · simp [hdone, StoredEntry.complete, hnone]
  · by_cases hdone : done r'.rowid = true
    · simp [hdone, rowid_complete, hrow]
    · simp [hdone, hrow]

theorem filled_congr {done done' : Nat → Bool}
    (h : ∀ r ∈ start.rows, r.topicalText = none → done r.rowid = done' r.rowid) :
    filled host start done = filled host start done' := by
  refine List.map_congr_left fun r hr => ?_
  cases htopical : r.topicalText with
  | none => rw [h r hr htopical]
  | some t => simp [StoredEntry.complete, htopical]

/-- Updates of rows of the start complete their rows. -/
theorem execAll_fills (h : Start start) {left : List Statement} (hleft : ∀ st ∈ left, Fills host start st)
    (done : Nat → Bool) : ∃ done', execAll left ⟨currentSchema, filled host start done⟩ =
      some ⟨currentSchema, filled host start done'⟩ ∧ (∀ n, done n = true → done' n = true) ∧
      ∀ rowid texts, .setRoleTexts rowid texts ∈ left → done' rowid = true := by
  induction left generalizing done with
  | nil => exact ⟨done, rfl, fun _ h => h, fun _ _ h => absurd h (by simp)⟩
  | cons st left ih =>
      obtain ⟨r, hr, hnone, rfl⟩ := hleft st List.mem_cons_self
      obtain ⟨done', hrun, hmono, hall⟩ :=
        ih (fun st hst => hleft st (List.mem_cons_of_mem _ hst)) (fun n => done n || n = r.rowid)
      refine ⟨done', ?_, fun n hn => hmono n (by simp [hn]), fun rowid texts hmem => ?_⟩
      · have hexec : (Statement.setRoleTexts r.rowid (r.roleTexts host)).exec
            ⟨currentSchema, filled host start done⟩ =
            some ⟨currentSchema, filled host start (fun n => done n || n = r.rowid)⟩ := by
          rw [Statement.exec, write_filled h hr hnone]
          rfl
        rw [execAll, hexec]
        exact hrun
      · rcases List.mem_cons.mp hmem with heq | hmem
        · obtain ⟨rfl, _⟩ := Statement.setRoleTexts.inj heq
          exact hmono _ (by simp)
        · exact hall rowid texts hmem

/-- What is selected belongs to rows that are still without. -/
theorem backfill_fills {done : Nat → Bool} {schema : Schema} {st : Statement}
    (hst : st ∈ backfillRoleTexts host ⟨schema, filled host start done⟩) : Fills host start st := by
  unfold backfillRoleTexts at hst
  split at hst
  · obtain ⟨r, hr, rfl⟩ := List.mem_map.mp hst
    obtain ⟨hr, hnone⟩ := List.mem_filter.mp hr
    obtain ⟨r', hr', rfl⟩ := List.mem_map.mp hr
    by_cases hdone : done r'.rowid = true
    · rw [if_pos hdone] at hnone
      cases htopical : r'.topicalText with
      | none => simp [StoredEntry.complete, htopical, StoredEntry.withTexts] at hnone
      | some t => simp [StoredEntry.complete, htopical] at hnone
    · simp only [if_neg hdone] at hnone ⊢
      exact ⟨r', hr', by simpa using hnone, rfl⟩
  · exact absurd hst (by simp)

/-- **The backfill** completes every row. -/
theorem execAll_backfill (h : Start start) (done : Nat → Bool) :
    execAll (backfillRoleTexts host ⟨currentSchema, filled host start done⟩)
      ⟨currentSchema, filled host start done⟩ =
      some ⟨currentSchema, start.rows.map (StoredEntry.complete host)⟩ := by
  obtain ⟨done', hrun, hmono, hall⟩ := execAll_fills h (fun st hst => backfill_fills hst) done
  rw [hrun]
  have hcomplete : filled host start done' = start.rows.map (StoredEntry.complete host) := by
    have hevery : filled host start done' = filled host start (fun _ => true) := by
      refine filled_congr fun r hr hnone => ?_
      by_cases hdone : done r.rowid = true
      · exact hmono _ hdone
      · refine hall r.rowid (r.roleTexts host) ?_
        have hmem : r ∈ filled host start done :=
          List.mem_map.mpr ⟨r, hr, by rw [if_neg hdone]⟩
        have hselected : backfillRoleTexts host ⟨currentSchema, filled host start done⟩ =
            ((filled host start done).filter (·.topicalText.isNone)).map
              (fun r => .setRoleTexts r.rowid (r.roleTexts host)) := rfl
        rw [hselected]
        exact List.mem_map.mpr ⟨r, List.mem_filter.mpr ⟨hmem, by simp [hnone]⟩, rfl⟩
    rw [hevery]
    simp [filled]
  rw [hcomplete]

/-! ## What is left on the way -/

theorem recovers_newSchema (hempty : start.rows = []) {k : Nat} (hk : k ≤ 6) :
    Recovers host start ⟨newSchema k, []⟩ ↔ k = 0 ∨ k = 6 := by
  have hopened : ∀ k, 1 ≤ k → k ≤ 6 → openDb host ⟨newSchema k, []⟩ = some ⟨newSchema k, []⟩ := by
    intro k h1 h6
    have hcases : k = 1 ∨ k = 2 ∨ k = 3 ∨ k = 4 ∨ k = 5 ∨ k = 6 := by omega
    rcases hcases with rfl | rfl | rfl | rfl | rfl | rfl <;> rfl
  have hother : ∀ k < 6, newSchema k ≠ currentSchema := by decide
  unfold Recovers
  rw [hempty]
  constructor
  · rintro ⟨db', hopen, hschema, _⟩
    by_cases h0 : k = 0
    · exact .inl h0
    · by_cases h6 : k = 6
      · exact .inr h6
      · rw [hopened k (by omega) hk] at hopen
        obtain rfl := Option.some.inj hopen
        exact absurd hschema (hother k (by omega))
  · rintro (rfl | rfl)
    · exact ⟨⟨currentSchema, []⟩, rfl, rfl, rfl⟩
    · exact ⟨⟨currentSchema, []⟩, rfl, rfl, rfl⟩

theorem recovers_oldSchema (h : Start start) {k : Nat} (hk : k ≤ 5) (done : Nat → Bool) :
    Recovers host start ⟨oldSchema k, filled host start done⟩ ↔ k = 0 ∨ k = 2 ∨ k = 5 := by
  have hthrows : ∀ k, k = 1 ∨ k = 3 ∨ k = 4 →
      openDb host ⟨oldSchema k, filled host start done⟩ = none := by
    rintro k (rfl | rfl | rfl) <;> rfl
  have hmigrated : ∀ k, k = 0 ∨ k = 2 ∨ k = 5 →
      openDb host ⟨oldSchema k, filled host start done⟩ =
        execAll (backfillRoleTexts host ⟨currentSchema, filled host start done⟩)
          ⟨currentSchema, filled host start done⟩ := by
    rintro k (rfl | rfl | rfl) <;> rfl
  unfold Recovers
  constructor
  · rintro ⟨db', hopen, _⟩
    by_cases hthrow : k = 1 ∨ k = 3 ∨ k = 4
    · rw [hthrows k hthrow] at hopen
      exact absurd hopen (by simp)
    · omega
  · intro hboundary
    rw [hmigrated k hboundary, execAll_backfill h]
    exact ⟨_, rfl, rfl, rfl⟩

/-! ## A new file -/

/-- How many of the statements of a script are done. -/
def Phase.place (total : Nat) : Phase → Nat
  | .script left _ => total - left.length
  | _ => 0

/-- What a process is at, when the file has the schema of place `k`. -/
inductive NewPhase (k : Nat) : Phase → Prop
  | start : NewPhase k .start
  | finished {phase : Phase} (h : phase.finished = true) : NewPhase k phase
  | script (j : Nat) (hj : j ≤ 6) (h : j = 0 ∨ j = 1 ∧ 1 ≤ k ∨ j = k) :
      NewPhase k (.script (schemaSql.drop j) false)
  | migrated (h : 1 ≤ k) : NewPhase k (.script [] true)
  | backfill : NewPhase k (.backfill [])

theorem place_schemaSql {j : Nat} (hj : j ≤ 6) (backfills : Bool) :
    (Phase.script (schemaSql.drop j) backfills).place 6 = j := by
  have hlength : (schemaSql.drop j).length = 6 - j := List.length_drop
  rw [Phase.place, hlength]
  omega

theorem place_of_finished {phase : Phase} (h : phase.finished = true) (total : Nat) :
    phase.place total = 0 := by
  cases phase with
  | script left backfills => exact absurd h (by simp [Phase.finished])
  | _ => rfl

/-- Only a process that owns the next statement may be overtaken. -/
theorem NewPhase.mono {k k' : Nat} {phase : Phase} (h : NewPhase k phase) (hk : k ≤ k') (hk' : k' ≤ 6)
    (hplace : ¬ (2 ≤ phase.place 6 ∧ phase.place 6 ≤ 5)) : NewPhase k' phase := by
  cases h with
  | start => exact .start
  | finished h => exact .finished h
  | migrated h => exact .migrated (by omega)
  | backfill => exact .backfill
  | script j hj h =>
      rw [place_schemaSql hj] at hplace
      exact .script j hj (by omega)

variable {Proc : Type} [DecidableEq Proc] {w w' : World Proc}

/-- Between the creation of `entries` and the last trigger one process is at work, and it knows it. -/
structure NewInv (w : World Proc) (k : Nat) : Prop where
  bound : k ≤ 6
  db : w.db = ⟨newSchema k, []⟩
  phase : ∀ p, NewPhase k (w.phase p)
  single : ∀ p q, 2 ≤ (w.phase p).place 6 → (w.phase p).place 6 ≤ 5 → 2 ≤ (w.phase q).place 6 →
    (w.phase q).place 6 ≤ 5 → p = q
  held : 1 ≤ k → ∃ p, w.phase p = .script (schemaSql.drop k) false ∨
    k = 6 ∧ (w.phase p).finished = true

theorem setPhase_self (w : World Proc) (p : Proc) (phase : Phase) :
    (w.setPhase p phase).phase p = phase := Function.update_self ..

theorem setPhase_of_ne (w : World Proc) {p q : Proc} (h : q ≠ p) (phase : Phase) :
    (w.setPhase p phase).phase q = w.phase q := Function.update_of_ne h ..

/-- A process gets to another phase, and the file perhaps one statement further. -/
theorem NewInv.next {k k' : Nat} {p : Proc} {next : Phase} (h : NewInv w k) (hk : k ≤ k') (hk' : k' ≤ 6)
    (hnext : NewPhase k' next)
    (hother : k ≠ k' → ∀ q ≠ p, ¬ (2 ≤ (w.phase q).place 6 ∧ (w.phase q).place 6 ≤ 5))
    (hplace : k = k' → 2 ≤ next.place 6 → next.place 6 ≤ 5 → False)
    (hheld : 1 ≤ k' → next = .script (schemaSql.drop k') false ∨ k' = 6 ∧ next.finished = true ∨
      k = k' ∧ w.phase p ≠ .script (schemaSql.drop k) false ∧
        (k = 6 → (w.phase p).finished = false)) :
    NewInv ({ w with db := ⟨newSchema k', []⟩ }.setPhase p next) k' where
  bound := hk'
  db := rfl
  phase q := by
    by_cases hq : q = p
    · rw [hq, setPhase_self]
      exact hnext
    · rw [setPhase_of_ne _ hq]
      by_cases hsame : k = k'
      · exact hsame ▸ h.phase q
      · exact (h.phase q).mono hk hk' (hother hsame q hq)
  single q q' := by
    intro h1 h2 h3 h4
    by_cases hq : q = p
    · by_cases hq' : q' = p
      · rw [hq, hq']
      · rw [setPhase_of_ne _ hq'] at h3 h4
        rw [hq, setPhase_self] at h1 h2
        by_cases hsame : k = k'
        · exact (hplace hsame h1 h2).elim
        · exact absurd ⟨h3, h4⟩ (hother hsame q' hq')
    · rw [setPhase_of_ne _ hq] at h1 h2
      by_cases hq' : q' = p
      · rw [hq', setPhase_self] at h3 h4
        by_cases hsame : k = k'
        · exact (hplace hsame h3 h4).elim
        · exact absurd ⟨h1, h2⟩ (hother hsame q hq)
      · rw [setPhase_of_ne _ hq'] at h3 h4
        exact h.single q q' h1 h2 h3 h4
  held hone := by
    rcases hheld hone with heq | hfinished | ⟨rfl, hscript, hfinished⟩
    · exact ⟨p, .inl (by rw [setPhase_self, heq])⟩
    · exact ⟨p, .inr (by rw [setPhase_self]; exact hfinished)⟩
    · obtain ⟨q, hq⟩ := h.held hone
      have hne : q ≠ p := by
        rintro rfl
        rcases hq with hq | ⟨h6, hq⟩
        · exact hscript hq
        · rw [hfinished h6] at hq
          exact Bool.false_ne_true hq
      exact ⟨q, by rw [setPhase_of_ne _ hne]; exact hq⟩

theorem advance_finished {phase : Phase} (h : phase.finished = true) :
    advance host db phase = none := by
  cases phase with
  | start => exact absurd h (by simp [Phase.finished])
  | script left backfills => exact absurd h (by simp [Phase.finished])
  | backfill left => exact absurd h (by simp [Phase.finished])
  | _ => rfl

/-- What a step of a process makes of the world. -/
theorem step_advance {p : Proc} (h : step host w (.advance p) = some w') :
    ∃ db phase, advance host w.db (w.phase p) = some (db, phase) ∧
      w' = { w with db := db }.setPhase p phase := by
  obtain ⟨⟨db, phase⟩, hadvance, rfl⟩ := Option.map_eq_some_iff.mp h
  exact ⟨db, phase, hadvance, rfl⟩

/-- The next statement of `schema.sql`, where other processes may have been faster. -/
theorem advance_schemaSql {k j : Nat} (hk : k ≤ 6) (hj : j < 6) (hjk : j ≤ k) :
    advance host ⟨newSchema k, []⟩ (.script (schemaSql.drop j) false) =
      if j = 0 then some (⟨newSchema (max k 1), []⟩, .script (schemaSql.drop 1) false)
      else if j = k then
        some (⟨newSchema (k + 1), []⟩, .script (schemaSql.drop (k + 1)) false)
      else some (⟨newSchema k, []⟩, .threw) := by
  have hlt : j < schemaSql.length := hj
  have hdrop : schemaSql.drop j = schemaSql[j] :: schemaSql.drop (j + 1) :=
    List.drop_eq_getElem_cons hlt
  have hchange := schemaSql_change k hk j hj hjk
  rw [List.getElem?_eq_getElem hlt, Option.bind_some] at hchange
  rw [hdrop]
  show some (runStatement _ _ _) = _
  rw [runStatement, Statement.exec, write_schemaSql _ (List.getElem_mem hlt)]
  dsimp only
  rw [hchange]
  by_cases h0 : j = 0
  · rw [if_pos h0, if_pos h0, h0]
    rfl
  · rw [if_neg h0, if_neg h0]
    by_cases heq : j = k
    · rw [if_pos heq, if_pos heq, heq]
      rfl
    · rw [if_neg heq, if_neg heq]
      rfl

/-- A process that is past the creation of `entries` is where the file is. -/
theorem NewPhase.place_eq {k : Nat} {phase : Phase} (h : NewPhase k phase) (h2 : 2 ≤ phase.place 6)
    (h5 : phase.place 6 ≤ 5) : phase.place 6 = k := by
  cases h with
  | start => exact absurd h2 (by simp [Phase.place])
  | finished hfinished =>
      rw [place_of_finished hfinished] at h2
      omega
  | migrated _ =>
      have h6 : (Phase.script [] true).place 6 = 6 := rfl
      omega
  | backfill => exact absurd h2 (by simp [Phase.place])
  | script j hj hplace =>
      rw [place_schemaSql hj] at h2 h5 ⊢
      omega

/-- A process goes on, and the file stays. -/
theorem NewInv.stay {k : Nat} {p : Proc} {next : Phase} (h : NewInv w k) (hnext : NewPhase k next)
    (hplace : next.place 6 ≤ 1 ∨ next.place 6 = 6)
    (hat : w.phase p ≠ .script (schemaSql.drop k) false) (hfinished : (w.phase p).finished = false) :
    NewInv ({ w with db := ⟨newSchema k, []⟩ }.setPhase p next) k :=
  h.next le_rfl h.bound hnext (fun hne => absurd rfl hne) (fun _ h2 h5 => by omega)
    fun _ => .inr (.inr ⟨rfl, hat, fun _ => hfinished⟩)

theorem schemaSql_drop_ne {j k : Nat} (hj : j ≤ 6) (hk : k ≤ 6) (hne : j ≠ k) :
    Phase.script (schemaSql.drop j) false ≠ .script (schemaSql.drop k) false := by
  intro heq
  have hplace := congrArg (Phase.place 6) heq
  rw [place_schemaSql hj, place_schemaSql hk] at hplace
  exact hne hplace

/-- The first look of a process at a new file. -/
theorem advance_start_new {k : Nat} (hk : k ≤ 6) :
    advance host ⟨newSchema k, []⟩ .start = some (⟨newSchema k, []⟩,
      if k = 0 then .script (schemaSql.drop 0) false else .script [] true) := by
  have hcases : k = 0 ∨ k = 1 ∨ k = 2 ∨ k = 3 ∨ k = 4 ∨ k = 5 ∨ k = 6 := by omega
  rcases hcases with rfl | rfl | rfl | rfl | rfl | rfl | rfl <;> rfl

theorem advance_migrated_new {k : Nat} :
    advance host ⟨newSchema k, []⟩ (.script [] true) = some (⟨newSchema k, []⟩, .backfill []) := by
  have hnothing : backfillRoleTexts host ⟨newSchema k, []⟩ = [] := by
    unfold backfillRoleTexts
    split <;> rfl
  exact congrArg (fun left => some (_, Phase.backfill left)) hnothing

/-- **A statement of `schema.sql`**, by a process that may be late. -/
theorem NewInv.statement {k j : Nat} {p : Proc} (h : NewInv w k) (hj : j < 6)
    (hplace : j = 0 ∨ j = 1 ∧ 1 ≤ k ∨ j = k)
    (hat : w.phase p = .script (schemaSql.drop j) false) {db : Database} {phase : Phase}
    (hadvance : Opening.advance host ⟨newSchema k, []⟩ (.script (schemaSql.drop j) false) =
      some (db, phase)) : ∃ k', NewInv ({ w with db := db }.setPhase p phase) k' := by
  have hbound := h.bound
  have hfinished : (w.phase p).finished = false := by
    rw [hat]
    rfl
  rw [advance_schemaSql hbound hj (by omega)] at hadvance
  by_cases h0 : j = 0
  · rw [if_pos h0] at hadvance
    obtain ⟨rfl, rfl⟩ := Prod.mk.inj (Option.some.inj hadvance)
    have hone : NewPhase (max k 1) (.script (schemaSql.drop 1) false) :=
      .script 1 (by omega) (.inr (.inl ⟨rfl, le_max_right k 1⟩))
    by_cases hk0 : k = 0
    · -- the version is set for the first time, so no process is further
      subst hk0
      refine ⟨1, h.next (by omega) (by omega) hone (fun _ q _ hq => ?_) (by simp) fun _ => .inl rfl⟩
      have := (h.phase q).place_eq hq.1 hq.2
      omega
    · have hmax : max k 1 = k := by omega
      rw [hmax] at hone ⊢
      refine ⟨k, h.stay hone (.inl (by decide)) ?_ hfinished⟩
      rw [hat]
      exact schemaSql_drop_ne (by omega) hbound (by omega)
  · rw [if_neg h0] at hadvance
    by_cases heq : j = k
    · -- this process is where the file is
      rw [if_pos heq] at hadvance
      obtain ⟨rfl, rfl⟩ := Prod.mk.inj (Option.some.inj hadvance)
      have hnext : NewPhase (k + 1) (.script (schemaSql.drop (k + 1)) false) :=
        .script (k + 1) (by omega) (.inr (.inr rfl))
      refine ⟨k + 1, h.next (by omega) (by omega) hnext (fun _ q hne hq => ?_)
        (fun hsame => absurd hsame (by omega)) fun _ => .inl rfl⟩
      have hqplace := (h.phase q).place_eq hq.1 hq.2
      have hpplace : (w.phase p).place 6 = k := by
        rw [hat, place_schemaSql (by omega), heq]
      exact hne (h.single q p hq.1 hq.2 (by omega) (by omega))
    · rw [if_neg heq] at hadvance
      obtain ⟨rfl, rfl⟩ := Prod.mk.inj (Option.some.inj hadvance)
      refine ⟨k, h.stay (.finished rfl) (.inl (by decide)) ?_ hfinished⟩
      rw [hat]
      exact schemaSql_drop_ne (by omega) hbound heq

/-- **A step of a process**, on a new file. -/
theorem NewInv.advance {k : Nat} {p : Proc} (h : NewInv w k)
    (hstep : step host w (.advance p) = some w') : ∃ k', NewInv w' k' := by
  obtain ⟨db, phase, hadvance, rfl⟩ := step_advance hstep
  have hphase := h.phase p
  have hbound := h.bound
  rw [h.db] at hadvance
  cases hat : w.phase p with
  | start =>
      rw [hat, advance_start_new hbound] at hadvance
      obtain ⟨rfl, rfl⟩ := Prod.mk.inj (Option.some.inj hadvance)
      refine ⟨k, ?_⟩
      have hne : w.phase p ≠ .script (schemaSql.drop k) false := by
        rw [hat]
        simp
      have hfinished : (w.phase p).finished = false := by
        rw [hat]
        rfl
      by_cases h0 : k = 0
      · rw [if_pos h0]
        exact h.stay (.script 0 (by omega) (.inl rfl)) (.inl (by decide)) hne hfinished
      · rw [if_neg h0]
        exact h.stay (.migrated (by omega)) (.inr rfl) hne hfinished
  | script left backfills =>
      rw [hat] at hadvance hphase
      cases hphase with
      | finished hfinished => exact absurd hfinished (by simp [Phase.finished])
      | migrated hone =>
          rw [advance_migrated_new] at hadvance
          obtain ⟨rfl, rfl⟩ := Prod.mk.inj (Option.some.inj hadvance)
          refine ⟨k, h.stay .backfill (.inl (by decide)) ?_ ?_⟩
          · rw [hat]
            simp
          · rw [hat]
            rfl
      | script j hj hplace =>
          by_cases h6 : j = 6
          · obtain rfl : k = 6 := by omega
            subst h6
            obtain ⟨rfl, rfl⟩ := Prod.mk.inj (Option.some.inj hadvance)
            exact ⟨6, h.next le_rfl hbound (.finished rfl) (fun hne => absurd rfl hne)
              (fun _ h2 _ => absurd h2 (by simp [Phase.place])) fun _ => .inr (.inl ⟨rfl, rfl⟩)⟩
          · exact h.statement (by omega) hplace hat hadvance
  | backfill left =>
      rw [hat] at hadvance hphase
      cases hphase with
      | finished hfinished => exact absurd hfinished (by simp [Phase.finished])
      | backfill =>
          obtain ⟨rfl, rfl⟩ := Prod.mk.inj (Option.some.inj hadvance)
          refine ⟨k, h.stay (.finished rfl) (.inl (by decide)) ?_ ?_⟩
          · rw [hat]
            simp
          · rw [hat]
            rfl
  | _ =>
      rw [hat, advance_finished rfl] at hadvance
      exact absurd hadvance (by simp)

theorem inside_schemaSql {k : Nat} (h1 : 1 ≤ k) (h5 : k ≤ 5) :
    (Phase.script (schemaSql.drop k) false).inside = true := by
  have hcases : k = 1 ∨ k = 2 ∨ k = 3 ∨ k = 4 ∨ k = 5 := by omega
  rcases hcases with rfl | rfl | rfl | rfl | rfl <;> rfl

/-- A process dies between its scripts. -/
theorem NewInv.die {k : Nat} {p : Proc} (h : NewInv w k) (hp : (w.phase p).inside = false) :
    NewInv (w.setPhase p .died) k := by
  have hdb : ({ w with db := ⟨newSchema k, []⟩ } : World Proc) = w := by
    rw [← h.db]
  have hbound := h.bound
  rw [← hdb]
  refine h.next le_rfl hbound (.finished rfl) (fun hne => absurd rfl hne)
    (fun _ h2 _ => absurd h2 (by simp [Phase.place])) fun hone => ?_
  by_cases h6 : k = 6
  · exact .inr (.inl ⟨h6, rfl⟩)
  · refine .inr (.inr ⟨rfl, fun heq => ?_, fun h => absurd h h6⟩)
    rw [heq, inside_schemaSql hone (by omega)] at hp
    exact absurd hp (by simp)

end Caveat.Index.Opening
