import Caveat.Write.Containment
import Caveat.Write.Writers

/-!
# Concurrent records destroy nothing while they open new files only

Nothing in the code keeps a call from opening a file that is there: the index does not know every
file, and between the lookup of an id and the write under it another call may have taken it. As long
as every file is opened where there is none (`OpensNew`), each open file belongs to one call, and
the old files are left alone.
-/

namespace Caveat.Write

open Js Entry Index Lib.PosixPath

variable {host : Host} {root : Path} {before : Disk} {s s' : WritersState}

/-- What a call in this phase has prepared. -/
def Phase.prepared? : Phase → Option Prepared
  | .opening p | .writing p _ | .indexing p _ | .returned p _ => some p
  | _ => none

/-- The file a call in this phase has opened, and what it has written into it. -/
def Phase.file? (root : Path) : Phase → Option (Path × Text)
  | .writing p offset => some (join root p.relPath, p.content.take offset)
  | .indexing p _ | .returned p _ => some (join root p.relPath, p.content)
  | _ => none

/-- What a call knows of its own entry. -/
structure WriterOk (host : Host) (root : Path) (wr : Writer) : Prop where
  entry : ∀ p, wr.phase.prepared? = some p → ∃ id, prepareUnder host wr.input wr.ctx id = .ok p
  ref : ∀ p ref, wr.phase = .returned p ref → ∃ mtime,
    ref = { id := (p.row mtime).id, path := p.relPath, filePath := join root p.relPath }
  progress : ∀ p offset, wr.phase = .writing p offset → offset ≤ p.content.length

/-- A call holds what it has written, in a new file of its own. -/
structure Separate (host : Host) (root : Path) (before : Disk) (s : WritersState) : Prop where
  kept : ∀ path file, before path = some file → s.world.disk path = some file
  ok : ∀ i wr, s.writers i = some wr → WriterOk host root wr
  held : ∀ i wr path text, s.writers i = some wr → wr.phase.file? root = some (path, text) →
    (s.world.disk path).map DiskFile.text = some text ∧ before path = none
  apart : ∀ i j wr wr' path text text', s.writers i = some wr → s.writers j = some wr' →
    wr.phase.file? root = some (path, text) → wr'.phase.file? root = some (path, text') → i = j

theorem separate_init (h : Unstarted before s) : Separate host root before s where
  kept := by rintro path file hf; rw [h.1]; exact hf
  ok i wr hwr := by rw [h.2 i] at hwr; exact absurd hwr (by simp)
  held i wr _ _ hwr := by rw [h.2 i] at hwr; exact absurd hwr (by simp)
  apart i _ wr _ _ _ _ hwr := by rw [h.2 i] at hwr; exact absurd hwr (by simp)

/-- **Writing on at the offset** leaves the file with a longer prefix of the content. -/
theorem overlay_take {content : Text} {offset size : Nat} (h : offset ≤ content.length) :
    overlay (content.take offset) offset ((content.drop offset).take size) =
      content.take (offset + ((content.drop offset).take size).length) := by
  have hlen : (content.take offset).length = offset := by
    rw [List.length_take]
    omega
  have hpiece : (content.drop offset).take ((content.drop offset).take size).length =
      (content.drop offset).take size := by
    rw [List.length_take, List.length_drop, List.take_eq_take_iff, List.length_drop]
    omega
  have hrest : (content.take offset).drop (offset + ((content.drop offset).take size).length) =
      [] := List.drop_eq_nil_of_le (by omega)
  rw [overlay, hlen, hrest, List.take_add, hpiece, List.take_take, Nat.min_self, Nat.sub_self,
    List.replicate_zero, List.append_nil, List.append_nil]

/-! ## Steps -/

variable {i : Nat} {wr : Writer} {call : WriterCall} {w w' : World} {phase : Phase} {t : Table}

/-- What a step of a call can be. -/
theorem step_cases (hs : wr.step host root w call = some (w', phase)) :
    (∃ n, wr.phase = .probing n ∧ w' = w ∧ phase = wr.probe host w.table n) ∨
    (∃ p, wr.phase = .opening p ∧ call = .open ∧
      w' = { w with disk := w.disk.write (join root p.relPath) [] } ∧ phase = .writing p 0) ∨
    (∃ p offset size, wr.phase = .writing p offset ∧
      w' = { w with
        disk := w.disk.writeAt (join root p.relPath) offset ((p.content.drop offset).take size) } ∧
      phase = .writing p (offset + ((p.content.drop offset).take size).length)) ∨
    (∃ p mtime, wr.phase = .writing p p.content.length ∧ w' = w ∧ phase = .indexing p mtime) ∨
    (∃ p mtime, wr.phase = .indexing p mtime ∧ w'.disk = w.disk ∧ phase = .returned p
      { id := (p.row mtime).id, path := p.relPath, filePath := join root p.relPath }) ∨
    (w'.disk = w.disk ∧ phase = .threw) := by
  cases call with
  | probe =>
      cases hp : wr.phase with
      | probing n =>
          simp only [Writer.step, hp, Option.some.injEq, Prod.mk.injEq] at hs
          exact .inl ⟨n, rfl, hs.1.symm, hs.2.symm⟩
      | _ => simp [Writer.step, hp] at hs
  | «open» =>
      cases hp : wr.phase with
      | opening p =>
          simp only [Writer.step, hp, Option.some.injEq, Prod.mk.injEq] at hs
          exact .inr (.inl ⟨p, rfl, rfl, hs.1.symm, hs.2.symm⟩)
      | _ => simp [Writer.step, hp] at hs
  | write size =>
      cases hp : wr.phase with
      | writing p offset =>
          simp only [Writer.step, hp, Option.some.injEq, Prod.mk.injEq] at hs
          exact .inr (.inr (.inl ⟨p, offset, size, rfl, hs.1.symm, hs.2.symm⟩))
      | _ => simp [Writer.step, hp] at hs
  | stat mtime =>
      cases hp : wr.phase with
      | writing p offset =>
          by_cases hdone : offset = p.content.length
          · simp only [Writer.step, hp, if_pos hdone, Option.some.injEq, Prod.mk.injEq] at hs
            exact .inr (.inr (.inr (.inl ⟨p, mtime, by rw [hdone], hs.1.symm, hs.2.symm⟩)))
          · simp [Writer.step, hp, hdone] at hs
      | _ => simp [Writer.step, hp] at hs
  | upsert =>
      cases hp : wr.phase with
      | indexing p mtime =>
          cases hups : upsertEntry host w.table (p.row mtime) with
          | error e =>
              simp only [Writer.step, hp, hups, Option.some.injEq, Prod.mk.injEq] at hs
              exact .inr (.inr (.inr (.inr (.inr ⟨by rw [← hs.1], hs.2.symm⟩))))
          | ok res =>
              simp only [Writer.step, hp, hups, Option.some.injEq, Prod.mk.injEq] at hs
              exact .inr (.inr (.inr (.inr (.inl ⟨p, mtime, rfl, by rw [← hs.1], hs.2.symm⟩))))
      | _ => simp [Writer.step, hp] at hs
  | fail =>
      cases hp : wr.phase with
      | returned p ref => simp [Writer.step, hp] at hs
      | threw => simp [Writer.step, hp] at hs
      | _ =>
          simp only [Writer.step, hp, Option.some.injEq, Prod.mk.injEq] at hs
          exact .inr (.inr (.inr (.inr (.inr ⟨by rw [← hs.1], hs.2.symm⟩))))

/-- A lookup ends the call, goes on with the next candidate, or prepares an entry. -/
theorem probe_cases (host : Host) (wr : Writer) (t : Table) (n : Option Nat) :
    wr.probe host t n = .threw ∨ wr.probe host t n = .probing (some (nextNumber n)) ∨
      ∃ p, wr.probe host t n = .opening p ∧
        prepareUnder host wr.input wr.ctx (wr.wanted host n) = .ok p := by
  unfold Writer.probe
  cases select host t wr.ctx.source (wr.wanted host n) with
  | error e => exact .inl rfl
  | ok found =>
      cases found with
      | some r => exact .inr (.inl rfl)
      | none =>
          cases hprep : prepareUnder host wr.input wr.ctx (wr.wanted host n) with
          | error e => exact .inl rfl
          | ok p =>
              by_cases hnul : '\x00' ∈ p.relPath
              · exact .inl (if_pos hnul)
              · exact .inr (.inr ⟨p, if_neg hnul, rfl⟩)

/-- A call that has prepared an entry goes on with that entry. -/
theorem writerOk_step (h : WriterOk host root wr)
    (hs : wr.step host root w call = some (w', phase)) :
    WriterOk host root { wr with phase } := by
  rcases step_cases hs with ⟨n, hp, _, rfl⟩ | ⟨p, hp, _, _, rfl⟩ | ⟨p, offset, size, hp, _, rfl⟩ |
    ⟨p, mtime, hp, _, rfl⟩ | ⟨p, mtime, hp, _, rfl⟩ | ⟨_, rfl⟩
  · rcases probe_cases host wr w.table n with hq | hq | ⟨p, hq, hprep⟩
    · rw [hq]
      exact ⟨by simp [Phase.prepared?], by simp, by simp⟩
    · rw [hq]
      exact ⟨by simp [Phase.prepared?], by simp, by simp⟩
    · rw [hq]
      refine ⟨fun q hpq => ⟨wr.wanted host n, ?_⟩, by simp, by simp⟩
      cases Option.some.inj hpq
      exact hprep
  · refine ⟨fun q hq => h.entry q (by rw [hp]; exact hq), by simp, ?_⟩
    intro q offset hq
    cases hq
    exact Nat.zero_le _
  · refine ⟨fun q hq => h.entry q (by rw [hp]; exact hq), by simp, ?_⟩
    intro q o hq
    have hle := h.progress p offset hp
    have hpiece : ((p.content.drop offset).take size).length ≤ p.content.length - offset := by
      rw [List.length_take, List.length_drop]
      omega
    cases hq
    omega
  · exact ⟨fun q hq => h.entry q (by rw [hp]; exact hq), by simp, by simp⟩
  · refine ⟨fun q hq => h.entry q (by rw [hp]; exact hq), ?_, by simp⟩
    intro q ref hq
    cases hq
    exact ⟨mtime, rfl⟩
  · exact ⟨by simp [Phase.prepared?], by simp, by simp⟩

/--
**A step leaves the files alone or writes one file**, a new one or the one the call holds, and
leaves in it what the next phase says.
-/
theorem step_files (h : WriterOk host root wr) (hs : wr.step host root w call = some (w', phase))
    (hheld : ∀ path text, wr.phase.file? root = some (path, text) →
      (w.disk path).map DiskFile.text = some text)
    (hnew : ∀ p, call = .open → wr.phase = .opening p → w.disk (join root p.relPath) = none) :
    (w'.disk = w.disk ∧ ∀ f, phase.file? root = some f → wr.phase.file? root = some f) ∨
    ∃ path text, phase.file? root = some (path, text) ∧
      (w'.disk path).map DiskFile.text = some text ∧
      (∀ q, q ≠ path → w'.disk q = w.disk q) ∧
      (w.disk path = none ∨ ∃ old, wr.phase.file? root = some (path, old)) := by
  rcases step_cases hs with ⟨n, hp, rfl, rfl⟩ | ⟨p, hp, rfl, rfl, rfl⟩ |
    ⟨p, offset, size, hp, rfl, rfl⟩ | ⟨p, mtime, hp, rfl, rfl⟩ | ⟨p, mtime, hp, hdisk, rfl⟩ |
    ⟨hdisk, rfl⟩
  · refine .inl ⟨rfl, fun f hf => ?_⟩
    rcases probe_cases host wr w'.table n with hq | hq | ⟨p, hq, _⟩
    all_goals rw [hq] at hf; exact absurd hf (by simp [Phase.file?])
  · refine .inr ⟨join root p.relPath, [], by simp [Phase.file?], ?_, ?_, .inl (hnew p rfl hp)⟩
    · obtain ⟨f, hf, htext⟩ := write_self w.disk (join root p.relPath) []
      simp [hf, htext]
    · exact fun q hq => write_of_ne w.disk hq []
  · have hfile : wr.phase.file? root = some (join root p.relPath, p.content.take offset) := by
      rw [hp]; rfl
    refine .inr ⟨join root p.relPath, _, rfl, ?_, ?_, .inr ⟨_, hfile⟩⟩
    · -- the file holds the content up to the offset, and is written on from there
      obtain ⟨f, hf, htext⟩ := write_self w.disk (join root p.relPath)
        (overlay (((w.disk (join root p.relPath)).map DiskFile.text).getD []) offset
          ((p.content.drop offset).take size))
      rw [hheld _ _ hfile, Option.getD_some, overlay_take (h.progress p offset hp)] at htext
      simp [Disk.writeAt, hf, htext]
    · exact fun q hq => write_of_ne w.disk hq _
  · refine .inl ⟨rfl, fun f hf => ?_⟩
    rw [hp]
    simpa [Phase.file?] using hf
  · refine .inl ⟨hdisk, fun f hf => ?_⟩
    rw [hp]
    simpa [Phase.file?] using hf
  · exact .inl ⟨hdisk, fun f hf => absurd hf (by simp [Phase.file?])⟩

theorem update_cases {writers : Nat → Option Writer} {j : Nat} {u : Writer}
    (h : Function.update writers i (some wr) j = some u) :
    (j = i ∧ u = wr) ∨ (j ≠ i ∧ writers j = some u) := by
  by_cases hj : j = i
  · subst hj
    rw [Function.update_self] at h
    exact .inl ⟨rfl, (Option.some.inj h).symm⟩
  · rw [Function.update_of_ne hj] at h
    exact .inr ⟨hj, h⟩

/-- The files stay as they are, and the call holds no file that it did not hold. -/
theorem Separate.still (h : Separate host root before s) (hok : WriterOk host root wr)
    (hdisk : w'.disk = s.world.disk) (hfile : ∀ f, wr.phase.file? root = some f →
      ∃ old, s.writers i = some old ∧ old.phase.file? root = some f) :
    Separate host root before
      { world := w', writers := Function.update s.writers i (some wr) } := by
  -- whoever holds a file now held it before
  have hbefore : ∀ j u, Function.update s.writers i (some wr) j = some u → ∀ f,
      u.phase.file? root = some f →
        ∃ old, s.writers j = some old ∧ old.phase.file? root = some f := by
    intro j u hu f hf
    rcases update_cases hu with ⟨rfl, rfl⟩ | ⟨_, hu⟩
    · exact hfile f hf
    · exact ⟨u, hu, hf⟩
  constructor
  · rw [hdisk]
    exact h.kept
  · intro j u hu
    rcases update_cases hu with ⟨_, rfl⟩ | ⟨_, hu⟩
    · exact hok
    · exact h.ok j u hu
  · intro j u path text hu hf
    obtain ⟨old, hold, hf⟩ := hbefore j u hu _ hf
    rw [hdisk]
    exact h.held j old path text hold hf
  · intro j k u v path text text' hu hv hf hf'
    obtain ⟨u, hu, hf⟩ := hbefore j u hu _ hf
    obtain ⟨v, hv, hf'⟩ := hbefore k v hv _ hf'
    exact h.apart j k u v path text text' hu hv hf hf'

/-- One file is written, which was not there or which the call held. -/
theorem Separate.put (h : Separate host root before s) (hok : WriterOk host root wr) {path : Path}
    {text : Text} (hfile : wr.phase.file? root = some (path, text))
    (htext : (w'.disk path).map DiskFile.text = some text)
    (hrest : ∀ q, q ≠ path → w'.disk q = s.world.disk q)
    (hfree : s.world.disk path = none ∨
      ∃ old text, s.writers i = some old ∧ old.phase.file? root = some (path, text)) :
    Separate host root before
      { world := w', writers := Function.update s.writers i (some wr) } := by
  have hnew : before path = none := by
    rcases hfree with hnone | ⟨old, _, hold, hf⟩
    · cases hb : before path with
      | none => rfl
      | some file => rw [h.kept path file hb] at hnone; exact absurd hnone (by simp)
    · exact (h.held i old path _ hold hf).2
  have hothers : ∀ j u, j ≠ i → s.writers j = some u → ∀ p t,
      u.phase.file? root = some (p, t) → p ≠ path := by
    rintro j u hj hu p t hf rfl
    rcases hfree with hnone | ⟨old, _, hold, hf'⟩
    · have := (h.held j u p t hu hf).1
      rw [hnone] at this
      exact absurd this (by simp)
    · exact hj (h.apart j i u old p t _ hu hold hf hf')
  constructor
  · intro q file hq
    have hne : q ≠ path := by
      rintro rfl
      rw [hnew] at hq
      exact absurd hq (by simp)
    rw [hrest q hne]
    exact h.kept q file hq
  · intro j u hu
    rcases update_cases hu with ⟨_, rfl⟩ | ⟨_, hu⟩
    · exact hok
    · exact h.ok j u hu
  · intro j u p t hu hf
    rcases update_cases hu with ⟨_, rfl⟩ | ⟨hj, hu⟩
    · rw [hfile] at hf
      cases hf
      exact ⟨htext, hnew⟩
    · rw [hrest p (hothers j u hj hu p t hf)]
      exact h.held j u p t hu hf
  · intro j k u v p t t' hu hv hf hf'
    rcases update_cases hu with ⟨hj, hwr⟩ | ⟨hj, hu₀⟩
    · rcases update_cases hv with ⟨hk, _⟩ | ⟨hk, hv₀⟩
      · rw [hj, hk]
      · rw [hwr, hfile] at hf
        cases hf
        exact absurd rfl (hothers k v hk hv₀ path t' hf')
    · rcases update_cases hv with ⟨_, hwr⟩ | ⟨_, hv₀⟩
      · rw [hwr, hfile] at hf'
        cases hf'
        exact absurd rfl (hothers j u hj hu₀ path t hf)
      · exact h.apart j k u v p t t' hu₀ hv₀ hf hf'

theorem separate_step {a : WritersAction} (h : Separate host root before s)
    (hnew : OpensNew root s a) (hs : writersStep host root s a = some s') :
    Separate host root before s' := by
  cases a with
  | start i input ctx =>
      by_cases hstarted : (s.writers i).isSome = true
      · simp [writersStep, hstarted] at hs
      · simp only [writersStep, hstarted, Bool.false_eq_true, if_false, Option.some.injEq] at hs
        subst hs
        exact h.still ⟨by simp [Phase.prepared?], by simp, by simp⟩ rfl (by simp [Phase.file?])
  | step i call =>
      rw [writersStep] at hs
      obtain ⟨wr, hwr, hs⟩ := Option.bind_eq_some_iff.mp hs
      obtain ⟨⟨w', phase⟩, hstep, hs⟩ := Option.bind_eq_some_iff.mp hs
      cases hs
      have hok := h.ok i wr hwr
      rcases step_files hok hstep (fun path text hf => (h.held i wr path text hwr hf).1)
        (fun p hcall hphase => hnew i (by rw [hcall]) wr p hwr hphase) with
        ⟨hdisk, hfile⟩ | ⟨path, text, hfile, htext, hrest, hfree⟩
      · exact h.still (writerOk_step hok hstep) hdisk fun f hf => ⟨wr, hwr, hfile f hf⟩
      · refine h.put (writerOk_step hok hstep) hfile htext hrest ?_
        exact hfree.imp_right fun ⟨old, hold⟩ => ⟨wr, old, hwr, hold⟩

theorem preserved_of_separate (h : Separate host root before s) :
    Preserved host root before s := by
  refine ⟨h.kept, fun i wr p ref hwr hphase => ?_⟩
  obtain ⟨id, hprep⟩ := (h.ok i wr hwr).entry p (by rw [hphase]; rfl)
  obtain ⟨built, hbuilt, rfl⟩ := prepareUnder_ok_iff.mp hprep
  obtain ⟨mtime, rfl⟩ := (h.ok i wr hwr).ref _ ref hphase
  exact ⟨built, hbuilt, rfl, (h.held i wr _ _ hwr (by rw [hphase]; rfl)).1⟩

/--
**Records destroy nothing as long as they open new files only**: in every interleaving of any number
of calls, over any files and any index.
-/
theorem records_preserve_of_opensNew (host : Host) (root : Path) (before : Disk)
    {s : WritersState} (h : Lib.Reaches (writersStep host root) (OpensNew root)
      (Unstarted before) s) : Preserved host root before s :=
  preserved_of_separate
    (h.invariant (fun _ hi => separate_init hi) fun _ _ _ hi hok hs => separate_step hi hok hs)

/-! ## A call on its own -/

variable {input : RecordInput} {ctx : RecordContext} {p : Prepared} {phase' : Phase} {id : JsValue}

/-- One call in a phase, over a world. -/
def alone (w : World) (input : RecordInput) (ctx : RecordContext) (phase : Phase) :
    WritersState where
  world := w
  writers := Function.update (fun _ => none) 0 (some { input, ctx, phase })

/-- Some steps lead from one state to the other. -/
def Leads (host : Host) (root : Path) (s s' : WritersState) : Prop :=
  ∃ as, Lib.run (writersStep host root) s as = some s'

theorem leads_refl : Leads host root s s := ⟨[], rfl⟩

theorem leads_trans {s₁ s₂ : WritersState} (h : Leads host root s s₁)
    (h' : Leads host root s₁ s₂) : Leads host root s s₂ := by
  obtain ⟨as, has⟩ := h
  obtain ⟨bs, hbs⟩ := h'
  exact ⟨as ++ bs, by rw [Lib.run_append, has]; exact hbs⟩

theorem leads_alone
    (hs : Writer.step host root w { input, ctx, phase } call = some (w', phase'))
    (h : Leads host root (alone w' input ctx phase') s') :
    Leads host root (alone w input ctx phase) s' := by
  obtain ⟨as, has⟩ := h
  refine ⟨.step 0 call :: as, ?_⟩
  have hwr : (alone w input ctx phase).writers 0 = some { input, ctx, phase } := by
    simp only [alone, Function.update_self]
  have hstep : writersStep host root (alone w input ctx phase) (.step 0 call) =
      some (alone w' input ctx phase') := by
    rw [writersStep, hwr]
    change (Writer.step host root w { input, ctx, phase } call).bind _ = _
    rw [hs]
    simp only [Option.bind_some, alone, Function.update_idem]
    rfl
  rw [Lib.run_cons, hstep]
  exact has

/-- A candidate that is held is passed over. -/
theorem probe_held {n : Option Nat} {r : Row}
    (hselect : select host t wr.ctx.source (wr.wanted host n) = .ok (some r)) :
    wr.probe host t n = .probing (some (nextNumber n)) := by
  rw [Writer.probe, hselect]

/-- A candidate that is free is taken. -/
theorem probe_free {n : Option Nat}
    (hselect : select host t wr.ctx.source (wr.wanted host n) = .ok none)
    (hprep : prepareUnder host wr.input wr.ctx (wr.wanted host n) = .ok p)
    (hnul : '\x00' ∉ p.relPath) : wr.probe host t n = .opening p := by
  rw [Writer.probe, hselect]
  simp only [hprep, if_neg hnul]

/-- The lookups of the numbered candidates end where `numberedId` does. -/
theorem alone_numbered {fuel n : Nat} {found : Text} (hnum : numberedId host w.table ctx.source
    (baseId host input ctx) fuel n = some found)
    (hprep : prepareUnder host input ctx (.string found) = .ok p) (hnul : '\x00' ∉ p.relPath) :
    Leads host root (alone w input ctx (.probing (some n))) (alone w input ctx (.opening p)) := by
  induction fuel generalizing n with
  | zero => exact absurd hnum (by simp [numberedId])
  | succ fuel ih =>
      let wr : Writer := { input, ctx, phase := .probing (some n) }
      have hselect : select host w.table ctx.source (wr.wanted host (some n)) =
          .ok (w.table.find? (ctx.source, candidate host (baseId host input ctx) n)) := rfl
      have hstep : Writer.step host root w wr .probe = some (w, wr.probe host w.table (some n)) :=
        rfl
      rw [numberedId_succ] at hnum
      cases hfind : w.table.find? (ctx.source, candidate host (baseId host input ctx) n) with
      | some r =>
          rw [hfind] at hnum hselect
          rw [probe_held hselect] at hstep
          exact leads_alone hstep (ih hnum)
      | none =>
          rw [hfind] at hnum hselect
          obtain rfl := Option.some.inj hnum
          rw [probe_free hselect hprep hnul] at hstep
          exact leads_alone hstep leads_refl

/-- **The lookups of a call on its own are `resolveCollision`.** -/
theorem alone_resolved
    (hid : resolveCollision host w.table ctx.source (baseId host input ctx) = .ok id)
    (hprep : prepareUnder host input ctx id = .ok p) (hnul : '\x00' ∉ p.relPath) :
    Leads host root (alone w input ctx (.probing none)) (alone w input ctx (.opening p)) := by
  let wr : Writer := { input, ctx, phase := .probing none }
  have hstep : Writer.step host root w wr .probe = some (w, wr.probe host w.table none) := rfl
  rcases resolveCollision_cases hid with ⟨hselect, rfl⟩ | ⟨r, found, hselect, hnum, rfl⟩
  · have hfree : wr.probe host w.table none = .opening p := probe_free hselect hprep hnul
    rw [hfree] at hstep
    exact leads_alone hstep leads_refl
  · have hheld : wr.probe host w.table none = .probing (some 2) := probe_held hselect
    rw [hheld] at hstep
    exact leads_alone hstep (alone_numbered hnum hprep hnul)

/-- Truncating a file and writing it in one piece leaves the text in it. -/
theorem writeAt_truncated (d : Disk) (path : Path) (content : Text) (q : Path) :
    ((d.write path []).writeAt path 0 content q).map DiskFile.text =
      (d.write path content q).map DiskFile.text := by
  by_cases hq : q = path
  · subst hq
    obtain ⟨f, hf, hempty⟩ := write_self d q []
    have hover : overlay [] 0 content = content := by simp [overlay]
    rw [Disk.writeAt, hf, Option.map_some, hempty, Option.getD_some, hover]
    obtain ⟨g, hg, hcontent⟩ := write_self (d.write q []) q content
    obtain ⟨k, hk, hcontent'⟩ := write_self d q content
    rw [hg, hk, Option.map_some, Option.map_some, hcontent, hcontent']
  · rw [Disk.writeAt, write_of_ne _ hq, write_of_ne _ hq, write_of_ne _ hq]

/-- An open file is written in one piece, timed and indexed. -/
theorem alone_opening {mtime : Int} {table : Table} {n : Nat}
    (hups : upsertEntry host w.table (p.row mtime) = .ok (table, n)) :
    Leads host root (alone w input ctx (.opening p))
      (alone { disk := (w.disk.write (join root p.relPath) []).writeAt (join root p.relPath) 0
                 p.content, table } input ctx (.returned p
        { id := (p.row mtime).id, path := p.relPath, filePath := join root p.relPath })) := by
  let opened : World := { w with disk := w.disk.write (join root p.relPath) [] }
  let written : World := { w with disk := opened.disk.writeAt (join root p.relPath) 0 p.content }
  have hopen : Writer.step host root w { input, ctx, phase := .opening p } .open =
      some (opened, .writing p 0) := rfl
  have hwrite : Writer.step host root opened { input, ctx, phase := .writing p 0 }
      (.write p.content.length) = some (written, .writing p p.content.length) := by
    have hpiece : (p.content.drop 0).take p.content.length = p.content := by simp
    simp only [Writer.step, hpiece, Nat.zero_add]
    rfl
  have hstat : Writer.step host root written
      { input, ctx, phase := .writing p p.content.length } (.stat mtime) =
        some (written, .indexing p mtime) := if_pos rfl
  have hupsert : Writer.step host root written { input, ctx, phase := .indexing p mtime } .upsert =
      some ({ written with table }, .returned p
        { id := (p.row mtime).id, path := p.relPath, filePath := join root p.relPath }) := by
    have hups' : upsertEntry host written.table (p.row mtime) = .ok (table, n) := hups
    simp only [Writer.step, hups']
  exact leads_alone hopen (leads_alone hwrite (leads_alone hstat (leads_alone hupsert leads_refl)))

/--
**A call on its own does what `recordEntry` does**: it returns the same reference and leaves the
same rows and the same texts.
-/
theorem alone_recordEntry {env : Environment} {ref : EntryRef}
    (h : (recordEntry host env input ctx w).1 = .ok ref) : ∃ p disk,
      Leads host env.entriesRoot (alone w input ctx (.probing none))
        (alone { disk, table := (recordEntry host env input ctx w).2.table } input ctx
          (.returned p ref)) ∧
      ∀ q, (disk q).map DiskFile.text =
        ((recordEntry host env input ctx w).2.disk q).map DiskFile.text := by
  unfold recordEntry at h ⊢
  cases hprep : prepareRecord host input ctx w.table with
  | error e => rw [hprep] at h; exact absurd h (by simp)
  | ok p =>
      rw [hprep] at h
      obtain ⟨id, columns, hnul, hid, hcols, rfl, hafter⟩ := commitEntry_ok h
      obtain ⟨wanted, hwanted, hunder⟩ := Lib.bind_eq_ok.mp hprep
      rw [hafter]
      exact ⟨p, _, leads_trans (alone_resolved (liftDb_ok.mp hwanted) hunder hnul)
        (alone_opening (upsertEntry_ok hid hcols)), writeAt_truncated w.disk _ p.content⟩

/-! ## Two runs of one call -/

/-- `OpensNew`, computed. -/
def opensNew (root : Path) (s : WritersState) : WritersAction → Bool
  | .step i .open =>
      match (s.writers i).map Writer.phase with
      | some (.opening p) => (s.world.disk (join root p.relPath)).isNone
      | _ => true
  | _ => true

theorem opensNew_sound {a : WritersAction} (h : opensNew root s a = true) : OpensNew root s a := by
  rintro i rfl wr p hwr hphase
  simpa [opensNew, hwr, hphase] using h

def noWriters (disk : Disk) : WritersState where
  world := { emptyWorld with disk }
  writers _ := none

/-- All steps of a call, its content written at once. -/
def wholeCall (i : Nat) : List WritersAction :=
  [.start i (simpleInput none) simpleContext, .step i .probe, .step i .open,
   .step i (.write 1000), .step i (.stat 0), .step i .upsert]

def hasReturned (s : WritersState) (i : Nat) : Bool :=
  match (s.writers i).map Writer.phase with
  | some (.returned _ _) => true
  | _ => false

/-- Two calls for one title, one after the other, preserve an old file and each other's entries. -/
theorem records_preserve_of_opensNew_twoCalls :
    let before : Disk := Disk.write (fun _ => none) ["old.md".toList] "old".toList
    ∃ s, hasReturned s 0 = true ∧ hasReturned s 1 = true ∧ Preserved flatHost [] before s := by
  intro before
  have hinit : Lib.Reaches (writersStep flatHost []) (OpensNew []) (Unstarted before)
      (noWriters before) := .init ⟨rfl, fun _ => rfl⟩
  obtain ⟨s, hs, hreturned⟩ := hinit.exists_of_tested_run (writersStep flatHost [])
    (fun _ _ => opensNew_sound) (wholeCall 0 ++
      [.start 1 (simpleInput none) simpleContext, .step 1 .probe] ++ (wholeCall 1).drop 1)
    (fun s => hasReturned s 0 && hasReturned s 1) (by decide +kernel)
  rw [Bool.and_eq_true] at hreturned
  exact ⟨s, hreturned.1, hreturned.2, records_preserve_of_opensNew flatHost [] before hs⟩

/-- A file that the index does not know has the path of a new entry, and its bytes are lost. -/
theorem record_overwrites_unindexed_file :
    ¬ ∀ (host : Host) (root : Path) (before : Disk) (s : WritersState),
      Lib.Reaches (writersStep host root) (fun _ _ => True) (Unstarted before) s →
        Preserved host root before s := by
  intro h
  let path : Path := ["misc".toList, "slow-build.md".toList]
  let before : Disk := Disk.write (fun _ => none) path "Notes.".toList
  have hinit : Unstarted before (noWriters before) := ⟨rfl, fun _ => rfl⟩
  obtain ⟨s, hs, hlost⟩ := Lib.Reaches.exists_of_run (writersStep flatHost []) hinit (wholeCall 0)
    (fun s => decide (s.world.disk path ≠ before path)) (by decide +kernel)
  obtain ⟨file, hfile⟩ : ∃ file, before path = some file := ⟨_, rfl⟩
  have hkept := (h flatHost [] before s hs).kept path file hfile
  rw [hfile] at hlost
  exact absurd hkept (of_decide_eq_true hlost)

end Caveat.Write
