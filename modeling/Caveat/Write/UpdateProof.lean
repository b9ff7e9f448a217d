import Caveat.Write.Update

/-!
# When an update gets to its write

`UpdateWrites` collects everything that `updateEntry` checks before it writes, and
`prepareUpdate_ok_iff` says that nothing else stands between the call and the write.
-/

namespace Caveat.Write

open Js Entry Index

variable {host : Host} {env : Environment} {id : Text} {patch : UpdatePatch} {ctx : UpdateContext}
  {w : World} {row : Row} {raw : Text} {parsed : ParsedMarkdown} {built : BuiltEntry}
  {p : Prepared}

/-- The file of an indexed own entry is read, and patching it gives a text that fits. -/
structure UpdateWrites (host : Host) (env : Environment) (id : Text) (patch : UpdatePatch)
    (ctx : UpdateContext) (w : World) (row : Row) (raw : Text) (parsed : ParsedMarkdown)
    (built : BuiltEntry) : Prop where
  own : ctx.source = .own
  found : w.table.find? (.own, id) = some row
  read : (w.disk (Lib.PosixPath.join env.entriesRoot row.value.columns.path)).map DiskFile.text =
    some raw
  parses : parseMarkdown host raw true = .ok parsed
  keysMutable : ∀ f ∈ entries (patch.frontmatter.getD []), f.1 ∉ immutableKeys
  object : assertObject parsed.frontmatter = .ok ()
  fits : rebuildEntry host parsed patch ctx.ymd = .ok built

theorem readForUpdate_ok_iff : readForUpdate env id ctx w = .ok (row, raw) ↔
    ctx.source = .own ∧ w.table.find? (.own, id) = some row ∧
      (w.disk (Lib.PosixPath.join env.entriesRoot row.value.columns.path)).map DiskFile.text =
        some raw := by
  unfold readForUpdate
  by_cases hown : ctx.source = .own
  · rw [if_neg (by simp [hown]), hown]
    cases hfind : w.table.find? (.own, id) with
    | none => simp
    | some r =>
        cases hdisk : w.disk (Lib.PosixPath.join env.entriesRoot r.value.columns.path) with
        | none =>
            simp only [hdisk, reduceCtorEq, false_iff, true_and, Option.some.injEq, not_and]
            rintro rfl
            simp [hdisk]
        | some file =>
            simp only [hdisk, Except.ok.injEq, Prod.mk.injEq, true_and, Option.some.injEq]
            constructor
            · rintro ⟨rfl, rfl⟩
              exact ⟨rfl, by simp [hdisk]⟩
            · rintro ⟨rfl, hraw⟩
              exact ⟨rfl, by simpa [hdisk] using hraw⟩
  · simp [hown]

theorem assertMutable_ok_iff : assertMutable patch = .ok () ↔
    ∀ f ∈ entries (patch.frontmatter.getD []), f.1 ∉ immutableKeys := by
  unfold assertMutable
  cases hfind : (entries (patch.frontmatter.getD [])).find?
      (fun f => immutableKeys.any (fun key => key = f.1)) with
  | none => simpa using hfind
  | some f =>
      have hmem := List.mem_of_find?_eq_some hfind
      have hkey : f.1 ∈ immutableKeys := by simpa using List.find?_some hfind
      simp only [reduceCtorEq, false_iff, not_forall, not_not]
      exact ⟨f, hmem, hkey⟩

/-- **An update is prepared just when it gets to its write.** -/
theorem prepareUpdate_ok_iff : prepareUpdate host env id patch ctx w = .ok p ↔
    ∃ row raw parsed built, UpdateWrites host env id patch ctx w row raw parsed built ∧
      { relPath := row.value.columns.path, content := built.content
        row := updateRow id ctx row.value.columns.path
          (mergedFrontmatter parsed.frontmatter patch ctx.ymd) built.body } = p := by
  rw [prepareUpdate, Lib.bind_eq_ok]
  constructor
  · rintro ⟨⟨row, raw⟩, hread, h⟩
    obtain ⟨parsed, hparsed, h⟩ := Lib.bind_eq_ok.mp h
    obtain ⟨⟨⟩, hmutable, h⟩ := Lib.bind_eq_ok.mp h
    obtain ⟨⟨⟩, hobject, h⟩ := Lib.bind_eq_ok.mp h
    obtain ⟨built, hbuilt, h⟩ := Lib.bind_eq_ok.mp h
    obtain ⟨hown, hfound, hraw⟩ := readForUpdate_ok_iff.mp hread
    exact ⟨row, raw, parsed, built,
      ⟨hown, hfound, hraw, liftEntry_ok.mp hparsed, assertMutable_ok_iff.mp hmutable, hobject,
        liftEntry_ok.mp hbuilt⟩, Except.ok.inj h⟩
  · rintro ⟨row, raw, parsed, built, h, hp⟩
    refine ⟨(row, raw), readForUpdate_ok_iff.mpr ⟨h.own, h.found, h.read⟩, ?_⟩
    refine Lib.bind_eq_ok.mpr ⟨parsed, liftEntry_ok.mpr h.parses, ?_⟩
    refine Lib.bind_eq_ok.mpr ⟨(), assertMutable_ok_iff.mpr h.keysMutable, ?_⟩
    refine Lib.bind_eq_ok.mpr ⟨(), h.object, ?_⟩
    exact Lib.bind_eq_ok.mpr ⟨built, liftEntry_ok.mpr h.fits, congrArg Except.ok hp⟩

end Caveat.Write
