import Caveat.Managed.RecoveryReplay

/-!
# The places of a recovery's objects

The name of an object that was moved tells whose it is, and no object has such a name at home. So two
objects can be at one place at home only, and then one of them is generated: neither has been moved
since the model was built.
-/

namespace Caveat.Managed.Recovery

open Js Lib

variable {m m' m₀ : RecoveryModel} {origin : GlobalMigrationEvidence} {target root runId : Text}
  {s t : Subject} {l : RecoveryLocation}

/-! ## Names -/

def objectNames : List Text := ["caveat-cli".toList, ".package-lock.json".toList] ++ leafNames

/-- The step of an object, by its name. -/
def stepOf (name : Text) : Text :=
  if name = "caveat-cli".toList then "package".toList
  else if name = ".package-lock.json".toList then "management".toList
  else dashed name

/-- The backup's name, by the object's. -/
def backupOf (name : Text) : Text :=
  if name = "caveat-cli".toList then "original-package".toList
  else if name = ".package-lock.json".toList then "original-management".toList
  else "original-".toList ++ name

/-- Whose a name is. -/
inductive Tag where
  | home (name : Text)
  | backup (name : Text)
  | used (step : Text)
  | file (index : Text)
  | shell
deriving DecidableEq

/-- The tag that can be read from a name. -/
def tagOf (runId name : Text) : Tag :=
  if name.head? = some 'u' then
    let rest := name.drop 5
    if rest.head? = some 'g' then
      if rest.drop 10 = shellName then .shell else .file (rest.drop 10)
    else if (rest.drop 4).head? = some '-' then .used (rest.drop (runId.length + 6))
    else .used (rest.drop 8)
  else if name.head? = some 'o' then .backup name
  else .home name

theorem tagOf_home {name : Text} (h : name ∈ shellName :: objectNames) :
    tagOf runId name = .home name := by
  have hhead : name.head? ≠ some 'u' ∧ name.head? ≠ some 'o' := by
    have hall : ∀ name ∈ shellName :: objectNames,
        name.head? ≠ some 'u' ∧ name.head? ≠ some 'o' := by decide
    exact hall name h
  rw [tagOf, if_neg hhead.1, if_neg hhead.2]

theorem tagOf_backup {name : Text} (h : name ∈ objectNames) :
    tagOf runId (backupOf name) = .backup (backupOf name) := by
  have hhead : (backupOf name).head? = some 'o' := by
    have hall : ∀ name ∈ objectNames, (backupOf name).head? = some 'o' := by decide
    exact hall name h
  rw [tagOf, hhead, if_neg (by decide), if_pos rfl]

theorem tagOf_used (runId rest : Text) : tagOf runId (usedName rest) =
    if rest.head? = some 'g' then
      if rest.drop 10 = shellName then .shell else .file (rest.drop 10)
    else if (rest.drop 4).head? = some '-' then .used (rest.drop (runId.length + 6))
    else .used (rest.drop 8) := rfl

theorem tagOf_staged (runId step : Text) :
    tagOf runId (usedName ("work-".toList ++ runId ++ "-".toList ++ step)) = .used step := by
  have hdrop : ("work-".toList ++ runId ++ "-".toList ++ step).drop (runId.length + 6) = step := by
    refine List.drop_left' ?_
    simp only [List.length_append]
    show 5 + runId.length + 1 = runId.length + 6
    omega
  have hhead : ("work-".toList ++ runId ++ "-".toList ++ step).head? = some 'w' := rfl
  have hdash : (("work-".toList ++ runId ++ "-".toList ++ step).drop 4).head? = some '-' := rfl
  rw [tagOf_used, hhead, if_neg (by decide), hdash, if_pos rfl, hdrop]

theorem tagOf_working (runId step : Text) : tagOf runId (usedWorking step) = .used step := by
  have hhead : ("working-".toList ++ step).head? = some 'w' := rfl
  have hletter : (("working-".toList ++ step).drop 4).head? = some 'i' := rfl
  have hdrop : ("working-".toList ++ step).drop 8 = step := rfl
  rw [usedWorking, tagOf_used, hhead, if_neg (by decide), hletter, if_neg (by decide), hdrop]

theorem ofNat_ne_shell (k : Nat) : ofNat k ≠ shellName := by
  intro heq
  have hdigit : Char.isDigit 's' = true := isDigit_of_mem_ofNat (n := k) (by
    rw [heq]
    decide)
  exact absurd hdigit (by decide)

theorem tagOf_file (runId : Text) (k : Nat) :
    tagOf runId (usedName (generatedName k)) = .file (ofNat k) := by
  have hdrop : (generatedName k).drop 10 = ofNat k := rfl
  have hhead : (generatedName k).head? = some 'g' := rfl
  rw [tagOf_used, hhead, if_pos rfl, hdrop, if_neg (ofNat_ne_shell k)]

theorem tagOf_shell (runId : Text) : tagOf runId (usedName shellBackup) = .shell := rfl

/-! ## Objects of the evidence -/

/-- What the scope of an object says about its names. -/
theorem InScope.names {o : EvidenceObject} (husable : Usable origin)
    (h : InScope origin.plan o) :
    o.name ∈ objectNames ∧ o.step = stepOf o.name ∧ o.backupName = backupOf o.name := by
  cases h with
  | package _ hname hstep hbackup _ =>
      rw [hname, hstep, hbackup]
      exact ⟨by decide, by decide, by decide⟩
  | npmManagement _ hname hstep hbackup _ =>
      rw [hname, hstep, hbackup]
      exact ⟨by decide, by decide, by decide⟩
  | leaf _ hleaf hstep hbackup _ =>
      obtain ⟨row, hrow, hname, _⟩ := hleaf
      have hmem : o.name ∈ leafNames := hname ▸ husable.leaves row hrow
      have hplain : ∀ name ∈ leafNames,
          name ≠ "caveat-cli".toList ∧ name ≠ ".package-lock.json".toList := by decide
      obtain ⟨hcli, hlock⟩ := hplain o.name hmem
      rw [stepOf, if_neg hcli, if_neg hlock, backupOf, if_neg hcli, if_neg hlock]
      exact ⟨List.mem_append_right _ hmem, hstep, hbackup⟩

theorem backupOf_injective {name name' : Text} (h : name ∈ objectNames) (h' : name' ∈ objectNames)
    (heq : backupOf name = backupOf name') : name = name' := by
  have hall : ∀ name ∈ objectNames, ∀ name' ∈ objectNames,
      backupOf name = backupOf name' → name = name' := by decide
  exact hall name h name' h' heq

theorem Checked.usable {runDirectory : Text} (h : Checked origin runDirectory runId) :
    Usable origin := ⟨h.steps, h.leafNames⟩

/-! ## Where an object can be -/

/-- The name of a subject's object at home. -/
def homeName (origin : GlobalMigrationEvidence) : Subject → Option Text
  | .manifest => some shellName
  | .file i => origin.plan.leaves[i]?.map (·.name)
  | .working i | .original i => origin.objects[i]?.map (·.name)

/-- The tag of a subject's object when it was moved. -/
def movedTag (origin : GlobalMigrationEvidence) : Subject → Option Tag
  | .manifest => some .shell
  | .file i => origin.plan.leaves[i]?.map (fun _ => .file (ofNat i))
  | .working i => origin.objects[i]?.map (fun o => .used o.step)
  | .original i => origin.objects[i]?.map (fun o => .backup (backupOf o.name))

def Subject.isGenerated : Subject → Bool
  | .manifest | .file _ => true
  | .working _ | .original _ => false

/-- The subject's object is at home: an original when it is not due, every other one when it is. -/
def RecoveryModel.atHome (m : RecoveryModel) : Subject → Bool
  | .original i => !m.due (.original i)
  | .working i => m.due (.working i) && m.due (.original i)
  | s => m.due s

theorem GeneratedSound.entry {directory name backup : Text} {row : GeneratedObject}
    (h : GeneratedSound directory name backup row) (hl : row.entry = some l) :
    l.name = usedName backup ∨ row.status = .installed ∧ l.name = name := by
  cases hs : row.status with
  | absent =>
      rw [h.absent hs] at hl
      exact absurd hl (by simp)
  | installed =>
      obtain ⟨l', hl', hplace⟩ := h.installed hs
      rw [hl] at hl'
      rw [Option.some.inj hl']
      exact .inr ⟨rfl, congrArg Prod.snd hplace⟩
  | quarantined => exact .inl (h.used l hs hl)
  | unknown => exact absurd hs h.status

/-- **An object is at home or has the name of its move.** -/
theorem entry_name {runDirectory : Text} (hchecked : Checked origin runDirectory runId)
    (h : Sound origin runId m) (hl : m.entryOf s = some l) :
    movedTag origin s = some (tagOf runId l.name) ∨
      m.atHome s = true ∧ homeName origin s = some l.name := by
  cases s with
  | manifest =>
      rcases h.manifest.entry hl with hname | ⟨hstatus, hname⟩
      · rw [hname, tagOf_shell]
        exact .inl rfl
      · rw [hname]
        exact .inr ⟨by simp [RecoveryModel.atHome, RecoveryModel.due, hstatus], rfl⟩
  | file i =>
      obtain ⟨row, hrow, hl⟩ := Option.bind_eq_some_iff.mp hl
      obtain ⟨leaf, hleaf, hsound⟩ := h.files i row hrow
      rw [movedTag, homeName, hleaf]
      rcases hsound.entry hl with hname | ⟨hstatus, hname⟩
      · rw [hname, tagOf_file]
        exact .inl rfl
      · rw [hname]
        exact .inr ⟨by simp [RecoveryModel.atHome, RecoveryModel.due, hrow, hstatus], rfl⟩
  | working i =>
      obtain ⟨row, hrow, hl⟩ := Option.bind_eq_some_iff.mp hl
      obtain ⟨o, ho, hsound⟩ := h.objects i row hrow
      rw [movedTag, homeName, ho]
      cases hw : row.working with
      | none =>
          rw [hsound.none hw] at hl
          exact absurd hl (by simp)
      | some w =>
          cases hk : w.isKnown with
          | true =>
              obtain ⟨hstate, l', hl', hplace⟩ := hsound.known w hw hk
              rw [hl] at hl'
              rw [Option.some.inj hl']
              refine .inr ⟨?_, congrArg some (congrArg Prod.snd hplace).symm⟩
              simp [RecoveryModel.atHome, RecoveryModel.due, hrow, hw, hk, hstate]
          | false =>
              refine .inl ?_
              rcases hsound.used w l hw hk hl with hname | hname
              · rw [hname, hsound.staging w hw, tagOf_staged]
                rfl
              · rw [hname, tagOf_working]
                rfl
  | original i =>
      obtain ⟨row, hrow, rfl⟩ := Option.map_eq_some_iff.mp hl
      obtain ⟨o, ho, hsound⟩ := h.objects i row hrow
      obtain ⟨hname, _, hbackup⟩ := (hchecked.scope o (List.mem_of_getElem? ho)).names hchecked.usable
      rw [movedTag, homeName, ho]
      by_cases hstate : row.state = .preserved
      · rw [hsound.backup hstate, hbackup, tagOf_backup hname]
        exact .inl rfl
      · refine .inr ⟨?_, congrArg some (congrArg Prod.snd (hsound.home hstate)).symm⟩
        simp [RecoveryModel.atHome, RecoveryModel.due, hrow, hstate]

/-- No name at home is that of a moved object. -/
theorem tag_of_homeName {runDirectory name : Text} (hchecked : Checked origin runDirectory runId)
    (h : homeName origin s = some name) : tagOf runId name = .home name := by
  have hleaves : ∀ name ∈ leafNames, name ∈ shellName :: objectNames := by decide
  refine tagOf_home ?_
  cases s with
  | manifest => exact Option.some.inj h ▸ List.mem_cons_self
  | file i =>
      obtain ⟨leaf, hleaf, rfl⟩ := Option.map_eq_some_iff.mp h
      exact hleaves _ (hchecked.leafNames leaf (List.mem_of_getElem? hleaf))
  | working i | original i =>
      obtain ⟨o, ho, rfl⟩ := Option.map_eq_some_iff.mp h
      exact List.mem_cons_of_mem _
        ((hchecked.scope o (List.mem_of_getElem? ho)).names hchecked.usable).1

theorem movedTag_ne_home {name : Text} : movedTag origin s ≠ some (.home name) := by
  intro h
  cases s with
  | manifest => exact absurd h (by simp [movedTag])
  | file i | working i | original i =>
      obtain ⟨_, _, h⟩ := Option.map_eq_some_iff.mp h
      exact absurd h (by simp)

/-- Elements with one key are at one index, where the keys differ. -/
theorem index_of_nodup_map {α β : Type} {as : List α} {f : α → β} (h : (as.map f).Nodup) {i j : Nat}
    {a b : α} (ha : as[i]? = some a) (hb : as[j]? = some b) (heq : f a = f b) : i = j := by
  have hi : i < (as.map f).length := by
    rw [List.length_map]
    exact (List.getElem?_eq_some_iff.mp ha).1
  refine (List.getElem?_inj hi h).mp ?_
  rw [List.getElem?_map, List.getElem?_map, ha, hb, Option.map_some, Option.map_some, heq]

/-- Objects of one name are one object. -/
theorem object_of_name {runDirectory : Text} (hchecked : Checked origin runDirectory runId) {i j : Nat}
    {o o' : EvidenceObject} (ho : origin.objects[i]? = some o) (ho' : origin.objects[j]? = some o')
    (hname : o.name = o'.name) : i = j := by
  have hstep : o.step = o'.step := by
    rw [((hchecked.scope o (List.mem_of_getElem? ho)).names hchecked.usable).2.1,
      ((hchecked.scope o' (List.mem_of_getElem? ho')).names hchecked.usable).2.1, hname]
  exact index_of_nodup_map hchecked.steps ho ho' hstep

/-- The tag of a moved object tells which it is. -/
theorem movedTag_injective {runDirectory : Text} (hchecked : Checked origin runDirectory runId)
    {tag : Tag} (hs : movedTag origin s = some tag) (ht : movedTag origin t = some tag) : s = t := by
  cases s with
  | manifest =>
      obtain rfl := Option.some.inj hs
      cases t with
      | manifest => rfl
      | file j | working j | original j =>
          obtain ⟨_, _, h⟩ := Option.map_eq_some_iff.mp ht
          exact absurd h (by simp)
  | file i =>
      obtain ⟨_, _, rfl⟩ := Option.map_eq_some_iff.mp hs
      cases t with
      | manifest => exact absurd ht (by simp [movedTag])
      | file j =>
          obtain ⟨_, _, h⟩ := Option.map_eq_some_iff.mp ht
          exact congrArg Subject.file (ofNat_inj.mp (Tag.file.inj h)).symm
      | working j | original j =>
          obtain ⟨_, _, h⟩ := Option.map_eq_some_iff.mp ht
          exact absurd h (by simp)
  | working i =>
      obtain ⟨o, ho, rfl⟩ := Option.map_eq_some_iff.mp hs
      cases t with
      | manifest => exact absurd ht (by simp [movedTag])
      | working j =>
          obtain ⟨o', ho', h⟩ := Option.map_eq_some_iff.mp ht
          exact congrArg Subject.working
            (index_of_nodup_map hchecked.steps ho ho' (Tag.used.inj h).symm)
      | file j | original j =>
          obtain ⟨_, _, h⟩ := Option.map_eq_some_iff.mp ht
          exact absurd h (by simp)
  | original i =>
      obtain ⟨o, ho, rfl⟩ := Option.map_eq_some_iff.mp hs
      cases t with
      | manifest => exact absurd ht (by simp [movedTag])
      | original j =>
          obtain ⟨o', ho', h⟩ := Option.map_eq_some_iff.mp ht
          have hname : o.name = o'.name := backupOf_injective
            ((hchecked.scope o (List.mem_of_getElem? ho)).names hchecked.usable).1
            ((hchecked.scope o' (List.mem_of_getElem? ho')).names hchecked.usable).1
            (Tag.backup.inj h).symm
          exact congrArg Subject.original (object_of_name hchecked ho ho' hname)
      | file j | working j =>
          obtain ⟨_, _, h⟩ := Option.map_eq_some_iff.mp ht
          exact absurd h (by simp)

/-- Of the objects at home, two of one name are a generated file and what it was generated for. -/
theorem mixed_of_homeName {runDirectory name : Text} (hchecked : Checked origin runDirectory runId)
    (hne : s ≠ t) (hshome : m.atHome s = true) (hthome : m.atHome t = true)
    (hs : homeName origin s = some name) (ht : homeName origin t = some name) :
    s.isGenerated ≠ t.isGenerated := by
  have hshell : ∀ {s : Subject}, s ≠ .manifest → homeName origin s ≠ some shellName := by
    intro s hs h
    cases s with
    | manifest => exact hs rfl
    | file i =>
        obtain ⟨leaf, hleaf, hname⟩ := Option.map_eq_some_iff.mp h
        exact leafName_ne_shell (hchecked.leafNames leaf (List.mem_of_getElem? hleaf)) hname
    | working i | original i =>
        obtain ⟨o, ho, hname⟩ := Option.map_eq_some_iff.mp h
        have hmem := ((hchecked.scope o (List.mem_of_getElem? ho)).names hchecked.usable).1
        rw [hname] at hmem
        exact absurd hmem (by decide)
  have hobjects : ∀ {i j : Nat}, origin.objects[i]?.map (·.name) = some name →
      origin.objects[j]?.map (·.name) = some name → i = j := by
    intro i j hi hj
    obtain ⟨o, ho, hname⟩ := Option.map_eq_some_iff.mp hi
    obtain ⟨o', ho', rfl⟩ := Option.map_eq_some_iff.mp hj
    exact object_of_name hchecked ho ho' hname
  by_cases hsm : s = .manifest
  · rw [hsm] at hs hne
    obtain rfl := Option.some.inj hs
    exact absurd ht (hshell hne.symm)
  by_cases htm : t = .manifest
  · rw [htm] at ht hne
    obtain rfl := Option.some.inj ht
    exact absurd hs (hshell hne)
  cases s with
  | manifest => exact absurd rfl hsm
  | file i =>
      cases t with
      | manifest => exact absurd rfl htm
      | file j =>
          obtain ⟨leaf, hleaf, hname⟩ := Option.map_eq_some_iff.mp hs
          obtain ⟨leaf', hleaf', rfl⟩ := Option.map_eq_some_iff.mp ht
          exact absurd (congrArg Subject.file
            (index_of_nodup_map hchecked.leavesDistinct hleaf hleaf' hname)) hne
      | working j | original j => simp [Subject.isGenerated]
  | working i =>
      cases t with
      | manifest => exact absurd rfl htm
      | file j => simp [Subject.isGenerated]
      | working j => exact absurd (congrArg Subject.working (hobjects hs ht)) hne
      | original j =>
          -- a known copy is at home only while its original is not
          obtain rfl := hobjects hs ht
          rw [RecoveryModel.atHome, Bool.and_eq_true] at hshome
          rw [RecoveryModel.atHome, hshome.2] at hthome
          exact absurd hthome (by simp)
  | original i =>
      cases t with
      | manifest => exact absurd rfl htm
      | file j => simp [Subject.isGenerated]
      | working j =>
          obtain rfl := hobjects hs ht
          rw [RecoveryModel.atHome, Bool.and_eq_true] at hthome
          rw [RecoveryModel.atHome, hthome.2] at hshome
          exact absurd hshome (by simp)
      | original j => exact absurd (congrArg Subject.original (hobjects hs ht)) hne

/-! ## Places -/

/-- Two subjects' objects are at one place. -/
def SamePlace (m : RecoveryModel) (s t : Subject) : Prop :=
  ∃ l l', m.entryOf s = some l ∧ m.entryOf t = some l' ∧ l.place = l'.place

theorem due_mem (h : m.due s = true) : s ∈ m.subjects := by
  cases s with
  | manifest => exact manifest_mem_subjects
  | file i =>
      obtain ⟨row, hrow, _⟩ := Option.any_eq_true _ _ |>.mp h
      exact file_mem_subjects hrow
  | working i =>
      obtain ⟨row, hrow, _⟩ := Option.any_eq_true _ _ |>.mp h
      exact working_mem_subjects hrow
  | original i =>
      obtain ⟨row, hrow, _⟩ := Option.any_eq_true _ _ |>.mp h
      exact original_mem_subjects hrow

/-- Beside a generated object, nothing at home was moved since the model was built. -/
theorem entry_same (hsince : ∀ s, Since m₀ m s) (hs : m.atHome s = true) (ht : m.atHome t = true)
    (hgenerated : t.isGenerated = true) : m.entryOf s = m₀.entryOf s := by
  have hdue : m.due t = true := by
    cases t with
    | manifest | file j => exact ht
    | working j | original j => exact absurd hgenerated (by simp [Subject.isGenerated])
  have hphase : m.phase t < 2 := by
    cases t with
    | manifest | file j => exact Nat.zero_lt_two
    | working j | original j => exact absurd hgenerated (by simp [Subject.isGenerated])
  rcases hsince s with hsame | ⟨hdone, hnone⟩
  · exact hsame
  · cases s with
    | manifest | file i => exact absurd (hdone.symm.trans hs) (by simp)
    | working i =>
        rw [RecoveryModel.atHome, hdone] at hs
        exact absurd hs (by simp)
    | original i =>
        -- it went home when nothing generated was left
        have hnot := hnone i rfl t (due_mem hdue) hphase
        rw [hdue] at hnot
        exact absurd hnot (by simp)

/-- **Objects that are at one place were there when the model was built**, and one of them is
generated, the other an original or its working copy. -/
theorem samePlace_of_replayed {runDirectory : Text} (hchecked : Checked origin runDirectory runId)
    {done : List Action} (h : Replayed origin runId m₀ done m) (hne : s ≠ t)
    (hplace : SamePlace m s t) : SamePlace m₀ s t ∧ s.isGenerated ≠ t.isGenerated := by
  obtain ⟨l, l', hl, hl', heq⟩ := hplace
  have hname : l.name = l'.name := congrArg Prod.snd heq
  have hs := entry_name hchecked h.sound hl
  have ht := entry_name hchecked h.sound hl'
  rw [← hname] at ht
  rcases hs with hs | ⟨hshome, hs⟩ <;> rcases ht with ht | ⟨hthome, ht⟩
  · exact absurd (movedTag_injective hchecked hs ht) hne
  · rw [tag_of_homeName hchecked ht] at hs
    exact absurd hs movedTag_ne_home
  · rw [tag_of_homeName hchecked hs] at ht
    exact absurd ht movedTag_ne_home
  · have hmixed := mixed_of_homeName hchecked hne hshome hthome hs ht
    have hboth : m.entryOf s = m₀.entryOf s ∧ m.entryOf t = m₀.entryOf t := by
      -- each generated object is due, so it was not moved, and nothing went home beside it
      cases hgenerated : s.isGenerated with
      | true => exact ⟨entry_same h.since hshome hshome hgenerated,
          entry_same h.since hthome hshome hgenerated⟩
      | false =>
          have hgenerated' : t.isGenerated = true := by
            cases htg : t.isGenerated with
            | true => rfl
            | false => exact absurd (hgenerated.trans htg.symm) hmixed
          exact ⟨entry_same h.since hshome hthome hgenerated',
            entry_same h.since hthome hthome hgenerated'⟩
    exact ⟨⟨l, l', hboth.1 ▸ hl, hboth.2 ▸ hl', heq⟩, hmixed⟩

end Caveat.Managed.Recovery
