import Caveat.Publish.Mirror
import Caveat.Publish.Approval
import Caveat.Sealed.RoundTrip

/-!
# The boundary of publishing

Whatever fails, `publishOwn` makes at most one commit, on a branch without a past, and pushes
nothing else. The commit holds a README and a bundle, and the bundle holds the bytes of the public
entries that were parsed and scanned. An invalid entry or a finding stops the run before it touches
the mirror.
-/

namespace Caveat.Publish

open Js Lib Entry Sealed Git

/-! ## What may be committed -/

/-- A file of a bundle is a public entry, byte for byte. -/
structure BundledEntry (host : Host) (walk : List EntryFile) (file : BundleFile) : Prop where
  source : ∃ source ∈ walk, file.relPath = relPathOf source.path ∧ file.content = source.content
  visible : ∃ parsed, parseMarkdown host (decodeUtf8 file.content) = .ok parsed ∧
    parsed.frontmatter.get "visibility".toList = .string "public".toList

/-- The digests that a file of allowed digests gives. -/
def AllowFile.digests : AllowFile → List Units
  | .allow digests => digests.filter isDigest
  | _ => []

section Boundary

variable (env : Env) (opts : PublishOwnOptions) (walk : List EntryFile)

/-- The findings that block a run with a file of allowed digests. -/
def blockingFor (allowFile : AllowFile) : List ScanFinding :=
  (scanPublishFiles env.doubles env.sha256 env.selfIdentity
    (allowFile.digests ++ opts.allow) (collectPublishSet env.host walk).files).blocking

/-- An entry is invalid or a finding remains. -/
def Refused (w : World) : Prop :=
  (collectPublishSet env.host walk).invalid ≠ [] ∨ blockingFor env opts walk w.allowFile ≠ []

/-- The bytes are the sealed public entries. -/
structure SealedEntries (bundle : Bytes) : Prop where
  made : ∃ contentKey keyserverUrl,
    env.normalizeKeyserverUrl opts.sealedKeyserverUrl = some keyserverUrl ∧
      env.key (keyIdOf opts) keyserverUrl = some contentKey ∧
      sealBundle env.crypto ((collectPublishSet env.host walk).files.map PublishFile.bundled)
        contentKey (keyIdOf opts) keyserverUrl = .ok bundle

/-- A commit without a past that holds a README and the sealed public entries. -/
structure PublishedCommit (commit : Commit) : Prop where
  parents : commit.parents = []
  files : ∀ f ∈ commit.tree, f.1 = readmeRelPath ∨
    f.1 = bundleRelPath ∧ SealedEntries env opts walk f.2

/-- Nothing was committed or pushed. -/
def Untouched (w₀ w : World) : Prop := w.commits = w₀.commits ∧ w.remote = w₀.remote

/-- At most one commit was made, and no other one was pushed. -/
def Outcome (w₀ w : World) : Prop :=
  Untouched w₀ w ∨ ∃ commit, PublishedCommit env opts walk commit ∧
    w.commits = w₀.commits ++ [commit] ∧ (w.remote = w₀.remote ∨ ∃ branch,
      w.remote = { w₀.remote with branches := w₀.remote.branches.set branch w₀.commits.length })

/-! ## Steps -/

variable {env opts walk} {P : World → Prop} {w₀ : World}

theorem onMirror_eq_some {f : Copy → Option Copy} {w w' : World} (h : w.onMirror f = some w') :
    ∃ copy copy', w.mirror = some copy ∧ f copy = some copy' ∧
      w' = { w with mirror := some copy' } := by
  unfold World.onMirror at h
  obtain ⟨copy', hbind, hw⟩ := Option.map_eq_some_iff.mp h
  obtain ⟨copy, hcopy, hf⟩ := Option.bind_eq_some_iff.mp hbind
  exact ⟨copy, copy', hcopy, hf, hw.symm⟩

/-- A step on the mirror commits and pushes nothing. -/
theorem run_onMirror_untouched {c : Command} {f : World → Copy → Option Copy} :
    Meets (Untouched w₀) (run env c (fun w => w.onMirror (f w))) (fun _ => Untouched w₀)
      (fun _ => Untouched w₀) := by
  refine Meets.command ?_ (fun _ h => h) (fun _ _ h => h)
  intro w w' hw heff
  obtain ⟨copy, copy', _, _, rfl⟩ := onMirror_eq_some heff
  exact ⟨hw, hw⟩

theorem ask_meets {α : Type} {c : Command} {read : World → Option α} :
    Meets P (ask env c read) (fun a w => P w ∧ read w = some a) (fun _ => P) :=
  Meets.query (fun _ _ h hr => ⟨h, hr⟩) fun _ h => h

theorem askOr_meets {α : Type} {c : Command} {read : World → Option α}
    {E : PublishError → World → Prop} : Meets P (askOr env c read) (fun _ => P) E := by
  refine Meets.tryCatch (E := fun _ => P) ?_ fun e => Meets.pure fun _ h => h
  exact Meets.bind ask_meets fun a => Meets.pure fun _ h => h.1

theorem attempt_meets {x : Program Unit} {E : PublishError → World → Prop}
    (h : Meets P x (fun _ => P) (fun _ => P)) : Meets P (attempt x) (fun _ => P) E :=
  Meets.tryCatch h fun _ => Meets.pure fun _ h => h

theorem ofOption_bind {α β : Type} {e : PublishError} {o : Option α} {f : α → Program β}
    {Q : β → World → Prop} {E : PublishError → World → Prop} (hnone : ∀ w, P w → E e w)
    (hsome : ∀ a, o = some a → Meets P (f a) Q E) : Meets P (ofOption e o >>= f) Q E := by
  cases o with
  | none => exact fun w hw => hnone w hw
  | some a => exact hsome a rfl

theorem ofExcept_bind {ε α β : Type} {wrap : ε → PublishError} {x : Except ε α} {f : α → Program β}
    {Q : β → World → Prop} {E : PublishError → World → Prop} (herror : ∀ e w, P w → E e w)
    (hok : ∀ a, x = .ok a → Meets P (f a) Q E) : Meets P (ofExcept wrap x >>= f) Q E := by
  cases x with
  | error e => exact fun w hw => herror _ w hw
  | ok a => exact hok a rfl

/-! ## Until the mirror is touched -/

/-- At most the file of allowed digests has changed. -/
def Same (w₀ w : World) : Prop := w.mirror = w₀.mirror ∧ Untouched w₀ w

theorem loadPublishAllow_meets : Meets (fun w => w = w₀) loadPublishAllow
    (fun digests w => w = w₀ ∧ digests = w₀.allowFile.digests) (fun _ w => w = w₀) := by
  unfold loadPublishAllow
  refine Meets.bind (Meets.get (Q := fun w s => w = w₀ ∧ s = w₀) fun _ h => ⟨h, h⟩) fun w => ?_
  rintro s ⟨rfl, rfl⟩
  cases hallow : s.allowFile with
  | absent => exact ⟨rfl, rfl⟩
  | malformed => rfl
  | allow digests => exact ⟨rfl, rfl⟩

theorem savePublishAllow_meets {digests : List Units} : Meets (Same w₀)
    (savePublishAllow env digests) (fun _ => Same w₀) (fun _ => Same w₀) := by
  unfold savePublishAllow
  have hload : Meets (Same w₀) loadPublishAllow (fun _ => Same w₀) (fun _ => Same w₀) := by
    intro s hs
    rcases loadPublishAllow_meets.run (rfl : s = s) with ⟨a, s', hrun, h⟩ | ⟨e, s', hrun, h⟩
    · rw [hrun]
      exact h.1 ▸ hs
    · rw [hrun]
      exact h ▸ hs
  refine Meets.bind hload fun existing => Meets.command ?_ (fun _ h => h) (fun _ _ h => h)
  intro w w' hw heff
  obtain rfl := Option.some.inj heff
  exact ⟨hw, hw⟩

/-- **A run that is refused throws before the mirror is touched.** -/
theorem publishableFiles_meets : Meets (fun w => w = w₀) (publishableFiles env opts walk)
    (fun files w => (Same w₀ w ∧ ¬ Refused env opts walk w₀) ∧
      files = (collectPublishSet env.host walk).files)
    (fun _ w => Same w₀ w) := by
  have hsame : ∀ w, w = w₀ → Same w₀ w := by
    rintro w rfl
    exact ⟨rfl, rfl, rfl⟩
  unfold publishableFiles
  refine Meets.throwIf_bind (fun w hw _ => hsame w hw) fun _ => ?_
  refine Meets.throwIf_bind (fun w hw _ => hsame w hw) fun _ => ?_
  refine Meets.throwIf_bind (fun w hw _ => hsame w hw) fun hvalid => ?_
  refine Meets.bind (loadPublishAllow_meets.weaken (fun _ h => h) (fun _ _ h => h)
    fun _ w h => hsame w h) fun stored => Meets.assume fun hstored => ?_
  subst hstored
  have hsave : Meets (fun w => w = w₀) (doIf (opts.saveAllow = true ∧ opts.allow ≠ [])
      (savePublishAllow env opts.allow)) (fun _ => Same w₀) (fun _ => Same w₀) :=
    (Meets.doIf (fun _ => savePublishAllow_meets) fun _ h _ => h).pre hsame
  refine Meets.bind hsave fun _ => Meets.throwIf_bind (fun _ h _ => h) fun hscan => ?_
  exact Meets.pure fun w hw => ⟨⟨hw, fun hrefused => hrefused.elim hvalid hscan⟩, rfl⟩

/-- What was sealed, and with which key. -/
structure Sealing (env : Env) (opts : PublishOwnOptions) (files : List PublishFile)
    (out : SealedMirror) : Prop where
  made : ∃ keyserverUrl, env.normalizeKeyserverUrl opts.sealedKeyserverUrl = some keyserverUrl ∧
    env.key (keyIdOf opts) keyserverUrl = some out.contentKey ∧
      sealBundle env.crypto (files.map PublishFile.bundled) out.contentKey (keyIdOf opts)
        keyserverUrl = .ok out.bundle

theorem sealFiles_meets {files : List PublishFile} : Meets P (sealFiles env opts files)
    (fun out w => P w ∧ Sealing env opts files out) (fun _ => P) := by
  unfold sealFiles
  refine ofOption_bind (fun _ h => h) fun keyserverUrl hurl => ?_
  refine ofOption_bind (fun _ h => h) fun contentKey hkey => ?_
  refine ofExcept_bind (fun _ _ h => h) fun bundle hbundle => ?_
  refine ofExcept_bind (fun _ _ h => h) fun readme _ => ?_
  exact Meets.pure fun w hw => ⟨hw, ⟨keyserverUrl, hurl, hkey, hbundle⟩⟩

theorem preparePublishMirror_untouched {target : Units} : Meets (Untouched w₀)
    (preparePublishMirror env target) (fun _ => Untouched w₀) (fun _ => Untouched w₀) := by
  have hopen : Meets (Untouched w₀) (openMirror env target) (fun _ => Untouched w₀)
      (fun _ => Untouched w₀) := by
    unfold openMirror
    refine Meets.bind (Meets.get (Q := fun _ => Untouched w₀) fun _ h => h) fun w => ?_
    refine Meets.ite (fun _ => Meets.command ?_ (fun _ h => h) fun _ _ h => h) fun _ => ?_
    · intro w w' hw heff
      obtain rfl := Option.some.inj heff
      exact ⟨hw, hw⟩
    · refine Meets.bind (ask_meets.post fun _ _ h => h.1) fun old => ?_
      exact Meets.throwIf fun _ h _ => h
  have hreset : ∀ resolved, Meets (Untouched w₀) (resetMirror env resolved)
      (fun _ => Untouched w₀) (fun _ => Untouched w₀) := by
    intro resolved
    cases resolved with
    | none => exact Meets.pure fun _ h => h
    | some id => exact run_onMirror_untouched
  unfold preparePublishMirror
  refine Meets.bind hopen fun _ => Meets.bind run_onMirror_untouched fun _ => ?_
  refine Meets.bind askOr_meets fun head => Meets.bind askOr_meets fun resolved => ?_
  exact Meets.bind (hreset resolved) fun _ => run_onMirror_untouched

theorem currentBranch_meets : Meets P (currentBranch env) (fun _ => P) (fun _ => P) := by
  have hremote : Meets P (remoteHeadBranch env) (fun _ => P) (fun _ => P) :=
    Meets.bind askOr_meets fun _ => Meets.pure fun _ h => h
  unfold currentBranch
  refine Meets.bind askOr_meets fun name => ?_
  cases name with
  | none => exact hremote
  | some name => exact Meets.ite (fun _ => Meets.pure fun _ h => h) fun _ => hremote

/-! ## The commit -/

/-- HEAD is on a branch that has no commit. -/
def OnOrphan (w : World) : Prop := ∃ copy, w.mirror = some copy ∧
  copy.repo.head = .branch tmpBranch ∧ copy.repo.branches.get? tmpBranch = none

theorem checkoutOrphan_meets : Meets (Untouched w₀) (checkoutOrphan env)
    (fun _ w => Untouched w₀ w ∧ OnOrphan w) (fun _ => Untouched w₀) := by
  unfold checkoutOrphan
  refine Meets.bind (attempt_meets run_onMirror_untouched) fun _ => ?_
  refine Meets.bind (attempt_meets run_onMirror_untouched) fun _ => ?_
  refine Meets.command ?_ (fun _ h => h) fun _ _ h => h
  intro w w' hw heff
  obtain ⟨copy, copy', _, hcopy, rfl⟩ := onMirror_eq_some heff
  refine ⟨⟨hw, copy', rfl, ?_⟩, hw⟩
  split at hcopy
  · exact absurd hcopy (by simp)
  · rename_i hfree
    obtain rfl := Option.some.inj hcopy
    exact ⟨rfl, by simpa using hfree⟩

theorem writeSealedMirror_meets {bundle : Bytes} {readme : Units} :
    Meets (fun w => Untouched w₀ w ∧ OnOrphan w) (writeSealedMirror env bundle readme)
      (fun _ w => Untouched w₀ w ∧ OnOrphan w) (fun _ w => Untouched w₀ w) := by
  have hwrite : ∀ (c : Command) (f : Files → Files), Meets (fun w => Untouched w₀ w ∧ OnOrphan w)
      (run env c (fun w => w.onMirror (fun copy => some { copy with files := f copy.files })))
      (fun _ w => Untouched w₀ w ∧ OnOrphan w) (fun _ w => Untouched w₀ w) := by
    intro c f
    refine Meets.command ?_ (fun _ h => h.1) fun _ _ h => h.1
    rintro w w' ⟨hw, copy, hmirror, horphan⟩ heff
    obtain ⟨copy₁, copy', hmirror', hcopy, rfl⟩ := onMirror_eq_some heff
    obtain rfl := Option.some.inj (hmirror.symm.trans hmirror')
    obtain rfl := Option.some.inj hcopy
    exact ⟨⟨hw, _, rfl, horphan⟩, hw⟩
  refine Meets.bind (hwrite .removeItems fun _ => []) fun _ => ?_
  refine Meets.bind (hwrite .writeReadme fun files => files.write readmeRelPath (toUtf8 readme))
    fun _ => ?_
  exact hwrite .writeBundle fun files => files.write bundleRelPath bundle

/-- The mirror holds nothing but a README and the bundle. -/
def OnlySealed (bundle : Bytes) (w : World) : Prop := ∀ copy, w.mirror = some copy →
  ∀ f ∈ copy.files, f.1 = readmeRelPath ∨ f.1 = bundleRelPath ∧ f.2 = bundle

theorem only_of_mirrorTree {files : Files} {readme bundle : Bytes}
    (htree : mirrorTree files = [unitsOf readmeRelPath, unitsOf bundleRelPath])
    (hreadme : files.get? readmeRelPath = some readme)
    (hbundle : files.get? bundleRelPath = some bundle) :
    ∀ f ∈ files, f.1 = readmeRelPath ∨ f.1 = bundleRelPath ∧ f.2 = bundle := by
  have hlength : files.length = 2 := by
    have := congrArg List.length htree
    rwa [mirrorTree, sortUnits, List.length_insertionSort, List.length_map] at this
  have hne : readmeRelPath ≠ bundleRelPath := by decide
  obtain ⟨f, g, rfl⟩ := List.length_eq_two.mp hlength
  have hfound : ∀ path bytes, Files.get? [f, g] path = some bytes →
      f.1 = path ∧ f.2 = bytes ∨ f.1 ≠ path ∧ g.1 = path ∧ g.2 = bytes := by
    intro path bytes h
    unfold Files.get? at h
    by_cases hf : f.1 = path
    · simp only [List.find?_cons, hf, decide_true, Option.map_some, Option.some.injEq] at h
      exact Or.inl ⟨hf, h⟩
    · by_cases hg : g.1 = path
      · simp only [List.find?_cons, hf, hg, decide_false, decide_true, Option.map_some,
          Option.some.injEq] at h
        exact Or.inr ⟨hf, hg, h⟩
      · simp [hf, hg] at h
  -- both names are there, so there is no third one
  intro x hx
  rcases hfound _ _ hreadme with ⟨hf, _⟩ | ⟨hf, hg, _⟩
  · rcases hfound _ _ hbundle with ⟨hf', _⟩ | ⟨_, hg', hbytes⟩
    · exact absurd (hf.symm.trans hf') hne
    · rcases List.mem_pair.mp hx with rfl | rfl
      · exact Or.inl hf
      · exact Or.inr ⟨hg', hbytes⟩
  · rcases hfound _ _ hbundle with ⟨hf', hbytes⟩ | ⟨_, hg', _⟩
    · rcases List.mem_pair.mp hx with rfl | rfl
      · exact Or.inr ⟨hf', hbytes⟩
      · exact Or.inl hg
    · exact absurd (hg.symm.trans hg') hne

theorem verifySealedMirror_meets {bundle contentKey : Bytes} {count : Nat} {readme : Units} :
    Meets P (verifySealedMirror env bundle contentKey count readme)
      (fun _ w => P w ∧ OnlySealed bundle w) (fun _ => P) := by
  unfold verifySealedMirror
  refine Meets.bind ask_meets fun files => ?_
  have hout : ∀ w, (P w ∧ w.mirror.map Copy.files = some files) → P w := fun _ h => h.1
  refine Meets.throwIf_bind (fun w h _ => hout w h) fun htree => ?_
  refine ofOption_bind hout fun diskReadme hreadme => ?_
  refine Meets.throwIf_bind (fun w h _ => hout w h) fun _ => ?_
  refine ofOption_bind hout fun diskBundle hbundle => ?_
  refine Meets.throwIf_bind (fun w h _ => hout w h) fun hsame => ?_
  refine ofExcept_bind (fun _ w h => hout w h) fun unsealed _ => ?_
  refine Meets.throwIf_bind (fun w h _ => hout w h) fun _ => Meets.pure fun w hw => ⟨hw.1, ?_⟩
  rintro copy hcopy f hf
  have hfiles : copy.files = files := by
    have := hw.2
    rw [hcopy] at this
    exact Option.some.inj this
  rw [hfiles] at hf
  rw [not_not] at htree hsame
  rw [← hsame]
  exact only_of_mirrorTree htree hreadme hbundle f hf

/-- The commit was made on a branch that now has it. -/
def Committed (env : Env) (opts : PublishOwnOptions) (walk : List EntryFile) (w₀ w : World) :
    Prop := ∃ commit copy branch, PublishedCommit env opts walk commit ∧
  w.commits = w₀.commits ++ [commit] ∧ w.remote = w₀.remote ∧ w.mirror = some copy ∧
    copy.repo.head = .branch branch ∧ copy.repo.branches.get? branch = some w₀.commits.length

/-- There is nothing that could be pushed. -/
def NoCommit (w₀ w : World) : Prop := Untouched w₀ w ∧ ∃ copy branch, w.mirror = some copy ∧
  copy.repo.head = .branch branch ∧ copy.repo.branches.get? branch = none

theorem Committed.outcome {w : World} (h : Committed env opts walk w₀ w) :
    Outcome env opts walk w₀ w := by
  obtain ⟨commit, _, _, hgood, hcommits, hremote, _⟩ := h
  exact Or.inr ⟨commit, hgood, hcommits, Or.inl hremote⟩

theorem get?_delete_self (refs : Refs) (name : Text) : (refs.delete name).get? name = none := by
  unfold Refs.get? Refs.delete
  rw [Option.map_eq_none_iff, List.find?_eq_none]
  intro r hr
  simpa using (List.mem_filter.mp hr).2

theorem addAll_meets {bundle : Bytes} : Meets
    (fun w => (Untouched w₀ w ∧ OnOrphan w) ∧ OnlySealed bundle w)
    (run env .addAll (fun w => w.onMirror (fun copy => some (copy.addAll env.ignored))))
    (fun _ w => Untouched w₀ w ∧ ∃ copy, w.mirror = some copy ∧
      copy.repo.head = .branch tmpBranch ∧ copy.repo.branches.get? tmpBranch = none ∧
        ∀ f ∈ copy.repo.index, f.1 = readmeRelPath ∨ f.1 = bundleRelPath ∧ f.2 = bundle)
    (fun _ => Untouched w₀) := by
  refine Meets.command ?_ (fun _ h => h.1.1) fun _ _ h => h.1.1
  rintro w w' ⟨⟨hw, copy, hmirror, hhead, hfree⟩, honly⟩ heff
  obtain ⟨copy₁, copy', hmirror', hcopy, rfl⟩ := onMirror_eq_some heff
  obtain rfl := Option.some.inj (hmirror.symm.trans hmirror')
  obtain rfl := Option.some.inj hcopy
  refine ⟨⟨hw, _, rfl, hhead, hfree, fun f hf => ?_⟩, hw⟩
  exact honly copy hmirror f (List.mem_of_mem_filter hf)

theorem commit_meets {bundle : Bytes} (hsealed : SealedEntries env opts walk bundle) : Meets
    (fun w => Untouched w₀ w ∧ ∃ copy, w.mirror = some copy ∧
      copy.repo.head = .branch tmpBranch ∧ copy.repo.branches.get? tmpBranch = none ∧
        ∀ f ∈ copy.repo.index, f.1 = readmeRelPath ∨ f.1 = bundleRelPath ∧ f.2 = bundle)
    (run env .commit (fun w => w.mirror.map (fun copy =>
      let (commits, repo) := commitIndex w.commits copy.repo
      { w with commits, mirror := some { copy with repo } })))
    (fun _ w => NoCommit w₀ w ∨ Committed env opts walk w₀ w)
    (fun _ => Outcome env opts walk w₀) := by
  refine Meets.command ?_ (fun _ h => Or.inl h.1) fun _ _ h => Or.inl h.1
  rintro w w' ⟨hw, copy, hmirror, hhead, hfree, hindex⟩ heff
  rw [hmirror, Option.map_some] at heff
  obtain rfl := Option.some.inj heff
  have hcommit : copy.repo.headCommit = none := by rw [Repo.headCommit, hhead]; exact hfree
  unfold commitIndex
  rw [hcommit]
  dsimp only [Option.bind_none, Option.map_none, Option.getD_none]
  by_cases hsame : (copy.repo.index.isPerm []) = true
  · rw [if_pos hsame]
    exact ⟨Or.inl ⟨hw, _, _, rfl, hhead, hfree⟩, Or.inl hw⟩
  · rw [if_neg hsame]
    have hmade : Committed env opts walk w₀
        { w with
          commits := w.commits ++ [{ tree := copy.repo.index, parents := [] }]
          mirror := some { copy with repo := copy.repo.moveHead w.commits.length } } := by
      refine ⟨{ tree := copy.repo.index, parents := [] }, _, tmpBranch, ⟨rfl, ?_⟩, ?_, hw.2, rfl, ?_,
        ?_⟩
      · intro f hf
        rcases hindex f hf with hname | ⟨hname, hbytes⟩
        · exact Or.inl hname
        · exact Or.inr ⟨hname, hbytes ▸ hsealed⟩
      · exact congrArg (· ++ _) hw.1
      · rw [Repo.moveHead, hhead]
      · rw [Repo.moveHead, hhead, hw.1]
        simp [Refs.set, Refs.get?]
    exact ⟨Or.inr hmade, hmade.outcome⟩

/-- The commit was made, and the branch that is pushed has it. -/
def Ready (env : Env) (opts : PublishOwnOptions) (walk : List EntryFile) (branch : Text)
    (w₀ w : World) : Prop := ∃ commit copy, PublishedCommit env opts walk commit ∧
  w.commits = w₀.commits ++ [commit] ∧ w.remote = w₀.remote ∧ w.mirror = some copy ∧
    copy.repo.branches.get? branch = some w₀.commits.length

theorem Ready.outcome {branch : Text} {w : World} (h : Ready env opts walk branch w₀ w) :
    Outcome env opts walk w₀ w := by
  obtain ⟨commit, _, hgood, hcommits, hremote, _⟩ := h
  exact Or.inr ⟨commit, hgood, hcommits, Or.inl hremote⟩

theorem renameBranch_meets {branch : Text} : Meets
    (fun w => NoCommit w₀ w ∨ Committed env opts walk w₀ w)
    (run env .renameBranch (fun w => w.onMirror (fun copy =>
      (copy.repo.renameBranch branch).map (fun repo => { copy with repo }))))
    (fun _ w => NoCommit w₀ w ∨ Ready env opts walk branch w₀ w)
    (fun _ => Outcome env opts walk w₀) := by
  have houtcome : ∀ w, NoCommit w₀ w ∨ Committed env opts walk w₀ w →
      Outcome env opts walk w₀ w := by
    rintro w (h | h)
    · exact Or.inl h.1
    · exact h.outcome
  refine Meets.command ?_ houtcome ?_
  · rintro w w' h heff
    obtain ⟨copy, copy', hmirror, hcopy, rfl⟩ := onMirror_eq_some heff
    obtain ⟨repo, hrepo, rfl⟩ := Option.map_eq_some_iff.mp hcopy
    unfold Repo.renameBranch at hrepo
    rcases h with ⟨hw, copy₁, current, hmirror₁, hhead, hnone⟩ |
      ⟨commit, copy₁, current, hgood, hcommits, hremote, hmirror₁, hhead, hsome⟩
    · obtain rfl := Option.some.inj (hmirror₁.symm.trans hmirror)
      rw [hhead] at hrepo
      obtain rfl := Option.some.inj hrepo
      rw [hnone]
      exact ⟨Or.inl ⟨hw, _, branch, rfl, rfl, get?_delete_self _ _⟩, Or.inl hw⟩
    · obtain rfl := Option.some.inj (hmirror₁.symm.trans hmirror)
      rw [hhead] at hrepo
      obtain rfl := Option.some.inj hrepo
      rw [hsome]
      refine ⟨Or.inr ⟨commit, _, hgood, hcommits, hremote, rfl, ?_⟩,
        Or.inr ⟨commit, hgood, hcommits, Or.inl hremote⟩⟩
      simp [Refs.get?]
  · rintro left w (⟨hw, _⟩ | ⟨commit, _, _, hgood, hcommits, hremote, _⟩)
    · exact Or.inl hw
    · exact Or.inr ⟨commit, hgood, hcommits, Or.inl hremote⟩

/-- A branch without a commit has no revisions to count. -/
theorem revList_meets {branch : Text} : Meets
    (fun w => NoCommit w₀ w ∨ Ready env opts walk branch w₀ w)
    (ask env .revList (fun w => w.mirror.bind (fun copy => revisionCount w.commits copy.repo)))
    (fun _ w => Ready env opts walk branch w₀ w) (fun _ => Outcome env opts walk w₀) := by
  refine Meets.query ?_ ?_
  · rintro w count (⟨_, copy, current, hmirror, hhead, hnone⟩ | h) hread
    · rw [hmirror, Option.bind_some, revisionCount, Repo.headCommit, hhead] at hread
      dsimp only at hread
      rw [hnone] at hread
      exact absurd hread (by simp)
    · exact h
  · rintro w (h | h)
    · exact Or.inl h.1
    · exact h.outcome

theorem push_meets {branch : Text} : Meets (Ready env opts walk branch w₀)
    (run env .push (fun w => w.mirror.bind (fun copy =>
      (pushBranch copy.repo branch w.remote).map (fun remote => { w with remote }))))
    (fun _ => Outcome env opts walk w₀) (fun _ => Outcome env opts walk w₀) := by
  refine Meets.command ?_ (fun _ h => h.outcome) ?_
  · rintro w w' ⟨commit, copy, hgood, hcommits, hremote, hmirror, hbranch⟩ heff
    rw [hmirror, Option.bind_some, pushBranch, hbranch] at heff
    obtain rfl := Option.some.inj heff
    have hpushed : Outcome env opts walk w₀ { w with
        remote := { w.remote with
          branches := w.remote.branches.set branch w₀.commits.length } } :=
      Or.inr ⟨commit, hgood, hcommits, Or.inr ⟨branch, by rw [hremote]⟩⟩
    exact ⟨hpushed, hpushed⟩
  · rintro left w ⟨commit, copy, hgood, hcommits, hremote, _⟩
    exact Or.inr ⟨commit, hgood, hcommits, Or.inl hremote⟩

theorem commitSealedMirror_meets {bundle : Bytes} (hsealed : SealedEntries env opts walk bundle)
    {branch : Text} : Meets (fun w => (Untouched w₀ w ∧ OnOrphan w) ∧ OnlySealed bundle w)
    (commitSealedMirror env branch) (fun _ => Outcome env opts walk w₀)
    (fun _ => Outcome env opts walk w₀) := by
  unfold commitSealedMirror
  refine Meets.bind (addAll_meets.weaken (fun _ h => h) (fun _ _ h => h) fun _ _ h => Or.inl h)
    fun _ => Meets.bind (commit_meets hsealed) fun _ => Meets.bind renameBranch_meets fun _ => ?_
  refine Meets.bind revList_meets fun count => ?_
  refine Meets.throwIf_bind (fun _ h _ => h.outcome) fun _ => ?_
  refine Meets.bind push_meets fun _ => attempt_meets ?_
  refine Meets.command ?_ (fun _ h => h) fun _ _ h => h
  rintro w w' hw heff
  obtain rfl := Option.some.inj heff
  exact ⟨hw, hw⟩

/-! ## The run -/

theorem SealedEntries.of_sealing {out : SealedMirror}
    (h : Sealing env opts (collectPublishSet env.host walk).files out) :
    SealedEntries env opts walk out.bundle := by
  obtain ⟨keyserverUrl, hurl, hkey, hbundle⟩ := h.made
  exact ⟨⟨out.contentKey, keyserverUrl, hurl, hkey, hbundle⟩⟩

theorem publishSealed_meets {branch : Text} {count : Nat} {out : SealedMirror}
    (hsealed : SealedEntries env opts walk out.bundle) : Meets (Untouched w₀)
    (publishSealed env opts branch count out) (fun _ => Outcome env opts walk w₀)
    (fun _ => Outcome env opts walk w₀) := by
  have hconfirm : Meets (Untouched w₀) (confirmPublish opts) (fun _ => Untouched w₀)
      (fun _ => Untouched w₀) :=
    Meets.doIf (fun _ => Meets.throwIf_bind (fun _ h _ => h) fun _ => Meets.throwIf fun _ h _ => h)
      fun _ h _ => h
  have hout : ∀ (_ : PublishError) w, Untouched w₀ w → Outcome env opts walk w₀ w :=
    fun _ _ h => Or.inl h
  unfold publishSealed
  refine Meets.bind (hconfirm.weaken (fun _ h => h) (fun _ _ h => h) hout) fun _ => ?_
  refine Meets.bind (checkoutOrphan_meets.weaken (fun _ h => h) (fun _ _ h => h) hout) fun _ => ?_
  refine Meets.bind (writeSealedMirror_meets.weaken (fun _ h => h) (fun _ _ h => h) hout)
    fun _ => ?_
  refine Meets.bind (verifySealedMirror_meets.weaken (fun _ h => h) (fun _ _ h => h)
    fun e w h => hout e w h.1) fun verified => ?_
  exact Meets.bind (commitSealedMirror_meets hsealed) fun _ => Meets.pure fun _ h => h

/-- **Every run**, from any world. -/
theorem publishOwn_meets : Meets (fun w => w = w₀) (publishOwn env opts walk)
    (fun _ w => Outcome env opts walk w₀ w ∧ ¬ Refused env opts walk w₀)
    (fun _ w => Outcome env opts walk w₀ w ∧ (Refused env opts walk w₀ → Same w₀ w)) := by
  unfold publishOwn
  refine Meets.bind (publishableFiles_meets.weaken (fun _ h => h) (fun _ _ h => h)
    fun _ _ h => ⟨Or.inl h.2, fun _ => h⟩) fun files => Meets.assume fun hfiles => ?_
  subst hfiles
  refine (Meets.assume (P := Untouched w₀) fun hfree => ?_).pre fun _ h => ⟨h.1.2, h.2⟩
  -- from here on the run is not refused, and only the last part commits
  have hout : ∀ (_ : PublishError) w, Outcome env opts walk w₀ w →
      Outcome env opts walk w₀ w ∧ (Refused env opts walk w₀ → Same w₀ w) :=
    fun _ _ h => ⟨h, fun hrefused => absurd hrefused hfree⟩
  refine Meets.bind (sealFiles_meets.weaken (fun _ h => h) (fun _ _ h => h)
    fun e w h => hout e w (Or.inl h)) fun out => Meets.assume fun hsealing => ?_
  refine Meets.bind (preparePublishMirror_untouched.weaken (fun _ h => h) (fun _ _ h => h)
    fun e w h => hout e w (Or.inl h)) fun _ => ?_
  refine Meets.bind (currentBranch_meets.weaken (fun _ h => h) (fun _ _ h => h)
    fun e w h => hout e w (Or.inl h)) fun branch => ?_
  have hexisting : Meets (Untouched w₀) readExistingMirror (fun _ => Untouched w₀)
      (fun _ w => Outcome env opts walk w₀ w ∧ (Refused env opts walk w₀ → Same w₀ w)) :=
    Meets.bind (Meets.get (Q := fun _ => Untouched w₀) fun _ h => h) fun _ => Meets.pure fun _ h => h
  refine Meets.bind hexisting fun existing => ?_
  refine Meets.bind askOr_meets fun remoteSha => Meets.bind askOr_meets fun localSha => ?_
  refine Meets.ite (fun _ => Meets.pure fun w h => ⟨Or.inl h, hfree⟩) fun _ => ?_
  refine Meets.ite (fun _ => Meets.pure fun w h => ⟨Or.inl h, hfree⟩) fun _ => ?_
  exact (publishSealed_meets (SealedEntries.of_sealing hsealing)).weaken (fun _ h => h)
    (fun _ _ h => ⟨h, hfree⟩) hout

/-- Who has the key can unseal exactly the public entries. -/
theorem SealedEntries.unseals {bundle : Bytes} (hc : env.crypto.Lawful)
    (hround : ExactNaturals env.round) (h : SealedEntries env opts walk bundle) :
    ∃ keyserverUrl contentKey unsealed,
      env.normalizeKeyserverUrl opts.sealedKeyserverUrl = some keyserverUrl ∧
        env.key (keyIdOf opts) keyserverUrl = some contentKey ∧
        unsealBundle env.crypto env.round bundle contentKey = .ok unsealed ∧
        unsealed.files.Perm ((collectPublishSet env.host walk).files.map PublishFile.bundled) ∧
        ∀ file ∈ unsealed.files, BundledEntry env.host walk file := by
  obtain ⟨contentKey, keyserverUrl, hurl, hkey, hbundle⟩ := h.made
  obtain ⟨sealing⟩ := sealBundle_ok_iff.mp hbundle
  have hperm := sortFiles_perm ((collectPublishSet env.host walk).files.map PublishFile.bundled)
  refine ⟨keyserverUrl, contentKey, _, hurl, hkey, unsealBundle_sealBundle hc hround sealing, hperm,
    fun file hfile => ?_⟩
  obtain ⟨published, hpublished, rfl⟩ := List.mem_map.mp (hperm.subset hfile)
  obtain ⟨source, hsource, hpublic⟩ := mem_collectPublishSet hpublished
  exact ⟨⟨source, hsource, hpublic.relPath, hpublic.content⟩, hpublic.visible⟩

end Boundary

/--
**The boundary.** A run with an invalid entry or a finding throws, and the mirror, the commits and
the remote are as before. Every run makes at most one commit and pushes no other one; its history
is itself, no entry was invalid and nothing was found when it was made, and it holds a README and a
bundle whose files are the public entries with the bytes that were parsed and scanned.
-/
theorem publish_boundary (env : Env) (hc : env.crypto.Lawful) (hround : ExactNaturals env.round)
    (opts : PublishOwnOptions) (walk : List EntryFile) (w w' : World)
    (hrun : stateAfter (publishOwn env opts walk w) = w') :
    (Refused env opts walk w → (∃ e, publishOwn env opts walk w = .error e w') ∧
      w'.mirror = w.mirror ∧ w'.commits = w.commits ∧ w'.remote = w.remote) ∧
    (w'.commits = w.commits ∧ w'.remote = w.remote ∨ ∃ commit, w'.commits = w.commits ++ [commit] ∧
      (w'.remote = w.remote ∨ ∃ branch, w'.remote =
        { w.remote with branches := w.remote.branches.set branch w.commits.length }) ∧
      commit.parents = [] ∧ ¬ Refused env opts walk w ∧
      ∀ f ∈ commit.tree, f.1 = readmeRelPath ∨ f.1 = bundleRelPath ∧
        ∃ keyserverUrl contentKey unsealed,
          env.normalizeKeyserverUrl opts.sealedKeyserverUrl = some keyserverUrl ∧
          env.key (keyIdOf opts) keyserverUrl = some contentKey ∧
          unsealBundle env.crypto env.round f.2 contentKey = .ok unsealed ∧
          unsealed.files.Perm ((collectPublishSet env.host walk).files.map PublishFile.bundled) ∧
          ∀ file ∈ unsealed.files, BundledEntry env.host walk file) := by
  have houtcome : Outcome env opts walk w w' ∧ (Refused env opts walk w →
      (∃ e, publishOwn env opts walk w = .error e w') ∧ Same w w') := by
    rcases publishOwn_meets.run (rfl : w = w) with
      ⟨a, s, hok, hout, hfree⟩ | ⟨e, s, herr, hout, hsame⟩
    · rw [hok] at hrun
      obtain rfl : s = w' := hrun
      exact ⟨hout, fun hrefused => absurd hrefused hfree⟩
    · rw [herr] at hrun
      obtain rfl : s = w' := hrun
      exact ⟨hout, fun hrefused => ⟨⟨e, herr⟩, hsame hrefused⟩⟩
  obtain ⟨hout, hrefuse⟩ := houtcome
  refine ⟨fun hrefused => ?_, ?_⟩
  · obtain ⟨herror, hmirror, hcommits, hremote⟩ := hrefuse hrefused
    exact ⟨herror, hmirror, hcommits, hremote⟩
  · rcases hout with huntouched | ⟨commit, hgood, hcommits, hremote⟩
    · exact Or.inl huntouched
    · refine Or.inr ⟨commit, hcommits, hremote, hgood.parents, fun hrefused => ?_, fun f hf => ?_⟩
      · have hsame := (hrefuse hrefused).2.2.1
        rw [hcommits] at hsame
        exact absurd hsame (by simp)
      · rcases hgood.files f hf with hname | ⟨hname, hsealed⟩
        · exact Or.inl hname
        · exact Or.inr ⟨hname, hsealed.unseals hc hround⟩

/-! ## A refused run -/

/-- An entry that is neither public nor private. -/
def draftEntry : EntryFile where
  path := unitsOf "draft.md".toList
  content := encodeUtf8 "---\nvisibility: draft\n---\nA body.\n".toList
  markdown := by decide
  noNul := by decide

/-- Nothing fails, and every key can be had. -/
def calmEnv : Env where
  host := flatHost
  doubles := exactDoubles
  crypto := plainCrypto
  round := .finite
  sha256 := keepBytes
  normalizeKeyserverUrl := some
  key _ _ := some (List.replicate 32 0)
  selfIdentity := []
  ignored _ := false
  fault _ := none

def yesOptions : PublishOwnOptions where
  publishTarget := [1]
  sealedKeyserverUrl := [1]
  sealedKeyId := [1]
  isTty := true
  confirm := true
  dryRun := false
  yes := true
  allow := []
  saveAllow := false

/-- An empty remote and no mirror. -/
def emptyWorld : World where
  mirror := none
  remote := { head := "main".toList, branches := [] }
  commits := []
  allowFile := .absent

/-- An entry that is neither public nor private stops the run, and nothing is cloned. -/
theorem publish_boundary_draft : ∃ e w',
    publishOwn calmEnv yesOptions [draftEntry] emptyWorld = .error e w' ∧ w'.mirror = none ∧
      w'.commits = [] ∧ w'.remote = emptyWorld.remote := by
  have hrefused : Refused calmEnv yesOptions [draftEntry] emptyWorld := Or.inl (by decide +kernel)
  obtain ⟨⟨e, herror⟩, hmirror, hcommits, hremote⟩ := (publish_boundary calmEnv plainCrypto_lawful
    (fun _ _ => rfl) yesOptions [draftEntry] emptyWorld _ rfl).1 hrefused
  exact ⟨e, _, herror, hmirror, hcommits, hremote⟩

end Caveat.Publish
