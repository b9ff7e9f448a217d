import Caveat.Sync.Init

/-!
# Nothing private is pushed to a readable remote

Both ways to push pass the same gate first, and nothing between the gate and the push changes where
a push goes. So a push comes after a probe of every URL that it delivers to, and a refusal comes
before any commit.
-/

namespace Caveat.Sync.Own

open Js Lib Git

/-- An answer that lets private entries be pushed. -/
def Accepted (trustRemotePrivate : Bool) : RemoteAccess → Prop
  | .anonymousReadable => False
  | .indeterminate _ => trustRemotePrivate = true
  | .denied _ => True

section Gate

variable (env : Env) (trust : Bool)

/-- What the gate says of a list of push URLs. -/
def Refuses (urls : Option (List PushUrl)) : Prop := ∃ pushUrls i url, urls = some pushUrls ∧
  pushUrls[i]? = some url ∧
    ¬ Accepted trust (env.probe i (deriveAnonymousProbeUrl env.parseUrl url.text))

/-- Every push goes to the effective push URLs, after a probe of each and no refused one. -/
def Gated (urls : Option (List PushUrl)) (events : List Event) : Prop :=
  ∀ pre targets post, events = pre ++ .pushed targets :: post →
    (∃ pushUrls, urls = some pushUrls ∧ targets = pushUrls.map PushUrl.text ∧
      ∀ url ∈ pushUrls, ∃ access,
        .probed (deriveAnonymousProbeUrl env.parseUrl url.text) access ∈ pre) ∧
    ∀ probeUrl access, .probed probeUrl access ∈ pre → Accepted trust access

def NoPush (events : List Event) : Prop := ∀ e ∈ events, ∃ url access, e = .probed url access

/-! ## The trace -/

/-- Since the start of the call there have been probes only. -/
def Quiet (t₀ : List Event) (w : World) : Prop :=
  ∃ events, w.trace = t₀ ++ events ∧ NoPush events

/-- These URLs have been probed, and no probe was refused. -/
def Trail (t₀ : List Event) (urls : List Text) (w : World) : Prop :=
  ∃ events, w.trace = t₀ ++ events ∧
    (∀ e ∈ events, ∃ url access, e = .probed url access ∧ Accepted trust access) ∧
      ∀ url ∈ urls, ∃ access, .probed (deriveAnonymousProbeUrl env.parseUrl url) access ∈ events

/-- A push, if there was one, was gated. -/
def Pushed (urls : Option (List PushUrl)) (t₀ : List Event) (w : World) : Prop :=
  ∃ events, w.trace = t₀ ++ events ∧ Gated env trust urls events

variable {env trust} {t₀ : List Event} {urls : List Text} {w : World}

theorem Trail.quiet (h : Trail env trust t₀ urls w) : Quiet t₀ w := by
  obtain ⟨events, htrace, hprobes, _⟩ := h
  refine ⟨events, htrace, fun e he => ?_⟩
  obtain ⟨url, access, rfl, _⟩ := hprobes e he
  exact ⟨url, access, rfl⟩

theorem gated_of_noPush {pushUrls : Option (List PushUrl)} {events : List Event}
    (h : NoPush events) : Gated env trust pushUrls events := by
  intro pre targets post heq
  obtain ⟨url, access, hno⟩ := h (.pushed targets) (by rw [heq]; simp)
  exact absurd hno (by simp)

theorem Quiet.pushed {pushUrls : Option (List PushUrl)} (h : Quiet t₀ w) :
    Pushed env trust pushUrls t₀ w := by
  obtain ⟨events, htrace, hno⟩ := h
  exact ⟨events, htrace, gated_of_noPush hno⟩

theorem Quiet.snoc {url : Option Text} {access : RemoteAccess} (h : Quiet t₀ w) :
    Quiet t₀ { w with trace := w.trace ++ [.probed url access] } := by
  obtain ⟨events, htrace, hno⟩ := h
  refine ⟨events ++ [.probed url access], ?_, fun e he => ?_⟩
  · show w.trace ++ _ = _
    rw [htrace, List.append_assoc]
  · rcases List.mem_append.mp he with he | he
    · exact hno e he
    · exact ⟨url, access, List.mem_singleton.mp he⟩

/-- An accepted probe makes the trail longer. -/
theorem Trail.snoc {url : Text} {access : RemoteAccess} (h : Trail env trust t₀ urls w)
    (haccepted : Accepted trust access) : Trail env trust t₀ (urls ++ [url])
      { w with trace := w.trace ++ [.probed (deriveAnonymousProbeUrl env.parseUrl url) access] } := by
  obtain ⟨events, htrace, hprobes, hurls⟩ := h
  refine ⟨events ++ [.probed (deriveAnonymousProbeUrl env.parseUrl url) access], ?_, ?_, ?_⟩
  · show w.trace ++ _ = _
    rw [htrace, List.append_assoc]
  · intro e he
    rcases List.mem_append.mp he with he | he
    · exact hprobes e he
    · exact ⟨_, access, List.mem_singleton.mp he, haccepted⟩
  · intro url' hurl
    rcases List.mem_append.mp hurl with hurl | hurl
    · obtain ⟨access', hmem⟩ := hurls url' hurl
      exact ⟨access', List.mem_append_left _ hmem⟩
    · rw [List.mem_singleton.mp hurl]
      exact ⟨access, List.mem_append_right _ (List.mem_singleton_self _)⟩

/-- A push behind the trail of its URLs is gated. -/
theorem Trail.gated {pushUrls : List PushUrl} {events : List Event}
    (hprobes : ∀ e ∈ events, ∃ url access, e = .probed url access ∧ Accepted trust access)
    (hurls : ∀ url ∈ pushUrls.map PushUrl.text, ∃ access,
      .probed (deriveAnonymousProbeUrl env.parseUrl url) access ∈ events) :
    Gated env trust (some pushUrls) (events ++ [.pushed (pushUrls.map PushUrl.text)]) := by
  intro pre targets post heq
  have hlast : post = [] ∧ events = pre ∧ targets = pushUrls.map PushUrl.text := by
    rcases List.eq_nil_or_concat post with rfl | ⟨init, e, rfl⟩
    · obtain ⟨hpre, hpush⟩ := List.append_inj' heq rfl
      exact ⟨rfl, hpre, (Event.pushed.inj (List.singleton_inj.mp hpush)).symm⟩
    · -- a push before the last event would be among the probes
      exfalso
      have hinit : events = pre ++ .pushed targets :: init := by
        have := congrArg List.dropLast heq
        rw [List.dropLast_concat] at this
        rw [this, List.concat_eq_append, ← List.cons_append, ← List.append_assoc,
          List.dropLast_concat]
      obtain ⟨url, access, hno, _⟩ := hprobes (.pushed targets) (by rw [hinit]; simp)
      exact absurd hno (by simp)
  obtain ⟨rfl, rfl, rfl⟩ := hlast
  refine ⟨⟨pushUrls, rfl, rfl, fun url hurl => hurls _ (List.mem_map_of_mem hurl)⟩, ?_⟩
  intro probeUrl access hmem
  obtain ⟨_, _, heq, haccepted⟩ := hprobes _ hmem
  obtain ⟨rfl, rfl⟩ := Event.probed.inj heq
  exact haccepted

/-! ## Commands -/

variable {P Q : World → Prop} {E : SyncFailure → World → Prop}

theorem run_keeps {c : Command} {effect : World → Option World}
    (h : ∀ w w', P w → effect w = some w' → P w') :
    Meets P (run env c effect) (fun _ => P) (fun _ => P) :=
  Meets.command (fun w w' hw heff => ⟨h w w' hw heff, h w w' hw heff⟩) (fun _ hw => hw)
    fun _ _ hw => hw

theorem run_nothing {c : Command} : Meets P (run env c some) (fun _ => P) (fun _ => P) := by
  refine run_keeps fun w w' hw heff => ?_
  obtain rfl := Option.some.inj heff
  exact hw

theorem ask_meets {α : Type} {c : Command} {read : World → Option α} :
    Meets P (ask env c read) (fun a w => P w ∧ read w = some a) (fun _ => P) :=
  Meets.query (fun _ _ hw hread => ⟨hw, hread⟩) fun _ hw => hw

/-- A question that changes nothing. -/
theorem ask_keeps {α : Type} {c : Command} {read : World → Option α} :
    Meets P (ask env c read) (fun _ => P) (fun _ => P) :=
  ask_meets.post fun _ _ h => h.1

theorem record_meets {event : Event} :
    Meets (fun w => P { w with trace := w.trace ++ [event] }) (record event) (fun _ => P) E :=
  fun _ hw => hw

theorem remoteOperation_keeps {α : Type} {phase : RemotePhase} {c : Command} {x : Program α}
    {R : α → World → Prop} (h : Meets P x R (fun _ => Q)) :
    Meets P (remoteOperation env phase c x) R (fun _ => Q) :=
  Meets.tryCatch h fun _ => Meets.throw fun _ hw => hw

theorem assertTargets_keeps {targets : List Text} {user : Option Text} :
    Meets P (assertTargets env targets user) (fun _ => P) (fun _ => P) := by
  unfold assertTargets
  cases assertNamedGithubTargets env.parseUrl targets user with
  | ok a => exact Meets.pure fun _ hw => hw
  | error code => exact Meets.throw fun _ hw => hw

theorem createGit_keeps {site : Nat} {user : Option Text} :
    Meets P (createGit env site user) (fun _ => P) (fun _ => P) := by
  unfold createGit
  refine Meets.bind assertTargets_keeps fun _ => ?_
  cases env.gitEnvironment user with
  | some code => exact Meets.throw fun _ hw => hw
  | none => exact run_nothing

theorem requireOwnDirectory_keeps : Meets P requireOwnDirectory (fun _ => P) (fun _ => P) := by
  unfold requireOwnDirectory
  refine Meets.bind (Meets.get (Q := fun _ => P) fun _ hw => hw) fun w => ?_
  exact Meets.throwIf fun _ hw _ => hw

/-! ## The gate -/

/-- A predicate that does not look at the trace. -/
def Traceless (F : World → Prop) : Prop := ∀ w t, F w → F { w with trace := t }

section Probing

variable {F : World → Prop} (hF : Traceless F)
include hF

theorem probe_meets {i : Nat} {url : Text} : Meets (fun w => F w ∧ Trail env trust t₀ urls w)
    (probe env i url)
    (fun access w => (F w ∧ Quiet t₀ w ∧
        (Accepted trust access → Trail env trust t₀ (urls ++ [url]) w)) ∧
      access = env.probe i (deriveAnonymousProbeUrl env.parseUrl url))
    (fun _ w => F w ∧ Quiet t₀ w) := by
  unfold probe
  refine Meets.bind (run_nothing.weaken (fun _ h => h) (fun _ _ h => h)
    fun _ _ h => ⟨h.1, h.2.quiet⟩) fun _ => ?_
  refine Meets.bind (Meets.pre (record_meets (P := fun w => F w ∧ Quiet t₀ w ∧
    (Accepted trust (env.probe i (deriveAnonymousProbeUrl env.parseUrl url)) →
      Trail env trust t₀ (urls ++ [url]) w))) ?_) fun _ => Meets.pure fun _ h => ⟨h, rfl⟩
  intro w hw
  exact ⟨hF w _ hw.1, hw.2.quiet.snoc, hw.2.snoc⟩

/-- **The gate probes every URL** and lets no refused one pass. -/
theorem assertPrivateRemotes_meets (rest : List Text) : ∀ i urls worst,
    Meets (fun w => F w ∧ Trail env trust t₀ urls w)
      (assertPrivateRemotes env trust i rest worst)
      (fun _ w => (F w ∧ Trail env trust t₀ (urls ++ rest) w) ∧ ∀ k url, rest[k]? = some url →
        Accepted trust (env.probe (i + k) (deriveAnonymousProbeUrl env.parseUrl url)))
      (fun _ w => F w ∧ Quiet t₀ w) := by
  induction rest with
  | nil =>
      intro i urls worst
      refine Meets.pure fun w hw => ⟨?_, fun k url h => ?_⟩
      · rwa [List.append_nil]
      · exact absurd h (by simp)
  | cons url rest ih =>
      intro i urls worst
      -- the rest is reached when this URL was accepted
      have hnext : ∀ worst, Accepted trust
          (env.probe i (deriveAnonymousProbeUrl env.parseUrl url)) →
          Meets (fun w => F w ∧ Trail env trust t₀ (urls ++ [url]) w)
            (assertPrivateRemotes env trust (i + 1) rest worst)
            (fun _ w => (F w ∧ Trail env trust t₀ (urls ++ url :: rest) w) ∧
              ∀ k url', (url :: rest)[k]? = some url' →
                Accepted trust (env.probe (i + k) (deriveAnonymousProbeUrl env.parseUrl url')))
            (fun _ w => F w ∧ Quiet t₀ w) := by
        intro worst haccepted
        refine (ih (i + 1) (urls ++ [url]) worst).post fun _ w hw => ⟨⟨hw.1.1, ?_⟩, ?_⟩
        · have := hw.1.2
          rwa [List.append_assoc, List.singleton_append] at this
        · intro k url' hk
          cases k with
          | zero =>
              obtain rfl : url = url' := by simpa using hk
              exact haccepted
          | succ k =>
              have := hw.2 k url' (by simpa using hk)
              rwa [show i + 1 + k = i + (k + 1) by omega] at this
      rw [assertPrivateRemotes]
      refine Meets.bind (probe_meets hF) fun access => Meets.assume fun haccess => ?_
      cases access with
      | anonymousReadable => exact Meets.throw fun w hw => ⟨hw.1, hw.2.1⟩
      | indeterminate reason =>
          refine Meets.throwIf_bind (fun w hw _ => ⟨hw.1, hw.2.1⟩) fun htrust => ?_
          have haccepted : Accepted trust (.indeterminate reason) := eq_true_of_ne_false htrust
          exact (hnext _ (haccess ▸ haccepted)).pre fun w hw => ⟨hw.1, hw.2.2 haccepted⟩
      | denied status =>
          exact (hnext _ (haccess ▸ trivial)).pre fun w hw => ⟨hw.1, hw.2.2 trivial⟩

end Probing

/-- What the gate is asked about is what git lists. -/
theorem effectivePushUrls_meets {o : Option Units} (hP : ∀ w, P w → w.origin = o) :
    Meets P (effectivePushUrls env)
      (fun urls w => P w ∧ ∃ pushUrls, env.pushUrls o = some pushUrls ∧
        urls = pushUrls.map PushUrl.text)
      (fun _ => P) := by
  unfold effectivePushUrls
  refine Meets.bind (Q := fun raw w => P w ∧ ∀ text, raw = some text →
    ∃ pushUrls, env.pushUrls o = some pushUrls ∧ text = listed pushUrls) ?_ fun raw => ?_
  · refine Meets.optional ask_meets ?_ fun _ w hw => ⟨hw, fun _ h => absurd h (by simp)⟩
    rintro a w ⟨hw, hread⟩
    refine ⟨hw, fun text htext => ?_⟩
    obtain rfl := Option.some.inj htext
    rw [World.pushUrls, hP w hw] at hread
    obtain ⟨pushUrls, hurls, rfl⟩ := Option.map_eq_some_iff.mp hread
    exact ⟨pushUrls, hurls, rfl⟩
  · cases raw with
    | none =>
        refine Meets.pre (P := P) ?_ fun _ hw => hw.1
        exact Meets.bind ask_keeps fun _ => Meets.throw fun _ hw => hw
    | some text =>
        refine Meets.assume fun htext => ?_
        obtain ⟨pushUrls, hurls, rfl⟩ := htext text rfl
        refine Meets.throwIf_bind (fun _ hw _ => hw) fun _ => Meets.pure fun w hw => ⟨hw, ?_⟩
        exact ⟨pushUrls, hurls, parsePushUrls_listed pushUrls⟩

theorem assertOwnTargets_keeps {opts : PreflightSyncOptions} {targets : List Text} :
    Meets P (assertOwnTargets env opts targets) (fun _ => P) (fun _ => P) :=
  Meets.doIf (fun _ => Meets.bind ask_keeps fun _ => assertTargets_keeps) fun _ hw _ => hw

theorem activeRebase_keeps {c : Command} :
    Meets P (activeRebase env c) (fun _ => P) (fun _ => P) := ask_keeps

/-- Behind the gate: every effective URL was probed and accepted. -/
structure Passed (env : Env) (trust : Bool) (o : Option Units) (t₀ : List Event) (w : World) :
    Prop where
  accepted : ¬ Refuses env trust (env.pushUrls o)
  trail : ∃ pushUrls, env.pushUrls o = some pushUrls ∧
    Trail env trust t₀ (pushUrls.map PushUrl.text) w

/-- The gate as both calls pass it. -/
theorem gate_meets {F : World → Prop} (hF : Traceless F) {o : Option Units}
    {pushUrls : List PushUrl} (hurls : env.pushUrls o = some pushUrls) {worst : RemoteAccess} :
    Meets (fun w => F w ∧ w.trace = t₀)
      (assertPrivateRemotes env trust 0 (pushUrls.map PushUrl.text) worst)
      (fun _ w => F w ∧ Passed env trust o t₀ w) (fun _ w => F w ∧ Quiet t₀ w) := by
  refine (assertPrivateRemotes_meets hF (pushUrls.map PushUrl.text) 0 [] worst).weaken ?_ ?_
    fun _ _ h => h
  · rintro w ⟨hw, htrace⟩
    refine ⟨hw, [], ?_, ?_, ?_⟩
    · rw [htrace, List.append_nil]
    · intro e he
      exact absurd he (by simp)
    · intro url hurl
      exact absurd hurl (by simp)
  · rintro worst w ⟨⟨hw, htrail⟩, haccepted⟩
    refine ⟨hw, ?_, pushUrls, hurls, htrail⟩
    rintro ⟨urls, i, url, hsome, hget, hno⟩
    obtain rfl := Option.some.inj (hurls.symm.trans hsome)
    have := haccepted i url.text (by rw [List.getElem?_map, hget]; rfl)
    rw [Nat.zero_add] at this
    exact hno this

/-! ## Between the gate and the push -/

/-- The call has come to a point where neither the trace nor `origin` has changed. -/
def At (t : List Event) (o : Option Units) (w : World) : Prop := w.trace = t ∧ w.origin = o

variable {t : List Event} {o : Option Units}

theorem onDir_eq_some {f : OwnDir → Option OwnDir} {w w' : World} (h : w.onDir f = some w') :
    ∃ dir dir', w.dir? = some dir ∧ f dir = some dir' ∧ w' = { w with own := .directory dir' } := by
  unfold World.onDir at h
  obtain ⟨dir', hbind, hw⟩ := Option.map_eq_some_iff.mp h
  obtain ⟨dir, hdir, hf⟩ := Option.bind_eq_some_iff.mp hbind
  exact ⟨dir, dir', hdir, hf, hw.symm⟩

theorem onCopy_eq_some {f : Copy → Option Copy} {w w' : World} (h : w.onCopy f = some w') :
    ∃ dir git copy, w.dir? = some dir ∧ dir.git = some git ∧
      f { files := dir.files, repo := git.repo } = some copy ∧
      w' = { w with own := .directory (OwnDir.mk copy.files (some { git with repo := copy.repo })) } := by
  obtain ⟨dir, dir', hdir, hf, rfl⟩ := onDir_eq_some h
  obtain ⟨git, hgit, hmap⟩ := Option.bind_eq_some_iff.mp hf
  obtain ⟨copy, hcopy, rfl⟩ := Option.map_eq_some_iff.mp hmap
  exact ⟨dir, git, copy, hdir, hgit, hcopy, rfl⟩

theorem origin_eq {w : World} {dir : OwnDir} {git : GitDir} (hdir : w.dir? = some dir)
    (hgit : dir.git = some git) : w.origin = git.repo.origin := by
  rw [World.origin, World.git?, hdir, Option.bind_some, hgit, Option.bind_some]

/-- A change of the working copy that leaves the URL of `origin` alone. -/
theorem onCopy_at {f : Copy → Option Copy} {w w' : World} (hw : At t o w)
    (hf : ∀ copy copy', f copy = some copy' → copy'.repo.origin = copy.repo.origin)
    (h : w.onCopy f = some w') : At t o w' := by
  obtain ⟨dir, git, copy, hdir, hgit, hcopy, rfl⟩ := onCopy_eq_some h
  refine ⟨hw.1, ?_⟩
  rw [← hw.2, origin_eq hdir hgit]
  exact hf _ _ hcopy

theorem commitIndex_origin (commits : List Commit) (repo : Repo) :
    (commitIndex commits repo).2.origin = repo.origin := by
  unfold commitIndex Repo.moveHead
  dsimp only
  split
  · rfl
  · cases repo.head with
    | branch name => rfl
    | detached id => rfl

theorem commitAll_at : Meets (At t o) (commitAll env) (fun _ => At t o) (fun _ => At t o) := by
  unfold commitAll addAll
  refine Meets.bind (run_keeps fun w w' hw heff => onCopy_at hw ?_ heff) fun _ =>
    run_keeps fun w w' hw heff => ?_
  · intro copy copy' hcopy
    obtain rfl := Option.some.inj hcopy
    rfl
  · unfold World.commit at heff
    obtain ⟨git, hgit, hbind⟩ := Option.bind_eq_some_iff.mp heff
    obtain ⟨w₁, hcopy, rfl⟩ := Option.map_eq_some_iff.mp hbind
    obtain ⟨dir, git', copy, hdir, hgit', hf, rfl⟩ := onCopy_eq_some hcopy
    obtain rfl := Option.some.inj hf
    have hsame : git' = git := by
      rw [World.git?, hdir, Option.bind_some, hgit'] at hgit
      exact Option.some.inj hgit
    refine ⟨hw.1, ?_⟩
    rw [← hw.2, origin_eq hdir hgit', hsame]
    exact commitIndex_origin w.commits git.repo

theorem rebased_at {w : World} (hw : At t o w) (out : Rebased) (rebasing : Option (Text × Nat)) :
    At t o (w.rebased out rebasing) := by
  unfold World.rebased
  split
  · rename_i git hdir
    refine ⟨hw.1, ?_⟩
    rw [← hw.2, origin_eq hdir rfl]
    rfl
  · exact hw

theorem pullRebase_at : Meets (At t o) (pullRebase env) (fun _ => At t o) (fun _ => At t o) := by
  intro w hw
  unfold pullRebase
  split
  · rename_i out hout
    split at hout
    · split at hout
      · obtain ⟨rfl, rfl⟩ := EStateM.Result.ok.inj hout
        exact rebased_at hw _ _
      · exact absurd hout (by simp)
      · exact absurd hout (by simp)
    · exact absurd hout (by simp)
  · rename_i out hout
    split at hout
    · split at hout
      · exact absurd hout (by simp)
      · obtain ⟨rfl, rfl⟩ := EStateM.Result.error.inj hout
        exact rebased_at hw _ _
      · obtain ⟨rfl, rfl⟩ := EStateM.Result.error.inj hout
        exact hw
    · obtain ⟨rfl, rfl⟩ := EStateM.Result.error.inj hout
      exact hw

theorem abortRebase_at : Meets (At t o) (abortRebase env) (fun _ => At t o) (fun _ => At t o) := by
  refine run_keeps fun w w' hw heff => ?_
  obtain ⟨git, hgit, hrebasing⟩ := Option.bind_eq_some_iff.mp heff
  obtain ⟨saved, _, hcommit⟩ := Option.bind_eq_some_iff.mp hrebasing
  obtain ⟨commit, _, hdir⟩ := Option.bind_eq_some_iff.mp hcommit
  obtain ⟨dir, dir', hsome, hf, rfl⟩ := onDir_eq_some hdir
  obtain rfl := Option.some.inj hf
  have horigin : w.origin = git.repo.origin := by rw [World.origin, hgit, Option.bind_some]
  exact ⟨hw.1, horigin.symm.trans hw.2⟩

theorem recoverPull_at : Meets (At t o) (recoverPull env) (fun _ => At t o) (fun _ => At t o) := by
  unfold recoverPull
  refine Meets.bind (Meets.tryCatch activeRebase_keeps fun _ => Meets.throw fun _ hw => hw)
    fun rebasing => Meets.ite (fun _ => Meets.throw fun _ hw => hw) fun _ => ?_
  refine Meets.bind (Meets.tryCatch (E := fun _ => At t o) ?_ fun _ => Meets.throw fun _ hw => hw)
    fun _ => Meets.throw fun _ hw => hw
  exact Meets.bind abortRebase_at fun _ => Meets.bind activeRebase_keeps fun still =>
    Meets.throwIf fun _ hw _ => hw

theorem pullOwn_at {branch : Text} :
    Meets (At t o) (pullOwn env branch) (fun _ => At t o) (fun _ => At t o) := by
  unfold pullOwn
  refine Meets.bind (remoteOperation_keeps ask_keeps) fun heads => ?_
  refine Meets.ite (fun _ => Meets.pure fun _ hw => hw) fun _ => ?_
  exact Meets.tryCatch (Meets.bind pullRebase_at fun _ => Meets.pure fun _ hw => hw)
    fun _ => recoverPull_at

theorem refuseDirty_keeps {opts : SyncOwnOptions} {c : Command} :
    Meets P (refuseDirty env opts c) (fun _ => P) (fun _ => P) :=
  Meets.doIf (fun _ => Meets.bind ask_keeps fun _ => Meets.throwIf fun _ hw _ => hw)
    fun _ hw _ => hw

theorem reindexAndMark_keeps (hP : ∀ w indexed marker, P w →
    P { w with indexed := indexed, marker := marker }) :
    Meets P (reindexAndMark env) (fun _ => P) (fun _ => P) := by
  unfold reindexAndMark
  refine Meets.bind run_nothing fun _ => Meets.bind run_nothing fun _ =>
    Meets.bind (run_keeps fun w w' hw heff => ?_) fun _ => run_keeps fun w w' hw heff => ?_
  · obtain rfl := Option.some.inj heff
    exact hP w _ _ hw
  · obtain rfl := Option.some.inj heff
    exact hP w _ _ hw

/-! ## The push -/

theorem deliver_trace (branch : Text) (reached : Nat → Bool) (w : World) :
    (w.deliver env branch reached).trace = w.trace := by
  unfold World.deliver
  generalize List.filter _ _ = targets
  induction targets generalizing w with
  | nil => rfl
  | cons url targets ih =>
      rw [List.foldl_cons, ih]
      unfold World.deliverTo
      cases w.branchCommit branch with
      | none => rfl
      | some id =>
          dsimp only
          split
          · rfl
          · rfl

/-- **A push behind the gate is gated**, whatever becomes of it. -/
theorem pushOrigin_meets {branch : Text} : Meets
    (fun w => Passed env trust o t₀ w ∧ w.origin = o) (pushOrigin env branch)
    (fun _ w => Pushed env trust (env.pushUrls o) t₀ w)
    (fun _ w => Pushed env trust (env.pushUrls o) t₀ w) := by
  have hpush : ∀ w₁, Passed env trust o t₀ w₁ ∧ w₁.origin = o → Pushed env trust (env.pushUrls o) t₀
      { w₁ with trace := w₁.trace ++
        [.pushed (((w₁.pushUrls env).getD []).map PushUrl.text)] } := by
    rintro w₁ ⟨⟨_, pushUrls, hurls, events, htrace, hprobes, hall⟩, horigin⟩
    refine ⟨events ++ [.pushed (pushUrls.map PushUrl.text)], ?_, ?_⟩
    · show w₁.trace ++ _ = _
      rw [World.pushUrls, horigin, hurls, htrace, List.append_assoc]
      rfl
    · rw [hurls]
      exact Trail.gated hprobes hall
  unfold pushOrigin
  refine Meets.bind (Meets.get (Q := fun a w => (Passed env trust o t₀ w ∧ w.origin = o) ∧ a = w)
    fun w hw => ⟨hw, rfl⟩) fun w₁ => ?_
  refine Meets.bind (Meets.pre (record_meets (P := Pushed env trust (env.pushUrls o) t₀)) ?_)
    fun _ => ?_
  · rintro w ⟨hw, rfl⟩
    exact hpush w₁ hw
  · have hdeliver : ∀ reached w, Pushed env trust (env.pushUrls o) t₀ w →
        Pushed env trust (env.pushUrls o) t₀ (w.deliver env branch reached) := by
      rintro reached w ⟨events, htrace, hgated⟩
      exact ⟨events, (deliver_trace branch reached w).trans htrace, hgated⟩
    refine Meets.bind (Meets.command ?_ (fun _ hw => hw) fun reached w hw => hdeliver reached w hw)
      fun _ => Meets.throwIf fun _ hw _ => hw
    intro w w' hw heff
    obtain rfl := Option.some.inj heff
    exact ⟨hdeliver _ w hw, hdeliver _ w hw⟩

/-! ## The calls -/

/-- A step that keeps the trace and `origin` stays behind the gate. -/
theorem passed_of_at {α : Type} {x : Program α}
    (h : ∀ t, Meets (At t o) x (fun _ => At t o) (fun _ => At t o)) :
    Meets (fun w => Passed env trust o t₀ w ∧ w.origin = o) x
      (fun _ w => Passed env trust o t₀ w ∧ w.origin = o)
      (fun _ w => Passed env trust o t₀ w ∧ w.origin = o) := by
  have hkeep : ∀ w w', Passed env trust o t₀ w → At w.trace o w' →
      Passed env trust o t₀ w' ∧ w'.origin = o := by
    rintro w w' ⟨hfree, pushUrls, hurls, events, htrace, hevents⟩ hat
    exact ⟨⟨hfree, pushUrls, hurls, events, hat.1.trans htrace, hevents⟩, hat.2⟩
  rintro w ⟨hw, horigin⟩
  rcases (h w.trace).run (⟨rfl, horigin⟩ : At w.trace o w) with
    ⟨a, w', hrun, hat⟩ | ⟨e, w', hrun, hat⟩
  · rw [hrun]
    exact hkeep w w' hw hat
  · rw [hrun]
    exact hkeep w w' hw hat

theorem Passed.pushed {w : World} (h : Passed env trust o t₀ w) :
    Pushed env trust (env.pushUrls o) t₀ w := by
  obtain ⟨_, trail⟩ := h
  obtain ⟨_, _, htrail⟩ := trail
  exact htrail.quiet.pushed

/-- What a call leaves: nothing was committed or pushed, or the gate let it pass. -/
def Outcome (env : Env) (trust : Bool) (urls : Option (List PushUrl)) (w₀ w : World) : Prop :=
  (w.commits = w₀.commits ∧ w.remotes = w₀.remotes) ∧ Quiet w₀.trace w ∨
    ¬ Refuses env trust urls ∧ Pushed env trust urls w₀.trace w

/-- Only the trace has changed. -/
def Same (w₀ w : World) : Prop := w = { w₀ with trace := w.trace }

theorem same_traceless (w₀ : World) : Traceless (Same w₀) := by
  intro w t hw
  unfold Same at hw ⊢
  rw [hw]

variable {w₀ : World}

theorem syncOwnGated_meets {opts : SyncOwnOptions} {preflight : SyncPreflight}
    {changed : List Text} : Meets (fun w => Passed env trust o t₀ w ∧ w.origin = o)
      (syncOwnGated env opts preflight changed)
      (fun _ w => Pushed env trust (env.pushUrls o) t₀ w)
      (fun _ w => Pushed env trust (env.pushUrls o) t₀ w) := by
  have hout : ∀ w, Passed env trust o t₀ w ∧ w.origin = o → Pushed env trust (env.pushUrls o) t₀ w :=
    fun w hw => hw.1.pushed
  have hstep : ∀ {α : Type} {x : Program α},
      (∀ t, Meets (At t o) x (fun _ => At t o) (fun _ => At t o)) →
        Meets (fun w => Passed env trust o t₀ w ∧ w.origin = o) x
          (fun _ w => Passed env trust o t₀ w ∧ w.origin = o)
          (fun _ w => Pushed env trust (env.pushUrls o) t₀ w) := fun h =>
    (passed_of_at h).weaken (fun _ hw => hw) (fun _ _ hw => hw) fun _ w hw => hout w hw
  unfold syncOwnGated
  refine Meets.bind (hstep fun t => Meets.doIf (fun _ => commitAll_at) fun _ hw _ => hw) fun _ => ?_
  refine Meets.bind (hstep fun t => pullOwn_at) fun pulled => ?_
  refine Meets.bind (hstep fun t => refuseDirty_keeps) fun _ => ?_
  refine Meets.bind (hstep fun t => reindexAndMark_keeps fun _ _ _ hw => hw) fun _ => ?_
  exact Meets.bind (remoteOperation_keeps pushOrigin_meets) fun _ => Meets.pure fun _ hw => hw

/-- **The preflight passes the gate**, and changes nothing. -/
theorem preflightSync_meets {opts : PreflightSyncOptions} : Meets (fun w => w = w₀)
    (preflightSync env opts)
    (fun _ w => Same w₀ w ∧ Passed env opts.trustRemotePrivate w₀.origin w₀.trace w)
    (fun _ w => Same w₀ w ∧ Quiet w₀.trace w) := by
  have hstart : ∀ w, w = w₀ → Same w₀ w ∧ Quiet w₀.trace w := by
    rintro w rfl
    exact ⟨rfl, [], (List.append_nil _).symm, fun e he => absurd he (by simp)⟩
  have hstep : ∀ {α : Type} {x : Program α} {R : α → World → Prop},
      Meets (fun w => w = w₀) x R (fun _ w => w = w₀) →
        Meets (fun w => w = w₀) x R (fun _ w => Same w₀ w ∧ Quiet w₀.trace w) := fun h =>
    h.weaken (fun _ hw => hw) (fun _ _ hw => hw) fun _ w hw => hstart w hw
  unfold preflightSync
  refine Meets.bind (hstep requireOwnDirectory_keeps) fun _ => ?_
  refine Meets.bind (hstep createGit_keeps) fun _ => Meets.bind (hstep ask_keeps) fun repo => ?_
  refine Meets.throwIf_bind (fun w hw _ => hstart w hw) fun _ => ?_
  refine Meets.bind (hstep ask_keeps) fun external => ?_
  refine Meets.throwIf_bind (fun w hw _ => hstart w hw) fun _ => ?_
  refine Meets.bind (hstep activeRebase_keeps) fun rebasing => ?_
  refine Meets.throwIf_bind (fun w hw _ => hstart w hw) fun _ => ?_
  refine Meets.bind (Meets.optional (R := fun _ w => w = w₀) (Q := fun _ w => w = w₀)
    (F := fun _ w => w = w₀) ask_keeps (fun _ _ hw => hw) fun _ _ hw => hw) fun head => ?_
  cases head with
  | none => exact Meets.throw fun w hw => hstart w hw
  | some branch =>
      refine Meets.bind (hstep (effectivePushUrls_meets (o := w₀.origin) fun w hw => hw ▸ rfl))
        fun urls => Meets.assume ?_
      rintro ⟨pushUrls, hurls, rfl⟩
      refine Meets.bind (hstep assertOwnTargets_keeps) fun _ => ?_
      have hgate : ∀ w, w = w₀ → Same w₀ w ∧ w.trace = w₀.trace := by
        rintro w rfl
        exact ⟨rfl, rfl⟩
      exact Meets.bind ((gate_meets (same_traceless w₀) hurls).pre hgate) fun access =>
        Meets.pure fun w hw => hw

theorem syncOwnLocked_meets {opts : SyncOwnOptions} : Meets (fun w => w = w₀)
    (syncOwnLocked env opts)
    (fun _ w => (¬ Refuses env opts.trustRemotePrivate (env.pushUrls w₀.origin) ∧
        Pushed env opts.trustRemotePrivate (env.pushUrls w₀.origin) w₀.trace w) ∧
      (opts.dryRun = true → Same w₀ w ∧ Quiet w₀.trace w))
    (fun _ w => Outcome env opts.trustRemotePrivate (env.pushUrls w₀.origin) w₀ w ∧
      (opts.dryRun = true → Same w₀ w ∧ Quiet w₀.trace w)) := by
  have hsame : ∀ w, Same w₀ w → w.commits = w₀.commits ∧ w.remotes = w₀.remotes := by
    intro w hw
    unfold Same at hw
    rw [hw]
    exact ⟨rfl, rfl⟩
  have hpassed : ∀ w, Same w₀ w ∧ Passed env opts.trustRemotePrivate w₀.origin w₀.trace w →
      Same w₀ w ∧ Quiet w₀.trace w := by
    rintro w ⟨hw, _, _, _, htrail⟩
    exact ⟨hw, htrail.quiet⟩
  have herr : ∀ w, Same w₀ w ∧ Quiet w₀.trace w →
      Outcome env opts.trustRemotePrivate (env.pushUrls w₀.origin) w₀ w ∧
        (opts.dryRun = true → Same w₀ w ∧ Quiet w₀.trace w) :=
    fun w hw => ⟨Or.inl ⟨hsame w hw.1, hw.2⟩, fun _ => hw⟩
  unfold syncOwnLocked
  refine Meets.bind (preflightSync_meets.weaken (fun _ hw => hw) (fun _ _ hw => hw)
    fun _ w hw => herr w hw) fun preflight => ?_
  refine Meets.bind (createGit_keeps.weaken (fun _ hw => hw) (fun _ _ hw => hw)
    fun _ w hw => herr w (hpassed w hw)) fun _ => ?_
  refine Meets.bind (ask_keeps.weaken (fun _ hw => hw) (fun _ _ hw => hw)
    fun _ w hw => herr w (hpassed w hw)) fun changed => ?_
  refine Meets.throwIf_bind (fun w hw _ => herr w (hpassed w hw)) fun _ => ?_
  refine Meets.ite (fun hdry => ?_) fun hdry => ?_
  · refine Meets.pure fun w hw => ?_
    exact ⟨⟨hw.2.accepted, hw.2.pushed⟩, fun _ => hpassed w hw⟩
  · have hfree : ∀ w, Same w₀ w ∧ Passed env opts.trustRemotePrivate w₀.origin w₀.trace w →
        (Passed env opts.trustRemotePrivate w₀.origin w₀.trace w ∧ w.origin = w₀.origin) ∧
          ¬ Refuses env opts.trustRemotePrivate (env.pushUrls w₀.origin) := by
      rintro w ⟨hw, hpass⟩
      unfold Same at hw
      exact ⟨⟨hpass, by rw [hw]; rfl⟩, hpass.accepted⟩
    refine Meets.pre (Meets.assume fun hno => ?_) hfree
    exact syncOwnGated_meets.weaken (fun _ hw => hw)
      (fun _ w hw => ⟨⟨hno, hw⟩, fun h => absurd h hdry⟩)
      fun _ w hw => ⟨Or.inr ⟨hno, hw⟩, fun h => absurd h hdry⟩

theorem syncOwn_meets {opts : SyncOwnOptions} : Meets (fun w => w = w₀) (syncOwn env opts)
    (fun _ w => (¬ Refuses env opts.trustRemotePrivate (env.pushUrls w₀.origin) ∧
        Pushed env opts.trustRemotePrivate (env.pushUrls w₀.origin) w₀.trace w) ∧
      (opts.dryRun = true → Same w₀ w ∧ Quiet w₀.trace w))
    (fun _ w => Outcome env opts.trustRemotePrivate (env.pushUrls w₀.origin) w₀ w ∧
      (opts.dryRun = true → Same w₀ w ∧ Quiet w₀.trace w)) := by
  have hstart : ∀ w, w = w₀ →
      Outcome env opts.trustRemotePrivate (env.pushUrls w₀.origin) w₀ w ∧
        (opts.dryRun = true → Same w₀ w ∧ Quiet w₀.trace w) := by
    rintro w rfl
    have hquiet : Quiet w.trace w :=
      ⟨[], (List.append_nil _).symm, fun e he => absurd he (by simp)⟩
    exact ⟨Or.inl ⟨⟨rfl, rfl⟩, hquiet⟩, fun _ => ⟨rfl, hquiet⟩⟩
  have hstep : ∀ {α : Type} {x : Program α},
      Meets (fun w => w = w₀) x (fun _ w => w = w₀) (fun _ w => w = w₀) →
        Meets (fun w => w = w₀) x (fun _ w => w = w₀)
          (fun _ w => Outcome env opts.trustRemotePrivate (env.pushUrls w₀.origin) w₀ w ∧
            (opts.dryRun = true → Same w₀ w ∧ Quiet w₀.trace w)) := fun h =>
    h.weaken (fun _ hw => hw) (fun _ _ hw => hw) fun _ w hw => hstart w hw
  have hlock : Meets (fun w => w = w₀) (lockRepository env opts) (fun _ w => w = w₀)
      (fun _ w => w = w₀) := by
    unfold lockRepository
    exact Meets.bind run_nothing fun _ => Meets.throwIf_bind (fun _ hw _ => hw) fun _ =>
      refuseDirty_keeps
  unfold syncOwn
  refine Meets.throwIf_bind (fun w hw _ => hstart w hw) fun _ => ?_
  refine Meets.bind (hstep requireOwnDirectory_keeps) fun _ => ?_
  refine Meets.bind (hstep createGit_keeps) fun _ => Meets.bind (hstep ask_keeps) fun repo => ?_
  exact Meets.bind (hstep (Meets.doIf (fun _ => hlock) fun _ hw _ => hw)) fun _ =>
    syncOwnLocked_meets

/-- Nothing was committed or pushed since the call began. -/
def Untouched (w₀ w : World) : Prop := w.commits = w₀.commits ∧ w.remotes = w₀.remotes

theorem untouched_traceless (w₀ : World) : Traceless (Untouched w₀) := fun _ _ hw => hw

/-- A step on the own directory commits and pushes nothing. -/
theorem onDir_untouched {f : OwnDir → Option OwnDir} {w w' : World}
    (hw : Untouched w₀ w ∧ w.trace = t) (h : w.onDir f = some w') :
    Untouched w₀ w' ∧ w'.trace = t := by
  obtain ⟨dir, dir', _, _, rfl⟩ := onDir_eq_some h
  exact hw

theorem scaffold_at : Meets (At t o) (scaffold env) (fun _ => At t o) (fun _ => At t o) := by
  unfold scaffold
  refine Meets.bind (run_keeps fun w w' hw heff => ?_) fun _ => ?_
  · split at heff
    · exact absurd heff (by simp)
    · obtain rfl := Option.some.inj heff
      exact hw
  · refine Meets.bind (Meets.get (Q := fun _ => At t o) fun _ hw => hw) fun w => ?_
    refine Meets.doIf (fun _ => run_keeps fun w w' hw heff => ?_) fun _ hw _ => hw
    obtain ⟨dir, dir', hdir, hf, rfl⟩ := onDir_eq_some heff
    obtain rfl := Option.some.inj hf
    refine ⟨hw.1, ?_⟩
    rw [← hw.2, World.origin, World.git?, World.origin, World.git?, hdir]
    rfl

variable {opts : InitOwnSyncOptions}

theorem importOwn_meets : Meets (fun w => Passed env trust o t₀ w ∧ w.origin = o) (importOwn env)
    (fun _ w => Pushed env trust (env.pushUrls o) t₀ w)
    (fun _ w => Pushed env trust (env.pushUrls o) t₀ w) := by
  have hstep : ∀ {α : Type} {x : Program α},
      (∀ t, Meets (At t o) x (fun _ => At t o) (fun _ => At t o)) →
        Meets (fun w => Passed env trust o t₀ w ∧ w.origin = o) x
          (fun _ w => Passed env trust o t₀ w ∧ w.origin = o)
          (fun _ w => Pushed env trust (env.pushUrls o) t₀ w) := fun h =>
    (passed_of_at h).weaken (fun _ hw => hw) (fun _ _ hw => hw) fun _ w hw => hw.1.pushed
  have hmark : ∀ (w : World) indexed marker, Pushed env trust (env.pushUrls o) t₀ w →
      Pushed env trust (env.pushUrls o) t₀ { w with indexed := indexed, marker := marker } :=
    fun _ _ _ hw => hw
  unfold importOwn
  refine Meets.bind (hstep fun t => scaffold_at) fun _ => ?_
  refine Meets.bind (hstep fun t => commitAll_at) fun _ => ?_
  refine Meets.bind (hstep fun t => ask_keeps) fun branch => ?_
  refine Meets.bind (remoteOperation_keeps pushOrigin_meets) fun _ => ?_
  exact Meets.bind (reindexAndMark_keeps hmark) fun _ => Meets.pure fun _ hw => hw

theorem trace_of_onDir {f : OwnDir → Option OwnDir} {w w' : World} (h : w.onDir f = some w') :
    w'.trace = w.trace := by
  obtain ⟨_, _, _, _, rfl⟩ := onDir_eq_some h
  rfl

theorem written_trace (branch : Text) (reached : Nat → Bool) (w : World) :
    (w.written env branch reached).trace = w.trace := by
  unfold World.written
  dsimp only
  generalize hout : w.onCopy _ = out
  cases out with
  | none => rfl
  | some w' => exact trace_of_onDir hout

theorem defaultRemoteBranch_keeps :
    Meets P (defaultRemoteBranch env opts) (fun _ => P) (fun _ => P) := by
  unfold defaultRemoteBranch
  refine Meets.bind (remoteOperation_keeps ask_keeps) fun symref => ?_
  cases symref with
  | some branch => exact Meets.pure fun _ hw => hw
  | none =>
      refine Meets.bind (remoteOperation_keeps ask_keeps) fun first => ?_
      cases first with
      | some branch => exact Meets.pure fun _ hw => hw
      | none => exact Meets.throw fun _ hw => hw

theorem removeCanonicalScaffold_keeps : Meets (fun w => w.trace = t)
    (removeCanonicalScaffoldBeforeCheckout env) (fun _ w => w.trace = t)
    (fun _ w => w.trace = t) := by
  unfold removeCanonicalScaffoldBeforeCheckout
  refine Meets.bind (Meets.get (Q := fun _ w => w.trace = t) fun _ hw => hw) fun w => ?_
  exact Meets.doIf (fun _ => run_keeps fun w w' hw heff => (trace_of_onDir heff).trans hw)
    fun _ hw _ => hw

/-- Checking out pushes nothing. -/
theorem checkoutOwn_keeps : Meets (fun w => w.trace = t) (checkoutOwn env opts)
    (fun _ w => w.trace = t) (fun _ w => w.trace = t) := by
  unfold checkoutOwn
  refine Meets.bind defaultRemoteBranch_keeps fun branch => ?_
  refine Meets.bind (remoteOperation_keeps (run_keeps fun w w' hw heff =>
    (trace_of_onDir heff).trans hw)) fun _ => ?_
  refine Meets.bind removeCanonicalScaffold_keeps fun _ => Meets.bind (Q := fun _ w => w.trace = t)
    (Meets.command ?_ (fun _ hw => hw) fun reached w hw => (written_trace branch reached w).trans hw)
    fun _ => ?_
  · exact fun w w' hw heff => ⟨(trace_of_onDir heff).trans hw, (trace_of_onDir heff).trans hw⟩
  · exact Meets.bind (reindexAndMark_keeps fun _ _ _ hw => hw) fun _ => Meets.pure fun _ hw => hw

theorem checkoutOwn_meets : Meets (fun w => Passed env trust o t₀ w ∧ w.origin = o)
    (checkoutOwn env opts) (fun _ w => Pushed env trust (env.pushUrls o) t₀ w)
    (fun _ w => Pushed env trust (env.pushUrls o) t₀ w) := by
  have hkeep : ∀ w w', Passed env trust o t₀ w → w'.trace = w.trace →
      Pushed env trust (env.pushUrls o) t₀ w' := by
    intro w w' hw htrace
    obtain ⟨events, hevents, hgated⟩ := hw.pushed
    exact ⟨events, htrace.trans hevents, hgated⟩
  rintro w ⟨hw, horigin⟩
  rcases checkoutOwn_keeps.run (rfl : w.trace = w.trace) with ⟨a, w', hrun, h⟩ | ⟨e, w', hrun, h⟩
  · rw [hrun]
    exact hkeep w w' hw h
  · rw [hrun]
    exact hkeep w w' hw h

/-- Until the gate nothing is committed or pushed; behind it the URL of `origin` stays. -/
theorem initialise_meets {refs : Refs} : Meets (fun w => Untouched w₀ w ∧ w.trace = w₀.trace)
    (initialise env opts refs)
    (fun _ w => ¬ Refuses env opts.trustRemotePrivate (env.pushUrls (some (unitsOf opts.url))) ∧
      Pushed env opts.trustRemotePrivate (env.pushUrls (some (unitsOf opts.url))) w₀.trace w)
    (fun _ => Outcome env opts.trustRemotePrivate (env.pushUrls (some (unitsOf opts.url))) w₀) := by
  have hstart : ∀ w, Untouched w₀ w ∧ w.trace = w₀.trace →
      Outcome env opts.trustRemotePrivate (env.pushUrls (some (unitsOf opts.url))) w₀ w :=
    fun w hw => Or.inl ⟨hw.1, [], hw.2.trans (List.append_nil _).symm, fun e he =>
      absurd he (by simp)⟩
  unfold initialise
  refine Meets.bind (Q := fun _ w => (Untouched w₀ w ∧ w.trace = w₀.trace) ∧
    w.origin = some (unitsOf opts.url)) ?_ fun _ => ?_
  · refine Meets.command ?_ hstart fun _ => hstart
    intro w w' hw heff
    have hkept := onDir_untouched hw heff
    obtain ⟨dir, git, copy, hdir, hgit, hf, rfl⟩ := onCopy_eq_some heff
    obtain rfl := Option.some.inj hf
    exact ⟨⟨hkept, rfl⟩, hstart _ hkept⟩
  refine Meets.bind ((effectivePushUrls_meets (o := some (unitsOf opts.url)) fun w hw =>
    hw.2).weaken (fun _ hw => hw) (fun _ _ hw => hw) fun _ w hw => hstart w hw.1) fun urls =>
      Meets.assume ?_
  rintro ⟨pushUrls, hurls, rfl⟩
  refine Meets.bind (assertTargets_keeps.weaken (fun _ hw => hw) (fun _ _ hw => hw)
    fun _ w hw => hstart w hw.1) fun _ => ?_
  have htraceless : Traceless (fun w => Untouched w₀ w ∧ w.origin = some (unitsOf opts.url)) :=
    fun _ _ hw => hw
  refine Meets.bind ((gate_meets htraceless hurls).weaken
    (fun w hw => ⟨⟨hw.1.1, hw.2⟩, hw.1.2⟩) (fun _ _ hw => hw)
    fun _ w hw => Or.inl ⟨hw.1.1, hw.2⟩) fun access => ?_
  refine Meets.pre (P := fun w =>
    (Passed env opts.trustRemotePrivate (some (unitsOf opts.url)) w₀.trace w ∧
      w.origin = some (unitsOf opts.url)) ∧
      ¬ Refuses env opts.trustRemotePrivate (env.pushUrls (some (unitsOf opts.url))))
    (Meets.assume fun hfree => ?_) fun w hw => ⟨⟨hw.2, hw.1.2⟩, hw.2.accepted⟩
  refine Meets.ite (fun _ => ?_) fun _ => ?_
  · exact importOwn_meets.weaken (fun _ hw => hw) (fun _ _ hw => ⟨hfree, hw⟩)
      fun _ _ hw => Or.inr ⟨hfree, hw⟩
  · exact checkoutOwn_meets.weaken (fun _ hw => hw) (fun _ _ hw => ⟨hfree, hw⟩)
      fun _ _ hw => Or.inr ⟨hfree, hw⟩

/-- Rolling back neither commits nor pushes. -/
theorem rollback_meets {urls : Option (List PushUrl)} {e : SyncFailure}
    {R : InitOwnSyncResult → World → Prop} : Meets (Outcome env trust urls w₀) (rollback env e) R
      (fun _ => Outcome env trust urls w₀) := by
  unfold rollback
  refine Meets.bind (Q := fun _ => Outcome env trust urls w₀) (Meets.tryCatch (run_keeps ?_)
    fun _ => Meets.throw fun _ hw => hw) fun _ => Meets.throw fun _ hw => hw
  intro w w' hw heff
  obtain ⟨_, _, _, _, rfl⟩ := onDir_eq_some heff
  exact hw

theorem initOwnSync_meets : Meets (fun w => w = w₀) (initOwnSync env opts)
    (fun _ w => ¬ Refuses env opts.trustRemotePrivate (env.pushUrls (some (unitsOf opts.url))) ∧
      Pushed env opts.trustRemotePrivate (env.pushUrls (some (unitsOf opts.url))) w₀.trace w)
    (fun _ => Outcome env opts.trustRemotePrivate (env.pushUrls (some (unitsOf opts.url))) w₀) := by
  have hstart : ∀ w, Untouched w₀ w ∧ w.trace = w₀.trace →
      Outcome env opts.trustRemotePrivate (env.pushUrls (some (unitsOf opts.url))) w₀ w :=
    fun w hw => Or.inl ⟨hw.1, [], hw.2.trans (List.append_nil _).symm, fun e he =>
      absurd he (by simp)⟩
  have hstep : ∀ {α : Type} {x : Program α}, Meets (fun w => Untouched w₀ w ∧ w.trace = w₀.trace) x
      (fun _ w => Untouched w₀ w ∧ w.trace = w₀.trace)
      (fun _ w => Untouched w₀ w ∧ w.trace = w₀.trace) →
        Meets (fun w => Untouched w₀ w ∧ w.trace = w₀.trace) x
          (fun _ w => Untouched w₀ w ∧ w.trace = w₀.trace)
          (fun _ => Outcome env opts.trustRemotePrivate (env.pushUrls (some (unitsOf opts.url)))
            w₀) := fun h =>
    h.weaken (fun _ hw => hw) (fun _ _ hw => hw) fun _ w hw => hstart w hw
  refine Meets.pre (P := fun w => Untouched w₀ w ∧ w.trace = w₀.trace) ?_ ?_
  swap
  · rintro w rfl
    exact ⟨⟨rfl, rfl⟩, rfl⟩
  unfold initOwnSync
  refine Meets.bind (hstep assertTargets_keeps) fun _ => ?_
  refine Meets.bind (hstep (run_keeps fun w w' hw heff => ?_)) fun _ => ?_
  · split at heff
    · obtain rfl := Option.some.inj heff
      exact hw
    · exact absurd heff (by simp)
    · obtain rfl := Option.some.inj heff
      exact hw
  refine Meets.bind (hstep createGit_keeps) fun _ => Meets.bind (hstep ask_keeps) fun repo => ?_
  refine Meets.throwIf_bind (fun w hw _ => hstart w hw) fun _ => ?_
  refine Meets.bind (hstep createGit_keeps) fun _ => Meets.bind (hstep (Meets.doIf (fun _ =>
    Meets.bind ask_keeps fun _ => assertTargets_keeps) fun _ hw _ => hw)) fun _ => ?_
  have hinspect : Meets (fun w => Untouched w₀ w ∧ w.trace = w₀.trace) (inspectOwn env opts)
      (fun _ w => Untouched w₀ w ∧ w.trace = w₀.trace)
      (fun _ w => Untouched w₀ w ∧ w.trace = w₀.trace) := by
    unfold inspectOwn
    exact Meets.bind (remoteOperation_keeps ask_keeps) fun refs => Meets.bind ask_keeps fun count =>
      Meets.throwIf_bind (fun _ hw _ => hw) fun _ => Meets.pure fun _ hw => hw
  refine Meets.bind (hstep hinspect) fun refs => Meets.bind (hstep createGit_keeps) fun _ => ?_
  refine Meets.bind (hstep (run_keeps fun w w' hw heff => onDir_untouched hw heff)) fun _ => ?_
  exact Meets.tryCatch initialise_meets fun e => rollback_meets

/-! ## The law -/

/-- **Private entries are not pushed to a readable remote.** -/
theorem push_gated (env : Env) (w : World) :
    (∀ opts : SyncOwnOptions, ∃ events,
      (stateAfter (syncOwn env opts w)).trace = w.trace ++ events ∧
      Gated env opts.trustRemotePrivate (env.pushUrls w.origin) events ∧
      (Refuses env opts.trustRemotePrivate (env.pushUrls w.origin) →
        (∃ e w', syncOwn env opts w = .error e w') ∧ NoPush events ∧
          (stateAfter (syncOwn env opts w)).commits = w.commits ∧
          (stateAfter (syncOwn env opts w)).remotes = w.remotes) ∧
      (opts.dryRun = true → NoPush events ∧
        stateAfter (syncOwn env opts w) = { w with trace := w.trace ++ events })) ∧
    ∀ opts : InitOwnSyncOptions, ∃ events,
      (stateAfter (initOwnSync env opts w)).trace = w.trace ++ events ∧
      Gated env opts.trustRemotePrivate (env.pushUrls (some (unitsOf opts.url))) events ∧
      (Refuses env opts.trustRemotePrivate (env.pushUrls (some (unitsOf opts.url))) →
        (∃ e w', initOwnSync env opts w = .error e w') ∧ NoPush events ∧
          (stateAfter (initOwnSync env opts w)).commits = w.commits ∧
          (stateAfter (initOwnSync env opts w)).remotes = w.remotes) := by
  have hdry : ∀ (dry : Bool) (w' : World) events, w'.trace = w.trace ++ events →
      (dry = true → Same w w' ∧ Quiet w.trace w') → dry = true →
        NoPush events ∧ w' = { w with trace := w.trace ++ events } := by
    intro dry w' events htrace h hd
    obtain ⟨hsame, quiet, hquiet, hno⟩ := h hd
    obtain rfl : quiet = events := List.append_cancel_left (hquiet.symm.trans htrace)
    exact ⟨hno, htrace ▸ hsame⟩
  constructor
  · intro opts
    rcases syncOwn_meets.run (rfl : w = w) with
      ⟨a, w', hrun, ⟨hfree, events, htrace, hgated⟩, hsame⟩ | ⟨e, w', hrun, hout, hsame⟩
    · rw [hrun]
      exact ⟨events, htrace, hgated, fun h => absurd h hfree, hdry _ w' events htrace hsame⟩
    · rw [hrun]
      rcases hout with ⟨huntouched, events, htrace, hno⟩ | ⟨hfree, events, htrace, hgated⟩
      · exact ⟨events, htrace, gated_of_noPush hno, fun _ => ⟨⟨e, w', rfl⟩, hno, huntouched⟩,
          hdry _ w' events htrace hsame⟩
      · exact ⟨events, htrace, hgated, fun h => absurd h hfree, hdry _ w' events htrace hsame⟩
  · intro opts
    rcases initOwnSync_meets.run (rfl : w = w) with
      ⟨a, w', hrun, hfree, events, htrace, hgated⟩ | ⟨e, w', hrun, hout⟩
    · rw [hrun]
      exact ⟨events, htrace, hgated, fun h => absurd h hfree⟩
    · rw [hrun]
      rcases hout with ⟨huntouched, events, htrace, hno⟩ | ⟨hfree, events, htrace, hgated⟩
      · exact ⟨events, htrace, gated_of_noPush hno, fun _ => ⟨⟨e, w', rfl⟩, hno, huntouched⟩⟩
      · exact ⟨events, htrace, hgated, fun h => absurd h hfree⟩

end Gate

end Caveat.Sync.Own
