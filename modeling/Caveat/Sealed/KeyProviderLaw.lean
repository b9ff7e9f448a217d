import Caveat.Sealed.KeyProvider
import Caveat.Sealed.KeyserverLaw

/-!
# Only served keys are kept

Whatever is in the memory of a reader, or in a file, is the key that the server of its address answered
a request for its id with. Two names of files may be the same, since the address and the id are in the
file. A call that ends well leaves its key in the memory.
-/

namespace Caveat.Sealed.KeyProvider

open Js Lib
open Keyserver

variable {host : Host} {s s' : State} {a : Action} {i j : Nat} {p : Provider} {c : EnsureCall}
  {url keyId keyserverUrl bareId : Units} {key : Bytes}

/-! ## Names and files -/

/-- The address and the id can be told apart in what stands for both of them. -/
theorem memoryKey_inj {url url' keyId keyId' : Units} (h : unitOf '\n' ∉ url) (h' : unitOf '\n' ∉ url')
    (heq : memoryKey url keyId = memoryKey url' keyId') : url = url' ∧ keyId = keyId' :=
  append_separator_inj h h' heq

/-- What is written is parsed. -/
theorem parse_cacheText (host : Host) (url keyId : Units) (key : Bytes) :
    ∃ parsed, parseJson host.doubles.round (decodeUtf8 (cacheText url keyId key)) = some parsed ∧
      parsed.member? "keyserverUrl".toList = some (.string url) ∧
      parsed.member? "keyId".toList = some (.string keyId) ∧
      parsed.member? "key".toList = some (.string (unitsOf (Base64.encode key))) := by
  refine ⟨.object ((cacheMembers url keyId (unitsOf (Base64.encode key))).map stringMember), ?_, rfl, rfl, rfl⟩
  rw [cacheText, decodeUtf8_encodeUtf8]
  exact parseJson_indentedObject host.doubles.round _ _ rfl

/-- **A file is read back for what it was written for**, and for nothing else. -/
theorem readCacheText_cacheText (url' keyId' : Units) (hkey : key.length = 32) :
    readCacheText host (cacheText url keyId key) url' keyId' =
      if url = url' ∧ keyId = keyId' then some key else none := by
  obtain ⟨parsed, hparsed, hurl, hid, hmember⟩ := parse_cacheText host url keyId key
  rw [readCacheText, hparsed]
  dsimp only
  rw [hurl, hid]
  dsimp only
  rw [hmember, decodeBase64Key_stored ⟨key, hkey⟩]
  rfl

/-! ## The invariant -/

/-- A server answered the request for the key with it. -/
def Served (host : Host) (answers : List Answer) (url keyId : Units) (key : Bytes) : Prop :=
  ∃ bareId path response, parseKeyserverKeyId keyId = .ok bareId ∧ requestPath bareId = some path ∧
    (⟨url, path, response⟩ : Answer) ∈ answers ∧ readResponse host.doubles bareId response = .ok key

theorem Served.mono {answers answers' : List Answer} (h : Served host answers url keyId key)
    (hsub : ∀ answer ∈ answers, answer ∈ answers') : Served host answers' url keyId key := by
  obtain ⟨bareId, path, response, hparse, hpath, hmem, hread⟩ := h
  exact ⟨bareId, path, response, hparse, hpath, hsub _ hmem, hread⟩

theorem length_of_decodeBase64Key {value : Option Json} (h : decodeBase64Key value = .ok key) :
    key.length = 32 := by
  unfold decodeBase64Key at h
  split at h
  · dsimp only at h
    split at h
    · split at h
      · rename_i hlength
        rw [← Except.ok.inj h]
        exact hlength
      · cases h
    · cases h
  · cases h

theorem length_of_readResponse {response : Response}
    (h : readResponse host.doubles bareId response = .ok key) : key.length = 32 := by
  unfold readResponse at h
  split at h
  · split at h
    · cases h
    · split at h
      · split at h
        · exact length_of_decodeBase64Key h
        · cases h
      · cases h
  · cases h

theorem Served.length {answers : List Answer} (h : Served host answers url keyId key) :
    key.length = 32 := by
  obtain ⟨_, _, _, _, _, _, hread⟩ := h
  exact length_of_readResponse hread

/-- An address, and the key that is kept for an id at it. -/
structure Kept (host : Host) (answers : List Answer) (url keyId : Units) (key : Bytes) : Prop where
  address : unitOf '\n' ∉ url
  served : Served host answers url keyId key

/-- What a call relies on. -/
structure CallInv (host : Host) (answers : List Answer) (memory : Units → Option Bytes) (c : EnsureCall) :
    Prop where
  url : unitOf '\n' ∉ c.url
  parses : parseKeyserverKeyId c.keyId = .ok c.bareId
  path : ∀ path, c.phase = .waiting path → requestPath c.bareId = some path
  writes : ∀ key, c.phase = .writeCache key →
    Served host answers c.url c.keyId key ∧ (memory (memoryKey c.url c.keyId)).isSome = true
  available : c.phase = .available → (memory (memoryKey c.url c.keyId)).isSome = true

structure ProviderInv (host : Host) (answers : List Answer) (p : Provider) : Prop where
  memory : ∀ name key, p.memory name = some key →
    ∃ url keyId, name = memoryKey url keyId ∧ Kept host answers url keyId key
  calls : ∀ c ∈ p.calls, CallInv host answers p.memory c

structure Inv (host : Host) (s : State) : Prop where
  providers : ∀ i, ProviderInv host s.answers (s.providers i)
  files : ∀ name bytes, s.files name = some bytes → ∃ url keyId key,
    name = cacheFilePath host url keyId ∧ bytes = cacheText url keyId key ∧
      Kept host s.answers url keyId key

theorem CallInv.mono {answers answers' : List Answer} {memory memory' : Units → Option Bytes}
    (h : CallInv host answers memory c) (hsub : ∀ answer ∈ answers, answer ∈ answers')
    (hmemory : ∀ name, (memory name).isSome = true → (memory' name).isSome = true) :
    CallInv host answers' memory' c where
  url := h.url
  parses := h.parses
  path := h.path
  writes key hphase := ⟨(h.writes key hphase).1.mono hsub, hmemory _ (h.writes key hphase).2⟩
  available hphase := hmemory _ (h.available hphase)

theorem ProviderInv.mono {answers answers' : List Answer} (h : ProviderInv host answers p)
    (hsub : ∀ answer ∈ answers, answer ∈ answers') : ProviderInv host answers' p where
  memory name key hkey := by
    obtain ⟨url, keyId, hname, hkept⟩ := h.memory name key hkey
    exact ⟨url, keyId, hname, hkept.address, hkept.served.mono hsub⟩
  calls c hc := (h.calls c hc).mono hsub fun _ hsome => hsome

/-- A call goes on. -/
theorem ProviderInv.move {answers : List Answer} {phase : Phase} (h : ProviderInv host answers p)
    (hc : CallInv host answers p.memory { c with phase := phase }) :
    ProviderInv host answers (p.move j c phase) where
  memory := h.memory
  calls d hd := by
    rcases List.mem_or_eq_of_mem_set hd with hd | rfl
    · exact h.calls d hd
    · exact hc

theorem isSome_keep (p : Provider) (c : EnsureCall) (key : Bytes) {name : Units}
    (h : (p.memory name).isSome = true) : ((p.keep c key).memory name).isSome = true := by
  show (Function.update p.memory _ _ name).isSome = true
  rw [Function.update_apply]
  split
  · rfl
  · exact h

theorem isSome_keep_self (p : Provider) (c : EnsureCall) (key : Bytes) :
    ((p.keep c key).memory (memoryKey c.url c.keyId)).isSome = true := by
  show (Function.update p.memory _ _ _).isSome = true
  rw [Function.update_self]
  rfl

/-- A served key is kept. -/
theorem ProviderInv.keep {answers : List Answer} (h : ProviderInv host answers p)
    (hkept : Kept host answers c.url c.keyId key) : ProviderInv host answers (p.keep c key) where
  memory name key' hkey' := by
    have hkey' : Function.update p.memory (memoryKey c.url c.keyId) (some key) name = some key' := hkey'
    rw [Function.update_apply] at hkey'
    split at hkey'
    · rename_i hname
      obtain rfl := Option.some.inj hkey'
      exact ⟨c.url, c.keyId, hname, hkept⟩
    · exact h.memory name key' hkey'
  calls d hd := (h.calls d hd).mono (fun _ hanswer => hanswer) fun _ hsome => isSome_keep p c key hsome

/-- A phase that nothing rests on. -/
def Phase.isPlain : Phase → Bool
  | .waiting _ | .writeCache _ | .available => false
  | _ => true

theorem CallInv.plain {answers : List Answer} {memory : Units → Option Bytes} {phase : Phase}
    (h : CallInv host answers memory c) (hplain : phase.isPlain = true) :
    CallInv host answers memory { c with phase := phase } where
  url := h.url
  parses := h.parses
  path path hphase := by
    have hphase : phase = .waiting path := hphase
    rw [hphase] at hplain
    cases hplain
  writes key hphase := by
    have hphase : phase = .writeCache key := hphase
    rw [hphase] at hplain
    cases hplain
  available hphase := by
    have hphase : phase = .available := hphase
    rw [hphase] at hplain
    cases hplain

/-! ## Steps -/

/-- An address that is written out has no line break. -/
structure Host.Lines (host : Host) : Prop where
  withPath : ∀ url path, unitOf '\n' ∉ host.withPath url path

theorem mem_of_mem_dropSlash {s : Units} {u : UInt16} (h : u ∈ dropSlash s) : u ∈ s := by
  unfold dropSlash at h
  split at h
  · exact List.mem_of_mem_dropLast h
  · exact h

theorem Host.Lines.normalized (hlines : host.Lines)
    (h : normalizeKeyserverUrl host keyserverUrl = .ok url) : unitOf '\n' ∉ url := by
  unfold normalizeKeyserverUrl at h
  split at h
  · cases h
  · dsimp only at h
    split at h
    · cases h
    · obtain rfl := Except.ok.inj h
      intro hmem
      exact hlines.withPath _ _ (mem_of_mem_dropSlash hmem)

theorem Inv.setProvider (h : Inv host s) (hp : ProviderInv host s.answers p) :
    Inv host (s.setProvider i p) where
  providers k := by
    show ProviderInv host s.answers (Function.update s.providers i p k)
    rw [Function.update_apply]
    split
    · exact hp
    · exact h.providers k
  files := h.files

/-- A file more. -/
theorem Inv.writeFile (h : Inv host s) (hkept : Kept host s.answers url keyId key) :
    Inv host { s with
      files := Function.update s.files (cacheFilePath host url keyId)
        (some (cacheText url keyId key)) } where
  providers := h.providers
  files name bytes hfile := by
    dsimp only at hfile
    rw [Function.update_apply] at hfile
    split at hfile
    · rename_i hname
      exact ⟨url, keyId, key, hname, (Option.some.inj hfile).symm, hkept⟩
    · exact h.files name bytes hfile

/-- A file less. -/
theorem Inv.removeFile (h : Inv host s) (name : Units) :
    Inv host { s with files := Function.update s.files name none } where
  providers := h.providers
  files name' bytes hfile := by
    dsimp only at hfile
    rw [Function.update_apply] at hfile
    split at hfile
    · cases hfile
    · exact h.files name' bytes hfile

/-- An answer more. -/
theorem Inv.answer (h : Inv host s) (answer : Answer) :
    Inv host { s with answers := answer :: s.answers } where
  providers k := (h.providers k).mono fun _ hmem => List.mem_cons_of_mem answer hmem
  files name bytes hfile := by
    obtain ⟨url, keyId, key, hname, hbytes, hkept⟩ := h.files name bytes hfile
    exact ⟨url, keyId, key, hname, hbytes, hkept.address,
      hkept.served.mono fun _ hmem => List.mem_cons_of_mem answer hmem⟩

/-- The key of a file is the one it was written with. -/
theorem Inv.kept_of_readCacheText (h : Inv host s) {name : Units} {bytes : Bytes}
    (hfile : s.files name = some bytes) (hread : readCacheText host bytes url keyId = some key) :
    Kept host s.answers url keyId key := by
  obtain ⟨url', keyId', key', -, rfl, hkept⟩ := h.files name bytes hfile
  rw [readCacheText_cacheText url keyId hkept.served.length] at hread
  split at hread
  · rename_i hsame
    obtain ⟨rfl, rfl⟩ := hsame
    rw [← Option.some.inj hread]
    exact hkept
  · cases hread

/-- A call that starts has passed the checks of its arguments. -/
theorem exists_of_checks {α : Type} {f : Units → Units → Except SealedKeyErrorCode α} {x : α}
    (h : (do
      let url ← normalizeKeyserverUrl host keyserverUrl
      let bareId ← parseKeyserverKeyId keyId
      f url bareId) = .ok x) :
    ∃ url bareId, normalizeKeyserverUrl host keyserverUrl = .ok url ∧
      parseKeyserverKeyId keyId = .ok bareId ∧ f url bareId = .ok x := by
  cases hurl : normalizeKeyserverUrl host keyserverUrl with
  | error code =>
      rw [hurl] at h
      cases h
  | ok url =>
      cases hparse : parseKeyserverKeyId keyId with
      | error code =>
          rw [hurl, hparse] at h
          cases h
      | ok bareId =>
          rw [hurl, hparse] at h
          exact ⟨url, bareId, rfl, rfl, h⟩

/-- A call starts. -/
theorem ProviderInv.ensure {answers : List Answer} {p' : Provider} (hlines : host.Lines)
    (h : ProviderInv host answers p) (hp : p.ensureKeyAvailable host keyId keyserverUrl = .ok p') :
    ProviderInv host answers p' := by
  obtain ⟨url, bareId, hurl, hparse, hp⟩ := exists_of_checks hp
  obtain rfl := Except.ok.inj hp
  refine ⟨h.memory, fun c hc => ?_⟩
  rcases List.mem_append.mp hc with hc | hc
  · exact h.calls c hc
  · obtain rfl := List.mem_singleton.mp hc
    have hplain : CallInv host answers p.memory ⟨keyId, url, bareId, .readCache⟩ :=
      ⟨hlines.normalized hurl, hparse, nofun, nofun, nofun⟩
    by_cases hsome : (p.memory (memoryKey url keyId)).isSome = true
    · rw [if_pos hsome]
      exact ⟨hplain.url, hparse, nofun, nofun, fun _ => hsome⟩
    · rw [if_neg hsome]
      exact hplain

/-- A call reads its file. -/
theorem ProviderInv.readStep {fails : Bool} (h : Inv host s) (hp : ProviderInv host s.answers p)
    (hc : CallInv host s.answers p.memory c) :
    ProviderInv host s.answers (readStep host s p j c fails) := by
  unfold KeyProvider.readStep
  split
  · exact hp.move (hc.plain rfl)
  · split
    · exact hp.move (hc.plain rfl)
    · rename_i bytes hfile
      split
      · exact hp.move (hc.plain rfl)
      · rename_i key hread
        have hkeep := hp.keep (h.kept_of_readCacheText hfile hread)
        exact hkeep.move ⟨hc.url, hc.parses, nofun, nofun, fun _ => isSome_keep_self p c key⟩

/-- A call takes an answer. -/
theorem ProviderInv.respondStep {answers : List Answer} {response : Response} {path : Text}
    (hp : ProviderInv host answers p) (hc : CallInv host answers p.memory c)
    (hpath : requestPath c.bareId = some path) (hmem : (⟨c.url, path, response⟩ : Answer) ∈ answers) :
    ProviderInv host answers (respondStep host p j c response) := by
  unfold KeyProvider.respondStep
  split
  · exact hp.move (hc.plain rfl)
  · rename_i key hread
    have hserved : Served host answers c.url c.keyId key :=
      ⟨c.bareId, path, response, hc.parses, hpath, hmem, hread⟩
    refine (hp.keep ⟨hc.url, hserved⟩).move ⟨hc.url, hc.parses, nofun, fun key' hkey' => ?_, nofun⟩
    obtain rfl := Phase.writeCache.inj hkey'
    exact ⟨hserved, isSome_keep_self p c key⟩

/-- A call takes a step. -/
theorem Inv.callStep (h : Inv host s) (hc : c ∈ (s.providers i).calls)
    (hs : callStep host s i j c a = some s') : Inv host s' := by
  have hp := h.providers i
  have hcall := hp.calls c hc
  cases a with
  | ensure _ _ _ => cases hs
  | stop _ => cases hs
  | removeFile _ => cases hs
  | read _ _ fails =>
      dsimp only [KeyProvider.callStep] at hs
      split at hs
      · rw [← Option.some.inj hs]
        exact h.setProvider (hp.readStep h hcall)
      · cases hs
  | remove _ _ fails =>
      dsimp only [KeyProvider.callStep] at hs
      split at hs
      · split at hs
        · rw [← Option.some.inj hs]
          exact h.setProvider (hp.move (hcall.plain rfl))
        · rw [← Option.some.inj hs]
          exact (h.setProvider (hp.move (hcall.plain rfl))).removeFile _
      · cases hs
  | request _ _ =>
      dsimp only [KeyProvider.callStep] at hs
      split at hs
      · split at hs
        · rw [← Option.some.inj hs]
          exact h.setProvider (hp.move (hcall.plain rfl))
        · rename_i path hpath
          rw [← Option.some.inj hs]
          refine h.setProvider (hp.move ⟨hcall.url, hcall.parses, fun path' hphase => ?_, nofun, nofun⟩)
          rw [hpath, Phase.waiting.inj hphase]
      · cases hs
  | respond _ _ response =>
      dsimp only [KeyProvider.callStep] at hs
      split at hs
      · rename_i path hphase
        split at hs
        · rw [← Option.some.inj hs]
          exact h.setProvider (hp.move (hcall.plain rfl))
        · rename_i response
          rw [← Option.some.inj hs]
          have hanswer := h.answer ⟨c.url, path, response⟩
          have hp' := hanswer.providers i
          exact hanswer.setProvider
            (hp'.respondStep (hp'.calls c hc) (hcall.path path hphase) (List.mem_cons_self ..))
      · cases hs
  | write _ _ fails =>
      dsimp only [KeyProvider.callStep] at hs
      split at hs
      · rename_i key hphase
        split at hs
        · rw [← Option.some.inj hs]
          exact h.setProvider (hp.move (hcall.plain rfl))
        · rw [← Option.some.inj hs]
          obtain ⟨hserved, hsome⟩ := hcall.writes key hphase
          have hmoved : ProviderInv host s.answers ((s.providers i).move j c .available) :=
            hp.move ⟨hcall.url, hcall.parses, nofun, nofun, fun _ => hsome⟩
          exact (h.setProvider hmoved).writeFile ⟨hcall.url, hserved⟩
      · cases hs

/-- What a step does. -/
theorem step_cases (hs : step host s a = some s') :
    (∃ i keyId keyserverUrl, a = .ensure i keyId keyserverUrl ∧ (s' = s ∨
      ∃ p, (s.providers i).ensureKeyAvailable host keyId keyserverUrl = .ok p ∧
        s' = s.setProvider i p)) ∨
    (∃ i, a = .stop i ∧ s' = s.setProvider i {}) ∨
    (∃ name, a = .removeFile name ∧ s' = { s with files := Function.update s.files name none }) ∨
    ∃ i j, ∃ c ∈ (s.providers i).calls, callStep host s i j c a = some s' := by
  cases a with
  | ensure i keyId keyserverUrl =>
      left
      dsimp only [step] at hs
      split at hs
      · exact ⟨i, keyId, keyserverUrl, rfl, .inl (Option.some.inj hs).symm⟩
      · rename_i p hp
        exact ⟨i, keyId, keyserverUrl, rfl, .inr ⟨p, hp, (Option.some.inj hs).symm⟩⟩
  | stop i => exact .inr (.inl ⟨i, rfl, (Option.some.inj hs).symm⟩)
  | removeFile name => exact .inr (.inr (.inl ⟨name, rfl, (Option.some.inj hs).symm⟩))
  | read | remove | request | respond | write =>
      -- the steps of a call
      dsimp only [step] at hs
      split at hs
      · cases hs
      · rename_i c hc
        exact .inr (.inr (.inr ⟨_, _, c, List.mem_of_getElem? hc, hs⟩))

theorem Inv.step (hlines : host.Lines) (h : Inv host s) (hs : step host s a = some s') :
    Inv host s' := by
  rcases step_cases hs with ⟨i, _, _, -, rfl | ⟨p, hp, rfl⟩⟩ | ⟨i, -, rfl⟩ | ⟨name, -, rfl⟩ |
    ⟨i, j, c, hc, hs⟩
  · exact h
  · exact h.setProvider ((h.providers i).ensure hlines hp)
  · exact h.setProvider ⟨nofun, nofun⟩
  · exact h.removeFile name
  · exact h.callStep hc hs

theorem inv_of_reaches (hlines : host.Lines)
    (hr : Reaches (step host) (fun _ _ => True) Initial s) : Inv host s :=
  hr.invariant (fun s hs => by rw [hs]; exact ⟨fun _ => ⟨nofun, nofun⟩, nofun⟩)
    fun _ _ _ h _ hs => h.step hlines hs

/-! ## Keys -/

/-- A host that knows one address. -/
def exampleHost : Host where
  doubles := plainDoubles
  Url := Unit
  parse text := if text = str "https://keys.example" then some () else none
  protocol _ := str "https:"
  hostname _ := str "keys.example"
  pathname _ := str "/"
  withPath _ _ := str "https://keys.example/"
  digest _ := str "7dd9ee41108de64f7afe717e37a57771"

theorem exampleHost_lines : exampleHost.Lines := by
  refine ⟨fun _ _ => ?_⟩
  show unitOf '\n' ∉ str "https://keys.example/"
  decide +kernel

def exampleId : Units := str "keyserver:alice-key.2026"

def exampleUrl : Units := str "https://keys.example"

def exampleAnswer : Response :=
  jsonResponse plainDoubles
    (keyMembers (str "alice-key.2026") (unitsOf (Base64.encode zeroKey.bytes))) 200

/-- A reader fetches a key and writes it to its file. -/
def exampleFetch : List Action :=
  [.ensure 0 exampleId exampleUrl, .read 0 0 false, .request 0 0, .respond 0 0 (some exampleAnswer),
    .write 0 0 false]

/-- A state in which a key has been fetched. -/
theorem reaches_exampleFetch (p : State → Bool)
    (h : (run (step exampleHost) {} exampleFetch).any p = true) :
    ∃ s, Reaches (step exampleHost) (fun _ _ => True) Initial s ∧ p s = true :=
  Reaches.exists_of_run (step exampleHost) (show Initial {} from rfl) exampleFetch p h

theorem resolveContentKey_eq (hurl : normalizeKeyserverUrl host keyserverUrl = .ok url)
    (hparse : parseKeyserverKeyId keyId = .ok bareId) :
    p.resolveContentKey host keyId keyserverUrl =
      match p.memory (memoryKey url keyId) with
      | none => .error .keyUnavailable
      | some key => .ok key := by
  rw [Provider.resolveContentKey, hurl, hparse]
  rfl

/-- What the memory of a reader holds for an address and an id was served for them. -/
theorem ProviderInv.served {answers : List Answer} (h : ProviderInv host answers p)
    (hurl : unitOf '\n' ∉ url) (hkey : p.memory (memoryKey url keyId) = some key) :
    Served host answers url keyId key := by
  obtain ⟨url', keyId', hname, hkept⟩ := h.memory _ key hkey
  obtain ⟨rfl, rfl⟩ := memoryKey_inj hurl hkept.address hname
  exact hkept.served

/--
**A key was served.** After any run, a key that a reader gives for an address and an id, from its
memory or from the files, has 32 bytes, and the server of that address answered a request for that id
with it: no name of a file that stands for two of them brings a key of another.
-/
theorem resolved_key_served (hlines : host.Lines)
    (hr : Reaches (step host) (fun _ _ => True) Initial s)
    (hkey : (∃ i, (s.providers i).resolveContentKey host keyId keyserverUrl = .ok key) ∨
      resolveCachedKey host s keyId keyserverUrl = .ok key) :
    key.length = 32 ∧ ∃ url, normalizeKeyserverUrl host keyserverUrl = .ok url ∧
      Served host s.answers url keyId key := by
  have h := inv_of_reaches hlines hr
  suffices hserved : ∃ url, normalizeKeyserverUrl host keyserverUrl = .ok url ∧
      Served host s.answers url keyId key from ⟨hserved.choose_spec.2.length, hserved⟩
  rcases hkey with ⟨i, hkey⟩ | hkey
  · obtain ⟨url, _, hurl, _, hkey⟩ := exists_of_checks hkey
    split at hkey
    · cases hkey
    · rename_i key' hmemory
      obtain rfl := Except.ok.inj hkey
      exact ⟨url, hurl, (h.providers i).served (hlines.normalized hurl) hmemory⟩
  · obtain ⟨url, _, hurl, _, hkey⟩ := exists_of_checks hkey
    split at hkey
    · cases hkey
    · rename_i key' hfile
      obtain rfl := Except.ok.inj hkey
      obtain ⟨bytes, hbytes, hread⟩ := Option.bind_eq_some_iff.mp hfile
      exact ⟨url, hurl, (h.kept_of_readCacheText hbytes hread).served⟩

/-- The law after a key was fetched. -/
theorem resolved_key_served_fetched :
    ∃ s, Reaches (step exampleHost) (fun _ _ => True) Initial s ∧
      resolveCachedKey exampleHost s exampleId exampleUrl = .ok zeroKey.bytes ∧
      zeroKey.bytes.length = 32 ∧ ∃ url, normalizeKeyserverUrl exampleHost exampleUrl = .ok url ∧
        Served exampleHost s.answers url exampleId zeroKey.bytes := by
  obtain ⟨s, hr, hs⟩ := reaches_exampleFetch
    (fun s => (resolveCachedKey exampleHost s exampleId exampleUrl).toOption = some zeroKey.bytes)
    (by decide +kernel)
  cases hkey : resolveCachedKey exampleHost s exampleId exampleUrl with
  | error code =>
      rw [hkey] at hs
      cases hs
  | ok key =>
      rw [hkey] at hs
      obtain rfl := Option.some.inj (of_decide_eq_true hs)
      exact ⟨s, hr, hkey, resolved_key_served exampleHost_lines hr (.inr hkey)⟩

/--
**A file is read back.** After any run, every file of the directory belongs to one address and id: it
is read back for them, as a key that was served for them, and it is invalid for all others. So a reader
removes a file only where the digests of two of them are the same.
-/
theorem cache_file_readable (hlines : host.Lines)
    (hr : Reaches (step host) (fun _ _ => True) Initial s) {name : Units} {bytes : Bytes}
    (hfile : s.files name = some bytes) :
    ∃ url keyId key, name = cacheFilePath host url keyId ∧ Served host s.answers url keyId key ∧
      ∀ url' keyId', readCacheText host bytes url' keyId' =
        if url = url' ∧ keyId = keyId' then some key else none := by
  obtain ⟨url, keyId, key, hname, rfl, hkept⟩ := (inv_of_reaches hlines hr).files name bytes hfile
  exact ⟨url, keyId, key, hname, hkept.served, fun url' keyId' =>
    readCacheText_cacheText url' keyId' hkept.served.length⟩

/-- The law for the file of a key that was fetched. -/
theorem cache_file_readable_fetched :
    ∃ s name bytes, Reaches (step exampleHost) (fun _ _ => True) Initial s ∧
      s.files name = some bytes ∧ ∃ url keyId key, name = cacheFilePath exampleHost url keyId ∧
        Served exampleHost s.answers url keyId key ∧
          ∀ url' keyId', readCacheText exampleHost bytes url' keyId' =
            if url = url' ∧ keyId = keyId' then some key else none := by
  obtain ⟨s, hr, hs⟩ := reaches_exampleFetch
    (fun s => (s.files (cacheFilePath exampleHost exampleUrl exampleId)).isSome) (by decide +kernel)
  obtain ⟨bytes, hfile⟩ := Option.isSome_iff_exists.mp hs
  exact ⟨s, _, bytes, hr, hfile, cache_file_readable exampleHost_lines hr hfile⟩

/-! ## Calls that have ended -/

theorem isSome_readStep {fails : Bool} {name : Units} (h : (p.memory name).isSome = true) :
    ((readStep host s p j c fails).memory name).isSome = true := by
  unfold readStep
  split
  · exact h
  · split
    · exact h
    · split
      · exact h
      · exact isSome_keep p c _ h

theorem isSome_respondStep {response : Response} {name : Units}
    (h : (p.memory name).isSome = true) :
    ((respondStep host p j c response).memory name).isSome = true := by
  unfold respondStep
  split
  · exact h
  · exact isSome_keep p c _ h

theorem isSome_setProvider {k : Nat} {name : Units} (h : ((s.providers k).memory name).isSome = true)
    (hp : i = k → (p.memory name).isSome = true) :
    (((s.setProvider i p).providers k).memory name).isSome = true := by
  show ((Function.update s.providers i p k).memory name).isSome = true
  rw [Function.update_apply]
  split
  · rename_i hik
    exact hp hik.symm
  · exact h

/-- A step of a call changes its own reader only, and takes nothing from the memory of it. -/
theorem providers_callStep (hs : callStep host s i j c a = some s') :
    ∃ p, s'.providers = (s.setProvider i p).providers ∧ ∀ name,
      ((s.providers i).memory name).isSome = true → (p.memory name).isSome = true := by
  cases a with
  | ensure _ _ _ => cases hs
  | stop _ => cases hs
  | removeFile _ => cases hs
  | read _ _ fails =>
      dsimp only [callStep] at hs
      split at hs
      · rw [← Option.some.inj hs]
        exact ⟨_, rfl, fun _ h => isSome_readStep h⟩
      · cases hs
  | remove _ _ fails =>
      dsimp only [callStep] at hs
      split at hs
      · split at hs <;> rw [← Option.some.inj hs] <;> exact ⟨_, rfl, fun _ h => h⟩
      · cases hs
  | request _ _ =>
      dsimp only [callStep] at hs
      split at hs
      · split at hs <;> rw [← Option.some.inj hs] <;> exact ⟨_, rfl, fun _ h => h⟩
      · cases hs
  | respond _ _ response =>
      dsimp only [callStep] at hs
      split at hs
      · split at hs
        · rw [← Option.some.inj hs]
          exact ⟨_, rfl, fun _ h => h⟩
        · rw [← Option.some.inj hs]
          exact ⟨_, rfl, fun _ h => isSome_respondStep h⟩
      · cases hs
  | write _ _ fails =>
      dsimp only [callStep] at hs
      split at hs
      · split at hs <;> rw [← Option.some.inj hs] <;> exact ⟨_, rfl, fun _ h => h⟩
      · cases hs

/-- A key that is in the memory of a reader stays there. -/
theorem isSome_step {k : Nat} {name : Units} (h : ((s.providers k).memory name).isSome = true)
    (hstop : a ≠ .stop k) (hs : step host s a = some s') :
    ((s'.providers k).memory name).isSome = true := by
  rcases step_cases hs with ⟨i, _, _, -, rfl | ⟨p, hp, rfl⟩⟩ | ⟨i, rfl, rfl⟩ | ⟨_, -, rfl⟩ |
    ⟨i, j, c, -, hs⟩
  · exact h
  · obtain ⟨url, bareId, -, -, hp⟩ := exists_of_checks hp
    obtain rfl := Except.ok.inj hp
    exact isSome_setProvider h fun hik => hik ▸ h
  · exact isSome_setProvider h fun hik => absurd (congrArg Action.stop hik) hstop
  · exact h
  · obtain ⟨p, hproviders, hkeeps⟩ := providers_callStep hs
    rw [hproviders]
    exact isSome_setProvider h fun hik => hkeeps name (hik ▸ h)

theorem isSome_run {k : Nat} {name : Units} {as : List Action} (hstop : .stop k ∉ as) :
    ∀ {s : State}, ((s.providers k).memory name).isSome = true →
      run (step host) s as = some s' → ((s'.providers k).memory name).isSome = true := by
  induction as with
  | nil =>
      intro s h hr
      rw [← Option.some.inj hr]
      exact h
  | cons a as ih =>
      intro s h hr
      obtain ⟨t, ht, hr⟩ := Option.bind_eq_some_iff.mp hr
      have hne : a ≠ .stop k := fun heq => hstop (heq ▸ List.mem_cons_self ..)
      exact ih (fun hmem => hstop (List.mem_cons_of_mem a hmem)) (isSome_step h hne ht) hr

/--
**A key that was ensured is there.** Once a call of a reader has ended well, the reader gives a key for
its address and id, which was served for them, in every state of every run until the reader ends,
whatever becomes of the files and whatever other readers and other calls do.
-/
theorem ensured_key_resolves (hlines : host.Lines)
    (hr : Reaches (step host) (fun _ _ => True) Initial s) (hc : c ∈ (s.providers i).calls)
    (hphase : c.phase = .available) (hurl : normalizeKeyserverUrl host keyserverUrl = .ok c.url)
    {as : List Action} (hstop : .stop i ∉ as) (hrun : run (step host) s as = some s') :
    ∃ key, (s'.providers i).resolveContentKey host c.keyId keyserverUrl = .ok key ∧
      key.length = 32 ∧ Served host s'.answers c.url c.keyId key := by
  have hcall := ((inv_of_reaches hlines hr).providers i).calls c hc
  have hsome := isSome_run hstop (hcall.available hphase) hrun
  obtain ⟨key, hkey⟩ := Option.isSome_iff_exists.mp hsome
  have hserved := ((inv_of_reaches hlines (hr.of_run hrun)).providers i).served hcall.url hkey
  refine ⟨key, ?_, hserved.length, hserved⟩
  rw [resolveContentKey_eq hurl hcall.parses, hkey]

/-- The call of a reader that has fetched a key. -/
def exampleCall : EnsureCall := ⟨exampleId, exampleUrl, str "alice-key.2026", .available⟩

/-- The file of the key is removed, and another reader asks for it in vain. -/
def exampleRemoval : List Action :=
  [.removeFile (cacheFilePath exampleHost exampleUrl exampleId), .ensure 1 exampleId exampleUrl,
    .read 1 0 false, .request 1 0, .respond 1 0 none, .stop 1]

/-- The law where the file is removed. -/
theorem ensured_key_resolves_removed :
    ∃ s s', Reaches (step exampleHost) (fun _ _ => True) Initial s ∧
      run (step exampleHost) s exampleRemoval = some s' ∧
      ∃ key, (s'.providers 0).resolveContentKey exampleHost exampleId exampleUrl = .ok key ∧
        key.length = 32 ∧ Served exampleHost s'.answers exampleUrl exampleId key := by
  obtain ⟨s, hr, hs⟩ := reaches_exampleFetch
    (fun s => decide (exampleCall ∈ (s.providers 0).calls) &&
      (run (step exampleHost) s exampleRemoval).isSome) (by decide +kernel)
  obtain ⟨hc, hrun⟩ := Bool.and_eq_true_iff.mp hs
  obtain ⟨s', hrun⟩ := Option.isSome_iff_exists.mp hrun
  have hstop : Action.stop 0 ∉ exampleRemoval := by simp [exampleRemoval]
  have hurl : normalizeKeyserverUrl exampleHost exampleUrl = .ok exampleCall.url := by decide +kernel
  exact ⟨s, s', hr, hrun, ensured_key_resolves exampleHost_lines hr (of_decide_eq_true hc) rfl
    hurl hstop hrun⟩

end Caveat.Sealed.KeyProvider
