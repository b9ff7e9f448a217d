import Caveat.PrivateEvidence.Origin

/-!
# What identifies an origin

A remote is spelled by its parts, among them what names a user. The digest of an accepted remote
stands for the parts but that one.
-/

namespace Caveat.PrivateEvidence

open Js
open Hooks (lowerUnit)
open Publish (isDigitUnit)
open Lib (PrefixFree)

/-- The parts of a remote as they are spelled. -/
structure Remote where
  form : OriginForm
  scheme : Option Units
  /-- The user information: a name, a password or a token. -/
  user : Option Units
  host : Units
  port : Option Units
  path : Units

def userText : Option Units → Units
  | none => []
  | some user => user ++ [unitOf '@']

def portText : Option Units → Units
  | none => []
  | some port => unitOf ':' :: port

/-- The text that the parts make, with no more on them than where they end. -/
inductive Spells : Units → Remote → Prop
  | url {scheme : Units} {user : Option Units} {host : Units} {port : Option Units} {path : Units} :
      unitOf ':' ∉ scheme → (∀ u ∈ user, unitOf '/' ∉ u) → host ≠ [] →
      (∀ u ∈ host, isHostUnit u = true) → (∀ p ∈ port, unitOf '/' ∉ p) →
      path.head? = some (unitOf '/') →
      Spells (scheme ++ (separator ++ (userText user ++ (host ++ (portText port ++ path)))))
        ⟨.url, some scheme, user, host, port, path⟩
  | scp {user : Option Units} {host path : Units} :
      (∀ u ∈ user, unitOf '/' ∉ u) → host ≠ [] → (∀ u ∈ host, isHostUnit u = true) →
      ¬ separator <:+: userText user ++ (host ++ unitOf ':' :: path) →
      Spells (userText user ++ (host ++ unitOf ':' :: path)) ⟨.scp, none, user, host, none, path⟩

/-- What is read of the parts. -/
def Remote.descriptor (r : Remote) : Descriptor :=
  { form := r.form, scheme := r.scheme.map fun s => s.map lowerUnit, host := r.host, port := r.port
    path := r.path }

/-! ## Runs of characters -/

/-- Where two texts first have a character, they are split the same way. -/
theorem split_unique {u : UInt16} {a a' b b' : Units} (ha : u ∉ a) (ha' : u ∉ a')
    (h : a ++ u :: b = a' ++ u :: b') : a = a' ∧ b = b' := by
  induction a generalizing a' with
  | nil =>
      cases a' with
      | nil => exact ⟨rfl, (List.cons.inj h).2⟩
      | cons v a' => exact absurd ((List.cons.inj h).1 ▸ List.mem_cons_self) ha'
  | cons v a ih =>
      cases a' with
      | nil => exact absurd ((List.cons.inj h).1 ▸ List.mem_cons_self) ha
      | cons w a' =>
          obtain ⟨rfl, htail⟩ := List.cons.inj h
          obtain ⟨rfl, rfl⟩ := ih (fun hu => ha (List.mem_cons_of_mem v hu))
            (fun hu => ha' (List.mem_cons_of_mem v hu)) htail
          exact ⟨rfl, rfl⟩

theorem takeWhile_run {p : UInt16 → Bool} {a : Units} {u : UInt16} {b : Units}
    (ha : ∀ v ∈ a, p v = true) (hu : p u = false) :
    (a ++ u :: b).takeWhile p = a ∧ (a ++ u :: b).dropWhile p = u :: b := by
  rw [List.takeWhile_append_of_pos ha, List.dropWhile_append_of_pos ha, List.takeWhile_cons_of_neg,
    List.dropWhile_cons_of_neg, List.append_nil]
  · exact ⟨rfl, rfl⟩
  · rw [hu]; exact Bool.false_ne_true
  · rw [hu]; exact Bool.false_ne_true

/-- A run ends before a character that is not of it. -/
theorem dropWhile_stop {p : UInt16 → Bool} {u : UInt16} (hu : p u = false) (a b : Units) :
    (a ++ u :: b).dropWhile p = a.dropWhile p ++ u :: b := by
  induction a with
  | nil =>
      rw [List.nil_append, List.dropWhile_cons_of_neg, List.dropWhile_nil, List.nil_append]
      rw [hu]; exact Bool.false_ne_true
  | cons v a ih =>
      rw [List.cons_append]
      by_cases hv : p v = true
      · rw [List.dropWhile_cons_of_pos hv, List.dropWhile_cons_of_pos hv, ih]
      · rw [List.dropWhile_cons_of_neg hv, List.dropWhile_cons_of_neg hv, List.cons_append]

theorem not_mem_dropWhile {p : UInt16 → Bool} {u : UInt16} {a : Units} (h : u ∉ a) :
    u ∉ a.dropWhile p := fun hu => h ((List.dropWhile_sublist p).mem hu)

/-- A text in which `@` comes before the first `/`. -/
def Stuck (s : Units) : Prop := ∃ a b, s = a ++ unitOf '@' :: b ∧ unitOf '/' ∉ a

theorem Stuck.head {s : Units} (h : Stuck s) : s.head? ≠ some (unitOf '/') := by
  obtain ⟨a, b, rfl, ha⟩ := h
  cases a with
  | nil =>
      intro hv
      exact absurd (Option.some.inj hv) (by decide)
  | cons v a =>
      intro hv
      exact ha (Option.some.inj hv ▸ List.mem_cons_self)

theorem Stuck.dropWhile {s : Units} (h : Stuck s) {p : UInt16 → Bool} (hp : p (unitOf '@') = false) :
    Stuck (s.dropWhile p) := by
  obtain ⟨a, b, rfl, ha⟩ := h
  exact ⟨a.dropWhile p, b, dropWhile_stop hp a b, not_mem_dropWhile ha⟩

theorem Stuck.tail {u : UInt16} {s : Units} (h : Stuck (u :: s)) (hu : u ≠ unitOf '@') : Stuck s := by
  obtain ⟨a, b, heq, ha⟩ := h
  cases a with
  | nil => exact absurd (List.cons.inj heq).1 hu
  | cons v a => exact ⟨a, b, (List.cons.inj heq).2, fun hu => ha (List.mem_cons_of_mem v hu)⟩

/-! ## Reading what is spelled -/

/-- Once a `@` is left over, neither a port nor a path is read. -/
theorem portAndPath_stuck {s : Units} (h : Stuck s) : portAndPath s = none := by
  cases s with
  | nil => rfl
  | cons u rest =>
      rw [portAndPath]
      by_cases hcolon : u = unitOf ':'
      · subst hcolon
        have hrest : (rest.dropWhile isDigitUnit).head? ≠ some (unitOf '/') :=
          ((h.tail (by decide)).dropWhile (by decide)).head
        rw [if_pos rfl, decide_eq_false hrest, Bool.and_false, if_neg Bool.false_ne_true]
      · rw [if_neg hcolon, if_neg fun hslash => h.head (congrArg some hslash)]

theorem hostAndRest_stuck {s host rest : Units} (h : Stuck s)
    (hread : hostAndRest s = some (host, rest)) : Stuck rest := by
  rw [hostAndRest] at hread
  split at hread
  · cases hread
  · cases hread
    exact h.dropWhile (by decide)

theorem hostAndRest_run {host : Units} {u : UInt16} {rest : Units} (hne : host ≠ [])
    (hhost : ∀ v ∈ host, isHostUnit v = true) (hu : isHostUnit u = false) :
    hostAndRest (host ++ u :: rest) = some (host, u :: rest) := by
  obtain ⟨htake, hdrop⟩ := takeWhile_run (b := rest) hhost hu
  rw [hostAndRest, htake, hdrop, if_neg]
  rwa [List.isEmpty_iff]

/-- User information is skipped, or the rest is not read. -/
theorem skipUser_user {user : Option Units} (hslash : ∀ u ∈ user, unitOf '/' ∉ u) {host : Units}
    (hhost : ∀ u ∈ host, isHostUnit u = true) {u : UInt16} (hu : u = unitOf ':' ∨ u = unitOf '/')
    (rest : Units) :
    skipUser (userText user ++ (host ++ u :: rest)) = host ++ u :: rest ∨
      Stuck (skipUser (userText user ++ (host ++ u :: rest))) := by
  have hfree : unitOf '@' ∉ host := fun h => absurd (hhost _ h) (by decide)
  have hat : u ≠ unitOf '@' := by rcases hu with rfl | rfl <;> decide
  have hname : isNameUnit u = false := by rcases hu with rfl | rfl <;> decide
  cases user with
  | none =>
      left
      rw [userText, List.nil_append, skipUser, dropWhile_stop hname]
      cases hdrop : host.dropWhile isNameUnit with
      | nil =>
          show (if (_ && _) = true then _ else _) = _
          rw [decide_eq_false hat, Bool.false_and, if_neg Bool.false_ne_true]
      | cons v host' =>
          have hv : v ≠ unitOf '@' := fun h =>
            hfree ((List.dropWhile_sublist isNameUnit).mem
              (by rw [hdrop, h]; exact List.mem_cons_self))
          show (if (_ && _) = true then _ else _) = _
          rw [decide_eq_false hv, Bool.false_and, if_neg Bool.false_ne_true]
  | some user =>
      have hstuck : Stuck (userText (some user) ++ (host ++ u :: rest)) :=
        ⟨user, host ++ u :: rest, by rw [userText, List.append_assoc, List.singleton_append],
          hslash user rfl⟩
      rw [userText, List.append_assoc, List.singleton_append] at hstuck ⊢
      rw [skipUser, dropWhile_stop (by decide)]
      cases hdrop : user.dropWhile isNameUnit with
      | nil =>
          show (if (_ && _) = true then _ else _) = _ ∨ Stuck (if (_ && _) = true then _ else _)
          split
          · exact .inl rfl
          · exact .inr hstuck
      | cons v user' =>
          show (if (_ && _) = true then _ else _) = _ ∨ Stuck (if (_ && _) = true then _ else _)
          split
          · rename_i hread
            have hv : v = unitOf '@' := of_decide_eq_true (Bool.and_eq_true _ _ ▸ hread).1
            refine .inr ⟨user', host ++ u :: rest, rfl, fun h => hslash user rfl ?_⟩
            exact (List.dropWhile_sublist _).mem (hdrop ▸ List.mem_cons_of_mem v h)
          · exact .inr hstuck

/-! ## What is read is spelled -/

theorem schemeAndRest_spelled {s scheme rest : Units}
    (h : schemeAndRest s = some (scheme, rest)) :
    s = scheme ++ (separator ++ rest) ∧ unitOf ':' ∉ scheme := by
  obtain ⟨name, hname, hread⟩ := List.exists_of_findSome?_eq_some h
  have hcolon : unitOf ':' ∉ unitsOf name.toList := by
    simp only [List.mem_cons, List.not_mem_nil, or_false] at hname
    rcases hname with rfl | rfl | rfl | rfl <;> decide
  split at hread
  · rename_i hmatch
    obtain ⟨hscheme, hsep⟩ := Bool.and_eq_true_iff.mp hmatch
    obtain ⟨rfl, rfl⟩ := Prod.mk.inj (Option.some.inj hread)
    refine ⟨?_, fun hmem => hcolon ?_⟩
    · rw [← of_decide_eq_true hsep, ← List.drop_drop, List.take_append_drop, List.take_append_drop]
    · rw [← of_decide_eq_true hscheme]
      exact List.mem_map.mpr ⟨_, hmem, by decide⟩
  · cases hread

theorem skipUser_spelled (s : Units) :
    ∃ user, s = userText user ++ skipUser s ∧ ∀ u ∈ user, unitOf '/' ∉ u := by
  rw [skipUser]
  cases hdrop : s.dropWhile isNameUnit with
  | nil => exact ⟨none, rfl, fun _ h => nomatch h⟩
  | cons v rest =>
      show ∃ user, s = userText user ++ (if (_ && _) = true then _ else _) ∧ _
      split
      · rename_i hread
        have hv := of_decide_eq_true (Bool.and_eq_true_iff.mp hread).1
        refine ⟨some (s.takeWhile isNameUnit), ?_, fun u hu hslash => ?_⟩
        · rw [userText, List.append_assoc, List.singleton_append, ← hv, ← hdrop,
            List.takeWhile_append_dropWhile]
        · cases hu
          exact absurd (List.mem_takeWhile_imp hslash) (by decide)
      · exact ⟨none, rfl, fun _ h => nomatch h⟩

theorem hostAndRest_spelled {s host rest : Units} (h : hostAndRest s = some (host, rest)) :
    s = host ++ rest ∧ host ≠ [] ∧ ∀ u ∈ host, isHostUnit u = true := by
  rw [hostAndRest] at h
  split at h
  · cases h
  · rename_i hne
    obtain ⟨rfl, rfl⟩ := Prod.mk.inj (Option.some.inj h)
    exact ⟨List.takeWhile_append_dropWhile.symm, fun hnil => hne (List.isEmpty_iff.mpr hnil),
      fun u hu => List.mem_takeWhile_imp hu⟩

theorem portAndPath_spelled {s : Units} {port : Option Units} {path : Units}
    (h : portAndPath s = some (port, path)) :
    s = portText port ++ path ∧ (∀ p ∈ port, unitOf '/' ∉ p) ∧ path.head? = some (unitOf '/') := by
  cases s with
  | nil => cases h
  | cons u rest =>
      rw [portAndPath] at h
      split at h
      · rename_i hu
        split at h
        · rename_i hread
          obtain ⟨rfl, rfl⟩ := Prod.mk.inj (Option.some.inj h)
          refine ⟨?_, fun p hp hslash => ?_, of_decide_eq_true (Bool.and_eq_true_iff.mp hread).2⟩
          · rw [hu, portText, List.cons_append, List.takeWhile_append_dropWhile]
          · cases hp
            exact absurd (List.mem_takeWhile_imp hslash) (by decide)
        · cases h
      · split at h
        · rename_i hu
          obtain ⟨rfl, rfl⟩ := Prod.mk.inj (Option.some.inj h)
          exact ⟨rfl, (fun _ h => nomatch h), congrArg some hu⟩
        · cases h

/-- The port is read as it is spelled. -/
theorem portAndPath_portText {port port' : Option Units} {path path' : Units}
    (hport : ∀ p ∈ port, unitOf '/' ∉ p) (hpath : path.head? = some (unitOf '/'))
    (h : portAndPath (portText port ++ path) = some (port', path')) :
    port' = port ∧ path' = path := by
  obtain ⟨heq, hport', hpath'⟩ := portAndPath_spelled h
  obtain ⟨tail, rfl⟩ := List.head?_eq_some_iff.mp hpath
  obtain ⟨tail', rfl⟩ := List.head?_eq_some_iff.mp hpath'
  have hfree : ∀ p : Option Units, (∀ q ∈ p, unitOf '/' ∉ q) → unitOf '/' ∉ portText p := by
    intro p hp
    cases p with
    | none => exact List.not_mem_nil
    | some q => exact List.not_mem_cons_of_ne_of_not_mem (by decide) (hp q rfl)
  obtain ⟨hsame, htail⟩ := split_unique (hfree port hport) (hfree port' hport') heq
  refine ⟨?_, by rw [htail]⟩
  cases port with
  | none =>
      cases port' with
      | none => rfl
      | some p' => cases hsame
  | some p =>
      cases port' with
      | none => cases hsame
      | some p' => rw [(List.cons.inj hsame).2]

theorem readUrl_spelled {text : Units} {d : Descriptor} (h : readUrl text = some d) :
    separator <:+: text ∧ ∃ r, Spells text r ∧ r.descriptor = d := by
  simp only [readUrl, Option.bind_eq_bind, Option.bind_eq_some_iff, Prod.exists] at h
  obtain ⟨scheme, rest, hscheme, host, rest', hhost, port, path, hport, hd⟩ := h
  obtain ⟨htext, hcolon⟩ := schemeAndRest_spelled hscheme
  obtain ⟨user, huser, hslash⟩ := skipUser_spelled rest
  obtain ⟨hsplit, hne, hhostUnits⟩ := hostAndRest_spelled hhost
  obtain ⟨hrest, hportUnits, hpath⟩ := portAndPath_spelled hport
  rw [hsplit, hrest] at huser
  rw [huser] at htext
  split at hd
  · cases hd
  · cases hd
    refine ⟨⟨scheme, _, by rw [htext, List.append_assoc]⟩, ?_⟩
    refine ⟨⟨.url, some scheme, user, host, port, path⟩, ?_, rfl⟩
    rw [htext]
    exact .url hcolon hslash hne hhostUnits hportUnits hpath

theorem readScp_spelled {text : Units} {d : Descriptor} (hsep : ¬ separator <:+: text)
    (h : readScp text = .ok d) : ∃ r, Spells text r ∧ r.descriptor = d := by
  rw [readScp] at h
  split at h
  · rename_i host u path hhost
    obtain ⟨user, huser, hslash⟩ := skipUser_spelled text
    obtain ⟨hsplit, hne, hhostUnits⟩ := hostAndRest_spelled hhost
    rw [hsplit] at huser
    split at h
    · rename_i hu
      split at h
      · cases h
        subst hu
        rw [huser] at hsep
        refine ⟨⟨.scp, none, user, host, none, path⟩, ?_, rfl⟩
        rw [huser]
        exact .scp hslash hne hhostUnits hsep
      · cases h
    · cases h
  · cases h

/-- What is read stands in the text. -/
theorem readRemote_spelled {text : Units} {d : Descriptor} (h : readRemote text = .ok d) :
    ∃ r, Spells text r ∧ r.descriptor = d := by
  rw [readRemote] at h
  split at h
  · cases hread : readUrl text with
    | none => rw [hread] at h; cases h
    | some d' =>
        rw [hread] at h
        cases h
        exact (readUrl_spelled hread).2
  · exact readScp_spelled (by assumption) h

/-! ## What is spelled is read -/

theorem readUrl_of_url {scheme : Units} {user : Option Units} {host : Units} {port : Option Units}
    {path : Units} (hscheme : unitOf ':' ∉ scheme) (huser : ∀ u ∈ user, unitOf '/' ∉ u)
    (hne : host ≠ []) (hhost : ∀ u ∈ host, isHostUnit u = true)
    (hport : ∀ p ∈ port, unitOf '/' ∉ p) (hpath : path.head? = some (unitOf '/')) {d : Descriptor}
    (h : readUrl (scheme ++ (separator ++ (userText user ++ (host ++ (portText port ++ path))))) =
      some d) : d = Remote.descriptor ⟨.url, some scheme, user, host, port, path⟩ := by
  simp only [readUrl, Option.bind_eq_bind, Option.bind_eq_some_iff, Prod.exists] at h
  obtain ⟨scheme', rest, hreadScheme, host', rest', hreadHost, port', path', hreadPort, hd⟩ := h
  obtain ⟨htext, hcolon⟩ := schemeAndRest_spelled hreadScheme
  obtain ⟨rfl, hrest⟩ := split_unique (u := unitOf ':') hscheme hcolon htext
  obtain rfl : rest = userText user ++ (host ++ (portText port ++ path)) :=
    (List.append_cancel_left hrest).symm
  -- the host is followed by a port or by the path
  obtain ⟨u, behind, hbehind, hu⟩ : ∃ u behind, portText port ++ path = u :: behind ∧
      (u = unitOf ':' ∨ u = unitOf '/') := by
    cases port with
    | none =>
        obtain ⟨tail, rfl⟩ := List.head?_eq_some_iff.mp hpath
        exact ⟨_, tail, rfl, .inr rfl⟩
    | some p => exact ⟨_, p ++ path, rfl, .inl rfl⟩
  have hstop : isHostUnit u = false := by rcases hu with rfl | rfl <;> decide
  rw [hbehind] at hreadHost
  rcases skipUser_user huser hhost hu behind with hskip | hstuck
  · rw [hskip, hostAndRest_run hne hhost hstop] at hreadHost
    obtain ⟨rfl, rfl⟩ := Prod.mk.inj (Option.some.inj hreadHost)
    rw [← hbehind] at hreadPort
    obtain ⟨rfl, rfl⟩ := portAndPath_portText hport hpath hreadPort
    split at hd
    · cases hd
    · exact (Option.some.inj hd).symm
  · rw [portAndPath_stuck (hostAndRest_stuck hstuck hreadHost)] at hreadPort
    cases hreadPort

theorem readScp_of_scp {user : Option Units} {host path : Units}
    (huser : ∀ u ∈ user, unitOf '/' ∉ u) (hne : host ≠ [])
    (hhost : ∀ u ∈ host, isHostUnit u = true) {d : Descriptor}
    (h : readScp (userText user ++ (host ++ unitOf ':' :: path)) = .ok d) :
    d = Remote.descriptor ⟨.scp, none, user, host, none, path⟩ := by
  rw [readScp] at h
  split at h
  · rename_i host' u path' hreadHost
    split at h
    · rename_i hu
      subst hu
      split at h
      · rename_i hslash
        cases h
        rcases skipUser_user huser hhost (.inl rfl) path with hskip | hstuck
        · rw [hskip, hostAndRest_run hne hhost (by decide)] at hreadHost
          obtain ⟨rfl, hrest⟩ := Prod.mk.inj (Option.some.inj hreadHost)
          rw [(List.cons.inj hrest).2]
          rfl
        · exact absurd hslash ((hostAndRest_stuck hstuck hreadHost).tail (by decide)).head
      · cases h
    · cases h
  · cases h

/-- **The parts that are read are the parts that are spelled**, whoever the user is. -/
theorem readRemote_of_spells {text : Units} {r : Remote} (hr : Spells text r) {d : Descriptor}
    (h : readRemote text = .ok d) : d = r.descriptor := by
  rw [readRemote] at h
  cases hr with
  | @url scheme user host port path hscheme huser hne hhost hport hpath =>
      rw [if_pos ⟨scheme, _, by rw [List.append_assoc]⟩] at h
      split at h
      · rename_i d' hread
        cases h
        exact readUrl_of_url hscheme huser hne hhost hport hpath hread
      · cases h
  | scp huser hne hhost hsep =>
      rw [if_neg hsep] at h
      exact readScp_of_scp huser hne hhost h

/-! ## The digest -/

/-- The remote whose URL was acquired. -/
def Remote.ReadFrom (r : Remote) (input : AcquiredValue) : Prop :=
  ∃ value, input.value = some value ∧ Spells (dropNewline value) r

/-- What is hashed for an acquired value, if it is hashed. -/
def hashedBytes (doubles : Doubles) (input : AcquiredValue) : Option Bytes :=
  input.value.bind fun value => (describe (dropNewline value)).toOption.map fun d => d.bytes doubles

/-- The text of a tuple determines the tuple. -/
theorem tuple_inj (doubles : Doubles) {l l' : List (Option Units)}
    (h : stringify doubles (.array (l.map nullable)) =
      stringify doubles (.array (l'.map nullable))) : l = l' := by
  have hitems : PrefixFree (fun _ => True) fun s => stringify doubles (nullable s) := by
    simp only [stringify_nullable]
    exact prefixFree_nullable
  have hhead : ∀ s : Option Units, True →
      ∃ c t, stringify doubles (nullable s) = c :: t ∧ c ≠ ']' := by
    intro s _
    rw [stringify_nullable]
    cases s with
    | none => exact ⟨'n', _, rfl, by decide⟩
    | some s => exact ⟨'"', _, quote_eq_cons s, by decide⟩
  rw [stringify_array, stringify_array, Lib.listCode, Lib.listCode, List.map_map, List.map_map] at h
  exact (hitems.list (by decide) hhead).inj (fun _ _ => trivial) (fun _ _ => trivial)
    (List.cons.inj h).2

theorem OriginForm.text_inj {f f' : OriginForm} (h : f.text = f'.text) : f = f' := by
  cases f <;> cases f' <;> first | rfl | exact absurd h (by decide)

/-- What the digest is of is what identifies an origin. -/
theorem descriptor_bytes_iff (doubles : Doubles) (d d' : Descriptor) :
    d.bytes doubles = d'.bytes doubles ↔
      d.form = d'.form ∧ d.scheme = d'.scheme ∧ d.host.map lowerUnit = d'.host.map lowerUnit ∧
        d.port = d'.port ∧ d.path = d'.path := by
  constructor
  · intro h
    have htuple := tuple_inj doubles (encodeUtf8_inj h)
    simp only [Descriptor.tuple, List.cons.injEq, Option.some.injEq, and_true, true_and] at htuple
    obtain ⟨hform, hscheme, hhost, hport, hpath⟩ := htuple
    exact ⟨OriginForm.text_inj hform, hscheme, hhost, hport, hpath⟩
  · rintro ⟨hform, hscheme, hhost, hport, hpath⟩
    rw [Descriptor.bytes, Descriptor.bytes, Descriptor.tuple, Descriptor.tuple, hform, hscheme,
      hhost, hport, hpath]

section Law

variable {doubles : Doubles} {sha256Hex : Bytes → Units}

/-- An available identity comes from a value that is read. -/
theorem projectOrigin_available {runId : Units} {input : AcquiredValue}
    (h : (projectOrigin doubles sha256Hex runId input).status = .available) :
    ∃ value d, input.value = some value ∧ readRemote (dropNewline value) = .ok d ∧
      describe (dropNewline value) = .ok d ∧
      projectOrigin doubles sha256Hex runId input =
        { status := .available, algorithm := some ORIGIN_ALGORITHM
          digest := some (sha256Hex (d.bytes doubles)), reason := "origin_descriptor_observed" } := by
  have hdescribe : ∀ text d, describe text = .ok d → readRemote text = .ok d := by
    intro text d hd
    rw [describe] at hd
    split at hd
    · cases hd
    · cases hread : readRemote text with
      | error reason => rw [hread] at hd; cases hd
      | ok d' =>
          rw [hread] at hd
          dsimp only at hd
          split at hd
          · cases hd
            rfl
          · cases hd
  rw [projectOrigin] at h ⊢
  split at h
  · cases h
  · split at h
    · cases h
    · rename_i hcapture hreached
      cases hvalue : input.value with
      | none => rw [hvalue] at h; cases h
      | some value =>
          rw [hvalue] at h
          dsimp only at h
          cases hd : describe (dropNewline value) with
          | error reason => rw [hd] at h; cases h
          | ok d =>
              refine ⟨value, d, rfl, hdescribe _ _ hd, hd, ?_⟩
              rw [if_neg hcapture, if_neg hreached]
              dsimp only
              rw [hd]

/-- **The digest stands for the origin, and the user is no part of it.** Accepted URLs have remotes
that they spell. Two of them have one digest if and only if form, port and path are the same, and
scheme and host are the same in lower case; and where only the user differs, nothing of the result
does. -/
theorem project_origin_identity (doubles : Doubles) (sha256Hex : Bytes → Units)
    {run run' : Units} {input input' : AcquiredValue}
    (h : (projectOrigin doubles sha256Hex run input).status = .available)
    (h' : (projectOrigin doubles sha256Hex run' input').status = .available)
    (hsha : ∀ b ∈ hashedBytes doubles input, ∀ b' ∈ hashedBytes doubles input',
      sha256Hex b = sha256Hex b' → b = b') :
    (∃ r : Remote, r.ReadFrom input) ∧ (∃ r' : Remote, r'.ReadFrom input') ∧
      ∀ r r' : Remote, r.ReadFrom input → r'.ReadFrom input' →
        ((projectOrigin doubles sha256Hex run input).digest =
            (projectOrigin doubles sha256Hex run' input').digest ↔
          r.form = r'.form ∧ r.scheme.map (List.map lowerUnit) = r'.scheme.map (List.map lowerUnit) ∧
            r.host.map lowerUnit = r'.host.map lowerUnit ∧ r.port = r'.port ∧ r.path = r'.path) ∧
        ({ r with user := none } = { r' with user := none } →
          projectOrigin doubles sha256Hex run input =
            projectOrigin doubles sha256Hex run' input') := by
  obtain ⟨value, d, hvalue, hread, hd, hresult⟩ := projectOrigin_available h
  obtain ⟨value', d', hvalue', hread', hd', hresult'⟩ := projectOrigin_available h'
  obtain ⟨r₀, hr₀, _⟩ := readRemote_spelled hread
  obtain ⟨r₀', hr₀', _⟩ := readRemote_spelled hread'
  refine ⟨⟨r₀, value, hvalue, hr₀⟩, ⟨r₀', value', hvalue', hr₀'⟩, ?_⟩
  rintro r r' ⟨v, hv, hr⟩ ⟨v', hv', hr'⟩
  obtain rfl := Option.some.inj (hvalue.symm.trans hv)
  obtain rfl := Option.some.inj (hvalue'.symm.trans hv')
  obtain rfl := readRemote_of_spells hr hread
  obtain rfl := readRemote_of_spells hr' hread'
  have hbytes : hashedBytes doubles input = some (r.descriptor.bytes doubles) := by
    rw [hashedBytes, hvalue, Option.bind_some, hd]
    rfl
  have hbytes' : hashedBytes doubles input' = some (r'.descriptor.bytes doubles) := by
    rw [hashedBytes, hvalue', Option.bind_some, hd']
    rfl
  rw [hresult, hresult']
  constructor
  · rw [Option.some.injEq]
    constructor
    · intro hsame
      exact (descriptor_bytes_iff doubles _ _).mp (hsha _ hbytes _ hbytes' hsame)
    · intro hsame
      rw [(descriptor_bytes_iff doubles r.descriptor r'.descriptor).mpr hsame]
  · intro huser
    have hsame := congrArg Remote.descriptor huser
    rw [show r.descriptor = r'.descriptor from hsame]

/-- A URL that was acquired in this run. -/
def acquired (url : String) : AcquiredValue where
  runId := unitsOf "00000000-0000-4000-8000-000000000001".toList
  status := .observed
  value := some (unitsOf url.toList)
  complete := true

/-- A descriptor of one repository, by how the host is written. -/
def repoAt (host : String) : Descriptor where
  form := .url
  scheme := some (unitsOf "https".toList)
  host := unitsOf host.toList
  port := none
  path := unitsOf "/org/repo.git".toList

/-- What the hash function gives for that repository. -/
def repoDigest (_ : Bytes) : Units :=
  unitsOf "e1e8b488f56f40e849bbd936c5ae89e3b962087d95dbd729477e6051db8b52ed".toList

theorem project_origin_identity_user :
    (projectOrigin plainDoubles repoDigest (acquired "").runId
        (acquired "https://EXAMPLE.invalid/org/repo.git\n")).status = .available ∧
      ∃ r : Remote, r.ReadFrom (acquired "https://EXAMPLE.invalid/org/repo.git\n") := by
  have h : (projectOrigin plainDoubles repoDigest (acquired "").runId
      (acquired "https://EXAMPLE.invalid/org/repo.git\n")).status = .available := rfl
  have h' : (projectOrigin plainDoubles repoDigest (acquired "").runId
      (acquired "https://user@example.invalid/org/repo.git")).status = .available := rfl
  have hupper : hashedBytes plainDoubles (acquired "https://EXAMPLE.invalid/org/repo.git\n") =
      some ((repoAt "EXAMPLE.invalid").bytes plainDoubles) := rfl
  have hlower : hashedBytes plainDoubles (acquired "https://user@example.invalid/org/repo.git") =
      some ((repoAt "example.invalid").bytes plainDoubles) := rfl
  have hsame : (repoAt "EXAMPLE.invalid").bytes plainDoubles =
      (repoAt "example.invalid").bytes plainDoubles :=
    (descriptor_bytes_iff plainDoubles _ _).mpr ⟨rfl, rfl, by decide, rfl, rfl⟩
  refine ⟨h, (project_origin_identity plainDoubles repoDigest h h' fun b hb b' hb' _ => ?_).1⟩
  exact (Option.some.inj (hupper.symm.trans hb)).symm.trans
    (hsame.trans (Option.some.inj (hlower.symm.trans hb')))

end Law

end Caveat.PrivateEvidence
