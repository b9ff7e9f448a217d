import Caveat.Sealed.RoundTrip

/-!
# What the nonce of a bundle is derived from

The hash that gives the nonce reads the version, the key id, the URL of the key server and the
payload, each with its length before it. The bytes determine the four parts, but strings are turned
into bytes first: a lone surrogate becomes U+FFFD, and in the header it is written as it is.
-/

namespace Caveat.Sealed

open Js

/-! ## Strings in bytes -/

/-- The characters of a string, with U+FFFD for a lone surrogate. -/
def shownChars (s : Units) : Text :=
  (codePoints s).map fun p => match p with
    | .char c => c
    | .lone _ => Char.ofNat 0xfffd

/-- `String.prototype.toWellFormed`. -/
def toWellFormed (s : Units) : Units := unitsOf (shownChars s)

theorem toUtf8_eq_encodeUtf8 (s : Units) : toUtf8 s = encodeUtf8 (shownChars s) := by
  rw [toUtf8, encodeUtf8, shownChars, List.flatMap_map]
  refine List.flatMap_congr fun p _ => ?_
  cases p with
  | char c => rfl
  | lone u => exact (by decide : [0xef, 0xbf, 0xbd] = String.utf8EncodeChar (Char.ofNat 0xfffd))

/-- The bytes of a string are those of what is well formed in it. -/
theorem toUtf8_eq_iff {s s' : Units} : toUtf8 s = toUtf8 s' ↔ toWellFormed s = toWellFormed s' := by
  rw [toUtf8_eq_encodeUtf8, toUtf8_eq_encodeUtf8, toWellFormed, toWellFormed]
  constructor
  · intro h
    have hchars := congrArg decodeUtf8 h
    rw [decodeUtf8_encodeUtf8, decodeUtf8_encodeUtf8] at hchars
    rw [hchars]
  · intro h
    rw [unitsOf_inj h]

/-! ## The parts that are hashed -/

/-- The bytes that `deriveNonce` hashes. -/
def nonceInput (formatVersion : Nat) (keyId keyserverUrl : Units) (canonicalPayload : Bytes) :
    Except SealedBundleError Bytes := do
  let version ← frame [UInt8.ofNat formatVersion]
  let key ← frame (toUtf8 keyId)
  let url ← frame (toUtf8 keyserverUrl)
  let payload ← frame canonicalPayload
  return version ++ key ++ url ++ payload

variable {c : Crypto}

theorem deriveNonce_eq_ok_iff {nonceKey payload nonce : Bytes} {version : Nat}
    {keyId keyserverUrl : Units} :
    deriveNonce c nonceKey version keyId keyserverUrl payload = .ok nonce ↔
      ∃ input, nonceInput version keyId keyserverUrl payload = .ok input ∧
        nonce = (c.hmac nonceKey input).take nonceBytes := by
  unfold deriveNonce nonceInput
  constructor
  · intro h
    obtain ⟨v, hv, h⟩ := Lib.bind_eq_ok.mp h
    obtain ⟨k, hk, h⟩ := Lib.bind_eq_ok.mp h
    obtain ⟨u, hu, h⟩ := Lib.bind_eq_ok.mp h
    obtain ⟨p, hp, h⟩ := Lib.bind_eq_ok.mp h
    cases h
    exact ⟨v ++ k ++ u ++ p, Lib.bind_eq_ok.mpr ⟨v, hv, Lib.bind_eq_ok.mpr ⟨k, hk,
      Lib.bind_eq_ok.mpr ⟨u, hu, Lib.bind_eq_ok.mpr ⟨p, hp, rfl⟩⟩⟩⟩, rfl⟩
  · rintro ⟨input, h, rfl⟩
    obtain ⟨v, hv, h⟩ := Lib.bind_eq_ok.mp h
    obtain ⟨k, hk, h⟩ := Lib.bind_eq_ok.mp h
    obtain ⟨u, hu, h⟩ := Lib.bind_eq_ok.mp h
    obtain ⟨p, hp, h⟩ := Lib.bind_eq_ok.mp h
    cases h
    exact Lib.bind_eq_ok.mpr ⟨v, hv, Lib.bind_eq_ok.mpr ⟨k, hk,
      Lib.bind_eq_ok.mpr ⟨u, hu, Lib.bind_eq_ok.mpr ⟨p, hp, rfl⟩⟩⟩⟩

/-- A framed part tells where it ends. -/
theorem frame_inj {a b f g r r' : Bytes} (hf : frame a = .ok f) (hg : frame b = .ok g)
    (h : f ++ r = g ++ r') : a = b ∧ r = r' := by
  obtain ⟨la, hla, hf⟩ := Lib.bind_eq_ok.mp hf
  obtain ⟨lb, hlb, hg⟩ := Lib.bind_eq_ok.mp hg
  cases hf
  cases hg
  obtain ⟨_, hlen, hread⟩ := writeUInt32LE_ok hla
  obtain ⟨_, hlen', hread'⟩ := writeUInt32LE_ok hlb
  rw [List.append_assoc, List.append_assoc] at h
  have hsame : a.length = b.length := by
    rw [← hread (a ++ r), h, hread']
  have hrest := (List.append_inj h (hlen.trans hlen'.symm)).2
  exact List.append_inj hrest hsame

/-- The bytes that are hashed determine the parts. -/
theorem nonceInput_inj {version version' : Nat} {keyId keyId' url url' : Units}
    {payload payload' input : Bytes} (h : nonceInput version keyId url payload = .ok input)
    (h' : nonceInput version' keyId' url' payload' = .ok input) :
    UInt8.ofNat version = UInt8.ofNat version' ∧ toUtf8 keyId = toUtf8 keyId' ∧
      toUtf8 url = toUtf8 url' ∧ payload = payload' := by
  obtain ⟨v, hv, h⟩ := Lib.bind_eq_ok.mp h
  obtain ⟨k, hk, h⟩ := Lib.bind_eq_ok.mp h
  obtain ⟨u, hu, h⟩ := Lib.bind_eq_ok.mp h
  obtain ⟨p, hp, h⟩ := Lib.bind_eq_ok.mp h
  obtain ⟨v', hv', h'⟩ := Lib.bind_eq_ok.mp h'
  obtain ⟨k', hk', h'⟩ := Lib.bind_eq_ok.mp h'
  obtain ⟨u', hu', h'⟩ := Lib.bind_eq_ok.mp h'
  obtain ⟨p', hp', h'⟩ := Lib.bind_eq_ok.mp h'
  have hinput : v ++ (k ++ (u ++ (p ++ []))) = v' ++ (k' ++ (u' ++ (p' ++ []))) := by
    have hok := (Except.ok.inj h).trans (Except.ok.inj h').symm
    simpa using hok
  obtain ⟨hversion, hrest⟩ := frame_inj hv hv' hinput
  obtain ⟨hkey, hrest⟩ := frame_inj hk hk' hrest
  obtain ⟨hurl, hrest⟩ := frame_inj hu hu' hrest
  exact ⟨(List.cons.inj hversion).1, hkey, hurl, (frame_inj hp hp' hrest).1⟩

/-! ## Two seals -/

/-- What `sealBundle` is given. -/
structure SealInput where
  files : List BundleFile
  contentKey : Bytes
  keyId : Units
  keyserverUrl : Units

namespace SealInput

/-- The plaintext. -/
def payload (a : SealInput) : Bytes := payloadOf (sortFiles a.files)

/-- The header under a nonce, which is the associated data. -/
def headerBytes (a : SealInput) (nonce : Bytes) : Bytes :=
  serializeHeader (headerFor a.files a.keyId a.keyserverUrl nonce)

/-- The bytes that are hashed for the nonce. -/
def hashed (a : SealInput) : Except SealedBundleError Bytes :=
  nonceInput sealedFormatVersion a.keyId a.keyserverUrl a.payload

def nonce (c : Crypto) (a : SealInput) : Except SealedBundleError Bytes :=
  deriveNonce c (deriveKey c a.contentKey "nonce") sealedFormatVersion a.keyId a.keyserverUrl
    a.payload

/-- The call succeeds. -/
def Accepted (c : Crypto) (a : SealInput) : Prop :=
  ∃ bytes, sealBundle c a.files a.contentKey a.keyId a.keyserverUrl = .ok bytes

/-- Seals that differ are hashed as different bytes. -/
def Separated (a b : SealInput) : Prop :=
  a.keyId ≠ b.keyId ∨ a.keyserverUrl ≠ b.keyserverUrl ∨ a.payload ≠ b.payload →
    ∀ input, a.hashed = .ok input → b.hashed ≠ .ok input

/-- The nonces of two seals are the same only if the bytes that are hashed are. -/
def CollisionFree (c : Crypto) (a b : SealInput) : Prop :=
  ∀ nonce, a.nonce c = .ok nonce → b.nonce c = .ok nonce → a.hashed = b.hashed

/-- A key and a nonce are used for one plaintext and one header. -/
def UsedOnce (c : Crypto) (a b : SealInput) : Prop :=
  a.contentKey = b.contentKey → ∀ nonce, a.nonce c = .ok nonce → b.nonce c = .ok nonce →
    a.payload = b.payload ∧ a.headerBytes nonce = b.headerBytes nonce

end SealInput

variable {a b : SealInput}

/-- The payload has a line for each file. -/
theorem length_of_payloadOf {files files' : List BundleFile}
    (h : payloadOf files = payloadOf files') : files.length = files'.length := by
  have hsplit : ∀ fs : List BundleFile,
      ((decodeUtf8 (payloadOf fs)).splitOn '\n').length = fs.length + 1 := by
    intro fs
    have hflat : fs.flatMap (fun file => rowText file ++ ['\n']) =
        (fs.map rowText).flatMap (fun row => row ++ ['\n']) := by
      rw [List.flatMap_map]
    rw [payloadOf, decodeUtf8_encodeUtf8, hflat, Lib.splitOn_terminated, List.length_append,
      List.length_map, List.length_singleton]
    intro row hrow
    obtain ⟨file, _, rfl⟩ := List.mem_map.mp hrow
    exact newline_not_mem_rowText file
  have hlines := hsplit files
  rw [h, hsplit] at hlines
  omega

theorem SealInput.Accepted.hashed_ok (h : a.Accepted c) : ∃ input, a.hashed = .ok input := by
  obtain ⟨bytes, hbytes⟩ := h
  obtain ⟨s⟩ := sealBundle_ok_iff.mp hbytes
  obtain ⟨input, hinput, _⟩ := deriveNonce_eq_ok_iff.mp s.derived
  exact ⟨input, hinput⟩

/-- The same bytes are hashed where strings are the same as they are shown. -/
theorem hashed_eq_of_shown (hpayload : a.payload = b.payload)
    (hkey : toWellFormed a.keyId = toWellFormed b.keyId)
    (hurl : toWellFormed a.keyserverUrl = toWellFormed b.keyserverUrl) : a.hashed = b.hashed := by
  rw [SealInput.hashed, SealInput.hashed, nonceInput, nonceInput, hpayload,
    toUtf8_eq_iff.mpr hkey, toUtf8_eq_iff.mpr hurl]

/-- **What the hashed bytes tell.** -/
theorem shown_of_hashed_eq {input : Bytes} (ha : a.hashed = .ok input) (hb : b.hashed = .ok input) :
    a.payload = b.payload ∧ toWellFormed a.keyId = toWellFormed b.keyId ∧
      toWellFormed a.keyserverUrl = toWellFormed b.keyserverUrl := by
  obtain ⟨_, hkey, hurl, hpayload⟩ := nonceInput_inj ha hb
  exact ⟨hpayload, toUtf8_eq_iff.mp hkey, toUtf8_eq_iff.mp hurl⟩

/-- Seals with the same parts have the same header. -/
theorem headerBytes_congr (hpayload : a.payload = b.payload) (hkey : a.keyId = b.keyId)
    (hurl : a.keyserverUrl = b.keyserverUrl) (nonce : Bytes) :
    a.headerBytes nonce = b.headerBytes nonce := by
  have hfiles := length_of_payloadOf hpayload
  rw [(sortFiles_perm a.files).length_eq, (sortFiles_perm b.files).length_eq] at hfiles
  rw [SealInput.headerBytes, SealInput.headerBytes, headerFor, headerFor, hkey, hurl, hfiles]

/-- Two seals with the same payload that are shown alike are alike. -/
def ShownApart (a b : SealInput) : Prop :=
  a.payload = b.payload → toWellFormed a.keyId = toWellFormed b.keyId →
    toWellFormed a.keyserverUrl = toWellFormed b.keyserverUrl →
    a.keyId = b.keyId ∧ a.keyserverUrl = b.keyserverUrl

theorem separated_iff (ha : a.Accepted c) : a.Separated b ↔ ShownApart a b := by
  constructor
  · intro h hpayload hkey hurl
    by_contra hne
    obtain ⟨input, hinput⟩ := ha.hashed_ok
    have hdiffer : a.keyId ≠ b.keyId ∨ a.keyserverUrl ≠ b.keyserverUrl ∨ a.payload ≠ b.payload := by
      by_cases hid : a.keyId = b.keyId
      · exact .inr (.inl fun h => hne ⟨hid, h⟩)
      · exact .inl hid
    exact h hdiffer input hinput (by rw [← hashed_eq_of_shown hpayload hkey hurl, hinput])
  · intro h hdiffer input hinput hinput'
    obtain ⟨hpayload, hkey, hurl⟩ := shown_of_hashed_eq hinput hinput'
    obtain ⟨hid, hserver⟩ := h hpayload hkey hurl
    rcases hdiffer with hne | hne | hne
    · exact hne hid
    · exact hne hserver
    · exact hne hpayload

theorem usedOnce_of_shownApart (hfree : a.CollisionFree c b) (h : ShownApart a b) :
    a.UsedOnce c b := by
  intro _ nonce ha hb
  obtain ⟨input, hinput, _⟩ := deriveNonce_eq_ok_iff.mp ha
  obtain ⟨hpayload, hkey, hurl⟩ :=
    shown_of_hashed_eq hinput (show b.hashed = .ok input from hfree nonce ha hb ▸ hinput)
  obtain ⟨hid, hserver⟩ := h hpayload hkey hurl
  exact ⟨hpayload, headerBytes_congr hpayload hid hserver nonce⟩

/--
**When a nonce is not repeated.** Seals that differ are hashed as different bytes, and a key and a
nonce are used once, exactly if the seals do not differ in lone surrogates alone. Where the strings
are well formed, that is so.
-/
theorem nonce_unrepeated_iff (c : Crypto) (a b : SealInput) (ha : a.Accepted c) :
    ((a.Separated b ∧ (a.CollisionFree c b → a.UsedOnce c b)) ↔ ShownApart a b) ∧
      ((∀ s ∈ [a.keyId, a.keyserverUrl, b.keyId, b.keyserverUrl], isWellFormed s = true) →
        ShownApart a b) := by
  refine ⟨⟨fun h => (separated_iff ha).mp h.1, fun h =>
    ⟨(separated_iff ha).mpr h, fun hfree => usedOnce_of_shownApart hfree h⟩⟩, fun hplain => ?_⟩
  intro _ hkey hurl
  exact ⟨toUtf8_inj (hplain _ (by simp)) (hplain _ (by simp)) (toUtf8_eq_iff.mpr hkey),
    toUtf8_inj (hplain _ (by simp)) (hplain _ (by simp)) (toUtf8_eq_iff.mpr hurl)⟩

/-- A bundle without files, under a given key id. -/
def emptySeal (keyId : Units) : SealInput := ⟨[], List.replicate 32 0, keyId, []⟩

theorem emptySeal_accepted {keyId : Units}
    (h : (sealBundle plainCrypto [] (List.replicate 32 0) keyId []).toBool = true) :
    (emptySeal keyId).Accepted plainCrypto := by
  rw [SealInput.Accepted]
  show ∃ bytes, sealBundle plainCrypto [] (List.replicate 32 0) keyId [] = .ok bytes
  cases hseal : sealBundle plainCrypto [] (List.replicate 32 0) keyId [] with
  | error e =>
      rw [hseal] at h
      exact absurd h (by simp [Except.toBool])
  | ok bytes => exact ⟨bytes, rfl⟩

/-- Two key ids in plain letters. -/
theorem nonce_unrepeated_iff_plain :
    ((emptySeal [107]).Separated (emptySeal [108]) ∧
        ((emptySeal [107]).CollisionFree plainCrypto (emptySeal [108]) →
          (emptySeal [107]).UsedOnce plainCrypto (emptySeal [108])) ↔
      ShownApart (emptySeal [107]) (emptySeal [108])) ∧
      ((∀ s ∈ [[107], [], [108], []], isWellFormed s = true) →
        ShownApart (emptySeal [107]) (emptySeal [108])) :=
  nonce_unrepeated_iff plainCrypto (emptySeal [107]) (emptySeal [108])
    (emptySeal_accepted (by decide +kernel))

/-- A lone surrogate and U+FFFD are hashed alike and written differently, so the nonce repeats. -/
theorem lone_surrogate_repeats_nonce :
    (emptySeal [0xd800]).Accepted plainCrypto ∧ (emptySeal [0xfffd]).Accepted plainCrypto ∧
      ¬ (emptySeal [0xd800]).Separated (emptySeal [0xfffd]) ∧
      ¬ (emptySeal [0xd800]).UsedOnce plainCrypto (emptySeal [0xfffd]) := by
  have hshown : toWellFormed [0xd800] = toWellFormed [0xfffd] := by decide +kernel
  have hheader : (emptySeal [0xd800]).headerBytes (List.replicate nonceBytes 0) ≠
      (emptySeal [0xfffd]).headerBytes (List.replicate nonceBytes 0) := by decide +kernel
  have hnonce : ∀ keyId, (emptySeal keyId).Accepted plainCrypto →
      (emptySeal keyId).nonce plainCrypto = .ok (List.replicate nonceBytes 0) := by
    intro keyId h
    obtain ⟨input, hinput⟩ := h.hashed_ok
    exact deriveNonce_eq_ok_iff.mpr ⟨input, hinput, rfl⟩
  have ha : (emptySeal [0xd800]).Accepted plainCrypto := emptySeal_accepted (by decide +kernel)
  have hb : (emptySeal [0xfffd]).Accepted plainCrypto := emptySeal_accepted (by decide +kernel)
  refine ⟨ha, hb, fun h => ?_, fun h => hheader (h rfl _ (hnonce _ ha) (hnonce _ hb)).2⟩
  have hids := ((separated_iff ha).mp h rfl hshown rfl).1
  exact absurd hids (by decide)

end Caveat.Sealed
