import Caveat.Sealed.Bundle
import Caveat.Lib.Loop
import Caveat.Lib.Separated

/-!
# Sealing and unsealing

A bundle unseals to the files it was sealed from, in the order of the bytes of their paths. The
order in which the files were given does not show in the bundle, so sealing what was unsealed
gives the same bytes.
-/

namespace Caveat.Sealed

open Js

variable {c : Crypto} {round : Rat → JsNumber} {files files' : List BundleFile}
  {contentKey : Bytes} {keyId keyserverUrl : Units}

/-! ## The order of bytes -/

theorem bytesLe_total (a b : Bytes) : bytesLe a b = true ∨ bytesLe b a = true := by
  induction a generalizing b with
  | nil => exact .inl (by cases b <;> rfl)
  | cons x a ih =>
      cases b with
      | nil => exact .inr rfl
      | cons y b =>
          simp only [bytesLe, Bool.or_eq_true, Bool.and_eq_true, decide_eq_true_eq]
          rcases Nat.lt_trichotomy x.toNat y.toNat with h | h | h
          · exact .inl (.inl h)
          · have hxy : x = y := UInt8.toNat_inj.mp h
            rcases ih b with hle | hle
            · exact .inl (.inr ⟨hxy, hle⟩)
            · exact .inr (.inr ⟨hxy.symm, hle⟩)
          · exact .inr (.inl h)

theorem bytesLe_trans {a b d : Bytes} (h : bytesLe a b = true) (h' : bytesLe b d = true) :
    bytesLe a d = true := by
  induction a generalizing b d with
  | nil => cases d <;> rfl
  | cons x a ih =>
      cases b with
      | nil => exact absurd h (by simp [bytesLe])
      | cons y b =>
          cases d with
          | nil => exact absurd h' (by simp [bytesLe])
          | cons z d =>
              simp only [bytesLe, Bool.or_eq_true, Bool.and_eq_true, decide_eq_true_eq] at h h' ⊢
              rcases h with h | ⟨rfl, h⟩
              · rcases h' with h' | ⟨rfl, _⟩
                · exact .inl (by omega)
                · exact .inl h
              · rcases h' with h' | ⟨rfl, h'⟩
                · exact .inl h'
                · exact .inr ⟨rfl, ih h h'⟩

theorem bytesLe_antisymm {a b : Bytes} (h : bytesLe a b = true) (h' : bytesLe b a = true) :
    a = b := by
  induction a generalizing b with
  | nil =>
      cases b with
      | nil => rfl
      | cons y b => exact absurd h' (by simp [bytesLe])
  | cons x a ih =>
      cases b with
      | nil => exact absurd h (by simp [bytesLe])
      | cons y b =>
          simp only [bytesLe, Bool.or_eq_true, Bool.and_eq_true, decide_eq_true_eq] at h h'
          rcases h with h | ⟨rfl, h⟩
          · rcases h' with h' | ⟨rfl, _⟩
            · omega
            · omega
          · rcases h' with h' | ⟨_, h'⟩
            · omega
            · rw [ih h h']

/-! ## Accepted files -/

/-- The paths are valid and none is given twice. -/
structure Accepted (files : List BundleFile) : Prop where
  valid : ∀ f ∈ files, validRelPath f.relPath = true
  nodup : (files.map BundleFile.relPath).Nodup

theorem assertNewRelPath_ok_iff {seen : List Units} {relPath : Units} :
    assertNewRelPath seen relPath = .ok () ↔ validRelPath relPath = true ∧ relPath ∉ seen := by
  unfold assertNewRelPath assertRelPath
  by_cases hvalid : validRelPath relPath = true
  · rw [if_pos hvalid]
    by_cases hseen : relPath ∈ seen
    · have hany : seen.any (fun other => other = relPath) = true :=
        List.any_eq_true.mpr ⟨relPath, hseen, by simp⟩
      simp [hvalid, hseen, hany, bind, Except.bind]
    · have hany : seen.any (fun other => other = relPath) = false := by
        rw [List.any_eq_false]
        intro other hother
        rw [decide_eq_true_iff]
        rintro rfl
        exact hseen hother
      simp [hvalid, hseen, hany, bind, Except.bind, pure, Except.pure]
  · simp [hvalid, bind, Except.bind]

theorem assertRelPaths_ok_iff {seen : List Units} : assertRelPaths seen files = .ok () ↔
    Accepted files ∧ ∀ f ∈ files, f.relPath ∉ seen := by
  induction files generalizing seen with
  | nil => exact ⟨fun _ => ⟨⟨by simp, by simp⟩, by simp⟩, fun _ => rfl⟩
  | cons f files ih =>
      rw [assertRelPaths, Lib.bind_eq_ok]
      constructor
      · rintro ⟨_, hnew, hrest⟩
        obtain ⟨hvalid, hseen⟩ := assertNewRelPath_ok_iff.mp hnew
        obtain ⟨⟨hvalid', hnodup⟩, hseen'⟩ := ih.mp hrest
        refine ⟨⟨?_, ?_⟩, ?_⟩
        · intro g hg
          rcases List.mem_cons.mp hg with rfl | hg
          · exact hvalid
          · exact hvalid' g hg
        · rw [List.map_cons, List.nodup_cons]
          refine ⟨fun hmem => ?_, hnodup⟩
          obtain ⟨g, hg, hpath⟩ := List.mem_map.mp hmem
          exact hseen' g hg (by rw [hpath]; simp)
        · intro g hg
          rcases List.mem_cons.mp hg with rfl | hg
          · exact hseen
          · exact fun hmem => hseen' g hg (List.mem_cons_of_mem _ hmem)
      · rintro ⟨⟨hvalid, hnodup⟩, hseen⟩
        rw [List.map_cons, List.nodup_cons] at hnodup
        refine ⟨(), assertNewRelPath_ok_iff.mpr ⟨hvalid f (by simp), hseen f (by simp)⟩, ih.mpr ?_⟩
        refine ⟨⟨fun g hg => hvalid g (List.mem_cons_of_mem f hg), hnodup.2⟩, fun g hg hmem => ?_⟩
        rcases List.mem_cons.mp hmem with hpath | hmem
        · exact hnodup.1 (hpath ▸ List.mem_map_of_mem hg)
        · exact hseen g (List.mem_cons_of_mem f hg) hmem

theorem Accepted.perm (h : Accepted files) (hp : files.Perm files') : Accepted files' where
  valid f hf := h.valid f (hp.mem_iff.mpr hf)
  nodup := (hp.map BundleFile.relPath).nodup_iff.mp h.nodup

theorem wellFormed_of_validRelPath {s : Units} (h : validRelPath s = true) :
    isWellFormed s = true := by
  unfold validRelPath at h
  rw [Bool.not_eq_true', Bool.or_eq_false_iff, Bool.or_eq_false_iff, Bool.or_eq_false_iff,
    Bool.or_eq_false_iff] at h
  simpa using h.1.1.1.2

/-! ## Sorting -/

def PathLe (a b : BundleFile) : Prop := bytesLe (toUtf8 a.relPath) (toUtf8 b.relPath) = true

theorem sortFiles_perm (files : List BundleFile) : (sortFiles files).Perm files :=
  List.perm_insertionSort _ files

instance : Std.Total PathLe := ⟨fun _ _ => bytesLe_total _ _⟩

instance : IsTrans BundleFile PathLe := ⟨fun _ _ _ => bytesLe_trans⟩

instance : DecidableRel PathLe := fun _ _ => inferInstanceAs (Decidable (_ = true))

theorem sortFiles_pairwise (files : List BundleFile) : (sortFiles files).Pairwise PathLe :=
  List.pairwise_insertionSort PathLe files

/-- **The order of accepted files does not matter.** -/
theorem sortFiles_congr (h : Accepted files) (hp : files.Perm files') :
    sortFiles files = sortFiles files' := by
  have hperm : (sortFiles files).Perm (sortFiles files') :=
    (sortFiles_perm files).trans (hp.trans (sortFiles_perm files').symm)
  refine hperm.eq_of_pairwise ?_ (sortFiles_pairwise files) (sortFiles_pairwise files')
  intro a b ha hb hab hba
  have ha := (sortFiles_perm files).mem_iff.mp ha
  have hb := hp.mem_iff.mpr ((sortFiles_perm files').mem_iff.mp hb)
  -- equal bytes are equal paths, and a path is given once
  have hpath : a.relPath = b.relPath :=
    toUtf8_inj (wellFormed_of_validRelPath (h.valid a ha))
      (wellFormed_of_validRelPath (h.valid b hb)) (bytesLe_antisymm hab hba)
  exact List.inj_on_of_nodup_map h.nodup ha hb hpath

theorem sortFiles_sortFiles (h : Accepted files) : sortFiles (sortFiles files) = sortFiles files :=
  (sortFiles_congr h (sortFiles_perm files).symm).symm

/-! ## Numbers and texts in bytes -/

theorem writeUInt32LE_ok {n : Nat} {bytes : Bytes} (h : writeUInt32LE n = .ok bytes) :
    n < 2 ^ 32 ∧ bytes.length = 4 ∧ ∀ rest, readUInt32LE (bytes ++ rest) = n := by
  unfold writeUInt32LE at h
  split at h
  · rename_i hn
    cases h
    refine ⟨hn, rfl, fun rest => ?_⟩
    have hlow : ∀ m, m < 256 → (UInt8.ofNat m).toNat = m := fun m hm => by
      rw [UInt8.toNat_ofNat']
      omega
    show (UInt8.ofNat _).toNat + (UInt8.ofNat _).toNat * 256 + (UInt8.ofNat _).toNat * 65536 +
      (UInt8.ofNat _).toNat * 16777216 = n
    rw [hlow _ (by omega), hlow _ (by omega), hlow _ (by omega), hlow _ (by omega)]
    omega
  · exact absurd h (by simp)

theorem frame_ok {bytes framed : Bytes} (h : frame bytes = .ok framed) :
    bytes.length < 2 ^ 32 := by
  obtain ⟨len, hlen, _⟩ := Lib.bind_eq_ok.mp h
  exact (writeUInt32LE_ok hlen).1

/-- ASCII characters are their own code units. -/
theorem map_unitsOf {t : Text} (h : ∀ ch ∈ t, ch.toNat < 128) :
    (unitsOf t).map (fun u => Char.ofNat u.toNat) = t := by
  induction t with
  | nil => rfl
  | cons ch t ih =>
      have hch := h ch (by simp)
      have hrest := ih fun ch' hch' => h ch' (List.mem_cons_of_mem ch hch')
      rw [unitsOf, List.flatMap_cons, charUnits, if_pos (by omega), List.map_append]
      have hunit : (UInt16.ofNat ch.toNat).toNat = ch.toNat := by
        rw [UInt16.toNat_ofNat']
        omega
      rw [List.map_cons, List.map_nil, hunit, Char.ofNat_toNat]
      exact congrArg (ch :: ·) hrest

theorem fromBase64_base64Units (bytes : Bytes) : fromBase64 (base64Units bytes) = bytes := by
  rw [fromBase64, base64Units, map_unitsOf (Lib.Base64.encode_isAscii bytes),
    Lib.Base64.decode_encode]

theorem isNonceText_base64Units {nonce : Bytes} (h : nonce.length = nonceBytes) :
    isNonceText (base64Units nonce) = true := by
  rw [isNonceText, fromBase64_base64Units, h]
  simp

/-! ## Headers and rows -/

/-- Small natural numbers are doubles. -/
def ExactNaturals (round : Rat → JsNumber) : Prop := ∀ n : Nat, n < 2 ^ 53 → round n = .finite n

def stringMember (round : Rat → JsNumber) (key : String) (s : Units) : Member round :=
  { key := unitsOf key.toList, text := quote s, value := .string s, reads := reads_quote s }

def numberMember (round : Rat → JsNumber) (key : String) (n : Nat) : Member round :=
  { key := unitsOf key.toList, text := ofNat n, value := .number (round n), reads := reads_ofNat n }

def headerMembers (round : Rat → JsNumber) (header : SealedHeader) : List (Member round) :=
  [numberMember round "formatVersion" header.formatVersion, stringMember round "alg" header.alg,
    stringMember round "keyId" header.keyId, stringMember round "keyserverUrl" header.keyserverUrl,
    stringMember round "nonce" header.nonce, numberMember round "entryCount" header.entryCount]

theorem quote_keys : quote (unitsOf "formatVersion".toList) = "\"formatVersion\"".toList ∧
    quote (unitsOf "alg".toList) = "\"alg\"".toList ∧
    quote (unitsOf "keyId".toList) = "\"keyId\"".toList ∧
    quote (unitsOf "keyserverUrl".toList) = "\"keyserverUrl\"".toList ∧
    quote (unitsOf "nonce".toList) = "\"nonce\"".toList ∧
    quote (unitsOf "entryCount".toList) = "\"entryCount\"".toList := by decide +kernel

theorem serializeHeader_eq (round : Rat → JsNumber) (header : SealedHeader) :
    serializeHeader header =
      encodeUtf8 (objectText ((headerMembers round header).map Member.written)) := by
  unfold serializeHeader
  congr 1
  obtain ⟨h₁, h₂, h₃, h₄, h₅, h₆⟩ := quote_keys
  simp only [objectText, headerMembers, numberMember, stringMember, Member.written, memberText,
    List.map_cons, List.map_nil, h₁, h₂, h₃, h₄, h₅, h₆]
  simp [List.intercalate, List.intersperse]

theorem headerFields_of_members {v : Json} {version count : JsNumber}
    {alg keyId keyserverUrl nonce : Units}
    (hversion : v.member? "formatVersion".toList = some (.number version))
    (halg : v.member? "alg".toList = some (.string alg))
    (hkeyId : v.member? "keyId".toList = some (.string keyId))
    (hurl : v.member? "keyserverUrl".toList = some (.string keyserverUrl))
    (hnonce : v.member? "nonce".toList = some (.string nonce))
    (hcount : v.member? "entryCount".toList = some (.number count)) :
    headerFields v = (natural? count).bind (fun entryCount =>
      if isOne version = true ∧ alg = sealedAlg then
        some { formatVersion := sealedFormatVersion, alg, keyId, keyserverUrl, nonce, entryCount }
      else none) := by
  unfold headerFields
  rw [hversion, halg, hkeyId, hurl, hnonce, hcount]
  cases hn : natural? count with
  | none => simp [hn]
  | some entryCount => simp [hn]

/-- **A written header is read back.** -/
theorem parseHeaderBytes_serializeHeader (hround : ExactNaturals round) {header : SealedHeader}
    (hversion : header.formatVersion = sealedFormatVersion) (halg : header.alg = sealedAlg)
    (hnonce : isNonceText header.nonce = true) (hcount : header.entryCount < 2 ^ 53) :
    parseHeaderBytes round (serializeHeader header) = .ok header := by
  have hfields : headerFields (.object ((headerMembers round header).map Member.read)) =
      some header := by
    have hone : round sealedFormatVersion = .finite 1 := by
      rw [hround _ (by decide)]
      rfl
    have hnat : natural? (round header.entryCount) = some header.entryCount := by
      rw [hround _ hcount]
      simp [natural?]
    have hone' : isOne (round header.formatVersion) = true := by
      rw [hversion, hone]
      simp [isOne]
    rw [headerFields_of_members rfl rfl rfl rfl rfl rfl, hnat, Option.bind_some, if_pos ⟨hone', halg⟩, ← hversion]
  rw [parseHeaderBytes, serializeHeader_eq round, decodeUtf8_encodeUtf8, parseJson_objectText]
  simp only [isJsonObject, Bool.not_true, Bool.false_eq_true, if_false, hfields, hnonce, if_true]

def rowMembers (round : Rat → JsNumber) (file : BundleFile) : List (Member round) :=
  [stringMember round "relPath" file.relPath,
    stringMember round "content" (base64Units file.content)]

theorem rowText_eq (round : Rat → JsNumber) (file : BundleFile) :
    rowText file = objectText ((rowMembers round file).map Member.written) := by
  have h₁ : quote (unitsOf "relPath".toList) = "\"relPath\"".toList := by decide +kernel
  have h₂ : quote (unitsOf "content".toList) = "\"content\"".toList := by decide +kernel
  show "\x7b\"relPath\":".toList ++ quote file.relPath ++ ",\"content\":".toList ++
    quote (base64Units file.content) ++ "\x7d".toList = _
  simp only [objectText, rowMembers, stringMember, Member.written, memberText, List.map_cons,
    List.map_nil, h₁, h₂]
  simp [List.intercalate, List.intersperse]

/-- **A written row is read back.** -/
theorem parseRow_rowText (round : Rat → JsNumber) (file : BundleFile) :
    parseRow round (rowText file) = .ok file := by
  rw [parseRow, rowText_eq round, parseJson_objectText]
  show Except.ok (BundleFile.mk file.relPath (fromBase64 (base64Units file.content))) = _
  rw [fromBase64_base64Units]

theorem newline_not_mem_rowText (file : BundleFile) : '\n' ∉ rowText file := by
  intro hmem
  unfold rowText at hmem
  rcases List.mem_append.mp hmem with hmem | hclose
  · rcases List.mem_append.mp hmem with hmem | hcontent
    · rcases List.mem_append.mp hmem with hmem | hname
      · rcases List.mem_append.mp hmem with hopen | hpath
        · simp at hopen
        · exact newline_not_mem_quote _ hpath
      · simp at hname
    · exact newline_not_mem_quote _ hcontent
  · simp at hclose

/-! ## Payloads -/

theorem parseRows_map (seen : List Units) (h : assertRelPaths seen files = .ok ()) :
    parseRows round seen (files.map rowText) = .ok files := by
  induction files generalizing seen with
  | nil => rfl
  | cons f files ih =>
      obtain ⟨_, hnew, hrest⟩ := Lib.bind_eq_ok.mp h
      rw [List.map_cons, parseRows, parseRow_rowText]
      show (assertNewRelPath seen f.relPath >>= fun _ => _) = _
      rw [show assertNewRelPath seen f.relPath = .ok () from hnew]
      show (parseRows round (f.relPath :: seen) (files.map rowText) >>= fun files => _) = _
      rw [ih _ hrest]
      rfl

/-- A file has at least one byte in the payload. -/
theorem length_le_payloadOf (files : List BundleFile) : files.length ≤ (payloadOf files).length := by
  have htext : files.length ≤ (files.flatMap (fun file => rowText file ++ ['\n'])).length := by
    induction files with
    | nil => exact Nat.le_refl _
    | cons f files ih =>
        rw [List.flatMap_cons, List.length_append, List.length_append, List.length_cons]
        simp only [List.length_cons, List.length_nil]
        omega
  exact htext.trans (length_le_encodeUtf8 _)

theorem payloadOf_getLast (hne : files ≠ []) : (payloadOf files).getLast? = some 0x0a := by
  obtain ⟨init, last, rfl⟩ := (List.eq_nil_or_concat' files).resolve_left hne
  have hnewline : encodeUtf8 ['\n'] = [0x0a] := by decide
  rw [payloadOf, List.flatMap_append, List.flatMap_cons, List.flatMap_nil, List.append_nil,
    encodeUtf8, List.flatMap_append, List.flatMap_append]
  rw [show List.flatMap String.utf8EncodeChar ['\n'] = [0x0a] from hnewline]
  simp

/-- **A written payload is read back.** -/
theorem parsePayload_payloadOf (h : assertRelPaths [] files = .ok ()) :
    parsePayload round (payloadOf files) files.length = .ok files := by
  by_cases hne : files = []
  · rw [hne]
    rfl
  · have hlast := payloadOf_getLast hne
    have hnil : payloadOf files ≠ [] := by
      intro hnil
      rw [hnil] at hlast
      exact absurd hlast (by simp)
    have hrows : ((decodeUtf8 (payloadOf files)).splitOn '\n').dropLast = files.map rowText := by
      have hflat : files.flatMap (fun file => rowText file ++ ['\n']) =
          (files.map rowText).flatMap (fun row => row ++ ['\n']) := by
        rw [List.flatMap_map]
      rw [payloadOf, decodeUtf8_encodeUtf8, hflat, Lib.splitOn_terminated, List.dropLast_concat]
      intro row hrow
      obtain ⟨file, _, rfl⟩ := List.mem_map.mp hrow
      exact newline_not_mem_rowText file
    rw [parsePayload, if_neg hnil, if_neg (by simp [hlast])]
    dsimp only
    rw [hrows, List.length_map, if_neg (by simp)]
    exact parseRows_map [] h

/-! ## Bundles -/

/-- The parts of a bundle, put together. -/
def assemble (headerLen headerBytes ciphertext tag : Bytes) : Bytes :=
  sealedMagicBytes ++ [UInt8.ofNat sealedFormatVersion] ++ headerLen ++ headerBytes ++
    ciphertext ++ tag

variable (c files contentKey keyId keyserverUrl) in
/-- What a successful call of `sealBundle` has found and made. -/
structure Sealing (bytes : Bytes) where
  nonce : Bytes
  headerLen : Bytes
  key : contentKey.length = contentKeyBytes
  paths : assertRelPaths [] files = .ok ()
  derived : deriveNonce c (deriveKey c contentKey "nonce") sealedFormatVersion keyId keyserverUrl
    (payloadOf (sortFiles files)) = .ok nonce
  written : writeUInt32LE (serializeHeader (headerFor files keyId keyserverUrl nonce)).length =
    .ok headerLen
  assembled : bytes = assemble headerLen (serializeHeader (headerFor files keyId keyserverUrl nonce))
    (c.encrypt (deriveKey c contentKey "enc") nonce
      (serializeHeader (headerFor files keyId keyserverUrl nonce)) (payloadOf (sortFiles files))).1
    (c.encrypt (deriveKey c contentKey "enc") nonce
      (serializeHeader (headerFor files keyId keyserverUrl nonce)) (payloadOf (sortFiles files))).2

theorem assertContentKey_ok_iff : assertContentKey contentKey = .ok () ↔
    contentKey.length = contentKeyBytes := by
  unfold assertContentKey errorWith
  split
  · simp [*]
  · simp [*]

theorem buildCanonicalPayload_ok_iff {payload : Bytes} :
    buildCanonicalPayload files = .ok payload ↔
      assertRelPaths [] files = .ok () ∧ payload = payloadOf (sortFiles files) := by
  unfold buildCanonicalPayload canonicalizeFiles
  cases hpaths : assertRelPaths [] files with
  | error e => simp [bind, Except.bind]
  | ok _ => simp [bind, Except.bind, pure, Except.pure, eq_comm]

/-- **What `sealBundle` does.** -/
theorem sealBundle_ok_iff {bytes : Bytes} :
    sealBundle c files contentKey keyId keyserverUrl = .ok bytes ↔
      Nonempty (Sealing c files contentKey keyId keyserverUrl bytes) := by
  unfold sealBundle
  constructor
  · intro h
    obtain ⟨_, hkey, h⟩ := Lib.bind_eq_ok.mp h
    obtain ⟨payload, hpayload, h⟩ := Lib.bind_eq_ok.mp h
    obtain ⟨hpaths, rfl⟩ := buildCanonicalPayload_ok_iff.mp hpayload
    obtain ⟨nonce, hnonce, h⟩ := Lib.bind_eq_ok.mp h
    obtain ⟨headerLen, hlen, h⟩ := Lib.bind_eq_ok.mp h
    cases h
    exact ⟨⟨nonce, headerLen, assertContentKey_ok_iff.mp hkey, hpaths, hnonce, hlen, rfl⟩⟩
  · rintro ⟨nonce, headerLen, hkey, hpaths, hnonce, hlen, rfl⟩
    refine Lib.bind_eq_ok.mpr ⟨(), assertContentKey_ok_iff.mpr hkey, ?_⟩
    refine Lib.bind_eq_ok.mpr ⟨_, buildCanonicalPayload_ok_iff.mpr ⟨hpaths, rfl⟩, ?_⟩
    refine Lib.bind_eq_ok.mpr ⟨nonce, hnonce, ?_⟩
    exact Lib.bind_eq_ok.mpr ⟨headerLen, hlen, rfl⟩

/-- The header comes back from where it was put. -/
theorem readSealedHeader_assemble {header : SealedHeader} {headerLen ciphertext tag : Bytes}
    (hparse : parseHeaderBytes round (serializeHeader header) = .ok header)
    (hlen : writeUInt32LE (serializeHeader header).length = .ok headerLen)
    (htag : tag.length = gcmTagBytes) :
    readSealedHeader round (assemble headerLen (serializeHeader header) ciphertext tag) =
      .ok { header, headerBytes := serializeHeader header
            payloadOffset := headerPrefixBytes + (serializeHeader header).length } := by
  obtain ⟨_, hfour, hread⟩ := writeUInt32LE_ok hlen
  have hmagic : sealedMagicBytes = [0x43, 0x56, 0x4c, 0x54] := by decide
  have hpos : (serializeHeader header).length ≠ 0 := by
    have hle := length_le_encodeUtf8 (objectText ((headerMembers round header).map Member.written))
    rw [serializeHeader_eq round]
    simp only [objectText, List.length_append, List.length_cons] at hle ⊢
    omega
  obtain ⟨a, b, d, e, rfl⟩ : ∃ a b d e, headerLen = [a, b, d, e] := by
    obtain ⟨a, ta, rfl⟩ := List.exists_of_length_succ _ hfour
    obtain ⟨b, tb, rfl⟩ := List.exists_of_length_succ ta (Nat.succ.inj hfour)
    obtain ⟨d, td, rfl⟩ := List.exists_of_length_succ tb (Nat.succ.inj (Nat.succ.inj hfour))
    obtain ⟨e, te, rfl⟩ := List.exists_of_length_succ td
      (Nat.succ.inj (Nat.succ.inj (Nat.succ.inj hfour)))
    obtain rfl : te = [] := List.length_eq_zero_iff.mp (by simpa using hfour)
    exact ⟨a, b, d, e, rfl⟩
  have hbundle : assemble [a, b, d, e] (serializeHeader header) ciphertext tag =
      0x43 :: 0x56 :: 0x4c :: 0x54 :: 1 :: a :: b :: d :: e ::
        (serializeHeader header ++ (ciphertext ++ tag)) := by
    rw [assemble, hmagic]
    simp [sealedFormatVersion]
  have hlength : (assemble [a, b, d, e] (serializeHeader header) ciphertext tag).length =
      headerPrefixBytes + (serializeHeader header).length + (ciphertext.length + gcmTagBytes) := by
    rw [hbundle]
    simp only [List.length_cons, List.length_append, htag, headerPrefixBytes]
    omega
  have hheaderLen : readUInt32LE ((assemble [a, b, d, e] (serializeHeader header) ciphertext
      tag).drop 5) = (serializeHeader header).length := by
    rw [hbundle]
    exact hread _
  have hbytes : ((assemble [a, b, d, e] (serializeHeader header) ciphertext tag).drop
      headerPrefixBytes).take (serializeHeader header).length = serializeHeader header := by
    rw [hbundle]
    show (serializeHeader header ++ (ciphertext ++ tag)).take _ = _
    rw [List.take_left]
  unfold readSealedHeader
  rw [if_neg (by rw [hlength]; omega), if_neg (by rw [hbundle, hmagic]; simp)]
  dsimp only
  have hversion : ((assemble [a, b, d, e] (serializeHeader header) ciphertext tag).getD 4 0).toNat =
      sealedFormatVersion := by
    rw [hbundle]
    rfl
  rw [hversion, if_neg (by omega), if_neg (by simp), hheaderLen,
    if_neg (by rw [hlength]; omega), hbytes, hparse]

/-- The ciphertext and the tag come back from where they were put. -/
theorem assemble_tail {headerLen tag : Bytes} (headerBytes ciphertext : Bytes)
    (hfour : headerLen.length = 4) (htag : tag.length = gcmTagBytes) :
    ((assemble headerLen headerBytes ciphertext tag).take
        ((assemble headerLen headerBytes ciphertext tag).length - gcmTagBytes)).drop
          (headerPrefixBytes + headerBytes.length) = ciphertext ∧
      (assemble headerLen headerBytes ciphertext tag).drop
        ((assemble headerLen headerBytes ciphertext tag).length - gcmTagBytes) = tag := by
  have hfront : (sealedMagicBytes ++ [UInt8.ofNat sealedFormatVersion] ++ headerLen ++
      headerBytes).length = headerPrefixBytes + headerBytes.length := by
    have hmagic : sealedMagicBytes.length = 4 := by decide
    simp only [List.length_append, hmagic, hfour, List.length_cons, List.length_nil,
      headerPrefixBytes]
  have hlength : (assemble headerLen headerBytes ciphertext tag).length - gcmTagBytes =
      (sealedMagicBytes ++ [UInt8.ofNat sealedFormatVersion] ++ headerLen ++ headerBytes ++
        ciphertext).length := by
    rw [assemble, List.length_append, htag, Nat.add_sub_cancel]
  constructor
  · rw [hlength, assemble, List.take_left, ← hfront, List.drop_left]
  · rw [hlength, assemble, List.drop_left]

theorem deriveNonce_length (hc : c.Lawful) {nonceKey payload nonce : Bytes} {version : Nat}
    (h : deriveNonce c nonceKey version keyId keyserverUrl payload = .ok nonce) :
    nonce.length = nonceBytes ∧ payload.length < 2 ^ 32 := by
  obtain ⟨_, _, h⟩ := Lib.bind_eq_ok.mp h
  obtain ⟨_, _, h⟩ := Lib.bind_eq_ok.mp h
  obtain ⟨_, _, h⟩ := Lib.bind_eq_ok.mp h
  obtain ⟨_, hpayload, h⟩ := Lib.bind_eq_ok.mp h
  cases h
  refine ⟨?_, frame_ok hpayload⟩
  rw [List.length_take, hc.hmac_length]
  rfl

/-- **Unsealing a sealed bundle** gives the header and the sorted files. -/
theorem unsealBundle_sealBundle (hc : c.Lawful) (hround : ExactNaturals round) {bytes : Bytes}
    (s : Sealing c files contentKey keyId keyserverUrl bytes) :
    unsealBundle c round bytes contentKey =
      .ok { header := headerFor files keyId keyserverUrl s.nonce, files := sortFiles files } := by
  obtain ⟨nonce, headerLen, hkey, hpaths, hnonce, hlen, rfl⟩ := s
  obtain ⟨hnonceLen, hpayloadLen⟩ := deriveNonce_length hc hnonce
  have hperm := sortFiles_perm files
  have hcount : files.length < 2 ^ 53 := by
    have hle := length_le_payloadOf (sortFiles files)
    rw [hperm.length_eq] at hle
    omega
  have hparse : parseHeaderBytes round
      (serializeHeader (headerFor files keyId keyserverUrl nonce)) =
        .ok (headerFor files keyId keyserverUrl nonce) :=
    parseHeaderBytes_serializeHeader hround rfl rfl (isNonceText_base64Units hnonceLen) hcount
  have htag := hc.tag_length (deriveKey c contentKey "enc") nonce
    (serializeHeader (headerFor files keyId keyserverUrl nonce)) (payloadOf (sortFiles files))
  obtain ⟨hciphertext, htagEnd⟩ := assemble_tail
    (serializeHeader (headerFor files keyId keyserverUrl nonce))
    (c.encrypt (deriveKey c contentKey "enc") nonce
      (serializeHeader (headerFor files keyId keyserverUrl nonce)) (payloadOf (sortFiles files))).1
    (writeUInt32LE_ok hlen).2.1 htag
  have hback : fromBase64 (headerFor files keyId keyserverUrl nonce).nonce = nonce :=
    fromBase64_base64Units nonce
  have hfiles : parsePayload round (payloadOf (sortFiles files)) files.length =
      .ok (sortFiles files) := by
    rw [← hperm.length_eq]
    refine parsePayload_payloadOf (assertRelPaths_ok_iff.mpr ⟨?_, by simp⟩)
    exact (assertRelPaths_ok_iff.mp hpaths).1.perm hperm.symm
  unfold unsealBundle
  refine Lib.bind_eq_ok.mpr ⟨(), assertContentKey_ok_iff.mpr hkey, ?_⟩
  refine Lib.bind_eq_ok.mpr ⟨_, readSealedHeader_assemble hparse hlen htag, ?_⟩
  dsimp only
  rw [hback, hciphertext, htagEnd, hc.decrypt_encrypt]
  refine Lib.bind_eq_ok.mpr ⟨nonce, hnonce, ?_⟩
  rw [if_neg (by simp)]
  exact Lib.bind_eq_ok.mpr ⟨sortFiles files, hfiles, rfl⟩

/-- **A bundle does not depend on the order of the files.** -/
theorem sealBundle_perm {bytes : Bytes}
    (h : sealBundle c files contentKey keyId keyserverUrl = .ok bytes) (hp : files.Perm files') :
    sealBundle c files' contentKey keyId keyserverUrl = .ok bytes := by
  obtain ⟨nonce, headerLen, hkey, hpaths, hnonce, hlen, rfl⟩ := sealBundle_ok_iff.mp h
  have haccepted := (assertRelPaths_ok_iff.mp hpaths).1
  have hsort := sortFiles_congr haccepted hp
  have hheader : headerFor files' keyId keyserverUrl nonce =
      headerFor files keyId keyserverUrl nonce := by
    rw [headerFor, headerFor, hp.length_eq]
  refine sealBundle_ok_iff.mpr ⟨⟨nonce, headerLen, hkey, ?_, ?_, ?_, ?_⟩⟩
  · exact assertRelPaths_ok_iff.mpr ⟨haccepted.perm hp, by simp⟩
  · rw [← hsort]
    exact hnonce
  · rw [hheader]
    exact hlen
  · rw [hheader, hsort]

/--
**The round trip.** What was sealed unseals to the same files, sorted by the UTF-8 bytes of their
paths, under the header it was sealed with. Sealing the unsealed files gives the bytes again, and
so does sealing the files in any other order.
-/
theorem seal_roundTrip (c : Crypto) (hc : c.Lawful) (round : Rat → JsNumber)
    (hround : ExactNaturals round) (files : List BundleFile) (contentKey : Bytes)
    (keyId keyserverUrl : Units) (bytes : Bytes)
    (h : sealBundle c files contentKey keyId keyserverUrl = .ok bytes) :
    ∃ nonce sorted,
      deriveNonce c (deriveKey c contentKey "nonce") sealedFormatVersion keyId keyserverUrl
        (payloadOf sorted) = .ok nonce ∧
      unsealBundle c round bytes contentKey =
        .ok { header := headerFor files keyId keyserverUrl nonce, files := sorted } ∧
      sorted.Perm files ∧ sorted.Pairwise PathLe ∧
      sealBundle c sorted contentKey keyId keyserverUrl = .ok bytes ∧
      ∀ files', files.Perm files' →
        sealBundle c files' contentKey keyId keyserverUrl = .ok bytes := by
  obtain ⟨s⟩ := sealBundle_ok_iff.mp h
  have hperm := sortFiles_perm files
  exact ⟨s.nonce, sortFiles files, s.derived, unsealBundle_sealBundle hc hround s, hperm,
    sortFiles_pairwise files, sealBundle_perm h hperm.symm, fun files' hp => sealBundle_perm h hp⟩

/-- Functions with the documented lengths that hide nothing. -/
def plainCrypto : Crypto where
  hkdf key _ _ := key
  hmac _ _ := List.replicate 32 0
  encrypt _ _ _ plain := (plain, List.replicate 16 0)
  decrypt _ _ _ ciphertext _ := some ciphertext

theorem plainCrypto_lawful : plainCrypto.Lawful where
  hmac_length _ _ := List.length_replicate
  tag_length _ _ _ _ := List.length_replicate
  decrypt_encrypt _ _ _ _ := rfl

/-- A file with one byte that is no character, and an empty file. -/
def someFiles : List BundleFile :=
  [{ relPath := unitsOf "é/b.md".toList, content := [0xff] },
    { relPath := unitsOf "a.md".toList, content := [] }]

/-- Two files are sealed and unsealed in the other order. -/
theorem seal_roundTrip_twoFiles : ∃ bytes unsealed,
    sealBundle plainCrypto someFiles (List.replicate 32 0) [107] [] = .ok bytes ∧
      unsealBundle plainCrypto .finite bytes (List.replicate 32 0) = .ok unsealed ∧
      unsealed.header.keyId = [107] ∧ unsealed.files.Perm someFiles := by
  have hok : (match sealBundle plainCrypto someFiles (List.replicate 32 0) [107] [] with
      | .ok _ => true | .error _ => false) = true := by decide +kernel
  cases hseal : sealBundle plainCrypto someFiles (List.replicate 32 0) [107] [] with
  | error e =>
      rw [hseal] at hok
      exact absurd hok (by simp)
  | ok bytes =>
      obtain ⟨nonce, sorted, _, hunseal, hperm, _⟩ := seal_roundTrip plainCrypto plainCrypto_lawful
        .finite (fun _ _ => rfl) someFiles (List.replicate 32 0) [107] [] bytes hseal
      exact ⟨bytes, _, rfl, hunseal, rfl, hperm⟩

end Caveat.Sealed
