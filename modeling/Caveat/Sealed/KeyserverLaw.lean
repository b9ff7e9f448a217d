import Caveat.Sealed.Keyserver

/-!
# Where client and key server agree

An id is a segment of the path. It comes back from the path as it is unless it is a dot, which stands for
no segment; a key under it can be fetched if it is also not longer than the server takes.
-/

namespace Caveat.Sealed.Keyserver

open Js Lib

variable {doubles : Doubles}

/-! ## Ids -/

/-- What the client takes for an id. -/
structure Bare (bareId : Units) : Prop where
  ne_nil : bareId ≠ []
  no_slash : unitOf '/' ∉ bareId
  no_backslash : unitOf '\\' ∉ bareId
  no_dots : ¬ str ".." <:+: bareId

theorem bare_of_parse {keyId bareId : Units} (h : parseKeyserverKeyId keyId = .ok bareId) :
    Bare bareId := by
  simp only [parseKeyserverKeyId] at h
  split at h
  · exact absurd h (by simp)
  · rename_i hstart
    split at h
    · exact absurd h (by simp)
    · rename_i hchars
      obtain rfl := Except.ok.inj h
      simp only [Bool.or_eq_true, Bool.not_eq_true', decide_eq_true_eq, not_or,
        Bool.not_eq_false] at hstart
      simp only [Bool.or_eq_true, List.contains_eq_mem, decide_eq_true_eq, not_or] at hchars
      obtain ⟨rest, hrest⟩ := List.isPrefixOf_iff_prefix.mp hstart.1
      refine ⟨fun hnil => hstart.2 ?_, hchars.1.1, hchars.1.2, hchars.2⟩
      rw [← hrest] at hnil ⊢
      rw [List.drop_left] at hnil
      rw [hnil, List.append_nil]

/-- An id that the client takes is one that the server takes, unless it is too long. -/
theorem Bare.isValidId {id : Units} (h : Bare id) : isValidId id = decide (id.length ≤ 128) := by
  have hne : id.length ≠ 0 := fun hlen => h.ne_nil (List.length_eq_zero_iff.mp hlen)
  rw [Bool.eq_iff_iff]
  simp [Keyserver.isValidId, hne, h.no_slash, h.no_backslash, h.no_dots, maxIdLength]
  exact decide_eq_true_iff

/-! ## Paths -/

theorem requestPath_unitsOf (t : Text) :
    requestPath (unitsOf t) = some ("/v1/keys/".toList ++ t.flatMap encodeComponentChar) := by
  rw [requestPath, encodeURIComponent_unitsOf]
  rfl

/-- A segment behind the two fixed ones. -/
theorem parsePath_key {segment : Text} (h : ∀ c ∈ segment, isPathPlain c = true) :
    parsePath ("/v1/keys/".toList ++ segment) =
      endSegment ["v1".toList, "keys".toList] segment false := by
  have hfirst : ∀ c ∈ "v1".toList, isPathPlain c = true := List.all_eq_true.mp rfl
  have hsecond : ∀ c ∈ "keys".toList, isPathPlain c = true := List.all_eq_true.mp rfl
  have hslash : ∀ (path : List Text) (buffer rest : Text),
      pathState path buffer ('/' :: rest) = pathState (endSegment path buffer true) [] rest := by
    intro path buffer rest
    rw [pathState, if_pos (.inl rfl)]
  show parsePath ('/' :: ("v1".toList ++ '/' :: ("keys".toList ++ '/' :: segment))) = _
  rw [parsePath, if_pos (.inl rfl), pathState_plain hfirst, hslash, pathState_plain hsecond, hslash]
  have hall := pathState_plain h ["v1".toList, "keys".toList] [] []
  rw [List.append_nil, List.nil_append, pathState] at hall
  exact hall

theorem urlPathname_key {segment : Text} (h : ∀ c ∈ segment, isPathPlain c = true)
    (hsingle : isSingleDot segment = false) (hdouble : isDoubleDot segment = false) :
    urlPathname ("/v1/keys/".toList ++ segment) = "/v1/keys/".toList ++ segment := by
  rw [urlPathname, parsePath_key h, endSegment, hsingle, hdouble]
  simp

theorem keyPathId_key {segment : Text} (hne : segment ≠ []) (h : '/' ∉ segment) :
    keyPathId ("/v1/keys/".toList ++ segment) = some segment := by
  have hprefix : "/v1/keys/".toList.isPrefixOf ("/v1/keys/".toList ++ segment) = true :=
    List.isPrefixOf_iff_prefix.mpr (List.prefix_append _ _)
  simp only [keyPathId, List.drop_left, hprefix]
  simp [hne, h]

/-- The id comes back from the path, unless it is a dot. -/
theorem routed_of_ne_dot {bareId : Units} (hbare : Bare bareId) (hdot : bareId ≠ str ".")
    {path : Text} (hpath : requestPath bareId = some path) :
    keyPathId (urlPathname (urlPathname path)) = encodeURIComponent bareId ∧
      (encodeURIComponent bareId).bind decodeURIComponent = some bareId := by
  have hwell : isWellFormed bareId = true := by
    by_contra hbroken
    rw [requestPath, encodeURIComponent, if_neg hbroken] at hpath
    exact absurd hpath (by simp)
  obtain ⟨t, _, rfl⟩ := exists_text_of_isWellFormed hwell
  rw [requestPath_unitsOf] at hpath
  obtain rfl := Option.some.inj hpath
  rw [encodeURIComponent_unitsOf]
  have hback := decodeURIComponent_encode t
  have hplain : ∀ c ∈ t.flatMap encodeComponentChar, isPathPlain c = true :=
    fun c hc => isPathPlain_of_component hc
  generalize t.flatMap encodeComponentChar = segment at hback hplain ⊢
  have hsingle : isSingleDot segment = false := by
    by_contra hseg
    rw [Bool.not_eq_false] at hseg
    rw [decode_of_isSingleDot hseg] at hback
    exact hdot (Option.some.inj hback).symm
  have hdouble : isDoubleDot segment = false := by
    by_contra hseg
    rw [Bool.not_eq_false] at hseg
    rw [decode_of_isDoubleDot hseg] at hback
    refine hbare.no_dots ?_
    rw [← Option.some.inj hback]
    exact List.infix_rfl
  have hne : segment ≠ [] := by
    rintro rfl
    have hempty : unitsOf t = [] := (Option.some.inj hback).symm
    exact hbare.ne_nil hempty
  have hslash : '/' ∉ segment := fun hmem => absurd (hplain '/' hmem) (by decide)
  rw [urlPathname_key hplain hsingle hdouble, urlPathname_key hplain hsingle hdouble,
    keyPathId_key hne hslash]
  exact ⟨rfl, hback⟩

theorem requestPath_dot : requestPath (str ".") = some "/v1/keys/.".toList := by decide +kernel

/-- The path of a dot has no segment for an id. -/
theorem keyPathId_dot : keyPathId (urlPathname (urlPathname "/v1/keys/.".toList)) = none := by
  decide +kernel

/-! ## Keys -/

attribute [local simp] isBase64 Base64.encode

theorem isBase64Char_charOf {n : Nat} (h : n < 64) : isBase64Char (Base64.charOf n) = true := by
  have hall : ∀ i : Fin 64, isBase64Char (Base64.charOf i) = true := by decide
  exact hall ⟨n, h⟩

/-- What is stored has the form that the client asks for. -/
theorem isBase64_encode (bytes : Bytes) : isBase64 (Base64.encode bytes) = true := by
  induction bytes using Base64.encode.induct with
  | case1 => rfl
  | case2 a =>
      have ha := a.toNat_lt
      simp [Base64.encode, isBase64, isBase64Char_charOf (show a.toNat / 4 < 64 by omega),
        isBase64Char_charOf (show a.toNat % 4 * 16 < 64 by omega)]
  | case3 a b =>
      have ha := a.toNat_lt
      have hb := b.toNat_lt
      simp [Base64.encode, isBase64, isBase64Char_charOf (show a.toNat / 4 < 64 by omega),
        isBase64Char_charOf (show a.toNat % 4 * 16 + b.toNat / 16 < 64 by omega),
        isBase64Char_charOf (show b.toNat % 16 * 4 < 64 by omega)]
  | case4 a b c rest ih =>
      have ha := a.toNat_lt
      have hb := b.toNat_lt
      have hc := c.toNat_lt
      have h1 := isBase64Char_charOf (show a.toNat / 4 < 64 by omega)
      have h2 := isBase64Char_charOf (show a.toNat % 4 * 16 + b.toNat / 16 < 64 by omega)
      have h3 := isBase64Char_charOf (show b.toNat % 16 * 4 + c.toNat / 64 < 64 by omega)
      have h4 := isBase64Char_charOf (show c.toNat % 64 < 64 by omega)
      rw [Base64.encode]
      cases hrest : Base64.encode rest with
      | nil => simp [isBase64, h1, h2, h3, h4]
      | cons d ds =>
          rw [isBase64, h1, h2, h3, h4, ← hrest, ih]
          · rfl
          · simp

theorem chars_of_ascii {t : Text} (h : ∀ c ∈ t, c.toNat < 128) :
    (unitsOf t).map (fun u => Char.ofNat u.toNat) = t := by
  induction t with
  | nil => rfl
  | cons c t ih =>
      have hc := h c List.mem_cons_self
      have hval : (UInt16.ofNat c.toNat).toNat = c.toNat := UInt16.toNat_ofNat_of_lt (by
        show c.toNat < 65536
        omega)
      rw [unitsOf, List.flatMap_cons, charUnits, if_pos (by omega), List.map_append,
        List.map_singleton, hval, Char.ofNat_toNat]
      exact congrArg (c :: ·) (ih fun d hd => h d (List.mem_cons_of_mem _ hd))

theorem decodeBase64Key_stored (key : ContentKey) :
    decodeBase64Key (some (.string (unitsOf (Base64.encode key.bytes)))) = .ok key.bytes := by
  simp only [decodeBase64Key]
  rw [chars_of_ascii (Base64.encode_isAscii key.bytes), if_pos (isBase64_encode key.bytes),
    Base64.decode_encode, if_pos key.length_eq]

/-! ## Answers -/

/-- The members of an answer with a key. -/
def keyMembers (id key : Units) : List (Units × Json) :=
  [(str "keyId", .string id), (str "key", .string key)]

theorem responseJson_key (id key : Units) :
    responseJson doubles (jsonResponse doubles (keyMembers id key) 200).body =
      some (.object (keyMembers id key)) := by
  have hown : properties (keyMembers id key) = keyMembers id key := by
    have hnames : (keyMembers id key).map Prod.fst = [str "keyId", str "key"] := rfl
    have hnodup : ((keyMembers id key).map Prod.fst).Nodup := by
      rw [hnames]
      decide
    have hplain : ∀ name ∈ (keyMembers id key).map Prod.fst, unitIndex? name = none := by
      rw [hnames]
      decide
    exact properties_eq_self hnodup fun _ hm => hplain _ (List.mem_map_of_mem hm)
  have hreads : ∀ m ∈ properties (keyMembers id key),
      Reads doubles.round (stringify doubles m.2) m.2 := by
    rw [hown]
    intro m hm
    simp only [keyMembers, List.mem_cons, List.not_mem_nil, or_false] at hm
    rcases hm with rfl | rfl
    · exact reads_string id
    · exact reads_string key
  have hbrace : ∃ rest, encodeUtf8 (stringify doubles (.object (keyMembers id key))) =
      0x7b :: rest := by
    rw [stringify_object]
    exact ⟨_, rfl⟩
  obtain ⟨rest, hrest⟩ := hbrace
  have hmark : (encodeUtf8 (stringify doubles (.object (keyMembers id key)))).take 3 ≠ bom := by
    rw [hrest]
    intro hbom
    exact absurd (List.cons.inj hbom).1 (by decide)
  rw [responseJson, jsonResponse]
  dsimp only
  rw [if_neg hmark, decodeUtf8_encodeUtf8, parseJson_stringify hreads, hown]

theorem readResponse_key (id : Units) (key : ContentKey) :
    readResponse doubles id (jsonResponse doubles
      (keyMembers id (unitsOf (Base64.encode key.bytes))) 200) = .ok key.bytes := by
  rw [readResponse, if_pos (by rfl), responseJson_key]
  have hid : (Json.object (keyMembers id (unitsOf (Base64.encode key.bytes)))).member?
      "keyId".toList = some (.string id) := rfl
  have hkey : (Json.object (keyMembers id (unitsOf (Base64.encode key.bytes)))).member?
      "key".toList = some (.string (unitsOf (Base64.encode key.bytes))) := rfl
  dsimp only
  rw [hid]
  dsimp only
  rw [if_pos rfl, hkey, decodeBase64Key_stored]

theorem handle_routed {keys : Units → Option ContentKey} {path rawId : Text} {id : Units}
    (hpath : keyPathId (urlPathname path) = some rawId)
    (hid : decodeURIComponent rawId = some id) :
    handleKeyRequest doubles keys "GET".toList path = answerId doubles keys id := by
  rw [handleKeyRequest, if_pos rfl, hpath]
  dsimp only
  rw [hid]

theorem handle_unrouted {keys : Units → Option ContentKey} {path : Text}
    (hpath : keyPathId (urlPathname path) = none) :
    (handleKeyRequest doubles keys "GET".toList path).ok = false := by
  rw [handleKeyRequest, if_pos rfl, hpath]
  rfl

/-- The server answers an id with the key that is stored under it, if the id is not too long. -/
theorem answerId_bare {id : Units} (h : Bare id) (keys : Units → Option ContentKey) :
    (∃ key, keys id = some key ∧ id.length ≤ 128 ∧ answerId doubles keys id =
        jsonResponse doubles (keyMembers id (unitsOf (Base64.encode key.bytes))) 200) ∨
      ((keys id = none ∨ 128 < id.length) ∧ (answerId doubles keys id).ok = false) := by
  rw [answerId, h.isValidId]
  by_cases hlen : id.length ≤ 128
  · rw [if_pos (by simpa using hlen), kvGet]
    cases hkey : keys id with
    | none => exact .inr ⟨.inl rfl, rfl⟩
    | some key => exact .inl ⟨key, rfl, hlen, rfl⟩
  · rw [if_neg (by simpa using hlen)]
    exact .inr ⟨.inr (by omega), rfl⟩

theorem readResponse_failed {id : Units} {response : Response} (h : response.ok = false) :
    readResponse doubles id response = .error .keyUnavailable := by
  rw [readResponse, h]
  rfl

theorem agrees_of_ne_dot {bareId : Units} (hbare : Bare bareId) (hdot : bareId ≠ str ".") :
    Agrees doubles bareId := by
  have hrouted : ∀ path, requestPath bareId = some path → ∃ rawId,
      keyPathId (urlPathname (urlPathname path)) = some rawId ∧
        decodeURIComponent rawId = some bareId := by
    intro path hpath
    obtain ⟨hseg, hback⟩ := routed_of_ne_dot hbare hdot hpath
    obtain ⟨rawId, hraw, hid⟩ := Option.bind_eq_some_iff.mp hback
    exact ⟨rawId, hseg.trans hraw, hid⟩
  refine ⟨fun path hpath => ?_, fun path keys hpath hok => ?_⟩
  · obtain ⟨rawId, hraw, hid⟩ := hrouted path hpath
    rw [routedId, hraw]
    exact hid
  · obtain ⟨rawId, hraw, hid⟩ := hrouted path hpath
    rw [handle_routed hraw hid] at hok ⊢
    rcases answerId_bare hbare keys with ⟨key, hkey, _, hanswer⟩ | ⟨_, hfailed⟩
    · exact ⟨key, hkey, by rw [hanswer, readResponse_key]⟩
    · rw [hfailed] at hok
      exact absurd hok (by simp)

theorem not_agrees_dot : ¬ Agrees doubles (str ".") := by
  intro h
  have hrouted := h.routed _ requestPath_dot
  rw [routedId, keyPathId_dot] at hrouted
  exact absurd hrouted (by simp)

theorem fetchKey_of_path {keyId bareId : Units} (hparse : parseKeyserverKeyId keyId = .ok bareId)
    (keys : Units → Option ContentKey) {path : Text} (hpath : requestPath bareId = some path) :
    fetchKey doubles keys keyId = readResponse doubles bareId
      (handleKeyRequest doubles keys "GET".toList (urlPathname path)) := by
  simp only [fetchKey, hparse, bind, Except.bind, hpath]

theorem fetchKey_of_no_path {keyId bareId : Units}
    (hparse : parseKeyserverKeyId keyId = .ok bareId) (keys : Units → Option ContentKey)
    (hpath : requestPath bareId = none) :
    fetchKey doubles keys keyId = .error .keyUnavailable := by
  simp only [fetchKey, hparse, bind, Except.bind, hpath]

/-- Some key. -/
def zeroKey : ContentKey := ⟨List.replicate 32 0, rfl⟩

/-- A key is fetched if its id is well-formed, not too long and no dot. -/
theorem fetches_iff {keyId bareId : Units} (hparse : parseKeyserverKeyId keyId = .ok bareId) :
    Fetches doubles keyId bareId ↔
      isWellFormed bareId = true ∧ bareId.length ≤ 128 ∧ bareId ≠ str "." := by
  have hbare := bare_of_parse hparse
  refine ⟨fun h => ?_, fun ⟨hwell, hlen, hdot⟩ keys key hkey => ?_⟩
  · have hzero := h (fun _ => some zeroKey) zeroKey rfl
    cases hpath : requestPath bareId with
    | none =>
        rw [fetchKey_of_no_path hparse _ hpath] at hzero
        exact absurd hzero (by simp)
    | some path =>
        rw [fetchKey_of_path hparse _ hpath] at hzero
        have hfailed : ∀ response : Response, readResponse doubles bareId response =
            .ok zeroKey.bytes → response.ok ≠ false := by
          intro response hread hfalse
          rw [readResponse_failed hfalse] at hread
          exact absurd hread (by simp)
        have hdot : bareId ≠ str "." := by
          rintro rfl
          obtain rfl := Option.some.inj (requestPath_dot.symm.trans hpath)
          exact hfailed _ hzero (handle_unrouted keyPathId_dot)
        obtain ⟨hseg, hback⟩ := routed_of_ne_dot hbare hdot hpath
        obtain ⟨rawId, hraw, hid⟩ := Option.bind_eq_some_iff.mp hback
        rw [handle_routed (hseg.trans hraw) hid] at hzero
        have hanswer := @answerId_bare doubles _ hbare (fun _ => some zeroKey)
        rcases hanswer with ⟨key, _, hlen, _⟩ | ⟨_, hfalse⟩
        · refine ⟨?_, hlen, hdot⟩
          by_contra hbroken
          rw [requestPath, encodeURIComponent, if_neg hbroken] at hpath
          exact absurd hpath (by simp)
        · exact absurd hfalse (hfailed _ hzero)
  · obtain ⟨t, _, rfl⟩ := exists_text_of_isWellFormed hwell
    have hpath := requestPath_unitsOf t
    obtain ⟨hseg, hback⟩ := routed_of_ne_dot hbare hdot hpath
    obtain ⟨rawId, hraw, hid⟩ := Option.bind_eq_some_iff.mp hback
    rw [fetchKey_of_path hparse keys hpath, handle_routed (hseg.trans hraw) hid]
    rcases answerId_bare hbare keys with ⟨key', hkey', _, hanswer⟩ | ⟨hnone | hlong, _⟩
    · obtain rfl := Option.some.inj (hkey.symm.trans hkey')
      rw [hanswer, readResponse_key]
    · rw [hkey] at hnone
      exact absurd hnone (by simp)
    · omega

/--
**Where client and key server agree.** The request for an id that the client takes is routed with that
id, and every key it is answered is taken, unless the id is a dot. A stored key is fetched if its id is
also well-formed and not longer than the server takes.
-/
theorem keyserver_agrees_iff (doubles : Doubles) {keyId bareId : Units}
    (hparse : parseKeyserverKeyId keyId = .ok bareId) :
    (Agrees doubles bareId ↔ bareId ≠ str ".") ∧
      (Fetches doubles keyId bareId ↔
        isWellFormed bareId = true ∧ bareId.length ≤ 128 ∧ bareId ≠ str ".") := by
  refine ⟨⟨fun h => ?_, fun h => agrees_of_ne_dot (bare_of_parse hparse) h⟩, fetches_iff hparse⟩
  rintro rfl
  exact not_agrees_dot h

theorem parse_plain :
    parseKeyserverKeyId (str "keyserver:alice-key.2026") = .ok (str "alice-key.2026") := by
  decide +kernel

theorem parse_dot : parseKeyserverKeyId (str "keyserver:.") = .ok (str ".") := by decide +kernel

/-- The law for a plain id. -/
theorem keyserver_agrees_iff_plain :
    (Agrees plainDoubles (str "alice-key.2026") ↔ str "alice-key.2026" ≠ str ".") ∧
      (Fetches plainDoubles (str "keyserver:alice-key.2026") (str "alice-key.2026") ↔
        isWellFormed (str "alice-key.2026") = true ∧ (str "alice-key.2026").length ≤ 128 ∧
          str "alice-key.2026" ≠ str ".") :=
  keyserver_agrees_iff plainDoubles parse_plain

/-- The client takes the id `.`, and its request is routed to no key. -/
theorem dot_not_routed :
    parseKeyserverKeyId (str "keyserver:.") = .ok (str ".") ∧
      ¬ Agrees plainDoubles (str ".") :=
  ⟨parse_dot, not_agrees_dot⟩

end Caveat.Sealed.Keyserver
