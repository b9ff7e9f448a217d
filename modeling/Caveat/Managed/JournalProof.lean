import Caveat.Managed.Journal
import Mathlib.Data.List.Perm.Subperm

/-!
# What the journal's parser accepts

A record that the parser accepts has the fields of one event, in some order, and the event follows
those before it. The parser's state is that of the events: the open intent, the settled steps, and
whether a last record was read.
-/

namespace Caveat.Managed

open Js

variable {doubles : Doubles} {sha : Sha256}

/-! ## Objects by their fields -/

theorem get_eq_some {v : JsObject} {name : Text} {x : Json} :
    v.get name = some x ↔ v.find? (fun p => p.1 = unitsOf name) = some (unitsOf name, x) := by
  unfold JsObject.get
  constructor
  · intro h
    obtain ⟨⟨key, y⟩, hfind, rfl⟩ := Option.map_eq_some_iff.mp h
    have hkey : key = unitsOf name := by simpa using List.find?_some hfind
    rw [hfind, hkey]
  · intro h
    rw [h]
    rfl

theorem string_eq_some {v : JsObject} {name : Text} {s : Units} :
    v.string name = some s ↔ v.get name = some (.string s) := by
  unfold JsObject.string
  constructor
  · intro h
    split at h
    · rename_i hget
      rw [hget, Option.some.inj h]
    · exact absurd h (by simp)
  · intro h
    rw [h]

theorem isNat_iff {v : JsObject} {name : Text} {n : Nat} :
    v.isNat name n = true ↔ v.get name = some (.number (.finite n)) := by
  unfold JsObject.isNat
  constructor
  · intro h
    split at h
    · rename_i hget
      rw [hget, of_decide_eq_true h]
    · exact absurd h (by simp)
  · intro h
    rw [h]
    simp

theorem isNull_iff {v : JsObject} {name : Text} :
    v.isNull name = true ↔ v.get name = some .null := by
  unfold JsObject.isNull
  constructor
  · intro h
    split at h
    · assumption
    · exact absurd h (by simp)
  · intro h
    rw [h]

theorem hasDigest_iff {v : JsObject} {name : Text} :
    v.hasDigest name = true ↔ ∃ s, v.get name = some (.string s) ∧ isDigest s = true := by
  unfold JsObject.hasDigest
  rw [Option.any_eq_true]
  exact exists_congr fun s => by rw [string_eq_some]

/-- In an object that is a reordering of a list of fields, each field is found. -/
theorem get_of_perm {row fields : JsObject} (hperm : row.Perm fields)
    (hnodup : (fields.map Prod.fst).Nodup) {name : Text} {x : Json}
    (hmem : (unitsOf name, x) ∈ fields) : row.get name = some x := by
  have hrow : (row.map Prod.fst).Nodup := (hperm.map Prod.fst).nodup_iff.mpr hnodup
  have hin : (unitsOf name, x) ∈ row := hperm.mem_iff.mpr hmem
  rw [get_eq_some]
  cases hfind : row.find? (fun p => p.1 = unitsOf name) with
  | none => exact absurd (List.find?_eq_none.mp hfind _ hin) (by simp)
  | some p =>
      -- two properties of one name are one
      have hp := List.mem_of_find?_eq_some hfind
      have hkey : p.1 = unitsOf name := by simpa using List.find?_some hfind
      rw [List.inj_on_of_nodup_map hrow hp hin hkey]

/-- An object with given names and given values under them is a reordering of the fields. -/
theorem perm_of_get {row fields : JsObject}
    (hkeys : (row.map Prod.fst).Perm (fields.map Prod.fst)) (hnodup : (fields.map Prod.fst).Nodup)
    (hget : ∀ p ∈ fields, ∃ name, p.1 = unitsOf name ∧ row.get name = some p.2) :
    row.Perm fields := by
  have hsub : fields ⊆ row := by
    intro p hp
    obtain ⟨name, hname, hx⟩ := hget p hp
    have hmem := List.mem_of_find?_eq_some (get_eq_some.mp hx)
    rw [← hname] at hmem
    exact hmem
  have hlen : row.length = fields.length := by
    have := hkeys.length_eq
    rwa [List.length_map, List.length_map] at this
  exact ((List.subperm_of_subset (List.Nodup.of_map _ hnodup) hsub).perm_of_length_le
    (by omega)).symm

/-! ## Events -/

/-- The fields of an event may stand in a record. -/
def JournalEvent.Valid : JournalEvent → Prop
  | .intent step _ stateSha256 => isStep step = true ∧ isDigest stateSha256 = true
  | .result step _ .confirmed stateSha256 =>
      isStep step = true ∧ ∃ s, stateSha256 = some s ∧ isDigest s = true
  | .result step _ .unknown stateSha256 =>
      isStep step = true ∧ ∀ s, stateSha256 = some s → isDigest s = true
  | .complete stateSha256 => isDigest stateSha256 = true

def JournalEvent.isUnknown : JournalEvent → Bool
  | .result _ _ .unknown _ => true
  | _ => false

def JournalEvent.isComplete : JournalEvent → Bool
  | .complete _ => true
  | _ => false

/-- The step whose result an event is. -/
def JournalEvent.settles : JournalEvent → Option Units
  | .result step _ _ _ => some step
  | _ => none

/-- The last event's intent, if it is one. -/
def openIntent (es : List JournalEvent) : Option (Units × GlobalJournalOperation) :=
  match es.getLast? with
  | some (.intent step operation _) => some (step, operation)
  | _ => none

/-- Nothing may follow. -/
def closed (es : List JournalEvent) : Bool :=
  es.getLast?.any (fun e => e.isUnknown || e.isComplete)

/-- **The grammar.** What may follow some events. -/
def Follows (es : List JournalEvent) (e : JournalEvent) : Prop :=
  closed es = false ∧
    match e with
    | .intent step _ _ => openIntent es = none ∧ step ∉ es.filterMap JournalEvent.settles
    | .result step operation _ _ => openIntent es = some (step, operation)
    | .complete _ => openIntent es = none

/-- The kind of row that an event is written as. -/
def JournalEvent.kind : JournalEvent → RowKind
  | .intent .. => .intent
  | .result .. => .result
  | .complete .. => .other

/-- The parser's state after some events. -/
structure Tracks (st : JournalState) (es : List JournalEvent) : Prop where
  pending : ∀ step operation, openIntent es = some (step, operation) → ∃ p, st.pending = some p ∧
    p.string "step".toList = some step ∧ p.string "operation".toList = some (unitsOf operation.text)
  idle : openIntent es = none → st.pending = none
  steps : st.steps = (es.filterMap JournalEvent.settles).map some
  unknown : st.unknown = es.getLast?.any JournalEvent.isUnknown
  complete : st.complete = es.getLast?.any JournalEvent.isComplete

theorem tracks_nil (first : Units) : Tracks { previousSha256 := first } [] where
  pending _ _ h := absurd h (by simp [openIntent])
  idle _ := rfl
  steps := rfl
  unknown := rfl
  complete := rfl

theorem Tracks.closed_iff {st : JournalState} {es : List JournalEvent} (h : Tracks st es) :
    (st.unknown || st.complete) = closed es := by
  rw [h.unknown, h.complete, closed]
  cases es.getLast? with
  | none => rfl
  | some e => rfl

/-- No intent is open exactly where none is pending. -/
theorem Tracks.pending_isNone {st : JournalState} {es : List JournalEvent} (h : Tracks st es) :
    st.pending.isNone = true ↔ openIntent es = none := by
  constructor
  · intro hnone
    cases hopen : openIntent es with
    | none => rfl
    | some o =>
        obtain ⟨p, hp, _⟩ := h.pending o.1 o.2 hopen
        rw [hp] at hnone
        exact absurd hnone (by simp)
  · intro hopen
    rw [h.idle hopen]
    rfl

/-! ## The fields of a record -/

theorem recordOf_keys (n : Nat) (prev : Units) (e : JournalEvent) :
    ((rowKeys e.kind).map unitsOf).Perm ((recordOf n prev e).map Prod.fst) := by
  cases e with
  | intent step operation stateSha256 =>
      have hnames : (rowKeys .intent).Perm ["sequence".toList, "previousSha256".toList,
        "kind".toList, "step".toList, "operation".toList, "stateSha256".toList] := by decide
      exact hnames.map unitsOf
  | result step operation outcome stateSha256 =>
      have hnames : (rowKeys .result).Perm ["sequence".toList, "previousSha256".toList,
        "kind".toList, "step".toList, "operation".toList, "outcome".toList,
        "stateSha256".toList] := by decide
      exact hnames.map unitsOf
  | complete stateSha256 =>
      have hnames : (rowKeys .other).Perm ["sequence".toList, "previousSha256".toList,
        "kind".toList, "stateSha256".toList] := by decide
      exact hnames.map unitsOf

theorem rowKeys_nodup (kind : RowKind) : ((rowKeys kind).map unitsOf).Nodup := by
  cases kind <;> decide

theorem recordOf_nodup (n : Nat) (prev : Units) (e : JournalEvent) :
    ((recordOf n prev e).map Prod.fst).Nodup :=
  (recordOf_keys n prev e).nodup_iff.mp (rowKeys_nodup e.kind)

theorem operation?_text (o : GlobalJournalOperation) : operation? (unitsOf o.text) = some o := by
  cases o <;> decide

theorem operation?_eq_some {s : Units} {o : GlobalJournalOperation} (h : operation? s = some o) :
    s = unitsOf o.text := by
  have hfound := List.find?_some h
  simpa using Eq.symm (of_decide_eq_true hfound)

/-! ## One record -/

/-- The state after a record that was read. -/
structure Extends (sha : Sha256) (st : JournalState) (text : Text) (row : JsObject)
    (st' : JournalState) : Prop where
  records : st'.records = st.records ++ [row]
  previous : st'.previousSha256 = sha.hash (encodeUtf8 (text ++ ['\n']))

/-- A row that has the fields of a record. -/
def IsRecord (row : JsObject) (n : Nat) (prev : Units) (e : JournalEvent) : Prop :=
  row.Perm (recordOf n prev e)

variable {row : JsObject} {n : Nat} {prev : Units} {e : JournalEvent} {st st' : JournalState}
  {es : List JournalEvent} {text : Text}

theorem IsRecord.get (h : IsRecord row n prev e) {name : Text} {x : Json}
    (hmem : (unitsOf name, x) ∈ recordOf n prev e) : row.get name = some x :=
  get_of_perm h (recordOf_nodup n prev e) hmem

theorem IsRecord.field (h : IsRecord row n prev e) {name : Text} {x : Json}
    (hmem : (unitsOf name, x) ∈ e.fields) : row.get name = some x :=
  h.get (List.mem_cons_of_mem _ (List.mem_cons_of_mem _ hmem))

theorem IsRecord.sequence (h : IsRecord row n prev e) : row.isNat "sequence".toList n = true :=
  isNat_iff.mpr (h.get List.mem_cons_self)

theorem IsRecord.previous (h : IsRecord row n prev e) :
    row.string "previousSha256".toList = some prev :=
  string_eq_some.mpr (h.get (List.mem_cons_of_mem _ List.mem_cons_self))

theorem IsRecord.keys (h : IsRecord row n prev e) : row.hasKeys (rowKeys e.kind) = true := by
  rw [JsObject.hasKeys, List.isPerm_iff]
  exact (h.map Prod.fst).trans (recordOf_keys n prev e).symm

theorem IsRecord.kind (h : IsRecord row n prev e) : rowKind row = e.kind := by
  unfold rowKind
  cases e with
  | intent =>
      rw [string_eq_some.mpr (h.field (.head _)), if_pos rfl]
      rfl
  | result =>
      rw [string_eq_some.mpr (h.field (.head _)), if_neg (by decide), if_pos rfl]
      rfl
  | complete =>
      rw [string_eq_some.mpr (h.field (.head _)), if_neg (by decide), if_neg (by decide)]
      rfl

theorem operationValid_of {step : Units} {operation : GlobalJournalOperation}
    (hstep : row.string "step".toList = some step)
    (hoperation : row.string "operation".toList = some (unitsOf operation.text))
    (h : isStep step = true) : operationValid row = true := by
  rw [operationValid, hstep, hoperation, Option.any_some, Option.bind_some, operation?_text, h]
  rfl

theorem getLast?_snoc (es : List JournalEvent) (e : JournalEvent) :
    (es ++ [e]).getLast? = some e := List.getLast?_concat

theorem settles_snoc (es : List JournalEvent) (e : JournalEvent) :
    (es ++ [e]).filterMap JournalEvent.settles =
      es.filterMap JournalEvent.settles ++ e.settles.toList := by
  rw [List.filterMap_append]
  cases h : e.settles <;> simp [h]

section Accepting

variable {step stateSha256 : Units} {operation : GlobalJournalOperation} {outcome : JournalOutcome}
  {state : Option Units}

/-- An intent is taken as pending. -/
theorem checkKind_intent (ht : Tracks st es)
    (h : IsRecord row n prev (.intent step operation stateSha256))
    (hvalid : (JournalEvent.intent step operation stateSha256).Valid)
    (hfollows : Follows es (.intent step operation stateSha256)) :
    checkKind st row = .ok { st with pending := some row } := by
  have hstep : row.string "step".toList = some step :=
    string_eq_some.mpr (h.field (.tail _ (.head _)))
  have hdigest : row.hasDigest "stateSha256".toList = true :=
    hasDigest_iff.mpr ⟨_, h.field (.tail _ (.tail _ (.tail _ (.head _)))), hvalid.2⟩
  have hnew : st.steps.contains (some step) = false := by
    rw [ht.steps]
    simpa using hfollows.2.2
  rw [checkKind, h.kind]
  dsimp only [JournalEvent.kind]
  rw [if_pos]
  rw [ht.pending_isNone.mpr hfollows.2.1, hstep, hnew, hdigest]
  rfl

theorem outcomeValid_of (h : IsRecord row n prev (.result step operation outcome state))
    (hvalid : (JournalEvent.result step operation outcome state).Valid) :
    outcomeValid row = true := by
  have houtcome : row.string "outcome".toList = some outcome.units :=
    string_eq_some.mpr (h.field (.tail _ (.tail _ (.tail _ (.head _)))))
  have hstate : row.get "stateSha256".toList = some (state.elim .null .string) :=
    h.field (.tail _ (.tail _ (.tail _ (.tail _ (.head _)))))
  unfold outcomeValid
  rw [houtcome]
  cases outcome with
  | confirmed =>
      obtain ⟨_, s, rfl, hdigest⟩ := hvalid
      rw [hasDigest_iff.mpr ⟨s, hstate, hdigest⟩]
      simp [JournalOutcome.units]
  | unknown =>
      obtain ⟨_, hdigest⟩ := hvalid
      cases state with
      | none =>
          rw [isNull_iff.mpr hstate]
          simp [JournalOutcome.units]
      | some s =>
          rw [hasDigest_iff.mpr ⟨s, hstate, hdigest s rfl⟩]
          simp [JournalOutcome.units]

/-- A result closes the pending intent. -/
theorem checkKind_result (ht : Tracks st es)
    (h : IsRecord row n prev (.result step operation outcome state))
    (hvalid : (JournalEvent.result step operation outcome state).Valid)
    (hfollows : Follows es (.result step operation outcome state)) :
    checkKind st row = .ok { st with
      unknown := (JournalEvent.result step operation outcome state).isUnknown
      steps := st.steps ++ [some step]
      pending := none } := by
  have hstep : row.string "step".toList = some step :=
    string_eq_some.mpr (h.field (.tail _ (.head _)))
  have hoperation : row.string "operation".toList = some (unitsOf operation.text) :=
    string_eq_some.mpr (h.field (.tail _ (.tail _ (.head _))))
  have houtcome : row.string "outcome".toList = some outcome.units :=
    string_eq_some.mpr (h.field (.tail _ (.tail _ (.tail _ (.head _)))))
  have hof : resultOf st.pending row = true := by
    obtain ⟨p, hp, hpstep, hpoperation⟩ := ht.pending step operation hfollows.2
    rw [resultOf, hp, Option.any_some, hstep, hpstep, hoperation, hpoperation]
    simp
  have hunknown : decide (row.string "outcome".toList = some outcomeUnknown) =
      (JournalEvent.result step operation outcome state).isUnknown := by
    rw [houtcome]
    cases outcome with
    | confirmed =>
        show decide (some outcomeConfirmed = some outcomeUnknown) = false
        decide
    | unknown => exact decide_eq_true rfl
  rw [checkKind, h.kind]
  dsimp only [JournalEvent.kind]
  rw [if_pos (by rw [hof, outcomeValid_of h hvalid]; rfl), hunknown, hstep]

/-- A completion is the last record. -/
theorem checkKind_complete (ht : Tracks st es) (h : IsRecord row n prev (.complete stateSha256))
    (hvalid : isDigest stateSha256 = true) (hfollows : Follows es (.complete stateSha256)) :
    checkKind st row = .ok { st with complete := true } := by
  have hkind : row.string "kind".toList = some (unitsOf "complete".toList) :=
    string_eq_some.mpr (h.field (.head _))
  rw [checkKind, h.kind]
  dsimp only [JournalEvent.kind]
  rw [if_pos]
  rw [hkind, ht.pending_isNone.mpr hfollows.2,
    hasDigest_iff.mpr ⟨_, h.field (.tail _ (.head _)), hvalid⟩]
  simp

/-- The state of the events after one more. -/
theorem Tracks.snoc (ht : Tracks st es) (h : IsRecord row n prev e) (hfollows : Follows es e)
    (hpending : st'.pending = match e with | .intent .. => some row | _ => none)
    (hsteps : st'.steps = st.steps ++ e.settles.toList.map some)
    (hunknown : st'.unknown = e.isUnknown) (hcomplete : st'.complete = e.isComplete) :
    Tracks st' (es ++ [e]) where
  pending step operation hopen := by
    rw [openIntent, getLast?_snoc] at hopen
    cases e with
    | intent =>
        cases hopen
        exact ⟨row, hpending, string_eq_some.mpr (h.field (.tail _ (.head _))),
          string_eq_some.mpr (h.field (.tail _ (.tail _ (.head _))))⟩
    | result => exact absurd hopen (by simp)
    | complete => exact absurd hopen (by simp)
  idle hnone := by
    rw [openIntent, getLast?_snoc] at hnone
    cases e with
    | intent => exact absurd hnone (by simp)
    | result => exact hpending
    | complete => exact hpending
  steps := by rw [hsteps, settles_snoc, List.map_append, ht.steps]
  unknown := by rw [getLast?_snoc, hunknown]; rfl
  complete := by rw [getLast?_snoc, hcomplete]; rfl

end Accepting

/-- Nothing was read that closes the journal. -/
theorem Tracks.not_closed (ht : Tracks st es) (h : Follows es e) :
    st.unknown = false ∧ st.complete = false :=
  Bool.or_eq_false_iff.mp (ht.closed_iff.trans h.1)

variable (sha) in
/-- **A record of an event that follows is accepted**, and the state is that of the events. -/
theorem readRow_of_isRecord (ht : Tracks st es) (hdecode : decodeRecord doubles text = .ok row)
    (h : IsRecord row (st.records.length + 1) st.previousSha256 e) (hvalid : e.Valid)
    (hfollows : Follows es e) :
    ∃ st', readRow doubles sha st text = .ok st' ∧ Extends sha st text row st' ∧
      Tracks st' (es ++ [e]) := by
  obtain ⟨hunknown, hcomplete⟩ := ht.not_closed hfollows
  have hoperation : (rowKind row ≠ .other && !operationValid row) = false := by
    rw [h.kind]
    cases e with
    | intent step operation stateSha256 =>
        rw [operationValid_of (string_eq_some.mpr (h.field (.tail _ (.head _))))
          (string_eq_some.mpr (h.field (.tail _ (.tail _ (.head _))))) hvalid.1]
        rfl
    | result step operation outcome stateSha256 =>
        rw [operationValid_of (string_eq_some.mpr (h.field (.tail _ (.head _))))
          (string_eq_some.mpr (h.field (.tail _ (.tail _ (.head _)))))
          (by cases outcome <;> exact hvalid.1)]
        rfl
    | complete => rfl
  have hread : ∀ next, checkKind st row = .ok next → readRow doubles sha st text = .ok { next with
      records := st.records ++ [row]
      previousSha256 := sha.hash (encodeUtf8 (text ++ ['\n'])) } := by
    intro next hnext
    unfold readRow
    rw [if_neg (by simp [hunknown, hcomplete]), hdecode]
    dsimp only
    rw [h.kind, if_neg (by rw [h.keys]; simp),
      if_neg (by rw [h.sequence, h.previous]; simp), ← h.kind, hoperation, if_neg (by simp), hnext]
  cases e with
  | intent step operation stateSha256 =>
      exact ⟨_, hread _ (checkKind_intent ht h hvalid hfollows), ⟨rfl, rfl⟩,
        ht.snoc h hfollows rfl (List.append_nil _).symm hunknown hcomplete⟩
  | result step operation outcome stateSha256 =>
      exact ⟨_, hread _ (checkKind_result ht h hvalid hfollows), ⟨rfl, rfl⟩,
        ht.snoc h hfollows rfl rfl rfl hcomplete⟩
  | complete stateSha256 =>
      exact ⟨_, hread _ (checkKind_complete ht h hvalid hfollows), ⟨rfl, rfl⟩,
        ht.snoc h hfollows (ht.idle hfollows.2) (List.append_nil _).symm hunknown rfl⟩

/-- A row with the names of a record and its values under them. -/
theorem isRecord_of (hkeys : row.hasKeys (rowKeys e.kind) = true)
    (hsequence : row.isNat "sequence".toList n = true)
    (hprevious : row.string "previousSha256".toList = some prev)
    (hfields : ∀ p ∈ e.fields, ∃ name, p.1 = unitsOf name ∧ row.get name = some p.2) :
    IsRecord row n prev e := by
  rw [JsObject.hasKeys, List.isPerm_iff] at hkeys
  refine perm_of_get (hkeys.trans (recordOf_keys n prev e)) (recordOf_nodup n prev e) ?_
  intro p hp
  rcases List.mem_cons.mp hp with rfl | hp
  · exact ⟨_, rfl, isNat_iff.mp hsequence⟩
  · rcases List.mem_cons.mp hp with rfl | hp
    · exact ⟨_, rfl, string_eq_some.mp hprevious⟩
    · exact hfields p hp

/-- The checks that come before those of a record's kind. -/
structure Checked (st : JournalState) (row : JsObject) : Prop where
  keys : row.hasKeys (rowKeys (rowKind row)) = true
  sequence : row.isNat "sequence".toList (st.records.length + 1) = true
  previous : row.string "previousSha256".toList = some st.previousSha256
  operation : rowKind row ≠ .other → operationValid row = true

theorem rowKind_intent (h : rowKind row = .intent) :
    row.get "kind".toList = some (.string (unitsOf "intent".toList)) := by
  unfold rowKind at h
  split at h
  · rename_i hkind
    exact string_eq_some.mp hkind
  · split at h <;> exact absurd h (by simp)

theorem rowKind_result (h : rowKind row = .result) :
    row.get "kind".toList = some (.string (unitsOf "result".toList)) := by
  unfold rowKind at h
  split at h
  · exact absurd h (by simp)
  · split at h
    · rename_i hkind
      exact string_eq_some.mp hkind
    · exact absurd h (by simp)

/-- A row with a step names the step and an operation. -/
theorem Checked.named (hc : Checked st row) (hkind : rowKind row ≠ .other) :
    ∃ (step : Units) (operation : GlobalJournalOperation),
      row.get "step".toList = some (.string step) ∧ isStep step = true ∧
        row.get "operation".toList = some (.string (unitsOf operation.text)) := by
  have hvalid := hc.operation hkind
  rw [operationValid, Bool.and_eq_true, Option.any_eq_true] at hvalid
  obtain ⟨⟨step, hstep, hvalidstep⟩, hop⟩ := hvalid
  obtain ⟨operation, hfound⟩ := Option.isSome_iff_exists.mp hop
  obtain ⟨s, hs, hoperation⟩ := Option.bind_eq_some_iff.mp hfound
  refine ⟨step, operation, string_eq_some.mp hstep, hvalidstep, ?_⟩
  rw [string_eq_some.mp hs, operation?_eq_some hoperation]

/-- What a row is found to be. -/
def HoldsEvent (st : JournalState) (es : List JournalEvent) (row : JsObject) : Prop :=
  ∃ e : JournalEvent, IsRecord row (st.records.length + 1) st.previousSha256 e ∧ e.Valid ∧
    Follows es e

theorem holdsEvent_intent (ht : Tracks st es) (hclosed : closed es = false) (hc : Checked st row)
    (hkind : rowKind row = .intent) (h : checkKind st row = .ok st') : HoldsEvent st es row := by
  obtain ⟨step, operation, hstep, hvalidstep, hop⟩ := hc.named (by rw [hkind]; simp)
  have hkeys := hc.keys
  rw [hkind] at hkeys
  rw [checkKind, hkind] at h
  dsimp only at h
  split at h
  · rename_i hcheck
    rw [Bool.and_eq_true, Bool.and_eq_true] at hcheck
    obtain ⟨⟨hnone, hnew⟩, hdigest⟩ := hcheck
    obtain ⟨state, hstate, hvalid⟩ := hasDigest_iff.mp hdigest
    refine ⟨.intent step operation state, isRecord_of hkeys hc.sequence hc.previous ?_,
      ⟨hvalidstep, hvalid⟩, hclosed, ht.pending_isNone.mp hnone, ?_⟩
    · intro p hp
      simp only [JournalEvent.fields, List.mem_cons, List.not_mem_nil, or_false] at hp
      rcases hp with rfl | rfl | rfl | rfl
      · exact ⟨_, rfl, rowKind_intent hkind⟩
      · exact ⟨_, rfl, hstep⟩
      · exact ⟨_, rfl, hop⟩
      · exact ⟨_, rfl, hstate⟩
    · rw [string_eq_some.mpr hstep, ht.steps] at hnew
      simpa using hnew
  · exact absurd h (by simp)

/-- The pending intent is the open one. -/
theorem openIntent_of_resultOf (ht : Tracks st es) {step : Units}
    {operation : GlobalJournalOperation} (hstep : row.get "step".toList = some (.string step))
    (hop : row.get "operation".toList = some (.string (unitsOf operation.text)))
    (h : resultOf st.pending row = true) : openIntent es = some (step, operation) := by
  cases hopen : openIntent es with
  | none =>
      rw [ht.idle hopen] at h
      exact absurd h (by simp [resultOf])
  | some o =>
      obtain ⟨p, hp, hpstep, hpop⟩ := ht.pending o.1 o.2 hopen
      rw [resultOf, hp, Option.any_some, Bool.and_eq_true, decide_eq_true_iff, decide_eq_true_iff,
        hpstep, hpop, string_eq_some.mpr hstep, string_eq_some.mpr hop] at h
      obtain ⟨hsame, hsameop⟩ := h
      have hopeq := operation?_text operation
      rw [Option.some.inj hsameop, operation?_text] at hopeq
      rw [Option.some.inj hsame, ← Option.some.inj hopeq]

theorem holdsEvent_result (ht : Tracks st es) (hclosed : closed es = false) (hc : Checked st row)
    (hkind : rowKind row = .result) (h : checkKind st row = .ok st') : HoldsEvent st es row := by
  obtain ⟨step, operation, hstep, hvalidstep, hop⟩ := hc.named (by rw [hkind]; simp)
  have hkeys := hc.keys
  rw [hkind] at hkeys
  have hfields : ∀ (outcome : JournalOutcome) (state : Option Units),
      row.string "outcome".toList = some outcome.units →
      row.get "stateSha256".toList = some (state.elim .null .string) →
      IsRecord row (st.records.length + 1) st.previousSha256
        (.result step operation outcome state) := by
    intro outcome state houtcome hstate
    refine isRecord_of hkeys hc.sequence hc.previous ?_
    intro p hp
    simp only [JournalEvent.fields, List.mem_cons, List.not_mem_nil, or_false] at hp
    rcases hp with rfl | rfl | rfl | rfl | rfl
    · exact ⟨_, rfl, rowKind_result hkind⟩
    · exact ⟨_, rfl, hstep⟩
    · exact ⟨_, rfl, hop⟩
    · exact ⟨_, rfl, string_eq_some.mp houtcome⟩
    · exact ⟨_, rfl, hstate⟩
  rw [checkKind, hkind] at h
  dsimp only at h
  split at h
  · rename_i hcheck
    rw [Bool.and_eq_true] at hcheck
    obtain ⟨hof, hout⟩ := hcheck
    have hopen := openIntent_of_resultOf ht hstep hop hof
    rw [outcomeValid, Bool.or_eq_true, Bool.and_eq_true, Bool.and_eq_true, Bool.or_eq_true,
      decide_eq_true_iff, decide_eq_true_iff] at hout
    rcases hout with ⟨houtcome, hdigest⟩ | ⟨houtcome, hnull | hdigest⟩
    · obtain ⟨s, hstate, hvalid⟩ := hasDigest_iff.mp hdigest
      exact ⟨_, hfields .confirmed (some s) houtcome hstate, ⟨hvalidstep, s, rfl, hvalid⟩,
        hclosed, hopen⟩
    · exact ⟨_, hfields .unknown none houtcome (isNull_iff.mp hnull), ⟨hvalidstep, by simp⟩,
        hclosed, hopen⟩
    · obtain ⟨s, hstate, hvalid⟩ := hasDigest_iff.mp hdigest
      exact ⟨_, hfields .unknown (some s) houtcome hstate, ⟨hvalidstep, by simpa using hvalid⟩,
        hclosed, hopen⟩
  · exact absurd h (by simp)

theorem holdsEvent_complete (ht : Tracks st es) (hclosed : closed es = false) (hc : Checked st row)
    (hkind : rowKind row = .other) (h : checkKind st row = .ok st') : HoldsEvent st es row := by
  have hkeys := hc.keys
  rw [hkind] at hkeys
  rw [checkKind, hkind] at h
  dsimp only at h
  split at h
  · rename_i hcheck
    rw [Bool.and_eq_true, Bool.and_eq_true, decide_eq_true_iff] at hcheck
    obtain ⟨⟨hcomplete, hnone⟩, hdigest⟩ := hcheck
    obtain ⟨state, hstate, hvalid⟩ := hasDigest_iff.mp hdigest
    refine ⟨.complete state, isRecord_of hkeys hc.sequence hc.previous ?_, hvalid, hclosed,
      ht.pending_isNone.mp hnone⟩
    intro p hp
    simp only [JournalEvent.fields, List.mem_cons, List.not_mem_nil, or_false] at hp
    rcases hp with rfl | rfl
    · exact ⟨_, rfl, string_eq_some.mp hcomplete⟩
    · exact ⟨_, rfl, hstate⟩
  · exact absurd h (by simp)

/-- **A record that is accepted is that of an event that follows.** -/
theorem holdsEvent_of_readRow (ht : Tracks st es) (h : readRow doubles sha st text = .ok st') :
    ∃ row, decodeRecord doubles text = .ok row ∧ HoldsEvent st es row := by
  unfold readRow at h
  split at h
  · exact absurd h (by simp)
  rename_i hopen
  have hclosed : closed es = false := by
    rw [← ht.closed_iff]
    simpa using hopen
  split at h
  · exact absurd h (by simp)
  rename_i row hdecode
  split at h
  · exact absurd h (by simp)
  rename_i hkeys
  split at h
  · exact absurd h (by simp)
  rename_i hchain
  rw [Bool.not_eq_true', Bool.not_eq_false, Bool.and_eq_true, decide_eq_true_iff] at hchain
  split at h
  · exact absurd h (by simp)
  rename_i hoperation
  split at h
  · exact absurd h (by simp)
  rename_i next hnext
  have hc : Checked st row :=
    { keys := by simpa using hkeys
      sequence := hchain.1
      previous := hchain.2
      operation := fun hkind => by simpa [hkind] using hoperation }
  refine ⟨row, hdecode, ?_⟩
  cases hkind : rowKind row with
  | intent => exact holdsEvent_intent ht hclosed hc hkind hnext
  | result => exact holdsEvent_result ht hclosed hc hkind hnext
  | other => exact holdsEvent_complete ht hclosed hc hkind hnext

end Caveat.Managed
