import Caveat.Install.ConfigValue
import Caveat.Lib.Loop

/-!
# Registering the server with a client

`updateMcpClient` reads the configuration of a client, changes the registration of the server in it
and writes it anew. What the codecs of the formats do is left open; what is written is decoded
before and after.
-/

namespace Caveat.Install

open Js

inductive McpClient where
  | claude
  | codex
  | grok
  | cursor
deriving DecidableEq

inductive ConfigFormat where
  | json
  | toml
deriving DecidableEq

def McpClient.format : McpClient → ConfigFormat
  | .cursor | .claude => .json
  | .codex | .grok => .toml

/-- The name under which a client keeps its servers. -/
def McpClient.key (client : McpClient) : Units :=
  match client.format with
  | .json => unitsOf "mcpServers".toList
  | .toml => unitsOf "mcp_servers".toList

def caveatKey : Units := unitsOf "caveat".toList

abbrev Members (σ : Type) := List (Units × Data σ)

/-- What decodes and encodes a format. -/
structure Codec (σ : Type) where
  decode : Units → Option { v : Data σ // v.Proper }
  encode : Data σ → Option Units

inductive McpError where
  | unreadable
  | undecodable
  | mcp_config_invalid
  | unencodable
  | mcp_config_roundtrip_failed
  /-- The directory or the backup could not be made. -/
  | unprepared
  | unwritten
  | readbackUndecodable
  | mcp_config_readback_failed
deriving DecidableEq

/-- An exception that is raised before the configuration is written. -/
def McpError.beforeWrite : McpError → Bool
  | .unwritten | .readbackUndecodable | .mcp_config_readback_failed => false
  | _ => true

inductive McpResult where
  | configured
  | unchanged
  | dryRun
deriving DecidableEq

/-- What the file system does in a run. -/
structure Disk where
  readable : Bool
  prepared : Bool
  /-- What is left by a write that fails. -/
  torn : Option (Option Bytes)

structure McpRun where
  result : Except McpError McpResult
  file : Option Bytes

variable {σ : Type}

/-- A value that may be missing, but is no other than an object. -/
def objectOrMissing : Option (Data σ) → Except McpError (Option (Members σ))
  | none => .ok none
  | some (.object members) => .ok (some members)
  | some _ => .error .mcp_config_invalid

/-- The configuration; a missing file is an empty one. -/
def readConfig (codec : Codec σ) (readable : Bool) : Option Bytes → Except McpError (Members σ)
  | none => .ok []
  | some bytes =>
      if !readable then .error .unreadable
      else match codec.decode (unitsOf (decodeUtf8 bytes)) with
        | none => .error .undecodable
        | some ⟨.object members, _⟩ => .ok members
        | some _ => .error .mcp_config_invalid

/-- `{ ...servers }` with the registration in it, or without. -/
def nextServers (servers : Members σ) : Option (Members σ) → Members σ
  | none => servers.filter fun m => m.1 ≠ caveatKey
  | some registration => define servers (caveatKey, .object registration)

section Update

variable [DecidableEq σ] (codec : ConfigFormat → Codec σ) (client : McpClient)
  (update : Option (Members σ) → Option (Members σ))

/-- What the configuration is to become, if it changes. -/
def planUpdate (readable : Bool) (file : Option Bytes) : Except McpError (Option (Members σ)) := do
  let current ← readConfig (codec client.format) readable file
  let servers ← objectOrMissing (own current client.key)
  let previous ← objectOrMissing (own (servers.getD []) caveatKey)
  if sameOption (previous.map .object) ((update previous).map .object) then .ok none
  else .ok (some
    (define current (client.key, .object (nextServers (servers.getD []) (update previous)))))

/-- The text to write, which decodes to what was encoded. -/
def encodeChecked (codec : Codec σ) (next : Data σ) : Except McpError Units :=
  match codec.encode next with
  | none => .error .unencodable
  | some encoded =>
      match codec.decode encoded with
      | none => .error .undecodable
      | some v => if sameValue v.1 next then .ok encoded else .error .mcp_config_roundtrip_failed

def readBack (codec : Codec σ) (next : Data σ) (bytes : Bytes) : Except McpError McpResult :=
  match codec.decode (unitsOf (decodeUtf8 bytes)) with
  | none => .error .readbackUndecodable
  | some v => if sameValue v.1 next then .ok .configured else .error .mcp_config_readback_failed

def updateMcpClient (dryRun : Bool) (disk : Disk) (file : Option Bytes) : McpRun :=
  match planUpdate codec client update disk.readable file with
  | .error e => { result := .error e, file := file }
  | .ok none => { result := .ok .unchanged, file := file }
  | .ok (some next) =>
      if dryRun then { result := .ok .dryRun, file := file }
      else match encodeChecked (codec client.format) (.object next) with
        | .error e => { result := .error e, file := file }
        | .ok encoded =>
            if !disk.prepared then { result := .error .unprepared, file := file }
            else match disk.torn with
              | some left => { result := .error .unwritten, file := left }
              | none =>
                  { result := readBack (codec client.format) (.object next) (toUtf8 encoded)
                    file := some (toUtf8 encoded) }

end Update

/-! ## Installing and uninstalling -/

inductive McpRequest where
  | install (nodePath cliScriptPath : Units)
  | uninstall

/-- `previous?.env ?? {}`. -/
def envOf (previous : Option (Members σ)) : Data σ :=
  match previous.bind fun p => own p (unitsOf "env".toList) with
  | none => .object []
  | some .null => .object []
  | some v => v

/-- `args`. -/
def serverArguments (cliScriptPath : Units) : Data σ :=
  .array [.string (unitsOf "--disable-warning=ExperimentalWarning".toList), .string cliScriptPath,
    .string (unitsOf "mcp-server".toList)]

def registration (client : McpClient) (nodePath cliScriptPath : Units)
    (previous : Option (Members σ)) : Members σ :=
  let kept := previous.getD []
  let typed :=
    if client = .claude then
      define (define kept (unitsOf "type".toList, .string (unitsOf "stdio".toList)))
        (unitsOf "env".toList, envOf previous)
    else kept
  define (define typed (unitsOf "command".toList, .string nodePath))
    (unitsOf "args".toList, serverArguments cliScriptPath)

def McpRequest.update (client : McpClient) :
    McpRequest → Option (Members σ) → Option (Members σ)
  | .install nodePath cliScriptPath, previous =>
      some (registration client nodePath cliScriptPath previous)
  | .uninstall, _ => none

/-! ## What is read -/

theorem objectOrMissing_ok {v : Option (Data σ)} {p : Option (Members σ)} :
    objectOrMissing v = .ok p ↔ v = p.map .object := by
  constructor
  · intro h
    match v with
    | none => cases h; rfl
    | some (.object members) => cases h; rfl
    | some .null => cases h
    | some (.string _) => cases h
    | some (.scalar _) => cases h
    | some (.array _) => cases h
  · rintro rfl
    cases p <;> rfl

theorem readConfig_proper {c : Codec σ} {readable : Bool} {file : Option Bytes}
    {members : Members σ} (h : readConfig c readable file = .ok members) :
    (members.map Prod.fst).Nodup ∧ ProperMembers members := by
  cases file with
  | none =>
      cases h
      exact ⟨List.nodup_nil, trivial⟩
  | some bytes =>
      rw [readConfig] at h
      split at h
      · cases h
      · split at h
        · cases h
        · rename_i members' hproper _
          cases h
          rwa [Data.Proper] at hproper
        · cases h

theorem readConfig_readable {c : Codec σ} {readable : Bool} {file : Option Bytes}
    {members : Members σ} (h : readConfig c readable file = .ok members) :
    readConfig c true file = .ok members := by
  cases file with
  | none => exact h
  | some bytes =>
      cases readable with
      | true => exact h
      | false => cases h

theorem own_registration (client : McpClient) (nodePath cliScriptPath : Units)
    (previous : Option (Members σ)) (key : Units) :
    own (registration client nodePath cliScriptPath previous) key =
      if key = unitsOf "args".toList then some (serverArguments cliScriptPath)
      else if key = unitsOf "command".toList then some (.string nodePath)
      else if client = .claude ∧ key = unitsOf "env".toList then some (envOf previous)
      else if client = .claude ∧ key = unitsOf "type".toList then
        some (.string (unitsOf "stdio".toList))
      else own (previous.getD []) key := by
  rw [registration, own_define, own_define]
  by_cases hclient : client = .claude
  · rw [if_pos hclient, own_define, own_define]
    simp only [hclient, true_and]
  · rw [if_neg hclient]
    simp only [hclient, false_and, if_false]

theorem registration_nodup {client : McpClient} {nodePath cliScriptPath : Units}
    {previous : Option (Members σ)} (h : ((previous.getD []).map Prod.fst).Nodup) :
    ((registration client nodePath cliScriptPath previous).map Prod.fst).Nodup := by
  rw [registration]
  refine define_keys_nodup (define_keys_nodup ?_ _) _
  split
  · exact define_keys_nodup (define_keys_nodup h _) _
  · exact h

theorem envOf_ne_null (previous : Option (Members σ)) : envOf previous ≠ .null := by
  rw [envOf]
  split <;> simp_all

/-- The servers of a configuration. -/
def serversOf (client : McpClient) (members : Members σ) : Members σ :=
  match own members client.key with
  | some (.object servers) => servers
  | _ => []

theorem own_nextServers (servers : Members σ) (r : Option (Members σ)) (key : Units) :
    own (nextServers servers r) key =
      if key = caveatKey then r.map .object else own servers key := by
  cases r with
  | none => rw [nextServers, own_erase, Option.map_none]
  | some registration => rw [nextServers, own_define, Option.map_some]

theorem nextServers_nodup {servers : Members σ} (h : (servers.map Prod.fst).Nodup)
    (r : Option (Members σ)) : ((nextServers servers r).map Prod.fst).Nodup := by
  cases r with
  | none => exact h.sublist (List.filter_sublist.map Prod.fst)
  | some registration => exact define_keys_nodup h _

theorem serversOf_proper {client : McpClient} {current : Members σ} (h : ProperMembers current) :
    ((serversOf client current).map Prod.fst).Nodup ∧ ProperMembers (serversOf client current) := by
  rw [serversOf]
  split
  · rename_i servers hservers
    have := h.of_mem (mem_of_own hservers)
    rwa [Data.Proper] at this
  · exact ⟨List.nodup_nil, trivial⟩

/-! ## What a run leaves -/

section Law

variable [DecidableEq σ] {codec : ConfigFormat → Codec σ} {client : McpClient}

/-- **What is planned**: the servers are an object where they are, and so is the registration. -/
theorem planUpdate_ok {update : Option (Members σ) → Option (Members σ)} {readable : Bool}
    {file : Option Bytes} {plan : Option (Members σ)}
    (h : planUpdate codec client update readable file = .ok plan) :
    ∃ current previous, readConfig (codec client.format) readable file = .ok current ∧
      own (serversOf client current) caveatKey = previous.map .object ∧
      plan = if sameOption (previous.map .object) ((update previous).map .object) then none
        else some (define current
          (client.key, .object (nextServers (serversOf client current) (update previous)))) := by
  obtain ⟨current, hcurrent, h⟩ := Lib.bind_eq_ok.mp h
  obtain ⟨servers, hservers, h⟩ := Lib.bind_eq_ok.mp h
  obtain ⟨previous, hprevious, h⟩ := Lib.bind_eq_ok.mp h
  have hof : serversOf client current = servers.getD [] := by
    rw [serversOf, objectOrMissing_ok.mp hservers]
    cases servers <;> rfl
  refine ⟨current, previous, hcurrent, ?_, ?_⟩
  · rw [hof]
    exact objectOrMissing_ok.mp hprevious
  · rw [hof]
    split at h
    · rename_i hsame
      rw [if_pos hsame]
      exact (Except.ok.inj h).symm
    · rename_i hsame
      rw [if_neg hsame]
      exact (Except.ok.inj h).symm

/-- Where the registration is what it is to be, nothing is planned. -/
theorem planUpdate_unchanged {update : Option (Members σ) → Option (Members σ)} {readable : Bool}
    {file : Option Bytes} {current : Members σ} {servers previous : Option (Members σ)}
    (hcurrent : readConfig (codec client.format) readable file = .ok current)
    (hservers : own current client.key = servers.map .object)
    (hprevious : own (servers.getD []) caveatKey = previous.map .object)
    (hsame : sameOption (previous.map .object) ((update previous).map .object) = true) :
    planUpdate codec client update readable file = .ok none := by
  rw [planUpdate]
  refine Lib.bind_eq_ok.mpr ⟨current, hcurrent, ?_⟩
  refine Lib.bind_eq_ok.mpr ⟨servers, objectOrMissing_ok.mpr hservers, ?_⟩
  refine Lib.bind_eq_ok.mpr ⟨previous, objectOrMissing_ok.mpr hprevious, ?_⟩
  exact if_pos hsame

theorem planUpdate_readable {update : Option (Members σ) → Option (Members σ)} {readable : Bool}
    {file : Option Bytes} {plan : Option (Members σ)}
    (h : planUpdate codec client update readable file = .ok plan) :
    planUpdate codec client update true file = .ok plan := by
  obtain ⟨current, hcurrent, h⟩ := Lib.bind_eq_ok.mp h
  exact Lib.bind_eq_ok.mpr ⟨current, readConfig_readable hcurrent, h⟩

/-- **What a run comes to**: nothing was written, or the write went wrong, or what was read back is
what was planned. -/
theorem updateMcpClient_cases (codec : ConfigFormat → Codec σ) (client : McpClient)
    (update : Option (Members σ) → Option (Members σ)) (dryRun : Bool) (disk : Disk)
    (file : Option Bytes) :
    let run := updateMcpClient codec client update dryRun disk file
    (run.file = file ∧ run.result ≠ .ok .configured ∧
        (run.result = .ok .unchanged →
          planUpdate codec client update disk.readable file = .ok none)) ∨
      (∃ e, run.result = .error e ∧ e.beforeWrite = false) ∨
      ∃ next bytes v, planUpdate codec client update disk.readable file = .ok (some next) ∧
        run.file = some bytes ∧
        (codec client.format).decode (unitsOf (decodeUtf8 bytes)) = some v ∧
        sameValue v.1 (.object next) = true ∧ run.result = .ok .configured := by
  intro run
  rw [show run = updateMcpClient codec client update dryRun disk file from rfl, updateMcpClient]
  split
  · exact .inl ⟨rfl, (fun h => nomatch h), fun h => nomatch h⟩
  · rename_i hplan
    exact .inl ⟨rfl, (fun h => nomatch h), fun _ => hplan⟩
  · rename_i next hplan
    split
    · exact .inl ⟨rfl, (fun h => nomatch h), fun h => nomatch h⟩
    · split
      · exact .inl ⟨rfl, (fun h => nomatch h), fun h => nomatch h⟩
      · rename_i encoded hencoded
        split
        · exact .inl ⟨rfl, (fun h => nomatch h), fun h => nomatch h⟩
        · split
          · exact .inr (.inl ⟨_, rfl, rfl⟩)
          · refine .inr ?_
            dsimp only
            rw [readBack]
            split
            · exact .inl ⟨_, rfl, rfl⟩
            · rename_i v hv
              split
              · rename_i hsame
                exact .inr ⟨next, _, v, hplan, rfl, hv, hsame, rfl⟩
              · exact .inl ⟨_, rfl, rfl⟩

/-! ## The second run -/

/-- **A registration that was read back is registered as it is.** -/
theorem registration_stable {client : McpClient} {nodePath cliScriptPath : Units}
    {previous : Option (Members σ)} {seen : Members σ}
    (hprevious : ((previous.getD []).map Prod.fst).Nodup) (hseen : (Data.object seen).Proper)
    (h : sameValue (.object seen)
      (.object (registration client nodePath cliScriptPath previous)) = true) :
    sameValue (.object seen)
      (.object (registration client nodePath cliScriptPath (some seen))) = true := by
  rw [Data.Proper] at hseen
  have hsame := (sameValue_object_iff hseen.1 (registration_nodup hprevious)).mp h
  have hagain : ((registration client nodePath cliScriptPath (some seen)).map Prod.fst).Nodup :=
    registration_nodup hseen.1
  refine (sameValue_object_iff hseen.1 hagain).mpr fun key => ?_
  have hkey := hsame key
  rw [own_registration] at hkey ⊢
  split
  · rename_i hargs
    rwa [if_pos hargs] at hkey
  · rename_i hargs
    rw [if_neg hargs] at hkey
    split
    · rename_i hcommand
      rwa [if_pos hcommand] at hkey
    · rename_i hcommand
      rw [if_neg hcommand] at hkey
      split
      · -- the environment that is seen is an object already
        rename_i henv
        rw [if_pos henv, henv.2] at hkey
        rw [henv.2, envOf, Option.bind_some]
        cases hown : own seen (unitsOf "env".toList) with
        | none => rw [hown] at hkey; cases hkey
        | some v =>
            rw [hown] at hkey
            have hproper : v.Proper := hseen.2.of_mem (mem_of_own hown)
            cases v with
            | null => exact absurd (sameValue_null hkey) (envOf_ne_null previous)
            | string s => exact sameValue_refl hproper
            | scalar s => exact sameValue_refl hproper
            | array items => exact sameValue_refl hproper
            | object members => exact sameValue_refl hproper
      · rename_i henv
        rw [if_neg henv] at hkey
        split
        · rename_i htype
          rwa [if_pos htype] at hkey
        · exact sameOption_refl fun w hw => hseen.2.of_mem (mem_of_own hw)

/-- Only the registration of the server may differ. -/
def SameExceptCaveat (client : McpClient) (old new : Members σ) : Prop :=
  (∀ key, key ≠ client.key → sameOption (own new key) (own old key) = true) ∧
    ∀ server, server ≠ caveatKey →
      sameOption (own (serversOf client new) server) (own (serversOf client old) server) = true

/-- What is configured, as it is read: the servers are those that were planned. -/
theorem configured_read {update : Option (Members σ) → Option (Members σ)} {readable : Bool}
    {file : Option Bytes} {next : Members σ} {bytes : Bytes} {v : { v : Data σ // v.Proper }}
    (hplan : planUpdate codec client update readable file = .ok (some next))
    (hread : (codec client.format).decode (unitsOf (decodeUtf8 bytes)) = some v)
    (hsame : sameValue v.1 (.object next) = true) :
    ∃ old new servers previous, readConfig (codec client.format) readable file = .ok old ∧
      readConfig (codec client.format) true (some bytes) = .ok new ∧
      own new client.key = some (.object servers) ∧ serversOf client new = servers ∧
      (Data.object servers).Proper ∧
      own (serversOf client old) caveatKey = previous.map .object ∧
      (∀ key, key ≠ client.key → sameOption (own new key) (own old key) = true) ∧
      ∀ server, sameOption (own servers server)
        (own (nextServers (serversOf client old) (update previous)) server) = true := by
  obtain ⟨v, hv⟩ := v
  obtain ⟨new, rfl⟩ := sameValue_object hsame
  obtain ⟨old, previous, hold, hprevious, hnext⟩ := planUpdate_ok hplan
  split at hnext
  · cases hnext
  obtain rfl := Option.some.inj hnext
  have hproper := readConfig_proper hold
  rw [Data.Proper] at hv
  have hall := (sameValue_object_iff hv.1 (define_keys_nodup hproper.1 _)).mp hsame
  have hkey := hall client.key
  rw [own_define, if_pos rfl] at hkey
  cases hown : own new client.key with
  | none => rw [hown] at hkey; cases hkey
  | some w =>
      rw [hown] at hkey
      obtain ⟨servers, rfl⟩ := sameValue_object hkey
      have hservers : (Data.object servers).Proper := hv.2.of_mem (mem_of_own hown)
      have hnodup := hservers
      rw [Data.Proper] at hnodup
      refine ⟨old, new, servers, previous, hold, ?_, hown, by rw [serversOf, hown], hservers,
        hprevious, fun key hne => ?_, ?_⟩
      · rw [readConfig, if_neg (by decide), hread]
      · have := hall key
        rwa [own_define, if_neg hne] at this
      · exact (sameValue_object_iff hnodup.1
          (nextServers_nodup (serversOf_proper hproper.2).1 _)).mp hkey

/-- The registration that is seen is asked for again. -/
theorem request_stable {request : McpRequest} {previous seen : Option (Members σ)}
    (hprevious : ((previous.getD []).map Prod.fst).Nodup)
    (hseen : ∀ s ∈ seen, (Data.object s).Proper)
    (h : sameOption (seen.map .object) ((request.update client previous).map .object) = true) :
    sameOption (seen.map .object) ((request.update client seen).map .object) = true := by
  cases request with
  | uninstall => exact h
  | install nodePath cliScriptPath =>
      cases seen with
      | none => cases h
      | some s => exact registration_stable hprevious (hseen s rfl) h

/-- **Only the registration changes.** Where a client is reported configured, the new configuration
differs from the old one in the registration only, which is the one asked for; running again finds
it unchanged; and unless a write went wrong, nothing else is written to the file. -/
theorem update_mcp_client_frame (codec : ConfigFormat → Codec σ) (client : McpClient)
    (request : McpRequest) (dryRun : Bool) (disk : Disk) (file : Option Bytes) :
    let run := updateMcpClient codec client (request.update client) dryRun disk file
    (run.result = .ok .configured → ∃ old new previous,
        readConfig (codec client.format) disk.readable file = .ok old ∧
        readConfig (codec client.format) true run.file = .ok new ∧
        SameExceptCaveat client old new ∧
        own (serversOf client old) caveatKey = previous.map .object ∧
        sameOption (own (serversOf client new) caveatKey)
          ((request.update client previous).map .object) = true) ∧
      (run.result = .ok .configured ∨ run.result = .ok .unchanged → ∀ dryRun' disk',
        disk'.readable = true →
        updateMcpClient codec client (request.update client) dryRun' disk' run.file =
          { result := .ok .unchanged, file := run.file }) ∧
      (∀ e, run.result = .error e → e.beforeWrite = true → run.file = file) ∧
      (run.result = .ok .unchanged ∨ run.result = .ok .dryRun → run.file = file) := by
  intro run
  have hagain : ∀ dryRun' disk', disk'.readable = true →
      planUpdate codec client (request.update client) true run.file = .ok none →
      updateMcpClient codec client (request.update client) dryRun' disk' run.file =
        { result := .ok .unchanged, file := run.file } := by
    intro dryRun' disk' hreadable hplan
    rw [updateMcpClient, hreadable, hplan]
  rcases updateMcpClient_cases codec client (request.update client) dryRun disk file with
    ⟨hfile, hresult, hunchanged⟩ | ⟨e, hresult, he⟩ |
      ⟨next, bytes, v, hplan, hfile, hread, hsame, hresult⟩
  · refine ⟨fun h => absurd h hresult, ?_, fun _ _ _ => hfile, fun _ => hfile⟩
    rintro (h | h) dryRun' disk' hreadable
    · exact absurd h hresult
    · refine hagain dryRun' disk' hreadable ?_
      rw [hfile]
      exact planUpdate_readable (hunchanged h)
  · have hne : ∀ r, run.result ≠ .ok r := fun r h => nomatch h.symm.trans hresult
    refine ⟨fun h => absurd h (hne _), fun h => ?_, fun e' h' he' => ?_, fun h => ?_⟩
    · rcases h with h | h <;> exact absurd h (hne _)
    · rw [Except.error.inj (h'.symm.trans hresult), he] at he'
      cases he'
    · rcases h with h | h <;> exact absurd h (hne _)
  · obtain ⟨old, new, servers, previous, hold, hnew, hown, hservers, hproper, hprevious, hothers,
      hall⟩ := configured_read hplan hread hsame
    have hcaveat := hall caveatKey
    rw [own_nextServers, if_pos rfl] at hcaveat
    rw [← hfile] at hnew
    refine ⟨fun _ => ?_, fun _ dryRun' disk' hreadable => hagain dryRun' disk' hreadable ?_,
      fun e h => ?_, fun h => ?_⟩
    · refine ⟨old, new, previous, hold, hnew, ⟨hothers, fun server hne => ?_⟩, hprevious, ?_⟩
      · have := hall server
        rwa [own_nextServers, if_neg hne, ← hservers] at this
      · rwa [hservers]
    · -- what is seen is the registration that was planned
      obtain ⟨seen, hseen⟩ : ∃ seen : Option (Members σ),
          own servers caveatKey = seen.map .object := by
        cases hownCaveat : own servers caveatKey with
        | none => exact ⟨none, rfl⟩
        | some w =>
            rw [hownCaveat] at hcaveat
            cases hrequest : request.update client previous with
            | none => rw [hrequest] at hcaveat; cases hcaveat
            | some r =>
                rw [hrequest] at hcaveat
                obtain ⟨members, rfl⟩ := sameValue_object hcaveat
                exact ⟨some members, rfl⟩
      rw [Data.Proper] at hproper
      have hserversSome : own new client.key = (some servers).map .object := hown
      refine planUpdate_unchanged hnew hserversSome hseen ?_
      refine request_stable ?_ (fun s hs => ?_) (hseen ▸ hcaveat)
      · have hold' : ProperMembers (serversOf client old) :=
          (serversOf_proper (readConfig_proper hold).2).2
        cases previous with
        | none => exact List.nodup_nil
        | some p =>
            have := hold'.of_mem (mem_of_own hprevious)
            rw [Data.Proper] at this
            exact this.1
      · have hown : own servers caveatKey = some (.object s) := by
          rw [hseen, hs]
          rfl
        exact hproper.2.of_mem (mem_of_own hown)
    · cases h.symm.trans hresult
    · rcases h with h | h <;> cases h.symm.trans hresult

end Law

end Caveat.Install
