import Xlpod.AuditTrail
import Xlpod.Metering
import Xlpod.WorkerIds
import Xlpod.Library.JsonContent
import Xlpod.Library.Lines

/-!
# The two logs

The audit log and the cost ledger are files of JSON records, one to a line and
only ever appended to; a write that fails may leave the first bytes of its line.
Whatever a request puts in its method, its path or its headers, and a session in
its provider or model, a record written whole behind a whole line stays on its
own line and reads back as it was written, and a file cut anywhere still tells
its first records.
-/
namespace Xlpod.LogLines
open Xlpod.Auth Xlpod.AiTypes Xlpod.AuditTrail Xlpod.BundlePayload Xlpod.ByteEncodings
open Xlpod.CostLedger Xlpod.GuardedRuns Xlpod.Interleaving Xlpod.JsonText Xlpod.Lines
open Xlpod.Server Xlpod.ServerCalls Xlpod.ServerState Xlpod.WorkerIds

/-! ## Records -/

def newline : UInt8 := 10

/-- `serde_json::to_vec`. -/
def recordLine (v : PyJson) : Bytes := encodeUtf8 (render rustWriter v)

def readRecord (line : Bytes) : Option PyJson := (decodeUtf8 line).bind (parse pythonReader)

/-- The records of a file; what its last line end does not close is not one. -/
def recordsIn (file : Bytes) : List (Option PyJson) := (ended newline file).map readRecord

theorem mem_encodeUtf8_newline {text : List Char} (h : newline ∈ encodeUtf8 text) :
    '\n' ∈ text := by
  obtain ⟨c, hc, hb⟩ := List.mem_flatMap.mp h
  have hlow : c = '\n' := utf8EncodeChar_low (by decide) hb
  exact hlow ▸ hc

theorem newline_not_mem (v : PyJson) : newline ∉ recordLine v := fun h =>
  not_mem_render (by decide) (by decide) (by decide)
    (fun _ hc => (List.mem_flatMap.mp hc).elim fun c hd => rustEscape_no_newline c hd.2) v
    (mem_encodeUtf8_newline h)

theorem readRecord_recordLine {v : PyJson} (h : v.Readable pythonReader Scalar) :
    readRecord (recordLine v) = some v := by
  rw [readRecord, recordLine, decodeUtf8_encodeUtf8, Option.bind_some, parse_render rust_python h]

theorem prefix_recordsIn {part file : Bytes} (h : part <+: file) :
    recordsIn part <+: recordsIn file :=
  (prefix_ended h).map readRecord

/-! ### Files of one kind of record -/

/-- How a record is written and read. -/
structure Format (α : Type) where
  json : α → PyJson
  read : PyJson → Option α
  readable : ∀ x, (json x).Readable pythonReader Scalar
  read_json : ∀ x, read (json x) = some x

section
variable {α : Type} (f : Format α) {writes : List (α × ℕ)}

def Format.line (x : α) : Bytes := recordLine (f.json x)

def Format.entriesIn (file : Bytes) : List (Option α) := (recordsIn file).map (·.bind f.read)

theorem Format.newline_not_mem (x : α) : newline ∉ f.line x := LogLines.newline_not_mem _

theorem Format.read_line : (fun line => (readRecord line).bind f.read) ∘ f.line = some := by
  funext x
  simp only [Function.comp_apply, Format.line, readRecord_recordLine (f.readable x),
    Option.bind_some, f.read_json]

/-- What a file holds after these writes, each with the bytes that it left. -/
structure Recovers (file : Bytes) (writes : List (α × ℕ)) (file' : Bytes) : Prop where
  text : file' = file ++ appended newline f.line writes
  intact : (f.entriesIn file ++
      (intact f.line (complete newline file) writes).map some).Sublist (f.entriesIn file')
  whole : complete newline file = true → (∀ a ∈ writes, whole f.line a = true) →
    f.entriesIn file' = f.entriesIn file ++ writes.map fun a => some a.1
  cut : ∀ part, part <+: file' → f.entriesIn part <+: f.entriesIn file'

theorem recovers (file : Bytes) (writes : List (α × ℕ)) :
    Recovers f file writes (file ++ appended newline f.line writes) := by
  have hnewline : ∀ a ∈ writes, newline ∉ f.line a.1 := fun a _ => f.newline_not_mem a.1
  have hentries (text : Bytes) :
      f.entriesIn text = (ended newline text).map fun line => (readRecord line).bind f.read := by
    rw [Format.entriesIn, recordsIn, List.map_map]
    rfl
  refine ⟨rfl, ?_, fun hfile hwhole => ?_, fun part hpart => (prefix_recordsIn hpart).map _⟩
  · have hlines := (ended_appended hnewline file).map fun line => (readRecord line).bind f.read
    rwa [List.map_append, List.map_map, f.read_line, ← hentries, ← hentries] at hlines
  · rw [hentries, hentries, ended_appended_whole hnewline hwhole hfile, List.map_append,
      List.map_map]
    exact congrArg _ (List.map_congr_left fun a _ => congrFun f.read_line a.1)

end

/-! ### Fields -/

def asNat : PyJson → Option ℕ
  | .int n => some n.toNat
  | _ => none

theorem field_cons (key name : String) (v : PyJson) (fs : List (Text × PyJson)) :
    field (.obj ((lit name, v) :: fs)) key = if key = name then some v else field (.obj fs) key := by
  simp only [field, Json.get?_cons, lit_inj]

theorem field_empty (key : String) : field (.obj []) key = none := rfl

theorem str_readable (s : String) : (str s).Readable pythonReader Scalar :=
  ⟨by simp [str, Json.strings, lit_scalar], trivial, .inr trivial⟩

theorem optionJson_readable (s : Option String) : (optionJson s).Readable pythonReader Scalar := by
  cases s with
  | none => exact ⟨by simp [optionJson, Json.strings], trivial, .inr trivial⟩
  | some s => exact str_readable s

theorem int_readable (n : ℕ) : (Json.int (n : ℤ) : PyJson).Readable pythonReader Scalar :=
  ⟨by simp [Json.strings], trivial, .inr trivial⟩

/-! ## The audit log -/

/-- A missing key and `null` are both `none`. -/
def optionalIn (v : PyJson) (key : String) : Option (Option String) :=
  match field v key with
  | none => some none
  | some value => ServerCalls.optional value

def auditEntryOf (v : PyJson) : Option AuditEntry := do
  let tsMs ← (field v "ts_ms").bind asNat
  let actor ← (field v "actor").bind asStr
  let tokenId ← optionalIn v "token_id"
  let method ← (field v "method").bind asStr
  let path ← (field v "path").bind asStr
  let status ← (field v "status").bind asNat
  let origin ← optionalIn v "origin"
  let host ← optionalIn v "host"
  let latencyMs ← (field v "latency_ms").bind asNat
  return ⟨tsMs, actor, tokenId, method, path, status, origin, host, latencyMs⟩

theorem optional_optionJson (s : Option String) : ServerCalls.optional (optionJson s) = some s := by
  cases s with
  | none => rfl
  | some s => exact congrArg (Option.map some) (asStr_str s)

theorem auditJson_readable (e : AuditEntry) : (auditJson e).Readable pythonReader Scalar := by
  have hrest : (Json.obj [(lit "method", str e.method), (lit "path", str e.path),
      (lit "status", .int e.status), (lit "origin", optionJson e.origin),
      (lit "host", optionJson e.host), (lit "latency_ms", .int e.latencyMs)] : PyJson).Readable
      pythonReader Scalar :=
    .cons_field (lit_scalar _) (by simp) (str_readable _) <|
    .cons_field (lit_scalar _) (by simp) (str_readable _) <|
    .cons_field (lit_scalar _) (by simp) (int_readable _) <|
    .cons_field (lit_scalar _) (by simp) (optionJson_readable _) <|
    .cons_field (lit_scalar _) (by simp) (optionJson_readable _) <|
    .cons_field (lit_scalar _) (by simp) (int_readable _) .empty
  rw [auditJson]
  cases e.tokenId with
  | none =>
      exact .cons_field (lit_scalar _) (by simp) (int_readable _) <|
        .cons_field (lit_scalar _) (by simp) (str_readable _) hrest
  | some id =>
      exact .cons_field (lit_scalar _) (by simp) (int_readable _) <|
        .cons_field (lit_scalar _) (by simp) (str_readable _) <|
        .cons_field (lit_scalar _) (by simp) (str_readable _) hrest

theorem auditEntryOf_auditJson (e : AuditEntry) : auditEntryOf (auditJson e) = some e := by
  obtain ⟨tsMs, actor, tokenId, method, path, status, origin, host, latencyMs⟩ := e
  cases tokenId with
  | none =>
      simp [auditEntryOf, auditJson, optionalIn, field_cons, field_empty, optional_optionJson, asNat]
  | some id =>
      have hid : ServerCalls.optional (str id) = some (some id) := optional_optionJson (some id)
      simp [auditEntryOf, auditJson, optionalIn, field_cons, optional_optionJson, asNat, hid]

def auditLog : Format AuditEntry where
  json := auditJson
  read := auditEntryOf
  readable := auditJson_readable
  read_json := auditEntryOf_auditJson

/-- What a write left of its line. -/
theorem ended_put {α : Type} (f : Format α) (x : α) (kept : ℕ) :
    (encodeUtf8 (render rustWriter (f.json x) ++ ['\n'])).take kept =
      put newline f.line (x, kept) := by
  have hnewline : encodeUtf8 ['\n'] = [newline] := by decide
  have hline : encodeUtf8 (render rustWriter (f.json x) ++ ['\n']) = f.line x ++ [newline] := by
    rw [Format.line, recordLine, ← hnewline]
    exact List.flatMap_append
  rw [hline]
  rfl

/-! ### Runs -/

section
variable {d : Deployment}

/-- An entry and how much of its line went into the file. -/
def auditPut : (op : Op) → op.Reply → Option (AuditEntry × ℕ)
  | .auditWrite entry, torn => some (entry, torn.getD (auditLine entry).length)
  | _, _ => none

/-- The writes of a run to the audit file, oldest first. -/
def auditWrites (events : List (Event (server d))) : List (AuditEntry × ℕ) :=
  (events.filterMap fun e => auditPut e.op e.reply).reverse

/-- What can be read off the audit file. -/
structure AuditLegible (w : World (server d)) : Prop where
  recovers : Recovers auditLog d.auditFile (auditWrites w.events) w.shared.audit
  appended : ∀ e ∈ w.events, e.before.audit <+: w.shared.audit
  described : ∀ a ∈ auditWrites w.events, ∃ e ∈ w.events,
    auditPut e.op e.reply = some a ∧ Describes a.1 e.request

variable {guard : World (server d) → Label (server d) → Prop} {w : World (server d)}

theorem auditLeft_put (op : Op) (r : op.Reply) :
    auditLeft op r = appended newline auditLog.line (auditPut op r).toList := by
  cases op with
  | auditWrite entry =>
      have hput (kept : ℕ) : (auditLine entry).take kept = put newline auditLog.line (entry, kept) :=
        ended_put auditLog entry kept
      simp only [auditPut, Option.toList_some, appended, List.flatMap_singleton, ← hput, auditLeft]
      cases r with
      | none => exact (List.take_length).symm
      | some kept => rfl
  | _ => rfl

theorem audit_text (h : Reachable (machine (server d)) guard w) :
    w.shared.audit = d.auditFile ++ appended newline auditLog.line (auditWrites w.events) := by
  rw [part_appended (f := AppState.audit) exec_audit (fun _ _ => rfl) h, auditWrites,
    ← List.filterMap_reverse, appended_filterMap]
  congr 1
  exact List.flatMap_congr fun e _ => auditLeft_put e.op e.reply

theorem entry_described (h : Reachable (machine (server d)) guard w) {a : AuditEntry × ℕ}
    (hwrite : a ∈ auditWrites w.events) :
    ∃ e ∈ w.events, auditPut e.op e.reply = some a ∧ Describes a.1 e.request := by
  obtain ⟨e, he, hput⟩ := List.mem_filterMap.mp (List.mem_reverse.mp hwrite)
  obtain ⟨after, before, hsplit⟩ := List.append_of_mem he
  have hobey : (conduct e.request).pre ((protocol d).ghost e.request e.task before) e.op :=
    obeyed (serve_conduct d) (sound d guard) h after e before hsplit
  refine ⟨e, he, hput, ?_⟩
  obtain ⟨task, request, op, reply, state⟩ := e
  cases op with
  | auditWrite entry =>
      cases hput
      exact hobey.2
  | _ => cases hput

/-- In every run the audit file consists of what its writes left of their lines,
in order, and only grows; the entry of every whole line that does not follow a
torn one can be read back. -/
theorem audit_legible (d : Deployment) (w : World (server d))
    (h : Reachable (machine (server d)) anyStep w) : AuditLegible w :=
  ⟨audit_text h ▸ recovers auditLog _ _, part_prefix exec_audit (fun _ _ => rfl) h,
    fun _ ha => entry_described h ha⟩

/-- Of three lines the first is torn, and takes the second with it. -/
theorem audit_legible_health : ∃ w, Reachable (machine (server firstLaunch)) anyStep w ∧
    ((auditWrites w.events).length == 3) = true ∧
    ((intact auditLog.line true (auditWrites w.events)).length == 1) = true ∧ AuditLegible w := by
  obtain ⟨w, hw, ht⟩ := replay_reaches (machine (server firstLaunch)) anyStep unchecked
    (.arrive 0 (addinRequest .health "/health" none ()) :: calls 0 7 { torn := some 10 } ++
      .arrive 1 (addinRequest .health "/health" none ()) :: calls 1 7 {} ++
      .arrive 2 (addinRequest .health "/health" none ()) :: calls 2 7 {})
    (fun w => (auditWrites w.events).length == 3 &&
      (intact auditLog.line true (auditWrites w.events)).length == 1)
    (fun _ _ _ => trivial) (by decide +kernel)
  obtain ⟨hthree, hone⟩ := Bool.and_eq_true_iff.mp ht
  exact ⟨w, hw, hthree, hone, audit_legible firstLaunch w hw⟩

end

/-! ## The cost ledger -/

def asU64 : PyJson → Option UInt64
  | .int n => some (UInt64.ofNat n.toNat)
  | _ => none

def costEntryOf (v : PyJson) : Option CostEntry := do
  let tsMs ← (field v "ts_ms").bind asNat
  let provider ← (field v "provider").bind asStr
  let model ← (field v "model").bind asStr
  let inputTokens ← (field v "input_tokens").bind asU64
  let outputTokens ← (field v "output_tokens").bind asU64
  let usdMicros ← (field v "usd_micros").bind asU64
  return ⟨tsMs, provider, model, inputTokens, outputTokens, usdMicros⟩

theorem entryJson_readable (e : CostEntry) : (entryJson e).Readable pythonReader Scalar :=
  .cons_field (lit_scalar _) (by simp) (int_readable _) <|
  .cons_field (lit_scalar _) (by simp) (str_readable _) <|
  .cons_field (lit_scalar _) (by simp) (str_readable _) <|
  .cons_field (lit_scalar _) (by simp) (int_readable _) <|
  .cons_field (lit_scalar _) (by simp) (int_readable _) <|
  .cons_field (lit_scalar _) (by simp) (int_readable _) .empty

theorem costEntryOf_entryJson (e : CostEntry) : costEntryOf (entryJson e) = some e := by
  have hstr (s : String) : asStr (.str (lit s)) = some s := asStr_str s
  simp [costEntryOf, entryJson, field_cons, asNat, asU64, hstr]

def costLog : Format CostEntry where
  json := entryJson
  read := costEntryOf
  readable := entryJson_readable
  read_json := costEntryOf_entryJson

section
variable {d : Deployment}

/-- An entry and how much of its line went into the file. -/
def ledgerPut : (op : Op) → op.Reply → Option (CostEntry × ℕ)
  | .ledgerWrite call, kept => some (call.entry, kept)
  | _, _ => none

/-- The writes of a run to the ledger file, oldest first. -/
def ledgerWrites (events : List (Event (server d))) : List (CostEntry × ℕ) :=
  (events.filterMap fun e => ledgerPut e.op e.reply).reverse

variable {guard : World (server d) → Label (server d) → Prop} {w : World (server d)}

theorem exec_ledgerFile {s s' : AppState} {env : Environment} {op : Op} {r : op.Reply}
    (h : exec s env op = some (r, s')) :
    s'.ledger.file = s.ledger.file ++ appended newline costLog.line (ledgerPut op r).toList := by
  cases op with
  | ledgerWrite call =>
      have hput (kept : ℕ) : (entryLine call.entry).take kept =
          put newline costLog.line (call.entry, kept) := ended_put costLog call.entry kept
      cases h
      simp only [ledgerPut, Option.toList_some, appended, List.flatMap_singleton, ← hput, appendLine]
      rfl
  | issue | openSession | openWindow | keychainWrite | keychainDelete =>
      simp only [exec] at h
      split at h <;> cases h <;> exact (List.append_nil _).symm
  | panicked => cases h
  | _ =>
      cases h
      exact (List.append_nil _).symm

/-- In every run the ledger file consists of what its writes left of their
lines, and the entry of every whole line that does not follow a torn one can be
read back. -/
theorem ledger_legible (d : Deployment) (w : World (server d))
    (h : Reachable (machine (server d)) anyStep w) :
    Recovers costLog d.ledgerFile (ledgerWrites w.events) w.shared.ledger.file := by
  have htext := part_appended (f := fun s : AppState => s.ledger.file) exec_ledgerFile
    (fun _ _ => rfl) h
  rw [← appended_filterMap, List.filterMap_reverse] at htext
  exact htext ▸ recovers costLog _ _

/-- A chat has had its turn written down. -/
theorem ledger_legible_oneTurn : ∃ w, Reachable (machine (server keyedLaunch)) anyStep w ∧
    ((intact costLog.line true (ledgerWrites w.events)).length == 1) = true ∧
    Recovers costLog keyedLaunch.ledgerFile (ledgerWrites w.events) w.shared.ledger.file := by
  obtain ⟨w, hw, ht⟩ := replay_reaches (machine (server keyedLaunch)) anyStep unchecked
    (handshakeRun 0 "a" [.aiProviderCall] ++ sessionRun 1 "a" 1 none ++
      chatRun 2 "a" 1 23 { ChatOutcome.repliesHi with kept := 200 })
    (fun w => (intact costLog.line true (ledgerWrites w.events)).length == 1)
    (fun _ _ _ => trivial) (by decide +kernel)
  exact ⟨w, hw, ht, ledger_legible keyedLaunch w hw⟩

end

end Xlpod.LogLines
