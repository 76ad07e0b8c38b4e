import Xlpod.ByteEncodings

/-!
# The bundle document

A payload is the object the client hands to the writer and gets back from the
reader. Its dynamically typed fields hold any JSON value, since neither
direction checks them. `toDict` builds the document in insertion order and
`fromDict` reads one with Python's own rules: a missing key is `None`, a falsy
value gives way to the default after `or`, and a method called on the wrong
type is an exception that the bundle code does not catch.

The standard library enters through `Stdlib`: compression, and the conversion
of floats and strings to integers. A stream may be too large for the memory once
it is decompressed, but none that was compressed here.
-/
namespace Xlpod.BundlePayload
open Xlpod.JsonText Xlpod.ByteEncodings

abbrev PyJson := Json Text

/-- Exceptions of the interpreter that the bundle code lets through. -/
inductive PyError
  | attributeError
  | typeError
  | valueError
  | overflowError
  | unicodeDecodeError
  | recursionError
  | memoryError
  | runtimeError
  | notImplementedError
  | osError
  | zlibError
deriving DecidableEq

inductive BundleError
  | notFound
  | tooLarge (size : ℕ)
  | unknownSchema (schema : PyJson)
  | newerSchema (version : ℤ)
  | corrupt (reason : String)
  | python (error : PyError)

structure Stdlib where
  floatIsZero : Lexeme → Bool
  intOfFloat : Lexeme → Except PyError ℤ
  intOfStr : Text → Except PyError ℤ
  compress : Bytes → Bytes
  decompress : Bytes → Option Bytes
  exhausts : Bytes → Bool
  decompress_compress : ∀ blob, decompress (compress blob) = some blob
  exhausts_compress : ∀ blob, exhausts (compress blob) = false

def bundleNamespace : String := "urn:xlpod:bundle:v1"

def bundleSchemaVersion : ℤ := 1

def maxBundleBytes : ℕ := 64 * 1024 * 1024

structure Payload where
  schemaVersion : ℤ
  createdMs : ℤ
  workbookFingerprint : PyJson
  launcherMinVersion : PyJson
  pyodideSnapshot : Option Bytes
  pyodideEncoding : PyJson
  aiSessions : PyJson
  pythonModules : PyJson

/-! ## Python values -/

def truthy (L : Stdlib) : PyJson → Bool
  | .null => false
  | .bool b => b
  | .int n => n != 0
  | .real l => !L.floatIsZero l
  | .str s => !s.isEmpty
  | .arr items => !items.isEmpty
  | .obj fields => !fields.isEmpty

/-- `v or d`. -/
def orElse (L : Stdlib) (v d : PyJson) : PyJson := if truthy L v then v else d

/-- `v.get(key)`, with `None` for a missing key. -/
def getKey (v : PyJson) (key : String) : Except BundleError PyJson :=
  match v with
  | .obj fields => pure ((fields.lookup (lit key)).getD .null)
  | _ => throw (.python .attributeError)

/-- `int(v)`. -/
def toInt (L : Stdlib) : PyJson → Except BundleError ℤ
  | .int n => pure n
  | .bool b => pure (if b then 1 else 0)
  | .real l => (L.intOfFloat l).mapError .python
  | .str s => (L.intOfStr s).mapError .python
  | _ => throw (.python .typeError)

def asList (reason : String) : PyJson → Except BundleError (List PyJson)
  | .arr items => pure items
  | _ => throw (.corrupt reason)

/-! ## Both directions -/

def encodeSnapshot (L : Stdlib) (blob : Bytes) : Except BundleError Text :=
  if blob.length > maxBundleBytes then throw (.tooLarge blob.length)
  else pure (b64encode (L.compress blob))

def decodeSnapshot (L : Stdlib) (encoded : Text) : Except BundleError Bytes :=
  match b64decode encoded with
  | none => throw (.corrupt "snapshot base64 decode failed")
  | some compressed =>
      if L.exhausts compressed then throw (.python .memoryError)
      else
        match L.decompress compressed with
        | none => throw (.corrupt "snapshot zlib decompress failed")
        | some blob => pure blob

def optionalField (L : Stdlib) (key : String) (v : PyJson) : List (Text × PyJson) :=
  if truthy L v then [(lit key, v)] else []

def metadataFields (L : Stdlib) (p : Payload) : List (Text × PyJson) :=
  [(lit "created_ms", .int p.createdMs), (lit "schema_version", .int p.schemaVersion)] ++
    (optionalField L "launcher_min_version" p.launcherMinVersion ++
      optionalField L "workbook_fingerprint" p.workbookFingerprint)

def snapshotFields (L : Stdlib) (p : Payload) : Except BundleError (List (Text × PyJson)) :=
  match p.pyodideSnapshot with
  | none => pure []
  | some blob => do
      let snapshot ← encodeSnapshot L blob
      let encoding := orElse L p.pyodideEncoding (.str (lit "base64+zlib"))
      pure [(lit "pyodide",
        .obj [(lit "encoding", encoding), (lit "snapshot", .str snapshot)])]

/-- The document around the optional snapshot member. -/
def document (L : Stdlib) (p : Payload) (pyodide : List (Text × PyJson)) : PyJson :=
  .obj ([(lit "schema", .str (lit bundleNamespace)),
    (lit "metadata", .obj (metadataFields L p)),
    (lit "ai_history", .obj [(lit "sessions", p.aiSessions)]),
    (lit "python_modules", p.pythonModules)] ++ pyodide)

def toDict (L : Stdlib) (p : Payload) : Except BundleError PyJson := do
  let pyodide ← snapshotFields L p
  pure (document L p pyodide)

/-- The snapshot is decoded only when it is a non-empty string. -/
def snapshotBytes (L : Stdlib) : PyJson → Except BundleError (Option Bytes)
  | .str s => if s.isEmpty then pure none else some <$> decodeSnapshot L s
  | _ => pure none

/-- `from_dict` behind its check that the root is an object. -/
def fromObject (L : Stdlib) (data : PyJson) : Except BundleError Payload := do
  let schema ← getKey data "schema"
  match schema with
  | .str s => if s ≠ lit bundleNamespace then throw (.unknownSchema schema)
  | _ => throw (.unknownSchema schema)
  let metadata := orElse L (← getKey data "metadata") (.obj [])
  let version ← toInt L (orElse L (← getKey metadata "schema_version") (.int 0))
  if version > bundleSchemaVersion then throw (.newerSchema version)
  let pyodide := orElse L (← getKey data "pyodide") (.obj [])
  let snapshot ← snapshotBytes L (← getKey pyodide "snapshot")
  let aiHistory := orElse L (← getKey data "ai_history") (.obj [])
  let sessions ← asList "ai_history.sessions is not an array"
    (orElse L (← getKey aiHistory "sessions") (.arr []))
  let modules ← asList "python_modules is not an array"
    (orElse L (← getKey data "python_modules") (.arr []))
  let createdMs ← toInt L (orElse L (← getKey metadata "created_ms") (.int 0))
  let fingerprint ← getKey metadata "workbook_fingerprint"
  let minVersion ← getKey metadata "launcher_min_version"
  let encoding ← getKey pyodide "encoding"
  pure {
    schemaVersion := version
    createdMs := createdMs
    workbookFingerprint := fingerprint
    launcherMinVersion := minVersion
    pyodideSnapshot := snapshot
    pyodideEncoding := encoding
    aiSessions := .arr sessions
    pythonModules := .arr modules }

def fromDict (L : Stdlib) (data : PyJson) : Except BundleError Payload :=
  match data with
  | .obj _ => fromObject L data
  | _ => throw (.corrupt "bundle root is not an object")

/-! ## Reading a written document -/

/-- The values that `or []` and the array check let through. -/
def listOrFalsy (L : Stdlib) : PyJson → Bool
  | .arr _ => true
  | v => !truthy L v

@[simp] theorem getKey_obj (fields : List (Text × PyJson)) (key : String) :
    getKey (.obj fields) key = .ok ((fields.lookup (lit key)).getD .null) := rfl

theorem orElse_obj (L : Stdlib) {f : Text × PyJson} {fs : List (Text × PyJson)} (d : PyJson) :
    orElse L (.obj (f :: fs)) d = .obj (f :: fs) := rfl

theorem toInt_orElse_int (L : Stdlib) (n : ℤ) : toInt L (orElse L (.int n) (.int 0)) = .ok n := by
  by_cases h : n = 0
  · subst h
    rfl
  · simp [orElse, truthy, h, toInt, pure, Except.pure]

theorem asList_ok (L : Stdlib) (reason : String) (v : PyJson) :
    (∃ items, asList reason (orElse L v (.arr [])) = .ok items) ↔ listOrFalsy L v = true := by
  unfold orElse
  by_cases h : truthy L v
  · rw [if_pos h]
    cases v <;> simp_all [asList, listOrFalsy, pure, Except.pure, throw, throwThe,
      MonadExceptOf.throw]
  · rw [if_neg h]
    simp only [asList, pure, Except.pure, Except.ok.injEq, exists_eq', true_iff]
    cases v <;> simp_all [listOrFalsy]

theorem snapshotFields_cases {L : Stdlib} {p : Payload} {pyodide : List (Text × PyJson)}
    (h : snapshotFields L p = .ok pyodide) :
    (p.pyodideSnapshot = none ∧ pyodide = []) ∨
      ∃ blob, p.pyodideSnapshot = some blob ∧ pyodide = [(lit "pyodide",
        .obj [(lit "encoding", orElse L p.pyodideEncoding (.str (lit "base64+zlib"))),
          (lit "snapshot", .str (b64encode (L.compress blob)))])] := by
  unfold snapshotFields at h
  cases hs : p.pyodideSnapshot with
  | none =>
      rw [hs] at h
      exact .inl ⟨rfl, by simpa [pure, Except.pure, eq_comm] using h⟩
  | some blob =>
      rw [hs] at h
      simp only [encodeSnapshot] at h
      split_ifs at h
      · simp [throw, throwThe, MonadExceptOf.throw, bind, Except.bind] at h
      · exact .inr ⟨blob, rfl, by simpa [pure, Except.pure, bind, Except.bind, eq_comm] using h⟩

/-- What the reader takes from the optional member of a written document. -/
theorem snapshotFields_read {L : Stdlib} {p : Payload} {pyodide : List (Text × PyJson)}
    (h : snapshotFields L p = .ok pyodide) :
    ∃ fields b, orElse L ((pyodide.lookup (lit "pyodide")).getD .null) (.obj []) = .obj fields ∧
      snapshotBytes L ((fields.lookup (lit "snapshot")).getD .null) = .ok b := by
  obtain ⟨-, rfl⟩ | ⟨blob, -, rfl⟩ := snapshotFields_cases h
  · exact ⟨[], none, rfl, rfl⟩
  · have hb : ∃ b, snapshotBytes L (.str (b64encode (L.compress blob))) = .ok b := by
      simp only [snapshotBytes, decodeSnapshot, b64decode_b64encode, L.exhausts_compress,
        Bool.false_eq_true, if_false, L.decompress_compress]
      split_ifs <;> exact ⟨_, rfl⟩
    obtain ⟨b, hb⟩ := hb
    refine ⟨_, b, orElse_obj L _, ?_⟩
    simpa [List.lookup_cons] using hb

section Document
variable (L : Stdlib) (p : Payload) (pyodide : List (Text × PyJson))

@[simp] theorem document_schema :
    getKey (document L p pyodide) "schema" = .ok (.str (lit bundleNamespace)) := by
  simp [document]

@[simp] theorem document_metadata :
    getKey (document L p pyodide) "metadata" = .ok (.obj (metadataFields L p)) := by
  simp [document, List.lookup_cons]

@[simp] theorem document_aiHistory :
    getKey (document L p pyodide) "ai_history" =
      .ok (.obj [(lit "sessions", p.aiSessions)]) := by
  simp [document, List.lookup_cons]

@[simp] theorem document_pythonModules :
    getKey (document L p pyodide) "python_modules" = .ok p.pythonModules := by
  simp [document, List.lookup_cons]

@[simp] theorem document_pyodide :
    getKey (document L p pyodide) "pyodide" =
      .ok ((pyodide.lookup (lit "pyodide")).getD .null) := by
  simp [document, List.lookup_cons]

@[simp] theorem metadata_createdMs :
    (metadataFields L p).lookup (lit "created_ms") = some (.int p.createdMs) := by
  simp [metadataFields]

@[simp] theorem metadata_schemaVersion :
    (metadataFields L p).lookup (lit "schema_version") = some (.int p.schemaVersion) := by
  simp [metadataFields, List.lookup_cons]

end Document

/-- A written document of a known version fails to read only through its two
unchecked lists. -/
theorem fromDict_document {L : Stdlib} {p : Payload} {pyodide : List (Text × PyJson)}
    (hv : p.schemaVersion ≤ bundleSchemaVersion) (h : snapshotFields L p = .ok pyodide) :
    (∃ q, fromDict L (document L p pyodide) = .ok q) ↔
      listOrFalsy L p.aiSessions = true ∧ listOrFalsy L p.pythonModules = true := by
  obtain ⟨fields, b, hf, hb⟩ := snapshotFields_read h
  have hmeta : orElse L (.obj (metadataFields L p)) (.obj []) = .obj (metadataFields L p) := rfl
  have hhist : orElse L (.obj [(lit "sessions", p.aiSessions)]) (.obj []) =
      .obj [(lit "sessions", p.aiSessions)] := rfl
  have hnew : ¬ p.schemaVersion > bundleSchemaVersion := by omega
  have hsess : [(lit "sessions", p.aiSessions)].lookup (lit "sessions") =
      some p.aiSessions := by
    simp
  rw [← asList_ok L "ai_history.sessions is not an array",
    ← asList_ok L "python_modules is not an array"]
  change (∃ q, fromObject L (document L p pyodide) = .ok q) ↔ _
  simp only [fromObject, document_schema, document_metadata, document_pyodide, document_aiHistory,
    document_pythonModules, hmeta, hhist, hf, hsess, metadata_schemaVersion, metadata_createdMs,
    Option.getD_some, toInt_orElse_int, bind, Except.bind, if_neg hnew, ne_eq, not_true_eq_false,
    if_false, getKey_obj, hb, pure, Except.pure]
  cases asList "ai_history.sessions is not an array" (orElse L p.aiSessions (.arr [])) with
  | error e => simp
  | ok sessions =>
      cases asList "python_modules is not an array" (orElse L p.pythonModules (.arr [])) with
      | error e => simp
      | ok modules => simp

/-! ## Strings and keys of a written document -/

/-- The strings the writer adds to a payload's own. -/
def documentWords : List String :=
  [bundleNamespace, "schema", "metadata", "created_ms", "schema_version", "launcher_min_version",
    "workbook_fingerprint", "ai_history", "sessions", "python_modules", "pyodide", "encoding",
    "snapshot", "base64+zlib"]

/-- The strings of the fields that reach the document. -/
def texts (p : Payload) : List Text :=
  p.launcherMinVersion.strings ++ (p.workbookFingerprint.strings ++ (p.aiSessions.strings ++
    (p.pythonModules.strings ++
      if p.pyodideSnapshot.isSome then p.pyodideEncoding.strings else [])))

section Strings
variable {L : Stdlib} {p : Payload} {good : Text → Prop}

/-- A falsy value holds no string but the empty one. -/
theorem falsy_strings {v : PyJson} (h : truthy L v = false) : ∀ s ∈ v.strings, s = [] := by
  cases v <;> simp_all [truthy, Json.strings, Json.itemStrings, Json.fieldStrings]

theorem optionalField_forall {key : String} (hk : good (lit key)) (he : good []) (v : PyJson) :
    (∀ s ∈ Json.fieldStrings (optionalField L key v), good s) ↔ ∀ s ∈ v.strings, good s := by
  unfold optionalField
  by_cases h : truthy L v
  · simp [h, Json.fieldStrings, hk]
  · rw [if_neg h]
    have hs := falsy_strings (Bool.eq_false_iff.mpr h)
    simp only [Json.fieldStrings, List.not_mem_nil, false_implies, implies_true, true_iff]
    exact fun s hm => hs s hm ▸ he

theorem orElse_str_forall {w : String} (hw : good (lit w)) (he : good []) (v : PyJson) :
    (∀ s ∈ (orElse L v (.str (lit w))).strings, good s) ↔ ∀ s ∈ v.strings, good s := by
  unfold orElse
  by_cases h : truthy L v
  · rw [if_pos h]
  · rw [if_neg h]
    have hs := falsy_strings (Bool.eq_false_iff.mpr h)
    simp only [Json.strings, List.mem_singleton, forall_eq, hw, true_iff]
    exact fun s hm => hs s hm ▸ he

theorem snapshotFields_forall {pyodide : List (Text × PyJson)}
    (h : snapshotFields L p = .ok pyodide) (hw : ∀ w ∈ documentWords, good (lit w))
    (he : good []) (hb : ∀ blob, good (b64encode blob)) :
    (∀ s ∈ Json.fieldStrings pyodide, good s) ↔
      ∀ s ∈ (if p.pyodideSnapshot.isSome then p.pyodideEncoding.strings else []), good s := by
  obtain ⟨hs, rfl⟩ | ⟨blob, hs, rfl⟩ := snapshotFields_cases h
  · simp [hs, Json.fieldStrings]
  · have henc := orElse_str_forall (L := L) (hw "base64+zlib" (by decide)) he p.pyodideEncoding
    simp only [hs, Json.fieldStrings, Json.strings, List.append_nil, List.forall_mem_cons,
      List.forall_mem_append, henc, hw "pyodide" (by decide), hw "encoding" (by decide),
      hw "snapshot" (by decide), hb, List.not_mem_nil, false_implies, implies_true, true_and,
      and_true, Option.isSome_some, if_true]

/-- A property of the writer's own strings holds of the whole document when it
holds of the payload's. -/
theorem document_forall (good : Text → Prop) {pyodide : List (Text × PyJson)}
    (h : snapshotFields L p = .ok pyodide) (hw : ∀ w ∈ documentWords, good (lit w)) (he : good [])
    (hb : ∀ blob, good (b64encode blob)) :
    (∀ s ∈ (document L p pyodide).strings, good s) ↔ ∀ s ∈ texts p, good s := by
  have hsnap := snapshotFields_forall h hw he hb
  have hmin := optionalField_forall (L := L) (hw "launcher_min_version" (by decide)) he
    p.launcherMinVersion
  have hfp := optionalField_forall (L := L) (hw "workbook_fingerprint" (by decide)) he
    p.workbookFingerprint
  simp only [document, metadataFields, texts, Json.strings, Json.fieldStrings,
    Json.fieldStrings_append, List.forall_mem_cons, List.forall_mem_append, hmin, hfp, hsnap]
  have hn : good (lit bundleNamespace) := hw _ (by decide)
  simp only [hn, hw "schema" (by decide), hw "metadata" (by decide), hw "created_ms" (by decide),
    hw "schema_version" (by decide), hw "ai_history" (by decide), hw "sessions" (by decide),
    hw "python_modules" (by decide), List.not_mem_nil, false_implies, implies_true, true_and,
    and_true, and_assoc]

/-- The payload holds values as Python's JSON knows them: dictionaries, and
strings that are Unicode texts. -/
def JsonValues (p : Payload) : Prop :=
  ∀ v ∈ [p.launcherMinVersion, p.workbookFingerprint, p.pyodideEncoding, p.aiSessions,
    p.pythonModules], v.UniqueKeys ∧ ∀ s ∈ v.strings, Scalar s

theorem optionalField_keys {key : String} {v : PyJson} (h : v.UniqueKeys) :
    Json.fieldKeys (optionalField L key v) := by
  unfold optionalField
  split_ifs
  · exact ⟨h, trivial⟩
  · trivial

theorem metadataFields_nodup (L : Stdlib) (p : Payload) :
    ((metadataFields L p).map Prod.fst).Nodup := by
  unfold metadataFields optionalField
  split_ifs <;> simp

theorem document_keys {pyodide : List (Text × PyJson)} (h : snapshotFields L p = .ok pyodide)
    (hp : JsonValues p) : (document L p pyodide).UniqueKeys := by
  simp only [JsonValues, List.forall_mem_cons] at hp
  obtain ⟨⟨hmin, -⟩, ⟨hfp, -⟩, ⟨henc, -⟩, ⟨hses, -⟩, ⟨hmod, -⟩, -⟩ := hp
  have hmeta : (Json.obj (metadataFields L p)).UniqueKeys := by
    refine ⟨metadataFields_nodup L p, ?_⟩
    simp only [metadataFields, Json.fieldKeys_append, Json.fieldKeys, Json.UniqueKeys, true_and]
    exact ⟨optionalField_keys hmin, optionalField_keys hfp⟩
  obtain ⟨-, rfl⟩ | ⟨blob, -, rfl⟩ := snapshotFields_cases h
  · exact ⟨by simp, trivial, hmeta, ⟨by simp, hses, trivial⟩, hmod, trivial⟩
  · have hor : (orElse L p.pyodideEncoding (.str (lit "base64+zlib"))).UniqueKeys := by
      unfold orElse
      split_ifs
      · exact henc
      · trivial
    exact ⟨by simp, trivial, hmeta, ⟨by simp, hses, trivial⟩, hmod,
      ⟨by simp, hor, trivial, trivial⟩, trivial⟩

end Strings

end Xlpod.BundlePayload
