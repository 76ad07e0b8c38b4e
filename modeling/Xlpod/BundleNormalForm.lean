import Xlpod.BundleShapes

/-!
# The normal form of a bundle payload

A payload comes back from its own document with its optional values in normal
form: a falsy fingerprint or minimum version is absent, and there is an encoding
tag exactly when there is a snapshot. The reader does not normalise. So a
payload that was read is handed on unchanged when the document already had this
form and its snapshot stays under the cap the writer checks.
-/
namespace Xlpod.BundleNormalForm
open Xlpod.JsonText Xlpod.ByteEncodings Xlpod.BundlePayload Xlpod.BundleFile Xlpod.BundleArchive
open Xlpod.BundleRoundTrip Xlpod.BundleShapes

/-- The tag of a written snapshot. -/
def snapshotTag (L : Stdlib) (encoding : PyJson) : Option Bytes → PyJson
  | none => .null
  | some _ => orElse L encoding (.str (lit "base64+zlib"))

def normal (L : Stdlib) (p : Payload) : Payload :=
  { p with
    workbookFingerprint := orElse L p.workbookFingerprint .null
    launcherMinVersion := orElse L p.launcherMinVersion .null
    pyodideEncoding := snapshotTag L p.pyodideEncoding p.pyodideSnapshot }

/-- The cap of `_encode_snapshot`. -/
def SnapshotFits (p : Payload) : Prop :=
  ∀ blob, p.pyodideSnapshot = some blob → blob.length ≤ maxBundleBytes

/-! ## Two compressed streams -/

/-- The stream of the letter a, at the level the writer uses. -/
def letterStream : Bytes := [120, 156, 75, 4, 0, 0, 98, 0, 98]

/-- A fixed-code stream of one zero and 260112 copies of 258 zeros, each eight
of which take thirteen bytes. -/
def bombStream : Bytes :=
  120 :: 156 :: 99 :: ((List.replicate 32514
    [24, 5, 163, 96, 20, 140, 130, 81, 48, 10, 70, 193, 40]).flatten ++ [0, 0, 60, 33, 0, 1])

def bombContent : Bytes := List.replicate 67108897 0

theorem bombContent_length : bombContent.length = 67108897 := List.length_replicate

theorem bombStream_head : ∃ rest, bombStream = 120 :: 156 :: 99 :: rest := ⟨_, rfl⟩

theorem bombStream_ne_letter : bombStream ≠ letterStream := by
  obtain ⟨rest, hrest⟩ := bombStream_head
  simp [hrest, letterStream]

theorem stored_ne_bomb (blob : Bytes) : 120 :: 1 :: blob ≠ bombStream := by
  obtain ⟨rest, hrest⟩ := bombStream_head
  simp [hrest]

/-- The library on these streams; any other content is stored behind a header. -/
def inflate (stream : Bytes) : Option Bytes :=
  if stream = letterStream then some [97]
  else if stream = bombStream then some bombContent
  else match stream with
    | 120 :: 1 :: blob => some blob
    | _ => none

theorem inflate_letter : inflate letterStream = some [97] := by
  unfold inflate
  rw [if_pos rfl]

theorem inflate_bomb : inflate bombStream = some bombContent := by
  unfold inflate
  rw [if_neg bombStream_ne_letter, if_pos rfl]

theorem inflate_stored (blob : Bytes) : inflate (120 :: 1 :: blob) = some blob := by
  unfold inflate
  rw [if_neg (by simp [letterStream]), if_neg (stored_ne_bomb blob)]
  rfl

theorem inflate_nil : inflate [] = none := by
  obtain ⟨rest, hrest⟩ := bombStream_head
  unfold inflate
  rw [if_neg (by simp [letterStream]), if_neg (by simp [hrest])]

def zlibStdlib : Stdlib :=
  { plainStdlib with
    compress := fun blob => if blob = [97] then letterStream else 120 :: 1 :: blob
    decompress := inflate
    exhausts_compress := fun _ => rfl
    decompress_compress := by
      intro blob
      by_cases h : blob = [97]
      · rw [if_pos h, h]
        exact inflate_letter
      · rw [if_neg h]
        exact inflate_stored blob }

theorem zlibStdlib_decompress : zlibStdlib.decompress = inflate := rfl

/-! ## A payload from its own document -/

section Written
variable {L : Stdlib} {p : Payload} {pyodide : List (Text × PyJson)}

theorem snapshotFields_fits : (∃ pyodide, snapshotFields L p = .ok pyodide) ↔ SnapshotFits p := by
  unfold snapshotFields SnapshotFits
  cases p.pyodideSnapshot with
  | none => simp [pure, Except.pure]
  | some blob =>
      by_cases hsize : blob.length > maxBundleBytes
      · simp [encodeSnapshot, hsize, bind, Except.bind, throw, throwThe, MonadExceptOf.throw]
      · simp [encodeSnapshot, hsize, bind, Except.bind, pure, Except.pure]
        omega

theorem toDict_fits : (∃ data, toDict L p = .ok data) ↔ SnapshotFits p := by
  rw [← snapshotFields_fits (L := L)]
  constructor
  · intro h
    obtain ⟨data, hdata⟩ := h
    obtain ⟨pyodide, hpyodide, -⟩ := toDict_ok hdata
    exact ⟨pyodide, hpyodide⟩
  · intro h
    obtain ⟨pyodide, hpyodide⟩ := h
    refine ⟨document L p pyodide, ?_⟩
    rw [toDict, hpyodide]
    rfl

/-- An optional member is read as itself or as nothing. -/
theorem member_metadata_minVersion :
    member (metadataFields L p) "launcher_min_version" = orElse L p.launcherMinVersion .null := by
  unfold metadataFields member optionalField orElse
  split_ifs <;> simp [List.lookup_cons]

theorem member_metadata_fingerprint :
    member (metadataFields L p) "workbook_fingerprint" =
      orElse L p.workbookFingerprint .null := by
  unfold metadataFields member optionalField orElse
  split_ifs <;> simp [List.lookup_cons]

theorem b64encode_nonempty {b : Bytes} (h : b ≠ []) : b64encode b ≠ [] := by
  intro hnil
  have hdecode := b64decode_b64encode b
  rw [hnil] at hdecode
  exact h (Option.some.inj hdecode).symm

/-- A compressed stream is never empty, since an empty stream has no content. -/
theorem compress_nonempty (hz : L.decompress [] = none) (blob : Bytes) : L.compress blob ≠ [] := by
  intro h
  have hblob := L.decompress_compress blob
  rw [h, hz] at hblob
  cases hblob

theorem snapshotBytes_encoded (hz : L.decompress [] = none) (blob : Bytes) :
    snapshotBytes L (.str (b64encode (L.compress blob))) = .ok (some blob) := by
  have hne := b64encode_nonempty (compress_nonempty hz blob)
  rw [snapshotBytes, if_neg (by simpa using hne), decodeSnapshot, b64decode_b64encode]
  dsimp only
  rw [L.exhausts_compress, if_neg Bool.false_ne_true, L.decompress_compress]
  rfl

/-- The optional section holds the snapshot and its tag. -/
theorem snapshotFields_normal (hz : L.decompress [] = none)
    (h : snapshotFields L p = .ok pyodide) :
    ∃ fields, orElse L ((pyodide.lookup (lit "pyodide")).getD .null) (.obj []) = .obj fields ∧
      snapshotBytes L ((fields.lookup (lit "snapshot")).getD .null) = .ok p.pyodideSnapshot ∧
      (fields.lookup (lit "encoding")).getD .null =
        snapshotTag L p.pyodideEncoding p.pyodideSnapshot := by
  obtain ⟨hnone, rfl⟩ | ⟨blob, hblob, rfl⟩ := snapshotFields_cases h
  · rw [hnone]
    exact ⟨[], rfl, rfl, rfl⟩
  · rw [hblob]
    refine ⟨_, orElse_obj L _, ?_, ?_⟩
    · have hread := snapshotBytes_encoded hz blob
      simpa [List.lookup_cons] using hread
    · simp [snapshotTag]

theorem asList_arr (reason : String) (items : List PyJson) :
    asList reason (orElse L (.arr items) (.arr [])) = .ok items := by
  cases items <;> rfl

theorem fromDict_normal (hz : L.decompress [] = none) {sessions modules : List PyJson}
    (hv : p.schemaVersion ≤ bundleSchemaVersion) (hsessions : p.aiSessions = .arr sessions)
    (hmodules : p.pythonModules = .arr modules) (h : snapshotFields L p = .ok pyodide) :
    fromDict L (document L p pyodide) = .ok (normal L p) := by
  obtain ⟨fields, hfields, hsnapshot, htag⟩ := snapshotFields_normal hz h
  have hmeta : orElse L (.obj (metadataFields L p)) (.obj []) = .obj (metadataFields L p) := rfl
  have hhist : orElse L (.obj [(lit "sessions", .arr sessions)]) (.obj []) =
      .obj [(lit "sessions", .arr sessions)] := rfl
  have hsess : [(lit "sessions", (.arr sessions : PyJson))].lookup (lit "sessions") =
      some (.arr sessions) := by
    simp
  have hmin := member_metadata_minVersion (L := L) (p := p)
  have hfingerprint := member_metadata_fingerprint (L := L) (p := p)
  unfold member at hmin hfingerprint
  change fromObject L (document L p pyodide) = _
  simp only [fromObject, document_schema, document_metadata, document_pyodide, document_aiHistory,
    document_pythonModules, hmeta, hhist, hfields, hsess, metadata_schemaVersion,
    metadata_createdMs, Option.getD_some, toInt_orElse_int, ok_bind, if_neg (Int.not_lt.mpr hv),
    ne_eq, not_true_eq_false, if_false, getKey_obj, hsnapshot, hsessions, hmodules, asList_arr,
    hmin, hfingerprint, htag, normal]
  rfl

/-- For every payload of a known schema version with list fields and a snapshot
that fits, what comes back from its document is its normal form. -/
theorem fromDict_toDict (L : Stdlib) (p : Payload) (sessions modules : List PyJson)
    (hz : L.decompress [] = none) (hv : p.schemaVersion = 0 ∨ p.schemaVersion = 1)
    (hsessions : p.aiSessions = .arr sessions) (hmodules : p.pythonModules = .arr modules)
    (hsnapshot : SnapshotFits p) :
    (toDict L p >>= fromDict L) = .ok (normal L p) := by
  obtain ⟨pyodide, hpyodide⟩ := snapshotFields_fits.mpr hsnapshot
  have hknown : p.schemaVersion ≤ bundleSchemaVersion := by
    unfold bundleSchemaVersion
    omega
  have hread := fromDict_normal hz hknown hsessions hmodules hpyodide
  rw [toDict, hpyodide]
  exact hread

/-- A payload with an empty fingerprint and an untagged snapshot. -/
def untagged : Payload where
  schemaVersion := 1
  createdMs := 42
  workbookFingerprint := .str []
  launcherMinVersion := .str (lit "0.7.0")
  pyodideSnapshot := some [97]
  pyodideEncoding := .null
  aiSessions := .arr []
  pythonModules := .arr [.str (lit "pandas")]

theorem fromDict_toDict_untagged :
    (toDict zlibStdlib untagged >>= fromDict zlibStdlib) = .ok (normal zlibStdlib untagged) ∧
      normal zlibStdlib untagged =
        { untagged with
          workbookFingerprint := .null
          pyodideEncoding := .str (lit "base64+zlib") } := by
  have hfits : SnapshotFits untagged := by
    intro blob hblob
    rw [← Option.some.inj hblob]
    decide
  exact ⟨fromDict_toDict zlibStdlib untagged [] [.str (lit "pandas")] inflate_nil (.inr rfl) rfl
    rfl hfits, rfl⟩

end Written

/-! ## A document that is handed on -/

/-- An optional section, as the reader takes it. -/
def sectionOf (L : Stdlib) (d : PyJson) (key : String) : List (Text × PyJson) :=
  match d with
  | .obj fields =>
      match orElse L (member fields key) (.obj []) with
      | .obj section_ => section_
      | _ => []
  | _ => []

def NullOrTruthy (L : Stdlib) (v : PyJson) : Prop := v = .null ∨ truthy L v = true

/-- The payload that was read fits the writer's cap, and its document gives the
same payload again. -/
structure HandedOn (L : Stdlib) (p : Payload) : Prop where
  fits : SnapshotFits p
  again : ∃ data, toDict L p = .ok data ∧ fromDict L data = .ok p

/-- The document is in the form the writer gives it. -/
structure InForm (L : Stdlib) (d : PyJson) : Prop where
  fingerprint : NullOrTruthy L (member (sectionOf L d "metadata") "workbook_fingerprint")
  minVersion : NullOrTruthy L (member (sectionOf L d "metadata") "launcher_min_version")
  snapshot : ∀ blob, snapshotBytes L (member (sectionOf L d "pyodide") "snapshot") = .ok (some blob) →
    blob.length ≤ maxBundleBytes ∧ truthy L (member (sectionOf L d "pyodide") "encoding") = true
  noSnapshot : snapshotBytes L (member (sectionOf L d "pyodide") "snapshot") = .ok none →
    member (sectionOf L d "pyodide") "encoding" = .null

section Read
variable {L : Stdlib} {p : Payload} {d : PyJson} {fields : List (Text × PyJson)}

theorem orElse_null {v : PyJson} : orElse L v .null = v ↔ NullOrTruthy L v := by
  unfold orElse NullOrTruthy
  by_cases h : truthy L v
  · simp [h]
  · simp [h, eq_comm]

theorem orElse_truthy {v w : PyJson} (hw : truthy L w = true) :
    orElse L v w = v ↔ truthy L v = true := by
  unfold orElse
  by_cases h : truthy L v
  · simp [h]
  · rw [if_neg h, iff_false_right h]
    intro heq
    exact h (heq ▸ hw)

theorem insertField_self {k : Text} {x : PyJson} {fs : List (Text × PyJson)}
    (h : fs.lookup k = some x) : insertField k x fs = fs := by
  induction fs with
  | nil => cases h
  | cons f fs ih =>
      obtain ⟨k', x'⟩ := f
      rw [insertField]
      by_cases hk : k' = k
      · subst hk
        rw [List.lookup_cons_self] at h
        rw [if_pos rfl, Option.some.inj h]
      · rw [List.lookup_cons, beq_false_of_ne (Ne.symm hk)] at h
        rw [if_neg hk, ih h]

/-- An accepted document is an object that carries the schema. -/
theorem fromDict_withSchema (h : fromDict L d = .ok p) :
    ∃ fields, d = .obj fields ∧ withSchema (.obj fields) = .obj fields := by
  cases d with
  | obj fields =>
      refine ⟨fields, rfl, ?_⟩
      change fromObject L (.obj fields) = .ok p at h
      unfold fromObject at h
      simp only [getKey_obj, ok_bind] at h
      cases hschema : fields.lookup (lit "schema") with
      | none =>
          rw [hschema] at h
          cases h
      | some x =>
          rw [hschema, Option.getD_some] at h
          cases x with
          | str s =>
              by_cases hs : s = lit bundleNamespace
              · subst hs
                rw [withSchema, insertField_self hschema]
              · dsimp only at h
                rw [if_pos hs] at h
                cases h
          | _ => cases h
  | _ => cases h

/-- What a read payload holds of the sections of its document. -/
theorem fromDict_sections (h : fromDict L d = .ok p) :
    (∃ sessions modules, p.aiSessions = .arr sessions ∧ p.pythonModules = .arr modules) ∧
      p.schemaVersion ≤ bundleSchemaVersion ∧
      p.workbookFingerprint = member (sectionOf L d "metadata") "workbook_fingerprint" ∧
      p.launcherMinVersion = member (sectionOf L d "metadata") "launcher_min_version" ∧
      snapshotBytes L (member (sectionOf L d "pyodide") "snapshot") = .ok p.pyodideSnapshot ∧
      p.pyodideEncoding = member (sectionOf L d "pyodide") "encoding" := by
  obtain ⟨fields, rfl, hself⟩ := fromDict_withSchema h
  rw [← hself] at h
  obtain ⟨md, ai, py, createdMs, version, snapshot, sessions, modules, hc, -, hnew, hpy,
    hsnapshot, -, -, rfl⟩ := fromDict_accepted h
  have hmd : sectionOf L (.obj fields) "metadata" = md := by
    simp only [sectionOf, hc.metadata]
  have hsection : sectionOf L (.obj fields) "pyodide" = py := by
    simp only [sectionOf, hpy]
  rw [hmd, hsection]
  exact ⟨⟨sessions, modules, rfl, rfl⟩, hnew, rfl, rfl, hsnapshot, rfl⟩

theorem handedOn_iff_normal (hz : L.decompress [] = none) (h : fromDict L d = .ok p) :
    HandedOn L p ↔ SnapshotFits p ∧ normal L p = p := by
  obtain ⟨⟨sessions, modules, hsessions, hmodules⟩, hv, -⟩ := fromDict_sections h
  have hread (hfits : SnapshotFits p) :
      ∃ data, toDict L p = .ok data ∧ fromDict L data = .ok (normal L p) := by
    obtain ⟨pyodide, hpyodide⟩ := snapshotFields_fits.mpr hfits
    refine ⟨document L p pyodide, ?_, fromDict_normal hz hv hsessions hmodules hpyodide⟩
    rw [toDict, hpyodide]
    rfl
  constructor
  · intro hon
    obtain ⟨data, hdata, hnormal⟩ := hread hon.fits
    obtain ⟨data', hdata', hagain⟩ := hon.again
    have hsame := Except.ok.inj (hdata.symm.trans hdata')
    rw [← hsame, hnormal] at hagain
    exact ⟨hon.fits, Except.ok.inj hagain⟩
  · intro hon
    obtain ⟨data, hdata, hnormal⟩ := hread hon.1
    rw [hon.2] at hnormal
    exact ⟨hon.1, data, hdata, hnormal⟩

theorem normal_self : normal L p = p ↔
    NullOrTruthy L p.workbookFingerprint ∧ NullOrTruthy L p.launcherMinVersion ∧
      snapshotTag L p.pyodideEncoding p.pyodideSnapshot = p.pyodideEncoding := by
  rw [← orElse_null, ← orElse_null]
  constructor
  · intro h
    exact ⟨congrArg Payload.workbookFingerprint h, congrArg Payload.launcherMinVersion h,
      congrArg Payload.pyodideEncoding h⟩
  · intro h
    obtain ⟨hfingerprint, hmin, htag⟩ := h
    rw [normal, hfingerprint, hmin, htag]

/-- For every document the reader accepts, the payload is handed on unchanged
exactly when the document is in the writer's form. -/
theorem handedOn_iff (L : Stdlib) (d : PyJson) (p : Payload) (hz : L.decompress [] = none)
    (h : fromDict L d = .ok p) : HandedOn L p ↔ InForm L d := by
  obtain ⟨-, -, hfingerprint, hmin, hsnapshot, hencoding⟩ := fromDict_sections h
  have htag : truthy L (.str (lit "base64+zlib")) = true := rfl
  rw [handedOn_iff_normal hz h, normal_self, hfingerprint, hmin, hencoding]
  constructor
  · intro hon
    obtain ⟨hfits, hfp, hmv, hkept⟩ := hon
    refine ⟨hfp, hmv, ?_, ?_⟩
    · intro blob hblob
      have hsome := Except.ok.inj (hsnapshot.symm.trans hblob)
      rw [hsome] at hkept
      exact ⟨hfits blob hsome, (orElse_truthy htag).mp hkept⟩
    · intro hnone
      rw [Except.ok.inj (hsnapshot.symm.trans hnone)] at hkept
      exact hkept.symm
  · intro hform
    refine ⟨?_, hform.fingerprint, hform.minVersion, ?_⟩
    · intro blob hblob
      rw [hblob] at hsnapshot
      exact (hform.snapshot blob hsnapshot).1
    · cases hs : p.pyodideSnapshot with
      | none =>
          rw [hs] at hsnapshot
          exact (hform.noSnapshot hsnapshot).symm
      | some blob =>
          rw [hs] at hsnapshot
          exact (orElse_truthy htag).mpr (hform.snapshot blob hsnapshot).2

/-- The members of a document with a tagged snapshot in the writer's form. -/
def taggedFields (stream : Bytes) : List (Text × PyJson) :=
  [(lit "schema", .str (lit bundleNamespace)),
    (lit "metadata", .obj [(lit "schema_version", .int 1), (lit "created_ms", .int 42)]),
    (lit "pyodide", .obj [(lit "encoding", .str (lit "base64+zlib")),
      (lit "snapshot", .str (b64encode stream))])]

/-- The payload of such a document. -/
def taggedPayload (blob : Bytes) : Payload where
  schemaVersion := 1
  createdMs := 42
  workbookFingerprint := .null
  launcherMinVersion := .null
  pyodideSnapshot := some blob
  pyodideEncoding := .str (lit "base64+zlib")
  aiSessions := .arr []
  pythonModules := .arr []

theorem fromDict_tagged {stream blob : Bytes} (hne : stream ≠ [])
    (hmemory : L.exhausts stream = false) (h : L.decompress stream = some blob) :
    fromDict L (.obj (taggedFields stream)) = .ok (taggedPayload blob) := by
  have hread : snapshotBytes L (.str (b64encode stream)) = .ok (some blob) := by
    have htext := b64encode_nonempty hne
    rw [snapshotBytes, if_neg (by simpa using htext), decodeSnapshot, b64decode_b64encode]
    dsimp only
    rw [hmemory, if_neg Bool.false_ne_true, h]
    rfl
  have hcommon : Common L (taggedFields stream)
      [(lit "schema_version", .int 1), (lit "created_ms", .int 42)] [] 42 :=
    ⟨rfl, rfl, toInt_orElse_int L 42⟩
  have haccepted := accepted_fromDict hcommon (toInt_orElse_int L 1) le_rfl rfl hread rfl rfl
  rw [withSchema, insertField_self rfl] at haccepted
  exact haccepted

theorem tagged_fits {blob : Bytes} :
    SnapshotFits (taggedPayload blob) ↔ blob.length ≤ maxBundleBytes := by
  simp [SnapshotFits, taggedPayload]

theorem handedOn_letter : ∃ p, fromDict zlibStdlib (.obj (taggedFields letterStream)) = .ok p ∧
    HandedOn zlibStdlib p ∧ InForm zlibStdlib (.obj (taggedFields letterStream)) := by
  have hread : fromDict zlibStdlib (.obj (taggedFields letterStream)) =
      .ok (taggedPayload [97]) := fromDict_tagged (by decide) rfl inflate_letter
  have hiff := handedOn_iff zlibStdlib _ _ inflate_nil hread
  have hon : HandedOn zlibStdlib (taggedPayload [97]) :=
    (handedOn_iff_normal inflate_nil hread).mpr ⟨tagged_fits.mpr (by decide), rfl⟩
  exact ⟨_, hread, hon, hiff.mp hon⟩

/-- A snapshot of some four hundred thousand bytes is read to more than the
cap, so its payload has no document. -/
theorem bomb_not_handedOn : ∃ p, fromDict zlibStdlib (.obj (taggedFields bombStream)) = .ok p ∧
    (∀ data, toDict zlibStdlib p ≠ .ok data) ∧ ¬ HandedOn zlibStdlib p := by
  have hne : bombStream ≠ [] := by
    obtain ⟨rest, hrest⟩ := bombStream_head
    simp [hrest]
  have hlarge : ¬ SnapshotFits (taggedPayload bombContent) := by
    rw [tagged_fits, bombContent_length]
    decide
  have hcontent : zlibStdlib.decompress bombStream = some bombContent := by
    rw [zlibStdlib_decompress, inflate_bomb]
  have hread := fromDict_tagged hne rfl hcontent
  refine ⟨_, hread, ?_, fun h => hlarge h.fits⟩
  intro data hdata
  exact hlarge (toDict_fits.mp ⟨data, hdata⟩)

end Read

end Xlpod.BundleNormalForm
