import Xlpod.BundleRoundTrip
import Xlpod.WorkerLoop

/-!
# The two payload shapes of a bundle write

`_bundle_write` hands a document with a schema to `from_dict` and maps any
other value field by field. The two readings are compared on a document that
differs in its schema alone. They check metadata, chat history and creation
time alike. Beyond these the mapping iterates whatever stands in the two list
fields, drops the remaining members and takes a falsy value for an empty
document, where `from_dict` checks every member and keeps it.

A written document is told apart from another one by its text: an integer ends
where a separator begins, and a member follows or the object closes.
-/
namespace Xlpod.BundleShapes
open Xlpod.JsonText Xlpod.ByteEncodings Xlpod.BundlePayload Xlpod.BundleFile Xlpod.BundleArchive
open Xlpod.BundleRoundTrip Xlpod.WorkerLoop

/-! ## The two calls -/

/-- A worker at an existing workbook. -/
def World.holding (w : World) (book : Workbook) : World :=
  { w with clientMissing := none, file := .ok book }

/-- The document with its schema set. -/
def withSchema : PyJson → PyJson
  | .obj fields => .obj (insertField (lit "schema") (.str (lit bundleNamespace)) fields)
  | v => v

def Succeeded (reply : Reply) : Prop :=
  reply.lookup (lit "ok") = some (.value (.bool true))

/-- The call behaves as if the document had carried its schema: it succeeds
when the reader accepts that document and the workbook takes its payload, it
stores that payload, and a rejected document changes nothing. -/
structure ShapesAgree (L : Stdlib) (describe : BundleError → Text) (w : World) (book : Workbook)
    (v : PyJson) : Prop where
  succeeds : Succeeded (bundleWrite L describe (World.holding w book) v) ↔
    ∃ p out, fromDict L (withSchema v) = .ok p ∧ BundleWriter.write L book p = .ok out
  stores : ∀ p out, fromDict L (withSchema v) = .ok p → BundleWriter.write L book p = .ok out →
    fileAfterWrite L (World.holding w book) v = .ok out
  rejects : (∀ p, fromDict L (withSchema v) ≠ .ok p) →
    ¬ Succeeded (bundleWrite L describe (World.holding w book) v) ∧
      fileAfterWrite L (World.holding w book) v = .ok book

/-! ## When the shapes agree -/

def member (fields : List (Text × PyJson)) (key : String) : PyJson :=
  (fields.lookup (lit key)).getD .null

/-- The members both readings check, as both read them. -/
structure Common (L : Stdlib) (fields md ai : List (Text × PyJson)) (createdMs : ℤ) : Prop where
  metadata : orElse L (member fields "metadata") (.obj []) = .obj md
  aiHistory : orElse L (member fields "ai_history") (.obj []) = .obj ai
  created : toInt L (orElse L (member md "created_ms") (.int 0)) = .ok createdMs

/-- What `list` takes when a missing field counts as an empty list. -/
def iterable : Option PyJson → Bool
  | none | some (.arr _) | some (.str _) | some (.obj _) => true
  | _ => false

def Iterable (fields ai : List (Text × PyJson)) : Prop :=
  iterable (ai.lookup (lit "sessions")) = true ∧
    iterable (fields.lookup (lit "python_modules")) = true

/-- The checks of `from_dict` beyond the common ones. -/
structure Checked (L : Stdlib) (fields md ai : List (Text × PyJson)) : Prop where
  version : ∃ n, toInt L (orElse L (member md "schema_version") (.int 0)) = .ok n ∧
    n ≤ bundleSchemaVersion
  pyodide : ∃ py b, orElse L (member fields "pyodide") (.obj []) = .obj py ∧
    snapshotBytes L (member py "snapshot") = .ok b
  sessions : listOrFalsy L (member ai "sessions") = true
  modules : listOrFalsy L (member fields "python_modules") = true

/-- The members the mapping drops say what it writes in their place. -/
structure Lossless (L : Stdlib) (fields md : List (Text × PyJson)) : Prop where
  version : toInt L (orElse L (member md "schema_version") (.int 0)) = .ok bundleSchemaVersion
  fingerprint : truthy L (member md "workbook_fingerprint") = false
  minVersion : truthy L (member md "launcher_min_version") = false
  snapshot : ∀ py, orElse L (member fields "pyodide") (.obj []) = .obj py →
    snapshotBytes L (member py "snapshot") = .ok none

/-- Both readings refuse the document, or both accept it and nothing is lost. -/
def SameReading (L : Stdlib) : PyJson → Prop
  | .obj fields => ∀ md ai createdMs, Common L fields md ai createdMs →
      (Iterable fields ai ↔ Checked L fields md ai) ∧
        (Checked L fields md ai → Lossless L fields md)
  | v => truthy L v = true

/-- The payloads the two readings of a document give. -/
def Readings (L : Stdlib) (v : PyJson) (p : Payload) : Prop :=
  buildPayload L v = .ok p ∨ fromDict L (withSchema v) = .ok p

/-- A zip archive whose content types are readable. -/
def Writable (book : Workbook) : Prop := ∃ parts, book = .zip parts ∧ Legible parts

/-- Every reading of the document is above the cap. -/
def Overlarge (L : Stdlib) (v : PyJson) : Prop :=
  ∀ p, Readings L v p → ∀ data, ¬ Encodes L p data

def Takes (L : Stdlib) (book : Workbook) (p : Payload) : Prop :=
  ∃ out, BundleWriter.write L book p = .ok out

/-! ## The call in terms of the two readings -/

variable {L : Stdlib} {describe : BundleError → Text} {w : World} {book : Workbook} {v : PyJson}

theorem takes_iff {p : Payload} :
    Takes L book p ↔ Writable book ∧ ∃ data, Encodes L p data := by
  constructor
  · intro ⟨out, hout⟩
    obtain ⟨parts, data, hbook, hlegible, hencodes, -⟩ := write_ok_iff.mp hout
    exact ⟨⟨parts, hbook, hlegible⟩, data, hencodes⟩
  · intro ⟨⟨parts, hbook, hlegible⟩, data, hencodes⟩
    exact ⟨_, write_ok_iff.mpr ⟨parts, data, hbook, hlegible, hencodes, rfl⟩⟩

theorem succeeded_iff : Succeeded (bundleWrite L describe (World.holding w book) v) ↔
    ∃ p out, buildPayload L v = .ok p ∧ BundleWriter.write L book p = .ok out := by
  unfold bundleWrite
  dsimp only [World.holding]
  cases buildPayload L v with
  | error e => simp [Succeeded, failureReply]
  | ok p =>
      dsimp only
      cases hw : BundleWriter.write L book p with
      | ok out =>
          simp only [Succeeded, Except.ok.injEq, exists_and_left, exists_eq_left', hw]
          simp
      | error e =>
          have hno : ¬ ∃ q out, (Except.ok p : Except BundleError Payload) = .ok q ∧
              BundleWriter.write L book q = .ok out := by
            rintro ⟨q, out, hq, hout⟩
            cases hq
            rw [hw] at hout
            cases hout
          rw [iff_false_right hno]
          cases e <;> simp [Succeeded, failureReply]

theorem fileAfterWrite_ok {p : Payload} {out : Workbook} (hp : buildPayload L v = .ok p)
    (hout : BundleWriter.write L book p = .ok out) :
    fileAfterWrite L (World.holding w book) v = .ok out := by
  simp only [fileAfterWrite, World.holding, hp, hout]

theorem fileAfterWrite_fails
    (h : ∀ p, buildPayload L v = .ok p → ¬ Takes L book p) :
    fileAfterWrite L (World.holding w book) v = .ok book := by
  simp only [fileAfterWrite, World.holding]
  cases hp : buildPayload L v with
  | error e => rfl
  | ok p =>
      dsimp only
      cases hout : BundleWriter.write L book p with
      | error e => rfl
      | ok out => exact absurd ⟨out, hout⟩ (h p hp)

/-- The shapes agree when the mapped payload writes what the reader's would. -/
theorem shapesAgree_iff_readings : ShapesAgree L describe w book v ↔
    (∀ p out, fromDict L (withSchema v) = .ok p → BundleWriter.write L book p = .ok out →
      ∃ d, buildPayload L v = .ok d ∧ BundleWriter.write L book d = .ok out) ∧
    (∀ d, buildPayload L v = .ok d → Takes L book d →
      ∃ p, fromDict L (withSchema v) = .ok p ∧ Takes L book p) := by
  constructor
  · intro h
    constructor
    · intro p out hp hout
      obtain ⟨d, out', hd, hout'⟩ := succeeded_iff.mp (h.succeeds.mpr ⟨p, out, hp, hout⟩)
      have hfile := h.stores p out hp hout
      rw [fileAfterWrite_ok hd hout'] at hfile
      cases hfile
      exact ⟨d, hd, hout'⟩
    · intro d hd ⟨out, hout⟩
      obtain ⟨p, out', hp, hout'⟩ := h.succeeds.mp (succeeded_iff.mpr ⟨d, out, hd, hout⟩)
      exact ⟨p, hp, out', hout'⟩
  · intro ⟨hto, hfrom⟩
    constructor
    · rw [succeeded_iff]
      constructor
      · intro ⟨d, out, hd, hout⟩
        obtain ⟨p, hp, out', hout'⟩ := hfrom d hd ⟨out, hout⟩
        exact ⟨p, out', hp, hout'⟩
      · intro ⟨p, out, hp, hout⟩
        obtain ⟨d, hd, hout'⟩ := hto p out hp hout
        exact ⟨d, out, hd, hout'⟩
    · intro p out hp hout
      obtain ⟨d, hd, hout'⟩ := hto p out hp hout
      exact fileAfterWrite_ok hd hout'
    · intro hnone
      have hno : ∀ d, buildPayload L v = .ok d → ¬ Takes L book d := by
        intro d hd htakes
        obtain ⟨p, hp, -⟩ := hfrom d hd htakes
        exact hnone p hp
      refine ⟨?_, fileAfterWrite_fails hno⟩
      rw [succeeded_iff]
      intro ⟨d, out, hd, hout⟩
      exact hno d hd ⟨out, hout⟩

/-! ## The two readings of an object -/

theorem getKey_ok {v x : PyJson} {key : String} (h : getKey v key = .ok x) :
    ∃ fields, v = .obj fields ∧ x = member fields key := by
  cases v with
  | obj fields =>
      cases h
      exact ⟨fields, rfl, rfl⟩
  | _ => cases h

theorem getKeyOr_ok {v x default : PyJson} {key : String} (h : getKeyOr v key default = .ok x) :
    ∃ fields, v = .obj fields ∧ x = (fields.lookup (lit key)).getD default := by
  cases v with
  | obj fields =>
      cases h
      exact ⟨fields, rfl, rfl⟩
  | _ => cases h

/-- The payload of the direct mapping. -/
def mapped (createdMs : ℤ) (sessions modules : List PyJson) : Payload where
  schemaVersion := bundleSchemaVersion
  createdMs := createdMs
  workbookFingerprint := .null
  launcherMinVersion := .null
  pyodideSnapshot := none
  pyodideEncoding := .null
  aiSessions := .arr sessions
  pythonModules := .arr modules

/-- The payload of the reader. -/
def accepted (createdMs version : ℤ) (md py : List (Text × PyJson)) (snapshot : Option Bytes)
    (sessions modules : List PyJson) : Payload where
  schemaVersion := version
  createdMs := createdMs
  workbookFingerprint := member md "workbook_fingerprint"
  launcherMinVersion := member md "launcher_min_version"
  pyodideSnapshot := snapshot
  pyodideEncoding := member py "encoding"
  aiSessions := .arr sessions
  pythonModules := .arr modules

/-- A creation time counts as zero when it is missing, under either default. -/
theorem created_default (md : List (Text × PyJson)) :
    orElse L ((md.lookup (lit "created_ms")).getD (.int 0)) (.int 0) =
      orElse L (member md "created_ms") (.int 0) := by
  unfold member
  cases md.lookup (lit "created_ms") with
  | none => rfl
  | some x => rfl

theorem orElse_self (fields : List (Text × PyJson)) :
    orElse L (.obj fields) (.obj []) = .obj fields := by
  cases fields <;> rfl

variable {fields md ai : List (Text × PyJson)} {createdMs : ℤ}

theorem buildPayload_mapped {p : Payload} (hs : hasSchema L (.obj fields) = false)
    (h : buildPayload L (.obj fields) = .ok p) :
    ∃ md ai createdMs sessions modules, Common L fields md ai createdMs ∧
      pyList ((ai.lookup (lit "sessions")).getD (.arr [])) = .ok sessions ∧
      pyList ((fields.lookup (lit "python_modules")).getD (.arr [])) = .ok modules ∧
      p = mapped createdMs sessions modules := by
  unfold buildPayload at h
  rw [if_neg (by simp [hs])] at h
  simp only [orElse_self] at h
  obtain ⟨x, hx, h⟩ := bind_ok h
  obtain ⟨y, hy, h⟩ := bind_ok h
  obtain ⟨t, ht, h⟩ := bind_ok h
  obtain ⟨createdMs, hcreated, h⟩ := bind_ok h
  obtain ⟨a, ha, h⟩ := bind_ok h
  obtain ⟨sessions, hsessions, h⟩ := bind_ok h
  obtain ⟨b, hb, h⟩ := bind_ok h
  obtain ⟨modules, hmodules, h⟩ := bind_ok h
  have hp := Except.ok.inj h
  cases hx
  cases hy
  cases hb
  obtain ⟨md, hmd, rfl⟩ := getKeyOr_ok ht
  obtain ⟨ai, hai, rfl⟩ := getKeyOr_ok ha
  rw [created_default] at hcreated
  exact ⟨md, ai, createdMs, sessions, modules, ⟨hmd, hai, hcreated⟩, hsessions, hmodules,
    hp.symm⟩

theorem mapped_buildPayload {sessions modules : List PyJson}
    (hs : hasSchema L (.obj fields) = false) (hc : Common L fields md ai createdMs)
    (hsessions : pyList ((ai.lookup (lit "sessions")).getD (.arr [])) = .ok sessions)
    (hmodules : pyList ((fields.lookup (lit "python_modules")).getD (.arr [])) = .ok modules) :
    buildPayload L (.obj fields) = .ok (mapped createdMs sessions modules) := by
  have hmd := hc.metadata
  have hai := hc.aiHistory
  have hcreated := hc.created
  rw [← created_default] at hcreated
  unfold member at hmd hai
  unfold buildPayload
  rw [if_neg (by simp [hs])]
  simp only [orElse_self, getKey_obj, hmd, hai, hcreated, hsessions, hmodules, getKeyOr, bind,
    Except.bind, pure, Except.pure]
  rfl

theorem lookup_insertField (k : Text) (x : PyJson) (k' : Text) (fs : List (Text × PyJson)) :
    (insertField k x fs).lookup k' = if k' = k then some x else fs.lookup k' := by
  induction fs with
  | nil =>
      by_cases h : k' = k
      · simp [insertField, h]
      · simp [insertField, List.lookup_cons, beq_false_of_ne h, h]
  | cons f fs ih =>
      obtain ⟨k₀, x₀⟩ := f
      rw [insertField]
      by_cases h : k₀ = k
      · subst h
        by_cases hk : k' = k₀
        · simp [hk]
        · simp [List.lookup_cons, beq_false_of_ne hk, hk]
      · rw [if_neg h, List.lookup_cons, List.lookup_cons, ih]
        by_cases hk : k' = k
        · subst hk
          simp [beq_false_of_ne (Ne.symm h)]
        · simp [hk]

theorem member_withSchema (fields : List (Text × PyJson)) {key : String} (h : lit key ≠ lit "schema") :
    member (insertField (lit "schema") (.str (lit bundleNamespace)) fields) key =
      member fields key := by
  unfold member
  rw [lookup_insertField, if_neg h]

theorem ok_bind {α β : Type} (a : α) (f : α → Except BundleError β) :
    (Except.ok a >>= f) = f a := rfl

/-- The document of `fields` that carries the schema. -/
theorem fromDict_accepted {p : Payload} (h : fromDict L (withSchema (.obj fields)) = .ok p) :
    ∃ md ai py createdMs version snapshot sessions modules, Common L fields md ai createdMs ∧
      toInt L (orElse L (member md "schema_version") (.int 0)) = .ok version ∧
      version ≤ bundleSchemaVersion ∧
      orElse L (member fields "pyodide") (.obj []) = .obj py ∧
      snapshotBytes L (member py "snapshot") = .ok snapshot ∧
      asList "ai_history.sessions is not an array" (orElse L (member ai "sessions") (.arr [])) =
        .ok sessions ∧
      asList "python_modules is not an array"
        (orElse L (member fields "python_modules") (.arr [])) = .ok modules ∧
      p = accepted createdMs version md py snapshot sessions modules := by
  have hschema : (insertField (lit "schema") (.str (lit bundleNamespace)) fields).lookup
      (lit "schema") = some (.str (lit bundleNamespace)) := by
    rw [lookup_insertField, if_pos rfl]
  change fromObject L (.obj _) = .ok p at h
  unfold fromObject at h
  simp only [getKey_obj, hschema, Option.getD_some, ok_bind, ne_eq, not_true_eq_false,
    if_false] at h
  obtain ⟨versionField, hversionField, h⟩ := bind_ok h
  obtain ⟨version, hversion, h⟩ := bind_ok h
  by_cases hnew : version > bundleSchemaVersion
  · rw [if_pos hnew] at h
    cases h
  rw [if_neg hnew] at h
  obtain ⟨snapshotField, hsnapshotField, h⟩ := bind_ok h
  obtain ⟨snapshot, hsnapshot, h⟩ := bind_ok h
  obtain ⟨sessionsField, hsessionsField, h⟩ := bind_ok h
  obtain ⟨sessions, hsessions, h⟩ := bind_ok h
  obtain ⟨modules, hmodules, h⟩ := bind_ok h
  obtain ⟨createdField, hcreatedField, h⟩ := bind_ok h
  obtain ⟨createdMs, hcreated, h⟩ := bind_ok h
  obtain ⟨fingerprint, hfingerprint, h⟩ := bind_ok h
  obtain ⟨minVersion, hminVersion, h⟩ := bind_ok h
  obtain ⟨encoding, hencoding, h⟩ := bind_ok h
  have hp := Except.ok.inj h
  obtain ⟨md, hmd, rfl⟩ := getKey_ok hversionField
  obtain ⟨py, hpy, rfl⟩ := getKey_ok hsnapshotField
  obtain ⟨ai, hai, rfl⟩ := getKey_ok hsessionsField
  rw [hmd] at hcreatedField hfingerprint hminVersion
  rw [hpy] at hencoding
  cases hcreatedField
  cases hfingerprint
  cases hminVersion
  cases hencoding
  have hmember {key : String} (hk : lit key ≠ lit "schema") := member_withSchema fields hk
  unfold member at hmember
  rw [hmember (by decide)] at hmd hpy hai hmodules
  exact ⟨md, ai, py, createdMs, version, snapshot, sessions, modules, ⟨hmd, hai, hcreated⟩,
    hversion, Int.not_lt.mp hnew, hpy, hsnapshot, hsessions, hmodules, hp.symm⟩

theorem accepted_fromDict {py : List (Text × PyJson)} {version : ℤ} {snapshot : Option Bytes}
    {sessions modules : List PyJson} (hc : Common L fields md ai createdMs)
    (hversion : toInt L (orElse L (member md "schema_version") (.int 0)) = .ok version)
    (hnew : version ≤ bundleSchemaVersion)
    (hpy : orElse L (member fields "pyodide") (.obj []) = .obj py)
    (hsnapshot : snapshotBytes L (member py "snapshot") = .ok snapshot)
    (hsessions : asList "ai_history.sessions is not an array"
      (orElse L (member ai "sessions") (.arr [])) = .ok sessions)
    (hmodules : asList "python_modules is not an array"
      (orElse L (member fields "python_modules") (.arr [])) = .ok modules) :
    fromDict L (withSchema (.obj fields)) =
      .ok (accepted createdMs version md py snapshot sessions modules) := by
  have hschema : (insertField (lit "schema") (.str (lit bundleNamespace)) fields).lookup
      (lit "schema") = some (.str (lit bundleNamespace)) := by
    rw [lookup_insertField, if_pos rfl]
  have hmember {key : String} (hk : lit key ≠ lit "schema") := member_withSchema fields hk
  have hmd := hc.metadata
  have hai := hc.aiHistory
  have hcreated := hc.created
  rw [← hmember (by decide)] at hmd hai hpy hmodules
  unfold member at hmd hai hpy hmodules hversion hsnapshot hsessions hcreated
  change fromObject L (.obj _) = _
  unfold fromObject
  simp only [getKey_obj, hschema, Option.getD_some, ok_bind, ne_eq, not_true_eq_false,
    if_false, hmd, hai, hpy, hversion, hsnapshot, hsessions, hmodules, hcreated,
    if_neg (Int.not_lt.mpr hnew)]
  rfl

/-- The mapping iterates what it finds in a list field. -/
theorem iterable_iff {x : Option PyJson} :
    iterable x = true ↔ ∃ items, pyList (x.getD (.arr [])) = .ok items := by
  cases x with
  | none => simp [iterable, pyList, pure, Except.pure]
  | some x =>
      cases x <;> simp [iterable, pyList, pure, Except.pure, throw, throwThe, MonadExceptOf.throw]

/-- A list field that both readings take gives both the same items. -/
theorem same_items {x : Option PyJson} {reason : String} {items items' : List PyJson}
    (h : pyList (x.getD (.arr [])) = .ok items)
    (h' : asList reason (orElse L (x.getD .null) (.arr [])) = .ok items') : items = items' := by
  cases x with
  | none =>
      cases h
      cases h'
      rfl
  | some x =>
      cases x with
      | arr xs =>
          cases h
          cases items <;> cases h' <;> rfl
      | str cs =>
          cases h
          cases cs with
          | nil =>
              cases h'
              rfl
          | cons c cs => cases h'
      | obj fs =>
          cases h
          cases fs with
          | nil =>
              cases h'
              rfl
          | cons f fs => cases h'
      | _ => cases h

theorem mapped_iff (hs : hasSchema L (.obj fields) = false)
    (hc : Common L fields md ai createdMs) :
    (∃ d, buildPayload L (.obj fields) = .ok d) ↔ Iterable fields ai := by
  rw [Iterable, iterable_iff, iterable_iff]
  constructor
  · intro ⟨d, hd⟩
    obtain ⟨md', ai', _, sessions, modules, hc', hsessions, hmodules, -⟩ :=
      buildPayload_mapped hs hd
    have hai := hc.aiHistory.symm.trans hc'.aiHistory
    cases hai
    exact ⟨⟨sessions, hsessions⟩, modules, hmodules⟩
  · intro ⟨⟨sessions, hsessions⟩, modules, hmodules⟩
    exact ⟨_, mapped_buildPayload hs hc hsessions hmodules⟩

theorem accepted_iff (hc : Common L fields md ai createdMs) :
    (∃ p, fromDict L (withSchema (.obj fields)) = .ok p) ↔ Checked L fields md ai := by
  constructor
  · intro ⟨p, hp⟩
    obtain ⟨md', ai', py, _, version, snapshot, sessions, modules, hc', hversion, hnew, hpy,
      hsnapshot, hsessions, hmodules, -⟩ := fromDict_accepted hp
    have hmd := hc.metadata.symm.trans hc'.metadata
    have hai := hc.aiHistory.symm.trans hc'.aiHistory
    cases hmd
    cases hai
    exact ⟨⟨version, hversion, hnew⟩, ⟨py, snapshot, hpy, hsnapshot⟩,
      (asList_ok L _ _).mp ⟨sessions, hsessions⟩, (asList_ok L _ _).mp ⟨modules, hmodules⟩⟩
  · intro h
    obtain ⟨version, hversion, hnew⟩ := h.version
    obtain ⟨py, snapshot, hpy, hsnapshot⟩ := h.pyodide
    obtain ⟨sessions, hsessions⟩ := (asList_ok L _ _).mpr h.sessions
    obtain ⟨modules, hmodules⟩ := (asList_ok L _ _).mpr h.modules
    exact ⟨_, accepted_fromDict hc hversion hnew hpy hsnapshot hsessions hmodules⟩

/-! ## The two documents -/

/-- The optional members of the metadata. -/
def extras (L : Stdlib) (p : Payload) : List (Text × PyJson) :=
  optionalField L "launcher_min_version" p.launcherMinVersion ++
    optionalField L "workbook_fingerprint" p.workbookFingerprint

theorem optionalField_nil {key : String} {x : PyJson} :
    optionalField L key x = [] ↔ truthy L x = false := by
  unfold optionalField
  cases truthy L x <;> simp

theorem extras_nil {p : Payload} : extras L p = [] ↔
    truthy L p.launcherMinVersion = false ∧ truthy L p.workbookFingerprint = false := by
  rw [extras, List.append_eq_nil_iff, optionalField_nil, optionalField_nil]

/-- An integer is read off the text that a separator ends. -/
theorem intChars_append_inj {m n : ℤ} {x y : List Char} (hx : Ends x) (hy : Ends y)
    (h : intChars m ++ x = intChars n ++ y) : m = n ∧ x = y := by
  have hbare (k : ℤ) : ∀ c ∈ intChars k, isBare c = true := fun c hc =>
    isBare_of_digit (intChars_mem hc)
  have htake := congrArg (List.takeWhile isBare) h
  have hdrop := congrArg (List.dropWhile isBare) h
  rw [List.takeWhile_append_of_pos (hbare m), List.takeWhile_append_of_pos (hbare n),
    (ends_takeWhile hx).1, (ends_takeWhile hy).1, List.append_nil, List.append_nil] at htake
  rw [List.dropWhile_append_of_pos (hbare m), List.dropWhile_append_of_pos (hbare n),
    (ends_takeWhile hx).2, (ends_takeWhile hy).2] at hdrop
  have hread := congrArg readInt htake
  rw [readInt_intChars, readInt_intChars] at hread
  exact ⟨Option.some.inj hread, hdrop⟩

/-- Members follow with a comma, the object closes with a brace. -/
theorem renderFields_closed {fs : List (Text × PyJson)} {x y : List Char}
    (h : renderFields pythonWriter fs ++ x = renderFields pythonWriter [] ++ y) :
    fs = [] ∧ x = y := by
  cases fs with
  | nil => exact ⟨rfl, List.append_cancel_left h⟩
  | cons f fs =>
      obtain ⟨k, v⟩ := f
      simp only [renderFields, List.cons_append, List.cons.injEq] at h
      exact absurd h.1 (by decide)

/-- The text of a document before its creation time, between its two numbers
and after the metadata. -/
def beforeCreated : List Char :=
  '{' :: (quoted pythonWriter (lit "schema") ++ ':' :: (pythonWriter.gap ++
    (quoted pythonWriter (lit bundleNamespace) ++ ',' :: (pythonWriter.gap ++
      (quoted pythonWriter (lit "metadata") ++ ':' :: (pythonWriter.gap ++
        '{' :: (quoted pythonWriter (lit "created_ms") ++ ':' :: pythonWriter.gap)))))))

def beforeVersion : List Char :=
  ',' :: (pythonWriter.gap ++ (quoted pythonWriter (lit "schema_version") ++
    ':' :: pythonWriter.gap))

def afterMetadata (p : Payload) : List Char :=
  ',' :: (pythonWriter.gap ++ (quoted pythonWriter (lit "ai_history") ++ ':' ::
    (pythonWriter.gap ++ (render pythonWriter (.obj [(lit "sessions", p.aiSessions)]) ++
      ',' :: (pythonWriter.gap ++ (quoted pythonWriter (lit "python_modules") ++ ':' ::
        (pythonWriter.gap ++ render pythonWriter p.pythonModules)))))))

theorem document_text (p : Payload) (pyodide : List (Text × PyJson)) :
    render pythonWriter (document L p pyodide) =
      beforeCreated ++ (intChars p.createdMs ++ (beforeVersion ++ (intChars p.schemaVersion ++
        (renderFields pythonWriter (extras L p) ++ (afterMetadata p ++
          renderFields pythonWriter pyodide))))) := by
  simp only [document, metadataFields, extras, render, renderFields, beforeCreated, beforeVersion,
    afterMetadata, List.cons_append, List.nil_append, List.append_assoc]

/-- A document without optional members is the mapped one only if it drops
nothing. -/
theorem document_inj {p d : Payload} {pyodide : List (Text × PyJson)}
    (hcreated : p.createdMs = d.createdMs) (hsessions : p.aiSessions = d.aiSessions)
    (hmodules : p.pythonModules = d.pythonModules) (hextras : extras L d = [])
    (h : render pythonWriter (document L p pyodide) = render pythonWriter (document L d [])) :
    p.schemaVersion = d.schemaVersion ∧ extras L p = [] ∧ pyodide = [] := by
  have hafter : afterMetadata p = afterMetadata d := by
    simp only [afterMetadata, hsessions, hmodules]
  rw [document_text, document_text, hcreated, hextras, hafter] at h
  have htail := List.append_cancel_left (List.append_cancel_left (List.append_cancel_left h))
  have hversion := intChars_append_inj (renderFields_ends _ _) (renderFields_ends _ _) htail
  have hmeta := renderFields_closed hversion.2
  have hpyodide : renderFields pythonWriter pyodide ++ [] = renderFields pythonWriter [] ++ [] := by
    rw [List.append_cancel_left hmeta.2]
  exact ⟨hversion.1, hmeta.1, (renderFields_closed hpyodide).1⟩

theorem jsonBytes_inj {a b : PyJson} (h : jsonBytes a = jsonBytes b) :
    render pythonWriter a = render pythonWriter b := by
  have hdecode := congrArg decodeUtf8 h
  rw [jsonBytes, jsonBytes, decodeUtf8_encodeUtf8, decodeUtf8_encodeUtf8] at hdecode
  exact Option.some.inj hdecode

theorem wrap_inj {a b : Bytes} (h : wrapXmlEnvelope a = wrapXmlEnvelope b) : a = b := by
  have hbody := List.append_cancel_left (List.append_cancel_left h)
  exact List.append_cancel_right hbody

/-- Two payloads that leave the same file have the same document text. -/
theorem write_inj {p d : Payload} {out : Workbook} (hp : BundleWriter.write L book p = .ok out)
    (hd : BundleWriter.write L book d = .ok out) :
    ∃ data data', toDict L p = .ok data ∧ toDict L d = .ok data' ∧
      render pythonWriter data = render pythonWriter data' := by
  obtain ⟨data, hdata, -, hstored⟩ := write_stored hp
  obtain ⟨data', hdata', -, hstored'⟩ := write_stored hd
  have hwrapped := Except.ok.inj (hstored.symm.trans hstored')
  exact ⟨data, data', hdata, hdata', jsonBytes_inj (wrap_inj hwrapped)⟩

theorem write_congr {p d : Payload} (h : toDict L p = toDict L d) :
    BundleWriter.write L book p = BundleWriter.write L book d := by
  simp only [BundleWriter.write, h]

theorem snapshotFields_nil {p : Payload} (h : snapshotFields L p = .ok []) :
    p.pyodideSnapshot = none := by
  obtain ⟨hnone, -⟩ | ⟨blob, -, hfields⟩ := snapshotFields_cases h
  · exact hnone
  · cases hfields

/-- Both readings of a document that neither refuses, side by side. -/
structure BothRead (L : Stdlib) (fields md : List (Text × PyJson)) (p d : Payload) where
  py : List (Text × PyJson)
  createdMs : ℤ
  version : ℤ
  snapshot : Option Bytes
  sessions : List PyJson
  modules : List PyJson
  hversion : toInt L (orElse L (member md "schema_version") (.int 0)) = .ok version
  hpy : orElse L (member fields "pyodide") (.obj []) = .obj py
  hsnapshot : snapshotBytes L (member py "snapshot") = .ok snapshot
  haccepted : p = accepted createdMs version md py snapshot sessions modules
  hmapped : d = mapped createdMs sessions modules

theorem bothRead {p d : Payload} (hs : hasSchema L (.obj fields) = false)
    (hp : fromDict L (withSchema (.obj fields)) = .ok p)
    (hd : buildPayload L (.obj fields) = .ok d) :
    ∃ md ai createdMs, Common L fields md ai createdMs ∧ Nonempty (BothRead L fields md p d) := by
  obtain ⟨md, ai, py, createdMs, version, snapshot, sessions, modules, hc, hversion, -, hpy,
    hsnapshot, hsessions, hmodules, rfl⟩ := fromDict_accepted hp
  obtain ⟨md', ai', createdMs', sessions', modules', hc', hsessions', hmodules', rfl⟩ :=
    buildPayload_mapped hs hd
  have hmd := hc.metadata.symm.trans hc'.metadata
  have hai := hc.aiHistory.symm.trans hc'.aiHistory
  cases hmd
  cases hai
  have hcreated := hc.created.symm.trans hc'.created
  cases hcreated
  have hsame := same_items hsessions' hsessions
  have hsame' := same_items hmodules' hmodules
  subst hsame
  subst hsame'
  exact ⟨md, ai, createdMs, hc, ⟨⟨py, createdMs, version, snapshot, sessions', modules', hversion,
    hpy, hsnapshot, rfl, rfl⟩⟩⟩

theorem BothRead.same_document {p d : Payload} (b : BothRead L fields md p d)
    (h : Lossless L fields md) : toDict L p = toDict L d := by
  obtain ⟨py, createdMs, version, snapshot, sessions, modules, hversion, hpy, hsnapshot, rfl,
    rfl⟩ := b
  have hone := hversion.symm.trans h.version
  cases hone
  have hnone := hsnapshot.symm.trans (h.snapshot py hpy)
  cases hnone
  have hmeta : metadataFields L (accepted createdMs bundleSchemaVersion md py none sessions
      modules) = metadataFields L (mapped createdMs sessions modules) := by
    simp only [metadataFields, accepted, mapped, optionalField, h.minVersion, h.fingerprint]
    rfl
  simp only [toDict, snapshotFields, accepted, mapped, document] at hmeta ⊢
  rw [hmeta]

theorem BothRead.lossless {p d : Payload} {out : Workbook} (b : BothRead L fields md p d)
    (hp : BundleWriter.write L book p = .ok out) (hd : BundleWriter.write L book d = .ok out) :
    Lossless L fields md := by
  obtain ⟨data, data', hdata, hdata', hrender⟩ := write_inj hp hd
  obtain ⟨pyodide, hpyodide, rfl⟩ := toDict_ok hdata
  obtain ⟨pyodide', hpyodide', rfl⟩ := toDict_ok hdata'
  obtain ⟨py, createdMs, version, snapshot, sessions, modules, hversion, hpy, hsnapshot,
    haccepted, hmapped⟩ := b
  have hempty : pyodide' = [] := by
    rw [hmapped] at hpyodide'
    exact (Except.ok.inj hpyodide').symm
  subst hempty
  have hcreated : p.createdMs = d.createdMs := by rw [haccepted, hmapped, accepted, mapped]
  have hsessions : p.aiSessions = d.aiSessions := by rw [haccepted, hmapped, accepted, mapped]
  have hmodules : p.pythonModules = d.pythonModules := by
    rw [haccepted, hmapped, accepted, mapped]
  have hextras : extras L d = [] := by
    rw [hmapped]
    rfl
  obtain ⟨hsame, hnil, rfl⟩ := document_inj hcreated hsessions hmodules hextras hrender
  obtain ⟨hminVersion, hfingerprint⟩ := extras_nil.mp hnil
  have hnone := snapshotFields_nil hpyodide
  rw [haccepted] at hsame hminVersion hfingerprint hnone
  rw [hmapped] at hsame
  have hone : version = bundleSchemaVersion := hsame
  have hno : snapshot = none := hnone
  refine ⟨hone ▸ hversion, hfingerprint, hminVersion, ?_⟩
  intro py' hpy'
  have heq := hpy.symm.trans hpy'
  cases heq
  rw [hsnapshot, hno]

/-- The agreement on an object, behind the question whether a payload fits. -/
theorem sameReading_of_agree (hs : hasSchema L (.obj fields) = false)
    (hto : ∀ p out, fromDict L (withSchema (.obj fields)) = .ok p →
      BundleWriter.write L book p = .ok out →
      ∃ d, buildPayload L (.obj fields) = .ok d ∧ BundleWriter.write L book d = .ok out)
    (hfit : ∃ p, fromDict L (withSchema (.obj fields)) = .ok p ∧ Takes L book p) :
    SameReading L (.obj fields) := by
  obtain ⟨p, hp, out, hout⟩ := hfit
  obtain ⟨d, hd, hout'⟩ := hto p out hp hout
  intro md ai createdMs hc
  obtain ⟨md', ai', createdMs', hc', ⟨b⟩⟩ := bothRead hs hp hd
  have hmd := hc.metadata.symm.trans hc'.metadata
  cases hmd
  have hiterable := (mapped_iff hs hc).mp ⟨d, hd⟩
  have hchecked := (accepted_iff hc).mp ⟨p, hp⟩
  exact ⟨iff_of_true hiterable hchecked, fun _ => b.lossless hout hout'⟩

theorem agree_of_sameReading (hs : hasSchema L (.obj fields) = false)
    (h : SameReading L (.obj fields)) :
    (∀ p, fromDict L (withSchema (.obj fields)) = .ok p →
      ∃ d, buildPayload L (.obj fields) = .ok d ∧ toDict L p = toDict L d) ∧
    (∀ d, buildPayload L (.obj fields) = .ok d →
      ∃ p, fromDict L (withSchema (.obj fields)) = .ok p ∧ toDict L p = toDict L d) := by
  have hsame {md ai : List (Text × PyJson)} {createdMs : ℤ} (hc : Common L fields md ai createdMs)
      {p d : Payload} (hp : fromDict L (withSchema (.obj fields)) = .ok p)
      (hd : buildPayload L (.obj fields) = .ok d) : toDict L p = toDict L d := by
    obtain ⟨md', ai', createdMs', hc', ⟨b⟩⟩ := bothRead hs hp hd
    exact b.same_document ((h md' ai' createdMs' hc').2 ((accepted_iff hc').mp ⟨p, hp⟩))
  constructor
  · intro p hp
    obtain ⟨md, ai, py, createdMs, version, snapshot, sessions, modules, hc, -⟩ :=
      fromDict_accepted hp
    have hiterable := (h md ai createdMs hc).1.mpr ((accepted_iff hc).mp ⟨p, hp⟩)
    obtain ⟨d, hd⟩ := (mapped_iff hs hc).mpr hiterable
    exact ⟨d, hd, hsame hc hp hd⟩
  · intro d hd
    obtain ⟨md, ai, createdMs, sessions, modules, hc, -⟩ := buildPayload_mapped hs hd
    have hchecked := (h md ai createdMs hc).1.mp ((mapped_iff hs hc).mp ⟨d, hd⟩)
    obtain ⟨p, hp⟩ := (accepted_iff hc).mpr hchecked
    exact ⟨p, hp, hsame hc hp hd⟩

/-! ## Values that are no objects -/

theorem fromDict_other (hv : ∀ fields, v ≠ .obj fields) (p : Payload) :
    fromDict L (withSchema v) ≠ .ok p := by
  intro h
  cases v with
  | obj fields => exact hv fields rfl
  | _ => cases h

theorem sameReading_other (hv : ∀ fields, v ≠ .obj fields) :
    SameReading L v ↔ truthy L v = true := by
  cases v with
  | obj fields => exact absurd rfl (hv fields)
  | _ => rfl

theorem hasSchema_other (hv : ∀ fields, v ≠ .obj fields) : hasSchema L v = false := by
  cases v with
  | obj fields => exact absurd rfl (hv fields)
  | _ => rfl

/-- A falsy value is mapped to an empty document, any other is refused. -/
theorem buildPayload_other (hv : ∀ fields, v ≠ .obj fields) :
    (∃ d, buildPayload L v = .ok d) ↔ truthy L v = false := by
  rw [buildPayload, if_neg (by simp [hasSchema_other hv])]
  by_cases htruthy : truthy L v = true
  · have hroot : orElse L v (.obj []) = v := by
      rw [orElse, if_pos htruthy]
    simp only [hroot, htruthy, Bool.true_eq_false, iff_false]
    intro h
    obtain ⟨d, hd⟩ := h
    obtain ⟨x, hx, -⟩ := bind_ok hd
    obtain ⟨fields, hobj, -⟩ := getKey_ok hx
    exact hv fields hobj
  · have hroot : orElse L v (.obj []) = .obj [] := by
      rw [orElse, if_neg htruthy]
    simp only [hroot, htruthy, iff_true]
    exact ⟨mapped 0 [] [], rfl⟩

theorem takes_none_iff :
    (∀ p, Readings L v p → ¬ Takes L book p) ↔ ¬ Writable book ∨ Overlarge L v := by
  constructor
  · intro h
    by_cases hwritable : Writable book
    · right
      intro p hp data hdata
      exact h p hp (takes_iff.mpr ⟨hwritable, data, hdata⟩)
    · exact .inl hwritable
  · intro h p hp htakes
    obtain ⟨hwritable, data, hdata⟩ := takes_iff.mp htakes
    cases h with
    | inl hbook => exact hbook hwritable
    | inr hlarge => exact hlarge p hp data hdata

/-- Without a truthy schema the two shapes agree exactly when both readings
refuse the document or both accept it with nothing lost, unless the workbook
or the cap refuses whatever they read. -/
theorem shapesAgree_iff (hs : hasSchema L v = false) : ShapesAgree L describe w book v ↔
    SameReading L v ∨ ¬ Writable book ∨ Overlarge L v := by
  rw [shapesAgree_iff_readings, ← takes_none_iff]
  constructor
  · intro ⟨hto, hfrom⟩
    by_cases hfit : ∃ p, Readings L v p ∧ Takes L book p
    · left
      have haccepted : ∃ p, fromDict L (withSchema v) = .ok p ∧ Takes L book p := by
        obtain ⟨p, hp | hp, htakes⟩ := hfit
        · exact hfrom p hp htakes
        · exact ⟨p, hp, htakes⟩
      cases v with
      | obj fields => exact sameReading_of_agree hs hto haccepted
      | _ =>
          obtain ⟨p, hp, -⟩ := haccepted
          cases hp
    · right
      intro p hp htakes
      exact hfit ⟨p, hp, htakes⟩
  · intro h
    cases h with
    | inr hnone =>
        constructor
        · intro p out hp hout
          exact absurd ⟨out, hout⟩ (hnone p (.inr hp))
        · intro d hd htakes
          exact absurd htakes (hnone d (.inl hd))
    | inl hsame =>
        by_cases hv : ∃ fields, v = .obj fields
        · obtain ⟨fields, rfl⟩ := hv
          obtain ⟨hto, hfrom⟩ := agree_of_sameReading hs hsame
          constructor
          · intro p out hp hout
            obtain ⟨d, hd, hdoc⟩ := hto p hp
            exact ⟨d, hd, (write_congr hdoc).symm.trans hout⟩
          · intro d hd ⟨out, hout⟩
            obtain ⟨p, hp, hdoc⟩ := hfrom d hd
            exact ⟨p, hp, out, (write_congr hdoc).trans hout⟩
        · have hother : ∀ fields, v ≠ .obj fields := fun fields hobj => hv ⟨fields, hobj⟩
          constructor
          · intro p out hp _
            exact absurd hp (fromDict_other hother p)
          · intro d hd _
            have hfalsy := (buildPayload_other hother).mp ⟨d, hd⟩
            rw [(sameReading_other hother).mp hsame] at hfalsy
            cases hfalsy

/-! ## Two documents -/

/-- A worker that has nothing else to do. -/
def idleWorld : World where
  jsonError := []
  shownMethod := []
  snippet := { captured := some ([], []), ended := .finished none }
  backend := .error ([], [])
  books := .error []
  range := .error []
  clientMissing := none
  file := .ok minimalWorkbook

/-- A document of the direct shape whose version is the one the mapping writes. -/
def directDocument : PyJson :=
  .obj [(lit "metadata", .obj [(lit "created_ms", .int 42), (lit "schema_version", .int 1)]),
    (lit "ai_history", .obj [(lit "sessions", .arr [.obj [(lit "session_id", .str (lit "test"))]])]),
    (lit "python_modules", .arr [.str (lit "pandas")])]

theorem shapesAgree_directDocument :
    ShapesAgree plainStdlib (fun _ => []) idleWorld minimalWorkbook directDocument := by
  apply (shapesAgree_iff (by rfl)).mpr
  left
  intro md ai createdMs hc
  cases hc.metadata
  cases hc.aiHistory
  refine ⟨iff_of_true ⟨rfl, rfl⟩ ⟨⟨1, rfl, le_rfl⟩, ⟨[], none, rfl, rfl⟩, rfl, rfl⟩, fun _ => ?_⟩
  refine ⟨rfl, rfl, rfl, ?_⟩
  intro py hpy
  cases hpy
  rfl

/-- A null document overwrites the stored history with an empty bundle. -/
theorem null_overwrites : ∃ book,
    BundleWriter.write plainStdlib minimalWorkbook (sessionPayload "hi") = .ok book ∧
      hasSchema plainStdlib .null = false ∧
      Succeeded (bundleWrite plainStdlib (fun _ => []) (World.holding idleWorld book) .null) ∧
      (∃ out, fileAfterWrite plainStdlib (World.holding idleWorld book) .null = .ok out ∧
        BundleWriter.write plainStdlib book (mapped 0 [] []) = .ok out) ∧
      ¬ ShapesAgree plainStdlib (fun _ => []) idleWorld book .null := by
  obtain ⟨book, hbook⟩ := write_minimal (p := sessionPayload "hi") rfl (by decide +kernel)
  obtain ⟨parts, data, -, hlegible, -, rfl⟩ := write_ok_iff.mp hbook
  have hsize : (wrapXmlEnvelope (jsonBytes (document plainStdlib (mapped 0 [] []) []))).length ≤
      maxBundleBytes := by decide +kernel
  have hencodes : Encodes plainStdlib (mapped 0 [] []) (document plainStdlib (mapped 0 [] []) []) :=
    ⟨rfl, hsize⟩
  have hout := write_ok_iff.mpr ⟨_, _, rfl, legible_updated
    (wrapXmlEnvelope (jsonBytes data)) hlegible, hencodes, rfl⟩
  have hd : buildPayload plainStdlib .null = .ok (mapped 0 [] []) := rfl
  have hdone : Succeeded (bundleWrite plainStdlib (fun _ => []) (World.holding idleWorld
      (.zip (updated (wrapXmlEnvelope (jsonBytes data)) parts))) .null) :=
    succeeded_iff.mpr ⟨_, _, hd, hout⟩
  refine ⟨_, hbook, rfl, hdone, ⟨_, fileAfterWrite_ok hd hout, hout⟩, ?_⟩
  intro h
  exact (h.rejects fun p hp => by cases hp).1 hdone

end Xlpod.BundleShapes
