import Xlpod.BundleNormalForm

/-!
# Which exceptions a bundle read raises

The reader answers with a payload or an exception. An exception of the
interpreter escapes where a value of the wrong type is asked for a key or
converted to an integer, where `zipfile` raises anything but `BadZipFile`, where
`json.loads` gives up on a text for its digits or its nesting, and where a
snapshot is too large for the memory. Sequencing decides which of them a document
reaches: a newer version, an undecodable snapshot or a list field of another type
ends the read before the later members are looked at.
-/
namespace Xlpod.BundleErrors
open Xlpod.JsonText Xlpod.ByteEncodings Xlpod.BundlePayload Xlpod.BundleFile Xlpod.BundleArchive
open Xlpod.BundleRoundTrip Xlpod.BundleShapes Xlpod.BundleNormalForm

/-! ## Escaping exceptions -/

/-- The subclasses of `BundleError`. -/
def isBundleError : BundleError → Prop
  | .python _ => False
  | _ => True

/-- A result or one of the bundle's own errors. -/
def Contained {α : Type} (x : Except BundleError α) : Prop :=
  (∃ a, x = .ok a) ∨ ∃ e, x = .error e ∧ isBundleError e

section Sequencing
variable {α β : Type} {x : Except BundleError α} {f : α → Except BundleError β}

@[simp] theorem contained_ok (a : α) : Contained (.ok a) := .inl ⟨a, rfl⟩

@[simp] theorem contained_pure (a : α) : Contained (pure a) := .inl ⟨a, rfl⟩

@[simp] theorem contained_error (e : BundleError) :
    Contained (.error e : Except BundleError α) ↔ isBundleError e := by
  simp [Contained]

@[simp] theorem contained_throw (e : BundleError) :
    Contained (throw e : Except BundleError α) ↔ isBundleError e :=
  contained_error e

/-- A sequence is contained when its first part is, and its second on every
result of the first. -/
theorem contained_bind : Contained (x >>= f) ↔
    Contained x ∧ ∀ a, x = .ok a → Contained (f a) := by
  cases x with
  | error e => simp [bind, Except.bind]
  | ok a => simp [bind, Except.bind]

end Sequencing

/-! ## The conversions -/

/-- What `get` is called on behind `or {}`. -/
def objectOrFalsy (L : Stdlib) : PyJson → Bool
  | .obj _ => true
  | v => !truthy L v

/-- What `int` takes behind `or 0`. -/
def intOrFalsy (L : Stdlib) : PyJson → Bool
  | .real l => L.floatIsZero l || (L.intOfFloat l).isOk
  | .str s => s.isEmpty || (L.intOfStr s).isOk
  | .arr items => items.isEmpty
  | .obj fields => fields.isEmpty
  | _ => true

/-- The snapshot does not decode, or what it decodes to fits into the memory. -/
def inMemory (L : Stdlib) : PyJson → Bool
  | .str s => s.isEmpty ||
      match b64decode s with
      | none => true
      | some compressed => !L.exhausts compressed
  | _ => true

section Conversions
variable {L : Stdlib}

theorem getKey_contained {v : PyJson} {key : String} :
    Contained (getKey (orElse L v (.obj [])) key) ↔ objectOrFalsy L v = true := by
  unfold orElse
  by_cases h : truthy L v
  · rw [if_pos h]
    cases v <;> simp_all [getKey, objectOrFalsy, isBundleError]
  · rw [if_neg h]
    cases v <;> simp_all [getKey, objectOrFalsy]

theorem toInt_contained {v : PyJson} :
    Contained (toInt L (orElse L v (.int 0))) ↔ intOrFalsy L v = true := by
  unfold orElse
  cases v with
  | null => simp [truthy, toInt, intOrFalsy]
  | bool b => cases b <;> simp [truthy, toInt, intOrFalsy]
  | int n => by_cases hn : n = 0 <;> simp [truthy, toInt, intOrFalsy, hn]
  | real l =>
      by_cases hl : L.floatIsZero l
      · simp [truthy, toInt, intOrFalsy, hl]
      · cases hi : L.intOfFloat l <;>
          simp [truthy, toInt, intOrFalsy, hl, hi, Except.mapError, isBundleError, Except.isOk,
            Except.toBool]
  | str s =>
      cases s with
      | nil => simp [truthy, toInt, intOrFalsy]
      | cons c cs =>
          cases hi : L.intOfStr (c :: cs) <;>
            simp [truthy, toInt, intOrFalsy, hi, Except.mapError, isBundleError, Except.isOk,
              Except.toBool]
  | arr items => cases items <;> simp [truthy, toInt, intOrFalsy, isBundleError]
  | obj fields => cases fields <;> simp [truthy, toInt, intOrFalsy, isBundleError]

theorem asList_contained (reason : String) (v : PyJson) : Contained (asList reason v) := by
  cases v <;> simp [asList, isBundleError]

theorem contained_map {α β : Type} {f : α → β} {x : Except BundleError α} :
    Contained (f <$> x) ↔ Contained x := by
  cases x <;> simp [Functor.map, Except.map]

theorem snapshotBytes_contained {v : PyJson} :
    Contained (snapshotBytes L v) ↔ inMemory L v = true := by
  cases v with
  | str s =>
      rw [snapshotBytes, inMemory]
      by_cases hs : s.isEmpty
      · simp [hs]
      · rw [if_neg hs, contained_map, decodeSnapshot, Bool.eq_false_iff.mpr hs, Bool.false_or]
        cases b64decode s with
        | none => simp [isBundleError]
        | some compressed =>
            dsimp only
            by_cases hmemory : L.exhausts compressed = true
            · simp [hmemory, isBundleError]
            · rw [if_neg hmemory]
              cases L.decompress compressed <;> simp [hmemory, isBundleError]
  | _ => simp [snapshotBytes, inMemory]

end Conversions

/-! ## The document -/

section Document
variable (L : Stdlib) (fields : List (Text × PyJson))

/-- The version is known. -/
def Known : Prop :=
  ∃ n, toInt L (orElse L (member (sectionOf L (.obj fields) "metadata") "schema_version") (.int 0)) =
    .ok n ∧ n ≤ bundleSchemaVersion

/-- The snapshot is absent or decodes. -/
def Decodes : Prop :=
  ∃ b, snapshotBytes L (member (sectionOf L (.obj fields) "pyodide") "snapshot") = .ok b

/-- The members have the types their readings ask for, as far as they are read. -/
structure Handled : Prop where
  metadata : objectOrFalsy L (member fields "metadata") = true
  version : intOrFalsy L (member (sectionOf L (.obj fields) "metadata") "schema_version") = true
  pyodide : Known L fields → objectOrFalsy L (member fields "pyodide") = true
  snapshot : Known L fields →
    inMemory L (member (sectionOf L (.obj fields) "pyodide") "snapshot") = true
  aiHistory : Known L fields → Decodes L fields →
    objectOrFalsy L (member fields "ai_history") = true
  created : Known L fields → Decodes L fields →
    listOrFalsy L (member (sectionOf L (.obj fields) "ai_history") "sessions") = true →
    listOrFalsy L (member fields "python_modules") = true →
    intOrFalsy L (member (sectionOf L (.obj fields) "metadata") "created_ms") = true

variable {L fields}

theorem orElse_section {key : String} (h : objectOrFalsy L (member fields key) = true) :
    orElse L (member fields key) (.obj []) = .obj (sectionOf L (.obj fields) key) := by
  unfold sectionOf
  dsimp only
  cases hv : member fields key with
  | obj fs => rw [orElse_self]
  | _ =>
      rw [hv] at h
      simp only [objectOrFalsy, Bool.not_eq_true'] at h
      simp only [orElse, h, Bool.false_eq_true, if_false]

theorem fromObject_otherSchema (h : member fields "schema" ≠ .str (lit bundleNamespace)) :
    Contained (fromObject L (.obj fields)) := by
  unfold member at h
  unfold fromObject
  simp only [getKey_obj, ok_bind]
  cases hs : (fields.lookup (lit "schema")).getD .null with
  | str s =>
      have hne : s ≠ lit bundleNamespace := by
        intro heq
        exact h (heq ▸ hs)
      dsimp only
      rw [if_pos hne]
      simp [contained_bind, isBundleError]
  | _ => simp [contained_bind, isBundleError]

/-- What is left of the reading behind a snapshot that decodes. -/
theorem lists_contained {sessions modules created : PyJson} {k : List PyJson → List PyJson → ℤ →
      Except BundleError Payload} (hk : ∀ a b c, Contained (k a b c)) :
    Contained (do
      let a ← asList "ai_history.sessions is not an array" (orElse L sessions (.arr []))
      let b ← asList "python_modules is not an array" (orElse L modules (.arr []))
      let c ← toInt L (orElse L created (.int 0))
      k a b c) ↔
    (listOrFalsy L sessions = true → listOrFalsy L modules = true →
      intOrFalsy L created = true) := by
  simp only [contained_bind, asList_contained, true_and, toInt_contained, hk, implies_true,
    and_true]
  rw [← asList_ok L "ai_history.sessions is not an array",
    ← asList_ok L "python_modules is not an array"]
  constructor
  · intro h hsessions hmodules
    obtain ⟨a, ha⟩ := hsessions
    obtain ⟨b, hb⟩ := hmodules
    exact h a ha b hb
  · intro h a ha b hb
    exact h ⟨a, ha⟩ ⟨b, hb⟩

theorem contained_of_error {α β : Type} {x : Except BundleError α} {f : α → Except BundleError β}
    {e : BundleError} (hx : Contained x) (he : x = .error e) : Contained (x >>= f) := by
  subst he
  exact .inr ⟨e, rfl, (contained_error e).mp hx⟩

/-- What is left of the reading behind a version that is known. -/
theorem sections_contained {created : PyJson}
    {k : Option Bytes → List PyJson → List PyJson → ℤ → Except BundleError Payload}
    (hk : objectOrFalsy L (member fields "pyodide") = true → ∀ s a b c, Contained (k s a b c)) :
    Contained (do
      let text ← getKey (orElse L (member fields "pyodide") (.obj [])) "snapshot"
      let s ← snapshotBytes L text
      let sessions ← getKey (orElse L (member fields "ai_history") (.obj [])) "sessions"
      let a ← asList "ai_history.sessions is not an array" (orElse L sessions (.arr []))
      let b ← asList "python_modules is not an array"
        (orElse L (member fields "python_modules") (.arr []))
      let c ← toInt L (orElse L created (.int 0))
      k s a b c) ↔
    objectOrFalsy L (member fields "pyodide") = true ∧
      inMemory L (member (sectionOf L (.obj fields) "pyodide") "snapshot") = true ∧
      (Decodes L fields → objectOrFalsy L (member fields "ai_history") = true ∧
        (listOrFalsy L (member (sectionOf L (.obj fields) "ai_history") "sessions") = true →
          listOrFalsy L (member fields "python_modules") = true →
          intOrFalsy L created = true)) := by
  by_cases hpy : objectOrFalsy L (member fields "pyodide") = true
  · rw [and_iff_right hpy, orElse_section hpy, getKey_obj, ok_bind, ← snapshotBytes_contained]
    cases hsnapshot : snapshotBytes L (member (sectionOf L (.obj fields) "pyodide") "snapshot") with
    | error e =>
        have hnone : ¬ Decodes L fields := by
          intro hdecodes
          obtain ⟨b, hb⟩ := hdecodes
          cases hsnapshot.symm.trans hb
        unfold member at hsnapshot
        rw [hsnapshot, contained_bind]
        constructor
        · intro h
          exact ⟨h.1, fun hdecodes => absurd hdecodes hnone⟩
        · intro h
          exact ⟨h.1, fun a ha => by cases ha⟩
    | ok snapshot =>
        have hdecodes : Decodes L fields := ⟨snapshot, hsnapshot⟩
        unfold member at hsnapshot
        rw [hsnapshot, ok_bind, forall_prop_of_true hdecodes, and_iff_right (contained_ok _)]
        by_cases hai : objectOrFalsy L (member fields "ai_history") = true
        · rw [and_iff_right hai, orElse_section hai, getKey_obj, ok_bind]
          exact lists_contained fun a b c => hk hpy snapshot a b c
        · refine iff_of_false ?_ fun h => hai h.1
          intro hc
          exact hai (getKey_contained.mp (contained_bind.mp hc).1)
  · refine iff_of_false ?_ fun h => hpy h.1
    intro hc
    exact hpy (getKey_contained.mp (contained_bind.mp hc).1)

theorem handled_of_unknown (hmd : objectOrFalsy L (member fields "metadata") = true)
    (hint : intOrFalsy L (member (sectionOf L (.obj fields) "metadata") "schema_version") = true)
    (hunknown : ¬ Known L fields) : Handled L fields where
  metadata := hmd
  version := hint
  pyodide hknown := absurd hknown hunknown
  snapshot hknown := absurd hknown hunknown
  aiHistory hknown := absurd hknown hunknown
  created hknown := absurd hknown hunknown

theorem handled_of_known (hmd : objectOrFalsy L (member fields "metadata") = true)
    (hint : intOrFalsy L (member (sectionOf L (.obj fields) "metadata") "schema_version") = true)
    (hknown : Known L fields) : Handled L fields ↔
      objectOrFalsy L (member fields "pyodide") = true ∧
      inMemory L (member (sectionOf L (.obj fields) "pyodide") "snapshot") = true ∧
      (Decodes L fields → objectOrFalsy L (member fields "ai_history") = true ∧
        (listOrFalsy L (member (sectionOf L (.obj fields) "ai_history") "sessions") = true →
          listOrFalsy L (member fields "python_modules") = true →
          intOrFalsy L (member (sectionOf L (.obj fields) "metadata") "created_ms") = true)) := by
  constructor
  · intro h
    exact ⟨h.pyodide hknown, h.snapshot hknown, fun hdecodes => ⟨h.aiHistory hknown hdecodes,
      h.created hknown hdecodes⟩⟩
  · intro h
    exact ⟨hmd, hint, fun _ => h.1, fun _ => h.2.1, fun _ hdecodes => (h.2.2 hdecodes).1,
      fun _ hdecodes => (h.2.2 hdecodes).2⟩

theorem fromObject_contained (h : member fields "schema" = .str (lit bundleNamespace)) :
    Contained (fromObject L (.obj fields)) ↔ Handled L fields := by
  unfold fromObject
  have hmember (key : String) :
      getKey (.obj fields : PyJson) key = .ok (member fields key) := rfl
  simp only [hmember, ok_bind, h, ne_eq, not_true_eq_false, if_false]
  by_cases hmd : objectOrFalsy L (member fields "metadata") = true
  · rw [orElse_section hmd]
    have hmdMember (key : String) :
        getKey (.obj (sectionOf L (.obj fields) "metadata") : PyJson) key =
          .ok (member (sectionOf L (.obj fields) "metadata") key) := rfl
    simp only [hmdMember, ok_bind]
    by_cases hint : intOrFalsy L
        (member (sectionOf L (.obj fields) "metadata") "schema_version") = true
    · have hcontained := toInt_contained.mpr hint
      cases hversion : toInt L
          (orElse L (member (sectionOf L (.obj fields) "metadata") "schema_version") (.int 0)) with
      | error e =>
          have hunknown : ¬ Known L fields := by
            intro hknown
            obtain ⟨n, hn, -⟩ := hknown
            cases hversion.symm.trans hn
          rw [hversion, contained_error] at hcontained
          exact iff_of_true (.inr ⟨e, rfl, hcontained⟩) (handled_of_unknown hmd hint hunknown)
      | ok version =>
          rw [ok_bind]
          by_cases hnew : version > bundleSchemaVersion
          · have hunknown : ¬ Known L fields := by
              intro hknown
              obtain ⟨n, hn, hle⟩ := hknown
              rw [Except.ok.inj (hversion.symm.trans hn)] at hnew
              omega
            rw [if_pos hnew]
            exact iff_of_true (.inr ⟨_, rfl, trivial⟩) (handled_of_unknown hmd hint hunknown)
          · have hknown : Known L fields := ⟨version, hversion, Int.not_lt.mp hnew⟩
            rw [if_neg hnew, handled_of_known hmd hint hknown]
            apply sections_contained
            intro hpy s a b c
            rw [orElse_section hpy]
            exact contained_pure _
    · refine iff_of_false ?_ fun hh => hint hh.version
      intro hc
      exact hint (toInt_contained.mp (contained_bind.mp hc).1)
  · refine iff_of_false ?_ fun hh => hmd hh.metadata
    intro hc
    exact hmd (getKey_contained.mp (contained_bind.mp hc).1)

theorem fromDict_contained (data : PyJson) : Contained (fromDict L data) ↔
    ∀ fields, data = .obj fields → member fields "schema" = .str (lit bundleNamespace) →
      Handled L fields := by
  cases data with
  | obj fields =>
      simp only [Json.obj.injEq, forall_eq']
      by_cases hschema : member fields "schema" = .str (lit bundleNamespace)
      · rw [forall_prop_of_true hschema]
        exact fromObject_contained hschema
      · exact iff_of_true (fromObject_otherSchema hschema) fun h => absurd h hschema
  | _ => simp [fromDict, isBundleError]

end Document

/-! ## The reader -/

/-- What `zipfile` raises. -/
inductive ZipFault
  | badZipFile
  | other (error : PyError)

def raiseZip : Option ZipFault → Except BundleError Unit
  | none => pure ()
  | some .badZipFile => throw (.corrupt "not a valid xlsx zip")
  | some (.other e) => throw (.python e)

/-- Faults that the entries of a workbook do not show: of opening it, of reading
its bundle entry, and of `json.loads` on a text. -/
structure Faults where
  opening : Option ZipFault
  entry : Option ZipFault
  loads : List Char → Option PyError

def noFaults : Faults := ⟨none, none, fun _ => none⟩

section Reader
variable (L : Stdlib) (F : Faults) (book : Workbook)

def storedWithin : Except BundleError Bytes :=
  match book with
  | .notZip => throw (.corrupt "not a valid xlsx zip")
  | .zip parts => do
      raiseZip F.opening
      match zipRead parts bundlePartPath with
      | none => throw .notFound
      | some raw => do
          raiseZip F.entry
          pure raw

/-- The text inside the envelope of the stored part. -/
def bodyText : Except BundleError (List Char) := do
  let raw ← storedWithin F book
  if raw.length > maxBundleBytes then throw (.tooLarge raw.length)
  let body ← unwrapXmlEnvelope raw
  match decodeUtf8 body with
  | none => throw (.corrupt "bundle JSON parse failed")
  | some text => pure text

/-- `BundleReader.read` where these faults occur. -/
def readWithin : Except BundleError Payload := do
  let text ← bodyText F book
  match F.loads text with
  | some e => throw (.python e)
  | none =>
      match parse pythonReader text with
      | none => throw (.corrupt "bundle JSON parse failed")
      | some data => fromDict L data

/-- `zipfile` raises nothing but `BadZipFile`, as far as it gets. -/
structure Reads : Prop where
  opening : ∀ parts, book = .zip parts → Contained (raiseZip F.opening)
  entry : ∀ parts raw, book = .zip parts → F.opening = none →
    zipRead parts bundlePartPath = some raw → Contained (raiseZip F.entry)

variable {L F book}

theorem storedWithin_noFaults : storedWithin noFaults book = storedPart book := by
  cases book with
  | notZip => rfl
  | zip parts =>
      change (match zipRead parts bundlePartPath with | none => _ | some raw => _) = _
      rw [storedPart]
      cases zipRead parts bundlePartPath <;> rfl

/-- Without faults this is the reader. -/
theorem readWithin_noFaults : readWithin L noFaults book = BundleReader.read L book := by
  unfold readWithin bodyText BundleReader.read readDocument
  rw [storedWithin_noFaults]
  cases storedPart book with
  | error e => rfl
  | ok raw =>
      simp only [ok_bind]
      by_cases hsize : raw.length > maxBundleBytes
      · simp only [if_pos hsize]
        rfl
      · simp only [if_neg hsize]
        cases unwrapXmlEnvelope raw with
        | error e => rfl
        | ok body =>
            simp only [ok_bind]
            cases decodeUtf8 body with
            | none => rfl
            | some text =>
                rw [Option.bind_some]
                cases hparse : parse pythonReader text with
                | none => simp only [pure, Except.pure, ok_bind, hparse]; rfl
                | some data => simp only [pure, Except.pure, ok_bind, hparse]; rfl

theorem raiseZip_ok {fault : Option ZipFault} {u : Unit} (h : raiseZip fault = .ok u) :
    fault = none := by
  cases fault with
  | none => rfl
  | some fault => cases fault <;> cases h

theorem storedWithin_contained : Contained (storedWithin F book) ↔ Reads F book := by
  cases book with
  | notZip =>
      refine iff_of_true (by simp [storedWithin, isBundleError]) ⟨?_, ?_⟩
      · intro parts h
        cases h
      · intro parts raw h
        cases h
  | zip parts =>
      unfold storedWithin
      rw [contained_bind]
      constructor
      · rintro ⟨hopening, hrest⟩
        refine ⟨fun _ _ => hopening, fun _ raw hparts hnone hraw => ?_⟩
        cases hparts
        have hentry := hrest () (by rw [hnone]; rfl)
        simp only [hraw, contained_bind] at hentry
        exact hentry.1
      · intro h
        refine ⟨h.opening parts rfl, fun u hu => ?_⟩
        cases hraw : zipRead parts bundlePartPath with
        | none => simp [isBundleError]
        | some raw =>
            dsimp only
            rw [contained_bind]
            exact ⟨h.entry parts raw rfl (raiseZip_ok hu) hraw, fun _ _ => contained_pure _⟩

theorem unwrapXmlEnvelope_contained (raw : Bytes) : Contained (unwrapXmlEnvelope raw) := by
  unfold unwrapXmlEnvelope
  split
  · split_ifs <;> simp [isBundleError]
  · simp [isBundleError]

theorem bodyText_contained : Contained (bodyText F book) ↔ Reads F book := by
  unfold bodyText
  rw [contained_bind, storedWithin_contained]
  refine and_iff_left fun raw _ => ?_
  split
  · exact contained_of_error (.inr ⟨_, rfl, trivial⟩) rfl
  · rw [contained_bind]
    refine ⟨unwrapXmlEnvelope_contained raw, fun body _ => ?_⟩
    cases decodeUtf8 body <;> simp [isBundleError]

/-- For every workbook the read ends in a payload or in an error of the bundle
exactly when `zipfile` raises nothing but `BadZipFile`, `json.loads` copes with
the text in the envelope and, where this is a document with the schema, the
members that are read have the types their readings ask for. -/
theorem readWithin_contained (L : Stdlib) (F : Faults) (book : Workbook) :
    Contained (readWithin L F book) ↔ Reads F book ∧
      ∀ text, bodyText F book = .ok text → F.loads text = none ∧
        ∀ fields, parse pythonReader text = some (.obj fields) →
          member fields "schema" = .str (lit bundleNamespace) → Handled L fields := by
  unfold readWithin
  rw [contained_bind, bodyText_contained]
  apply and_congr_right'
  apply forall₂_congr
  intro text _
  cases F.loads text with
  | some e => simp [isBundleError]
  | none =>
      cases parse pythonReader text with
      | none => simp [isBundleError]
      | some data => simp [fromDict_contained]

/-- A workbook whose bundle part holds the document. -/
def bookWith (data : PyJson) : Workbook :=
  .zip [(bundlePartPath, wrapXmlEnvelope (jsonBytes data))]

theorem read_bookWith {data : PyJson} (hreadable : data.Readable pythonReader Scalar)
    (hsize : (wrapXmlEnvelope (jsonBytes data)).length ≤ maxBundleBytes)
    (hplain : ∀ s ∈ data.strings, ¬ lit "]]>" <:+: s) :
    BundleReader.read L (bookWith data) = fromDict L data := by
  have hstored : storedPart (bookWith data) = .ok (wrapXmlEnvelope (jsonBytes data)) := rfl
  have hcut : unwrapXmlEnvelope (wrapXmlEnvelope (jsonBytes data)) = .ok (jsonBytes data) := by
    rw [unwrap_wrap_iff, cdataClose_infix_iff]
    simpa using hplain
  have hparse : (decodeUtf8 (jsonBytes data)).bind (parse pythonReader) = some data := by
    rw [jsonBytes, decodeUtf8_encodeUtf8, Option.bind_some, parse_render python_python hreadable]
  simp only [BundleReader.read, readDocument, hstored, ok_bind, if_neg (Nat.not_lt.mpr hsize),
    hcut, hparse, pure, Except.pure]

/-- Metadata that is a list. -/
def listMetadata : PyJson :=
  .obj [(lit "schema", .str (lit bundleNamespace)), (lit "metadata", .arr [.int 1])]

theorem listMetadata_escapes :
    BundleReader.read plainStdlib (bookWith listMetadata) = .error (.python .attributeError) ∧
      ¬ Contained (readWithin plainStdlib noFaults (bookWith listMetadata)) := by
  have hread : BundleReader.read plainStdlib (bookWith listMetadata) =
      .error (.python .attributeError) := by
    have hscalar : ∀ s ∈ listMetadata.strings, Scalar s := by
      simp [listMetadata, Json.strings, Json.fieldStrings, Json.itemStrings, lit_scalar]
    have hkeys : listMetadata.UniqueKeys := by
      simp [listMetadata, Json.UniqueKeys, Json.fieldKeys, Json.itemKeys]
    rw [read_bookWith ⟨hscalar, hkeys, .inl rfl⟩ (by decide +kernel) (by decide)]
    rfl
  rw [readWithin_noFaults, hread]
  simp [isBundleError]

end Reader

end Xlpod.BundleErrors
