import Xlpod.BundleArchive

/-!
# Reading back what the writer stored

A write that reported success is read back when the stored part is cut to the
embedded JSON bytes, these parse to the document that was written, and the
reader accepts it. The exact condition is on the payload alone: no string that
reaches the document contains the CDATA terminator, and the two members whose
type the reader checks are arrays or falsy.
-/
namespace Xlpod.BundleRoundTrip
open Xlpod.JsonText Xlpod.Substring Xlpod.ByteEncodings Xlpod.BundlePayload Xlpod.BundleFile
open Xlpod.BundleArchive

/-- The written file gives the embedded bytes, the written document and a payload. -/
def ReadsBack (L : Stdlib) (p : Payload) (out : Workbook) : Prop :=
  ∃ data raw, toDict L p = .ok data ∧ storedPart out = .ok raw ∧
    unwrapXmlEnvelope raw = .ok (jsonBytes data) ∧ readDocument out = .ok data ∧
    ∃ q, BundleReader.read L out = .ok q

/-! ## The terminator in the rendered document -/

theorem terminator_plain :
    Plain pyEscape (fun c => codePoint c.toNat) ("]]".toList ++ ['>']) where
  self := by
    simp only [String.reduceToList, List.cons_append, List.nil_append, List.forall_mem_cons]
    exact ⟨by decide, by decide, by decide, by simp⟩
  only c hc _ h := by
    have hout : ∀ c ∈ "]]".toList ++ ['>'], c ∉ "\\\"nrtfbu0123456789abcdef".toList := by simp
    exact pyEscape_only (hout c hc) h
  nonempty d := by
    unfold pyEscape
    split_ifs <;> simp [unicodeEscape]

theorem terminator_foreign : Foreign pythonWriter "]]".toList '>' where
  last := by decide
  marks := by simp
  gap := by simp [pythonWriter]

/-- The embedded bytes contain the terminator exactly when one of the strings does. -/
theorem cdataClose_infix_iff (data : PyJson) :
    cdataClose <:+: jsonBytes data ↔ ∃ s ∈ data.strings, lit "]]>" <:+: s := by
  have hword : cdataClose.map asciiChar = "]]".toList ++ ['>'] := by decide
  have hascii : ∀ b ∈ cdataClose, b.toNat < 128 := by
    have hbytes : cdataClose = [93, 93, 62] := by decide
    simp [hbytes]
  rw [jsonBytes, infix_encodeUtf8 hascii (by decide), hword,
    infix_render terminator_foreign]
  have hlit (s : Text) :
      "]]".toList ++ ['>'] <:+: pythonWriter.literal s ↔ lit "]]>" <:+: s :=
    infix_flatMap terminator_plain (by decide) s
  simp only [hlit]

/-! ## The written document -/

theorem toDict_ok {L : Stdlib} {p : Payload} {data : PyJson} (h : toDict L p = .ok data) :
    ∃ pyodide, snapshotFields L p = .ok pyodide ∧ data = document L p pyodide := by
  obtain ⟨pyodide, hs, h⟩ := bind_ok h
  exact ⟨pyodide, hs, (Except.ok.inj h).symm⟩

theorem terminator_free_base64 (blob : Bytes) : ¬ lit "]]>" <:+: b64encode blob := by
  have hfree := b64encode_forall (P := fun c => c ≠ codePoint 62) (by decide) (by decide) blob
  intro h
  exact hfree (codePoint 62) (h.subset (by decide)) rfl

theorem scalar_base64 (blob : Bytes) : Scalar (b64encode blob) :=
  b64encode_forall (P := fun c => isHigh c = false ∧ isLow c = false) (by decide) (by decide) blob

variable {L : Stdlib} {p : Payload} {data : PyJson}

theorem terminator_iff (h : toDict L p = .ok data) :
    (∃ s ∈ data.strings, lit "]]>" <:+: s) ↔ ∃ s ∈ texts p, lit "]]>" <:+: s := by
  obtain ⟨pyodide, hs, rfl⟩ := toDict_ok h
  have hall := document_forall (fun s => ¬ lit "]]>" <:+: s) hs (by decide)
    (by decide) terminator_free_base64
  have hnot := not_congr hall
  push Not at hnot
  exact hnot

theorem texts_scalar (hp : JsonValues p) : ∀ s ∈ texts p, Scalar s := by
  simp only [JsonValues, List.forall_mem_cons] at hp
  obtain ⟨⟨-, hmin⟩, ⟨-, hfp⟩, ⟨-, henc⟩, ⟨-, hses⟩, ⟨-, hmod⟩, -⟩ := hp
  simp only [texts, List.forall_mem_append]
  refine ⟨hmin, hfp, hses, hmod, ?_⟩
  split_ifs
  · exact henc
  · simp

theorem document_readable (hp : JsonValues p) (h : toDict L p = .ok data) :
    data.Readable pythonReader Scalar := by
  obtain ⟨pyodide, hs, rfl⟩ := toDict_ok h
  refine ⟨?_, document_keys hs hp, .inl rfl⟩
  exact (document_forall Scalar hs (fun w _ => lit_scalar w) (by simp [Scalar]) scalar_base64).mpr
    (texts_scalar hp)

theorem parse_jsonBytes (hp : JsonValues p) (h : toDict L p = .ok data) :
    (decodeUtf8 (jsonBytes data)).bind (parse pythonReader) = some data := by
  rw [jsonBytes, decodeUtf8_encodeUtf8, Option.bind_some,
    parse_render python_python (document_readable hp h)]

/-- For every payload of a known schema version and every workbook, what a
successful write stored is read back exactly when no string of the payload
contains the terminator and its two lists are lists. -/
theorem readsBack_iff {book out : Workbook} (hp : JsonValues p)
    (hv : p.schemaVersion ≤ bundleSchemaVersion) (hw : BundleWriter.write L book p = .ok out) :
    ReadsBack L p out ↔ (∀ s ∈ texts p, ¬ lit "]]>" <:+: s) ∧
      listOrFalsy L p.aiSessions = true ∧ listOrFalsy L p.pythonModules = true := by
  obtain ⟨data, hdata, hlen, hstored⟩ := write_stored hw
  have hcut : unwrapXmlEnvelope (wrapXmlEnvelope (jsonBytes data)) = .ok (jsonBytes data) ↔
      ∀ s ∈ texts p, ¬ lit "]]>" <:+: s := by
    rw [unwrap_wrap_iff, cdataClose_infix_iff, terminator_iff hdata]
    simp only [not_exists, not_and]
  have hfrom : (∃ q, fromDict L data = .ok q) ↔
      listOrFalsy L p.aiSessions = true ∧ listOrFalsy L p.pythonModules = true := by
    obtain ⟨pyodide, hs, rfl⟩ := toDict_ok hdata
    exact fromDict_document hv hs
  rw [← hcut, ← hfrom]
  constructor
  · rintro ⟨data', raw, hd, hraw, hunwrap, hdoc, q, hq⟩
    obtain rfl : data = data' := Except.ok.inj (hdata.symm.trans hd)
    obtain rfl := Except.ok.inj (hstored.symm.trans hraw)
    refine ⟨hunwrap, q, ?_⟩
    simpa only [BundleReader.read, hdoc, bind, Except.bind] using hq
  · rintro ⟨hunwrap, q, hq⟩
    have hdoc : readDocument out = .ok data := by
      simp only [readDocument, hstored, bind, Except.bind, if_neg (Nat.not_lt.mpr hlen), hunwrap,
        parse_jsonBytes hp hdata, pure, Except.pure]
    refine ⟨data, _, hdata, hstored, hunwrap, hdoc, q, ?_⟩
    simpa only [BundleReader.read, hdoc, bind, Except.bind] using hq

/-! ## A transcript that mentions the terminator -/

theorem sessionPayload_values (text : String) : JsonValues (sessionPayload text) := by
  simp only [JsonValues, sessionPayload, List.forall_mem_cons, Json.UniqueKeys, Json.itemKeys,
    Json.fieldKeys, Json.strings, Json.itemStrings, Json.fieldStrings]
  simp [lit_scalar]

theorem readsBack_plain_message : ∃ out,
    BundleWriter.write plainStdlib minimalWorkbook (sessionPayload "hi") = .ok out ∧
      ReadsBack plainStdlib (sessionPayload "hi") out := by
  obtain ⟨out, hw⟩ := write_minimal (p := sessionPayload "hi") rfl (by decide +kernel)
  exact ⟨out, hw, (readsBack_iff (sessionPayload_values _) le_rfl hw).mpr
    ⟨by decide, rfl, rfl⟩⟩

/-- A message that contains the terminator is written but not read back. -/
theorem terminator_not_readBack : ∃ out,
    JsonValues (sessionPayload "a]]>b") ∧ (sessionPayload "a]]>b").schemaVersion ≤ 1 ∧
      BundleWriter.write plainStdlib minimalWorkbook (sessionPayload "a]]>b") = .ok out ∧
      ¬ ReadsBack plainStdlib (sessionPayload "a]]>b") out := by
  obtain ⟨out, hw⟩ := write_minimal (p := sessionPayload "a]]>b") rfl (by decide +kernel)
  refine ⟨out, sessionPayload_values _, le_rfl, hw, ?_⟩
  rintro ⟨data, raw, hdata, hraw, hcut, -⟩
  obtain ⟨data', hdata', -, hstored⟩ := write_stored hw
  obtain rfl : data = data' := Except.ok.inj (hdata.symm.trans hdata')
  obtain rfl := Except.ok.inj (hstored.symm.trans hraw)
  rw [unwrap_wrap_iff, cdataClose_infix_iff, terminator_iff hdata] at hcut
  exact hcut ⟨lit "a]]>b", by decide, by decide⟩

end Xlpod.BundleRoundTrip
