import Xlpod.BundleFile
import Xlpod.Library.Entries

/-!
# Writing as an update of the archive

A successful write gives every entry the new content of its name and appends
the bundle part when the name is new. Read by name, this is an update at two
names: the bundle part and the content types, whose patch leaves its own output
alone. The content of the other names and the order of the entries stay, and a
later write forgets an earlier one.
-/
namespace Xlpod.BundleArchive
open Xlpod.JsonText Xlpod.Substring Xlpod.ByteEncodings Xlpod.BundlePayload Xlpod.BundleFile
open Xlpod.Entries

/-! ## The content-types patch -/

theorem find_isSome {word text : List Char} (hne : word ≠ []) :
    (find word text).isSome = true ↔ word <:+: text := by
  constructor
  · intro h
    induction text with
    | nil => simp [find, hne] at h
    | cons c text ih =>
        rw [find] at h
        split_ifs at h with hp
        · exact (List.isPrefixOf_iff_prefix.mp hp).isInfix
        · have htail := ih (by simpa using h)
          exact htail.trans (List.suffix_cons c text).isInfix
  · intro h
    obtain ⟨i, hi, -⟩ := find_front [] hne h
    rw [List.append_nil] at hi
    simp [hi]

/-- A replaced text contains the replacement. -/
theorem infix_replaceFrom {old text : List Char} (new : List Char) (hne : old ≠ [])
    (h : old <:+: text) :
    new <:+: replaceFrom old new 0 text := by
  induction text with
  | nil => exact absurd (List.infix_nil.mp h) hne
  | cons c text ih =>
      rw [replaceFrom]
      split_ifs with hp
      · exact (List.prefix_append _ _).isInfix
      · rcases List.infix_cons_iff.mp h with hprefix | htail
        · exact absurd (List.isPrefixOf_iff_prefix.mpr hprefix) hp
        · exact (ih htail).trans (List.suffix_cons c _).isInfix

/-- The patch leaves its own output alone. -/
theorem patchContentTypes_idem {data out : Bytes} (h : patchContentTypes data = .ok out) :
    patchContentTypes out = .ok out := by
  have hpatch := h
  unfold patchContentTypes at h
  cases htext : decodeUtf8 data with
  | none =>
      rw [htext] at h
      cases h
  | some text =>
      rw [htext] at h
      dsimp only at h
      split_ifs at h with hneedle hclose
      · cases h
        exact hpatch
      · cases h
        exact hpatch
      · cases h
        have hclosed : "</Types>".toList <:+: text := by
          apply (find_isSome (by decide)).mp
          simpa [Option.isSome_iff_ne_none] using hclose
        have hnew := infix_replaceFrom ("  " ++ overrideTag ++ "\n</Types>").toList
          (by decide) hclosed
        have htag : overrideTag.toList <:+: ("  " ++ overrideTag ++ "\n</Types>").toList := by
          rw [String.toList_append, String.toList_append]
          exact List.infix_append _ _ _
        have hfound := (find_isSome (by decide)).mpr (htag.trans hnew)
        simp only [patchContentTypes, decodeUtf8_encodeUtf8, hfound, if_true]
        rfl

/-! ## The new entries -/

/-- The content types are absent or a UTF-8 text. -/
def Legible (parts : List (String × Bytes)) : Prop :=
  ∀ data, zipRead parts contentTypesPath = some data → ∃ text, decodeUtf8 data = some text

/-- The bytes the writer gives to a name. -/
def contentOf (wrapped : Bytes) (parts : List (String × Bytes)) (name : String) : Bytes :=
  match rewritePart wrapped name ((zipRead parts name).getD []) with
  | .ok data => data
  | .error _ => []

/-- The entries of the file after a successful write. -/
def updated (wrapped : Bytes) (parts : List (String × Bytes)) : List (String × Bytes) :=
  relabel (contentOf wrapped parts) parts ++
    if bundlePartPath ∈ names parts then [] else [(bundlePartPath, wrapped)]

/-- The payload has the JSON document `data`, which fits under the cap. -/
def Encodes (L : Stdlib) (p : Payload) (data : PyJson) : Prop :=
  toDict L p = .ok data ∧ (wrapXmlEnvelope (jsonBytes data)).length ≤ maxBundleBytes

theorem zipRead_eq (parts : List (String × Bytes)) : zipRead parts = lastOf parts := rfl

variable {wrapped : Bytes} {parts : List (String × Bytes)}

theorem patchContentTypes_ok_iff {data : Bytes} :
    (∃ out, patchContentTypes data = .ok out) ↔ ∃ text, decodeUtf8 data = some text := by
  unfold patchContentTypes
  cases decodeUtf8 data with
  | none => simp [throw, throwThe, MonadExceptOf.throw]
  | some text =>
      dsimp only
      split_ifs <;> simp [pure, Except.pure]

@[simp] theorem rewritePart_bundle (data : Bytes) :
    rewritePart wrapped bundlePartPath data = .ok wrapped := rfl

@[simp] theorem rewritePart_types (data : Bytes) :
    rewritePart wrapped contentTypesPath data = patchContentTypes data := rfl

theorem rewritePart_other {name : String} (hbundle : name ≠ bundlePartPath)
    (htypes : name ≠ contentTypesPath) (data : Bytes) :
    rewritePart wrapped name data = .ok data := by
  rw [rewritePart, if_neg hbundle, if_neg htypes]
  rfl

theorem rewritePart_ok (wrapped : Bytes) (hlegible : Legible parts) {name : String} {data : Bytes}
    (hread : zipRead parts name = some data) : ∃ out, rewritePart wrapped name data = .ok out := by
  by_cases hbundle : name = bundlePartPath
  · subst hbundle
    exact ⟨wrapped, rfl⟩
  by_cases htypes : name = contentTypesPath
  · subst htypes
    exact patchContentTypes_ok_iff.mpr (hlegible data hread)
  · exact ⟨data, rewritePart_other hbundle htypes data⟩

theorem contentOf_spec (wrapped : Bytes) (hlegible : Legible parts) {name : String} {data : Bytes}
    (hread : zipRead parts name = some data) :
    rewritePart wrapped name data = .ok (contentOf wrapped parts name) := by
  obtain ⟨out, hout⟩ := rewritePart_ok wrapped hlegible hread
  simp only [contentOf, hread, Option.getD_some, hout]

theorem rewriteParts_eq (hlegible : Legible parts) {rest : List (String × Bytes)}
    (hsub : names rest ⊆ names parts) :
    rewriteParts parts wrapped rest = .ok (relabel (contentOf wrapped parts) rest) := by
  induction rest with
  | nil => rfl
  | cons part rest ih =>
      obtain ⟨name, own⟩ := part
      have hsplit : names ((name, own) :: rest) = name :: names rest := rfl
      rw [hsplit, List.cons_subset] at hsub
      obtain ⟨data, hdata⟩ := lastOf_some_of_mem hsub.1
      have hread : zipRead parts name = some data := hdata
      have hitem := contentOf_spec wrapped hlegible hread
      simp only [rewriteParts, hread, Option.getD_some, hitem, ih hsub.2]
      rfl

theorem legible_of_rewriteParts {rest items : List (String × Bytes)}
    (hall : contentTypesPath ∈ names rest) (h : rewriteParts parts wrapped rest = .ok items) :
    Legible parts := by
  induction rest generalizing items with
  | nil => simp [names] at hall
  | cons part rest ih =>
      obtain ⟨name, own⟩ := part
      rw [rewriteParts] at h
      obtain ⟨item, hitem, h⟩ := bind_ok h
      obtain ⟨items, hitems, -⟩ := bind_ok h
      by_cases hname : name = contentTypesPath
      · subst hname
        intro data hread
        rw [hread, Option.getD_some, rewritePart_types] at hitem
        exact patchContentTypes_ok_iff.mp ⟨item, hitem⟩
      · apply ih _ hitems
        have hsplit : names ((name, own) :: rest) = name :: names rest := rfl
        rw [hsplit, List.mem_cons] at hall
        exact hall.resolve_left (Ne.symm hname)

theorem any_bundle (parts : List (String × Bytes)) :
    (parts.any (·.1 == bundlePartPath)) = true ↔ bundlePartPath ∈ names parts := by
  simp [names, List.any_eq_true]

/-- On readable content types the writer fails through the payload alone. -/
theorem write_zip (L : Stdlib) (p : Payload) (hlegible : Legible parts) :
    BundleWriter.write L (.zip parts) p = toDict L p >>= fun data =>
      if (wrapXmlEnvelope (jsonBytes data)).length > maxBundleBytes then
        .error (.tooLarge (wrapXmlEnvelope (jsonBytes data)).length)
      else .ok (.zip (updated (wrapXmlEnvelope (jsonBytes data)) parts)) := by
  unfold BundleWriter.write
  apply bind_congr
  intro data
  dsimp only
  by_cases hbig : (wrapXmlEnvelope (jsonBytes data)).length > maxBundleBytes
  · rw [if_pos hbig, if_pos hbig]
    rfl
  · rw [if_neg hbig, if_neg hbig, rewriteParts_eq hlegible (List.Subset.refl _)]
    unfold updated
    by_cases hmem : bundlePartPath ∈ names parts
    · rw [if_pos hmem, List.append_nil]
      exact if_pos ((any_bundle parts).mpr hmem)
    · rw [if_neg hmem]
      exact if_neg (mt (any_bundle parts).mp hmem)

/-- A write succeeds exactly on archives with readable content types and
payloads under the cap, with the updated entries as its result. -/
theorem write_ok_iff {L : Stdlib} {book out : Workbook} {p : Payload} :
    BundleWriter.write L book p = .ok out ↔ ∃ parts data, book = .zip parts ∧ Legible parts ∧
      Encodes L p data ∧ out = .zip (updated (wrapXmlEnvelope (jsonBytes data)) parts) := by
  constructor
  · intro hwrite
    have h := hwrite
    obtain ⟨data, hdata, h⟩ := bind_ok h
    dsimp only at h
    split_ifs at h with hbig
    · obtain ⟨_, hthrow, -⟩ := bind_ok h
      cases hthrow
    cases book with
    | notZip => cases h
    | zip parts =>
        obtain ⟨items, hitems, -⟩ := bind_ok h
        have hlegible : Legible parts := by
          by_cases hmem : contentTypesPath ∈ names parts
          · exact legible_of_rewriteParts hmem hitems
          · intro data hread
            rw [zipRead_eq, lastOf_eq_none.mpr hmem] at hread
            cases hread
        rw [write_zip L p hlegible, hdata] at hwrite
        have hout := (if_neg hbig).symm.trans hwrite
        cases hout
        exact ⟨parts, data, rfl, hlegible, ⟨hdata, Nat.le_of_not_gt hbig⟩, rfl⟩
  · rintro ⟨parts, data, rfl, hlegible, ⟨hdata, hsize⟩, rfl⟩
    rw [write_zip L p hlegible, hdata]
    exact if_neg (Nat.not_lt.mpr hsize)

/-! ## Reading the new entries -/

theorem names_updated :
    names (updated wrapped parts) =
      names parts ++ if bundlePartPath ∈ names parts then [] else [bundlePartPath] := by
  rw [updated, names_append, names_relabel]
  split_ifs <;> rfl

theorem bundle_mem_updated : bundlePartPath ∈ names (updated wrapped parts) := by
  rw [names_updated]
  by_cases hmem : bundlePartPath ∈ names parts
  · simp [hmem]
  · simp [hmem]

theorem zipRead_updated_bundle : zipRead (updated wrapped parts) bundlePartPath = some wrapped := by
  rw [zipRead_eq, updated, lastOf_append, lastOf_relabel]
  by_cases hmem : bundlePartPath ∈ names parts
  · rw [if_pos hmem, if_pos hmem]
    rfl
  · rw [if_neg hmem, lastOf_single, if_pos rfl, Option.some_or]

/-- Every name that was there shows its new content. -/
theorem zipRead_updated {name : String} (hname : name ≠ bundlePartPath) :
    zipRead (updated wrapped parts) name =
      (zipRead parts name).map fun _ => contentOf wrapped parts name := by
  have happended : lastOf (if bundlePartPath ∈ names parts then []
      else [(bundlePartPath, wrapped)]) name = none := by
    split_ifs
    · rfl
    · rw [lastOf_single, if_neg hname]
  rw [zipRead_eq, updated, lastOf_append, happended, Option.none_or, lastOf_relabel, zipRead_eq]
  by_cases hmem : name ∈ names parts
  · obtain ⟨data, hdata⟩ := lastOf_some_of_mem hmem
    rw [if_pos hmem, hdata]
    rfl
  · rw [if_neg hmem, lastOf_eq_none.mpr hmem]
    rfl

theorem zipRead_updated_other {name : String} (hbundle : name ≠ bundlePartPath)
    (htypes : name ≠ contentTypesPath) :
    zipRead (updated wrapped parts) name = zipRead parts name := by
  rw [zipRead_updated hbundle]
  cases hread : zipRead parts name with
  | none => rfl
  | some data =>
      simp only [Option.map_some, contentOf, hread, Option.getD_some,
        rewritePart_other hbundle htypes]

theorem zipRead_updated_types (wrapped : Bytes) (hlegible : Legible parts) {data : Bytes}
    (hread : zipRead parts contentTypesPath = some data) :
    ∃ out, patchContentTypes data = .ok out ∧
      zipRead (updated wrapped parts) contentTypesPath = some out := by
  have hspec := contentOf_spec wrapped hlegible hread
  rw [rewritePart_types] at hspec
  refine ⟨_, hspec, ?_⟩
  rw [zipRead_updated (by decide), hread]
  rfl

theorem legible_updated (wrapped : Bytes) (hlegible : Legible parts) :
    Legible (updated wrapped parts) := by
  intro data hread
  cases hold : zipRead parts contentTypesPath with
  | none =>
      rw [zipRead_updated (by decide), hold] at hread
      cases hread
  | some old =>
      obtain ⟨out, hpatch, hnew⟩ := zipRead_updated_types wrapped hlegible hold
      have heq : out = data := Option.some.inj (hnew.symm.trans hread)
      subst heq
      exact patchContentTypes_ok_iff.mp ⟨out, patchContentTypes_idem hpatch⟩

/-- A later write gives every name the content it would have had without the
earlier one. -/
theorem contentOf_updated {first second : Bytes} (hlegible : Legible parts) {name : String}
    (hmem : name ∈ names parts) :
    contentOf second (updated first parts) name = contentOf second parts name := by
  obtain ⟨data, hread⟩ := lastOf_some_of_mem hmem
  rw [← zipRead_eq] at hread
  by_cases hbundle : name = bundlePartPath
  · subst hbundle
    simp only [contentOf, rewritePart_bundle]
  by_cases htypes : name = contentTypesPath
  · subst htypes
    obtain ⟨out, hpatch, hnew⟩ := zipRead_updated_types first hlegible hread
    simp only [contentOf, hnew, hread, Option.getD_some, rewritePart_types, hpatch,
      patchContentTypes_idem hpatch]
  · simp only [contentOf, zipRead_updated_other hbundle htypes]

theorem updated_updated {first second : Bytes} (hlegible : Legible parts) :
    updated second (updated first parts) = updated second parts := by
  have hold : relabel (contentOf second (updated first parts)) (relabel (contentOf first parts)
      parts) = relabel (contentOf second parts) parts := by
    rw [relabel_relabel]
    exact relabel_congr fun name hmem => contentOf_updated hlegible hmem
  have hnew : contentOf second (updated first parts) bundlePartPath = second := by
    simp only [contentOf, rewritePart_bundle]
  have hsplit : relabel (contentOf second (updated first parts)) (updated first parts) =
      relabel (contentOf second parts) parts ++
        if bundlePartPath ∈ names parts then [] else [(bundlePartPath, second)] := by
    conv_lhs => arg 2; rw [updated]
    rw [relabel_append, hold]
    have hlast : relabel (contentOf second (updated first parts)) [(bundlePartPath, first)] =
        [(bundlePartPath, second)] := by
      rw [relabel, List.map_singleton, hnew]
    split_ifs
    · rfl
    · rw [hlast]
  rw [updated, if_pos bundle_mem_updated, List.append_nil, hsplit, updated]

/-- A successful write stores the wrapped document under the bundle's name. -/
theorem write_stored {L : Stdlib} {book out : Workbook} {p : Payload}
    (h : BundleWriter.write L book p = .ok out) :
    ∃ data, toDict L p = .ok data ∧
      (wrapXmlEnvelope (jsonBytes data)).length ≤ maxBundleBytes ∧
      storedPart out = .ok (wrapXmlEnvelope (jsonBytes data)) := by
  obtain ⟨parts, data, -, -, ⟨hdata, hsize⟩, rfl⟩ := write_ok_iff.mp h
  refine ⟨data, hdata, hsize, ?_⟩
  simp only [storedPart, zipRead_updated_bundle]
  rfl

/-! ## The write as an update -/

/-- The entries after a write: foreign parts and the order of names stay, the
bundle part is the new envelope. -/
structure UpdatesBundle (parts parts' : List (String × Bytes)) (envelope : Bytes) : Prop where
  others : ∀ name, name ≠ bundlePartPath → name ≠ contentTypesPath →
    zipRead parts' name = zipRead parts name
  order : parts'.map Prod.fst = parts.map Prod.fst ++
    if bundlePartPath ∈ parts.map Prod.fst then [] else [bundlePartPath]
  bundle : zipRead parts' bundlePartPath = some envelope

/-- For every archive and all payloads, a successful write updates the bundle
part alone, and a second write is as if the first had not been. -/
theorem write_updates (L : Stdlib) (parts : List (String × Bytes)) (p₁ p₂ : Payload)
    (out : Workbook) (h : BundleWriter.write L (.zip parts) p₁ = .ok out) :
    (∃ parts' data, out = .zip parts' ∧ toDict L p₁ = .ok data ∧
      UpdatesBundle parts parts' (wrapXmlEnvelope (jsonBytes data))) ∧
    BundleWriter.write L out p₂ = BundleWriter.write L (.zip parts) p₂ := by
  obtain ⟨_, data, hbook, hlegible, ⟨hdata, -⟩, rfl⟩ := write_ok_iff.mp h
  cases hbook
  refine ⟨⟨_, data, rfl, hdata, ?_⟩, ?_⟩
  · exact ⟨fun name hbundle htypes => zipRead_updated_other hbundle htypes, names_updated,
      zipRead_updated_bundle⟩
  · rw [write_zip L p₂ hlegible, write_zip L p₂ (legible_updated _ hlegible)]
    simp only [updated_updated hlegible]

/-! ## A small workbook -/

/-- The library as far as a payload without snapshot, floats or numeric strings
uses it. -/
def plainStdlib : Stdlib where
  floatIsZero l := (l.chars.takeWhile fun c => c != 'e' && c != 'E').all fun c =>
    !c.isDigit || c == '0'
  intOfFloat _ := .error .valueError
  intOfStr _ := .error .valueError
  compress blob := blob
  decompress := some
  exhausts _ := false
  decompress_compress _ := rfl
  exhausts_compress _ := rfl

/-- A workbook with the two parts every spreadsheet has. -/
def minimalWorkbook : Workbook :=
  .zip [(contentTypesPath, ascii "<Types></Types>"), ("_rels/.rels", ascii "<Relationships/>")]

/-- One chat session with one message text. -/
def sessionPayload (text : String) : Payload where
  schemaVersion := 1
  createdMs := 0
  workbookFingerprint := .null
  launcherMinVersion := .null
  pyodideSnapshot := none
  pyodideEncoding := .null
  aiSessions := .arr [.obj [(lit "text", .str (lit text))]]
  pythonModules := .arr [.str (lit "pandas")]

theorem write_minimal {p : Payload} {data : PyJson} (hdata : toDict plainStdlib p = .ok data)
    (hlen : (wrapXmlEnvelope (jsonBytes data)).length ≤ maxBundleBytes) :
    ∃ out, BundleWriter.write plainStdlib minimalWorkbook p = .ok out := by
  refine ⟨_, write_ok_iff.mpr ⟨_, _, rfl, ?_, ⟨hdata, hlen⟩, rfl⟩⟩
  intro data hread
  have hdata : some (ascii "<Types></Types>") = some data := hread
  cases hdata
  exact ⟨_, decodeUtf8_encodeUtf8 _⟩

theorem write_updates_minimal : ∃ parts out,
    BundleWriter.write plainStdlib (.zip parts) (sessionPayload "hi") = .ok out ∧
      (∃ parts' data, out = .zip parts' ∧ toDict plainStdlib (sessionPayload "hi") = .ok data ∧
        UpdatesBundle parts parts' (wrapXmlEnvelope (jsonBytes data))) ∧
      BundleWriter.write plainStdlib out (sessionPayload "bye") =
        BundleWriter.write plainStdlib (.zip parts) (sessionPayload "bye") := by
  obtain ⟨out, hw⟩ := write_minimal (p := sessionPayload "hi") rfl (by decide +kernel)
  exact ⟨_, out, hw, write_updates plainStdlib _ _ (sessionPayload "bye") out hw⟩

end Xlpod.BundleArchive
