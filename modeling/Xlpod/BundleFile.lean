import Xlpod.BundlePayload
import Xlpod.Library.JsonContent

/-!
# The bundle part of a workbook

A workbook is the sequence of its zip entries; a name may repeat, and reading
a name gives the last entry of that name. The writer copies every entry,
replaces each one under the bundle's name, or appends the part when there is
none. The document travels inside a CDATA section that is cut out again by
searching for its two delimiters.

The cut returns the embedded bytes exactly when they do not contain the
closing delimiter: the bytes before them end in a character outside it, and
the bytes after them begin with it.
-/
namespace Xlpod.BundleFile
open Xlpod.JsonText Xlpod.Substring Xlpod.ByteEncodings Xlpod.BundlePayload

def bundlePartPath : String := "customXml/xlpodBundle.json"

def bundleContentType : String := "application/vnd.xlpod.bundle+json"

def contentTypesPath : String := "[Content_Types].xml"

/-- The file at the reader's or writer's path. -/
inductive Workbook
  | notZip
  | zip (parts : List (String × Bytes))

/-- `ZipFile.read`: the last entry of a name. -/
def zipRead (parts : List (String × Bytes)) (name : String) : Option Bytes :=
  parts.reverse.lookup name

/-! ## The envelope -/

def cdataOpen : Bytes := ascii "<![CDATA["

def cdataClose : Bytes := ascii "]]>"

def envelopeHead : Bytes :=
  ascii "<?xml version=\"1.0\" encoding=\"UTF-8\"?>\n<xlpodBundle xmlns=\"" ++
    ascii bundleNamespace ++ ascii "\">\n  <body>"

def envelopeTail : Bytes := ascii "</body>\n</xlpodBundle>\n"

def wrapXmlEnvelope (jsonBytes : Bytes) : Bytes :=
  envelopeHead ++ (cdataOpen ++ (jsonBytes ++ (cdataClose ++ envelopeTail)))

def unwrapXmlEnvelope (xmlBytes : Bytes) : Except BundleError Bytes :=
  match find cdataOpen xmlBytes, find cdataClose xmlBytes with
  | some start, some stop =>
      if stop < start then throw (.corrupt "bundle envelope is missing CDATA section")
      else pure ((xmlBytes.take stop).drop (start + cdataOpen.length))
  | _, _ => throw (.corrupt "bundle envelope is missing CDATA section")

theorem find_cdataOpen (json : Bytes) :
    find cdataOpen (wrapXmlEnvelope json) = some envelopeHead.length :=
  find_first (by decide) (by decide +kernel)

/-- The closing delimiter can only start inside the embedded bytes or after them. -/
theorem infix_embedded (json : Bytes) :
    cdataClose <:+: (envelopeHead ++ cdataOpen) ++ json ↔ cdataClose <:+: json := by
  have hsplit : (envelopeHead ++ cdataOpen) ++ json =
      (envelopeHead ++ cdataOpen.dropLast) ++ 91 :: json := by
    rw [List.append_assoc, List.append_assoc]
    rfl
  rw [hsplit, infix_separated (by decide) (by decide), or_iff_right (by decide +kernel)]

/-- What was embedded is cut out again exactly when it cannot close the section. -/
theorem unwrap_wrap_iff (json : Bytes) :
    unwrapXmlEnvelope (wrapXmlEnvelope json) = .ok json ↔ ¬ cdataClose <:+: json := by
  have hwrap : wrapXmlEnvelope json =
      ((envelopeHead ++ cdataOpen) ++ json) ++ (cdataClose ++ envelopeTail) := by
    simp only [wrapXmlEnvelope, List.append_assoc]
  have hlen : ((envelopeHead ++ cdataOpen) ++ json).length =
      envelopeHead.length + cdataOpen.length + json.length := by
    simp only [List.length_append]
  unfold unwrapXmlEnvelope
  rw [find_cdataOpen]
  constructor
  · intro h hc
    obtain ⟨stop, hstop, hle⟩ := find_front (cdataClose ++ envelopeTail) (by decide)
      ((infix_embedded json).mpr hc)
    rw [← hwrap] at hstop
    simp only [hstop] at h
    split_ifs at h with hlt
    have hcut := congrArg List.length (Except.ok.inj h)
    rw [List.length_drop, List.length_take] at hcut
    have hword := hc.length_le
    have hclose : cdataClose.length = 3 := by decide
    omega
  · intro hc
    have hno : ¬ cdataClose <:+: ((envelopeHead ++ cdataOpen) ++ json) ++ cdataClose.dropLast := by
      have hclose : cdataClose = [93, 93] ++ [62] := by decide
      have hdrop : cdataClose.dropLast = [93] ++ [93] := by decide
      rw [hdrop, ← List.append_assoc, hclose, infix_concat_foreign (by decide),
        infix_concat_foreign (by decide), ← hclose, infix_embedded]
      exact hc
    have hstop : find cdataClose (wrapXmlEnvelope json) =
        some ((envelopeHead ++ cdataOpen) ++ json).length := by
      rw [hwrap]
      exact find_first (by decide) hno
    simp only [hstop]
    rw [if_neg (by omega), hwrap, List.take_left, List.drop_left' (by simp)]
    rfl

/-! ## Reading -/

def storedPart : Workbook → Except BundleError Bytes
  | .notZip => throw (.corrupt "not a valid xlsx zip")
  | .zip parts =>
      match zipRead parts bundlePartPath with
      | none => throw .notFound
      | some raw => pure raw

/-- `BundleReader.read` up to the parsed JSON. -/
def readDocument (book : Workbook) : Except BundleError PyJson := do
  let raw ← storedPart book
  if raw.length > maxBundleBytes then throw (.tooLarge raw.length)
  let body ← unwrapXmlEnvelope raw
  match (decodeUtf8 body).bind (parse pythonReader) with
  | none => throw (.corrupt "bundle JSON parse failed")
  | some data => pure data

def BundleReader.read (L : Stdlib) (book : Workbook) : Except BundleError Payload := do
  let data ← readDocument book
  fromDict L data

/-! ## Writing -/

/-- `str.replace` for a non-empty pattern; `skip` characters of the last match
are still to be passed over. -/
def replaceFrom (old new : List Char) : ℕ → List Char → List Char
  | _, [] => []
  | skip + 1, _ :: cs => replaceFrom old new skip cs
  | 0, c :: cs =>
      if old.isPrefixOf (c :: cs) then new ++ replaceFrom old new (old.length - 1) cs
      else c :: replaceFrom old new 0 cs

def overrideTag : String :=
  "<Override PartName=\"/" ++ bundlePartPath ++ "\" ContentType=\"" ++ bundleContentType ++ "\"/>"

def patchContentTypes (data : Bytes) : Except BundleError Bytes :=
  match decodeUtf8 data with
  | none => throw (.python .unicodeDecodeError)
  | some text =>
      if (find overrideTag.toList text).isSome then pure data
      else if (find "</Types>".toList text).isNone then pure data
      else pure (encodeUtf8 (replaceFrom "</Types>".toList
        ("  " ++ overrideTag ++ "\n</Types>").toList 0 text))

/-- The new bytes of one entry. -/
def rewritePart (wrapped : Bytes) (name : String) (data : Bytes) : Except BundleError Bytes :=
  if name = bundlePartPath then pure wrapped
  else if name = contentTypesPath then patchContentTypes data
  else pure data

/-- The entries of the new file for a suffix of the old one's. -/
def rewriteParts (parts : List (String × Bytes)) (wrapped : Bytes) :
    List (String × Bytes) → Except BundleError (List (String × Bytes))
  | [] => pure []
  | (name, own) :: rest => do
      let item ← rewritePart wrapped name ((zipRead parts name).getD own)
      let items ← rewriteParts parts wrapped rest
      pure ((name, item) :: items)

def jsonBytes (data : PyJson) : Bytes := encodeUtf8 (render pythonWriter data)

def BundleWriter.write (L : Stdlib) (book : Workbook) (payload : Payload) :
    Except BundleError Workbook := do
  let data ← toDict L payload
  let wrapped := wrapXmlEnvelope (jsonBytes data)
  if wrapped.length > maxBundleBytes then throw (.tooLarge wrapped.length)
  match book with
  | .notZip => throw (.corrupt "not a valid xlsx zip")
  | .zip parts =>
      let items ← rewriteParts parts wrapped parts
      if parts.any (·.1 == bundlePartPath) then pure (.zip items)
      else pure (.zip (items ++ [(bundlePartPath, wrapped)]))

theorem bind_ok {α β : Type} {x : Except BundleError α} {f : α → Except BundleError β} {b : β}
    (h : (x >>= f) = .ok b) : ∃ a, x = .ok a ∧ f a = .ok b := by
  cases x with
  | error e => cases h
  | ok a => exact ⟨a, rfl, h⟩

end Xlpod.BundleFile
