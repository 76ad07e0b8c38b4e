import Xlpod.AtomicWrite
import Xlpod.BundleNormalForm

/-!
# The bundles of a computer

The worker reads and writes bundles in the workbooks of a computer, one request
at a time, and may fail or be killed in the middle of a write. A write fills a
temporary file next to its workbook and renames it, so a workbook that lies where
another has its temporary file is lost. Elsewhere, whatever happened at other
workbooks and whatever failed, a read returns the document the last write to its
workbook stored, and a document that was read is stored unchanged.
-/
namespace Xlpod.BundleStore
open Xlpod.BundleArchive Xlpod.BundleFile Xlpod.BundleNormalForm Xlpod.BundlePayload
open Xlpod.BundleRoundTrip Xlpod.BundleShapes Xlpod.ByteEncodings Xlpod.GuardedRuns
open Xlpod.JsonText Xlpod.WorkerLoop

variable {L : Stdlib} {p : Payload} {v : PyJson} {fields : List (Text × PyJson)}

/-! ## What may be stored -/

/-- A dictionary of Unicode texts none of which contains the terminator. -/
structure Clean (v : PyJson) : Prop where
  keys : v.UniqueKeys
  texts : ∀ s ∈ v.strings, Scalar s ∧ ¬ lit "]]>" <:+: s

theorem clean_null : Clean .null := ⟨trivial, by simp [Json.strings]⟩

theorem clean_emptyArr : Clean (.arr []) := ⟨trivial, by simp [Json.strings, Json.itemStrings]⟩

theorem clean_emptyObj : Clean (.obj []) :=
  ⟨⟨List.nodup_nil, trivial⟩, by simp [Json.strings, Json.fieldStrings]⟩

theorem clean_cons {k : Text} (h : Clean (.obj ((k, v) :: fields))) :
    Clean (.str k) ∧ Clean v ∧ Clean (.obj fields) := by
  obtain ⟨⟨hnodup, hkeys⟩, htexts⟩ := h
  simp only [Json.strings, Json.fieldStrings, List.forall_mem_cons,
    List.forall_mem_append] at htexts
  obtain ⟨hk, hv, hfields⟩ := htexts
  exact ⟨⟨trivial, by simpa [Json.strings] using hk⟩, ⟨hkeys.1, hv⟩,
    ⟨(List.nodup_cons.mp hnodup).2, hkeys.2⟩, hfields⟩

theorem Clean.getD {k : Text} {d : PyJson} (h : Clean (.obj fields)) (hd : Clean d) :
    Clean ((fields.lookup k).getD d) := by
  induction fields with
  | nil => exact hd
  | cons f fields ih =>
      obtain ⟨-, hf, hfields⟩ := clean_cons h
      rw [List.lookup_cons]
      split
      · exact hf
      · exact ih hfields

theorem Clean.orElse {d : PyJson} (h : Clean v) (hd : Clean d) : Clean (orElse L v d) := by
  unfold BundlePayload.orElse
  split
  · exact h
  · exact hd

theorem Clean.member {key : String} (h : Clean (.obj fields)) :
    Clean (BundleShapes.member fields key) :=
  h.getD clean_null

theorem Clean.section {key : String} {section_ : List (Text × PyJson)} (h : Clean (.obj fields))
    (hsection : BundlePayload.orElse L (BundleShapes.member fields key) (.obj []) = .obj section_) :
    Clean (.obj section_) :=
  hsection ▸ h.member.orElse clean_emptyObj

theorem clean_char {s : Text} {c : CodePoint} (h : Scalar s) (hc : c ∈ s) : Clean (.str [c]) := by
  refine ⟨trivial, fun t ht => ?_⟩
  obtain rfl : t = [c] := by simpa [Json.strings] using ht
  refine ⟨fun d hd => h d (List.mem_singleton.mp hd ▸ hc), fun hinfix => ?_⟩
  have hlength := hinfix.length_le
  simp [lit] at hlength

theorem clean_arr {items : List PyJson} (h : ∀ x ∈ items, Clean x) : Clean (.arr items) := by
  induction items with
  | nil => exact clean_emptyArr
  | cons x items ih =>
      obtain ⟨hx, hitems⟩ := List.forall_mem_cons.mp h
      refine ⟨⟨hx.keys, (ih hitems).keys⟩, ?_⟩
      simp only [Json.strings, Json.itemStrings, List.forall_mem_append]
      exact ⟨hx.texts, (ih hitems).texts⟩

theorem clean_keys (h : Clean (.obj fields)) : ∀ f ∈ fields, Clean (.str f.1) := by
  induction fields with
  | nil => simp
  | cons f fields ih =>
      obtain ⟨hk, -, hfields⟩ := clean_cons h
      exact List.forall_mem_cons.mpr ⟨hk, ih hfields⟩

theorem Clean.pyList {items : List PyJson} (h : Clean v) (hitems : pyList v = .ok items) :
    Clean (.arr items) := by
  cases v with
  | arr items' =>
      cases hitems
      exact h
  | str s =>
      cases hitems
      refine clean_arr fun x hx => ?_
      obtain ⟨c, hc, rfl⟩ := List.mem_map.mp hx
      exact clean_char (h.texts s (by simp [Json.strings])).1 hc
  | obj fields =>
      cases hitems
      refine clean_arr fun x hx => ?_
      obtain ⟨f, hf, rfl⟩ := List.mem_map.mp hx
      exact clean_keys h f hf
  | _ => cases hitems

theorem Clean.asList {reason : String} {items : List PyJson} (h : Clean v)
    (hitems : asList reason v = .ok items) : Clean (.arr items) := by
  cases v with
  | arr items' =>
      cases hitems
      exact h
  | _ => cases hitems

/-- A payload whose document can be read back. -/
structure Storable (p : Payload) : Prop where
  values : JsonValues p
  plain : ∀ s ∈ texts p, ¬ lit "]]>" <:+: s
  lists : ∃ sessions modules, p.aiSessions = .arr sessions ∧ p.pythonModules = .arr modules
  version : p.schemaVersion ≤ bundleSchemaVersion

theorem storable_of_clean (hmin : Clean p.launcherMinVersion)
    (hfingerprint : Clean p.workbookFingerprint) (hencoding : Clean p.pyodideEncoding)
    (hsessions : Clean p.aiSessions) (hmodules : Clean p.pythonModules)
    (hlists : ∃ sessions modules, p.aiSessions = .arr sessions ∧ p.pythonModules = .arr modules)
    (hversion : p.schemaVersion ≤ bundleSchemaVersion) : Storable p := by
  have hclean : ∀ v ∈ [p.launcherMinVersion, p.workbookFingerprint, p.pyodideEncoding, p.aiSessions,
      p.pythonModules], Clean v := by
    simp [hmin, hfingerprint, hencoding, hsessions, hmodules]
  refine ⟨fun v hv => ⟨(hclean v hv).keys, fun s hs => ((hclean v hv).texts s hs).1⟩, ?_, hlists,
    hversion⟩
  simp only [texts, List.forall_mem_append]
  refine ⟨fun s hs => (hmin.texts s hs).2, fun s hs => (hfingerprint.texts s hs).2,
    fun s hs => (hsessions.texts s hs).2, fun s hs => (hmodules.texts s hs).2, ?_⟩
  split
  · exact fun s hs => (hencoding.texts s hs).2
  · simp

theorem storable_fromDict (h : Clean v) (hp : fromDict L v = .ok p) : Storable p := by
  obtain ⟨fields, rfl, hself⟩ := fromDict_withSchema hp
  rw [← hself] at hp
  obtain ⟨md, ai, py, createdMs, version, snapshot, sessions, modules, hc, -, hversion, hpy, -,
    hsessions, hmodules, rfl⟩ := fromDict_accepted hp
  have hmd : Clean (.obj md) := h.section hc.metadata
  have hai : Clean (.obj ai) := h.section hc.aiHistory
  exact storable_of_clean hmd.member hmd.member (h.section hpy).member
    ((hai.member.orElse clean_emptyArr).asList hsessions)
    ((h.member.orElse clean_emptyArr).asList hmodules) ⟨sessions, modules, rfl, rfl⟩ hversion

theorem storable_mapped {createdMs : ℤ} {sessions modules : List PyJson}
    (hsessions : Clean (.arr sessions)) (hmodules : Clean (.arr modules)) :
    Storable (mapped createdMs sessions modules) :=
  storable_of_clean clean_null clean_null clean_null hsessions hmodules
    ⟨sessions, modules, rfl, rfl⟩ le_rfl

/-- Whatever shape the request has. -/
theorem storable_buildPayload (h : Clean v) (hp : buildPayload L v = .ok p) : Storable p := by
  cases hs : hasSchema L v with
  | true =>
      rw [buildPayload, if_pos hs] at hp
      exact storable_fromDict h hp
  | false =>
      by_cases hv : ∃ fields, v = .obj fields
      · obtain ⟨fields, rfl⟩ := hv
        obtain ⟨md, ai, createdMs, sessions, modules, hc, hsessions, hmodules, rfl⟩ :=
          buildPayload_mapped hs hp
        have hai : Clean (.obj ai) := h.section hc.aiHistory
        exact storable_mapped ((hai.getD clean_emptyArr).pyList hsessions)
          ((h.getD clean_emptyArr).pyList hmodules)
      · have hother : ∀ fields, v ≠ .obj fields := fun fields heq => hv ⟨fields, heq⟩
        have hfalsy := (buildPayload_other hother).mp ⟨p, hp⟩
        have hroot : BundlePayload.orElse L v (.obj []) = .obj [] := by
          rw [BundlePayload.orElse, if_neg (by simp [hfalsy])]
        rw [buildPayload, if_neg (by simp [hs]), hroot] at hp
        cases hp
        exact storable_mapped clean_emptyArr clean_emptyArr

/-! ## What is stored is read -/

/-- The document can be read out of the workbook, and it is the document of
what is read. -/
structure Stores (L : Stdlib) (book : Workbook) (data : PyJson) : Prop where
  document : readDocument book = .ok data
  again : ∃ p, fromDict L data = .ok p ∧ toDict L p = .ok data

theorem orElse_orElse (v d : PyJson) :
    BundlePayload.orElse L (BundlePayload.orElse L v d) d = BundlePayload.orElse L v d := by
  by_cases h : truthy L v = true <;> simp [BundlePayload.orElse, h]

theorem optionalField_orElse (key : String) (v : PyJson) :
    optionalField L key (BundlePayload.orElse L v .null) = optionalField L key v := by
  by_cases h : truthy L v = true
  · rw [BundlePayload.orElse, if_pos h]
  · rw [BundlePayload.orElse, if_neg h, optionalField, optionalField, if_neg h,
      if_neg (by simp [truthy])]

theorem snapshotFields_normal_self : snapshotFields L (normal L p) = snapshotFields L p := by
  unfold snapshotFields
  cases hblob : p.pyodideSnapshot with
  | none => simp only [normal, hblob]
  | some blob => simp only [normal, hblob, snapshotTag, orElse_orElse]

/-- The normal form has the same document. -/
theorem toDict_normal : toDict L (normal L p) = toDict L p := by
  have hmetadata : metadataFields L (normal L p) = metadataFields L p := by
    simp only [metadataFields, normal, optionalField_orElse]
  rw [toDict, toDict, snapshotFields_normal_self]
  simp only [document, hmetadata]
  rfl

theorem stores_of_write {book out : Workbook} (hz : L.decompress [] = none) (hp : Storable p)
    (h : BundleWriter.write L book p = .ok out) :
    ∃ data, toDict L p = .ok data ∧ Stores L out data := by
  obtain ⟨data, hdata, hsize, hstored⟩ := write_stored h
  have hcut : unwrapXmlEnvelope (wrapXmlEnvelope (jsonBytes data)) = .ok (jsonBytes data) := by
    rw [unwrap_wrap_iff, cdataClose_infix_iff, terminator_iff hdata]
    rintro ⟨s, hs, hinfix⟩
    exact hp.plain s hs hinfix
  have hdocument : readDocument out = .ok data := by
    simp only [readDocument, hstored, bind, Except.bind, if_neg (Nat.not_lt.mpr hsize), hcut,
      parse_jsonBytes hp.values hdata, pure, Except.pure]
  obtain ⟨pyodide, hpyodide, rfl⟩ := toDict_ok hdata
  obtain ⟨sessions, modules, hsessions, hmodules⟩ := hp.lists
  have hread := fromDict_normal hz hp.version hsessions hmodules hpyodide
  exact ⟨_, hdata, hdocument, normal L p, hread, toDict_normal.trans hdata⟩

/-- What the worker stores for the payload of a request. -/
def documentOf (L : Stdlib) (data : PyJson) : Option PyJson :=
  match buildPayload L data with
  | .ok p => (toDict L p).toOption
  | .error _ => none

/-- A stored document is stored again as it is. -/
theorem Stores.documentOf {book : Workbook} {data : PyJson} (h : Stores L book data) :
    documentOf L data = some data := by
  obtain ⟨p, hp, hdata⟩ := h.again
  obtain ⟨fields, rfl, hself⟩ := fromDict_withSchema hp
  have hlookup : fields.lookup (lit "schema") = some (.str (lit bundleNamespace)) := by
    have hfields : insertField (lit "schema") (.str (lit bundleNamespace)) fields = fields :=
      Json.obj.inj hself
    rw [← hfields, lookup_insertField, if_pos rfl]
  have hschema : hasSchema L (.obj fields) = true := by
    rw [hasSchema, hlookup]
    rfl
  rw [BundleStore.documentOf, buildPayload, if_pos hschema, hp]
  simp only [hdata, Except.toOption]

/-! ## The requests -/

/-- Where the writes have their temporary files, and how a path is shown. -/
structure Volume (Path : Type) where
  tmpPath : Path → Path
  shown : Path → Text
  tmpPath_ne : ∀ path, tmpPath path ≠ path

abbrev Files (Path : Type) := Path → Except FileError Workbook

/-- How far a killed write has come. -/
inductive Cut
  | early
  | filling (left : Except FileError Workbook)
  | replaced

/-- A request for the bundle at a path, in whatever state the worker is otherwise.
The workbook may be closed to a read or a write, and a write that comes to its
temporary file may fail there, and leave anything in it. -/
inductive Label (Path : Type)
  | denied (path : Path) (e : FileError)
  | read (path : Path) (w : World)
  | write (path : Path) (w : World) (data : PyJson)
  | failed (path : Path) (w : World) (data : PyJson) (e : FileError)
      (left : Except FileError Workbook)
  | killed (path : Path) (w : World) (data : PyJson) (cut : Cut)

/-- A request with its reply, if there was one. -/
structure Entry (Path : Type) where
  label : Label Path
  reply : Option Reply

structure Computer (Path : Type) where
  files : Files Path
  log : List (Entry Path)

def saved (reply : Reply) : Bool :=
  match reply.lookup (lit "ok") with
  | some (.value (.bool b)) => b
  | _ => false

def payloadReply (data : PyJson) : Reply :=
  [(lit "ok", .value (.bool true)), (lit "payload", .value data)]

def facing (w : World) (file : Except FileError Workbook) : World := { w with file := file }

section
variable {Path : Type} [DecidableEq Path]

def Volume.fill (V : Volume Path) (files : Files Path) (path : Path)
    (left : Except FileError Workbook) : Files Path :=
  Function.update files (V.tmpPath path) left

/-- The temporary file has been filled and renamed over the workbook. -/
def Volume.replace (V : Volume Path) (files : Files Path) (path : Path)
    (out : Except FileError Workbook) : Files Path :=
  V.fill (Function.update files path out) path (.error (.notFound (V.shown (V.tmpPath path))))

def next (L : Stdlib) (describe : BundleError → Text) (V : Volume Path) (s : Computer Path)
    (label : Label Path) : Option (Computer Path) :=
  match label with
  | .denied _ e => some { s with log := ⟨label, some (fileFailure e)⟩ :: s.log }
  | .read path w =>
      some { s with log := ⟨label, bundleRead L describe (facing w (s.files path))⟩ :: s.log }
  | .write path w data =>
      let here := facing w (s.files path)
      let reply := bundleWrite L describe here data
      some {
        files := if saved reply then V.replace s.files path (fileAfterWrite L here data) else s.files
        log := ⟨label, some reply⟩ :: s.log }
  | .failed path w data e left =>
      -- Only a write that nothing else stops comes to the temporary file.
      if saved (bundleWrite L describe (facing w (s.files path)) data) then some {
        files := V.fill s.files path left
        log := ⟨label, some (fileFailure e)⟩ :: s.log }
      else none
  | .killed path w data cut =>
      let here := facing w (s.files path)
      let after (files : Files Path) : Computer Path :=
        { files := files, log := ⟨label, none⟩ :: s.log }
      match cut with
      | .early => some (after s.files)
      | .filling left =>
          if saved (bundleWrite L describe here data) then some (after (V.fill s.files path left))
          else none
      | .replaced =>
          if saved (bundleWrite L describe here data) then
            some (after (V.replace s.files path (fileAfterWrite L here data)))
          else none

def computer (L : Stdlib) (describe : BundleError → Text) (V : Volume Path) (files : Files Path) :
    Machine (Computer Path) (Label Path) where
  start := ⟨files, []⟩
  next := next L describe V

/-- Documents whose writing the reader can follow. -/
def WritesClean (_ : Computer Path) : Label Path → Prop
  | .denied _ _ | .read _ _ => True
  | .write _ _ data => Clean data
  | .failed _ _ data _ _ => Clean data
  | .killed _ _ data _ => Clean data

/-- The document a request has put at a path. -/
def storedBy (L : Stdlib) (path : Path) (e : Entry Path) : Option PyJson :=
  match e.label with
  | .write path' _ data => if path' = path ∧ e.reply.any saved then documentOf L data else none
  | .killed path' _ data .replaced => if path' = path then documentOf L data else none
  | _ => none

/-- The last document put at a path. -/
def storedAt (L : Stdlib) (path : Path) : List (Entry Path) → Option PyJson
  | [] => none
  | e :: es => (storedBy L path e).or (storedAt L path es)

/-- No workbook has its temporary file here. -/
def Volume.Own (V : Volume Path) (path : Path) : Prop := ∀ other, V.tmpPath other ≠ path

/-- The bundles are what the requests have stored. -/
structure Shelved (L : Stdlib) (describe : BundleError → Text) (V : Volume Path)
    (files : Files Path) (s : Computer Path) : Prop where
  /-- A read gives the last document stored before it, or what was there at first. -/
  reads : ∀ after path w reply before, s.log = after ++ ⟨.read path w, reply⟩ :: before →
    V.Own path → w.clientMissing = none → reply = match storedAt L path before with
      | some data => some (payloadReply data)
      | none => bundleRead L describe (facing w (files path))
  /-- A write that is confirmed has stored its document. -/
  writes : ∀ after path w data reply before,
    s.log = after ++ ⟨.write path w data, some reply⟩ :: before → saved reply = true →
      ∃ document, documentOf L data = some document ∧
        storedAt L path (⟨.write path w data, some reply⟩ :: before) = some document
  /-- What is stored would be stored again unchanged. -/
  again : ∀ path data, storedAt L path s.log = some data → documentOf L data = some data

/-! ## One request -/

variable {describe : BundleError → Text} {V : Volume Path} {files : Files Path}
  {s s' : Computer Path} {path : Path}

omit [DecidableEq Path] in
/-- A confirmed write of a clean document. -/
theorem stored_of_saved (hz : L.decompress [] = none) {w : World} {data : PyJson}
    (hdata : Clean data) (h : saved (bundleWrite L describe w data) = true) : ∃ document book,
      documentOf L data = some document ∧ fileAfterWrite L w data = .ok book ∧
      Stores L book document := by
  have hbuilt : ∃ p book out, buildPayload L data = .ok p ∧
      BundleWriter.write L book p = .ok out ∧ fileAfterWrite L w data = .ok out := by
    unfold bundleWrite at h
    unfold fileAfterWrite
    cases hmissing : w.clientMissing with
    | some message => simp only [hmissing] at h; cases h
    | none =>
        cases hp : buildPayload L data with
        | error e => simp only [hmissing, hp] at h; cases h
        | ok p =>
            cases hfile : w.file with
            | error e => cases e <;> simp only [hmissing, hp, hfile] at h <;> cases h
            | ok book =>
                cases hw : BundleWriter.write L book p with
                | error e => cases e <;> simp only [hmissing, hp, hfile, hw] at h <;> cases h
                | ok out => exact ⟨p, book, out, rfl, hw, by simp only [hw]⟩
  obtain ⟨p, book, out, hp, hwrite, hfile⟩ := hbuilt
  have hp' : Storable p := storable_buildPayload hdata hp
  obtain ⟨document, hdocument, hstores⟩ := stores_of_write hz hp' hwrite
  refine ⟨document, out, ?_, hfile, hstores⟩
  rw [documentOf, hp]
  simp only [hdocument, Except.toOption]

theorem bundleRead_stores {w : World} {book : Workbook} {data : PyJson} (h : Stores L book data)
    (hw : w.clientMissing = none) :
    bundleRead L describe (facing w (.ok book)) = some (payloadReply data) := by
  obtain ⟨p, hp, hdata⟩ := h.again
  have hread : BundleReader.read L book = .ok p := by
    simpa only [BundleReader.read, h.document, bind, Except.bind] using hp
  simp only [bundleRead, facing, hw, hread, hdata]
  rfl

/-- What lies at a path is what the log says. -/
def Holds (L : Stdlib) (files : Files Path) (path : Path) (file : Except FileError Workbook)
    (stored : Option PyJson) : Prop :=
  match stored with
  | none => file = files path
  | some data => ∃ book, file = .ok book ∧ Stores L book data

structure Kept (L : Stdlib) (describe : BundleError → Text) (V : Volume Path) (files : Files Path)
    (s : Computer Path) : Prop where
  holds : ∀ path, V.Own path → Holds L files path (s.files path) (storedAt L path s.log)
  shelved : Shelved L describe V files s

theorem Volume.fill_own {path other : Path} (hother : V.Own other)
    (left : Except FileError Workbook) : V.fill files path left other = files other :=
  Function.update_of_ne (hother path).symm _ _

theorem Volume.replace_own {path other : Path} (hother : V.Own other)
    (out : Except FileError Workbook) :
    V.replace files path out other = Function.update files path out other :=
  V.fill_own hother _

/-- One more request, with the files after it. -/
theorem Kept.cons {e : Entry Path} {files' : Files Path} (hs : Kept L describe V files s)
    (hholds : ∀ path, V.Own path → Holds L files path (files' path) (storedAt L path (e :: s.log)))
    (hread : ∀ path w, e.label = .read path w → V.Own path → w.clientMissing = none →
      e.reply = match storedAt L path s.log with
        | some data => some (payloadReply data)
        | none => bundleRead L describe (facing w (files path)))
    (hwrite : ∀ path w data reply, e = ⟨.write path w data, some reply⟩ → saved reply = true →
      ∃ document, storedBy L path e = some document ∧ documentOf L data = some document)
    (hagain : ∀ path data, storedBy L path e = some data → documentOf L data = some data) :
    Kept L describe V files ⟨files', e :: s.log⟩ where
  holds := hholds
  shelved := by
    refine ⟨fun after path w reply before hlog hown hw => ?_,
      fun after path w data reply before hlog hsaved => ?_, fun path data hstored => ?_⟩
    · rcases List.cons_eq_append_iff.mp hlog with ⟨-, hhead⟩ | ⟨after', -, htail⟩
      · obtain ⟨rfl, rfl⟩ := List.cons.inj hhead
        exact hread path w rfl hown hw
      · exact hs.shelved.reads after' path w reply before htail hown hw
    · rcases List.cons_eq_append_iff.mp hlog with ⟨-, hhead⟩ | ⟨after', -, htail⟩
      · obtain ⟨rfl, rfl⟩ := List.cons.inj hhead
        obtain ⟨document, hstored, hdocument⟩ := hwrite path w data reply rfl hsaved
        exact ⟨document, hdocument, by rw [storedAt, hstored, Option.some_or]⟩
      · exact hs.shelved.writes after' path w data reply before htail hsaved
    · rw [storedAt, Option.or_eq_some_iff] at hstored
      rcases hstored with hnew | ⟨-, hold⟩
      · exact hagain path data hnew
      · exact hs.shelved.again path data hold

/-- The requests that store nothing, whatever they leave in a temporary file. -/
theorem Kept.unstored {e : Entry Path} {files' : Files Path} (hs : Kept L describe V files s)
    (he : ∀ path, storedBy L path e = none)
    (hfiles : ∀ path, V.Own path → files' path = s.files path)
    (hread : ∀ path w, e.label = .read path w → V.Own path → w.clientMissing = none →
      e.reply = match storedAt L path s.log with
        | some data => some (payloadReply data)
        | none => bundleRead L describe (facing w (files path)))
    (hwrite : ∀ path w data reply, e = ⟨.write path w data, some reply⟩ → saved reply = false) :
    Kept L describe V files ⟨files', e :: s.log⟩ := by
  refine hs.cons (fun path hown => ?_) hread (fun path w data reply heq hsaved => ?_)
    fun path data hstored => ?_
  · rw [storedAt, he path, Option.none_or, hfiles path hown]
    exact hs.holds path hown
  · rw [hwrite path w data reply heq] at hsaved
    cases hsaved
  · rw [he path] at hstored
    cases hstored

/-- The document of a request has been put at one path. -/
theorem Kept.stored {e : Entry Path} {book : Workbook} {document : PyJson}
    (hs : Kept L describe V files s) (target : Path) (data : PyJson)
    (htarget : storedBy L target e = some document)
    (hothers : ∀ path, path ≠ target → storedBy L path e = none) (hstores : Stores L book document)
    (hread : ∀ path w, e.label ≠ .read path w)
    (hwrite : ∀ path w data' reply, e = ⟨.write path w data', some reply⟩ →
      path = target ∧ data' = data) (hdocument : documentOf L data = some document) :
    Kept L describe V files ⟨V.replace s.files target (.ok book), e :: s.log⟩ := by
  refine hs.cons (fun path hown => ?_) (fun path w heq => absurd heq (hread path w))
    (fun path w data' reply heq _ => ?_) fun path data' hstored => ?_
  · rw [V.replace_own hown, storedAt]
    by_cases hpath : path = target
    · subst hpath
      rw [Function.update_self, htarget, Option.some_or]
      exact ⟨book, rfl, hstores⟩
    · rw [Function.update_of_ne hpath, hothers path hpath, Option.none_or]
      exact hs.holds path hown
  · obtain ⟨rfl, rfl⟩ := hwrite path w data' reply heq
    exact ⟨document, htarget, hdocument⟩
  · by_cases hpath : path = target
    · rw [hpath, htarget, Option.some.injEq] at hstored
      exact hstored ▸ hstores.documentOf
    · rw [hothers path hpath] at hstored
      cases hstored

theorem Kept.read (hs : Kept L describe V files s) (path : Path) (w : World) :
    Kept L describe V files { s with
      log := ⟨.read path w, bundleRead L describe (facing w (s.files path))⟩ :: s.log } := by
  refine hs.unstored (fun _ => rfl) (fun _ _ => rfl) (fun path' w' heq hown hw => ?_)
    fun _ _ _ _ heq => by cases heq
  cases heq
  have hpath := hs.holds path hown
  dsimp only
  cases hstored : storedAt L path s.log with
  | none =>
      rw [hstored] at hpath
      rw [show s.files path = files path from hpath]
  | some data =>
      rw [hstored] at hpath
      obtain ⟨book, hbook, hstores⟩ := hpath
      rw [hbook]
      exact bundleRead_stores hstores hw

theorem Kept.write (hz : L.decompress [] = none) (hs : Kept L describe V files s) (path : Path)
    (w : World) {data : PyJson} (hdata : Clean data) {reply : Reply}
    (hreply : bundleWrite L describe (facing w (s.files path)) data = reply) :
    Kept L describe V files {
      files := if saved reply then
        V.replace s.files path (fileAfterWrite L (facing w (s.files path)) data) else s.files
      log := ⟨.write path w data, some reply⟩ :: s.log } := by
  cases hsaved : saved reply with
  | true =>
      obtain ⟨document, book, hdocument, hfile, hstores⟩ :=
        stored_of_saved hz hdata (hreply ▸ hsaved)
      rw [if_pos rfl, hfile]
      refine hs.stored path data ?_ (fun other hother => ?_) hstores
        (fun _ _ heq => by cases heq) (fun _ _ _ _ heq => ?_) hdocument
      · simp [storedBy, hsaved, hdocument]
      · simp [storedBy, hother.symm]
      · cases heq
        exact ⟨rfl, rfl⟩
  | false =>
      rw [if_neg Bool.false_ne_true]
      refine hs.unstored (fun _ => by simp [storedBy, hsaved]) (fun _ _ => rfl)
        (fun _ _ heq => by cases heq) fun _ _ _ _ heq => ?_
      cases heq
      exact hsaved

theorem Kept.failed (hs : Kept L describe V files s) (path : Path) (w : World) (data : PyJson)
    (e : FileError) (left : Except FileError Workbook) :
    Kept L describe V files {
      files := V.fill s.files path left
      log := ⟨.failed path w data e left, some (fileFailure e)⟩ :: s.log } :=
  hs.unstored (fun _ => rfl) (fun _ hown => V.fill_own hown left) (fun _ _ heq => by cases heq)
    fun _ _ _ _ heq => by cases heq

/-- A killed write that has not replaced its workbook. -/
theorem Kept.cut (hs : Kept L describe V files s) (path : Path) (w : World) (data : PyJson)
    {cut : Cut} (hcut : cut ≠ .replaced) {files' : Files Path}
    (hfiles : ∀ path, V.Own path → files' path = s.files path) :
    Kept L describe V files ⟨files', ⟨.killed path w data cut, none⟩ :: s.log⟩ := by
  have hstored (path' : Path) : storedBy L path' ⟨.killed path w data cut, none⟩ = none := by
    cases cut with
    | replaced => exact absurd rfl hcut
    | _ => rfl
  exact hs.unstored hstored hfiles (fun _ _ heq => by cases heq) fun _ _ _ _ heq => by cases heq

theorem Kept.replaced (hz : L.decompress [] = none) (hs : Kept L describe V files s) (path : Path)
    (w : World) {data : PyJson} (hdata : Clean data)
    (hsaved : saved (bundleWrite L describe (facing w (s.files path)) data) = true) :
    Kept L describe V files {
      files := V.replace s.files path (fileAfterWrite L (facing w (s.files path)) data)
      log := ⟨.killed path w data .replaced, none⟩ :: s.log } := by
  obtain ⟨document, book, hdocument, hfile, hstores⟩ := stored_of_saved hz hdata hsaved
  rw [hfile]
  refine hs.stored path data ?_ (fun other hother => ?_) hstores
    (fun _ _ heq => by cases heq) (fun _ _ _ _ heq => by cases heq) hdocument
  · simp [storedBy, hdocument]
  · simp [storedBy, hother.symm]

theorem Kept.next (hz : L.decompress [] = none) {a : Label Path} (hs : Kept L describe V files s)
    (ha : WritesClean s a) (h : next L describe V s a = some s') :
    Kept L describe V files s' := by
  cases a with
  | denied path e =>
      cases h
      exact hs.unstored (fun _ => rfl) (fun _ _ => rfl) (fun _ _ heq => by cases heq)
        fun _ _ _ _ heq => by cases heq
  | read path w =>
      cases h
      exact hs.read path w
  | write path w data =>
      cases h
      exact hs.write hz path w ha rfl
  | failed path w data e left =>
      simp only [BundleStore.next, Option.ite_none_right_eq_some, Option.some.injEq] at h
      obtain ⟨-, rfl⟩ := h
      exact hs.failed path w data e left
  | killed path w data cut =>
      cases cut with
      | early =>
          cases h
          exact hs.cut path w data (fun heq => by cases heq) fun _ _ => rfl
      | filling left =>
          simp only [BundleStore.next, Option.ite_none_right_eq_some, Option.some.injEq] at h
          obtain ⟨-, rfl⟩ := h
          exact hs.cut path w data (fun heq => by cases heq) fun _ hown => V.fill_own hown left
      | replaced =>
          simp only [BundleStore.next, Option.ite_none_right_eq_some, Option.some.injEq] at h
          obtain ⟨hsaved, rfl⟩ := h
          exact hs.replaced hz path w ha hsaved

/-- In every run, whatever is written elsewhere, denied, refused, failed or killed. -/
theorem bundles_shelved (L : Stdlib) (describe : BundleError → Text) (V : Volume Path)
    (files : Files Path) (hz : L.decompress [] = none) (s : Computer Path)
    (h : Reachable (computer L describe V files) WritesClean s) :
    Shelved L describe V files s := by
  have hstart : Kept L describe V files (computer L describe V files).start := by
    refine ⟨fun path _ => rfl, fun after path w reply before hlog => ?_,
      fun after path w data reply before hlog => ?_, fun path data hstored => ?_⟩
    · exact absurd hlog.symm (by simp [computer])
    · exact absurd hlog.symm (by simp [computer])
    · cases hstored
  exact (h.invariant hstart fun u a v _ hu ha hn => hu.next hz ha hn).shelved

end

/-! ## One document -/

def directWords : List String :=
  ["metadata", "created_ms", "schema_version", "ai_history", "sessions", "session_id", "test",
    "python_modules", "pandas"]

/-- No word has the last character of the terminator. -/
theorem clean_directDocument : Clean directDocument := by
  have hstrings : directDocument.strings = directWords.map lit := rfl
  have hplain := List.all_eq_true.mp
    (show (directWords.all fun word => !(lit word).contains (codePoint 62)) = true by decide)
  refine ⟨?_, fun s hs => ?_⟩
  · simp [directDocument, Json.UniqueKeys, Json.itemKeys, Json.fieldKeys, lit]
  · rw [hstrings] at hs
    obtain ⟨word, hword, rfl⟩ := List.mem_map.mp hs
    refine ⟨lit_scalar word, fun hinfix => ?_⟩
    have hmem : codePoint 62 ∈ lit word := hinfix.subset (by decide)
    simpa [hmem] using hplain word hword

/-- Paths as `pathlib` sees them. -/
def volume : Volume AtomicWrite.FilePath where
  tmpPath := AtomicWrite.FilePath.tmpPath
  shown path := lit path.parent ++ lit "/" ++ lit (String.ofList path.name)
  tmpPath_ne := AtomicWrite.tmpPath_ne

/-- Only names with the ending are in the way of a write. -/
theorem own_of_name {path : AtomicWrite.FilePath} (h : ¬ ".xlpod.tmp".toList <:+ path.name) :
    volume.Own path := by
  rintro other rfl
  refine h ?_
  change _ <:+ other.tmpPath.name
  rw [AtomicWrite.tmpPath_name]
  exact List.suffix_append _ _

def firstBook : AtomicWrite.FilePath := ⟨"/home/user", "first.xlsx".toList⟩

def secondBook : AtomicWrite.FilePath := ⟨"/home/user", "second.xlsx".toList⟩

def twoBooks : Machine (Computer AtomicWrite.FilePath) (Label AtomicWrite.FilePath) :=
  computer zlibStdlib (fun _ => []) volume fun _ => .ok minimalWorkbook

/-- The first write is confirmed, one elsewhere fails in its temporary file and one is
killed there, and then the first is read. -/
def writeThenRead : List (Label AtomicWrite.FilePath) :=
  [.write firstBook idleWorld directDocument,
    .failed secondBook idleWorld directDocument (.other []) (.ok .notZip),
    .killed secondBook idleWorld directDocument (.filling (.ok .notZip)),
    .read firstBook idleWorld]

theorem shelved_directDocument : ∃ s, Reachable twoBooks WritesClean s ∧
    s.log.map (fun e => e.reply.any saved) = [true, false, false, true] ∧ volume.Own firstBook ∧
    Shelved zlibStdlib (fun _ => []) volume (fun _ => .ok minimalWorkbook) s := by
  have hreplies : ((replay twoBooks unchecked twoBooks.start writeThenRead).map fun s =>
      s.log.map fun e => e.reply.any saved) = some [true, false, false, true] := by
    decide +kernel
  obtain ⟨s, hs, hlog⟩ := Option.map_eq_some_iff.mp hreplies
  have hclean : ∀ a ∈ writeThenRead, ∀ u, WritesClean u a := by
    simp only [writeThenRead, List.forall_mem_cons]
    exact ⟨fun _ => clean_directDocument, fun _ => clean_directDocument,
      fun _ => clean_directDocument, fun _ => trivial, fun _ h => (List.not_mem_nil h).elim⟩
  have h : Reachable twoBooks WritesClean s := replay_admitted hclean hs
  have hown : volume.Own firstBook := own_of_name (by decide)
  exact ⟨s, h, hlog, hown, bundles_shelved _ _ _ _ inflate_nil s h⟩

end Xlpod.BundleStore
