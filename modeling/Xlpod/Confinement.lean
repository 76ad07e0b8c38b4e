import Xlpod.Library.FileTree
import Xlpod.TrustRevocation

/-!
# Confinement to the granted roots

Every request sees a disk that does not change while it runs. Whoever reads a
file or calls the worker for a bundle has resolved the asked path first and
found it under the roots of its token, or of the token that opened its session;
so what is read is a file of the subtree of a granted root. The worker is sent
the path's text, and opens the same file only as far as that text denotes it: a
name that is not Unicode is shown by another.
-/
namespace Xlpod.Confinement
open Xlpod.ApiErrors Xlpod.Auth Xlpod.AiTypes Xlpod.BundlePayload Xlpod.ByteEncodings Xlpod.JsonText
open Xlpod.GuardedRuns Xlpod.Programs Xlpod.Interleaving Xlpod.SessionStores Xlpod.ServerState
open Xlpod.ServerCalls Xlpod.ToolDispatch Xlpod.ChatRoute Xlpod.Routes Xlpod.Server Xlpod.Footprints
open Xlpod.Serving Xlpod.Provenance Xlpod.FileTree
open SessionEscalation (recordOf)
open ToolGates (newUses)

/-! ## Disks -/

/-- A tree of files, the position the launcher works at, how a text is taken as
a path, and the text that is shown for the path down some names. -/
structure Disk where
  tree : Node String Bytes
  workingDir : List String
  parse : String → Option (Path String)
  display : List String → String

def Disk.Denotes (disk : Disk) (text : String) (names : List String) : Prop :=
  ∃ path, disk.parse text = some path ∧
    Resolves disk.tree (if path.absolute then [] else disk.workingDir) path.steps names

/-- The node that a path without links and dots leads to. -/
def Disk.Reaches (disk : Disk) (path : PathBuf) (node : Node String Bytes) : Prop :=
  ∃ names, Resolves disk.tree [] (Path.down path.components).steps names ∧
    walk disk.tree names = some node

def Measures (md : Metadata) : Node String Bytes → Prop
  | .file content => md.isFile = true ∧ md.len = content.length
  | _ => md.isFile = false

/-- What the system answers about the disk, when it does not fail. -/
def Disk.Gives (disk : Disk) : (op : Op) → op.Reply → Prop
  | .canonicalize text, some path => disk.Denotes text path.components ∧
      path.text = disk.display path.components
  | .isDir path, true => ∃ entries, disk.Reaches path (.dir entries)
  | .metadata path, some md => ∃ node, disk.Reaches path node ∧ Measures md node
  | .readFile path, some bytes => disk.Reaches path (.file bytes)
  | _, _ => True

/-- `bytes` is the whole file at `path`, a node of the subtree at `root`. -/
def Disk.Holds (disk : Disk) (root path : PathBuf) (bytes : Bytes) : Prop :=
  InSubtree disk.tree root.components path.components ∧
    walk disk.tree path.components = some (.file bytes) ∧ bytes.length ≤ fsReadMaxBytes

/-! ## What a request has asked the disk -/

structure Seen where
  record : Option TokenRecord
  session : Option Session
  asked : Option (String × PathBuf)
  measured : Option (PathBuf × Metadata)
  reads : List (String × PathBuf × Bytes)
  uses : List (String × String × PyJson)

def Seen.start : Seen := ⟨none, none, none, none, [], []⟩

/-- The file a call has read. -/
def readOf : (op : Op) → op.Reply → Option (PathBuf × Bytes)
  | .readFile path, some bytes => some (path, bytes)
  | _, _ => none

def note (seen : Seen) : (op : Op) → op.Reply → Seen
  | .lookup _, .ok record => { seen with record := some record }
  | .getSession _, .ok session => { seen with session := seen.session.or (some session) }
  | .canonicalize text, path => { seen with asked := path.map (text, ·) }
  | .metadata path, md => { seen with measured := md.map (path, ·) }
  | .readFile path, bytes => { seen with
      reads := seen.reads ++ (bytes.toList.flatMap fun b =>
        seen.asked.toList.map fun a => (a.1, path, b)) }
  | .appendMessages _ author messages, _ => { seen with
      uses := (newUses author messages).getD seen.uses }
  | _, _ => seen

/-- The roots of the session of a chat, and of the token of any other request. -/
def Seen.roots (request : Request) (seen : Seen) : Option (List PathBuf) :=
  if (inputFor request .aiChat).isSome then seen.session.map Session.fsRoots
  else seen.record.map TokenRecord.fsRoots

/-- The text was resolved to this path, and it is under a root. -/
def Located (request : Request) (seen : Seen) (text : String) (path : PathBuf) : Prop :=
  seen.asked = some (text, path) ∧
    ∃ roots, seen.roots request = some roots ∧ underRoots roots path = true

/-- The path a bundle request is about. -/
def bundlePath (request : Request) : Option String :=
  (inputFor request .bundleRead).or ((inputFor request .bundleWrite).map BundleWriteRequest.path)

/-- The path a route is asked for. -/
def askedPath (request : Request) : Option String :=
  (inputFor request .fsRead).or (bundlePath request)

/-- It reads a file or its metadata, or calls the worker. -/
def consults : Op → Bool
  | .metadata _ | .readFile _ => true
  | .workerLock | .workerWrite _ _ | .workerFlush | .workerRead | .workerReap => true
  | _ => false

def isError : ResponseBody → Bool
  | .error _ | .rejection => true
  | _ => false

section
variable {d : Deployment}

def seenOf (i : ℕ) (events : List (Event (server d))) : Seen := track note .start i events

/-- The record is that of a token issued to a handshake. -/
def Issued (events : List (Event (server d))) (record : TokenRecord) : Prop :=
  ∃ token, ∃ o ∈ events, (inputFor o.request .handshake).isSome ∧ issuedBy o = some (token, record)

/-- The roots granted to the token of a request, or for a chat to the token
that opened its session. -/
def RootsOf (e : Event (server d)) (before : List (Event (server d))) (roots : List PathBuf) : Prop :=
  match inputFor e.request .aiChat with
  | some body => ∃ after o earlier first record, before = after ++ o :: earlier ∧
      openedBy o = some first ∧ first.id = ChatRequest.sessionId body ∧
        recordOf o.task earlier = some record ∧ Issued earlier record ∧ roots = record.fsRoots
  | none => ∃ record, recordOf e.task before = some record ∧ Issued before record ∧
      roots = record.fsRoots

/-- The text denotes `path`, and the bytes are those of a file in a granted root. -/
def Delivered (disk : Disk) (e : Event (server d)) (before : List (Event (server d)))
    (text : String) (path : PathBuf) (bytes : Bytes) : Prop :=
  disk.Denotes text path.components ∧
    ∃ roots, RootsOf e before roots ∧ ∃ root ∈ roots, disk.Holds root path bytes

/-- This request has read the file before. -/
def Given (disks : ℕ → Disk) (e : Event (server d)) (before : List (Event (server d)))
    (text : String) (path : PathBuf) (bytes : Bytes) : Prop :=
  ∃ between l earlier, before = between ++ l :: earlier ∧ l.task = e.task ∧
    readOf l.op l.reply = some (path, bytes) ∧ Delivered (disks e.task) l earlier text path bytes

/-- A successful `fs_read` gives the model such a file. -/
def Told (Given : String → PathBuf → Bytes → Prop) (use : String × String × PyJson)
    (block : ContentBlock) : Prop :=
  use.2.1 = "fs_read" → ∀ value via, block = .toolResult use.1 true value via →
    ∃ text path bytes, (field use.2.2 "path").bind asStr = some text ∧ Given text path bytes ∧
      value = FileContent.toValue (fileContent ⟨path, bytes⟩)

structure Confined (disks : ℕ → Disk) (w : World (server d)) : Prop where
  reads : Throughout (fun e before => ∀ path bytes, readOf e.op e.reply = some (path, bytes) →
    ∃ text, Delivered (disks e.task) e before text path bytes) w.events
  answers : Throughout (fun e before => ∀ text, inputFor e.request .fsRead = some text →
    ∀ status id content, e.op = Op.respond ⟨status, id, .file content⟩ → ∃ path bytes,
      Given disks e before text path bytes ∧ content = fileContent ⟨path, bytes⟩) w.events
  results : Throughout (fun e before => ∀ id messages, e.op = Op.appendMessages id .dispatch messages →
    ∃ results, messages = [⟨.tool, none, results⟩] ∧
      List.Forall₂ (Told (Given disks e before)) (seenOf e.task before).uses results) w.events
  calls : Throughout (fun e before => ∀ text, bundlePath e.request = some text →
    ∀ method params, e.op = Op.workerWrite method params → ∃ sent,
      field params "path" = some (str sent) ∧ ∀ names, (disks e.task).Denotes sent names →
        ∃ roots, RootsOf e before roots ∧ ∃ root ∈ roots,
          InSubtree (disks e.task).tree root.components names) w.events
  refused : Throughout (fun e before => ∀ text roots, askedPath e.request = some text →
    RootsOf e before roots → (∀ names, (disks e.task).Denotes text names → ∀ root ∈ roots,
      ¬ InSubtree (disks e.task).tree root.components names) →
    consults e.op = false ∧ ∀ response, e.op = Op.respond response → isError response.body = true)
    w.events

/-- The disk of a request stays the same while it runs. -/
def stable (disks : ℕ → Disk) (w : World (server d)) : Label (server d) → Prop
  | .call i env => ∀ request op reply s, w.about i = some (request, op) →
      exec w.shared env op = some (reply, s) → (disks i).Gives op reply
  | _ => True

/-- The text shown for what a bundle request asks for denotes it too. -/
def legible (disks : ℕ → Disk) (w : World (server d)) (a : Label (server d)) : Prop :=
  stable disks w a ∧ match a with
  | .arrive i request => ∀ text names, bundlePath request = some text →
      (disks i).Denotes text names → (disks i).Denotes ((disks i).display names) names
  | _ => True

end

/-! ## The protocol -/

/-- Located, and for the path the route was asked for. -/
def Resolved (request : Request) (seen : Seen) (path : PathBuf) : Prop :=
  ∃ text, Located request seen text path ∧ ∀ asked, askedPath request = some asked → asked = text

/-- An answer that tells of a file tells of one that was read, and one that is
no error is about a located path. -/
def Fits (request : Request) (seen : Seen) (body : ResponseBody) : Prop :=
  (∀ text, inputFor request .fsRead = some text → ∀ content, body = .file content →
    ∃ path bytes, (text, path, bytes) ∈ seen.reads ∧ content = fileContent ⟨path, bytes⟩) ∧
  ∀ text, askedPath request = some text → isError body = false →
    ∃ path, Located request seen text path

def Careful (request : Request) (seen : Seen) : Op → Prop
  | .getSession id => ∀ body, inputFor request .aiChat = some body → seen.session = none →
      id = ChatRequest.sessionId body
  | .metadata path => Resolved request seen path
  | .readFile path => Resolved request seen path ∧ ∃ md, seen.measured = some (path, md) ∧
      md.isFile = true ∧ md.len ≤ fsReadMaxBytes
  | .workerWrite _ params => ∀ text, askedPath request = some text → ∃ path,
      Located request seen text path ∧ field params "path" = some (str path.text)
  | .workerLock | .workerFlush | .workerRead | .workerReap => ∀ text,
      askedPath request = some text → ∃ path, Located request seen text path
  | .respond response => Fits request seen response.body
  | .appendMessages _ .dispatch messages => ∃ results, messages = [⟨.tool, none, results⟩] ∧
      List.Forall₂ (Told fun text path bytes => (text, path, bytes) ∈ seen.reads) seen.uses results
  | _ => True

def conduct (request : Request) : Contract api Seen where
  pre := Careful request
  fact _ _ _ := True
  next := note

def protocol (d : Deployment) : Protocol (server d) Seen where
  contract := conduct
  start _ := .start
  post _ _ := True

/-- Who it is and what it was asked to do stays; what was read stays read. -/
structure Kept (seen seen' : Seen) : Prop where
  record : seen'.record = seen.record
  session : seen'.session = seen.session
  uses : seen'.uses = seen.uses
  reads : ∀ x ∈ seen.reads, x ∈ seen'.reads

section
variable {request : Request} {seen seen' : Seen}

theorem Kept.refl (seen : Seen) : Kept seen seen := ⟨rfl, rfl, rfl, fun _ hx => hx⟩

theorem Kept.trans {a b c : Seen} (h : Kept a b) (k : Kept b c) : Kept a c :=
  ⟨k.record.trans h.record, k.session.trans h.session, k.uses.trans h.uses,
    fun x hx => k.reads x (h.reads x hx)⟩

theorem Kept.roots (h : Kept seen seen') : seen'.roots request = seen.roots request := by
  rw [Seen.roots, Seen.roots, h.record, h.session]

theorem Fits.error {body : ResponseBody} (h : isError body = true) : Fits request seen body := by
  constructor
  · rintro text - content rfl
    cases h
  · intro text _ hbody
    rw [h] at hbody
    cases hbody

/-- What neither touches the disk or the worker nor says what to do. -/
def freeOps : Op → Prop
  | .lookup _ | .getSession _ | .canonicalize _ | .respond _ | .appendMessages .. => False
  | op => consults op = false

theorem ignores_free : Ignores (conduct request) freeOps := by
  intro seen op ho
  cases op <;> first | exact ho.elim | exact ⟨trivial, fun _ => rfl⟩ | cases ho

/-- A file read: the path was located, and its bytes are remembered. -/
theorem readUnderRoots_conduct {text : String} {roots : List PathBuf}
    (hroots : seen.roots request = some roots) (hasked : ∀ t, askedPath request = some t → t = text) :
    Meets (conduct request) (readUnderRoots text roots).run seen (OnResult
      (fun seen' r => Kept seen seen' ∧ Located request seen' text r.canonical ∧
        (text, r.canonical, r.bytes) ∈ seen'.reads) fun seen' _ => Kept seen seen') := by
  unfold readUnderRoots
  simp only [meets_exceptIte, meets_exceptBind, meets_throw, meets_lift, meets_okOr, onResult_error,
    onResult_ok, meets_exceptPure]
  refine ⟨fun _ => .refl _, fun _ => ⟨trivial, fun found _ => ⟨fun path hpath => ?_, fun _ => ?_⟩⟩⟩
  · subst hpath
    refine ⟨fun _ => ⟨rfl, rfl, rfl, fun _ hx => hx⟩, fun hunder => ?_⟩
    have hlocated : Located request ((conduct request).next seen (.canonicalize text) (some path))
        text path := by
      refine ⟨rfl, roots, hroots, ?_⟩
      simpa using hunder
    refine ⟨⟨text, hlocated, hasked⟩, fun md _ => ⟨fun md' hmd => ?_, fun _ => ?_⟩⟩
    · subst hmd
      refine ⟨fun _ => ⟨rfl, rfl, rfl, fun _ hx => hx⟩, fun hfile => ?_⟩
      refine ⟨fun _ => ⟨rfl, rfl, rfl, fun _ hx => hx⟩, fun hsize => ?_⟩
      refine ⟨⟨⟨text, hlocated, hasked⟩, md', rfl, by simpa using hfile, by simpa using hsize⟩, ?_⟩
      intro bytes _
      refine ⟨fun content hcontent => ?_, fun hnone => ?_⟩
      · subst hcontent
        refine ⟨⟨rfl, rfl, rfl, fun x hx => List.mem_append_left _ hx⟩, hlocated, ?_⟩
        apply List.mem_append_right
        simp [conduct, note]
      · subst hnone
        exact ⟨rfl, rfl, rfl, fun x hx => List.mem_append_left _ hx⟩
    · exact ⟨rfl, rfl, rfl, fun _ hx => hx⟩
  · exact ⟨rfl, rfl, rfl, fun _ hx => hx⟩

theorem ensurePathUnderRoots_conduct {text : String} {token : TokenRecord}
    (hroots : seen.roots request = some token.fsRoots) :
    Meets (conduct request) (ensurePathUnderRoots text token).run seen (OnResult
      (fun seen' path => Kept seen seen' ∧ Located request seen' text path)
      fun seen' _ => Kept seen seen') := by
  unfold ensurePathUnderRoots
  simp only [meets_exceptIte, meets_exceptBind, meets_throw, meets_lift, meets_okOr, onResult_error,
    onResult_ok, meets_exceptPure]
  refine ⟨trivial, fun found _ => ⟨fun path hpath => ?_, fun _ => ⟨rfl, rfl, rfl, fun _ hx => hx⟩⟩⟩
  subst hpath
  refine ⟨fun _ => ⟨rfl, rfl, rfl, fun _ hx => hx⟩, fun hunder => ?_⟩
  refine ⟨⟨rfl, rfl, rfl, fun _ hx => hx⟩, rfl, token.fsRoots, hroots, ?_⟩
  simpa using hunder

/-- The worker is called for a located path, and remembers nothing. -/
theorem workerCall_conduct {method text : String} {params : PyJson} {path : PathBuf}
    (hlocated : Located request seen text path) (hasked : askedPath request = some text)
    (hparams : field params "path" = some (str path.text)) :
    Meets (conduct request) (workerCall method params).run seen fun seen' _ => seen' = seen := by
  have hcall : Uses (callOps fun _ args => args = params) (workerCall method params).run :=
    workerCall_calls rfl
  apply hcall.meets (K := (· = seen)) rfl
  · rintro seen op rfl ho
    have hpath (asked : String) (h : askedPath request = some asked) :
        Located request seen asked path := by
      rw [hasked, Option.some.injEq] at h
      exact h ▸ hlocated
    cases op with
    | workerWrite method' args =>
        subst ho
        exact fun asked h => ⟨path, hpath asked h, hparams⟩
    | workerLock | workerFlush | workerRead | workerReap => exact fun asked h => ⟨path, hpath asked h⟩
    | _ => exact ho.elim
  · rintro _ op r rfl ho
    cases op <;> first | exact ho.elim | rfl

/-! ### The routes -/

theorem roots_of_record {token : TokenRecord} (hchat : inputFor request .aiChat = none)
    (h : seen.record = some token) : seen.roots request = some token.fsRoots := by
  rw [Seen.roots, hchat, h]
  rfl

theorem roots_of_session {session : Session} (hchat : (inputFor request .aiChat).isSome)
    (h : seen.session = some session) : seen.roots request = some session.fsRoots := by
  rw [Seen.roots, if_pos hchat, h]
  rfl

theorem askedPath_none {r : Route} {input : r.Input} (h : inputFor request r = some input)
    (hfs : r ≠ .fsRead) (hread : r ≠ .bundleRead) (hwrite : r ≠ .bundleWrite) :
    askedPath request = none := by
  rw [askedPath, bundlePath, inputFor_ne h hfs.symm, inputFor_ne h hread.symm,
    inputFor_ne h hwrite.symm]
  rfl

theorem fsRead_conduct {text : String} {token : TokenRecord}
    (hinput : inputFor request .fsRead = some text) (htoken : seen.record = some token) :
    Meets (conduct request) (Routes.fsRead token text).run seen
      fun seen' x => Fits request seen' (bodyOf x) := by
  have hasked : askedPath request = some text := by
    rw [askedPath, hinput]
    rfl
  have hroots := roots_of_record (inputFor_ne hinput (by decide)) htoken
  refine meets_exceptBind.mpr ((readUnderRoots_conduct hroots fun t ht => ?_).mono fun seen' r h => ?_)
  · rw [hasked, Option.some.injEq] at ht
    exact ht.symm
  · cases r with
    | error e => exact .error rfl
    | ok result =>
        obtain ⟨-, hlocated, hread⟩ := h
        constructor
        · intro text' htext content hcontent
          cases hinput.symm.trans htext
          cases hcontent
          exact ⟨result.canonical, result.bytes, hread, rfl⟩
        · intro text' htext _
          cases hasked.symm.trans htext
          exact ⟨result.canonical, hlocated⟩

/-- The worker's answer about a located path. -/
theorem fits_bundle {text : String} {path : PathBuf} (hfs : inputFor request .fsRead = none)
    (hasked : askedPath request = some text) (hlocated : Located request seen text path)
    (body : ResponseBody) : Fits request seen body := by
  constructor
  · intro text' htext
    rw [hfs] at htext
    cases htext
  · intro text' htext _
    cases hasked.symm.trans htext
    exact ⟨path, hlocated⟩

theorem bundleRead_conduct {text : String} {token : TokenRecord}
    (hinput : inputFor request .bundleRead = some text) (htoken : seen.record = some token) :
    Meets (conduct request) (bundleReadRoute token text).run seen
      fun seen' x => Fits request seen' (bodyOf x) := by
  have hroots := roots_of_record (inputFor_ne hinput (by decide)) htoken
  have hasked : askedPath request = some text := by
    rw [askedPath, bundlePath, inputFor_ne hinput (by decide), hinput]
    rfl
  refine meets_exceptBind.mpr ((ensurePathUnderRoots_conduct hroots).mono fun seen' r h => ?_)
  cases r with
  | error e => exact .error rfl
  | ok path =>
      have hfits := fits_bundle (inputFor_ne hinput (by decide)) hasked h.2
      refine meets_exceptBind.mpr ((workerCall_conduct h.2 hasked rfl).mono fun seen'' r hsame => ?_)
      subst hsame
      cases r with
      | error e => exact .error rfl
      | ok resp =>
          refine meets_exceptBind.mpr (meets_exceptIte.mpr ⟨fun _ => .error rfl, fun _ => ?_⟩)
          exact hfits _

theorem bundleWrite_conduct {body : BundleWriteRequest} {token : TokenRecord}
    (hinput : inputFor request .bundleWrite = some body) (htoken : seen.record = some token) :
    Meets (conduct request) (bundleWriteRoute token body).run seen
      fun seen' x => Fits request seen' (bodyOf x) := by
  have hroots := roots_of_record (inputFor_ne hinput (by decide)) htoken
  have hasked : askedPath request = some body.path := by
    rw [askedPath, bundlePath, inputFor_ne hinput (by decide), inputFor_ne hinput (by decide), hinput]
    rfl
  refine meets_exceptBind.mpr ((ensurePathUnderRoots_conduct hroots).mono fun seen' r h => ?_)
  cases r with
  | error e => exact .error rfl
  | ok path =>
      have hfits := fits_bundle (inputFor_ne hinput (by decide)) hasked h.2
      refine ⟨trivial, fun approved _ => meets_exceptIte.mpr ⟨fun _ => .error rfl, fun _ => ?_⟩⟩
      refine meets_exceptBind.mpr ((workerCall_conduct h.2 hasked rfl).mono fun seen'' r hsame => ?_)
      subst hsame
      cases r with
      | error e => exact .error rfl
      | ok resp =>
          refine meets_exceptBind.mpr (meets_exceptIte.mpr ⟨fun _ => .error rfl, fun _ => ?_⟩)
          exact hfits _

/-! ### The chat -/

theorem fsRead_scope {spec : ToolSpec} (h : findTool "fs_read" = some spec) :
    spec.requiredScope = .fsRead := by
  cases h
  rfl

section
variable {body : ChatRequest Uuid} {session : Session}

/-- Where no path is asked for the worker is free to be called. -/
theorem ignores_worker (hnone : askedPath request = none) {calls : String → PyJson → Prop} :
    Ignores (conduct request) (callOps calls) := by
  intro seen op ho
  cases op with
  | workerWrite | workerLock | workerFlush | workerRead | workerReap =>
      refine ⟨fun text htext => ?_, fun _ => rfl⟩
      rw [hnone] at htext
      cases htext
  | _ => exact ho.elim

/-- A tool that succeeds under `fs_read` tells of a file that was read. -/
theorem runTool_conduct (hinput : inputFor request .aiChat = some body)
    (hsession : seen.session = some session) (planOnly : Bool) (scope : Scope) (name : String)
    (input : PyJson) : Meets (conduct request) (runTool ⟨session, planOnly⟩ scope name input).run seen
      fun seen' r => Kept seen seen' ∧ ∀ value, r = .ok value → scope = .fsRead →
        ∃ text path bytes, (field input "path").bind asStr = some text ∧
          (text, path, bytes) ∈ seen'.reads ∧
            value = FileContent.toValue (fileContent ⟨path, bytes⟩) := by
  have hnone : askedPath request = none :=
    askedPath_none hinput (by decide) (by decide) (by decide)
  by_cases hscope : scope = .fsRead
  · subst hscope
    have hroots := roots_of_session (Option.isSome_of_eq_some hinput) hsession
    refine meets_exceptBind.mpr (meets_okOr.mpr ⟨fun text htext => ?_, fun _ => ?_⟩)
    · refine meets_exceptBind.mpr ((readUnderRoots_conduct hroots fun t ht => ?_).mono
        fun seen' r h => ?_)
      · rw [hnone] at ht
        cases ht
      · cases r with
        | error e => exact ⟨h, fun value hvalue => by cases hvalue⟩
        | ok result =>
            refine ⟨h.1, fun value hvalue _ => ?_⟩
            cases hvalue
            exact ⟨text, result.canonical, result.bytes, htext, h.2.2, rfl⟩
    · exact ⟨.refl _, fun value hvalue => by cases hvalue⟩
  · have hcalls := runTool_calls ⟨session, planOnly⟩ hscope name input
    refine ((ignores_worker hnone).meets hcalls).mono fun seen' r hsame => ?_
    subst hsame
    exact ⟨.refl _, fun _ _ h => absurd h hscope⟩

theorem runOne_conduct (hinput : inputFor request .aiChat = some body)
    (hsession : seen.session = some session) (planOnly : Bool) (name : String) (input : PyJson) :
    Meets (conduct request) (runOne ⟨session, planOnly⟩ name input).run seen
      fun seen' r => Kept seen seen' ∧ ∀ value via, r = .ok (value, via) → name = "fs_read" →
        ∃ text path bytes, (field input "path").bind asStr = some text ∧
          (text, path, bytes) ∈ seen'.reads ∧
            value = FileContent.toValue (fileContent ⟨path, bytes⟩) := by
  have herror {e : ApiError} {seen' : Seen} (h : Kept seen seen') : Kept seen seen' ∧
      ∀ value via, (.error e : Except ApiError (PyJson × ApprovedVia)) = .ok (value, via) →
        name = "fs_read" → ∃ text path bytes, (field input "path").bind asStr = some text ∧
          (text, path, bytes) ∈ seen'.reads ∧
            value = FileContent.toValue (fileContent ⟨path, bytes⟩) :=
    ⟨h, fun value via hvalue => by cases hvalue⟩
  have hgate : Ignores (conduct request) gateOps :=
    ignores_free.mono fun op ho => by cases op <;> first | exact ho.elim | rfl
  unfold runOne
  refine meets_exceptBind.mpr (meets_okOr.mpr ⟨fun spec hspec => ?_, fun _ => herror (.refl _)⟩)
  refine meets_exceptIte.mpr ⟨fun _ => herror (.refl _), fun _ => ?_⟩
  refine meets_exceptBind.mpr ((hgate.meets (approve_uses _ _ _)).mono fun seen' r hsame => ?_)
  subst hsame
  cases r with
  | error e => exact herror (.refl _)
  | ok via =>
      refine ⟨trivial, fun _ _ => ?_⟩
      refine meets_exceptBind.mpr ((runTool_conduct hinput hsession _ _ _ _).mono fun seen'' r h => ?_)
      cases r with
      | error e => exact herror h.1
      | ok value =>
          refine ⟨h.1, fun value' via' hvalue hname => ?_⟩
          cases hvalue
          subst hname
          exact h.2 value rfl (fsRead_scope hspec)

theorem Told.mono {Given Given' : String → PathBuf → Bytes → Prop} {use : String × String × PyJson}
    {block : ContentBlock} (h : Told Given use block)
    (hg : ∀ text path bytes, Given text path bytes → Given' text path bytes) :
    Told Given' use block := by
  intro hname value via hblock
  obtain ⟨text, path, bytes, htext, hgiven, hvalue⟩ := h hname value via hblock
  exact ⟨text, path, bytes, htext, hg text path bytes hgiven, hvalue⟩

theorem executeToolUses_conduct (hinput : inputFor request .aiChat = some body)
    (hsession : seen.session = some session) (planOnly : Bool)
    (toolUses : List (String × String × PyJson)) :
    Meets (conduct request) (executeToolUses ⟨session, planOnly⟩ toolUses) seen
      fun seen' results => Kept seen seen' ∧ List.Forall₂
        (Told fun text path bytes => (text, path, bytes) ∈ seen'.reads) toolUses results := by
  induction toolUses generalizing seen with
  | nil => exact ⟨.refl _, .nil⟩
  | cons use rest ih =>
      apply meets_bind.mpr
      apply meets_bind.mpr
      refine (runOne_conduct hinput hsession planOnly use.2.1 use.2.2).mono fun seen₁ r h₁ => ?_
      apply meets_bind.mpr
      refine (ih (h₁.1.session.trans hsession)).mono fun seen₂ results h₂ => ?_
      refine ⟨h₁.1.trans h₂.1, .cons ?_ h₂.2⟩
      intro hname value via hblock
      cases r with
      | error e => cases hblock
      | ok done =>
          obtain ⟨value', via'⟩ := done
          cases hblock
          obtain ⟨text, path, bytes, htext, hread, hvalue⟩ := h₁.2 value _ rfl hname
          exact ⟨text, path, bytes, htext, h₂.1.reads _ hread, hvalue⟩

def outline (hinput : inputFor request .aiChat = some body) (provider : Provider) :
    Outline (conduct request) provider session body where
  ready seen := seen.session = some session
  asked seen _ := seen.session = some session
  stored seen turn := seen.session = some session ∧ seen.uses = toolUsesOf turn.message.content
  charged seen turn := seen.session = some session ∧ seen.uses = toolUsesOf turn.message.content
  answered seen _ results := seen.session = some session ∧ List.Forall₂
    (Told fun text path bytes => (text, path, bytes) ∈ seen.reads) seen.uses results
  ended _ := True
  ended_of_ready _ _ := trivial
  ask := by
    intro seen history hsession
    have hquiet : Ignores (conduct request) providerOps :=
      ignores_free.mono fun op ho => by cases op <;> first | exact ho.elim | rfl
    refine (hquiet.meets (providerTurn_uses provider history _)).mono fun seen' r hsame => ?_
    subst hsame
    cases r with
    | error e => trivial
    | ok turn => exact hsession
  store := by
    intro seen turn hsession
    refine ⟨trivial, fun r _ => ?_⟩
    cases r with
    | error e => trivial
    | ok _ => exact ⟨hsession, rfl⟩
  charge := by
    intro seen turn hstored
    have hquiet : Ignores (conduct request) costOps :=
      ignores_free.mono fun op ho => by cases op <;> first | exact ho.elim | rfl
    refine (hquiet.meets (recordCost_uses _ _ _)).mono fun seen' _ hsame => ?_
    rw [hsame]
    exact hstored
  finish _ _ _ _ := trivial
  answer := by
    intro seen turn hcharged _
    refine (executeToolUses_conduct hinput hcharged.1 _ _).mono fun seen' results h => ?_
    refine ⟨h.1.session.trans hcharged.1, ?_⟩
    rw [h.1.uses, hcharged.2]
    exact h.2
  reply := by
    intro seen turn results hanswered
    refine ⟨⟨results, rfl, hanswered.2⟩, fun r _ => ?_⟩
    cases r with
    | error e => trivial
    | ok _ => exact hanswered.1

theorem aiChat_conduct (hinput : inputFor request .aiChat = some body)
    (hsession : seen.session = none) (providers : ProviderRegistry) :
    Meets (conduct request) (aiChat providers body).run seen fun _ _ => True := by
  apply aiChat_meets fun _ => True
  · exact ignores_free.mono fun op ho => by subst ho; rfl
  · trivial
  · refine ⟨fun body' hbody _ => ?_, fun r _ => ?_⟩
    · cases hinput.symm.trans hbody
      rfl
    · cases r with
      | error e => trivial
      | ok session =>
          have hfound : ((conduct request).next seen (.getSession body.sessionId)
              (.ok session)).session = some session := by
            change seen.session.or (some session) = some session
            rw [hsession]
            rfl
          refine ⟨trivial, fun provider _ => ⟨trivial, fun r _ => ?_⟩⟩
          cases r with
          | error e => trivial
          | ok _ =>
              refine ⟨fun _ _ hnone => ?_, fun r _ => ?_⟩
              · have hstill : seen.session.or (some session) = none := hnone
                rw [hsession] at hstill
                cases hstill
              · cases r with
                | error e => trivial
                | ok current =>
                    refine ⟨outline hinput provider, rfl, ?_⟩
                    change (seen.session.or (some session)).or (some current) = some session
                    rw [hsession]
                    rfl

end

/-! ### Any request -/

/-- What the handlers of all other routes do. -/
theorem handler_conduct {d : Deployment} {r : Route} {input : r.Input} {token : Option TokenRecord}
    (hinput : inputFor request r = some input) (hsession : seen.session = none)
    (htoken : seen.record = token) :
    Meets (conduct request) (handler d request.origin token r input).run seen
      fun seen' x => Fits request seen' (bodyOf x) := by
  have hplain (hfs : r ≠ .fsRead) (hread : r ≠ .bundleRead) (hwrite : r ≠ .bundleWrite)
      {seen' : Seen} (body : ResponseBody) : Fits request seen' body := by
    constructor
    · intro text htext
      rw [inputFor_ne hinput hfs.symm] at htext
      cases htext
    · intro text htext
      rw [askedPath_none hinput hfs hread hwrite] at htext
      cases htext
  have hother (hfs : r ≠ .fsRead) (hread : r ≠ .bundleRead) (hwrite : r ≠ .bundleWrite)
      (hpre : ∀ seen op, handlerOps r op → (conduct request).pre seen op) :
      Meets (conduct request) (handler d request.origin token r input).run seen
        fun seen' x => Fits request seen' (bodyOf x) := by
    have huses := handler_uses d request.origin token r input
    have hmeets := huses.meets (g := seen) (K := fun _ => True) trivial
      (fun seen op _ ho => hpre seen op ho) fun _ _ _ _ _ => trivial
    exact hmeets.mono fun seen' x _ => hplain hfs hread hwrite _
  have hget (hchat : r ≠ .aiChat) (seen : Seen) (id : Uuid) : Careful request seen (.getSession id) := by
    intro body hbody
    rw [inputFor_ne hinput hchat.symm] at hbody
    cases hbody
  cases r with
  | fsRead =>
      cases token with
      | none => exact .error rfl
      | some record => exact fsRead_conduct hinput htoken
  | bundleRead =>
      cases token with
      | none => exact .error rfl
      | some record => exact bundleRead_conduct hinput htoken
  | bundleWrite =>
      cases token with
      | none => exact .error rfl
      | some record => exact bundleWrite_conduct hinput htoken
  | aiChat =>
      refine (aiChat_conduct hinput hsession d.providers).mono fun seen' x _ => ?_
      exact hplain (by decide) (by decide) (by decide) _
  | runPython | excelWorkbooks | excelRangeRead =>
      have hnone : askedPath request = none :=
        askedPath_none hinput (by decide) (by decide) (by decide)
      refine hother (by decide) (by decide) (by decide) fun seen op ho => ?_
      exact (ignores_worker hnone seen op ho).1
  | aiSessionHistory =>
      refine hother (by decide) (by decide) (by decide) fun seen op ho => ?_
      cases op with
      | getSession id => exact hget (by decide) seen id
      | _ => exact ho.elim
  | aiConsentWindow =>
      refine hother (by decide) (by decide) (by decide) fun seen op ho => ?_
      cases op with
      | getSession id => exact hget (by decide) seen id
      | _ => first | exact ho.elim | trivial
  | _ =>
      refine hother (by decide) (by decide) (by decide) fun seen op ho => ?_
      cases op <;> first | exact ho.elim | trivial

end

theorem refuses {request : Request} : Refuses (conduct request) fun body => isError body = true :=
  ⟨rfl, rfl, rfl, fun _ _ _ _ => rfl, fun _ _ _ _ _ => rfl, rfl, rfl⟩

theorem serve_conduct (d : Deployment) (request : Request) :
    Meets (conduct request) ((server d).serve request) .start fun _ _ => True := by
  have hquiet : Ignores (conduct request) quietOps :=
    ignores_free.mono fun op ho => by cases op <;> first | exact ho.elim | rfl
  apply serve_meets_of (R := fun _ => True) (Q := Fits request) refuses hquiet
  · exact fun seen response hfits => ⟨hfits, fun _ => trivial⟩
  · exact fun body hbody => .error hbody
  · exact fun token _ => ⟨trivial, fun reply _ body hbody => .error hbody⟩
  · exact fun r input hinput _ => handler_conduct hinput rfl rfl
  · exact fun r need input token record hinput _ _ _ _ => handler_conduct hinput rfl rfl

theorem sound (d : Deployment) (guard : World (server d) → Label (server d) → Prop) :
    Sound (protocol d) guard :=
  fun _ _ _ _ _ _ _ _ _ _ _ _ => trivial

/-! ## Runs -/

section
variable {d : Deployment} {guard : World (server d) → Label (server d) → Prop}
  {disks : ℕ → Disk} {w : World (server d)} {i : ℕ}

/-! ### Whose roots -/

theorem seen_record (i : ℕ) (events : List (Event (server d))) :
    (seenOf i events).record = recordOf i events := by
  apply track_map (f := Seen.record)
  intro seen op r
  cases op with
  | lookup token => cases r <;> rfl
  | getSession id => cases r <;> rfl
  | _ => rfl

/-- The first session a request finds. -/
def firstFound (found : Option Session) (op : Op) (r : op.Reply) : Option Session :=
  found.or (ToolGates.fetched op r)

theorem note_session (seen : Seen) (op : Op) (r : op.Reply) :
    (note seen op r).session = firstFound seen.session op r := by
  cases op with
  | lookup token => cases r <;> exact Option.or_none.symm
  | getSession id => cases r <;> simp [note, firstFound, ToolGates.fetched]
  | _ => exact Option.or_none.symm

theorem seen_session (i : ℕ) (events : List (Event (server d))) :
    (seenOf i events).session = (ToolGates.progressOf i events).found := by
  have hseen : (seenOf i events).session = track firstFound none i events := by
    apply track_map Seen.session
    exact note_session
  have hprogress : (ToolGates.progressOf i events).found = track firstFound none i events := by
    apply track_map ToolGates.Progress.found
    exact ToolGates.note_session
  rw [hseen, hprogress]

/-- The session a chat has found is the one it names. -/
theorem session_id (h : Reachable (machine (server d)) guard w) {request : Request}
    (hi : requestOf w i = some request) {body : ChatRequest Uuid}
    (hbody : inputFor request .aiChat = some body) {session : Session}
    (hs : (seenOf i w.events).session = some session) : session.id = body.sessionId := by
  obtain ⟨after, e, before, he, htask, hold, hnew⟩ :=
    track_origin (P := fun seen : Seen => seen.session = some session) (by simp [Seen.start]) hs
  have hmem : e ∈ w.events := by simp [he]
  have hrequest : e.request = request := by
    have hrecorded := reachable_recorded h e hmem
    rw [htask, hi] at hrecorded
    exact (Option.some.inj hrecorded).symm
  obtain ⟨v, env, rest, s, hv, rfl, hshared, hcall, -, hexec⟩ := reachable_event h he
  have hcareful : Careful e.request (seenOf e.task v.events) e.op :=
    obeyed (serve_conduct d) (sound d guard) h after e v.events he
  change (seenOf i v.events).session ≠ some session at hold
  obtain ⟨task, request', op, r, before⟩ := e
  subst htask hrequest
  have hfound : firstFound (seenOf task v.events).session op r = some session :=
    (note_session _ op r).symm.trans hnew
  cases hnone : (seenOf task v.events).session with
  | some first =>
      rw [hnone] at hfound hold
      exact absurd hfound hold
  | none =>
      rw [hnone, firstFound, Option.none_or] at hfound
      cases op with
      | getSession id =>
          cases r with
          | error e => cases hfound
          | ok session' =>
              cases hfound
              have hid := hcareful body hbody hnone
              have hstored := TrustRevocation.getSession_stored env hexec rfl
              rw [← hshared] at hstored
              rw [← (session_opened hv hstored).1]
              exact hid
      | _ => cases hfound

theorem record_issued (h : Reachable (machine (server d)) guard w) {record : TokenRecord}
    (hr : recordOf i w.events = some record) : Issued w.events record := by
  obtain ⟨token, -, -, -, -, -, -, hstored⟩ := record_found h hr
  obtain ⟨o, ho, hissued⟩ := (token_issued h token record).mp hstored
  exact ⟨token, o, ho, (issued_handshake h ho hissued).1, hissued⟩

/-- The roots a request works under were granted at a handshake. -/
theorem rootsOf (h : Reachable (machine (server d)) guard w) {after before : List (Event (server d))}
    {e : Event (server d)} (he : w.events = after ++ e :: before) {roots : List PathBuf}
    (hr : (seenOf e.task before).roots e.request = some roots) : RootsOf e before roots := by
  obtain ⟨v, env, rest, s, hv, rfl, -, htask, -⟩ := reachable_event h he
  unfold Seen.roots at hr
  unfold RootsOf
  cases hbody : inputFor e.request .aiChat with
  | none =>
      rw [hbody] at hr
      obtain ⟨record, hrecord, rfl⟩ := Option.map_eq_some_iff.mp hr
      rw [seen_record] at hrecord
      exact ⟨record, hrecord, record_issued hv hrecord, rfl⟩
  | some body =>
      rw [hbody] at hr
      obtain ⟨session, hsession, rfl⟩ := Option.map_eq_some_iff.mp hr
      have hrequest : requestOf v e.task = some e.request := by
        rw [requestOf, htask]
        rfl
      have hid := session_id hv hrequest hbody hsession
      rw [seen_session] at hsession
      obtain ⟨current, hstored, hsame⟩ := ToolGates.found_stored hv hsession
      obtain ⟨between, o, earlier, first, record, hsplit, hopened, hfirst, -, hrecord, -, hroots⟩ :=
        session_token hv hstored
      obtain ⟨u, env', rest', s', hu, rfl, -⟩ := reachable_event hv hsplit
      refine ⟨between, o, u.events, first, record, hsplit, hopened, ?_, hrecord,
        record_issued hu hrecord, ?_⟩
      · rw [hfirst.1, ← hsame.1, hid]
      · rw [hsame.2.2.2.2, hroots]

/-! ### What the disk said -/

variable (hstable : ∀ w a, guard w a → stable disks w a)

include hstable in
theorem gives (h : Reachable (machine (server d)) guard w) {after before : List (Event (server d))}
    {e : Event (server d)} (he : w.events = after ++ e :: before) :
    (disks e.task).Gives e.op e.reply := by
  obtain ⟨v, env, rest, s, -, -, hshared, htask, hguard, hexec⟩ := reachable_event h he
  rw [← hshared] at hexec
  exact hstable v _ hguard e.request e.op e.reply s (World.about_of_call htask) hexec

theorem note_asked {seen : Seen} {op : Op} {r : op.Reply} {text : String} {path : PathBuf}
    (hold : seen.asked ≠ some (text, path)) (h : (note seen op r).asked = some (text, path))
    {disk : Disk} (hgives : disk.Gives op r) :
    disk.Denotes text path.components ∧ path.text = disk.display path.components := by
  cases op with
  | canonicalize text' =>
      cases r with
      | none => cases h
      | some path' =>
          cases h
          exact hgives
  | lookup token => cases r <;> exact absurd h hold
  | getSession id => cases r <;> exact absurd h hold
  | _ => exact absurd h hold

theorem note_measured {seen : Seen} {op : Op} {r : op.Reply} {path : PathBuf} {md : Metadata}
    (hold : seen.measured ≠ some (path, md)) (h : (note seen op r).measured = some (path, md))
    {disk : Disk} (hgives : disk.Gives op r) : ∃ node, disk.Reaches path node ∧ Measures md node := by
  cases op with
  | metadata path' =>
      cases r with
      | none => cases h
      | some md' =>
          cases h
          exact hgives
  | lookup token => cases r <;> exact absurd h hold
  | getSession id => cases r <;> exact absurd h hold
  | _ => exact absurd h hold

theorem note_read {seen : Seen} {op : Op} {r : op.Reply} {text : String} {path : PathBuf}
    {bytes : Bytes} (hold : (text, path, bytes) ∉ seen.reads)
    (h : (text, path, bytes) ∈ (note seen op r).reads) :
    readOf op r = some (path, bytes) ∧ ∃ located, seen.asked = some (text, located) := by
  cases op with
  | readFile path' =>
      cases r with
      | none => simp [note, hold] at h
      | some bytes' =>
          cases hasked : seen.asked with
          | none => simp [note, hasked, hold] at h
          | some asked =>
              have hnew : (text, path, bytes) = (asked.1, path', bytes') := by
                simpa [note, hasked, hold] using h
              cases hnew
              exact ⟨rfl, asked.2, rfl⟩
  | lookup token => cases r <;> exact absurd h hold
  | getSession id => cases r <;> exact absurd h hold
  | _ => exact absurd h hold

include hstable in
theorem asked_denotes (h : Reachable (machine (server d)) guard w) {text : String} {path : PathBuf}
    (ha : (seenOf i w.events).asked = some (text, path)) :
    (disks i).Denotes text path.components ∧ path.text = (disks i).display path.components := by
  obtain ⟨after, e, before, he, rfl, hold, hnew⟩ :=
    track_origin (P := fun seen : Seen => seen.asked = some (text, path)) (by simp [Seen.start]) ha
  exact note_asked hold hnew (gives hstable h he)

include hstable in
theorem measured_node (h : Reachable (machine (server d)) guard w) {path : PathBuf} {md : Metadata}
    (hm : (seenOf i w.events).measured = some (path, md)) :
    ∃ node, (disks i).Reaches path node ∧ Measures md node := by
  obtain ⟨after, e, before, he, rfl, hold, hnew⟩ :=
    track_origin (P := fun seen : Seen => seen.measured = some (path, md)) (by simp [Seen.start]) hm
  exact note_measured hold hnew (gives hstable h he)

theorem Disk.Denotes.solid {disk : Disk} {text : String} {names : List String}
    (h : disk.Denotes text names) : Solid disk.tree names := by
  obtain ⟨path, -, hresolves⟩ := h
  exact hresolves.solid

theorem Disk.Denotes.unique {disk : Disk} {text : String} {names names' : List String}
    (h : disk.Denotes text names) (h' : disk.Denotes text names') : names = names' := by
  obtain ⟨path, hparse, hresolves⟩ := h
  obtain ⟨path', hparse', hresolves'⟩ := h'
  rw [hparse, Option.some.injEq] at hparse'
  subst hparse'
  exact hresolves.unique hresolves'

theorem Disk.Reaches.node {disk : Disk} {path : PathBuf} {node : Node String Bytes}
    (h : disk.Reaches path node) (hsolid : Solid disk.tree path.components) :
    walk disk.tree path.components = some node := by
  obtain ⟨names, hresolves, hnode⟩ := h
  rw [← eq_of_resolves_self hsolid hresolves]
  exact hnode

theorem inSubtree_of_under {disk : Disk} {roots : List PathBuf} {path : PathBuf}
    (hunder : underRoots roots path = true) (hsolid : Solid disk.tree path.components) :
    ∃ root ∈ roots, InSubtree disk.tree root.components path.components := by
  obtain ⟨root, hroot, hstarts⟩ := List.any_eq_true.mp hunder
  exact ⟨root, hroot, inSubtree_of_prefix (List.isPrefixOf_iff_prefix.mp hstarts) hsolid⟩

theorem readOf_some {op : Op} {r : op.Reply} {path : PathBuf} {bytes : Bytes}
    (h : readOf op r = some (path, bytes)) : op = .readFile path := by
  cases op with
  | readFile path' =>
      cases r with
      | none => cases h
      | some bytes' =>
          cases h
          rfl
  | _ => cases h

theorem gives_read {op : Op} {r : op.Reply} {path : PathBuf} {bytes : Bytes} {disk : Disk}
    (h : readOf op r = some (path, bytes)) (hgives : disk.Gives op r) :
    disk.Reaches path (.file bytes) := by
  cases op with
  | readFile path' =>
      cases r with
      | none => cases h
      | some bytes' =>
          cases h
          exact hgives
  | _ => cases h

include hstable in
/-- What is read is the whole of the asked file, in a granted root. -/
theorem delivered (h : Reachable (machine (server d)) guard w) {after before : List (Event (server d))}
    {e : Event (server d)} (he : w.events = after ++ e :: before) {path : PathBuf} {bytes : Bytes}
    (hread : readOf e.op e.reply = some (path, bytes)) :
    ∃ text, (seenOf e.task before).asked = some (text, path) ∧
      Delivered (disks e.task) e before text path bytes := by
  obtain ⟨v, env, rest, s, hv, rfl, -⟩ := reachable_event h he
  have hcareful : Careful e.request (seenOf e.task v.events) e.op :=
    obeyed (serve_conduct d) (sound d guard) h after e v.events he
  rw [readOf_some hread] at hcareful
  obtain ⟨⟨text, ⟨hasked, roots, hroots, hunder⟩, -⟩, md, hmeasured, -, hsize⟩ := hcareful
  have hdenotes := (asked_denotes hstable hv hasked).1
  have hfile := (gives_read hread (gives hstable h he)).node hdenotes.solid
  obtain ⟨node, hreaches, hmeasures⟩ := measured_node hstable hv hmeasured
  have hnode := hreaches.node hdenotes.solid
  rw [hfile, Option.some.injEq] at hnode
  subst hnode
  rw [hmeasures.2] at hsize
  obtain ⟨root, hroot, hsubtree⟩ := inSubtree_of_under hunder hdenotes.solid
  exact ⟨text, hasked, hdenotes, roots, rootsOf h he hroots, root, hroot, hsubtree, hfile, hsize⟩

include hstable in
theorem given_of_read (h : Reachable (machine (server d)) guard w)
    {after before : List (Event (server d))} {e : Event (server d)}
    (he : w.events = after ++ e :: before) {text : String} {path : PathBuf} {bytes : Bytes}
    (hread : (text, path, bytes) ∈ (seenOf e.task before).reads) :
    Given disks e before text path bytes := by
  obtain ⟨between, l, earlier, hsplit, htask, hold, hnew⟩ :=
    track_origin (P := fun seen : Seen => (text, path, bytes) ∈ seen.reads) (by simp [Seen.start]) hread
  obtain ⟨hfile, located, hasked⟩ := note_read hold hnew
  have hl : w.events = (after ++ e :: between) ++ l :: earlier := by
    rw [he, hsplit, List.append_assoc]
    rfl
  obtain ⟨text', hasked', hdelivered⟩ := delivered hstable h hl hfile
  rw [htask] at hasked' hdelivered
  have hsame := hasked.symm.trans hasked'
  rw [Option.some.injEq, Prod.mk.injEq] at hsame
  rw [hsame.1]
  exact ⟨between, l, earlier, hsplit, htask, hfile, hdelivered⟩

/-- A route works under one list of roots. -/
theorem RootsOf.unique {e : Event (server d)} {before : List (Event (server d))}
    {roots roots' : List PathBuf} (hchat : inputFor e.request .aiChat = none)
    (h : RootsOf e before roots) (h' : RootsOf e before roots') : roots = roots' := by
  rw [RootsOf, hchat] at h h'
  obtain ⟨record, hrecord, -, rfl⟩ := h
  obtain ⟨record', hrecord', -, rfl⟩ := h'
  rw [hrecord, Option.some.injEq] at hrecord'
  rw [hrecord']

/-- What was asked of the disk when the request arrived stays true of it. -/
theorem legible_request (h : Reachable (machine (server d)) (legible disks) w) {request : Request}
    (hi : requestOf w i = some request) {text : String} {names : List String}
    (hbundle : bundlePath request = some text) (hdenotes : (disks i).Denotes text names) :
    (disks i).Denotes ((disks i).display names) names := by
  revert hi
  refine h.invariant (P := fun w => requestOf w i = some request →
    (disks i).Denotes ((disks i).display names) names) (fun hi => by cases hi)
    fun w a v _ hw hg hn => ?_
  intro hi
  cases step_of_next hn with
  | @arrive j request' hj =>
      by_cases hij : i = j
      · subst hij
        rw [requestOf, setTask_self] at hi
        cases hi
        exact hg.2 text names hbundle hdenotes
      · rw [requestOf, setTask_other w _ hij] at hi
        exact hw hi
  | call hj _ => exact hw ((requestOf_update hj rfl i).symm.trans hi)
  | drop hj _ => exact hw ((requestOf_update hj rfl i).symm.trans hi)
  | elapse => exact hw hi

theorem askedPath_of_bundle {request : Request} {text : String} (h : bundlePath request = some text) :
    askedPath request = some text := by
  have hfs : inputFor request .fsRead = none := by
    cases hread : inputFor request .bundleRead with
    | some path => exact inputFor_ne hread (by decide)
    | none =>
        cases hwrite : inputFor request .bundleWrite with
        | some body => exact inputFor_ne hwrite (by decide)
        | none =>
            rw [bundlePath, hread, hwrite] at h
            cases h
  rw [askedPath, hfs, h]
  rfl

theorem chat_of_asked {request : Request} {text : String} (h : askedPath request = some text) :
    inputFor request .aiChat = none := by
  cases hchat : inputFor request .aiChat with
  | none => rfl
  | some body =>
      rw [askedPath_none hchat (by decide) (by decide) (by decide)] at h
      cases h

theorem confined_of_legible (d : Deployment) (disks : ℕ → Disk) (w : World (server d))
    (h : Reachable (machine (server d)) (legible disks) w) : Confined disks w := by
  have hstable (w : World (server d)) (a : Label (server d)) (hg : legible disks w a) :
      stable disks w a := hg.1
  have hcareful {after before : List (Event (server d))} {e : Event (server d)}
      (he : w.events = after ++ e :: before) : Careful e.request (seenOf e.task before) e.op :=
    obeyed (serve_conduct d) (sound d _) h after e before he
  constructor
  · intro after e before he path bytes hread
    obtain ⟨text, -, hdelivered⟩ := delivered hstable h he hread
    exact ⟨text, hdelivered⟩
  · intro after e before he text hinput status id content hop
    have hfits := hcareful he
    rw [hop] at hfits
    obtain ⟨path, bytes, hread, hcontent⟩ := hfits.1 text hinput content rfl
    exact ⟨path, bytes, given_of_read hstable h he hread, hcontent⟩
  · intro after e before he id messages hop
    have hresults := hcareful he
    rw [hop] at hresults
    obtain ⟨results, hmessages, htold⟩ := hresults
    refine ⟨results, hmessages, htold.imp fun use block htold => ?_⟩
    exact htold.mono fun text path bytes hread => given_of_read hstable h he hread
  · intro after e before he text hbundle method params hop
    have hcalled := hcareful he
    rw [hop] at hcalled
    obtain ⟨path, ⟨hasked, roots, hroots, hunder⟩, hparams⟩ :=
      hcalled text (askedPath_of_bundle hbundle)
    refine ⟨path.text, hparams, fun names hnames => ?_⟩
    obtain ⟨v, env, rest, s, hv, rfl, -, htask, -⟩ := reachable_event h he
    obtain ⟨hdenotes, htext⟩ := asked_denotes hstable hv hasked
    have hrequest : requestOf v e.task = some e.request := by
      rw [requestOf, htask]
      rfl
    have hshown := legible_request hv hrequest hbundle hdenotes
    rw [htext] at hnames
    rw [hnames.unique hshown]
    obtain ⟨root, hroot, hsubtree⟩ := inSubtree_of_under hunder hdenotes.solid
    exact ⟨roots, rootsOf h he hroots, root, hroot, hsubtree⟩
  · intro after e before he text roots hasked hroots houtside
    have hclosed {path : PathBuf} (hlocated : Located e.request (seenOf e.task before) text path) :
        False := by
      obtain ⟨hpath, roots', hroots', hunder⟩ := hlocated
      have hsame := (rootsOf h he hroots').unique (chat_of_asked hasked) hroots
      subst hsame
      obtain ⟨v, env, rest, s, hv, rfl, -⟩ := reachable_event h he
      have hdenotes := (asked_denotes hstable hv hpath).1
      obtain ⟨root, hroot, hsubtree⟩ := inSubtree_of_under hunder hdenotes.solid
      exact houtside _ hdenotes root hroot hsubtree
    have hresolved {path : PathBuf} (h : Resolved e.request (seenOf e.task before) path) : False := by
      obtain ⟨text', hlocated, hsame⟩ := h
      rw [hsame text hasked] at hclosed
      exact hclosed hlocated
    have hop := hcareful he
    constructor
    · cases hconsults : e.op with
      | metadata path =>
          rw [hconsults] at hop
          exact (hresolved hop).elim
      | readFile path =>
          rw [hconsults] at hop
          exact (hresolved hop.1).elim
      | workerWrite method params =>
          rw [hconsults] at hop
          obtain ⟨path, hlocated, -⟩ := hop text hasked
          exact (hclosed hlocated).elim
      | workerLock | workerFlush | workerRead | workerReap =>
          rw [hconsults] at hop
          obtain ⟨path, hlocated⟩ := hop text hasked
          exact (hclosed hlocated).elim
      | _ => rfl
    · intro response hrespond
      rw [hrespond] at hop
      rw [← Bool.not_eq_false]
      intro herror
      obtain ⟨path, hlocated⟩ := hop.2 text hasked herror
      exact hclosed hlocated

end

/-! ## A name outside Unicode -/

/-- The parts of a text between its slashes. -/
def splitSlashes : List Char → List (List Char)
  | [] => [[]]
  | c :: cs =>
      match splitSlashes cs with
      | [] => [[c]]
      | part :: parts => if c = '/' then [] :: part :: parts else (c :: part) :: parts

def stepOf (part : List Char) : Step String :=
  if part = [] ∨ part = ['.'] then .here
  else if part = ['.', '.'] then .up
  else .name (String.ofList part)

def parseSlashes (text : String) : Option (Path String) :=
  some ⟨"/".toList.isPrefixOf text.toList, (splitSlashes text.toList).map stepOf⟩

def replacement : String := String.ofList [Char.ofNat 0xFFFD]

/-- A name that is not Unicode; no name of a file starts with this character. -/
def foreign : String := String.ofList [Char.ofNat 0, 'f', 'f']

def lossy (name : String) : String :=
  if name.toList.head? = some (Char.ofNat 0) then replacement else name

def displaySlashes (names : List String) : String :=
  String.join (names.map fun name => "/" ++ lossy name)

/-- In the granted directory: notes, a link to a file whose name is not Unicode,
and a link that is named as this name is shown and leads out. -/
def linkedDisk : Disk where
  tree := .dir [("allowed", .dir [("notes", .file [1, 2, 3]), (foreign, .file [4]),
      ("in", .link (.down ["allowed", foreign])), (replacement, .link (.down ["secret"]))]),
    ("secret", .file [5])]
  workingDir := []
  parse := parseSlashes
  display := displaySlashes

/-- What a text denotes, with fuel for 40 steps. -/
def Disk.find (disk : Disk) (text : String) : Option (List String) :=
  (disk.parse text).bind fun path =>
    resolve disk.tree 40 (if path.absolute then [] else disk.workingDir) path.steps

theorem Disk.find_denotes {disk : Disk} {text : String} {names : List String}
    (h : disk.find text = some names) : disk.Denotes text names := by
  obtain ⟨path, hparse, hresolve⟩ := Option.bind_eq_some_iff.mp h
  exact ⟨path, hparse, resolve_sound hresolve⟩

/-- The node at a path, when the path has no links in it. -/
def Disk.node (disk : Disk) (path : PathBuf) : Option (Node String Bytes) :=
  (walk disk.tree path.components).filter fun node => !node.isLink

theorem Disk.node_reaches {disk : Disk} {path : PathBuf} {node : Node String Bytes}
    (h : disk.node path = some node) : disk.Reaches path node := by
  obtain ⟨hwalk, hlink⟩ := Option.filter_eq_some_iff.mp h
  exact ⟨path.components, resolves_self ⟨node, hwalk, by simpa using hlink⟩, hwalk⟩

def measures (md : Metadata) : Node String Bytes → Bool
  | .file content => md.isFile && md.len == content.length
  | _ => !md.isFile

def contains (bytes : Bytes) : Node String Bytes → Bool
  | .file content => bytes == content
  | _ => false

/-- The environment answers as the disk does. -/
def Disk.agrees (disk : Disk) (env : Environment) : Op → Bool
  | .canonicalize text => env.canonical.all fun path =>
      disk.find text == some path.components && path.text == disk.display path.components
  | .isDir path => !env.isDir || (disk.node path).any Node.isDir
  | .metadata path => env.metadata.all fun md => (disk.node path).any (measures md)
  | .readFile path => env.bytes.all fun bytes => (disk.node path).any (contains bytes)
  | _ => true

theorem Disk.agrees_gives {disk : Disk} {env : Environment} {op : Op} (h : disk.agrees env op = true)
    {s s' : AppState} {r : op.Reply} (hexec : exec s env op = some (r, s')) : disk.Gives op r := by
  cases op with
  | canonicalize text =>
      cases hexec
      cases hpath : env.canonical with
      | none => trivial
      | some path =>
          simp only [Disk.agrees, hpath, Option.all_some, Bool.and_eq_true, beq_iff_eq] at h
          exact ⟨disk.find_denotes h.1, h.2⟩
  | isDir path =>
      cases hexec
      cases hdir : env.isDir with
      | false => trivial
      | true =>
          simp only [Disk.agrees, hdir, Bool.not_true, Bool.false_or, Option.any_eq_true] at h
          obtain ⟨node, hnode, hisDir⟩ := h
          cases node with
          | dir entries => exact ⟨entries, disk.node_reaches hnode⟩
          | file content => cases hisDir
          | link target => cases hisDir
  | metadata path =>
      cases hexec
      cases hmd : env.metadata with
      | none => trivial
      | some md =>
          simp only [Disk.agrees, hmd, Option.all_some, Option.any_eq_true] at h
          obtain ⟨node, hnode, hmeasures⟩ := h
          refine ⟨node, disk.node_reaches hnode, ?_⟩
          cases node <;> simpa [measures, Measures] using hmeasures
  | readFile path =>
      cases hexec
      cases hbytes : env.bytes with
      | none => trivial
      | some bytes =>
          simp only [Disk.agrees, hbytes, Option.all_some, Option.any_eq_true] at h
          obtain ⟨node, hnode, hcontains⟩ := h
          cases node with
          | file content =>
              have hsame : bytes = content := by simpa [contains] using hcontains
              subst hsame
              exact disk.node_reaches hnode
          | dir entries => cases hcontains
          | link target => cases hcontains
  | _ => trivial

section
variable {d : Deployment}

/-- The guard, computed. -/
def consistent (disk : Disk) (w : World (server d)) : Label (server d) → Bool
  | .call i env => (w.about i).all fun about => disk.agrees env about.2
  | _ => true

theorem stable_of_consistent {disk : Disk} (w : World (server d)) (a : Label (server d))
    (h : consistent disk w a = true) : stable (fun _ => disk) w a := by
  cases a with
  | call i env =>
      intro request op reply s habout hexec
      simp only [consistent, habout, Option.all_some] at h
      exact disk.agrees_gives h hexec
  | _ => trivial

def readable (disk : Disk) (w : World (server d)) (a : Label (server d)) : Bool :=
  consistent disk w a && match a with
  | .arrive _ request => (bundlePath request).all fun text => (disk.find text).any fun names =>
      disk.find (disk.display names) == some names
  | _ => true

theorem legible_of_readable {disk : Disk} (w : World (server d)) (a : Label (server d))
    (h : readable disk w a = true) : legible (fun _ => disk) w a := by
  obtain ⟨hconsistent, hreadable⟩ := Bool.and_eq_true_iff.mp h
  refine ⟨stable_of_consistent w a hconsistent, ?_⟩
  cases a with
  | arrive i request =>
      intro text names hbundle hdenotes
      simp only [hbundle, Option.all_some, Option.any_eq_true] at hreadable
      obtain ⟨names', hfind, hshown⟩ := hreadable
      rw [hdenotes.unique (disk.find_denotes hfind)]
      exact disk.find_denotes (beq_iff_eq.mp hshown)
  | _ => trivial

/-- The worker is sent a text that leads out of the roots of the request's token. -/
def strays (disk : Disk) (e : Event (server d)) (before : List (Event (server d))) : Bool :=
  match e.op with
  | .workerWrite _ params => (bundlePath e.request).isSome &&
      ((field params "path").bind asStr).any fun sent => (disk.find sent).any fun names =>
        (recordOf e.task before).all fun record => record.fsRoots.all fun root =>
          !root.components.isPrefixOf names
  | _ => false

theorem not_confined_of_strays {disk : Disk} {e : Event (server d)} {before : List (Event (server d))}
    (h : strays disk e before = true) : ¬ ∀ text, bundlePath e.request = some text →
      ∀ method params, e.op = Op.workerWrite method params → ∃ sent,
        field params "path" = some (str sent) ∧ ∀ names, disk.Denotes sent names →
          ∃ roots, RootsOf e before roots ∧ ∃ root ∈ roots,
            InSubtree disk.tree root.components names := by
  intro hconfined
  unfold strays at h
  split at h
  · next method params hop =>
      obtain ⟨hbundle, hsent⟩ := Bool.and_eq_true_iff.mp h
      obtain ⟨text, htext⟩ := Option.isSome_iff_exists.mp hbundle
      obtain ⟨sent, hfield, hinside⟩ := hconfined text htext method params hop
      obtain ⟨sent', hsent', hstray⟩ := (Option.any_eq_true _ _).mp hsent
      obtain ⟨names, hfind, hout⟩ := (Option.any_eq_true _ _).mp hstray
      rw [hfield, Option.bind_some, asStr_str, Option.some.injEq] at hsent'
      subst hsent'
      obtain ⟨roots, hroots, root, hroot, hsubtree⟩ := hinside names (disk.find_denotes hfind)
      rw [RootsOf, chat_of_asked (askedPath_of_bundle htext)] at hroots
      obtain ⟨record, hrecord, -, rfl⟩ := hroots
      rw [hrecord, Option.all_some] at hout
      have hprefix := List.all_eq_true.mp hout root hroot
      rw [Bool.not_eq_true', ← Bool.not_eq_true, List.isPrefixOf_iff_prefix] at hprefix
      exact hprefix hsubtree.isPrefix
  · cases h

end

/-- A token for one directory. -/
def rootedHandshake : List (Label (server keyedLaunch)) :=
  .arrive 0 (addinRequest .handshake "/auth/handshake" none ⟨[.fsRead, .bundleRead], ["/allowed"]⟩) ::
    calls 0 11 { token := "a", approved := true, canonical := some ⟨"/allowed", ["allowed"]⟩,
                 isDir := true }

/-- The notes, as the system answers about them. -/
def notes : Environment where
  canonical := some ⟨"/allowed/notes", ["allowed", "notes"]⟩
  metadata := some ⟨true, 3⟩
  bytes := some [1, 2, 3]
  piped := true

/-- The notes are read, over a detour, and then looked up as a bundle. -/
def detour : List (Label (server keyedLaunch)) :=
  rootedHandshake ++
    .arrive 1 (addinRequest .fsRead "/fs/read" (some "a") "/allowed/../allowed/./notes") ::
      calls 1 8 notes ++
    .arrive 2 (addinRequest .bundleRead "/bundle/read" (some "a") "/allowed/notes") ::
      calls 2 8 notes

/-- The file was read, and the worker was called. -/
def readAndCalled (w : World (server keyedLaunch)) : Bool :=
  (w.events.any fun e => e.task == 1 && (readOf e.op e.reply).isSome) &&
    w.events.any fun e => e.task == 2 && consults e.op

theorem confined_detour :
    ∃ w, Reachable (machine (server keyedLaunch)) (legible fun _ => linkedDisk) w ∧
      readAndCalled w = true ∧ Confined (fun _ => linkedDisk) w := by
  obtain ⟨w, hw, ht⟩ := replay_reaches (machine (server keyedLaunch)) (legible fun _ => linkedDisk)
    (readable linkedDisk) detour readAndCalled legible_of_readable (by decide +kernel)
  exact ⟨w, hw, ht, confined_of_legible keyedLaunch _ w hw⟩

/-- The link leads to the file whose name is not Unicode. -/
def linked : List (Label (server keyedLaunch)) :=
  rootedHandshake ++
    .arrive 1 (addinRequest .bundleRead "/bundle/read" (some "a") "/allowed/in") ::
      calls 1 7 { canonical := some ⟨"/allowed/" ++ replacement, ["allowed", foreign]⟩, piped := true }

theorem not_confined_linked :
    ∃ w, Reachable (machine (server keyedLaunch)) (stable fun _ => linkedDisk) w ∧
      ¬ Confined (fun _ => linkedDisk) w := by
  obtain ⟨w, hw, ht⟩ := replay_reaches (machine (server keyedLaunch)) (stable fun _ => linkedDisk)
    (consistent linkedDisk) linked (fun w => somewhere (strays linkedDisk) w.events)
    stable_of_consistent (by decide +kernel)
  refine ⟨w, hw, fun hconfined => ?_⟩
  exact not_throughout (fun e before h => not_confined_of_strays h) ht hconfined.calls

end Xlpod.Confinement
