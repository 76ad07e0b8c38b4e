import Xlpod.Confinement
import Xlpod.Library.SoloRuns

/-!
# The roots of a handshake

A handshake asks the disk for its roots, in order, and keeps those that are
directories. A token with roots is refused no path under one of them, whatever
else becomes of the request. A token has roots when a scope for files was asked
for, and a scope for bundles alone brings none.
-/
namespace Xlpod.HandshakeRoots
open Xlpod.ApiErrors Xlpod.Auth Xlpod.AiTypes Xlpod.BundlePayload Xlpod.GuardedRuns Xlpod.Programs
open Xlpod.SoloRuns Xlpod.Interleaving Xlpod.ServerState Xlpod.ServerCalls Xlpod.Routes Xlpod.Server
open Xlpod.Footprints Xlpod.FileTree
open Xlpod.Confinement (Disk displaySlashes)

/-! ## A disk that answers -/

/-- What the system says of the disk when it is asked what a text denotes and
whether a directory is there. -/
def Tells (disk : Disk) : (op : Op) → op.Reply → Prop
  | .canonicalize text, some path => disk.Denotes text path.components ∧
      path.text = disk.display path.components
  | .canonicalize text, none => ∀ names, ¬ disk.Denotes text names
  | .isDir path, found => Solid disk.tree path.components →
      (found = true ↔ IsDir disk.tree path.components)
  | _, _ => True

/-- The answer to one call, and what others have done before it. -/
structure Moment (disk : Disk) where
  change : AppState → AppState
  answer : Op → Environment
  tells : ∀ s op r s', exec s (answer op) op = some (r, s') → Tells disk op r

variable {disk : Disk}

def reply (s : AppState) (m : Moment disk) (op : Op) : Option (op.Reply × AppState) :=
  exec (m.change s) (m.answer op) op

def told (disk : Disk) : Contract api Unit where
  pre _ _ := True
  fact _ := Tells disk
  next _ _ _ := ()

theorem told_describes : Describes (told disk) (fun _ : AppState => ()) (@reply disk) :=
  fun s m op r s' h => ⟨m.tells (m.change s) op r s' h, rfl⟩

/-! ## Roots -/

/-- The canonical forms of the texts that denote directories, in order. -/
inductive CanonicalForms (disk : Disk) : List String → List PathBuf → Prop
  | nil : CanonicalForms disk [] []
  | kept {text : String} {texts : List String} {path : PathBuf} {paths : List PathBuf} :
      disk.Denotes text path.components → path.text = disk.display path.components →
      IsDir disk.tree path.components → CanonicalForms disk texts paths →
      CanonicalForms disk (text :: texts) (path :: paths)
  | dropped {text : String} {texts : List String} {paths : List PathBuf} :
      (∀ names, disk.Denotes text names → ¬ IsDir disk.tree names) →
      CanonicalForms disk texts paths → CanonicalForms disk (text :: texts) paths

theorem CanonicalForms.mem {texts : List String} {paths : List PathBuf}
    (h : CanonicalForms disk texts paths) {text : String} (htext : text ∈ texts)
    {names : List String} (hnames : disk.Denotes text names) (hdir : IsDir disk.tree names) :
    ∃ path ∈ paths, path.components = names := by
  induction h with
  | nil => cases htext
  | @kept text' texts path paths hdenotes hdisplay hisDir hforms ih =>
      cases List.mem_cons.mp htext with
      | inl hhead =>
          rw [hhead] at hnames
          exact ⟨path, List.mem_cons_self, hdenotes.unique hnames⟩
      | inr htail =>
          obtain ⟨path', hpath', hcomponents⟩ := ih htail
          exact ⟨path', List.mem_cons_of_mem path hpath', hcomponents⟩
  | @dropped text' texts paths hdropped hforms ih =>
      cases List.mem_cons.mp htext with
      | inl hhead =>
          rw [hhead] at hnames
          exact absurd hdir (hdropped names hnames)
      | inr htail => exact ih htail

theorem canonicalizeRoots_forms (texts : List String) :
    Meets (told disk) (canonicalizeRoots texts) ()
      fun _ roots => CanonicalForms disk texts roots := by
  induction texts with
  | nil => exact .nil
  | cons text texts ih =>
      refine ⟨trivial, fun found hfound => ?_⟩
      cases found with
      | none =>
          have hdropped (names : List String) (hnames : disk.Denotes text names) :
              ¬ IsDir disk.tree names := absurd hnames (hfound names)
          exact ih.mono fun _ roots h => .dropped hdropped h
      | some path =>
          obtain ⟨hdenotes, hdisplay⟩ := hfound
          refine ⟨trivial, fun directory hdirectory => ?_⟩
          have hisDir := hdirectory hdenotes.solid
          change Meets (told disk) (canonicalizeRoots texts >>= _) _ _
          refine meets_bind.mpr (ih.mono fun _ roots h => ?_)
          cases directory with
          | true => exact .kept hdenotes hdisplay (hisDir.mp rfl) h
          | false =>
              refine .dropped (fun names hnames hdir => ?_) h
              rw [hnames.unique hdenotes] at hdir
              cases hisDir.mpr hdir

/-- The roots a handshake grants. -/
def Granted (disk : Disk) (body : HandshakeRequest) (roots : List PathBuf) : Prop :=
  if wantsFs body.requestedScopes then CanonicalForms disk body.fsRoots roots ∧ roots ≠ []
  else roots = []

theorem grantedRoots_granted (body : HandshakeRequest) :
    Meets (told disk) (grantedRoots body).run ()
      (OnResult (fun _ roots => Granted disk body roots) fun _ _ => True) := by
  unfold grantedRoots Granted
  simp only [meets_exceptIte, meets_exceptBind, meets_exceptPure, meets_throw, meets_lift,
    onResult_ok, onResult_error]
  constructor
  · intro hwants
    rw [Bool.not_eq_true'] at hwants
    simp [hwants]
  · intro hwants
    refine (canonicalizeRoots_forms body.fsRoots).mono fun _ roots h => ?_
    refine ⟨fun _ => trivial, fun hsome => ?_⟩
    rw [if_pos (by simpa using hwants)]
    exact ⟨h, by simpa using hsome⟩

/-! ## The token -/

section
variable {origin : Option String} {body : HandshakeRequest} {s s' : AppState}
  {es rest : List (Moment disk)} {r : ResponseBody}

/-- Behind the roots: the consent, and the token. -/
def issueTo (origin : Option String) (body : HandshakeRequest) (roots : List PathBuf) :
    Handler ResponseBody := do
  if !body.requestedScopes.isEmpty then
    let approved ← requestConsent
      { origin := origin.getD "", scopes := body.requestedScopes, fsRoots := roots }
    if !approved then throw .consentDenied
  let token ← issue body.requestedScopes roots
  return .handshake token body.requestedScopes (roots.map PathBuf.text) tokenTtlSecs

theorem handshake_eq (origin : Option String) (body : HandshakeRequest) :
    handshake origin body = grantedRoots body >>= issueTo origin body := by
  have hreserved : body.requestedScopes.any Scope.isReserved = false := by
    simp [Scope.isReserved]
  unfold handshake
  rw [hreserved]
  rfl

/-- The answer, and the record that is stored for its token. -/
def Issues (body : HandshakeRequest) (roots : List PathBuf) (s' : AppState) (r : ResponseBody) :
    Prop :=
  ∃ token now, r = .handshake token body.requestedScopes (roots.map PathBuf.text) tokenTtlSecs ∧
    s'.tokens token = some (newRecord now body.requestedScopes roots)

theorem issued_of_exec {env : Environment} {scopes : List Scope} {roots : List PathBuf}
    {token : String} (h : exec s env (.issue scopes roots) = some (token, s')) :
    s'.tokens token = some (newRecord s.now scopes roots) := by
  simp only [exec] at h
  split at h
  · cases h
  · cases h
    exact Function.update_self ..

theorem issueTo_issues {roots : List PathBuf}
    (h : perform (I := api) reply (issueTo origin body roots).run s es =
      some (.ok r, s', rest)) : Issues body roots s' r := by
  have hissue {u : AppState} {es : List (Moment disk)}
      (h : perform (I := api) reply (ExceptT.run (do
        let token ← issue body.requestedScopes roots
        return .handshake token body.requestedScopes (roots.map PathBuf.text) tokenTtlSecs :
        Handler ResponseBody)) u es = some (.ok r, s', rest)) : Issues body roots s' r := by
    obtain ⟨m, es', token, v, rfl, hexec, hdone⟩ := perform_call h
    cases hdone
    exact ⟨token, _, rfl, issued_of_exec hexec⟩
  unfold issueTo at h
  by_cases hempty : body.requestedScopes.isEmpty = true
  · rw [hempty] at h
    exact hissue h
  · rw [Bool.not_eq_true] at hempty
    rw [hempty] at h
    obtain ⟨m, es', approved, v, rfl, -, h⟩ := perform_call h
    cases approved with
    | true => exact hissue h
    | false => cases h

theorem handshake_issues
    (h : perform (I := api) reply (handshake origin body).run s es = some (.ok r, s', rest)) :
    ∃ roots, Granted disk body roots ∧ Issues body roots s' r := by
  rw [handshake_eq] at h
  obtain ⟨roots, u, es', hroots, hissue⟩ := perform_exceptBind_ok h
  have hgranted := told_describes.perform (grantedRoots_granted body) hroots
  exact ⟨roots, hgranted, issueTo_issues hissue⟩

end

/-! ## Refusals -/

/-- A handler that does not refuse the path. -/
def Admits (disk : Disk) (handler : Handler ResponseBody) : Prop :=
  ∀ (s : AppState) (es : List (Moment disk)) (s' : AppState) (rest : List (Moment disk)),
    perform (I := api) reply handler.run s es ≠ some (.error .forbiddenPath, s', rest)

/-- No route that checks a path against roots refuses it. -/
structure Open (disk : Disk) (record : TokenRecord) (text : String) : Prop where
  fsRead : Admits disk (fsRead record text)
  bundleRead : Admits disk (bundleReadRoute record text)
  bundleWrite : ∀ payload, Admits disk (bundleWriteRoute record ⟨text, payload⟩)

abbrev NotForbidden {α : Type} : Unit → Except ApiError α → Prop :=
  OnResult (fun _ _ => True) fun _ e => e ≠ .forbiddenPath

theorem admits_of_meets {handler : Handler ResponseBody}
    (h : Meets (told disk) handler.run () NotForbidden) : Admits disk handler := by
  intro s es s' rest hrun
  exact told_describes.perform h hrun rfl

section
variable {record : TokenRecord} {text : String} {names : List String}

theorem meets_then {α β : Type} {x : Handler α} {f : α → Handler β}
    (hx : Meets (told disk) x.run () NotForbidden)
    (hf : ∀ a, Meets (told disk) (f a).run () NotForbidden) :
    Meets (told disk) (x >>= f).run () NotForbidden := by
  apply meets_exceptBind.mpr
  refine hx.mono fun _ r h => ?_
  cases r with
  | ok a => exact hf a
  | error e => exact h

/-- A path that extends a root passes. -/
theorem underRoots_of_prefix {root path : PathBuf} (hroot : root ∈ record.fsRoots)
    (h : root.components <+: path.components) : underRoots record.fsRoots path = true := by
  apply List.any_eq_true.mpr
  exact ⟨root, hroot, List.isPrefixOf_iff_prefix.mpr h⟩

/-- The text denotes something under a root of the record. -/
def Below (disk : Disk) (record : TokenRecord) (text : String) : Prop :=
  ∃ names, disk.Denotes text names ∧ ∃ root ∈ record.fsRoots, root.components <+: names

theorem Below.under (h : Below disk record text) {path : PathBuf}
    (hpath : Tells disk (.canonicalize text) (some path)) :
    underRoots record.fsRoots path = true := by
  obtain ⟨names, hnames, root, hroot, hprefix⟩ := h
  rw [hnames.unique hpath.1] at hprefix
  exact underRoots_of_prefix hroot hprefix

theorem readUnderRoots_admits (h : Below disk record text) :
    Meets (told disk) (readUnderRoots text record.fsRoots).run () NotForbidden := by
  have hsome : record.fsRoots.isEmpty = false := by
    obtain ⟨-, -, root, hroot, -⟩ := h
    cases hroots : record.fsRoots with
    | nil => simp [hroots] at hroot
    | cons root roots => rfl
  unfold readUnderRoots
  simp only [meets_exceptIte, meets_exceptBind, meets_throw, meets_lift, meets_okOr, onResult_ok,
    onResult_error, meets_exceptPure]
  constructor
  · intro hempty
    rw [hsome] at hempty
    cases hempty
  · intro _
    refine ⟨trivial, fun found hfound => ⟨fun path hpath => ?_, fun _ => by simp⟩⟩
    subst hpath
    constructor
    · intro hout
      simp [h.under hfound] at hout
    · intro _
      refine ⟨trivial, fun md _ => ⟨fun md _ => ⟨fun _ => by simp, fun _ => ?_⟩, fun _ => by simp⟩⟩
      refine ⟨fun _ => by simp, fun _ => ⟨trivial, fun bytes _ => ?_⟩⟩
      exact ⟨fun _ _ => trivial, fun _ => by simp⟩

theorem ensurePathUnderRoots_admits (h : Below disk record text) :
    Meets (told disk) (ensurePathUnderRoots text record).run () NotForbidden := by
  unfold ensurePathUnderRoots
  simp only [meets_exceptIte, meets_exceptBind, meets_throw, meets_lift, meets_okOr, onResult_ok,
    onResult_error, meets_exceptPure]
  refine ⟨trivial, fun found hfound => ⟨fun path hpath => ?_, fun _ => by simp⟩⟩
  subst hpath
  constructor
  · intro hout
    simp [h.under hfound] at hout
  · exact fun _ => trivial

theorem workerCall_admits (method : String) (params : PyJson) :
    Meets (told disk) (workerCall method params).run () NotForbidden := by
  unfold workerCall
  simp only [meets_exceptIte, meets_exceptBind, meets_throw, meets_lift, onResult_ok,
    onResult_error]
  refine ⟨trivial, fun _ _ => ⟨fun _ => by simp, fun _ => ⟨trivial, fun _ _ => ?_⟩⟩⟩
  refine ⟨fun _ => by simp, fun _ => ⟨trivial, fun _ _ => ⟨fun _ => by simp, fun _ => ?_⟩⟩⟩
  refine ⟨trivial, fun outcome _ => ?_⟩
  cases outcome with
  | eof => exact fun h => by cases h
  | failed => exact fun h => by cases h
  | timeout => exact ⟨trivial, fun _ _ => fun h => by cases h⟩
  | line parsed => exact meets_okOr.mpr ⟨fun _ _ => trivial, fun _ => by simp⟩

theorem checkBundleOk_admits (resp : PyJson) :
    Meets (told disk) (checkBundleOk resp).run () NotForbidden := by
  have hmapped (code : String) : mapWorkerBundleError code ≠ .forbiddenPath := by
    unfold mapWorkerBundleError
    split_ifs <;> simp
  unfold checkBundleOk
  simp only [meets_exceptIte, meets_throw]
  exact ⟨fun _ => hmapped _, fun _ => trivial⟩

theorem open_of_below (h : Below disk record text) : Open disk record text := by
  constructor
  · apply admits_of_meets
    exact meets_then (readUnderRoots_admits h) fun _ => trivial
  · apply admits_of_meets
    apply meets_then (ensurePathUnderRoots_admits h)
    intro path
    apply meets_then (workerCall_admits _ _)
    intro resp
    exact meets_then (checkBundleOk_admits resp) fun _ => trivial
  · intro payload
    apply admits_of_meets
    apply meets_then (ensurePathUnderRoots_admits h)
    intro path
    refine ⟨trivial, fun approved _ => ?_⟩
    cases approved with
    | false => exact fun h => by cases h
    | true =>
        apply meets_then (workerCall_admits _ _)
        intro resp
        exact meets_then (checkBundleOk_admits resp) fun _ => trivial

end

/-! ## A token with its roots -/

/-- The roots of the token are those that were asked for and are there, there is
one, and no path under one of them is refused, now or on a later disk. -/
structure Rooted (disk : Disk) (body : HandshakeRequest) (record : TokenRecord) : Prop where
  forms : CanonicalForms disk body.fsRoots record.fsRoots
  some : record.fsRoots ≠ []
  admitted : ∀ (later : Disk) (text root : String) (names top : List String),
    root ∈ body.fsRoots → disk.Denotes root top → IsDir disk.tree top → top <+: names →
      later.Denotes text names → Open later record text

theorem Granted.rooted_iff {body : HandshakeRequest} {roots : List PathBuf} {now : ℕ}
    (h : Granted disk body roots) :
    Rooted disk body (newRecord now body.requestedScopes roots) ↔
      wantsFs body.requestedScopes = true := by
  unfold Granted at h
  constructor
  · intro hrooted
    by_contra hnot
    rw [if_neg hnot] at h
    exact hrooted.some h
  · intro hwants
    rw [if_pos hwants] at h
    refine ⟨h.1, h.2, ?_⟩
    intro later text root names top hroot htop hdir hprefix hdenotes
    obtain ⟨path, hpath, hcomponents⟩ := h.1.mem hroot htop hdir
    rw [← hcomponents] at hprefix
    exact open_of_below ⟨names, hdenotes, path, hpath, hprefix⟩

/-- A handshake that is answered gives a token with the asked roots just when a
scope for files was asked for. -/
theorem handshake_rooted_iff (disk : Disk) (origin : Option String) (body : HandshakeRequest)
    (s s' : AppState) (es rest : List (Moment disk)) (r : ResponseBody)
    (h : perform (I := api) reply (handshake origin body).run s es = some (.ok r, s', rest)) :
    ∃ token record roots, r = .handshake token body.requestedScopes roots tokenTtlSecs ∧
      s'.tokens token = some record ∧
      (Rooted disk body record ↔
        .fsRead ∈ body.requestedScopes ∨ .fsWrite ∈ body.requestedScopes) := by
  obtain ⟨roots, hgranted, token, now, hr, hrecord⟩ := handshake_issues h
  refine ⟨token, _, _, hr, hrecord, hgranted.rooted_iff.trans ?_⟩
  simp only [wantsFs, List.any_eq_true, Bool.or_eq_true, decide_eq_true_eq]
  constructor
  · intro hsome
    obtain ⟨scope, hscope, hfs⟩ := hsome
    cases hfs with
    | inl hread => exact .inl (hread ▸ hscope)
    | inr hwrite => exact .inr (hwrite ▸ hscope)
  · intro hsome
    cases hsome with
    | inl hread => exact ⟨.fsRead, hread, .inl rfl⟩
    | inr hwrite => exact ⟨.fsWrite, hwrite, .inr rfl⟩

/-! ### One directory -/

def oneDir : Disk where
  tree := .dir [("allowed", .dir [])]
  workingDir := []
  parse := fun text => if text = "/allowed" then some (.down ["allowed"]) else none
  display := displaySlashes

theorem oneDir_denotes : oneDir.Denotes "/allowed" ["allowed"] :=
  ⟨.down ["allowed"], rfl, resolves_self ⟨.dir [], rfl, rfl⟩⟩

/-- The system in front of it, with a user who approves. -/
def oneDirAnswer : Op → Environment
  | .canonicalize text =>
      { canonical := if text = "/allowed" then some ⟨"/allowed", ["allowed"]⟩ else none }
  | .isDir path => { isDir := (walk oneDir.tree path.components).any Node.isDir }
  | _ => { token := "a", approved := true }

theorem isDir_iff {t : Node String Bytes} {names : List String} :
    (walk t names).any Node.isDir = true ↔ IsDir t names := by
  rw [Option.any_eq_true]
  constructor
  · intro h
    obtain ⟨node, hnode, hdir⟩ := h
    cases node with
    | dir entries => exact ⟨entries, hnode⟩
    | file content => cases hdir
    | link target => cases hdir
  · intro h
    obtain ⟨entries, hnode⟩ := h
    exact ⟨.dir entries, hnode, rfl⟩

def oneDirMoment : Moment oneDir where
  change := fun s => s
  answer := oneDirAnswer
  tells := by
    intro s op r s' h
    cases op with
    | canonicalize text =>
        cases h
        by_cases htext : text = "/allowed"
        · subst htext
          exact ⟨oneDir_denotes, by decide⟩
        · have hnone : (oneDirAnswer (.canonicalize text)).canonical = none := if_neg htext
          rw [hnone]
          intro names hnames
          obtain ⟨path, hparse, -⟩ := hnames
          rw [show oneDir.parse text = none from if_neg htext] at hparse
          cases hparse
    | isDir path =>
        cases h
        exact fun _ => isDir_iff
    | _ => trivial

def answered : Option (Except ApiError ResponseBody × AppState × List (Moment oneDir)) → Bool
  | some (.ok _, _, _) => true
  | _ => false

theorem ran_of_answered {run : Option (Except ApiError ResponseBody × AppState × List (Moment oneDir))}
    (h : answered run = true) : ∃ r s' rest, run = some (.ok r, s', rest) := by
  unfold answered at h
  split at h
  · exact ⟨_, _, _, rfl⟩
  · cases h

/-- A handshake for these scopes and the one directory. -/
def oneRoot (scopes : List Scope) :
    Option (Except ApiError ResponseBody × AppState × List (Moment oneDir)) :=
  perform (I := api) reply (handshake none ⟨scopes, ["/allowed"]⟩).run firstLaunch.launched
    (List.replicate 4 oneDirMoment)

theorem rooted_fileScope : ∃ r s' rest, oneRoot [.fsRead, .bundleRead] = some (.ok r, s', rest) ∧
    ∃ token record, s'.tokens token = some record ∧
      Rooted oneDir ⟨[.fsRead, .bundleRead], ["/allowed"]⟩ record := by
  have hanswered : answered (oneRoot [.fsRead, .bundleRead]) = true := by decide +kernel
  obtain ⟨r, s', rest, hrun⟩ := ran_of_answered hanswered
  obtain ⟨token, record, roots, -, hrecord, hiff⟩ :=
    handshake_rooted_iff oneDir none _ _ _ _ _ r hrun
  exact ⟨r, s', rest, hrun, token, record, hrecord, hiff.mpr (.inl (by decide))⟩

/-- A token for bundles alone has no root. -/
theorem bundleScope_unrooted : ∃ r s' rest, oneRoot [.bundleRead] = some (.ok r, s', rest) ∧
    ∃ token record, s'.tokens token = some record ∧ .bundleRead ∈ record.scopes ∧
      ¬ Rooted oneDir ⟨[.bundleRead], ["/allowed"]⟩ record := by
  have hanswered : answered (oneRoot [.bundleRead]) = true := by decide +kernel
  obtain ⟨r, s', rest, hrun⟩ := ran_of_answered hanswered
  obtain ⟨roots, hgranted, token, now, -, hrecord⟩ := handshake_issues hrun
  have hnone : roots = [] := hgranted
  refine ⟨r, s', rest, hrun, token, _, hrecord, List.mem_singleton_self _, fun hrooted => ?_⟩
  exact hrooted.some hnone

end Xlpod.HandshakeRoots
