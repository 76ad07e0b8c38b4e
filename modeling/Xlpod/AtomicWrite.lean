import Xlpod.BundleArchive
import Xlpod.Library.GuardedRuns

/-!
# Writing a workbook step by step

The writer encodes the payload, reads the old archive, and has all new entries
before it touches a file. It then fills a temporary file next to the workbook
and renames it over the workbook. Any step may raise or be the last one before
the process is killed; a step on the temporary file that does not succeed leaves
anything there. The workbook holds its old bytes until the rename, and the
finished archive after it.
-/
namespace Xlpod.AtomicWrite
open Xlpod.ByteEncodings Xlpod.BundlePayload Xlpod.BundleFile Xlpod.BundleArchive Xlpod.GuardedRuns

/-! ## Before any file is touched -/

/-- `BundleWriter.write` up to its size check. -/
def encoded (L : Stdlib) (payload : Payload) : Except BundleError Bytes := do
  let data ← toDict L payload
  let wrapped := wrapXmlEnvelope (jsonBytes data)
  if wrapped.length > maxBundleBytes then throw (.tooLarge wrapped.length)
  pure wrapped

/-- The entries it makes of the archive it has read. -/
def newItems (wrapped : Bytes) : Workbook → Except BundleError (List (String × Bytes))
  | .notZip => throw (.corrupt "not a valid xlsx zip")
  | .zip parts => do
      let items ← rewriteParts parts wrapped parts
      if parts.any (·.1 == bundlePartPath) then pure items
      else pure (items ++ [(bundlePartPath, wrapped)])

theorem newItems_write (wrapped : Bytes) (book : Workbook) :
    (match book with
      | .notZip => throw (.corrupt "not a valid xlsx zip")
      | .zip parts => do
          let items ← rewriteParts parts wrapped parts
          if parts.any (·.1 == bundlePartPath) then pure (.zip items)
          else pure (.zip (items ++ [(bundlePartPath, wrapped)])) : Except BundleError Workbook) =
      (do
        let items ← newItems wrapped book
        pure (.zip items)) := by
  cases book with
  | notZip => rfl
  | zip parts =>
      simp only [newItems, bind_assoc]
      congr
      funext items
      split <;> rfl

/-- The writer is these two, one after the other. -/
theorem write_eq (L : Stdlib) (book : Workbook) (payload : Payload) :
    BundleWriter.write L book payload = (do
      let wrapped ← encoded L payload
      let items ← newItems wrapped book
      pure (.zip items)) := by
  unfold BundleWriter.write encoded
  cases toDict L payload with
  | error e => rfl
  | ok data =>
      change (if _ then _ else _ : Except BundleError Workbook) =
        (if _ then _ else _ : Except BundleError Bytes) >>= _
      split_ifs with hsize
      · rfl
      · exact newItems_write (wrapXmlEnvelope (jsonBytes data)) book

/-! ## The temporary path -/

/-- A path as `pathlib` sees it: what is in front of its last name, and the name. -/
structure FilePath where
  parent : String
  name : List Char
deriving DecidableEq

/-- `PurePath.suffix`: from the last dot on, if it is neither the first nor the
last character. -/
def suffix (name : List Char) : List Char :=
  let tail := (name.reverse.takeWhile (· ≠ '.')).reverse
  if tail.length + 1 < name.length ∧ tail ≠ [] then '.' :: tail else []

example : suffix "book.v2.xlsx".toList = ".xlsx".toList ∧ suffix ".xlsx".toList = [] := by decide

def FilePath.withSuffix (path : FilePath) (new : List Char) : FilePath :=
  { path with name := path.name.take (path.name.length - (suffix path.name).length) ++ new }

def FilePath.tmpPath (path : FilePath) : FilePath :=
  path.withSuffix (suffix path.name ++ ".xlpod.tmp".toList)

theorem suffix_isSuffix (name : List Char) : suffix name <:+ name := by
  unfold suffix
  dsimp only
  split_ifs with h
  · have hparts := List.takeWhile_append_dropWhile (p := (· ≠ '.')) (l := name.reverse)
    cases hrest : name.reverse.dropWhile (· ≠ '.') with
    | nil =>
        rw [hrest, List.append_nil] at hparts
        rw [hparts, List.reverse_reverse] at h
        omega
    | cons c rest =>
        have hdot : c = '.' := by
          have hhead := List.head?_dropWhile_not (p := (· ≠ '.')) name.reverse
          rw [hrest] at hhead
          simpa using hhead
        rw [hrest, hdot] at hparts
        refine ⟨rest.reverse, ?_⟩
        have hreverse := congrArg List.reverse hparts
        rw [List.reverse_append, List.reverse_cons, List.reverse_reverse] at hreverse
        rw [List.append_assoc, List.singleton_append] at hreverse
        exact hreverse
  · exact List.nil_suffix

/-- The temporary path is the workbook's with an ending added. -/
theorem tmpPath_name (path : FilePath) :
    path.tmpPath = { path with name := path.name ++ ".xlpod.tmp".toList } := by
  have hdrop := List.suffix_iff_eq_drop.mp (suffix_isSuffix path.name)
  have hname := List.take_append_drop (path.name.length - (suffix path.name).length) path.name
  rw [← hdrop] at hname
  unfold FilePath.tmpPath FilePath.withSuffix
  rw [← List.append_assoc, hname]

theorem tmpPath_ne (path : FilePath) : path.tmpPath ≠ path := by
  rw [tmpPath_name]
  intro h
  have hlength := congrArg (fun p => p.name.length) h
  simp at hlength

/-! ## The steps -/

/-- What `zipfile` reads out of the bytes of a file, and how the bytes of a file
it writes grow: when it is opened, with each entry, and when it is closed. -/
structure ZipFile where
  book : Bytes → Workbook
  opened : Bytes
  writestr : Bytes → String × Bytes → Bytes
  closed : Bytes → Bytes

def ZipFile.entries (z : ZipFile) (items : List (String × Bytes)) : Bytes :=
  items.foldl z.writestr z.opened

def ZipFile.archive (z : ZipFile) (items : List (String × Bytes)) : Bytes :=
  z.closed (z.entries items)

abbrev Files := FilePath → Option Bytes

/-- What a call ends with when it raises: an error of the writer's own, or any
exception of the system or the interpreter. -/
inductive Failure
  | write (e : BundleError)
  | system

inductive Phase
  | encoding
  | reading (wrapped : Bytes)
  | creating (items : List (String × Bytes))
  | writing (done rest : List (String × Bytes))
  | closing (items : List (String × Bytes))
  /-- The `with` block closes the file after an exception, too. -/
  | unwinding
  | replacing (items : List (String × Bytes))
  | returned
  | raised (e : Failure)
  | killed

structure State where
  files : Files
  phase : Phase

/-- A step succeeds, raises, or is cut by the end of the process; the last two
leave what they like in a file that is being written. -/
inductive Label
  | succeed
  | fail (torn : Option Bytes → Option Bytes)
  | kill (torn : Option Bytes → Option Bytes)

/-- The phases in which the temporary file is open. -/
def Phase.isOpen : Phase → Bool
  | .creating _ | .writing _ _ | .closing _ | .unwinding => true
  | _ => false

def Phase.isOver : Phase → Bool
  | .returned | .raised _ | .killed => true
  | _ => false

/-- Where an exception of the step leads. -/
def Phase.unwind : Phase → Phase
  | .writing _ _ => .unwinding
  | _ => .raised .system

section
variable (L : Stdlib) (z : ZipFile) (path : FilePath) (payload : Payload)

def torn (s : State) (left : Option Bytes → Option Bytes) : Files :=
  if s.phase.isOpen then Function.update s.files path.tmpPath (left (s.files path.tmpPath))
  else s.files

/-- The step that comes next, when it succeeds. -/
def advance (files : Files) : Phase → State
  | .encoding =>
      match encoded L payload with
      | .error e => ⟨files, .raised (.write e)⟩
      | .ok wrapped => ⟨files, .reading wrapped⟩
  | .reading wrapped =>
      match files path with
      | none => ⟨files, .raised .system⟩
      | some old =>
          match newItems wrapped (z.book old) with
          | .error e => ⟨files, .raised (.write e)⟩
          | .ok items => ⟨files, .creating items⟩
  | .creating items =>
      ⟨Function.update files path.tmpPath (some z.opened), .writing [] items⟩
  | .writing done [] => ⟨files, .closing done⟩
  | .writing done (item :: rest) =>
      ⟨Function.update files path.tmpPath ((files path.tmpPath).map (z.writestr · item)),
        .writing (done ++ [item]) rest⟩
  | .closing items =>
      ⟨Function.update files path.tmpPath ((files path.tmpPath).map z.closed), .replacing items⟩
  | .unwinding =>
      ⟨Function.update files path.tmpPath ((files path.tmpPath).map z.closed), .raised .system⟩
  | .replacing _ =>
      ⟨Function.update (Function.update files path (files path.tmpPath)) path.tmpPath none, .returned⟩
  | phase => ⟨files, phase⟩

def next (s : State) : Label → Option State
  | .succeed => if s.phase.isOver then none else some (advance L z path payload s.files s.phase)
  | .fail left => if s.phase.isOver then none else some ⟨torn path s left, s.phase.unwind⟩
  | .kill left => if s.phase.isOver then none else some ⟨torn path s left, .killed⟩

def machine (files : Files) : Machine State Label where
  start := ⟨files, .encoding⟩
  next := next L z path payload

end

/-! ## What every step keeps -/

/-- The entries of the archive that the writer makes of the file at its path. -/
def NewArchive (L : Stdlib) (z : ZipFile) (payload : Payload) (old : Option Bytes)
    (items : List (String × Bytes)) : Prop :=
  ∃ bytes, old = some bytes ∧ BundleWriter.write L (z.book bytes) payload = .ok (.zip items)

/-- The two files in each phase. -/
def Held (L : Stdlib) (z : ZipFile) (path : FilePath) (payload : Payload) (start files : Files) :
    Phase → Prop
  | .encoding => files = start
  | .reading wrapped => files = start ∧ encoded L payload = .ok wrapped
  | .creating items => files = start ∧ NewArchive L z payload (start path) items
  | .writing done rest => files path = start path ∧
      NewArchive L z payload (start path) (done ++ rest) ∧
        files path.tmpPath = some (z.entries done)
  | .closing items => files path = start path ∧ NewArchive L z payload (start path) items ∧
      files path.tmpPath = some (z.entries items)
  | .replacing items => files path = start path ∧ NewArchive L z payload (start path) items ∧
      files path.tmpPath = some (z.archive items)
  | .returned => ∃ items, NewArchive L z payload (start path) items ∧
      files path = some (z.archive items)
  | .raised (.write _) => files = start
  | .raised .system | .unwinding | .killed => files path = start path

section
variable {L : Stdlib} {z : ZipFile} {path : FilePath} {payload : Payload} {start : Files}

theorem Held.kept {files : Files} {phase : Phase} (h : Held L z path payload start files phase)
    (hover : phase.isOver = false) : files path = start path := by
  cases phase with
  | encoding => exact congrFun h path
  | reading wrapped => exact congrFun h.1 path
  | creating items => exact congrFun h.1 path
  | writing done rest => exact h.1
  | closing items => exact h.1
  | unwinding => exact h
  | replacing items => exact h.1
  | returned => cases hover
  | raised e => cases hover
  | killed => cases hover

theorem update_tmp (files : Files) (content : Option Bytes) :
    Function.update files path.tmpPath content path = files path :=
  Function.update_of_ne (tmpPath_ne path).symm content files

theorem advance_held {files : Files} {phase : Phase}
    (h : Held L z path payload start files phase) (hover : phase.isOver = false) :
    Held L z path payload start (advance L z path payload files phase).files
      (advance L z path payload files phase).phase := by
  cases phase with
  | encoding =>
      unfold advance
      cases hwrapped : encoded L payload with
      | error e => exact h
      | ok wrapped => exact ⟨h, hwrapped⟩
  | reading wrapped =>
      obtain ⟨hfiles, hwrapped⟩ := h
      subst hfiles
      unfold advance
      cases hold : files path with
      | none => rfl
      | some old =>
          cases hitems : newItems wrapped (z.book old) with
          | error e =>
              simp only [hitems]
              rfl
          | ok items =>
              have hwrite : BundleWriter.write L (z.book old) payload = .ok (.zip items) := by
                rw [write_eq, hwrapped]
                change (newItems wrapped (z.book old) >>= _) = _
                rw [hitems]
                rfl
              simp only [hitems]
              exact ⟨rfl, old, hold, hwrite⟩
  | creating items =>
      obtain ⟨hfiles, hitems⟩ := h
      subst hfiles
      exact ⟨update_tmp files _, hitems, Function.update_self ..⟩
  | writing done rest =>
      obtain ⟨hpath, hitems, htmp⟩ := h
      cases rest with
      | nil =>
          rw [List.append_nil] at hitems
          exact ⟨hpath, hitems, htmp⟩
      | cons item rest =>
          refine ⟨(update_tmp files _).trans hpath, ?_, ?_⟩
          · rw [List.append_assoc]
            exact hitems
          · change Function.update files path.tmpPath _ path.tmpPath = _
            rw [Function.update_self, htmp]
            simp [ZipFile.entries]
  | closing items =>
      obtain ⟨hpath, hitems, htmp⟩ := h
      refine ⟨(update_tmp files _).trans hpath, hitems, ?_⟩
      change Function.update files path.tmpPath _ path.tmpPath = _
      rw [Function.update_self, htmp]
      rfl
  | unwinding => exact (update_tmp files _).trans h
  | replacing items =>
      obtain ⟨-, hitems, htmp⟩ := h
      refine ⟨items, hitems, ?_⟩
      change Function.update (Function.update files path _) path.tmpPath _ path = _
      rw [update_tmp, Function.update_self, htmp]
  | returned => cases hover
  | raised e => cases hover
  | killed => cases hover

theorem torn_kept (s : State) (left : Option Bytes → Option Bytes) :
    torn path s left path = s.files path := by
  unfold torn
  split
  · exact update_tmp s.files _
  · rfl

theorem step_held {s s' : State} {label : Label} (h : Held L z path payload start s.files s.phase)
    (hnext : next L z path payload s label = some s') :
    Held L z path payload start s'.files s'.phase := by
  have hover : s.phase.isOver = false := by
    cases hphase : s.phase.isOver with
    | false => rfl
    | true => cases label <;> simp [next, hphase] at hnext
  cases label with
  | succeed =>
      rw [next, hover] at hnext
      cases hnext
      exact advance_held h hover
  | fail left =>
      rw [next, hover] at hnext
      cases hnext
      have hkept := (torn_kept s left).trans (h.kept hover)
      change Held L z path payload start (torn path s left) s.phase.unwind
      unfold Phase.unwind
      split <;> exact hkept
  | kill left =>
      rw [next, hover] at hnext
      cases hnext
      exact (torn_kept s left).trans (h.kept hover)

theorem reachable_held {guard : State → Label → Prop} {s : State}
    (h : Reachable (machine L z path payload start) guard s) :
    Held L z path payload start s.files s.phase := by
  apply h.invariant (P := fun s => Held L z path payload start s.files s.phase)
  · exact rfl
  · intro u label v _ hu _ hnext
    exact step_held hu hnext

/-- A step leaves the files at other paths alone. -/
theorem step_others {s s' : State} {label : Label} {other : FilePath} (hpath : other ≠ path)
    (htmp : other ≠ path.tmpPath) (hnext : next L z path payload s label = some s') :
    s'.files other = s.files other := by
  have htorn (left : Option Bytes → Option Bytes) : torn path s left other = s.files other := by
    unfold torn
    split
    · exact Function.update_of_ne htmp _ _
    · rfl
  cases label with
  | succeed =>
      simp only [next, Option.ite_none_left_eq_some, Option.some.injEq] at hnext
      rw [← hnext.2]
      unfold advance
      split
      · split <;> rfl
      · split
        · rfl
        · split <;> rfl
      · exact Function.update_of_ne htmp _ _
      · rfl
      · exact Function.update_of_ne htmp _ _
      · exact Function.update_of_ne htmp _ _
      · exact Function.update_of_ne htmp _ _
      · exact (Function.update_of_ne htmp _ _).trans (Function.update_of_ne hpath _ _)
      · rfl
  | fail left =>
      simp only [next, Option.ite_none_left_eq_some, Option.some.injEq] at hnext
      rw [← hnext.2]
      exact htorn left
  | kill left =>
      simp only [next, Option.ite_none_left_eq_some, Option.some.injEq] at hnext
      rw [← hnext.2]
      exact htorn left

/-- At the workbook's path are its old bytes or the finished new archive; only the
temporary path changes besides; and an error of the writer's own has changed nothing. -/
structure Atomic (L : Stdlib) (z : ZipFile) (path : FilePath) (payload : Payload) (start : Files)
    (s : State) : Prop where
  book : s.files path = start path ∨ ∃ items, NewArchive L z payload (start path) items ∧
    s.files path = some (z.archive items)
  others : ∀ other, other ≠ path → other ≠ { path with name := path.name ++ ".xlpod.tmp".toList } →
    s.files other = start other
  untouched : ∀ e, s.phase = .raised (.write e) → s.files = start
  returned : s.phase = .returned → ∃ items, NewArchive L z payload (start path) items ∧
    s.files path = some (z.archive items)

/-- The write is atomic wherever it stops. -/
theorem write_atomic (L : Stdlib) (z : ZipFile) (path : FilePath) (payload : Payload)
    (start : Files) (s : State) (h : Reachable (machine L z path payload start) anyStep s) :
    Atomic L z path payload start s := by
  have hheld := reachable_held h
  constructor
  · cases hover : s.phase.isOver with
    | false => exact .inl (hheld.kept hover)
    | true =>
        cases hphase : s.phase with
        | returned =>
            rw [hphase] at hheld
            exact .inr hheld
        | raised e =>
            rw [hphase] at hheld
            cases e with
            | write e => exact .inl (congrFun hheld path)
            | system => exact .inl hheld
        | killed =>
            rw [hphase] at hheld
            exact .inl hheld
        | _ =>
            rw [hphase] at hover
            cases hover
  · intro other hpath htmp
    rw [← tmpPath_name] at htmp
    apply h.invariant (P := fun s => s.files other = start other)
    · rfl
    · intro u label v _ hu _ hnext
      exact (step_others hpath htmp hnext).trans hu
  · intro e hphase
    rw [hphase] at hheld
    exact hheld
  · intro hphase
    rw [hphase] at hheld
    exact hheld

/-- A format without compression, for a workbook with two parts. -/
def joinedZip : ZipFile where
  book := fun _ => minimalWorkbook
  opened := []
  writestr := fun written item => written ++ item.2
  closed := fun written => written

def smallBook : FilePath := ⟨"/home/user", "book.xlsx".toList⟩

def smallFiles : Files := Function.update (fun _ => none) smallBook (some (ascii "PK"))

def isReturned : Phase → Bool
  | .returned => true
  | _ => false

def isKilled : Phase → Bool
  | .killed => true
  | _ => false

/-- All three entries reach the temporary file. Cut there, the workbook is the old
one; one step further it is the new one and the temporary file is gone. -/
theorem atomic_smallBook :
    (∃ s, isKilled s.phase = true ∧ s.files smallBook.tmpPath ≠ none ∧
      s.files smallBook = some (ascii "PK") ∧
      Atomic plainStdlib joinedZip smallBook (sessionPayload "hi") smallFiles s) ∧
    ∃ s, isReturned s.phase = true ∧ s.files smallBook.tmpPath = none ∧
      s.files smallBook ≠ some (ascii "PK") ∧
      Atomic plainStdlib joinedZip smallBook (sessionPayload "hi") smallFiles s := by
  obtain ⟨s, hs, hcut⟩ := replay_reaches
    (machine plainStdlib joinedZip smallBook (sessionPayload "hi") smallFiles) anyStep unchecked
    (List.replicate 8 .succeed ++ [.kill id])
    (fun s => isKilled s.phase && (s.files smallBook.tmpPath).isSome &&
      s.files smallBook = some (ascii "PK")) (fun _ _ _ => trivial) (by decide +kernel)
  obtain ⟨u, hu, hdone⟩ := replay_reaches
    (machine plainStdlib joinedZip smallBook (sessionPayload "hi") smallFiles) anyStep unchecked
    (List.replicate 9 .succeed)
    (fun s => isReturned s.phase && (s.files smallBook.tmpPath).isNone &&
      s.files smallBook ≠ some (ascii "PK")) (fun _ _ _ => trivial) (by decide +kernel)
  simp only [Bool.and_eq_true, decide_eq_true_eq, Option.isNone_iff_eq_none,
    Option.isSome_iff_ne_none] at hcut hdone
  exact ⟨⟨s, hcut.1.1, hcut.1.2, hcut.2, write_atomic _ _ _ _ _ s hs⟩,
    u, hdone.1.1, hdone.1.2, hdone.2, write_atomic _ _ _ _ _ u hu⟩

/-! ## Runs to the end -/

/-- With nothing in its way the writer returns, and the workbook is the new archive. -/
theorem write_returns {items : List (String × Bytes)}
    (h : NewArchive L z payload (start path) items) :
    ∃ s, Reachable (machine L z path payload start) anyStep s ∧ s.phase = .returned := by
  obtain ⟨old, hold, hwrite⟩ := h
  rw [write_eq] at hwrite
  obtain ⟨wrapped, hwrapped, hwrite⟩ := bind_ok hwrite
  obtain ⟨items', hitems, hwrite⟩ := bind_ok hwrite
  have hstep (files : Files) (phase : Phase) (hover : phase.isOver = false) :
      Run (machine L z path payload start) anyStep ⟨files, phase⟩
        (advance L z path payload files phase) := by
    apply Run.single (a := .succeed) trivial
    simp [machine, next, hover]
  have hwriting (rest done : List (String × Bytes)) (files : Files) : ∃ files',
      Run (machine L z path payload start) anyStep ⟨files, .writing done rest⟩
        ⟨files', .writing (done ++ rest) []⟩ := by
    induction rest generalizing done files with
    | nil =>
        rw [List.append_nil]
        exact ⟨files, .done _⟩
    | cons item rest ih =>
        obtain ⟨files', hrest⟩ := ih (done ++ [item]) _
        rw [List.append_assoc] at hrest
        exact ⟨files', (hstep files _ rfl).trans hrest⟩
  have hencoded := hstep start .encoding rfl
  have hread := hstep start (.reading wrapped) rfl
  simp only [advance, hwrapped] at hencoded
  simp only [advance, hold, hitems] at hread
  have hcreated := hstep start (.creating items') rfl
  obtain ⟨files, hwritten⟩ := hwriting items' [] _
  have hdone := (((hencoded.trans hread).trans hcreated).trans hwritten).trans (hstep files _ rfl)
  exact ⟨_, (hdone.trans (hstep _ _ rfl)).trans (hstep _ _ rfl), rfl⟩

/-- The workbook then reads as what the writer makes of it, when `zipfile` reads
the archives it writes. -/
theorem returned_refines (hz : ∀ items, z.book (z.archive items) = .zip items) {s : State}
    (h : Reachable (machine L z path payload start) anyStep s) (hphase : s.phase = .returned) :
    ∃ old new, start path = some old ∧ s.files path = some new ∧
      BundleWriter.write L (z.book old) payload = .ok (z.book new) := by
  have hheld := reachable_held h
  rw [hphase] at hheld
  obtain ⟨items, hitems, hnew⟩ := hheld
  obtain ⟨old, hold, hwrite⟩ := hitems
  refine ⟨old, z.archive items, hold, hnew, ?_⟩
  rw [hz]
  exact hwrite

end

end Xlpod.AtomicWrite
