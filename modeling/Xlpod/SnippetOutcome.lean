import Xlpod.ChatTranscript
import Xlpod.Server
import Xlpod.WorkerFraming
import Xlpod.WorkerPipe

/-!
# What a snippet's outcome becomes

`_exec` ends with two captured streams, the `repr` of a result and the text of an
error, any of which may hold surrogates. `json.dumps` writes a lone surrogate as
an escape, and `serde_json` refuses the line for it. Where every surrogate is
half of a pair, the launcher answers with the same outcome, the pairs joined.
-/
namespace Xlpod.SnippetOutcome
open Xlpod.ApiErrors Xlpod.Auth Xlpod.AiTypes Xlpod.BundlePayload Xlpod.JsonText Xlpod.Programs
open Xlpod.SoloRuns Xlpod.WorkerLoop Xlpod.ServerState Xlpod.ServerCalls Xlpod.ChatTranscript
open Xlpod.Routes Xlpod.Server
open Xlpod.WorkerPipe (trim parseLine isWhitespace)

/-! ## Texts -/

/-- A Rust text stands for a Python one: pairs of surrogates are joined, and a
lone one may be replaced. -/
inductive StandsFor : Text → Text → Prop
  | nil : StandsFor [] []
  | scalar {c : CodePoint} {s t : Text} : isHigh c = false → isLow c = false → StandsFor s t →
      StandsFor (c :: s) (c :: t)
  | pair {h l : CodePoint} {s t : Text} : isHigh h = true → isLow l = true → StandsFor s t →
      StandsFor (h :: l :: s)
        (codePoint (0x10000 + (h.val - 0xD800) * 1024 + (l.val - 0xDC00)) :: t)
  | replaced {c r : CodePoint} {s t : Text} : isHigh c = true ∨ isLow c = true →
      StandsFor s t → StandsFor (c :: s) (r :: t)

theorem joined_scalar {h l : CodePoint} (hh : isHigh h = true) (hl : isLow l = true) :
    isHigh (codePoint (0x10000 + (h.val - 0xD800) * 1024 + (l.val - 0xDC00))) = false ∧
      isLow (codePoint (0x10000 + (h.val - 0xD800) * 1024 + (l.val - 0xDC00))) = false := by
  simp only [isHigh, isLow, Bool.and_eq_true, decide_eq_true_eq] at hh hl
  have hval := codePoint_val (n := 0x10000 + (h.val - 0xD800) * 1024 + (l.val - 0xDC00)) (by omega)
  simp only [isHigh, isLow, hval, Bool.and_eq_false_iff, decide_eq_false_iff_not]
  omega

theorem joinScalars_standsFor {s t : Text} (h : joinScalars s = some t) :
    Scalar t ∧ StandsFor s t := by
  fun_induction joinScalars s generalizing t with
  | case1 =>
      cases h
      exact ⟨by simp [Scalar], .nil⟩
  | case2 c hc l us hl ih =>
      obtain ⟨t', ht', rfl⟩ := Option.map_eq_some_iff.mp h
      obtain ⟨hscalar, hstands⟩ := ih ht'
      exact ⟨List.forall_mem_cons.mpr ⟨joined_scalar hc hl, hscalar⟩, .pair hc hl hstands⟩
  | case3 c hc l us hl => cases h
  | case4 c hc => cases h
  | case5 c us hc hl => cases h
  | case6 c us hc hl ih =>
      obtain ⟨t', ht', rfl⟩ := Option.map_eq_some_iff.mp h
      obtain ⟨hscalar, hstands⟩ := ih ht'
      have hhigh := Bool.eq_false_iff.mpr hc
      have hlow := Bool.eq_false_iff.mpr hl
      exact ⟨List.forall_mem_cons.mpr ⟨⟨hhigh, hlow⟩, hscalar⟩, .scalar hhigh hlow hstands⟩

theorem joinScalars_self {s : Text} (h : Scalar s) : joinScalars s = some s := by
  induction s with
  | nil => rfl
  | cons c s ih =>
      obtain ⟨hc, hs⟩ := List.forall_mem_cons.mp h
      rw [joinScalars_cons hc, ih hs]
      rfl

@[simp] theorem joinScalars_lit (s : String) : joinScalars (lit s) = some (lit s) :=
  joinScalars_self (lit_scalar s)

/-! ## The outcome and its line -/

/-- What `_exec` returns, but for `ok`. -/
structure Outcome where
  stdout : Text
  stderr : Text
  result : Option Text
  error : Option Text

namespace Outcome

def fields (o : Outcome) : List (Text × PyJson) :=
  [(lit "ok", .bool o.error.isNone), (lit "stdout", .str o.stdout),
    (lit "stderr", .str o.stderr), (lit "result", optionalText o.result),
    (lit "error", optionalText o.error)]

def reply (o : Outcome) : Reply := o.fields.map fun f => (f.1, .value f.2)

/-- The line of the outcome under the id of its request. -/
def line (o : Outcome) (id : ℕ) : List Char :=
  sendLine (.obj (o.fields ++ [(lit "id", .int id)]))

def texts (o : Outcome) : List Text :=
  o.stdout :: o.stderr :: (o.result.toList ++ o.error.toList)

/-- An answer of the launcher that tells the outcome. -/
structure ToldBy (o : Outcome) (r : ExecResult) : Prop where
  ok : r.ok = o.error.isNone
  stdout : StandsFor o.stdout (lit r.stdout)
  stderr : StandsFor o.stderr (lit r.stderr)
  result : Option.Rel StandsFor o.result (r.result.map lit)
  error : Option.Rel StandsFor o.error (r.error.map lit)

end Outcome

/-- Every reply of `_exec` is that of an outcome. -/
theorem exec_outcome {s : SnippetRun} {reply : Reply} (h : (WorkerLoop.exec s).reply = some reply) :
    ∃ o : Outcome, reply = o.reply := by
  unfold WorkerLoop.exec at h
  cases hr : s.ended.rendering with
  | none =>
      rw [hr] at h
      obtain ⟨c, -, hc⟩ := Option.map_eq_some_iff.mp h
      exact ⟨⟨c.1, c.2, _, _⟩, hc.symm⟩
  | some r =>
      rw [hr] at h
      obtain ⟨c, -, hc⟩ := Option.bind_eq_some_iff.mp h
      obtain ⟨t, -, ht⟩ := Option.map_eq_some_iff.mp hc
      exact ⟨⟨c.1, c.2, _, _⟩, ht.symm⟩

/-- `_send` of a reply with its id writes the line. -/
theorem dumps_outcome (o : Outcome) (id : ℕ) :
    (dumps (o.reply ++ [(lit "id", .value (.int id))])).map sendLine = some (o.line id) := rfl

theorem trim_line (o : Outcome) (id : ℕ) :
    trim (o.line id) = render pythonWriter (.obj (o.fields ++ [(lit "id", .int id)])) := by
  obtain ⟨body, hbody⟩ := WorkerFraming.render_obj_last (o.fields ++ [(lit "id", .int id)])
  have hstart : isWhitespace '{' = false := by decide
  have hstop : isWhitespace '}' = false := by decide
  have hline : o.line id = '{' :: (o.line id).tail := rfl
  have hkept : (o.line id).dropWhile isWhitespace = o.line id := by
    rw [hline, List.dropWhile_cons_of_neg (by simp [hstart])]
  have htext : o.line id = body ++ ['}'] ++ ['\n'] := by
    rw [← hbody]
    rfl
  rw [trim, hkept, hbody, htext, List.reverse_append, List.reverse_append]
  simp only [List.reverse_cons, List.reverse_nil, List.nil_append, List.cons_append]
  rw [List.dropWhile_cons_of_pos (by decide), List.dropWhile_cons_of_neg (by simp [hstop])]
  simp

/-! ## What the launcher reads -/

def joinOptional : Option Text → Option (Option Text)
  | none => some none
  | some s => (joinScalars s).map some

/-- The outcome as Rust strings, unless one of them cannot be read. -/
def Outcome.joined (o : Outcome) : Option Outcome := do
  let stdout ← joinScalars o.stdout
  let stderr ← joinScalars o.stderr
  let result ← joinOptional o.result
  let error ← joinOptional o.error
  some ⟨stdout, stderr, result, error⟩

theorem optionalText_convert (s : Option Text) :
    (optionalText s).convert joinScalars = (joinOptional s).map optionalText := by
  cases s with
  | none => rfl
  | some s => cases h : joinScalars s <;> simp [optionalText, Json.convert, joinOptional, h]

theorem fields_convert (o : Outcome) (id : ℕ) :
    convertFields joinScalars (o.fields ++ [(lit "id", .int id)]) =
      o.joined.map fun u => u.fields ++ [(lit "id", .int id)] := by
  obtain ⟨stdout, stderr, result, error⟩ := o
  simp only [Outcome.fields, Outcome.joined, List.cons_append, List.nil_append, convertFields,
    Json.convert, joinScalars_lit, optionalText_convert]
  cases joinScalars stdout with
  | none => rfl
  | some stdout =>
      cases joinScalars stderr with
      | none => rfl
      | some stderr =>
          cases joinOptional result with
          | none => rfl
          | some result =>
              cases error with
              | none => rfl
              | some error =>
                  simp only [joinOptional]
                  cases joinScalars error <;> rfl

theorem parseLine_outcome (o : Outcome) (id : ℕ) : parseLine (o.line id) =
    o.joined.map fun u => .obj (u.fields ++ [(lit "id", .int id)]) := by
  have hsupported : (Json.obj (o.fields ++ [(lit "id", .int id)])).Supported rustReader
      fun _ => True := by
    refine ⟨fun _ _ => trivial, .inr ?_⟩
    obtain ⟨stdout, stderr, result, error⟩ := o
    cases result <;> cases error <;>
      simp [Outcome.fields, Json.Finite, Json.fieldsFinite, optionalText]
  have hkeys (u : Outcome) :
      ((u.fields ++ [(lit "id", (.int id : PyJson))]).map Prod.fst).Nodup := by
    simp [Outcome.fields]
  rw [parseLine, trim_line, parse_convert python_rust_converts hsupported, Json.convert,
    fields_convert, Option.map_map]
  apply Option.map_congr
  intro u _
  exact congrArg Json.obj (collect_eq (hkeys u))

/-- The launcher's value of an outcome it could read. -/
def Outcome.toExec (o : Outcome) : ExecResult where
  ok := o.error.isNone
  stdout := rustString o.stdout
  stderr := rustString o.stderr
  result := o.result.map rustString
  error := o.error.map rustString

theorem fromValue_fields (o : Outcome) (id : ℕ) :
    ExecResult.fromValue (.obj (o.fields ++ [(lit "id", .int id)])) = some o.toExec := by
  obtain ⟨stdout, stderr, result, error⟩ := o
  cases result <;> cases error <;> rfl

/-- A worker that takes the call and answers with the line. -/
def hearing (line : List Char) : List Answer :=
  List.replicate 4 (0, { piped := true, read := .line (parseLine line) })

/-- `POST /run/python` once the worker has written the line. -/
def run (s : AppState) (code : String) (line : List Char) :
    Option (Response × AppState × List Answer) :=
  perform answer (toResponse Route.runPython.successStatus <$> (runPythonRoute code).run) s
    (hearing line)

/-- The client gets 200 with the outcome. -/
def Delivered (s : AppState) (code : String) (id : ℕ) (o : Outcome) : Prop :=
  ∃ r, run s code (o.line id) = some (⟨200, none, .exec r⟩, s, []) ∧ o.ToldBy r

variable {s : AppState} {code : String} {id : ℕ} {o u : Outcome}

theorem run_joined (h : o.joined = some u) :
    run s code (o.line id) = some (⟨200, none, .exec u.toExec⟩, s, []) := by
  have hline : parseLine (o.line id) = some (.obj (u.fields ++ [(lit "id", .int id)])) := by
    rw [parseLine_outcome, h]
    rfl
  unfold run hearing
  rw [hline]
  have hvalue := fromValue_fields u id
  have hroute : perform answer (runPythonRoute code).run s (List.replicate 4 (0,
      { piped := true, read := .line (some (.obj (u.fields ++ [(lit "id", .int id)]))) })) =
      some (.ok (.exec u.toExec), s, []) := by
    change perform answer (.exec <$> okOr .internal (ExecResult.fromValue
      (.obj (u.fields ++ [(lit "id", .int id)]))) : Handler ResponseBody).run s [] = _
    rw [hvalue]
    rfl
  change perform answer ((runPythonRoute code).run >>= fun r =>
    pure (toResponse Route.runPython.successStatus r)) s _ = _
  rw [perform_bind, hroute]
  rfl

theorem run_unjoined (h : o.joined = none) : run s code (o.line id) =
    some (⟨ApiError.internal.status, none, .error .internal⟩, s, []) := by
  have hline : parseLine (o.line id) = none := by
    rw [parseLine_outcome, h]
    rfl
  unfold run hearing
  rw [hline]
  rfl

theorem joinOptional_toldBy {t t' : Option Text} (h : joinOptional t = some t') :
    Option.Rel StandsFor t ((t'.map rustString).map lit) := by
  cases t with
  | none =>
      cases h
      exact .none
  | some t =>
      obtain ⟨v, hv, rfl⟩ := Option.map_eq_some_iff.mp h
      obtain ⟨hscalar, hstands⟩ := joinScalars_standsFor hv
      rw [Option.map_some, Option.map_some, lit_rustString hscalar]
      exact .some hstands

theorem joined_toldBy (h : o.joined = some u) : o.ToldBy u.toExec := by
  obtain ⟨stdout, hstdout, h⟩ := Option.bind_eq_some_iff.mp h
  obtain ⟨stderr, hstderr, h⟩ := Option.bind_eq_some_iff.mp h
  obtain ⟨result, hresult, h⟩ := Option.bind_eq_some_iff.mp h
  obtain ⟨error, herror, h⟩ := Option.bind_eq_some_iff.mp h
  cases h
  obtain ⟨hscalar, hstands⟩ := joinScalars_standsFor hstdout
  obtain ⟨hscalar', hstands'⟩ := joinScalars_standsFor hstderr
  refine ⟨?_, ?_, ?_, joinOptional_toldBy hresult, joinOptional_toldBy herror⟩
  · cases herr : o.error with
    | none =>
        rw [herr] at herror
        cases herror
        rfl
    | some t =>
        rw [herr] at herror
        obtain ⟨v, -, rfl⟩ := Option.map_eq_some_iff.mp herror
        rfl
  · rw [Outcome.toExec, lit_rustString hscalar]
    exact hstands
  · rw [Outcome.toExec, lit_rustString hscalar']
    exact hstands'

theorem joinOptional_isSome {t : Option Text} :
    (joinOptional t).isSome = true ↔ ∀ s ∈ t.toList, Paired s := by
  cases t with
  | none => simp [joinOptional]
  | some t => simp [joinOptional, joinScalars_isSome]

theorem joined_isSome (o : Outcome) : o.joined.isSome = true ↔ ∀ t ∈ o.texts, Paired t := by
  rw [Outcome.texts, List.forall_mem_cons, List.forall_mem_cons, List.forall_mem_append,
    ← joinOptional_isSome, ← joinOptional_isSome, ← joinScalars_isSome, ← joinScalars_isSome,
    Outcome.joined]
  cases joinScalars o.stdout <;> cases joinScalars o.stderr <;> cases joinOptional o.result <;>
    cases joinOptional o.error <;> simp

/-- For every outcome of a snippet the client gets it with 200 exactly when each
surrogate in its texts is half of a pair. -/
theorem delivered_iff (s : AppState) (code : String) (id : ℕ) (o : Outcome) :
    Delivered s code id o ↔ ∀ t ∈ o.texts, Paired t := by
  rw [← joined_isSome]
  constructor
  · intro h
    obtain ⟨r, hrun, -⟩ := h
    cases hjoined : o.joined with
    | some u => rfl
    | none =>
        rw [run_unjoined hjoined] at hrun
        cases hrun
  · intro h
    obtain ⟨u, hu⟩ := Option.isSome_iff_exists.mp h
    exact ⟨u.toExec, run_joined hu, joined_toldBy hu⟩

/-- `print` of a lone surrogate. -/
def lonePrint : Outcome := ⟨[codePoint 0xD800, codePoint 10], [], none, none⟩

theorem lonePrint_undelivered :
    ¬ Delivered firstLaunch.launched "print(chr(0xD800))" 1 lonePrint ∧
      run firstLaunch.launched "print(chr(0xD800))" (lonePrint.line 1) =
        some (⟨500, none, .error .internal⟩, firstLaunch.launched, []) := by
  have hunpaired : ¬ ∀ t ∈ lonePrint.texts, Paired t := by
    intro h
    have hpaired := h _ List.mem_cons_self
    cases hpaired with
    | scalar hc => cases hc
    | pair _ hl => cases hl
  have hjoined : lonePrint.joined = none := by
    rw [← Option.not_isSome_iff_eq_none, joined_isSome]
    exact hunpaired
  refine ⟨?_, run_unjoined hjoined⟩
  intro h
  obtain ⟨r, hrun, -⟩ := h
  rw [run_unjoined hjoined] at hrun
  cases hrun

end Xlpod.SnippetOutcome
