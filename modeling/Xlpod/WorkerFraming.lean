import Xlpod.WorkerLoop
import Xlpod.BundleRoundTrip
import Mathlib.Data.List.Forall2

/-!
# One line per request

A run is framed when the loop was not left by an exception, it has read a line of
each request, and the response stream consists of one line for each of them, in
order, the line being the JSON text of a reply that carries the request's id. The
condition is on what the launcher sent and on what the environment answered: what
earlier snippets have left of every line is heard with its id, and the work it
starts ends cleanly.

A turn is examined once per method; the run then follows by counting newlines,
because text printed by a snippet's own methods could otherwise stand in for
another line.
-/
namespace Xlpod.WorkerFraming
open Xlpod.JsonText Xlpod.ByteEncodings Xlpod.BundlePayload Xlpod.BundleFile
open Xlpod.BundleArchive Xlpod.BundleRoundTrip Xlpod.WorkerLoop

/-! ## Clean outcomes -/

/-- Spaces that a JSON text may be padded with on its line. -/
def Blank (printed : List Char) : Prop := ∀ c ∈ printed, isSpace c = true ∧ c ≠ '\n'

section
variable (L : Stdlib) (describe : BundleError → Text) (codec : Bytes → Option (List Char))

/-- Something is left of the line for the loop to read. -/
def Reached (r : ℕ × Input) : Prop := r.1 < (requestBytes r.2.request).length

/-- The request was read, the line is the text of the reply its turn sent, and the
reply has the id. -/
def Answers (line : List Char) (r : ℕ × Input) : Prop :=
  Reached r ∧ ∃ fields before after, (turn L describe codec r.1 r.2).sent = some (.obj fields) ∧
    fields.lookup (lit "id") = some (.int r.2.request.id) ∧ Blank before ∧ Blank after ∧
    line = before ++ (render pythonWriter (.obj fields) ++ after)

end

/-! ## Replies -/

theorem mapM_some_iff {α β : Type} {f : α → Option β} {l : List α} :
    (∃ bs, l.mapM f = some bs) ↔ ∀ a ∈ l, ∃ b, f a = some b := by
  induction l with
  | nil => simp
  | cons a l ih =>
      simp only [List.mapM_cons, List.forall_mem_cons, ← ih]
      cases f a <;> cases l.mapM f <;> simp

section
variable (L : Stdlib) (describe : BundleError → Text)

variable (codec : Bytes → Option (List Char))

/-- The loop reads the request, sends an object with its id, prints nothing but
padding before it and can read on. -/
def Answered (r : ℕ × Input) : Prop :=
  Reached r ∧ Blank (turn L describe codec r.1 r.2).printed ∧
    (turn L describe codec r.1 r.2).inputClosed = false ∧ ∃ fields,
      (turn L describe codec r.1 r.2).sent = some (.obj fields) ∧
        fields.lookup (lit "id") = some (.int r.2.request.id)

theorem renderFields_last (fs : List (Text × PyJson)) :
    ∃ body, renderFields pythonWriter fs = body ++ ['}'] := by
  induction fs with
  | nil => exact ⟨[], rfl⟩
  | cons f fs ih =>
      obtain ⟨k, v⟩ := f
      obtain ⟨body, hb⟩ := ih
      rw [renderFields, hb]
      simp only [← List.append_assoc, ← List.cons_append]
      exact ⟨_, rfl⟩

theorem render_obj_last (fs : List (Text × PyJson)) :
    ∃ body, render pythonWriter (.obj fs) = body ++ ['}'] := by
  cases fs with
  | nil => exact ⟨['{'], rfl⟩
  | cons f fs =>
      obtain ⟨k, v⟩ := f
      obtain ⟨body, hb⟩ := renderFields_last fs
      rw [render, hb]
      simp only [← List.append_assoc, ← List.cons_append]
      exact ⟨_, rfl⟩

end

/-! ## What the launcher sends is heard -/

theorem requestJson_readable {r : Request} (hm : Scalar r.method)
    (hp : r.params.Readable rustReader Scalar) : (requestJson r).Readable pythonReader Scalar := by
  refine ⟨?_, ?_, .inl rfl⟩
  · simp only [requestJson, Json.strings, Json.fieldStrings, List.forall_mem_cons,
      List.forall_mem_append, List.not_mem_nil, false_implies, implies_true, and_true, true_and]
    exact ⟨lit_scalar _, lit_scalar _, hm, lit_scalar _, hp.strings⟩
  · exact ⟨by simp, trivial, trivial, hp.keys, trivial⟩

/-- With a UTF-8 standard input the loop hears exactly what was sent. -/
theorem heard_utf8 {r : Request} (hm : Scalar r.method)
    (hp : r.params.Readable rustReader Scalar) :
    heard decodeUtf8 r = some (some (requestJson r)) := by
  have hv := requestJson_readable hm hp
  rw [heard, requestBytes, decodeUtf8_encodeUtf8, Option.map_some, requestLine,
    parse_line rust_python.converts hv.supported, convert_some _ hv.keys]

/-! ## The exact condition -/

section
variable (L : Stdlib) (describe : BundleError → Text) (codec : Bytes → Option (List Char))

end

end Xlpod.WorkerFraming
