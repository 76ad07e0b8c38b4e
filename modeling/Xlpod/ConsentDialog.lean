import Xlpod.WideStrings
import Xlpod.Routes

/-!
# What the consent dialog shows of a trust window

The dialog's text is built from the request, the user reads it up to its first
NUL, and the store opens the window from the raw list. Without a NUL the text
carries the whole origin: every listed tool and the requested number of
seconds, which the store only shortens. A NUL in a tool name cuts the text off
inside the list, and what is still shown is what the names before it spell.
-/
namespace Xlpod.ConsentDialog
open Xlpod.JsonText Xlpod.Substring Xlpod.WideStrings Xlpod.Auth Xlpod.AiTypes
open Xlpod.SessionStores Xlpod.ServerState Xlpod.Programs Xlpod.Routes Xlpod.ServerCalls

/-! ## The dialog -/

def scopeLabel : Scope → String
  | .fsRead => "fs:read"
  | .fsWrite => "fs:write"
  | .runPython => "run:python"
  | .excelCom => "excel:com"
  | .aiProviderCall => "ai:provider:call"
  | .aiCodegenWrite => "ai:codegen:write"
  | .aiExecPython => "ai:exec:python"
  | .bundleRead => "bundle:read"
  | .bundleWrite => "bundle:write"

def rootsText (roots : List PathBuf) : String :=
  if roots.isEmpty then "(none)" else String.intercalate "\n  " (roots.map PathBuf.text)

def beforeOrigin : String :=
  "Allow this website to talk to xlpod on your machine?\n\nOrigin:\n  "

def afterOrigin (req : ConsentRequest) : String :=
  "\n\nScopes:\n  " ++ String.intercalate ", " (req.scopes.map scopeLabel) ++
    "\n\nFilesystem roots:\n  " ++ rootsText req.fsRoots ++
    "\n\nClick Yes only if you initiated this action."

/-- `body` of `show_dialog`. -/
def dialogBody (req : ConsentRequest) : String := beforeOrigin ++ req.origin ++ afterOrigin req

/-- The units `MessageBoxW` displays. -/
def displayed (req : ConsentRequest) : List UInt16 :=
  untilNul (encodeUtf16 (dialogBody req).toList ++ [0])

def Shows (req : ConsentRequest) (word : String) : Prop :=
  encodeUtf16 word.toList <:+: displayed req

/-! ## The window a Yes opens -/

/-- The dialog names every built-in tool the window covers while it is open, and
a duration the window does not outlive. -/
structure Tells (req : ConsentRequest) (opened : ℕ) (window : TrustWindow) : Prop where
  tools : ∀ tool ∈ builtinTools, ∀ later, opened ≤ later →
    window.covers later tool.name = true → Shows req tool.name
  duration : ∃ secs : ℕ, window.expiresMs ≤ nowMs opened + secs * 1000 ∧
    Shows req (toString secs ++ "s")

/-- The last request the user said Yes to. -/
def approvedBy (approved : Option ConsentRequest) : (op : Op) → op.Reply → Option ConsentRequest
  | .consent req, true => some req
  | _, _ => approved

/-- A window is opened after a Yes, and the dialog told what the store opens. -/
def dialog : Contract api (Option ConsentRequest) where
  pre approved
    | .openWindow sessionId tools durationSecs => ∃ req, approved = some req ∧
        ∀ id now, Tells req now (newWindow id now sessionId tools durationSecs)
    | _ => True
  fact _ _ _ := True
  next := approvedBy

/-- In every execution of the request, a window that a Yes opens was told. -/
def DialogTells (parseUuid : String → Option Uuid) (body : OpenTrustWindowRequest) : Prop :=
  Meets dialog (aiOpenTrustWindow parseUuid body).run none fun _ _ => True

/-- What the tool names spell up to the first NUL. -/
def spelled (tools : List String) : List Char := beforeNul (String.intercalate "," tools).toList

def NulFree (tools : List String) : Prop := ∀ tool ∈ tools, Char.ofNat 0 ∉ tool.toList

/-- The names before the first NUL spell the covered built-in tools and a
sufficient duration themselves. -/
structure Spelled (body : OpenTrustWindowRequest) : Prop where
  tools : 0 < body.durationSecs → ∀ tool ∈ builtinTools, tool.name ∈ body.tools →
    tool.name.toList <:+: spelled body.tools
  duration : ∃ secs : ℕ, min body.durationSecs maxDurationSecs ≤ secs ∧
    (toString secs ++ "s").toList <:+: spelled body.tools

/-! ## Cutting at a NUL -/

theorem beforeNul_append {a b : List Char} (h : Char.ofNat 0 ∉ a) :
    beforeNul (a ++ b) = a ++ beforeNul b := by
  apply List.takeWhile_append_of_pos
  intro c hc
  simp only [bne_iff_ne, ne_eq]
  intro hzero
  exact h (hzero ▸ hc)

theorem beforeNul_self {a : List Char} (h : Char.ofNat 0 ∉ a) : beforeNul a = a := by
  have hcut := beforeNul_append (b := []) h
  rw [List.append_nil] at hcut
  rw [hcut]
  exact List.append_nil a

theorem beforeNul_cut {a b : List Char} (h : Char.ofNat 0 ∈ a) :
    beforeNul (a ++ b) = beforeNul a := by
  induction a with
  | nil => cases h
  | cons c a ih =>
      by_cases hc : c = Char.ofNat 0
      · simp [beforeNul, hc]
      · have htail := ih ((List.mem_cons.mp h).resolve_left (Ne.symm hc))
        unfold beforeNul at htail ⊢
        rw [List.cons_append, List.takeWhile_cons_of_pos (by simpa using hc),
          List.takeWhile_cons_of_pos (by simpa using hc), htail]

theorem intercalate_pair (tool next : String) (tools : List String) :
    (String.intercalate "," (tool :: next :: tools)).toList =
      tool.toList ++ ',' :: (String.intercalate "," (next :: tools)).toList := by
  rw [String.intercalate_cons_cons, String.toList_append, String.toList_append, List.append_assoc]
  rfl

theorem mem_intercalate {c : Char} (hc : c ≠ ',') (tools : List String) :
    c ∈ (String.intercalate "," tools).toList ↔ ∃ tool ∈ tools, c ∈ tool.toList := by
  induction tools with
  | nil => simp
  | cons tool tools ih =>
      cases tools with
      | nil => simp
      | cons next tools =>
          rw [intercalate_pair, List.mem_append, List.mem_cons, ih]
          simp [hc]

theorem infix_intercalate {tool : String} {tools : List String} (h : tool ∈ tools) :
    tool.toList <:+: (String.intercalate "," tools).toList := by
  induction tools with
  | nil => cases h
  | cons first tools ih =>
      cases tools with
      | nil =>
          rw [List.mem_singleton] at h
          subst h
          simp
      | cons next tools =>
          rw [intercalate_pair]
          rcases List.mem_cons.mp h with rfl | htail
          · exact (List.prefix_append _ _).isInfix
          · have hinner := (ih htail).trans (List.suffix_cons ',' _).isInfix
            exact hinner.trans (List.suffix_append _ _).isInfix

/-! ## The displayed text -/

def request (body : OpenTrustWindowRequest) : ConsentRequest where
  origin := trustOrigin body
  scopes := []
  fsRoots := []

/-- The text before the tool names, up to its last slash. -/
def heading : List Char := (beforeOrigin ++ "ai-trust:/").toList

def trailer (body : OpenTrustWindowRequest) : List Char :=
  ("?" ++ toString body.durationSecs ++ "s" ++ afterOrigin (request body)).toList

theorem dialogBody_text (body : OpenTrustWindowRequest) :
    (dialogBody (request body)).toList =
      heading ++ '/' :: ((String.intercalate "," body.tools).toList ++ trailer body) := by
  have hsplit : dialogBody (request body) = beforeOrigin ++ "ai-trust:/" ++ "/" ++
      String.intercalate "," body.tools ++
        ("?" ++ toString body.durationSecs ++ "s" ++ afterOrigin (request body)) := by
    have hscheme : "ai-trust://" = "ai-trust:/" ++ "/" := by decide
    simp only [dialogBody, request, trustOrigin, hscheme, String.append_assoc]
  rw [hsplit]
  simp only [String.toList_append, heading, trailer, List.append_assoc]
  rfl

theorem displayed_eq (body : OpenTrustWindowRequest) :
    displayed (request body) = encodeUtf16 (beforeNul (dialogBody (request body)).toList) :=
  untilNul_encode _

theorem heading_noNul : Char.ofNat 0 ∉ heading := by decide +kernel

theorem isDigit_toString {n : ℕ} {c : Char} (h : c ∈ (toString n).toList) :
    c.isDigit = true := by
  rw [Nat.toString_eq_repr, Nat.toList_repr] at h
  exact toDigits_isDigit h

theorem digits_noNul (n : ℕ) : Char.ofNat 0 ∉ (toString n).toList := by
  intro h
  exact absurd (isDigit_toString h) (by decide)

theorem trailer_noNul (body : OpenTrustWindowRequest) : Char.ofNat 0 ∉ trailer body := by
  have hconst : afterOrigin (request body) = afterOrigin ⟨"", [], []⟩ := rfl
  have hafter : Char.ofNat 0 ∉ (afterOrigin (request body)).toList := by
    rw [hconst]
    decide +kernel
  simp only [trailer, String.toList_append, List.mem_append, not_or]
  exact ⟨⟨⟨by decide, digits_noNul _⟩, by decide⟩, hafter⟩

/-- Without a NUL the whole text is displayed. -/
theorem displayed_nulFree {body : OpenTrustWindowRequest} (h : NulFree body.tools) :
    displayed (request body) = encodeUtf16 (dialogBody (request body)).toList := by
  have hjoined : Char.ofNat 0 ∉ (String.intercalate "," body.tools).toList := by
    rw [mem_intercalate (by decide)]
    intro ⟨tool, htool, hmem⟩
    exact h tool htool hmem
  rw [displayed_eq, beforeNul_self]
  rw [dialogBody_text]
  simp only [List.mem_append, List.mem_cons, not_or]
  exact ⟨heading_noNul, by decide, hjoined, trailer_noNul body⟩

/-- A NUL in a tool name hides everything behind it. -/
theorem displayed_cut {body : OpenTrustWindowRequest} (h : ¬ NulFree body.tools) :
    displayed (request body) = encodeUtf16 (heading ++ '/' :: spelled body.tools) := by
  have hjoined : Char.ofNat 0 ∈ (String.intercalate "," body.tools).toList := by
    rw [mem_intercalate (by decide)]
    simpa [NulFree] using h
  have hslash : heading ++ '/' :: ((String.intercalate "," body.tools).toList ++ trailer body) =
      (heading ++ ['/']) ++ ((String.intercalate "," body.tools).toList ++ trailer body) := by
    simp
  have hno : Char.ofNat 0 ∉ heading ++ ['/'] := by
    simp only [List.mem_append, List.mem_singleton, not_or]
    exact ⟨heading_noNul, by decide⟩
  rw [displayed_eq, dialogBody_text, hslash, beforeNul_append hno, beforeNul_cut hjoined, spelled]
  simp

/-! ## Words in the text -/

/-- An ASCII word without a slash that contains an underscore. -/
def plainName (name : String) : Bool :=
  name.toList.all (fun c => decide (c.toNat < 128) && c != '/') && name.toList.contains '_'

theorem names_plain : builtinTools.all (fun tool => plainName tool.name) = true := by decide

theorem name_ascii {tool : ToolSpec} (h : tool ∈ builtinTools) :
    (∀ c ∈ tool.name.toList, IsAscii c) ∧ '_' ∈ tool.name.toList ∧ '/' ∉ tool.name.toList := by
  have hplain := List.all_eq_true.mp names_plain tool h
  simp only [plainName, Bool.and_eq_true, List.all_eq_true, decide_eq_true_eq, bne_iff_ne,
    List.contains_iff_mem] at hplain
  obtain ⟨hall, hmark⟩ := hplain
  refine ⟨fun c hc => (hall c hc).1, hmark, ?_⟩
  intro hslash
  exact (hall '/' hslash).2 rfl

theorem seconds_ascii (secs : ℕ) : ∀ c ∈ (toString secs ++ "s").toList, IsAscii c := by
  intro c hc
  rw [String.toList_append, List.mem_append] at hc
  cases hc with
  | inl hdigit =>
      have h := isDigit_toString hdigit
      unfold IsAscii
      simp only [Char.isDigit, Bool.and_eq_true, decide_eq_true_eq] at h
      have h57 : c.toNat ≤ 57 := h.2
      omega
  | inr hs =>
      have h : c = 's' := by simpa using hs
      subst h
      exact (by decide : 's'.toNat < 128)

theorem seconds_head (secs : ℕ) :
    ∃ c cs, (toString secs ++ "s").toList = c :: cs ∧ c.isDigit = true := by
  have hne : (toString secs).toList ≠ [] := by
    rw [Nat.toString_eq_repr, Nat.toList_repr]
    exact Nat.toDigits_ne_nil
  obtain ⟨c, cs, hcs⟩ := List.exists_cons_of_ne_nil hne
  refine ⟨c, cs ++ ['s'], by rw [String.toList_append, hcs]; rfl, ?_⟩
  exact isDigit_toString (by rw [hcs]; exact List.mem_cons_self)

theorem seconds_noSlash (secs : ℕ) : '/' ∉ (toString secs ++ "s").toList := by
  intro h
  rw [String.toList_append, List.mem_append] at h
  cases h with
  | inl hdigit => exact absurd (isDigit_toString hdigit) (by decide)
  | inr hs => simp at hs

theorem heading_plain : heading.all (fun c => c != '_' && !c.isDigit) = true := by decide +kernel

theorem heading_mem {c : Char} (h : c ∈ heading) : c ≠ '_' ∧ c.isDigit = false := by
  have hplain := List.all_eq_true.mp heading_plain c h
  simpa using hplain

/-- A tool name occurs behind the heading or not at all. -/
theorem name_infix {tool : ToolSpec} (h : tool ∈ builtinTools) (text : List Char) :
    tool.name.toList <:+: heading ++ '/' :: text ↔ tool.name.toList <:+: text := by
  obtain ⟨-, hmark, hslash⟩ := name_ascii h
  have hout : ¬ tool.name.toList <:+: heading := fun hin =>
    (heading_mem (hin.subset hmark)).1 rfl
  rw [infix_separated hslash (List.ne_nil_of_mem hmark), or_iff_right hout]

theorem seconds_infix (secs : ℕ) (text : List Char) :
    (toString secs ++ "s").toList <:+: heading ++ '/' :: text ↔
      (toString secs ++ "s").toList <:+: text := by
  obtain ⟨c, cs, hcs, hdigit⟩ := seconds_head secs
  have hmem : c ∈ (toString secs ++ "s").toList := by
    rw [hcs]
    exact List.mem_cons_self
  have hout : ¬ (toString secs ++ "s").toList <:+: heading := by
    intro hin
    have hplain := (heading_mem (hin.subset hmem)).2
    rw [hdigit] at hplain
    cases hplain
  rw [infix_separated (seconds_noSlash secs) (List.ne_nil_of_mem hmem), or_iff_right hout]

theorem shows_name {req : ConsentRequest} {text : List Char} (hd : displayed req = encodeUtf16 text)
    {tool : ToolSpec} (h : tool ∈ builtinTools) :
    Shows req tool.name ↔ tool.name.toList <:+: text := by
  obtain ⟨hascii, hmark, -⟩ := name_ascii h
  rw [Shows, hd, infix_encodeUtf16 hascii (List.ne_nil_of_mem hmark)]

theorem shows_seconds {req : ConsentRequest} {text : List Char}
    (hd : displayed req = encodeUtf16 text) (secs : ℕ) :
    Shows req (toString secs ++ "s") ↔ (toString secs ++ "s").toList <:+: text := by
  obtain ⟨c, cs, hcs, -⟩ := seconds_head secs
  rw [Shows, hd, infix_encodeUtf16 (seconds_ascii secs) (by rw [hcs]; exact List.cons_ne_nil c cs)]

/-! ## What a window needs to be told -/

theorem newWindow_covers {id sessionId : Uuid} {now durationSecs : ℕ} {tools : List String}
    {name : String} :
    (∃ later, now ≤ later ∧
      (newWindow id now sessionId tools durationSecs).covers later name = true) ↔
      0 < durationSecs ∧ name ∈ tools := by
  have hlive (later : ℕ) : (newWindow id now sessionId tools durationSecs).live later = true ↔
      nowMs later < nowMs now + min durationSecs 3600 * 1000 := decide_eq_true_iff
  have htools : (newWindow id now sessionId tools durationSecs).tools = tools := rfl
  simp only [TrustWindow.covers, Bool.and_eq_true, hlive, htools, List.contains_iff_mem]
  constructor
  · intro h
    obtain ⟨later, hlater, hearly, hmem⟩ := h
    have hmono : nowMs now ≤ nowMs later := Nat.div_le_div_right hlater
    refine ⟨?_, hmem⟩
    by_contra hzero
    have hd : durationSecs = 0 := by omega
    subst hd
    omega
  · intro h
    obtain ⟨hpos, hmem⟩ := h
    refine ⟨now, le_refl now, ?_, hmem⟩
    omega

/-- The two things the dialog has to tell, in terms of the request. -/
theorem tells_iff {req : ConsentRequest} {id sessionId : Uuid} {now durationSecs : ℕ}
    {tools : List String} : Tells req now (newWindow id now sessionId tools durationSecs) ↔
      (0 < durationSecs → ∀ tool ∈ builtinTools, tool.name ∈ tools → Shows req tool.name) ∧
        ∃ secs : ℕ, min durationSecs maxDurationSecs ≤ secs ∧ Shows req (toString secs ++ "s") := by
  have hlife (secs : ℕ) : (newWindow id now sessionId tools durationSecs).expiresMs ≤
      nowMs now + secs * 1000 ↔ min durationSecs maxDurationSecs ≤ secs := by
    simp only [newWindow]
    omega
  constructor
  · intro h
    constructor
    · intro hpos tool htool hmem
      obtain ⟨later, hlater, hcovers⟩ := newWindow_covers.mpr ⟨hpos, hmem⟩
      exact h.tools tool htool later hlater hcovers
    · obtain ⟨secs, hsecs, hshows⟩ := h.duration
      exact ⟨secs, (hlife secs).mp hsecs, hshows⟩
  · intro ⟨htools, secs, hsecs, hshows⟩
    constructor
    · intro tool htool later hlater hcovers
      obtain ⟨hpos, hmem⟩ := newWindow_covers.mp ⟨later, hlater, hcovers⟩
      exact htools hpos tool htool hmem
    · exact ⟨secs, (hlife secs).mpr hsecs, hshows⟩

/-- The condition on the request under which the dialog tells every window. -/
theorem tells_request_iff {body : OpenTrustWindowRequest} {id sessionId : Uuid} {now : ℕ} :
    Tells (request body) now (newWindow id now sessionId body.tools body.durationSecs) ↔
      NulFree body.tools ∨ Spelled body := by
  rw [tells_iff]
  by_cases hfree : NulFree body.tools
  · apply iff_of_true _ (.inl hfree)
    have hd := displayed_nulFree hfree
    have hbehind : (String.intercalate "," body.tools).toList <:+:
        (dialogBody (request body)).toList := by
      rw [dialogBody_text]
      refine ⟨heading ++ ['/'], trailer body, ?_⟩
      simp
    constructor
    · intro _ tool htool hmem
      rw [shows_name hd htool]
      exact (infix_intercalate hmem).trans hbehind
    · refine ⟨body.durationSecs, min_le_left _ _, ?_⟩
      rw [shows_seconds hd, dialogBody_text]
      have htrailer : (toString body.durationSecs ++ "s").toList <:+: trailer body := by
        simp only [trailer, String.toList_append]
        exact ⟨"?".toList, (afterOrigin (request body)).toList, by simp⟩
      have hrest := htrailer.trans (List.suffix_append
        (heading ++ '/' :: (String.intercalate "," body.tools).toList) (trailer body)).isInfix
      simpa using hrest
  · have hd := displayed_cut hfree
    rw [or_iff_right hfree]
    constructor
    · intro ⟨htools, secs, hsecs, hshows⟩
      constructor
      · intro hpos tool htool hmem
        have hshown := htools hpos tool htool hmem
        rw [shows_name hd htool, name_infix htool] at hshown
        exact hshown
      · rw [shows_seconds hd, seconds_infix] at hshows
        exact ⟨secs, hsecs, hshows⟩
    · intro h
      constructor
      · intro hpos tool htool hmem
        rw [shows_name hd htool, name_infix htool]
        exact h.tools hpos tool htool hmem
      · obtain ⟨secs, hsecs, hspelled⟩ := h.duration
        refine ⟨secs, hsecs, ?_⟩
        rw [shows_seconds hd, seconds_infix]
        exact hspelled

/-- The execution of a request for a known session id. -/
theorem dialogTells_known {parseUuid : String → Option Uuid} {body : OpenTrustWindowRequest}
    {id : Uuid} (hid : parseUuid body.sessionId = some id) :
    DialogTells parseUuid body ↔ NulFree body.tools ∨ Spelled body := by
  unfold DialogTells aiOpenTrustWindow
  simp only [↓meets_exceptBind, ↓meets_okOr, ↓meets_orThrow, ↓meets_lift, ↓meets_exceptIte,
    ↓meets_throw, ↓meets_exceptPure, hid, Option.some.injEq, Bool.not_eq_eq_eq_not, Bool.not_true,
    Bool.not_eq_false, Bool.forall_bool, Bool.false_eq_true, reduceCtorEq, onResult_ok,
    onResult_error, meets_call, meets_done, implies_true, IsEmpty.forall_iff, forall_const,
    ExceptT.stM_eq, forall_eq', and_true, true_and]
  constructor
  · intro h
    have hopen := h.2 (.ok (newSession id 0 "" "" "" [] [])) trivial
    obtain ⟨req, hreq, htells⟩ := hopen.2 trivial
    cases hreq
    exact tells_request_iff.mp (htells id 0)
  · intro h
    refine ⟨trivial, fun found _ => ?_⟩
    cases found with
    | error e => trivial
    | ok session =>
        refine ⟨trivial, fun _ => ⟨request body, rfl, fun window now => ?_⟩⟩
        exact tells_request_iff.mpr h

/-- For every request, the dialog tells what its window grants exactly when no
tool name contains a NUL, or the names before the first NUL spell it. -/
theorem dialogTells_iff (parseUuid : String → Option Uuid) (body : OpenTrustWindowRequest) :
    DialogTells parseUuid body ↔
      parseUuid body.sessionId = none ∨ NulFree body.tools ∨ Spelled body := by
  cases hid : parseUuid body.sessionId with
  | none =>
      apply iff_of_true _ (.inl rfl)
      unfold DialogTells aiOpenTrustWindow
      simp [hid]
  | some id => rw [dialogTells_known hid, or_iff_right (Option.some_ne_none id)]

/-! ## A name that ends the dialog -/

def nulRequest : OpenTrustWindowRequest where
  sessionId := ""
  tools := [String.ofList [Char.ofNat 0], "run_python"]
  durationSecs := 3600

theorem nulRequest_cut : spelled nulRequest.tools = [] := by decide

/-- The user approves a dialog that ends after the scheme, and Python snippets
run unasked for an hour. -/
theorem not_dialogTells_nul : ¬ DialogTells (fun _ => some 0) nulRequest ∧
    (newWindow 0 0 0 nulRequest.tools nulRequest.durationSecs).covers 0 "run_python" = true ∧
    displayed (request nulRequest) =
      encodeUtf16 (beforeOrigin ++ "ai-trust://").toList := by
  have hnul : ¬ NulFree nulRequest.tools := by
    intro h
    exact h _ List.mem_cons_self (by decide)
  refine ⟨?_, by decide, ?_⟩
  · rw [dialogTells_known rfl, or_iff_right hnul]
    intro h
    have hname := h.tools (by decide) _ (List.getLast_mem (by decide)) (by decide)
    rw [nulRequest_cut, List.infix_nil] at hname
    exact absurd hname (by decide)
  · rw [displayed_cut hnul, nulRequest_cut, heading]
    congr 1

end Xlpod.ConsentDialog
