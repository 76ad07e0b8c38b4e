import Xlpod.Library.JsonContent
import Xlpod.WorkerFraming
import Xlpod.WorkerPipe

/-!
# Requests that arrive as they were sent

The launcher writes a request as UTF-8; Python decodes its standard input as the
platform has it, as UTF-8 or by an ANSI code page. Such a page leaves ASCII
alone, and one that has a character for each byte makes two or more of any other
character. So what every platform hears as it was sent is ASCII.

The loop takes `{}` for parameters that Python finds false.
-/
namespace Xlpod.RequestArrival
open Xlpod.JsonText Xlpod.ByteEncodings Xlpod.BundlePayload Xlpod.WorkerLoop Xlpod.WorkerFraming
open Xlpod.WorkerPipe (Value)
open Xlpod.BundleArchive (plainStdlib)

/-! ## How standard input is decoded -/

/-- An ANSI code page: it leaves ASCII alone. -/
structure CodePage where
  decode : Bytes → Option (List Char)
  ascii : ∀ bytes, (∀ b ∈ bytes, b.toNat < 128) → decode bytes = some (bytes.map asciiChar)

/-- A page with one character for each byte it defines, none of the upper half
in ASCII. -/
structure SingleByte where
  char : UInt8 → Option Char
  low : ∀ b, b.toNat < 128 → char b = some (asciiChar b)
  high : ∀ b c, 128 ≤ b.toNat → char b = some c → 128 ≤ c.toNat

def SingleByte.decode (t : SingleByte) (bytes : Bytes) : Option (List Char) := bytes.mapM t.char

theorem SingleByte.decode_ascii (t : SingleByte) (bytes : Bytes)
    (h : ∀ b ∈ bytes, b.toNat < 128) : t.decode bytes = some (bytes.map asciiChar) := by
  rw [decode]
  induction bytes with
  | nil => rfl
  | cons b bytes ih =>
      obtain ⟨hb, hbytes⟩ := List.forall_mem_cons.mp h
      rw [List.mapM_cons, t.low b hb, ih hbytes]
      rfl

def SingleByte.page (t : SingleByte) : CodePage := ⟨t.decode, t.decode_ascii⟩

/-- Text-mode standard input on a platform. -/
inductive Stdin
  | utf8
  | ansi (page : CodePage)

def Stdin.codec : Stdin → Bytes → Option (List Char)
  | .utf8 => decodeUtf8
  | .ansi page => page.decode

/-- The bytes 80 to 9F of Windows-1252. -/
def windows1252Controls : List (Option ℕ) :=
  [some 0x20AC, none, some 0x201A, some 0x0192, some 0x201E, some 0x2026, some 0x2020, some 0x2021,
    some 0x02C6, some 0x2030, some 0x0160, some 0x2039, some 0x0152, none, some 0x017D, none,
    none, some 0x2018, some 0x2019, some 0x201C, some 0x201D, some 0x2022, some 0x2013, some 0x2014,
    some 0x02DC, some 0x2122, some 0x0161, some 0x203A, some 0x0153, none, some 0x017E, some 0x0178]

def windows1252Char (b : UInt8) : Option Char :=
  if 128 ≤ b.toNat ∧ b.toNat < 160 then
    (windows1252Controls.getD (b.toNat - 128) none).map Char.ofNat
  else some (asciiChar b)

/-- The code page of a Western Windows. -/
def windows1252 : SingleByte where
  char := windows1252Char
  low b hb := if_neg fun h => Nat.not_lt_of_le h.1 hb
  high b c hb hc := by
    have hall : ∀ n < 256, 128 ≤ n → (windows1252Char (UInt8.ofNat n)).all
        (fun c => decide (128 ≤ c.toNat)) = true := by decide +kernel
    have h := hall b.toNat b.toNat_lt hb
    rw [UInt8.ofNat_toNat, hc] at h
    exact of_decide_eq_true h

/-! ## What the loop dispatches on -/

section
variable (L : Stdlib)

/-- The parameters the loop dispatches on are the ones of the request. -/
def Arrives (stdin : Stdin) (r : Request) : Prop :=
  ∃ fields, heard stdin.codec r = some (some (.obj fields)) ∧
    (Message.of L fields).params = r.params

/-- True for Python, or the empty object. -/
def Kept (params : PyJson) : Prop := truthy L params = true ∨ params = .obj []

theorem kept_iff (params : PyJson) : Kept L params ↔ orElse L params (.obj []) = params := by
  rw [Kept, orElse]
  cases htruthy : truthy L params with
  | true => simp
  | false => simp [eq_comm]

end

def AsciiText (s : Text) : Prop := ∀ c ∈ s, c.val < 128

theorem asciiText_lit {s : String} :
    AsciiText (lit s) ↔ s.toList.all (fun c => decide (c.toNat < 128)) = true := by
  simp only [AsciiText, lit, List.forall_mem_map, codePoint_char_val, List.all_eq_true,
    decide_eq_true_eq]

def AsciiJson (v : PyJson) : Prop := ∀ s ∈ v.strings, AsciiText s

/-- What the launcher passes to a call. -/
def requestOf (id : ℕ) (method : String) (params : Value) : Request :=
  ⟨id, lit method, params.json⟩

section
variable {L : Stdlib} {id : ℕ} {method : String} {params : Value}

theorem of_params (id : ℕ) (m v : PyJson) :
    (Message.of L [(lit "id", .int id), (lit "method", m), (lit "params", v)]).params =
      orElse L v (.obj []) := by
  have hid : (lit "params" == lit "id") = false := by decide
  have hmethod : (lit "params" == lit "method") = false := by decide
  have hlookup : [(lit "id", (.int id : PyJson)), (lit "method", m), (lit "params", v)].lookup
      (lit "params") = some v := by
    rw [List.lookup_cons, hid, List.lookup_cons, hmethod, List.lookup_cons_self]
  exact congrArg (fun found : Option PyJson => orElse L (found.getD .null) (.obj [])) hlookup

/-- Where the request is heard with some parameters. -/
theorem arrives_of_heard (stdin : Stdin) {m v : PyJson}
    (h : heard stdin.codec (requestOf id method params) =
      some (some (.obj [(lit "id", .int id), (lit "method", m), (lit "params", v)]))) :
    Arrives L stdin (requestOf id method params) ↔ orElse L v (.obj []) = params.json := by
  rw [Arrives, h]
  constructor
  · rintro ⟨fields, hfields, hparams⟩
    cases hfields
    rwa [of_params] at hparams
  · intro hparams
    exact ⟨_, rfl, (of_params id m v).trans hparams⟩

theorem arrives_utf8 : Arrives L .utf8 (requestOf id method params) ↔ Kept L params.json := by
  have hheard := heard_utf8 (r := requestOf id method params) (lit_scalar method) params.readable
  rw [kept_iff]
  exact arrives_of_heard .utf8 hheard

end

/-! ## ASCII requests -/

section
variable {L : Stdlib} {id : ℕ} {method : String} {params : Value}

theorem isBare_ascii {c : Char} (h : isBare c = true) : c.toNat < 128 := by
  have hbound (top : Char) (hle : c.val ≤ top.val) (htop : top.toNat < 128) : c.toNat < 128 :=
    Nat.lt_of_le_of_lt (UInt32.le_iff_toNat_le.mp hle) htop
  simp only [isBare, Bool.or_eq_true, beq_iff_eq] at h
  rcases h with (((hc | rfl) | rfl) | rfl)
  · rcases Bool.or_eq_true_iff.mp hc with hletter | hdigit
    · rcases Bool.or_eq_true_iff.mp hletter with hupper | hlower
      · exact hbound 'Z' (of_decide_eq_true hupper).2 (by decide)
      · exact hbound 'z' (of_decide_eq_true (Bool.and_eq_true_iff.mp hlower).2) (by decide)
    · exact hbound '9' (of_decide_eq_true (Bool.and_eq_true_iff.mp hdigit).2) (by decide)
  · decide
  · decide
  · decide

theorem outside_ascii : Outside rustWriter fun c => c.toNat < 128 where
  bare _ := isBare_ascii
  marks := by simp
  gap := by simp [rustWriter]

/-- A character that only a literal can supply. -/
theorem foreign_of_high {z : Char} (h : 128 ≤ z.toNat) : Foreign rustWriter [] z := by
  have hne {c : Char} (hc : c.toNat < 128) : z ≠ c := by
    rintro rfl
    omega
  refine ⟨⟨?_, hne (by decide), hne (by decide)⟩, fun c hc hz => ?_, by simp [rustWriter]⟩
  · rw [Bool.eq_false_iff]
    exact fun hbare => Nat.not_lt_of_le h (isBare_ascii hbare)
  · have hlow : ∀ c ∈ ['"', ',', ':', '[', '{'], c.toNat < 128 := by simp
    exact hne (hlow c hc) (List.mem_singleton.mp hz).symm

theorem rustEscape_low {c : CodePoint} (h : c.val < 128) : ∀ d ∈ rustEscape c, d.toNat < 128 := by
  have hall : ∀ n < 128, (rustEscape (codePoint n)).all
      (fun d => decide (d.toNat < 128)) = true := by decide +kernel
  have hc := hall c.val h
  rw [codePoint_self, List.all_eq_true] at hc
  exact fun d hd => of_decide_eq_true (hc d hd)

theorem rustEscape_high {c : CodePoint} (h : 128 ≤ c.val) :
    rustEscape c = [Char.ofNat c.val] := by
  rw [rustEscape]
  repeat' rw [if_neg (by omega)]

end

theorem char_high {c : CodePoint} (hc : isHigh c = false ∧ isLow c = false)
    (h : ¬ c.val < 128) : 128 ≤ (Char.ofNat c.val).toNat := by
  rw [char_of_scalar hc]
  omega

theorem utf8_low {c : Char} (h : c.toNat < 128) :
    ∃ b : UInt8, b.toNat < 128 ∧ String.utf8EncodeChar c = [b] ∧ asciiChar b = c := by
  have hb : (UInt8.ofNat c.toNat).toNat = c.toNat := by
    rw [UInt8.toNat_ofNat', Nat.mod_eq_of_lt (by omega)]
  have hc : asciiChar (UInt8.ofNat c.toNat) = c := by
    rw [asciiChar, hb, Char.ofNat_toNat]
  refine ⟨UInt8.ofNat c.toNat, by omega, ?_, hc⟩
  rw [← utf8EncodeChar_ascii (by omega), hc]

theorem utf8_high {c : Char} (h : 128 ≤ c.toNat) :
    2 ≤ (String.utf8EncodeChar c).length ∧ ∀ b ∈ String.utf8EncodeChar c, 128 ≤ b.toNat := by
  have hval : c.toNat = c.val.toNat := rfl
  constructor
  · have hone : c.utf8Size ≠ 1 := fun hone => by
      have hle := UInt32.le_iff_toNat_le.mp (Char.utf8Size_eq_one_iff.mp hone)
      exact absurd (Nat.lt_of_lt_of_le h hle) (by decide)
    have hpos := c.utf8Size_pos
    rw [String.length_utf8EncodeChar]
    omega
  · intro b hb
    by_contra hlow
    have hc := utf8EncodeChar_low (by omega) hb
    rw [hc, asciiChar_toNat] at h
    exact hlow h

/-! ## Reading UTF-8 byte by byte -/

/-- Raw characters of the upper half. -/
theorem scan_high {cs : List Char} (h : ∀ d ∈ cs, 128 ≤ d.toNat) (rest : List Char) :
    scan (cs ++ rest) =
      (scan rest).map fun r => (cs.map (fun d => codePoint d.toNat) ++ r.1, r.2) := by
  induction cs with
  | nil => simp
  | cons c cs ih =>
      obtain ⟨hc, hcs⟩ := List.forall_mem_cons.mp h
      have hne {d : Char} (hd : d.toNat < 128) : c ≠ d := by
        rintro rfl
        omega
      rw [List.cons_append, scan_raw (by omega) (hne (by decide)) (hne (by decide)), ih hcs,
        Option.map_map]
      rfl

theorem joinSurrogates_scalar {us : List CodePoint} (h : Scalar us) : joinSurrogates us = us := by
  induction us with
  | nil => rfl
  | cons u us ih =>
      obtain ⟨hu, hus⟩ := List.forall_mem_cons.mp h
      rw [joinSurrogates_cons hu.1, ih hus]

theorem mapM_filterMap {α β : Type} {f : α → Option β} {l : List α}
    (h : ∀ a ∈ l, (f a).isSome = true) : l.mapM f = some (l.filterMap f) := by
  induction l with
  | nil => rfl
  | cons a l ih =>
      obtain ⟨ha, hl⟩ := List.forall_mem_cons.mp h
      obtain ⟨b, hb⟩ := Option.isSome_iff_exists.mp ha
      rw [List.mapM_cons, hb, ih hl, List.filterMap_cons_some hb]
      rfl

namespace SingleByte
variable (t : SingleByte)

/-- The page has every byte of the character's UTF-8. -/
def ReadsChar (c : Char) : Prop := ∀ b ∈ String.utf8EncodeChar c, (t.char b).isSome = true

/-- The page has every byte of the text's UTF-8. -/
def Reads (s : Text) : Prop := ∀ c ∈ s, t.ReadsChar (Char.ofNat c.val)

/-- What the page makes of a character's UTF-8. -/
def shown (c : Char) : List Char := (String.utf8EncodeChar c).filterMap t.char

/-- The string that Python reads in a literal. -/
def heardAs (s : Text) : Text :=
  s.flatMap fun c =>
    if c.val < 128 then [c] else (t.shown (Char.ofNat c.val)).map fun d => codePoint d.toNat

theorem decode_isSome {text : List Char} :
    (∃ cs, t.decode (encodeUtf8 text) = some cs) ↔ ∀ c ∈ text, t.ReadsChar c := by
  rw [decode, mapM_some_iff]
  simp only [encodeUtf8, List.forall_mem_flatMap, ReadsChar, Option.isSome_iff_exists]

theorem decode_encode {text : List Char} (h : ∀ c ∈ text, t.ReadsChar c) :
    t.decode (encodeUtf8 text) = some (text.flatMap t.shown) := by
  have hbytes : ∀ b ∈ encodeUtf8 text, (t.char b).isSome = true := by
    simpa only [encodeUtf8, List.forall_mem_flatMap, ReadsChar] using h
  rw [decode, mapM_filterMap hbytes, encodeUtf8, List.filterMap_flatMap]
  rfl

theorem readsChar_low {c : Char} (h : c.toNat < 128) : t.ReadsChar c := by
  obtain ⟨b, hb, hbytes, hchar⟩ := utf8_low h
  rw [ReadsChar, hbytes, List.forall_mem_singleton, t.low b hb]
  rfl

theorem shown_low {c : Char} (h : c.toNat < 128) : t.shown c = [c] := by
  obtain ⟨b, hb, hbytes, hchar⟩ := utf8_low h
  rw [shown, hbytes, List.filterMap_cons_some (t.low b hb), List.filterMap_nil, hchar]

/-- A character that the page reads and that is not ASCII becomes several. -/
theorem shown_high {c : Char} (h : 128 ≤ c.toNat) :
    (∀ d ∈ t.shown c, 128 ≤ d.toNat) ∧ (t.ReadsChar c → 2 ≤ (t.shown c).length) := by
  obtain ⟨hlength, hhigh⟩ := utf8_high h
  constructor
  · intro d hd
    obtain ⟨b, hb, hchar⟩ := List.mem_filterMap.mp hd
    exact t.high b d (hhigh b hb) hchar
  · intro hreads
    rwa [shown, List.length_filterMap_eq_countP, List.countP_eq_length.mpr hreads]

theorem heardAs_low {c : CodePoint} (h : c.val < 128) (s : Text) :
    t.heardAs (c :: s) = c :: t.heardAs s := by
  rw [heardAs, List.flatMap_cons, if_pos h]
  rfl

theorem heardAs_high {c : CodePoint} (h : ¬ c.val < 128) (s : Text) :
    t.heardAs (c :: s) =
      (t.shown (Char.ofNat c.val)).map (fun d => codePoint d.toNat) ++ t.heardAs s := by
  rw [heardAs, List.flatMap_cons, if_neg h]
  rfl

theorem heardAs_scalar {s : Text} (h : Scalar s) : Scalar (t.heardAs s) := by
  induction s with
  | nil => exact h
  | cons c s ih =>
      obtain ⟨hc, hs⟩ := List.forall_mem_cons.mp h
      by_cases hlow : c.val < 128
      · rw [heardAs_low t hlow]
        exact List.forall_mem_cons.mpr ⟨hc, ih hs⟩
      · rw [heardAs_high t hlow]
        refine List.forall_mem_append.mpr ⟨fun d hd => ?_, ih hs⟩
        obtain ⟨e, -, rfl⟩ := List.mem_map.mp hd
        exact char_scalar e

/-- Python reads the literal as the page shows it. -/
theorem scan_heardAs {s : Text} (h : Scalar s) (rest : List Char) :
    scan ((rustWriter.mapped t.shown).literal s ++ '"' :: rest) = some (t.heardAs s, rest) := by
  change scan ((s.flatMap rustEscape).flatMap t.shown ++ '"' :: rest) = _
  induction s with
  | nil => rfl
  | cons c s ih =>
      obtain ⟨hc, hs⟩ := List.forall_mem_cons.mp h
      rw [List.flatMap_cons, List.flatMap_append, List.append_assoc]
      by_cases hlow : c.val < 128
      · have hself : (rustEscape c).flatMap t.shown = rustEscape c :=
          flatMap_fixed fun d hd => t.shown_low (rustEscape_low hlow d hd)
        rw [hself, scan_rustEscape hc, ih hs, heardAs_low t hlow]
        rfl
      · have hhigh := char_high hc hlow
        rw [rustEscape_high (by omega), List.flatMap_singleton, scan_high (t.shown_high hhigh).1,
          ih hs, heardAs_high t hlow]
        rfl

theorem converts :
    Converts (rustWriter.mapped t.shown) pythonReader Scalar fun s => some (t.heardAs s) where
  gap_space := rust_python.gap_space
  unquote_literal s hs rest := by
    rw [pythonReader_unquote, scan_heardAs t hs, Option.bind_some,
      joinSurrogates_scalar (heardAs_scalar t hs)]

theorem length_le_heardAs {s : Text} (hs : Scalar s) (hreads : t.Reads s) :
    s.length ≤ (t.heardAs s).length := by
  induction s with
  | nil => exact Nat.zero_le _
  | cons c s ih =>
      obtain ⟨hc, hs⟩ := List.forall_mem_cons.mp hs
      obtain ⟨hchar, hreads⟩ := List.forall_mem_cons.mp hreads
      have hlength := ih hs hreads
      by_cases hlow : c.val < 128
      · rw [heardAs_low t hlow, List.length_cons, List.length_cons]
        omega
      · have hhigh := char_high hc hlow
        have hshown := (t.shown_high hhigh).2 hchar
        rw [heardAs_high t hlow, List.length_append, List.length_map, List.length_cons]
        omega

/-- The strings that survive the page are the ASCII ones. -/
theorem heardAs_eq {s : Text} (hs : Scalar s) (hreads : t.Reads s) :
    t.heardAs s = s ↔ AsciiText s := by
  induction s with
  | nil => simp [heardAs, AsciiText]
  | cons c s ih =>
      obtain ⟨hc, hs⟩ := List.forall_mem_cons.mp hs
      obtain ⟨hchar, hreads⟩ := List.forall_mem_cons.mp hreads
      have hlength := t.length_le_heardAs hs hreads
      rw [AsciiText, List.forall_mem_cons, ← AsciiText, ← ih hs hreads]
      by_cases hlow : c.val < 128
      · rw [heardAs_low t hlow, List.cons_inj_right, and_iff_right hlow]
      · have hhigh := char_high hc hlow
        have hshown := (t.shown_high hhigh).2 hchar
        refine iff_of_false (fun heq => ?_) fun h => hlow h.1
        have hlen := congrArg List.length heq
        rw [heardAs_high t hlow, List.length_append, List.length_map, List.length_cons] at hlen
        omega

theorem reads_literal {s : Text} (hs : Scalar s) :
    (∀ d ∈ rustWriter.literal s, t.ReadsChar d) ↔ t.Reads s := by
  change (∀ d ∈ s.flatMap rustEscape, t.ReadsChar d) ↔ _
  rw [List.forall_mem_flatMap, Reads]
  refine forall₂_congr fun c hc => ?_
  by_cases hlow : c.val < 128
  · have hself := char_of_scalar (hs c hc)
    exact iff_of_true (fun d hd => t.readsChar_low (rustEscape_low hlow d hd))
      (t.readsChar_low (by omega))
  · rw [rustEscape_high (by omega), List.forall_mem_singleton]

/-- The page has every byte of a document when it has those of its strings. -/
theorem reads_render {v : PyJson} (hv : ∀ s ∈ v.strings, Scalar s) :
    (∀ d ∈ render rustWriter v, t.ReadsChar d) ↔ ∀ s ∈ v.strings, t.Reads s := by
  constructor
  · intro h s hs
    rw [← t.reads_literal (hv s hs)]
    intro d hd
    by_cases hlow : d.toNat < 128
    · exact t.readsChar_low hlow
    · exact h d ((mem_render (foreign_of_high (by omega)) v).mpr ⟨s, hs, hd⟩)
  · intro h
    exact render_forall (outside_ascii.mono fun _ => t.readsChar_low) v
      fun s hs => (t.reads_literal (hv s hs)).mpr (h s hs)

theorem reads_requestLine {r : Request} (hr : ∀ s ∈ (requestJson r).strings, Scalar s) :
    (∀ d ∈ requestLine r, t.ReadsChar d) ↔ ∀ s ∈ (requestJson r).strings, t.Reads s := by
  rw [requestLine, List.forall_mem_append, List.forall_mem_singleton,
    and_iff_left (t.readsChar_low (by decide)), t.reads_render hr]

/-- Where the page has every byte, the loop parses the request with its strings
taken as the page shows them. -/
theorem heard_page {r : Request} (hr : (requestJson r).Readable pythonReader Scalar)
    (hreads : ∀ s ∈ (requestJson r).strings, t.Reads s) :
    heard t.page.decode r = some ((requestJson r).convert fun s => some (t.heardAs s)) := by
  have hline := t.decode_encode ((t.reads_requestLine hr.strings).mpr hreads)
  have hshown : Outside rustWriter fun d => t.shown d = [d] :=
    outside_ascii.mono fun _ => t.shown_low
  have hnewline : t.shown '\n' = ['\n'] := t.shown_low (by decide)
  change (t.decode (encodeUtf8 (requestLine r))).map (parse pythonReader) = _
  rw [hline, requestLine, List.flatMap_append, render_flatMap hshown, List.flatMap_singleton,
    hnewline, Option.map_some, parse_line t.converts hr.supported]

theorem convert_requestJson (r : Request) :
    (requestJson r).convert (fun s => some (t.heardAs s)) =
      (r.params.convert fun s => some (t.heardAs s)).map fun v =>
        .obj [(lit "id", .int r.id), (lit "method", .str (t.heardAs r.method)),
          (lit "params", v)] := by
  have hid : t.heardAs (lit "id") = lit "id" := rfl
  have hmethod : t.heardAs (lit "method") = lit "method" := rfl
  have hparams : t.heardAs (lit "params") = lit "params" := rfl
  cases hv : r.params.convert fun s => some (t.heardAs s) with
  | none => simp [requestJson, Json.convert, convertFields, hv]
  | some v =>
      have hkeys : ([(lit "id", .int r.id), (lit "method", .str (t.heardAs r.method)),
          (lit "params", v)].map Prod.fst : List Text).Nodup := by simp
      simp [requestJson, Json.convert, convertFields, hv, hid, hmethod, hparams, collect_eq hkeys]

theorem reads_ascii {s : Text} (hs : Scalar s) (h : AsciiText s) : t.Reads s := by
  intro c hc
  have hself := char_of_scalar (hs c hc)
  have hlow := h c hc
  exact t.readsChar_low (by omega)

end SingleByte

/-! ## Where requests arrive -/

section
variable {L : Stdlib} {id : ℕ} {method : String} {params : Value}

theorem readable_requestOf :
    (requestJson (requestOf id method params)).Readable pythonReader Scalar :=
  requestJson_readable (lit_scalar method) params.readable

theorem strings_requestOf (id : ℕ) (method : String) (params : Value) {P : Text → Prop}
    (hascii : ∀ s, Scalar s → AsciiText s → P s) :
    (∀ s ∈ (requestJson (requestOf id method params)).strings, P s) ↔
      P (lit method) ∧ ∀ s ∈ params.json.strings, P s := by
  have hid := hascii (lit "id") (lit_scalar _) (asciiText_lit.mpr (by decide))
  have hmethod := hascii (lit "method") (lit_scalar _) (asciiText_lit.mpr (by decide))
  have hparams := hascii (lit "params") (lit_scalar _) (asciiText_lit.mpr (by decide))
  simp only [requestOf, requestJson, Json.strings, Json.fieldStrings, List.forall_mem_cons,
    List.forall_mem_append, List.not_mem_nil, false_implies, implies_true, and_true, hid, hmethod,
    hparams, true_and]

/-- The request as it is heard through a page that has its bytes. -/
theorem heard_requestOf {t : SingleByte}
    (hreads : ∀ s ∈ (requestJson (requestOf id method params)).strings, t.Reads s) :
    heard t.page.decode (requestOf id method params) =
      some ((params.json.convert fun s => some (t.heardAs s)).map fun v =>
        .obj [(lit "id", .int id), (lit "method", .str (t.heardAs (lit method))),
          (lit "params", v)]) :=
  (t.heard_page readable_requestOf hreads).trans (congrArg some (t.convert_requestJson _))

theorem convert_self {t : SingleByte} (hreads : ∀ s ∈ params.json.strings, t.Reads s) :
    params.json.convert (fun s => some (t.heardAs s)) = some params.json ↔
      AsciiJson params.json := by
  rw [convert_eq_self params.json params.readable.keys]
  refine forall₂_congr fun s hs => ?_
  rw [Option.some.injEq, t.heardAs_eq (params.readable.strings s hs) (hreads s hs)]

/-- What the loop makes of parameters heard through a page is the parameters
sent exactly when these are ASCII and kept. -/
theorem orElse_heard (t : SingleByte) {v : PyJson}
    (hself : params.json.convert (fun s => some (t.heardAs s)) = some params.json ↔
      AsciiJson params.json)
    (hv : params.json.convert (fun s => some (t.heardAs s)) = some v) :
    orElse L v (.obj []) = params.json ↔ AsciiJson params.json ∧ Kept L params.json := by
  rw [kept_iff]
  constructor
  · intro h
    rw [orElse] at h
    split_ifs at h with htruthy
    · rw [h] at hv htruthy
      exact ⟨hself.mp hv, if_pos htruthy⟩
    · rw [← h]
      exact ⟨fun s hs => absurd hs (List.not_mem_nil), ite_self _⟩
  · rintro ⟨hascii, hkept⟩
    rw [hself.mpr hascii] at hv
    rwa [← Option.some.inj hv]

/-- A page that has a character for each byte. -/
theorem arrives_page (t : SingleByte) :
    Arrives L (.ansi t.page) (requestOf id method params) ↔
      t.Reads (lit method) ∧ AsciiJson params.json ∧ Kept L params.json := by
  have hstrings := strings_requestOf id method params fun s hs => t.reads_ascii hs
  by_cases hreads : ∀ s ∈ (requestJson (requestOf id method params)).strings, t.Reads s
  · have hheard := heard_requestOf hreads
    obtain ⟨hmethod, hparams⟩ := hstrings.mp hreads
    have hself := convert_self hparams
    rw [and_iff_right hmethod]
    cases hv : params.json.convert fun s => some (t.heardAs s) with
    | none =>
        rw [hv] at hheard
        refine iff_of_false ?_ fun h => ?_
        · rintro ⟨fields, hfields, -⟩
          cases hheard.symm.trans hfields
        · rw [hself.mpr h.1] at hv
          cases hv
    | some v =>
        rw [hv] at hheard
        exact (arrives_of_heard (.ansi t.page) hheard).trans (orElse_heard t hself hv)
  · refine iff_of_false ?_ fun h => hreads (hstrings.mpr ⟨h.1, fun s hs => ?_⟩)
    · rintro ⟨fields, hfields, -⟩
      obtain ⟨cs, hcs, -⟩ := Option.map_eq_some_iff.mp hfields
      have hline := t.decode_isSome.mp ⟨cs, hcs⟩
      exact hreads ((t.reads_requestLine readable_requestOf.strings).mp hline)
    · exact t.reads_ascii (params.readable.strings s hs) (h.2.1 s hs)

theorem CodePage.decode_ascii (page : CodePage) {text : List Char}
    (h : ∀ c ∈ text, c.toNat < 128) : page.decode (encodeUtf8 text) = some text := by
  have hbytes : ∀ b ∈ encodeUtf8 text, b.toNat < 128 := by
    rw [encodeUtf8, List.forall_mem_flatMap]
    intro c hc b hb
    obtain ⟨d, hd, hself, -⟩ := utf8_low (h c hc)
    rw [hself, List.mem_singleton] at hb
    rwa [hb]
  have hchars : (encodeUtf8 text).map asciiChar = text := by
    rw [encodeUtf8, List.map_flatMap]
    refine flatMap_fixed fun c hc => ?_
    obtain ⟨d, -, hself, hchar⟩ := utf8_low (h c hc)
    rw [hself, List.map_singleton, hchar]
  rw [page.ascii _ hbytes, hchars]

/-- An ASCII request is heard alike on every platform. -/
theorem arrives_ascii (page : CodePage) (hmethod : AsciiText (lit method))
    (hparams : AsciiJson params.json) :
    Arrives L (.ansi page) (requestOf id method params) ↔ Kept L params.json := by
  have hstrings := (strings_requestOf id method params fun s _ hs => hs).mpr ⟨hmethod, hparams⟩
  have hline : ∀ c ∈ requestLine (requestOf id method params), c.toNat < 128 := by
    rw [requestLine, List.forall_mem_append, List.forall_mem_singleton]
    refine ⟨render_forall outside_ascii _ fun s hs d hd => ?_, by decide⟩
    obtain ⟨c, hc, hd⟩ := List.mem_flatMap.mp hd
    exact rustEscape_low (hstrings s hs c hc) d hd
  have hheard : heard page.decode (requestOf id method params) =
      heard decodeUtf8 (requestOf id method params) := by
    rw [heard, heard, requestBytes, page.decode_ascii hline, decodeUtf8_encodeUtf8]
  have hsame : Arrives L (.ansi page) (requestOf id method params) ↔
      Arrives L .utf8 (requestOf id method params) := by
    change (∃ fields, heard page.decode _ = _ ∧ _) ↔ ∃ fields, heard decodeUtf8 _ = _ ∧ _
    rw [hheard]
  rw [hsame, arrives_utf8]

end

/-- Where standard input is UTF-8, every parameter that is kept arrives; through a
page with a character for each byte, only ASCII does. An ASCII method's
parameters arrive on every platform exactly when they are ASCII and kept. -/
theorem arrives_iff (L : Stdlib) (id : ℕ) (method : String) (params : Value) :
    (Arrives L .utf8 (requestOf id method params) ↔ Kept L params.json) ∧
      (∀ t : SingleByte, Arrives L (.ansi t.page) (requestOf id method params) ↔
        t.Reads (lit method) ∧ AsciiJson params.json ∧ Kept L params.json) ∧
      (AsciiText (lit method) → ((∀ stdin, Arrives L stdin (requestOf id method params)) ↔
        AsciiJson params.json ∧ Kept L params.json)) := by
  refine ⟨arrives_utf8, fun t => arrives_page t, fun hmethod => ⟨fun h => ?_, ?_⟩⟩
  · exact ((arrives_page windows1252).mp (h (.ansi windows1252.page))).2
  · rintro ⟨hascii, hkept⟩ stdin
    cases stdin with
    | utf8 => exact arrives_utf8.mpr hkept
    | ansi page => exact (arrives_ascii page hmethod hascii).mpr hkept

/-- The parameters of `exec`. -/
def codeParams (code : String) : Value where
  json := .obj [(lit "code", .str (lit code))]
  readable := ⟨by simpa [Json.strings, Json.fieldStrings] using ⟨lit_scalar _, lit_scalar _⟩,
    ⟨by simp, trivial, trivial⟩, .inr ⟨trivial, trivial⟩⟩

theorem strings_codeParams (code : String) :
    (codeParams code).json.strings = [lit "code", lit code] := rfl

theorem arrives_asciiCode :
    Arrives plainStdlib (.ansi windows1252.page) (requestOf 1 "exec" (codeParams "x = 1")) := by
  have hascii : AsciiJson (codeParams "x = 1").json := by
    rw [AsciiJson, strings_codeParams, List.forall_mem_cons, List.forall_mem_singleton,
      asciiText_lit, asciiText_lit]
    decide
  have hmethod : AsciiText (lit "exec") := asciiText_lit.mpr (by decide)
  exact ((arrives_iff plainStdlib 1 "exec" (codeParams "x = 1")).2.2 hmethod).mpr
    ⟨hascii, .inl rfl⟩ (.ansi windows1252.page)

example : windows1252.heardAs (lit "é") = lit "Ã©" := by decide +kernel

/-- Code with an accented letter does not arrive on a Western Windows. -/
theorem accentedCode_not_arrives :
    ¬ Arrives plainStdlib (.ansi windows1252.page) (requestOf 1 "exec" (codeParams "é")) := by
  intro h
  have hascii := ((arrives_page windows1252).mp h).2.1
  have hcode := hascii (lit "é") (by simp [strings_codeParams])
  exact absurd (asciiText_lit.mp hcode) (by decide)

end Xlpod.RequestArrival
