import Xlpod.Library.JsonRoundTrip
import Mathlib.Tactic.IntervalCases

/-!
# String literals of the two JSON implementations

A text is a list of code points, surrogates included, as Python has it; the
Rust side only ever holds texts without surrogates. `json.dumps` escapes
everything outside printable ASCII and writes an astral code point as a
surrogate pair. `serde_json` writes everything but quotes, backslashes and
control characters as it is.

Both readers scan a literal into code units first, where a raw character is
its own unit and an escape gives one unit of at most sixteen bits. Raw
characters are never surrogates, so joining adjacent surrogate units joins
exactly the escaped pairs. Python keeps a lone surrogate, Rust rejects it.
Either reader therefore takes back what either writer wrote.
-/
namespace Xlpod.JsonText

abbrev CodePoint := Fin 0x110000

abbrev Text := List CodePoint

def codePoint (n : ℕ) : CodePoint := Fin.ofNat 0x110000 n

/-- The text of a string constant. -/
def lit (s : String) : Text := s.toList.map fun c => codePoint c.toNat

theorem codePoint_val {n : ℕ} (h : n < 0x110000) : (codePoint n).val = n :=
  Nat.mod_eq_of_lt h

theorem codePoint_self (c : CodePoint) : codePoint c.val = c :=
  Fin.ext (codePoint_val c.isLt)

theorem char_toNat_scalar (c : Char) :
    c.toNat < 0xD800 ∨ (0xDFFF < c.toNat ∧ c.toNat < 0x110000) := c.valid

theorem codePoint_char_val (c : Char) : (codePoint c.toNat).val = c.toNat :=
  codePoint_val (by have := char_toNat_scalar c; omega)

@[simp] theorem lit_inj {a b : String} : lit a = lit b ↔ a = b := by
  have hinj : Function.Injective fun c : Char => codePoint c.toNat := fun c d h => by
    have hval := congrArg Fin.val h
    simp only [codePoint_char_val] at hval
    exact Char.toNat_inj.mp hval
  rw [lit, lit, hinj.list_map.eq_iff, String.toList_inj]

@[simp] theorem lit_beq (a b : String) : (lit a == lit b) = (a == b) := by
  rw [Bool.eq_iff_iff, beq_iff_eq, beq_iff_eq, lit_inj]

def isHigh (c : CodePoint) : Bool := 0xD800 ≤ c.val && c.val ≤ 0xDBFF

def isLow (c : CodePoint) : Bool := 0xDC00 ≤ c.val && c.val ≤ 0xDFFF

/-- A string of scalar values, which is what a Unicode text is. -/
def Scalar (s : Text) : Prop := ∀ c ∈ s, isHigh c = false ∧ isLow c = false

instance : DecidablePred Scalar := fun s =>
  inferInstanceAs (Decidable (∀ c ∈ s, isHigh c = false ∧ isLow c = false))

theorem char_scalar (c : Char) :
    isHigh (codePoint c.toNat) = false ∧ isLow (codePoint c.toNat) = false := by
  have hc := char_toNat_scalar c
  simp only [isHigh, isLow, codePoint_char_val, Bool.and_eq_false_iff, decide_eq_false_iff_not]
  omega

theorem lit_scalar (s : String) : Scalar (lit s) := by
  intro c hc
  obtain ⟨d, -, rfl⟩ := List.mem_map.mp hc
  exact char_scalar d

/-! ## Hexadecimal escapes -/

def hexDigit (n : ℕ) : Char := Nat.digitChar n

def hexValue (c : Char) : Option ℕ :=
  if '0' ≤ c ∧ c ≤ '9' then some (c.toNat - '0'.toNat)
  else if 'a' ≤ c ∧ c ≤ 'f' then some (c.toNat - 'a'.toNat + 10)
  else if 'A' ≤ c ∧ c ≤ 'F' then some (c.toNat - 'A'.toNat + 10)
  else none

theorem hexValue_hexDigit {n : ℕ} (h : n < 16) : hexValue (hexDigit n) = some n := by
  interval_cases n <;> decide

/-- The escape of one sixteen-bit unit. -/
def unicodeEscape (n : ℕ) : List Char :=
  ['\\', 'u', hexDigit (n / 4096 % 16), hexDigit (n / 256 % 16), hexDigit (n / 16 % 16),
    hexDigit (n % 16)]

/-- The letter after the backslash and the character it stands for. -/
def shortEscape : Char → Option ℕ
  | '"' => some 34
  | '\\' => some 92
  | '/' => some 47
  | 'b' => some 8
  | 'f' => some 12
  | 'n' => some 10
  | 'r' => some 13
  | 't' => some 9
  | _ => none

def readHex (a b c d : Char) : Option ℕ := do
  let a ← hexValue a
  let b ← hexValue b
  let c ← hexValue c
  let d ← hexValue d
  some (4096 * a + 256 * b + 16 * c + d)

theorem readHex_digits {n : ℕ} (h : n < 65536) :
    readHex (hexDigit (n / 4096 % 16)) (hexDigit (n / 256 % 16)) (hexDigit (n / 16 % 16))
      (hexDigit (n % 16)) = some n := by
  simp only [readHex, hexValue_hexDigit (Nat.mod_lt _ (by decide : 0 < 16)), Option.bind_eq_bind,
    Option.bind_some, Option.some.injEq]
  omega

/-- The code units of a literal and the text after its closing quote. -/
def scan : List Char → Option (List CodePoint × List Char)
  | [] => none
  | '"' :: rest => some ([], rest)
  | '\\' :: 'u' :: a :: b :: c :: d :: rest => do
      let n ← readHex a b c d
      let r ← scan rest
      some (codePoint n :: r.1, r.2)
  | '\\' :: e :: rest => do
      let n ← shortEscape e
      let r ← scan rest
      some (codePoint n :: r.1, r.2)
  | c :: rest =>
      if c.toNat < 32 ∨ c = '\\' then none
      else (scan rest).map fun r => (codePoint c.toNat :: r.1, r.2)

theorem scan_unicode {n : ℕ} (h : n < 65536) (rest : List Char) :
    scan (unicodeEscape n ++ rest) =
      (scan rest).map fun r => (codePoint n :: r.1, r.2) := by
  simp only [unicodeEscape, List.cons_append, List.nil_append, scan, readHex_digits h]
  cases scan rest <;> rfl

theorem scan_short {e : Char} {n : ℕ} (h : shortEscape e = some n) (rest : List Char) :
    scan ('\\' :: e :: rest) = (scan rest).map fun r => (codePoint n :: r.1, r.2) := by
  have hu : e ≠ 'u' := by
    rintro rfl
    simp [shortEscape] at h
  rw [scan]
  · rw [h]
    cases scan rest <;> rfl
  · rintro a b c d rest' rfl
    exact absurd rfl hu

theorem scan_raw {c : Char} (hc : 32 ≤ c.toNat) (hq : c ≠ '"') (hb : c ≠ '\\')
    (rest : List Char) :
    scan (c :: rest) = (scan rest).map fun r => (codePoint c.toNat :: r.1, r.2) := by
  rw [scan]
  · rw [if_neg (by simp [hb]; omega)]
  all_goals simp_all

/-! ## Python's literals -/

/-- Escapes of `json.dumps` with `ensure_ascii`. -/
def pyEscape (c : CodePoint) : List Char :=
  if c.val = 34 then ['\\', '"']
  else if c.val = 92 then ['\\', '\\']
  else if c.val = 10 then ['\\', 'n']
  else if c.val = 13 then ['\\', 'r']
  else if c.val = 9 then ['\\', 't']
  else if c.val = 12 then ['\\', 'f']
  else if c.val = 8 then ['\\', 'b']
  else if 32 ≤ c.val ∧ c.val ≤ 126 then [Char.ofNat c.val]
  else if c.val < 65536 then unicodeEscape c.val
  else
    unicodeEscape (0xD800 + (c.val - 0x10000) / 1024) ++
      unicodeEscape (0xDC00 + (c.val - 0x10000) % 1024)

/-- A high surrogate takes the low one that follows it. -/
def joinSurrogates : List CodePoint → Text
  | h :: l :: us =>
      if isHigh h && isLow l then
        codePoint (0x10000 + (h.val - 0xD800) * 1024 + (l.val - 0xDC00)) :: joinSurrogates us
      else h :: joinSurrogates (l :: us)
  | us => us

/-- `json.dumps` with its default separators. -/
def pythonWriter : Writer Text where
  gap := [' ']
  literal s := s.flatMap pyEscape

/-- `json.loads`. -/
def pythonReader : Reader Text where
  unquote text := (scan text).map fun r => (joinSurrogates r.1, r.2)
  nonfinite := true

/-- The code units `json.dumps` writes for one code point. -/
def pyUnits (c : CodePoint) : List CodePoint :=
  if c.val < 65536 then [c]
  else [codePoint (0xD800 + (c.val - 0x10000) / 1024),
    codePoint (0xDC00 + (c.val - 0x10000) % 1024)]

theorem scan_pyEscape (c : CodePoint) (rest : List Char) :
    scan (pyEscape c ++ rest) = (scan rest).map fun r => (pyUnits c ++ r.1, r.2) := by
  have hself {n : ℕ} (h : c.val = n) : c = codePoint n := h ▸ (codePoint_self c).symm
  have hshort {e : Char} {n : ℕ} (h : c.val = n) (hn : n < 65536)
      (he : shortEscape e = some n) :
      scan (['\\', e] ++ rest) = (scan rest).map fun r => (pyUnits c ++ r.1, r.2) := by
    rw [List.cons_append, List.cons_append, List.nil_append, scan_short he, pyUnits,
      if_pos (h ▸ hn), ← hself h]
    rfl
  unfold pyEscape
  split_ifs with h1 h2 h3 h4 h5 h6 h7 h8 h9
  · exact hshort h1 (by decide) rfl
  · exact hshort h2 (by decide) rfl
  · exact hshort h3 (by decide) rfl
  · exact hshort h4 (by decide) rfl
  · exact hshort h5 (by decide) rfl
  · exact hshort h6 (by decide) rfl
  · exact hshort h7 (by decide) rfl
  · have hn : (Char.ofNat c.val).toNat = c.val := by
      rw [Char.ofNat, dif_pos (show c.val.isValidChar from .inl (by omega))]
      rfl
    have hne {d : Char} (h : c.val ≠ d.toNat) : Char.ofNat c.val ≠ d := by
      rintro rfl
      exact h hn.symm
    rw [List.singleton_append, scan_raw (by omega) (hne h1) (hne h2), hn, codePoint_self,
      pyUnits, if_pos (by omega)]
    rfl
  · rw [scan_unicode h9, codePoint_self, pyUnits, if_pos h9]
    rfl
  · have := c.isLt
    rw [List.append_assoc, scan_unicode (by omega), scan_unicode (by omega), Option.map_map,
      pyUnits, if_neg h9]
    rfl

theorem joinSurrogates_cons {c : CodePoint} (h : isHigh c = false) (us : List CodePoint) :
    joinSurrogates (c :: us) = c :: joinSurrogates us := by
  cases us with
  | nil => rfl
  | cons u us => rw [joinSurrogates, h, Bool.false_and, if_neg Bool.false_ne_true]

/-- The two units of an astral code point are a pair that joins to it. -/
theorem pyUnits_pair {c : CodePoint} (h : ¬ c.val < 65536) :
    (isHigh (codePoint (0xD800 + (c.val - 0x10000) / 1024)) &&
        isLow (codePoint (0xDC00 + (c.val - 0x10000) % 1024))) = true ∧
      codePoint (0x10000 + ((codePoint (0xD800 + (c.val - 0x10000) / 1024)).val - 0xD800) * 1024 +
        ((codePoint (0xDC00 + (c.val - 0x10000) % 1024)).val - 0xDC00)) = c := by
  have hc := c.isLt
  have hh := codePoint_val (n := 0xD800 + (c.val - 0x10000) / 1024) (by omega)
  have hl := codePoint_val (n := 0xDC00 + (c.val - 0x10000) % 1024) (by omega)
  rw [hh, hl]
  refine ⟨?_, Fin.ext ?_⟩
  · simp only [isHigh, isLow, hh, hl, Bool.and_eq_true, decide_eq_true_eq]
    omega
  · rw [codePoint_val (by omega)]
    omega

theorem joinSurrogates_pyUnits {c : CodePoint} (h : isHigh c = false) (us : List CodePoint) :
    joinSurrogates (pyUnits c ++ us) = c :: joinSurrogates us := by
  unfold pyUnits
  split_ifs with h16
  · exact joinSurrogates_cons h us
  · obtain ⟨hpair, hjoin⟩ := pyUnits_pair h16
    rw [List.cons_append, List.cons_append, List.nil_append, joinSurrogates, if_pos hpair, hjoin]

theorem hexDigit_mem (n : ℕ) : hexDigit (n % 16) ∈ "0123456789abcdef".toList := by
  have h : n % 16 < 16 := Nat.mod_lt _ (by decide)
  generalize n % 16 = m at h
  interval_cases m <;> decide

/-- The characters escape sequences are made of. -/
def escapeAlphabet : List Char := "\\\"nrtfbu0123456789abcdef".toList

theorem not_mem_unicodeEscape {c : Char} (hc : c ∉ escapeAlphabet) (n : ℕ) :
    c ∉ unicodeEscape n := by
  have hhex (n : ℕ) : c ≠ hexDigit (n % 16) := by
    rintro rfl
    exact hc (List.mem_of_mem_drop (i := 8) (hexDigit_mem n))
  simp only [unicodeEscape, List.mem_cons, List.not_mem_nil, or_false, hhex, or_self, not_or]
  exact ⟨fun h => hc (by rw [h]; decide), fun h => hc (by rw [h]; decide)⟩

theorem not_mem_shortEscape {c e : Char} (hc : c ∉ escapeAlphabet) (he : e ∈ escapeAlphabet) :
    c ∉ ['\\', e] := by
  simp only [List.mem_cons, List.not_mem_nil, or_false, not_or]
  exact ⟨fun h => hc (by rw [h]; decide), fun h => hc (h ▸ he)⟩

/-- A character no escape sequence is made of stands for itself. -/
theorem pyEscape_only {c : Char} (hc : c ∉ escapeAlphabet) {d : CodePoint}
    (h : c ∈ pyEscape d) : d = codePoint c.toNat := by
  unfold pyEscape at h
  split_ifs at h with h1 h2 h3 h4 h5 h6 h7 h8 h9
  · exact absurd h (not_mem_shortEscape hc (by decide))
  · exact absurd h (not_mem_shortEscape hc (by decide))
  · exact absurd h (not_mem_shortEscape hc (by decide))
  · exact absurd h (not_mem_shortEscape hc (by decide))
  · exact absurd h (not_mem_shortEscape hc (by decide))
  · exact absurd h (not_mem_shortEscape hc (by decide))
  · exact absurd h (not_mem_shortEscape hc (by decide))
  · have hv : d.val.isValidChar := .inl (by omega)
    have hn : c.toNat = d.val := by
      rw [List.mem_singleton.mp h]
      rw [Char.ofNat, dif_pos hv]
      rfl
    rw [hn, codePoint_self]
  · exact absurd h (not_mem_unicodeEscape hc _)
  · rcases List.mem_append.mp h with h | h <;> exact absurd h (not_mem_unicodeEscape hc _)

/-! ## Rust's literals -/

def rustEscape (c : CodePoint) : List Char :=
  if c.val = 34 then ['\\', '"']
  else if c.val = 92 then ['\\', '\\']
  else if c.val = 10 then ['\\', 'n']
  else if c.val = 13 then ['\\', 'r']
  else if c.val = 9 then ['\\', 't']
  else if c.val = 12 then ['\\', 'f']
  else if c.val = 8 then ['\\', 'b']
  else if c.val < 32 then unicodeEscape c.val
  else [Char.ofNat c.val]

/-- `serde_json::to_string`. -/
def rustWriter : Writer Text where
  gap := []
  literal s := s.flatMap rustEscape

/-- Units to scalar values; a lone surrogate is an error. -/
def joinScalars : List CodePoint → Option Text
  | [] => some []
  | h :: us =>
      if isHigh h then
        match us with
        | l :: us =>
            if isLow l then
              (joinScalars us).map
                (codePoint (0x10000 + (h.val - 0xD800) * 1024 + (l.val - 0xDC00)) :: ·)
            else none
        | [] => none
      else if isLow h then none
      else (joinScalars us).map (h :: ·)

/-- `serde_json::from_str`. -/
def rustReader : Reader Text where
  unquote text := do
    let (us, rest) ← scan text
    let s ← joinScalars us
    some (s, rest)
  nonfinite := false

theorem char_of_scalar {c : CodePoint} (h : isHigh c = false ∧ isLow c = false) :
    (Char.ofNat c.val).toNat = c.val := by
  have hc := c.isLt
  have hv : c.val.isValidChar := by
    simp only [isHigh, isLow, Bool.and_eq_false_iff, decide_eq_false_iff_not] at h
    rcases lt_or_ge c.val 0xD800 with hlt | hge
    · exact .inl hlt
    · exact .inr ⟨by omega, hc⟩
  rw [Char.ofNat, dif_pos hv]
  rfl

theorem scan_rustEscape {c : CodePoint} (h : isHigh c = false ∧ isLow c = false)
    (rest : List Char) :
    scan (rustEscape c ++ rest) = (scan rest).map fun r => (c :: r.1, r.2) := by
  have hn := char_of_scalar h
  have hne {d : Char} (hd : c.val ≠ d.toNat) : Char.ofNat c.val ≠ d := by
    rintro rfl
    exact hd hn.symm
  have hshort {e : Char} {n : ℕ} (hc : c.val = n) (he : shortEscape e = some n) :
      scan (['\\', e] ++ rest) = (scan rest).map fun r => (c :: r.1, r.2) := by
    rw [List.cons_append, List.cons_append, List.nil_append, scan_short he, ← hc, codePoint_self]
  unfold rustEscape
  split_ifs with h1 h2 h3 h4 h5 h6 h7 h8
  · exact hshort h1 rfl
  · exact hshort h2 rfl
  · exact hshort h3 rfl
  · exact hshort h4 rfl
  · exact hshort h5 rfl
  · exact hshort h6 rfl
  · exact hshort h7 rfl
  · rw [scan_unicode (by omega), codePoint_self]
  · rw [List.singleton_append, scan_raw (by omega) (hne h1) (hne h2), hn, codePoint_self]

theorem joinScalars_cons {u : CodePoint} (h : isHigh u = false ∧ isLow u = false)
    (us : List CodePoint) : joinScalars (u :: us) = (joinScalars us).map (u :: ·) := by
  rw [joinScalars.eq_def]
  simp only [h.1, h.2, Bool.false_eq_true, if_false]

theorem joinScalars_pyUnits {c : CodePoint} (h : isHigh c = false ∧ isLow c = false)
    (us : List CodePoint) :
    joinScalars (pyUnits c ++ us) = (joinScalars us).map (c :: ·) := by
  unfold pyUnits
  split_ifs with h16
  · exact joinScalars_cons h us
  · obtain ⟨hpair, hjoin⟩ := pyUnits_pair h16
    rw [Bool.and_eq_true] at hpair
    rw [List.cons_append, List.cons_append, List.nil_append, joinScalars, if_pos hpair.1,
      if_pos hpair.2, hjoin]

/-! ## Either reader takes back what either writer wrote -/

/-- A literal scans to its text once its units are joined. -/
theorem agree_of_units {W : Writer Text} {R : Reader Text} (units : CodePoint → List CodePoint)
    (join : List CodePoint → Option Text) {esc : CodePoint → List Char}
    (hgap : ∀ c ∈ W.gap, isSpace c = true) (hlit : W.literal = fun s => s.flatMap esc)
    (hread : ∀ text, R.unquote text =
      (scan text).bind fun r => (join r.1).map fun s => (s, r.2))
    (hscan : ∀ c, isHigh c = false ∧ isLow c = false → ∀ rest,
      scan (esc c ++ rest) = (scan rest).map fun r => (units c ++ r.1, r.2))
    (hnil : join [] = some [])
    (hjoin : ∀ c, isHigh c = false ∧ isLow c = false → ∀ us,
      join (units c ++ us) = (join us).map (c :: ·)) : Agree W R Scalar where
  gap_space := hgap
  unquote_literal s hs rest := by
    have h : scan (s.flatMap esc ++ '"' :: rest) = some (s.flatMap units, rest) ∧
        join (s.flatMap units) = some s := by
      induction s with
      | nil => exact ⟨rfl, hnil⟩
      | cons c s ih =>
          obtain ⟨hsc, hjo⟩ := ih fun d hd => hs d (by simp [hd])
          have hc := hs c (by simp)
          rw [List.flatMap_cons, List.append_assoc, hscan c hc, hsc, List.flatMap_cons, hjoin c hc,
            hjo]
          exact ⟨rfl, rfl⟩
    rw [hlit, hread, h.1, Option.bind_some, h.2]
    rfl

theorem pythonReader_unquote (text : List Char) : pythonReader.unquote text =
    (scan text).bind fun r => (some (joinSurrogates r.1)).map fun s => (s, r.2) := by
  cases h : scan text <;> simp [pythonReader, h]

theorem rustReader_unquote (text : List Char) : rustReader.unquote text =
    (scan text).bind fun r => (joinScalars r.1).map fun s => (s, r.2) := by
  cases h : scan text with
  | none => simp [rustReader, h]
  | some r => cases hj : joinScalars r.1 <;> simp [rustReader, h, hj]

theorem python_python : Agree pythonWriter pythonReader Scalar :=
  agree_of_units pyUnits (fun us => some (joinSurrogates us)) (List.all_eq_true.mp (by decide)) rfl
    pythonReader_unquote (fun c _ => scan_pyEscape c) rfl
    fun c hc us => by simp [joinSurrogates_pyUnits hc.1]

theorem python_rust : Agree pythonWriter rustReader Scalar :=
  agree_of_units pyUnits joinScalars (List.all_eq_true.mp (by decide)) rfl rustReader_unquote
    (fun c _ => scan_pyEscape c) rfl fun c hc => joinScalars_pyUnits hc

theorem rust_python : Agree rustWriter pythonReader Scalar :=
  agree_of_units (fun c => [c]) (fun us => some (joinSurrogates us))
    (List.all_eq_true.mp (by decide)) rfl pythonReader_unquote
    (fun c hc rest => scan_rustEscape hc rest) rfl fun c hc us => by simp [joinSurrogates_cons hc.1]

/-! ## Surrogates that Rust takes -/

/-- Every surrogate is half of a pair. -/
inductive Paired : Text → Prop
  | nil : Paired []
  | scalar {c : CodePoint} {s : Text} : isHigh c = false → isLow c = false → Paired s →
      Paired (c :: s)
  | pair {h l : CodePoint} {s : Text} : isHigh h = true → isLow l = true → Paired s →
      Paired (h :: l :: s)

theorem isLow_of_isHigh {c : CodePoint} (h : isHigh c = true) : isLow c = false := by
  simp only [isHigh, isLow, Bool.and_eq_true, decide_eq_true_eq, Bool.and_eq_false_iff,
    decide_eq_false_iff_not] at h ⊢
  omega

theorem joinScalars_isSome {s : Text} : (joinScalars s).isSome = true ↔ Paired s := by
  constructor
  · intro h
    fun_induction joinScalars s with
    | case1 => exact .nil
    | case2 c hc l us hl ih => exact .pair hc hl (ih (by simpa using h))
    | case3 c hc l us hl => cases h
    | case4 c hc => cases h
    | case5 c us hc hl => cases h
    | case6 c us hc hl ih =>
        exact .scalar (Bool.eq_false_iff.mpr hc) (Bool.eq_false_iff.mpr hl) (ih (by simpa using h))
  · intro h
    induction h with
    | nil => rfl
    | scalar hc hl _ ih => rw [joinScalars_cons ⟨hc, hl⟩, Option.isSome_map, ih]
    | pair hh hl _ ih => rw [joinScalars, if_pos hh, if_pos hl, Option.isSome_map, ih]

theorem pyUnits_surrogate {c : CodePoint} (h : isHigh c = true ∨ isLow c = true) :
    pyUnits c = [c] := by
  have hsmall : c.val < 65536 := by
    simp only [isHigh, isLow, Bool.and_eq_true, decide_eq_true_eq] at h
    omega
  rw [pyUnits, if_pos hsmall]

/-- The first unit of a code point is a low surrogate only for a lone one. -/
theorem pyUnits_head {c : CodePoint} (h : isLow c = false) :
    ∃ u us, pyUnits c = u :: us ∧ isLow u = false := by
  unfold pyUnits
  split_ifs with hsmall
  · exact ⟨c, [], rfl, h⟩
  · have hpair := (pyUnits_pair hsmall).1
    rw [Bool.and_eq_true] at hpair
    exact ⟨_, _, rfl, isLow_of_isHigh hpair.1⟩

/-- Splitting astral code points into units does not change what they join to. -/
theorem joinScalars_units (s : Text) : joinScalars (s.flatMap pyUnits) = joinScalars s := by
  fun_induction joinScalars s with
  | case1 => rfl
  | case2 h hh l us hl ih =>
      rw [List.flatMap_cons, List.flatMap_cons, pyUnits_surrogate (.inl hh),
        pyUnits_surrogate (.inr hl), List.singleton_append, List.singleton_append, joinScalars,
        if_pos hh, if_pos hl, ih]
  | case3 h hh l us hl =>
      obtain ⟨u, rest, hunits, hu⟩ := pyUnits_head (Bool.eq_false_iff.mpr hl)
      rw [List.flatMap_cons, List.flatMap_cons, pyUnits_surrogate (.inl hh), hunits,
        List.singleton_append, List.cons_append, joinScalars, if_pos hh,
        if_neg (by simp [hu])]
  | case4 h hh =>
      rw [List.flatMap_cons, pyUnits_surrogate (.inl hh)]
      simp [joinScalars, hh]
  | case5 c us hc hl =>
      rw [List.flatMap_cons, pyUnits_surrogate (.inr hl), List.singleton_append, joinScalars.eq_def]
      simp [hc, hl]
  | case6 c us hc hl ih =>
      rw [List.flatMap_cons, joinScalars_pyUnits ⟨Bool.eq_false_iff.mpr hc,
        Bool.eq_false_iff.mpr hl⟩, ih]

theorem scan_pyEscapes (s : Text) (rest : List Char) :
    scan (s.flatMap pyEscape ++ '"' :: rest) = some (s.flatMap pyUnits, rest) := by
  induction s with
  | nil => rfl
  | cons c s ih =>
      rw [List.flatMap_cons, List.append_assoc, scan_pyEscape, ih, List.flatMap_cons]
      rfl

/-- What Rust makes of a string that Python wrote, surrogates included. -/
theorem python_rust_converts : Converts pythonWriter rustReader (fun _ => True) joinScalars where
  gap_space := python_rust.gap_space
  unquote_literal s _ rest := by
    rw [rustReader_unquote]
    change (scan (s.flatMap pyEscape ++ '"' :: rest)).bind _ = _
    rw [scan_pyEscapes, Option.bind_some, joinScalars_units]

end Xlpod.JsonText
