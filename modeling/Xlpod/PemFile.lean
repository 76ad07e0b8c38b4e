import Xlpod.Library.Regrouping
import Xlpod.WorkerPipe
import Xlpod.ByteEncodings

/-!
# The certificate in a PEM file

`pem_to_der` collects the lines between a BEGIN and an END line and decodes
them by `decode_b64`, a loop over a 32-bit accumulator. The accumulator is the
queue of a regrouping from six bits to eight, and never holds more than
thirteen: nothing is shifted out of it.
-/
namespace Xlpod.PemFile
open Xlpod.JsonText Xlpod.ByteEncodings Xlpod.Regrouping
open Xlpod.WorkerPipe (trim isWhitespace)

/-! ## Lines -/

/-- The carriage return in front of a line feed. -/
def stripCr (line : List Char) : List Char :=
  if line.getLast? = some '\r' then line.dropLast else line

def linesFrom (line : List Char) : List Char → List (List Char)
  | [] => if line.isEmpty then [] else [line]
  | c :: cs => if c = '\n' then stripCr line :: linesFrom [] cs else linesFrom (line ++ [c]) cs

/-- `str::lines`. -/
def lines (text : List Char) : List (List Char) := linesFrom [] text

def isBegin (line : List Char) : Bool := "-----BEGIN".toList.isPrefixOf line

def isEnd (line : List Char) : Bool := "-----END".toList.isPrefixOf line

/-- The loop of `pem_to_der` over the lines. -/
def blockBytes (inBlock : Bool) : List (List Char) → Bytes
  | [] => []
  | line :: rest =>
      if isBegin line then blockBytes true rest
      else if isEnd line then []
      else if inBlock then encodeUtf8 (trim line) ++ blockBytes true rest
      else blockBytes false rest

/-! ## The decoder -/

/-- `TABLE`. -/
def table : List ℤ :=
  let letters := (List.range 26).foldl
    (fun t i => (t.set ('A'.toNat + i) (i : ℤ)).set ('a'.toNat + i) ((i : ℤ) + 26))
    (List.replicate 128 (-1))
  let digits := (List.range 10).foldl (fun t i => t.set ('0'.toNat + i) ((i : ℤ) + 52)) letters
  (digits.set '+'.toNat 62).set '/'.toNat 63

structure Accumulator where
  buf : UInt32
  bits : UInt32
  out : Bytes
deriving DecidableEq

def Accumulator.take (acc : Accumulator) (v : UInt32) : Accumulator :=
  let buf := (acc.buf <<< 6) ||| v
  let bits := acc.bits + 6
  if 8 ≤ bits then
    let bits := bits - 8
    { buf := buf &&& ((1 <<< bits) - 1), bits := bits, out := acc.out ++ [(buf >>> bits).toUInt8] }
  else { acc with buf := buf, bits := bits }

def isSkipped (c : UInt8) : Bool :=
  c = '='.toUInt8 || c = '\r'.toUInt8 || c = '\n'.toUInt8 || c = ' '.toUInt8

def invalidChar : String := "invalid base64 char"

def decodeStep (acc : Accumulator) (c : UInt8) : Except String Accumulator :=
  if isSkipped c then .ok acc
  else if table.length ≤ c.toNat then .error invalidChar
  else if table.getD c.toNat 0 < 0 then .error invalidChar
  else .ok (acc.take (UInt32.ofNat (table.getD c.toNat 0).toNat))

/-- The loop of `decode_b64`. -/
def accumulate (input : Bytes) : Except String Accumulator := input.foldlM decodeStep ⟨0, 0, []⟩

def decodeB64 (input : Bytes) : Except String Bytes := do
  return (← accumulate input).out

/-- `pem_to_der`; the error is wrapped in one of the kind `InvalidData`. -/
def pemToDer (pem : List Char) : Except String Bytes := decodeB64 (blockBytes false (lines pem))

/-! ## The alphabet -/

def alphabet : Bytes := ascii "ABCDEFGHIJKLMNOPQRSTUVWXYZabcdefghijklmnopqrstuvwxyz0123456789+/"

def isAllowed (c : UInt8) : Bool := isSkipped c || alphabet.contains c

/-- The codes of the alphabet. -/
def codes : List ℕ := List.range' 65 26 ++ List.range' 97 26 ++ List.range' 48 10 ++ [43, 47]

theorem alphabet_codes : alphabet.map UInt8.toNat = codes := by decide +kernel

theorem idxOf?_codes (c : UInt8) : alphabet.idxOf? c = codes.idxOf? c.toNat := by
  have hsame : (fun b : UInt8 => b.toNat == c.toNat) = (· == c) := by
    funext b
    rw [Bool.eq_iff_iff, beq_iff_eq, beq_iff_eq, UInt8.toNat_inj]
  rw [← alphabet_codes, List.idxOf?, List.idxOf?, List.findIdx?_map]
  exact congrArg (alphabet.findIdx? ·) hsame.symm

/-- `TABLE` has the index of every byte of the alphabet. -/
theorem table_alphabet (c : UInt8) :
    (if table.length ≤ c.toNat then none else if table.getD c.toNat 0 < 0 then none
      else some (table.getD c.toNat 0).toNat) = alphabet.idxOf? c := by
  have hcodes : ∀ n ∈ codes, n < table.length := by decide +kernel
  have htable : ∀ n < table.length, (if table.getD n 0 < 0 then none
      else some (table.getD n 0).toNat) = codes.idxOf? n := by decide +kernel
  rw [idxOf?_codes]
  by_cases hlong : table.length ≤ c.toNat
  · have hnone : c.toNat ∉ codes := fun hmem => absurd (hcodes _ hmem) (Nat.not_lt_of_le hlong)
    rw [if_pos hlong, List.idxOf?_eq_none_iff.mpr hnone]
  · rw [if_neg hlong, htable _ (Nat.lt_of_not_le hlong)]

theorem decodeStep_eq (acc : Accumulator) (c : UInt8) :
    decodeStep acc c = if isSkipped c then .ok acc else
      match alphabet.idxOf? c with
      | some v => .ok (acc.take (UInt32.ofNat v))
      | none => .error invalidChar := by
  rw [decodeStep, ← table_alphabet]
  by_cases hlong : table.length ≤ c.toNat
  · simp only [if_pos hlong]
  · by_cases hneg : table.getD c.toNat 0 < 0
    · simp only [if_neg hlong, if_pos hneg]
    · simp only [if_neg hlong, if_neg hneg]

theorem idxOf?_skipped {c : UInt8} (h : isSkipped c = true) : alphabet.idxOf? c = none := by
  have hcases : c = '='.toUInt8 ∨ c = '\r'.toUInt8 ∨ c = '\n'.toUInt8 ∨ c = ' '.toUInt8 := by
    simpa [isSkipped, or_assoc] using h
  rw [idxOf?_codes]
  rcases hcases with rfl | rfl | rfl | rfl <;> decide +kernel

theorem idxOf?_lt {c : UInt8} {v : ℕ} (h : alphabet.idxOf? c = some v) : v < 2 ^ 6 := by
  rw [idxOf?_codes] at h
  exact (List.idxOf?_eq_some_iff.mp h).1

/-! ## The accumulator -/

/-- The accumulator as a queue of unbounded numbers. -/
def Accumulator.queue (acc : Accumulator) : Queue :=
  ⟨acc.buf.toNat, acc.bits.toNat, acc.out.map UInt8.toNat⟩

section
variable {acc : Accumulator} {digits : List ℕ} {v : ℕ}

/-- Nothing is shifted out. -/
theorem shiftLeft_held (h : Holds 6 8 digits acc.queue) :
    (acc.buf <<< 6).toNat = acc.buf.toNat * 2 ^ 6 := by
  have hbits : acc.bits.toNat < 8 := h.bits
  have hbuf : acc.buf.toNat < 2 ^ 8 :=
    Nat.lt_of_lt_of_le h.buf (Nat.pow_le_pow_right (by decide) hbits.le)
  rw [UInt32.toNat_shiftLeft, Nat.shiftLeft_eq]
  exact Nat.mod_eq_of_lt (by change acc.buf.toNat * 2 ^ 6 < 2 ^ 32; omega)

theorem or_held (h : Holds 6 8 digits acc.queue) (hv : v < 2 ^ 6) :
    ((acc.buf <<< 6) ||| UInt32.ofNat v).toNat = acc.buf.toNat * 2 ^ 6 + v := by
  have hvalue : (UInt32.ofNat v).toNat = v :=
    UInt32.toNat_ofNat_of_lt' (Nat.lt_trans hv (by decide))
  rw [UInt32.toNat_or, shiftLeft_held h, hvalue, ← Nat.shiftLeft_eq,
    Nat.shiftLeft_add_eq_or_of_lt hv]

theorem bits_held (h : Holds 6 8 digits acc.queue) :
    (acc.bits + 6).toNat = acc.bits.toNat + 6 := by
  have hbits : acc.bits.toNat < 8 := h.bits
  rw [UInt32.toNat_add]
  exact Nat.mod_eq_of_lt (by change acc.bits.toNat + 6 < 2 ^ 32; omega)

/-- The mask keeps the bits below the byte that came out. -/
theorem and_mask (x : UInt32) {k : UInt32} (hk : k.toNat < 8) :
    (x &&& ((1 <<< k) - 1)).toNat = x.toNat % 2 ^ k.toNat := by
  have hpow : 2 ^ k.toNat ≤ 2 ^ 8 := Nat.pow_le_pow_right (by decide) hk.le
  have hshift : (1 <<< k : UInt32).toNat = 2 ^ k.toNat := by
    rw [UInt32.toNat_shiftLeft, Nat.mod_eq_of_lt (by omega : k.toNat < 32), Nat.shiftLeft_eq]
    simp
    omega
  have hone : (1 : UInt32) ≤ 1 <<< k := by
    rw [UInt32.le_iff_toNat_le, hshift]
    exact Nat.two_pow_pos _
  rw [UInt32.toNat_and, UInt32.toNat_sub_of_le _ _ hone, hshift]
  exact Nat.and_two_pow_sub_one_eq_mod ..

/-- The byte is cut off whole. -/
theorem shiftRight_byte {x k : UInt32} (hk : k.toNat < 8) (hx : x.toNat < 2 ^ (8 + k.toNat)) :
    (x >>> k).toUInt8.toNat = x.toNat / 2 ^ k.toNat := by
  have hbyte : x.toNat / 2 ^ k.toNat < 2 ^ 8 := by
    rwa [Nat.div_lt_iff_lt_mul (Nat.two_pow_pos _), ← pow_add]
  rw [UInt32.toNat_toUInt8, UInt32.toNat_shiftRight, Nat.mod_eq_of_lt (by omega : k.toNat < 32),
    Nat.shiftRight_eq_div_pow, Nat.mod_eq_of_lt hbyte]

theorem take_queue (h : Holds 6 8 digits acc.queue) (hv : v < 2 ^ 6) :
    (acc.take (UInt32.ofNat v)).queue = acc.queue.push 6 8 v := by
  have hbits := bits_held h
  have hbuf := or_held h hv
  have hlt : acc.bits.toNat < 8 := h.bits
  have hcount : 8 ≤ acc.bits + 6 ↔ 8 ≤ acc.queue.bits + 6 := by
    rw [UInt32.le_iff_toNat_le, hbits]
    rfl
  by_cases hfull : 8 ≤ acc.bits + 6
  · have hleft : (acc.bits + 6 - 8).toNat = acc.bits.toNat + 6 - 8 := by
      rw [UInt32.toNat_sub_of_le _ _ hfull, hbits]
      rfl
    have hwhole : ((acc.buf <<< 6) ||| UInt32.ofNat v).toNat <
        2 ^ (8 + (acc.bits + 6 - 8).toNat) := by
      have hfits : acc.buf.toNat * 2 ^ 6 + v < 2 ^ (acc.bits.toNat + 6) := h.buf_push hv
      have hsum : 8 + (acc.bits.toNat + 6 - 8) = acc.bits.toNat + 6 :=
        Nat.add_sub_cancel' (hcount.mp hfull)
      rwa [hbuf, hleft, hsum]
    rw [Accumulator.take, if_pos hfull, Queue.push, if_pos (hcount.mp hfull)]
    apply Queue.ext
    · exact (and_mask _ (by omega)).trans (by rw [hbuf, hleft]; rfl)
    · exact hleft
    · change (acc.out ++ [_]).map UInt8.toNat = acc.out.map UInt8.toNat ++ [_]
      rw [List.map_append, List.map_singleton, shiftRight_byte (by omega) hwhole, hbuf, hleft]
      rfl
  · rw [Accumulator.take, if_neg hfull, Queue.push, if_neg (mt hcount.mpr hfull)]
    exact Queue.ext hbuf hbits rfl

theorem held_take (h : Holds 6 8 digits acc.queue) (hv : v < 2 ^ 6) :
    Holds 6 8 (digits ++ [v]) (acc.take (UInt32.ofNat v)).queue := by
  rw [take_queue h hv]
  exact h.push (by decide) hv

end

/-! ## The loop -/

/-- The digits of the input, without what is skipped. -/
def digitsOf (input : Bytes) : List ℕ := input.filterMap alphabet.idxOf?

theorem digitsOf_nil : digitsOf [] = [] := rfl

theorem accumulate_snoc (input : Bytes) (c : UInt8) : accumulate (input ++ [c]) =
    accumulate input >>= fun acc => decodeStep acc c := by
  rw [accumulate, List.foldlM_append, ← accumulate]
  congr
  funext acc
  exact List.foldlM_cons.trans (bind_pure _)

/-- One byte: nothing or one digit. -/
theorem decodeStep_ok {acc acc' : Accumulator} {c : UInt8} (h : decodeStep acc c = .ok acc') :
    alphabet.idxOf? c = none ∧ acc' = acc ∨
      ∃ v, alphabet.idxOf? c = some v ∧ acc' = acc.take (UInt32.ofNat v) := by
  rw [decodeStep_eq] at h
  by_cases hskip : isSkipped c = true
  · rw [if_pos hskip] at h
    cases h
    exact .inl ⟨idxOf?_skipped hskip, rfl⟩
  · rw [if_neg hskip] at h
    cases hdigit : alphabet.idxOf? c with
    | none =>
        rw [hdigit] at h
        cases h
    | some v =>
        rw [hdigit] at h
        cases h
        exact .inr ⟨v, rfl, rfl⟩

theorem decodeStep_isOk (acc : Accumulator) (c : UInt8) :
    (decodeStep acc c).isOk = isAllowed c := by
  rw [decodeStep_eq, isAllowed]
  by_cases hskip : isSkipped c = true
  · rw [if_pos hskip, hskip]
    rfl
  · rw [if_neg hskip, Bool.eq_false_of_not_eq_true hskip, Bool.false_or]
    cases hdigit : alphabet.idxOf? c with
    | none =>
        have hmem : alphabet.contains c = false := by simpa using List.idxOf?_eq_none_iff.mp hdigit
        exact hmem.symm
    | some v =>
        have hmem : c ∈ alphabet := List.isSome_idxOf?.mp (by rw [hdigit]; rfl)
        exact (List.contains_iff_mem.mpr hmem).symm

/-- Everything that was read is in the output or in the accumulator. -/
theorem accumulate_holds {input : Bytes} {acc : Accumulator} (h : accumulate input = .ok acc) :
    Holds 6 8 (digitsOf input) acc.queue := by
  induction input using List.reverseRecOn generalizing acc with
  | nil =>
      cases h
      exact holds_empty (by decide)
  | append_singleton input c ih =>
      rw [accumulate_snoc] at h
      cases hold : accumulate input with
      | error e =>
          rw [hold] at h
          cases h
      | ok old =>
          rw [hold] at h
          have hheld := ih hold
          rw [digitsOf, List.filterMap_append, List.filterMap_cons]
          rcases decodeStep_ok h with ⟨hnone, rfl⟩ | ⟨v, hdigit, rfl⟩
          · rw [hnone, List.filterMap_nil, List.append_nil]
            exact hheld
          · rw [hdigit]
            exact held_take hheld (idxOf?_lt hdigit)

/-- Rejected as soon as one byte is. -/
theorem accumulate_isOk (input : Bytes) : (accumulate input).isOk = input.all isAllowed := by
  induction input using List.reverseRecOn with
  | nil => rfl
  | append_singleton input c ih =>
      rw [accumulate_snoc, List.all_append, ← ih]
      cases accumulate input with
      | error e => rfl
      | ok acc =>
          change (decodeStep acc c).isOk = _
          rw [decodeStep_isOk, List.all_cons, List.all_nil, Bool.and_true]
          rfl

/-- Digits that spell some bytes up to padding decode to these. -/
theorem decodeB64_of_digits {input bytes : Bytes} {pad : ℕ}
    (hallowed : input.all isAllowed = true) (hpad : pad < 8)
    (hlength : 6 * (digitsOf input).length = 8 * bytes.length + pad)
    (hvalue : number (2 ^ 6) (digitsOf input) =
      number (2 ^ 8) (bytes.map UInt8.toNat) * 2 ^ pad) : decodeB64 input = .ok bytes := by
  rw [← accumulate_isOk] at hallowed
  cases hacc : accumulate input with
  | error e =>
      rw [hacc] at hallowed
      cases hallowed
  | ok acc =>
      have hout : acc.out.map UInt8.toNat = bytes.map UInt8.toNat := by
        apply (accumulate_holds hacc).out_eq hpad _ _ hvalue
        · intro d hd
          obtain ⟨b, -, rfl⟩ := List.mem_map.mp hd
          exact b.toNat_lt
        · rw [hlength, List.length_map]
      have hbytes : acc.out = bytes :=
        List.map_injective_iff.mpr (fun a b h => UInt8.toNat_inj.mp h) hout
      rw [decodeB64, hacc, ← hbytes]
      rfl

/-! ## Encoded bytes -/

/-- The base64 text, as the bytes of its characters. -/
def b64Bytes (bytes : Bytes) : Bytes := (b64encode bytes).map fun c => UInt8.ofNat c.val

theorem idxOf?_digit {n : ℕ} (h : n < 64) :
    alphabet.idxOf? (UInt8.ofNat (b64Digit n).val) = some n := by
  have hall : ∀ n < 64, codes.idxOf? (UInt8.ofNat (b64Digit n).val).toNat = some n := by
    decide +kernel
  rw [idxOf?_codes, hall n h]

theorem digitsOf_digit {n : ℕ} (h : n < 64) (input : Bytes) :
    digitsOf (UInt8.ofNat (b64Digit n).val :: input) = n :: digitsOf input := by
  rw [digitsOf, List.filterMap_cons, idxOf?_digit h]
  rfl

theorem digitsOf_pad (input : Bytes) :
    digitsOf (UInt8.ofNat b64Pad.val :: input) = digitsOf input := by
  have hnone : alphabet.idxOf? (UInt8.ofNat b64Pad.val) = none := idxOf?_skipped (by decide)
  rw [digitsOf, List.filterMap_cons, hnone]
  rfl

/-- The encoder's digits spell the bytes, followed by padding bits. -/
theorem b64encode_digits (bytes : Bytes) : ∃ pad < 8,
    6 * (digitsOf (b64Bytes bytes)).length = 8 * bytes.length + pad ∧
      number (2 ^ 6) (digitsOf (b64Bytes bytes)) =
        number (2 ^ 8) (bytes.map UInt8.toNat) * 2 ^ pad := by
  unfold b64Bytes
  fun_induction b64encode bytes with
  | case1 => exact ⟨0, by decide, rfl, rfl⟩
  | case2 a n =>
      have ha := a.toNat_lt
      refine ⟨4, by decide, ?_⟩
      simp only [List.map_cons, List.map_nil, digitsOf_digit (show n / 64 < 64 by omega),
        digitsOf_digit (show n % 64 < 64 by omega), digitsOf_pad, digitsOf_nil,
        List.length_cons, List.length_nil, number_cons, number_nil]
      norm_num
      omega
  | case3 a b n =>
      have ha := a.toNat_lt
      have hb := b.toNat_lt
      refine ⟨2, by decide, ?_⟩
      simp only [List.map_cons, List.map_nil, digitsOf_digit (show n / 4096 < 64 by omega),
        digitsOf_digit (show n / 64 % 64 < 64 by omega),
        digitsOf_digit (show n % 64 < 64 by omega), digitsOf_pad, digitsOf_nil,
        List.length_cons, List.length_nil, number_cons, number_nil]
      norm_num
      omega
  | case4 a b c rest n ih =>
      have ha := a.toNat_lt
      have hb := b.toNat_lt
      have hc := c.toNat_lt
      obtain ⟨pad, hpad, hlength, hvalue⟩ := ih
      refine ⟨pad, hpad, ?_⟩
      simp only [List.map_cons, digitsOf_digit (show n / 262144 < 64 by omega),
        digitsOf_digit (show n / 4096 % 64 < 64 by omega),
        digitsOf_digit (show n / 64 % 64 < 64 by omega),
        digitsOf_digit (show n % 64 < 64 by omega), List.length_cons, number_cons,
        List.length_map]
      generalize digitsOf ((b64encode rest).map fun c => UInt8.ofNat c.val) = digits
        at hlength hvalue ⊢
      refine ⟨by omega, ?_⟩
      have hwidth : ((2 : ℕ) ^ 6) ^ digits.length = (2 ^ 8) ^ rest.length * 2 ^ pad := by
        rw [← pow_mul, ← pow_mul, ← pow_add, ← hlength]
      have hquad :
          n / 262144 * 64 ^ 3 + n / 4096 % 64 * 64 ^ 2 + n / 64 % 64 * 64 + n % 64 = n := by
        omega
      calc _ = (n / 262144 * 64 ^ 3 + n / 4096 % 64 * 64 ^ 2 + n / 64 % 64 * 64 + n % 64) *
            (2 ^ 6) ^ digits.length + number (2 ^ 6) digits := by ring
        _ = n * ((2 ^ 8) ^ rest.length * 2 ^ pad) +
            number (2 ^ 8) (rest.map UInt8.toNat) * 2 ^ pad := by rw [hquad, hwidth, hvalue]
        _ = _ := by
            simp only [n]
            ring

theorem b64Bytes_allowed (bytes : Bytes) : (b64Bytes bytes).all isAllowed = true := by
  rw [b64Bytes, List.all_map, List.all_eq_true]
  have hdigit (n : ℕ) (h : n < 64) : isAllowed (UInt8.ofNat (b64Digit n).val) = true := by
    have hmem := List.isSome_idxOf?.mp (Option.isSome_iff_exists.mpr ⟨n, idxOf?_digit h⟩)
    rw [isAllowed, List.contains_iff_mem.mpr hmem, Bool.or_true]
  have hpad : isAllowed (UInt8.ofNat b64Pad.val) = true := by
    rw [isAllowed, show isSkipped (UInt8.ofNat b64Pad.val) = true by decide, Bool.true_or]
  exact b64encode_forall (P := fun c => isAllowed (UInt8.ofNat c.val) = true) hdigit hpad bytes

theorem decodeB64_b64Bytes (bytes : Bytes) : decodeB64 (b64Bytes bytes) = .ok bytes := by
  obtain ⟨pad, hpad, hlength, hvalue⟩ := b64encode_digits bytes
  exact decodeB64_of_digits (b64Bytes_allowed bytes) hpad hlength hvalue

/-! ## A PEM text -/

inductive Eol
  | lf
  | crlf
deriving DecidableEq

def Eol.chars : Eol → List Char
  | .lf => ['\n']
  | .crlf => ['\r', '\n']

def b64Chars (bytes : Bytes) : List Char := (b64Bytes bytes).map asciiChar

/-- Some text without a BEGIN or END line, a BEGIN line, the base64 text broken
into lines, and from an END line on whatever follows. -/
structure PemText (der : Bytes) where
  before : List Char
  complete : before = [] ∨ ∃ text, before = text ++ ['\n']
  plain : ∀ line ∈ lines before, isBegin line = false ∧ isEnd line = false
  label : List Char
  oneLine : '\n' ∉ label
  labelEol : Eol
  body : List (List Char × Eol)
  nonempty : ∀ piece ∈ body, piece.1 ≠ []
  content : body.flatMap Prod.fst = b64Chars der
  after : List Char

def PemText.text {der : Bytes} (p : PemText der) : List Char :=
  p.before ++ ("-----BEGIN".toList ++ p.label ++ p.labelEol.chars) ++
    p.body.flatMap (fun piece => piece.1 ++ piece.2.chars) ++ ("-----END".toList ++ p.after)

/-! ### Its lines -/

theorem linesFrom_text {text : List Char} (h : '\n' ∉ text) (line rest : List Char) :
    linesFrom line (text ++ rest) = linesFrom (line ++ text) rest := by
  induction text generalizing line with
  | nil => rw [List.nil_append, List.append_nil]
  | cons c text ih =>
      obtain ⟨hc, htext⟩ := not_or.mp (mt List.mem_cons.mpr h)
      rw [List.cons_append, linesFrom, if_neg (Ne.symm hc), ih htext, List.append_assoc,
        List.singleton_append]

theorem lines_break {text : List Char} (h : '\n' ∉ text) (rest : List Char) :
    lines (text ++ '\n' :: rest) = stripCr text :: lines rest := by
  rw [lines, linesFrom_text h, linesFrom, if_pos rfl]
  rfl

theorem stripCr_plain {line : List Char} (h : '\r' ∉ line) : stripCr line = line := by
  rw [stripCr, if_neg]
  exact fun hlast => h (List.mem_of_getLast? hlast)

theorem stripCr_cr (line : List Char) : stripCr (line ++ ['\r']) = line := by
  rw [stripCr, List.getLast?_concat, if_pos rfl, List.dropLast_concat]

/-- Stripping leaves the start of a line. -/
theorem isPrefixOf_stripCr {start : List Char} (hcr : '\r' ∉ start) (text : List Char) :
    start.isPrefixOf (stripCr (start ++ text)) = true := by
  rw [List.isPrefixOf_iff_prefix]
  cases text using List.reverseRecOn with
  | nil => rw [List.append_nil, stripCr_plain hcr]
  | append_singleton text c =>
      rw [← List.append_assoc]
      by_cases hc : c = '\r'
      · rw [hc, stripCr_cr]
        exact List.prefix_append ..
      · rw [stripCr, List.getLast?_concat, if_neg (by simpa using hc), List.append_assoc]
        exact List.prefix_append ..

/-- A line with its end, whatever follows. -/
theorem lines_eol {line : List Char} (hnl : '\n' ∉ line) (hcr : '\r' ∉ line) (eol : Eol)
    (rest : List Char) : lines (line ++ eol.chars ++ rest) = line :: lines rest := by
  cases eol with
  | lf =>
      rw [Eol.chars, List.append_assoc, List.singleton_append, lines_break hnl, stripCr_plain hcr]
  | crlf =>
      have htext : line ++ Eol.crlf.chars ++ rest = (line ++ ['\r']) ++ '\n' :: rest := by
        simp [Eol.chars]
      rw [htext, lines_break (by simp [hnl]), stripCr_cr]

/-- A line feed ends a line wherever it stands. -/
theorem linesFrom_append (line text rest : List Char) :
    linesFrom line (text ++ '\n' :: rest) = linesFrom line (text ++ ['\n']) ++ lines rest := by
  induction text generalizing line with
  | nil => rfl
  | cons c text ih =>
      rw [List.cons_append, List.cons_append, linesFrom, linesFrom]
      by_cases hc : c = '\n'
      · rw [if_pos hc, if_pos hc, ih, List.cons_append]
      · rw [if_neg hc, if_neg hc, ih]

theorem lines_append {before : List Char}
    (h : before = [] ∨ ∃ text, before = text ++ ['\n']) (rest : List Char) :
    lines (before ++ rest) = lines before ++ lines rest := by
  rcases h with rfl | ⟨text, rfl⟩
  · rfl
  · rw [List.append_assoc, List.singleton_append, lines, linesFrom_append]
    rfl

/-- The BEGIN line. -/
theorem lines_begin {label : List Char} (h : '\n' ∉ label) (eol : Eol) (rest : List Char) :
    ∃ line, isBegin line = true ∧
      lines ("-----BEGIN".toList ++ label ++ eol.chars ++ rest) = line :: lines rest := by
  have hstart : '\n' ∉ "-----BEGIN".toList ∧ '\r' ∉ "-----BEGIN".toList := by decide
  cases eol with
  | lf =>
      refine ⟨_, isPrefixOf_stripCr hstart.2 label, ?_⟩
      have htext : "-----BEGIN".toList ++ label ++ Eol.lf.chars ++ rest =
          ("-----BEGIN".toList ++ label) ++ '\n' :: rest := by simp [Eol.chars]
      rw [htext, lines_break (by simp only [List.mem_append, not_or]; exact ⟨hstart.1, h⟩)]
  | crlf =>
      refine ⟨_, isPrefixOf_stripCr hstart.2 (label ++ ['\r']), ?_⟩
      have htext : "-----BEGIN".toList ++ label ++ Eol.crlf.chars ++ rest =
          ("-----BEGIN".toList ++ (label ++ ['\r'])) ++ '\n' :: rest := by simp [Eol.chars]
      rw [htext, lines_break]
      simp only [List.mem_append, not_or, List.mem_singleton]
      exact ⟨hstart.1, h, by decide⟩

/-- The END line, with whatever is on it or after it. -/
theorem lines_end (after : List Char) : ∃ line rest, isEnd line = true ∧
    lines ("-----END".toList ++ after) = line :: rest := by
  have hstart : '\n' ∉ "-----END".toList ∧ '\r' ∉ "-----END".toList := by decide
  have hfrom (line : List Char) : ∃ first rest, isEnd first = true ∧
      linesFrom ("-----END".toList ++ line) after = first :: rest := by
    induction after generalizing line with
    | nil =>
        exact ⟨_, [], List.isPrefixOf_iff_prefix.mpr (List.prefix_append ..), rfl⟩
    | cons c after ih =>
        rw [linesFrom]
        by_cases hc : c = '\n'
        · rw [if_pos hc]
          exact ⟨_, _, isPrefixOf_stripCr hstart.2 line, rfl⟩
        · rw [if_neg hc, List.append_assoc]
          exact ih (line ++ [c])
  rw [lines, linesFrom_text hstart.1, List.nil_append]
  have hlines := hfrom []
  rwa [List.append_nil] at hlines

/-! ### What is collected -/

theorem blockBytes_plain {before : List (List Char)}
    (h : ∀ line ∈ before, isBegin line = false ∧ isEnd line = false) (rest : List (List Char)) :
    blockBytes false (before ++ rest) = blockBytes false rest := by
  induction before with
  | nil => rfl
  | cons line before ih =>
      obtain ⟨⟨hbegin, hend⟩, hbefore⟩ := List.forall_mem_cons.mp h
      rw [List.cons_append, blockBytes, hbegin, hend]
      exact ih hbefore

/-- A character that neither starts a boundary nor ends or pads a line. -/
def isPlain (c : Char) : Bool := c ≠ '-' && !isWhitespace c

theorem b64Chars_plain (bytes : Bytes) : ∀ c ∈ b64Chars bytes, isPlain c = true := by
  intro c hc
  obtain ⟨b, hb, rfl⟩ := List.mem_map.mp hc
  obtain ⟨d, hd, rfl⟩ := List.mem_map.mp hb
  have hdigit : ∀ n < 64, isPlain (asciiChar (UInt8.ofNat (b64Digit n).val)) = true := by
    decide +kernel
  have hpad : isPlain (asciiChar (UInt8.ofNat b64Pad.val)) = true := by decide +kernel
  exact b64encode_forall (P := fun d => isPlain (asciiChar (UInt8.ofNat d.val)) = true) hdigit hpad
    bytes d hd

theorem encodeUtf8_b64Chars (bytes : Bytes) : encodeUtf8 (b64Chars bytes) = b64Bytes bytes := by
  have hascii : ∀ b ∈ b64Bytes bytes, b.toNat < 128 := by
    intro b hb
    obtain ⟨d, hd, rfl⟩ := List.mem_map.mp hb
    have hdigit : ∀ n < 64, (UInt8.ofNat (b64Digit n).val).toNat < 128 := by decide +kernel
    exact b64encode_forall (P := fun d => (UInt8.ofNat d.val).toNat < 128) hdigit (by decide)
      bytes d hd
  rw [encodeUtf8, b64Chars, List.flatMap_map]
  calc (b64Bytes bytes).flatMap (fun b => String.utf8EncodeChar (asciiChar b))
      = (b64Bytes bytes).flatMap fun b => [b] :=
        List.flatMap_congr fun b hb => utf8EncodeChar_ascii (hascii b hb)
    _ = b64Bytes bytes := by simp

section
variable {line : List Char} (h : ∀ c ∈ line, isPlain c = true)

include h

theorem not_mem_plain {c : Char} (hc : isPlain c = false) : c ∉ line := fun hmem => by
  have hplain := h c hmem
  rw [hc] at hplain
  cases hplain

theorem isBoundary_plain : isBegin line = false ∧ isEnd line = false := by
  cases line with
  | nil => decide
  | cons c line =>
      have hc : ('-' == c) = false := by
        have hplain := h c List.mem_cons_self
        simp only [isPlain, Bool.and_eq_true, decide_eq_true_eq] at hplain
        exact beq_false_of_ne (Ne.symm hplain.1)
      have hbegin : "-----BEGIN".toList = '-' :: "----BEGIN".toList := by decide
      have hend : "-----END".toList = '-' :: "----END".toList := by decide
      rw [isBegin, isEnd, hbegin, hend, List.isPrefixOf_cons_cons, List.isPrefixOf_cons_cons, hc]
      exact ⟨rfl, rfl⟩

theorem trim_plain : trim line = line := by
  have hspace : ∀ c ∈ line, isWhitespace c = false := by
    intro c hc
    have hplain := h c hc
    simp only [isPlain, Bool.and_eq_true, Bool.not_eq_true'] at hplain
    exact hplain.2
  have hdrop {text : List Char} (htext : ∀ c ∈ text, isWhitespace c = false) :
      text.dropWhile isWhitespace = text := by
    cases text with
    | nil => rfl
    | cons c text => rw [List.dropWhile_cons_of_neg (by simp [htext c List.mem_cons_self])]
  rw [trim, hdrop hspace, hdrop fun c hc => hspace c (List.mem_reverse.mp hc), List.reverse_reverse]

end

theorem lines_body {body : List (List Char × Eol)}
    (h : ∀ c ∈ body.flatMap Prod.fst, isPlain c = true) (rest : List Char) :
    lines (body.flatMap (fun piece => piece.1 ++ piece.2.chars) ++ rest) =
      body.map Prod.fst ++ lines rest := by
  induction body with
  | nil => rfl
  | cons piece body ih =>
      rw [List.flatMap_cons] at h
      have hpiece : ∀ c ∈ piece.1, isPlain c = true := fun c hc => h c (List.mem_append_left _ hc)
      rw [List.flatMap_cons, List.append_assoc, List.map_cons, List.cons_append,
        lines_eol (not_mem_plain hpiece (by decide)) (not_mem_plain hpiece (by decide)),
        ih fun c hc => h c (List.mem_append_right _ hc)]

theorem blockBytes_body {body : List (List Char × Eol)}
    (h : ∀ c ∈ body.flatMap Prod.fst, isPlain c = true) {stop : List Char}
    (hstop : isEnd stop = true) (hbegin : isBegin stop = false) (rest : List (List Char)) :
    blockBytes true (body.map Prod.fst ++ stop :: rest) = encodeUtf8 (body.flatMap Prod.fst) := by
  induction body with
  | nil =>
      rw [List.map_nil, List.nil_append, blockBytes, hbegin, hstop]
      rfl
  | cons piece body ih =>
      rw [List.flatMap_cons] at h
      have hpiece : ∀ c ∈ piece.1, isPlain c = true := fun c hc => h c (List.mem_append_left _ hc)
      obtain ⟨hb, he⟩ := isBoundary_plain hpiece
      rw [List.map_cons, List.cons_append, blockBytes, hb, he, trim_plain hpiece, List.flatMap_cons]
      simp only [Bool.false_eq_true, if_false, if_true]
      rw [ih fun c hc => h c (List.mem_append_right _ hc), encodeUtf8, encodeUtf8, encodeUtf8,
        List.flatMap_append]

/-- A line does not start both ways. -/
theorem isBegin_of_isEnd {line : List Char} (h : isEnd line = true) : isBegin line = false := by
  rw [isEnd, List.isPrefixOf_iff_prefix] at h
  obtain ⟨text, rfl⟩ := h
  rfl

theorem PemText.blockBytes_eq {der : Bytes} (p : PemText der) :
    blockBytes false (lines p.text) = b64Bytes der := by
  have hplain : ∀ c ∈ p.body.flatMap Prod.fst, isPlain c = true := by
    rw [p.content]
    exact b64Chars_plain der
  have htext : p.text = p.before ++ ("-----BEGIN".toList ++ p.label ++ p.labelEol.chars ++
      (p.body.flatMap (fun piece => piece.1 ++ piece.2.chars) ++
        ("-----END".toList ++ p.after))) := by
    rw [PemText.text, List.append_assoc, List.append_assoc]
  obtain ⟨start, hstart, hbegin⟩ := lines_begin p.oneLine p.labelEol
    (p.body.flatMap (fun piece => piece.1 ++ piece.2.chars) ++ ("-----END".toList ++ p.after))
  obtain ⟨stop, rest, hstop, hend⟩ := lines_end p.after
  rw [htext, lines_append p.complete, hbegin, blockBytes_plain p.plain, blockBytes, if_pos hstart,
    lines_body hplain, hend, blockBytes_body hplain hstop (isBegin_of_isEnd hstop), p.content,
    encodeUtf8_b64Chars]

theorem pemToDer_text {der : Bytes} (p : PemText der) : pemToDer p.text = .ok der := by
  rw [pemToDer, p.blockBytes_eq, decodeB64_b64Bytes]

/-! ## The decoder as a whole -/

/-- The next digit fits into the accumulator, and of the digits so far every bit
is in the output or still in the accumulator. -/
structure Lossless (input : Bytes) (acc : Accumulator) : Prop where
  buf : ∀ v < 2 ^ 6,
    ((acc.buf <<< 6) ||| UInt32.ofNat v).toNat = acc.buf.toNat * 2 ^ 6 + v
  bits : (acc.bits + 6).toNat = acc.bits.toNat + 6
  held : Holds 6 8 (digitsOf input) acc.queue

theorem lossless_of_accumulate {input : Bytes} {acc : Accumulator}
    (h : accumulate input = .ok acc) : Lossless input acc where
  buf _ hv := or_held (accumulate_holds h) hv
  bits := bits_held (accumulate_holds h)
  held := accumulate_holds h

def skippedBytes : Bytes := ascii "=\r\n "

theorem isAllowed_eq_false {c : UInt8} :
    isAllowed c = false ↔ c ∉ alphabet ∧ c ∉ skippedBytes := by
  have hskipped : skippedBytes = ['='.toUInt8, '\r'.toUInt8, '\n'.toUInt8, ' '.toUInt8] := by
    decide +kernel
  rw [isAllowed, Bool.or_eq_false_iff, hskipped, and_comm]
  simp [isSkipped, and_assoc]

theorem decodeB64_error_iff (input : Bytes) :
    (∃ e, decodeB64 input = .error e) ↔ ∃ c ∈ input, c ∉ alphabet ∧ c ∉ skippedBytes := by
  have hall := accumulate_isOk input
  have herror : (∃ e, decodeB64 input = .error e) ↔ (accumulate input).isOk = false := by
    rw [decodeB64]
    cases accumulate input with
    | error e => exact ⟨fun _ => rfl, fun _ => ⟨e, rfl⟩⟩
    | ok acc =>
        constructor
        · rintro ⟨e, he⟩
          cases he
        · intro h
          cases h
  rw [herror, hall, List.all_eq_false]
  simp only [Bool.not_eq_true, isAllowed_eq_false]

theorem decodes : (∀ der (p : PemText der), pemToDer p.text = .ok der) ∧
    ∀ input, (∀ acc, accumulate input = .ok acc → Lossless input acc) ∧
      ((∃ e, decodeB64 input = .error e) ↔ ∃ c ∈ input, c ∉ alphabet ∧ c ∉ skippedBytes) :=
  ⟨fun _ p => pemToDer_text p,
    fun input => ⟨fun _ h => lossless_of_accumulate h, decodeB64_error_iff input⟩⟩

/-- Four bytes on two lines, with a note before and after. -/
def noted : PemText (ascii "root") where
  before := "a note\n".toList
  complete := .inr ⟨"a note".toList, by decide⟩
  plain := by decide
  label := " CERTIFICATE-----".toList
  oneLine := by decide
  labelEol := .crlf
  body := [("cm9".toList, .crlf), ("vdA==".toList, .lf)]
  nonempty := by decide
  content := by decide +kernel
  after := " CERTIFICATE-----\nand more".toList

theorem decodes_noted : pemToDer noted.text = .ok (ascii "root") ∧
    Lossless (ascii "cm9vd") ⟨29, 6, ascii "roo"⟩ :=
  ⟨decodes.1 _ noted, (decodes.2 _).1 _ (by decide +kernel)⟩

end Xlpod.PemFile
