import Xlpod.JsonStrings
import Xlpod.Library.Substring

/-!
# Text as bytes

UTF-8 is the one of the core library. A word of ASCII bytes occurs in an
encoded text exactly where its characters occur in the text, since no byte of
a longer sequence is below 128.

Base64 follows the encoder and the lenient decoder of Python's `base64`
module: characters outside the alphabet are skipped, the first complete
padding ends the input, and an incomplete quantum is an error.
-/
namespace Xlpod.ByteEncodings
open Xlpod.JsonText Xlpod.Substring

abbrev Bytes := List UInt8

/-! ## UTF-8 -/

def encodeUtf8 (text : List Char) : Bytes := text.flatMap String.utf8EncodeChar

def decodeUtf8 (bytes : Bytes) : Option (List Char) :=
  bytes.toByteArray.utf8Decode?.map Array.toList

theorem decodeUtf8_encodeUtf8 (text : List Char) : decodeUtf8 (encodeUtf8 text) = some text := by
  have h : (encodeUtf8 text).toByteArray.utf8Decode? = some text.toArray :=
    List.utf8Decode?_utf8Encode
  simp [decodeUtf8, h]

/-- The bytes of a string constant. -/
def ascii (s : String) : Bytes := encodeUtf8 s.toList

/-- The character of an ASCII byte. -/
def asciiChar (b : UInt8) : Char := Char.ofNat b.toNat

theorem asciiChar_toNat (b : UInt8) : (asciiChar b).toNat = b.toNat := by
  have hv : b.toNat.isValidChar := .inl (Nat.lt_trans b.toNat_lt (by decide))
  rw [asciiChar, Char.ofNat, dif_pos hv]
  rfl

theorem utf8EncodeChar_ascii {b : UInt8} (h : b.toNat < 128) :
    String.utf8EncodeChar (asciiChar b) = [b] := by
  have hn : (asciiChar b).val.toNat = b.toNat := asciiChar_toNat b
  unfold String.utf8EncodeChar
  simp only [hn]
  rw [if_pos (by omega), UInt8.ofNat_toNat]

/-- A byte below 128 is the whole encoding of its character. -/
theorem utf8EncodeChar_low {c : Char} {b : UInt8} (hb : b.toNat < 128)
    (h : b ∈ String.utf8EncodeChar c) : c = asciiChar b := by
  have hc : c.val.toNat < 0x110000 := by
    rcases c.valid with hv | hv <;> omega
  unfold String.utf8EncodeChar at h
  simp only at h
  split_ifs at h with h1 h2 h3
  · rw [List.mem_singleton] at h
    have hv : b.toNat = c.toNat := by
      rw [h, UInt8.toNat_ofNat', Nat.mod_eq_of_lt (by omega)]
      rfl
    rw [asciiChar, hv, Char.ofNat_toNat]
  -- Lead bytes and continuation bytes are at least 128.
  all_goals
    simp only [List.mem_cons, List.not_mem_nil, or_false] at h
    exfalso
  · rcases h with rfl | rfl <;> rw [UInt8.toNat_ofNat'] at hb <;> omega
  · rcases h with rfl | rfl | rfl <;> rw [UInt8.toNat_ofNat'] at hb <;> omega
  · rcases h with rfl | rfl | rfl | rfl <;> rw [UInt8.toNat_ofNat'] at hb <;> omega

theorem ascii_plain {word : Bytes} (h : ∀ b ∈ word, b.toNat < 128) :
    Plain String.utf8EncodeChar asciiChar word where
  self b hb := utf8EncodeChar_ascii (h b hb)
  only b hb _ hc := utf8EncodeChar_low (h b hb) hc
  nonempty c := by
    unfold String.utf8EncodeChar
    simp only
    split_ifs <;> simp

/-- An ASCII word occurs in the bytes where its characters occur in the text. -/
theorem infix_encodeUtf8 {word : Bytes} (h : ∀ b ∈ word, b.toNat < 128) (hne : word ≠ [])
    (text : List Char) : word <:+: encodeUtf8 text ↔ word.map asciiChar <:+: text :=
  infix_flatMap (ascii_plain h) hne text

/-! ## Base64 -/

/-- The character of a six-bit value. -/
def b64Digit (n : ℕ) : CodePoint :=
  if n < 26 then codePoint (65 + n)
  else if n < 52 then codePoint (97 + (n - 26))
  else if n < 62 then codePoint (48 + (n - 52))
  else if n = 62 then codePoint 43
  else codePoint 47

def b64Value (c : CodePoint) : Option ℕ :=
  if 65 ≤ c.val ∧ c.val ≤ 90 then some (c.val - 65)
  else if 97 ≤ c.val ∧ c.val ≤ 122 then some (c.val - 97 + 26)
  else if 48 ≤ c.val ∧ c.val ≤ 57 then some (c.val - 48 + 52)
  else if c.val = 43 then some 62
  else if c.val = 47 then some 63
  else none

def b64Pad : CodePoint := codePoint 61

def b64encode : Bytes → Text
  | [] => []
  | [a] =>
      let n := a.toNat * 16
      [b64Digit (n / 64), b64Digit (n % 64), b64Pad, b64Pad]
  | [a, b] =>
      let n := (a.toNat * 256 + b.toNat) * 4
      [b64Digit (n / 4096), b64Digit (n / 64 % 64), b64Digit (n % 64), b64Pad]
  | a :: b :: c :: rest =>
      let n := (a.toNat * 256 + b.toNat) * 256 + c.toNat
      b64Digit (n / 262144) :: b64Digit (n / 4096 % 64) :: b64Digit (n / 64 % 64) ::
        b64Digit (n % 64) :: b64encode rest

/-- The decoder's loop: characters of the current quantum, the bits left over
from them, and padding characters seen since the last one. -/
def b64Scan (quad left pads : ℕ) : Text → Option Bytes
  | [] => if quad = 0 then some [] else none
  | c :: cs =>
      if c = b64Pad then
        if 2 ≤ quad ∧ 4 ≤ quad + (pads + 1) then some []
        else b64Scan quad left (if 2 ≤ quad then pads + 1 else pads) cs
      else match b64Value c with
        | none => b64Scan quad left pads cs
        | some v =>
            match quad with
            | 0 => b64Scan 1 v 0 cs
            | 1 => (b64Scan 2 (v % 16) 0 cs).map (UInt8.ofNat (left * 4 + v / 16) :: ·)
            | 2 => (b64Scan 3 (v % 4) 0 cs).map (UInt8.ofNat (left * 16 + v / 4) :: ·)
            | _ => (b64Scan 0 0 0 cs).map (UInt8.ofNat (left * 64 + v) :: ·)

def b64decode (s : Text) : Option Bytes :=
  if s.all (·.val < 128) then b64Scan 0 0 0 s else none

theorem b64Value_b64Digit {n : ℕ} (h : n < 64) : b64Value (b64Digit n) = some n := by
  interval_cases n <;> decide

theorem b64Digit_ne_pad {n : ℕ} (h : n < 64) : b64Digit n ≠ b64Pad := by
  interval_cases n <;> decide

theorem b64Scan_digit {n : ℕ} (h : n < 64) (quad left pads : ℕ) (cs : Text) :
    b64Scan quad left pads (b64Digit n :: cs) =
      match quad with
      | 0 => b64Scan 1 n 0 cs
      | 1 => (b64Scan 2 (n % 16) 0 cs).map (UInt8.ofNat (left * 4 + n / 16) :: ·)
      | 2 => (b64Scan 3 (n % 4) 0 cs).map (UInt8.ofNat (left * 16 + n / 4) :: ·)
      | _ => (b64Scan 0 0 0 cs).map (UInt8.ofNat (left * 64 + n) :: ·) := by
  rw [b64Scan, if_neg (b64Digit_ne_pad h), b64Value_b64Digit h]

theorem b64Scan_pad (left : ℕ) (cs : Text) :
    b64Scan 2 left 0 (b64Pad :: b64Pad :: cs) = some [] ∧
      b64Scan 3 left 0 (b64Pad :: cs) = some [] := by
  refine ⟨?_, ?_⟩ <;> simp [b64Scan]

theorem b64Scan_b64encode (bytes : Bytes) : b64Scan 0 0 0 (b64encode bytes) = some bytes := by
  have hbyte (a : UInt8) {n : ℕ} (h : n = a.toNat) : UInt8.ofNat n = a := by
    rw [h, UInt8.ofNat_toNat]
  fun_induction b64encode bytes with
  | case1 => rfl
  | case2 a n =>
      have ha := a.toNat_lt
      simp only [b64Scan_digit (show n / 64 < 64 by omega),
        b64Scan_digit (show n % 64 < 64 by omega), (b64Scan_pad _ _).1, Option.map_some,
        hbyte a (show n / 64 * 4 + n % 64 / 16 = a.toNat by omega)]
  | case3 a b n =>
      have ha := a.toNat_lt
      have hb := b.toNat_lt
      simp only [b64Scan_digit (show n / 4096 < 64 by omega),
        b64Scan_digit (show n / 64 % 64 < 64 by omega),
        b64Scan_digit (show n % 64 < 64 by omega), (b64Scan_pad _ _).2, Option.map_some,
        hbyte a (show n / 4096 * 4 + n / 64 % 64 / 16 = a.toNat by omega),
        hbyte b (show n / 64 % 64 % 16 * 16 + n % 64 / 4 = b.toNat by omega)]
  | case4 a b c rest n ih =>
      have ha := a.toNat_lt
      have hb := b.toNat_lt
      have hc := c.toNat_lt
      simp only [b64Scan_digit (show n / 262144 < 64 by omega),
        b64Scan_digit (show n / 4096 % 64 < 64 by omega),
        b64Scan_digit (show n / 64 % 64 < 64 by omega),
        b64Scan_digit (show n % 64 < 64 by omega), ih, Option.map_some,
        hbyte a (show n / 262144 * 4 + n / 4096 % 64 / 16 = a.toNat by omega),
        hbyte b (show n / 4096 % 64 % 16 * 16 + n / 64 % 64 / 4 = b.toNat by omega),
        hbyte c (show n / 64 % 64 % 4 * 64 + n % 64 = c.toNat by omega)]

/-- The encoder writes the alphabet and padding only. -/
theorem b64encode_forall {P : CodePoint → Prop} (hd : ∀ n < 64, P (b64Digit n)) (hp : P b64Pad)
    (bytes : Bytes) : ∀ c ∈ b64encode bytes, P c := by
  fun_induction b64encode bytes with
  | case1 => simp
  | case2 a n =>
      have ha := a.toNat_lt
      simp only [List.forall_mem_cons, List.not_mem_nil, false_implies, implies_true, and_true]
      exact ⟨hd _ (by omega), hd _ (by omega), hp, hp⟩
  | case3 a b n =>
      have ha := a.toNat_lt
      have hb := b.toNat_lt
      simp only [List.forall_mem_cons, List.not_mem_nil, false_implies, implies_true, and_true]
      exact ⟨hd _ (by omega), hd _ (by omega), hd _ (by omega), hp⟩
  | case4 a b c rest n ih =>
      have ha := a.toNat_lt
      have hb := b.toNat_lt
      have hc := c.toNat_lt
      simp only [List.forall_mem_cons]
      exact ⟨hd _ (by omega), hd _ (by omega), hd _ (by omega), hd _ (by omega), ih⟩

theorem b64decode_b64encode (bytes : Bytes) : b64decode (b64encode bytes) = some bytes := by
  have hall : (b64encode bytes).all (·.val < 128) = true := by
    rw [List.all_eq_true]
    exact b64encode_forall (P := fun c => decide (c.val < 128) = true) (by decide) (by decide) bytes
  rw [b64decode, if_pos hall, b64Scan_b64encode]

end Xlpod.ByteEncodings
