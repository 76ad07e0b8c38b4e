import Xlpod.Library.Substring
import Mathlib.Data.UInt

/-!
# NUL-terminated UTF-16 texts

A wide-character interface takes a text as sixteen-bit units and stops at the
first zero unit. Only the NUL character has a zero unit, so what is read is the
encoding of the text before its first NUL. An ASCII character is its own unit
and occurs in no other encoding, so ASCII words are found in the units where
they are found in the text.
-/
namespace Xlpod.WideStrings
open Xlpod.Substring

/-- One unit, or the surrogate pair of an astral character. -/
def utf16Units (c : Char) : List UInt16 :=
  if c.toNat < 0x10000 then [UInt16.ofNat c.toNat]
  else [UInt16.ofNat (0xD800 + (c.toNat - 0x10000) / 0x400),
    UInt16.ofNat (0xDC00 + (c.toNat - 0x10000) % 0x400)]

def encodeUtf16 (text : List Char) : List UInt16 := text.flatMap utf16Units

/-- What a reader of NUL-terminated units takes. -/
def untilNul (units : List UInt16) : List UInt16 := units.takeWhile (· != 0)

def beforeNul (text : List Char) : List Char := text.takeWhile (· != Char.ofNat 0)

theorem utf16Units_nonzero {c : Char} (h : c ≠ Char.ofNat 0) : ∀ u ∈ utf16Units c, u ≠ 0 := by
  have hpos : c.toNat ≠ 0 := fun hz => h (Char.toNat_inj.mp hz)
  have hlt : c.toNat < 0x110000 := by
    have := c.valid
    change c.toNat < 0xD800 ∨ (0xDFFF < c.toNat ∧ c.toNat < 0x110000) at this
    omega
  intro u hu hzero
  have hval : u.toNat = 0 := congrArg UInt16.toNat hzero
  unfold utf16Units at hu
  split_ifs at hu with hsmall
  · simp only [List.mem_singleton] at hu
    rw [hu, UInt16.toNat_ofNat'] at hval
    omega
  · simp only [List.mem_cons, List.not_mem_nil, or_false] at hu
    rcases hu with rfl | rfl <;> rw [UInt16.toNat_ofNat'] at hval <;> omega

theorem utf16Units_nul : utf16Units (Char.ofNat 0) = [0] := by decide

/-- A terminated text is read up to its first NUL. -/
theorem untilNul_encode (text : List Char) :
    untilNul (encodeUtf16 text ++ [0]) = encodeUtf16 (beforeNul text) := by
  induction text with
  | nil => rfl
  | cons c text ih =>
      have hsplit : encodeUtf16 (c :: text) ++ [0] =
          utf16Units c ++ (encodeUtf16 text ++ [0]) := by
        simp [encodeUtf16]
      rw [hsplit]
      by_cases hc : c = Char.ofNat 0
      · subst hc
        rw [utf16Units_nul]
        rfl
      · have hall : ∀ u ∈ utf16Units c, (u != 0) = true := fun u hu => by
          simpa using utf16Units_nonzero hc u hu
        have hkeep : beforeNul (c :: text) = c :: beforeNul text := by
          simp [beforeNul, hc]
        rw [untilNul, List.takeWhile_append_of_pos hall, hkeep]
        have hrest : List.takeWhile (· != 0) (encodeUtf16 text ++ [0]) =
            encodeUtf16 (beforeNul text) := ih
        rw [hrest]
        rfl

def IsAscii (c : Char) : Prop := c.toNat < 128

theorem utf16Units_ascii {c : Char} (h : IsAscii c) :
    utf16Units c = [UInt16.ofNat c.toNat] := by
  have hlt : c.toNat < 128 := h
  exact if_pos (by omega)

/-- The character of an ASCII unit. -/
def unitChar (u : UInt16) : Char := Char.ofNat u.toNat

theorem unitChar_ascii {c : Char} (h : IsAscii c) : unitChar (UInt16.ofNat c.toNat) = c := by
  have hlt : c.toNat < 128 := h
  have hmod : c.toNat % 2 ^ 16 = c.toNat := Nat.mod_eq_of_lt (by omega)
  rw [unitChar, UInt16.toNat_ofNat', hmod]
  exact Char.ofNat_toNat c

theorem utf16Units_low {c : Char} {u : UInt16} (hu : u.toNat < 128) (h : u ∈ utf16Units c) :
    c = unitChar u := by
  have hlt : c.toNat < 0x110000 := by
    have := c.valid
    change c.toNat < 0xD800 ∨ (0xDFFF < c.toNat ∧ c.toNat < 0x110000) at this
    omega
  unfold utf16Units at h
  split_ifs at h with hsmall
  · simp only [List.mem_singleton] at h
    subst h
    rw [UInt16.toNat_ofNat', Nat.mod_eq_of_lt (by omega)] at hu
    exact (unitChar_ascii hu).symm
  · simp only [List.mem_cons, List.not_mem_nil, or_false] at h
    rcases h with rfl | rfl <;> rw [UInt16.toNat_ofNat'] at hu <;> omega

theorem encodeUtf16_ascii {word : List Char} (h : ∀ c ∈ word, IsAscii c) :
    encodeUtf16 word = word.map fun c => UInt16.ofNat c.toNat := by
  induction word with
  | nil => rfl
  | cons c word ih =>
      rw [List.forall_mem_cons] at h
      have hword := ih h.2
      unfold encodeUtf16 at hword ⊢
      rw [List.flatMap_cons, utf16Units_ascii h.1, hword]
      rfl

theorem plain_ascii {word : List Char} (h : ∀ c ∈ word, IsAscii c) :
    Plain utf16Units unitChar (word.map fun c => UInt16.ofNat c.toNat) where
  self u hu := by
    obtain ⟨c, hc, rfl⟩ := List.mem_map.mp hu
    rw [unitChar_ascii (h c hc), utf16Units_ascii (h c hc)]
  only u hu c hc := by
    obtain ⟨d, hd, rfl⟩ := List.mem_map.mp hu
    have hlt : d.toNat < 128 := h d hd
    apply utf16Units_low _ hc
    rw [UInt16.toNat_ofNat', Nat.mod_eq_of_lt (by omega)]
    exact hlt
  nonempty c := by
    unfold utf16Units
    split_ifs <;> simp

/-- An ASCII word occurs in the units where it occurs in the text. -/
theorem infix_encodeUtf16 {word : List Char} (h : ∀ c ∈ word, IsAscii c) (hne : word ≠ [])
    (text : List Char) : encodeUtf16 word <:+: encodeUtf16 text ↔ word <:+: text := by
  have hchars : (word.map fun c => UInt16.ofNat c.toNat).map unitChar = word := by
    rw [List.map_map]
    calc word.map (unitChar ∘ fun c => UInt16.ofNat c.toNat)
        = word.map id := List.map_congr_left fun c hc => unitChar_ascii (h c hc)
      _ = word := List.map_id word
  have hfind := infix_flatMap (plain_ascii h) (by simpa using hne) text
  rw [hchars] at hfind
  rw [encodeUtf16_ascii h]
  exact hfind

end Xlpod.WideStrings
