import Mathlib.Data.Nat.Digits.Defs
import Mathlib.Tactic.Ring

/-!
# Regrouping digits through an accumulator

Narrow digits go in, the most significant first; as soon as a wide digit is
complete it comes out, and less than one wide digit is left over. What came out
and what is left over spell the number that went in, so two ways of regrouping
the same digits agree.
-/
namespace Xlpod.Regrouping

/-- The number of some digits, the most significant first. -/
def number (base : ℕ) (digits : List ℕ) : ℕ := Nat.ofDigits base digits.reverse

section
variable {base d : ℕ} {digits : List ℕ}

@[simp] theorem number_nil : number base [] = 0 := rfl

@[simp] theorem number_snoc : number base (digits ++ [d]) = number base digits * base + d := by
  rw [number, List.reverse_append, List.reverse_singleton, List.singleton_append, Nat.ofDigits_cons,
    number, Nat.mul_comm, Nat.add_comm]

@[simp] theorem number_cons :
    number base (d :: digits) = d * base ^ digits.length + number base digits := by
  rw [number, Nat.ofDigits_reverse_cons, number, Nat.mul_comm, Nat.add_comm]

/-- Digits are determined by their number. -/
theorem eq_of_number_eq {ds es : List ℕ} (hbase : 1 < base) (hlength : ds.length = es.length)
    (hds : ∀ d ∈ ds, d < base) (hes : ∀ d ∈ es, d < base) (h : number base ds = number base es) :
    ds = es := by
  refine List.reverse_inj.mp ?_
  apply Nat.ofDigits_inj_of_len_eq hbase
  · rw [List.length_reverse, List.length_reverse, hlength]
  · exact fun d hd => hds d (List.mem_reverse.mp hd)
  · exact fun d hd => hes d (List.mem_reverse.mp hd)
  · exact h

end

/-- The bits left over, how many they are, and the digits that came out. -/
@[ext] structure Queue where
  buf : ℕ
  bits : ℕ
  out : List ℕ

def Queue.empty : Queue := ⟨0, 0, []⟩

/-- One digit goes in. -/
def Queue.push (narrow wide : ℕ) (q : Queue) (v : ℕ) : Queue :=
  let buf := q.buf * 2 ^ narrow + v
  let bits := q.bits + narrow
  if wide ≤ bits then
    ⟨buf % 2 ^ (bits - wide), bits - wide, q.out ++ [buf / 2 ^ (bits - wide)]⟩
  else ⟨buf, bits, q.out⟩

/-- The queue after some digits: nothing of them is lost. -/
structure Holds (narrow wide : ℕ) (digits : List ℕ) (q : Queue) : Prop where
  bits : q.bits < wide
  buf : q.buf < 2 ^ q.bits
  out : ∀ d ∈ q.out, d < 2 ^ wide
  length : narrow * digits.length = wide * q.out.length + q.bits
  value : number (2 ^ narrow) digits = number (2 ^ wide) q.out * 2 ^ q.bits + q.buf

section
variable {narrow wide v : ℕ} {digits : List ℕ} {q : Queue}

theorem holds_empty (hwide : 0 < wide) : Holds narrow wide [] .empty :=
  ⟨hwide, Nat.one_pos, nofun, rfl, rfl⟩

/-- A digit enlarges the buffer by its own bits at most. -/
theorem Holds.buf_push (h : Holds narrow wide digits q) (hv : v < 2 ^ narrow) :
    q.buf * 2 ^ narrow + v < 2 ^ (q.bits + narrow) := by
  calc q.buf * 2 ^ narrow + v < q.buf * 2 ^ narrow + 2 ^ narrow := Nat.add_lt_add_left hv _
    _ = (q.buf + 1) * 2 ^ narrow := by ring
    _ ≤ 2 ^ q.bits * 2 ^ narrow := Nat.mul_le_mul_right _ h.buf
    _ = 2 ^ (q.bits + narrow) := (pow_add ..).symm

theorem Holds.push (h : Holds narrow wide digits q) (hle : narrow ≤ wide) (hv : v < 2 ^ narrow) :
    Holds narrow wide (digits ++ [v]) (q.push narrow wide v) := by
  have hbuf := h.buf_push hv
  have hlength : narrow * (digits ++ [v]).length = wide * q.out.length + (q.bits + narrow) := by
    rw [List.length_append, List.length_singleton, Nat.mul_succ, h.length, Nat.add_assoc]
  have hvalue : number (2 ^ narrow) (digits ++ [v]) =
      number (2 ^ wide) q.out * 2 ^ (q.bits + narrow) + (q.buf * 2 ^ narrow + v) := by
    rw [number_snoc, h.value, pow_add]
    ring
  unfold Queue.push
  by_cases hfull : wide ≤ q.bits + narrow
  · -- One wide digit is complete, and not two.
    obtain ⟨k, hk⟩ := Nat.exists_eq_add_of_le hfull
    have hleft : q.bits + narrow - wide = k := by omega
    simp only [if_pos hfull, hleft]
    refine ⟨?_, Nat.mod_lt _ (Nat.two_pow_pos k), ?_, ?_, ?_⟩
    · have hbits := h.bits
      change k < wide
      omega
    · intro d hd
      rcases List.mem_append.mp hd with hd | hd
      · exact h.out d hd
      · rw [List.mem_singleton.mp hd, Nat.div_lt_iff_lt_mul (Nat.two_pow_pos k), ← pow_add, ← hk]
        exact hbuf
    · rw [hlength, List.length_append, List.length_singleton, hk]
      ring
    · rw [hvalue, number_snoc, hk, pow_add]
      conv_lhs => rw [← Nat.div_add_mod' (q.buf * 2 ^ narrow + v) (2 ^ k)]
      ring
  · simp only [if_neg hfull]
    exact ⟨Nat.lt_of_not_le hfull, hbuf, h.out, hlength, hvalue⟩

/-- Wide digits that spell the number up to some padding are the ones that come out. -/
theorem Holds.out_eq (h : Holds narrow wide digits q) {wides : List ℕ} {pad : ℕ}
    (hpad : pad < wide) (hwides : ∀ d ∈ wides, d < 2 ^ wide)
    (hlength : narrow * digits.length = wide * wides.length + pad)
    (hvalue : number (2 ^ narrow) digits = number (2 ^ wide) wides * 2 ^ pad) : q.out = wides := by
  have hwide : 0 < wide := Nat.zero_lt_of_lt hpad
  have hsame : wide * q.out.length + q.bits = wide * wides.length + pad :=
    h.length.symm.trans hlength
  have hcount : q.out.length = wides.length := by
    have hdiv := congrArg (· / wide) hsame
    simpa [Nat.mul_add_div hwide, Nat.div_eq_of_lt h.bits, Nat.div_eq_of_lt hpad] using hdiv
  have hbits : q.bits = pad := by
    rw [hcount] at hsame
    exact Nat.add_left_cancel hsame
  have hnumber : number (2 ^ wide) q.out = number (2 ^ wide) wides := by
    have hdiv := congrArg (· / 2 ^ pad) (h.value.symm.trans hvalue)
    have hbuf : q.buf / 2 ^ pad = 0 := Nat.div_eq_of_lt (hbits ▸ h.buf)
    simpa [hbits, Nat.mul_comm _ (2 ^ pad), Nat.mul_add_div (Nat.two_pow_pos pad), hbuf] using hdiv
  exact eq_of_number_eq (Nat.one_lt_two_pow hwide.ne') hcount h.out hwides hnumber

end

end Xlpod.Regrouping
