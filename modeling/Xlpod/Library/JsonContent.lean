import Xlpod.Library.JsonText
import Xlpod.Library.Substring

/-!
# What a rendered document contains

Outside its string literals a rendered document consists of brackets,
separators, gaps and bare tokens. A property of characters therefore holds of
the whole text as soon as it holds of these and of every literal, and a word
that these cannot supply occurs in the text exactly when it occurs inside one
literal.
-/
namespace Xlpod.JsonText
open Xlpod.Substring

variable {σ : Type} {W : Writer σ}

theorem intChars_bare {n : ℤ} {c : Char} (h : c ∈ intChars n) : isBare c = true := by
  have hd {m : ℕ} (hc : c ∈ Nat.toDigits 10 m) : isBare c = true := by
    have := Nat.isDigit_of_mem_toDigits (by decide) (by decide) hc
    simp [isBare, Char.isAlphanum, this]
  cases n with
  | ofNat n => exact hd h
  | negSucc n =>
      rcases List.mem_cons.mp h with rfl | h
      · decide
      · exact hd h

/-- A property of characters that every part outside the literals has. -/
structure Outside (W : Writer σ) (P : Char → Prop) : Prop where
  bare : ∀ c, isBare c = true → P c
  marks : ∀ c ∈ ['"', ',', ':', '[', ']', '{', '}'], P c
  gap : ∀ c ∈ W.gap, P c

theorem Outside.mono {P Q : Char → Prop} (h : Outside W P) (hPQ : ∀ c, P c → Q c) :
    Outside W Q where
  bare c hc := hPQ c (h.bare c hc)
  marks c hc := hPQ c (h.marks c hc)
  gap c hc := hPQ c (h.gap c hc)

section Characters
variable {P : Char → Prop}

theorem quoted_forall (h : Outside W P) {s : σ} (hs : ∀ c ∈ W.literal s, P c) :
    ∀ c ∈ quoted W s, P c := by
  intro c hc
  simp only [quoted, List.mem_cons, List.mem_append, List.not_mem_nil, or_false] at hc
  rcases hc with rfl | hc | rfl
  · exact h.marks _ (by simp)
  · exact hs c hc
  · exact h.marks _ (by simp)

theorem word_forall (h : Outside W P) (word : String) (hb : word.toList.all isBare = true) :
    ∀ c ∈ word.toList, P c :=
  fun c hc => h.bare c (List.all_eq_true.mp hb c hc)

mutual
theorem render_forall (h : Outside W P) : ∀ v : Json σ,
    (∀ s ∈ v.strings, ∀ c ∈ W.literal s, P c) → ∀ c ∈ render W v, P c
  | .null, _, c, hc => word_forall h "null" (by decide) c (by simpa only [render] using hc)
  | .bool true, _, c, hc => word_forall h "true" (by decide) c (by simpa only [render] using hc)
  | .bool false, _, c, hc => word_forall h "false" (by decide) c (by simpa only [render] using hc)
  | .int n, _, c, hc => h.bare c (intChars_bare (by simpa only [render] using hc))
  | .real l, _, c, hc =>
      h.bare c (List.all_eq_true.mp l.bare c (by simpa only [render] using hc))
  | .str s, hs, c, hc =>
      quoted_forall h (hs s (by simp [Json.strings])) c (by simpa only [render] using hc)
  | .arr [], _, c, hc => h.marks c (by simp only [render] at hc; grind)
  | .arr (v :: vs), hs, c, hc => by
      simp only [Json.strings, Json.itemStrings, List.mem_append] at hs
      simp only [render, List.mem_cons, List.mem_append] at hc
      rcases hc with rfl | hc | hc
      · exact h.marks _ (by simp)
      · exact render_forall h v (fun s hm => hs s (.inl hm)) c hc
      · exact renderItems_forall h vs (fun s hm => hs s (.inr hm)) c hc
  | .obj [], _, c, hc => h.marks c (by simp only [render] at hc; grind)
  | .obj ((k, v) :: fs), hs, c, hc => by
      simp only [Json.strings, Json.fieldStrings, List.mem_cons, List.mem_append] at hs
      simp only [render, List.mem_cons, List.mem_append] at hc
      rcases hc with rfl | hc | rfl | hc | hc | hc
      · exact h.marks _ (by simp)
      · exact quoted_forall h (hs k (.inl rfl)) c hc
      · exact h.marks _ (by simp)
      · exact h.gap c hc
      · exact render_forall h v (fun s hm => hs s (.inr (.inl hm))) c hc
      · exact renderFields_forall h fs (fun s hm => hs s (.inr (.inr hm))) c hc
theorem renderItems_forall (h : Outside W P) : ∀ vs : List (Json σ),
    (∀ s ∈ Json.itemStrings vs, ∀ c ∈ W.literal s, P c) → ∀ c ∈ renderItems W vs, P c
  | [], _, c, hc => h.marks c (by simp only [renderItems] at hc; grind)
  | v :: vs, hs, c, hc => by
      simp only [Json.itemStrings, List.mem_append] at hs
      simp only [renderItems, List.mem_cons, List.mem_append] at hc
      rcases hc with rfl | hc | hc | hc
      · exact h.marks _ (by simp)
      · exact h.gap c hc
      · exact render_forall h v (fun s hm => hs s (.inl hm)) c hc
      · exact renderItems_forall h vs (fun s hm => hs s (.inr hm)) c hc
theorem renderFields_forall (h : Outside W P) : ∀ fs : List (σ × Json σ),
    (∀ s ∈ Json.fieldStrings fs, ∀ c ∈ W.literal s, P c) → ∀ c ∈ renderFields W fs, P c
  | [], _, c, hc => h.marks c (by simp only [renderFields] at hc; grind)
  | (k, v) :: fs, hs, c, hc => by
      simp only [Json.fieldStrings, List.mem_cons, List.mem_append] at hs
      simp only [renderFields, List.mem_cons, List.mem_append] at hc
      rcases hc with rfl | hc | hc | rfl | hc | hc | hc
      · exact h.marks _ (by simp)
      · exact h.gap c hc
      · exact quoted_forall h (hs k (.inl rfl)) c hc
      · exact h.marks _ (by simp)
      · exact h.gap c hc
      · exact render_forall h v (fun s hm => hs s (.inr (.inl hm))) c hc
      · exact renderFields_forall h fs (fun s hm => hs s (.inr (.inr hm))) c hc
end

end Characters

/-- A character that is in no literal is not in the text. -/
theorem not_mem_render {z : Char} (hz : isBare z = false)
    (hm : z ∉ ['"', ',', ':', '[', ']', '{', '}']) (hg : z ∉ W.gap)
    (hl : ∀ s, z ∉ W.literal s) (v : Json σ) : z ∉ render W v := by
  have hout : Outside W (· ≠ z) := by
    refine ⟨?_, fun c hc h => hm (h ▸ hc), fun c hc h => hg (h ▸ hc)⟩
    rintro c hc rfl
    exact absurd hc (by simp [hz])
  intro h
  exact render_forall hout v (fun s _ c hc he => hl s (he ▸ hc)) z h rfl

/-! ## Occurrences of a word -/

/-- A word whose last character only a literal can supply, and which contains
neither a separator, an opening bracket, a quote nor a gap character. -/
structure Foreign (W : Writer σ) (word : List Char) (z : Char) : Prop where
  last : isBare z = false ∧ z ≠ ']' ∧ z ≠ '}'
  marks : ∀ c ∈ ['"', ',', ':', '[', '{'], c ∉ word ++ [z]
  gap : ∀ c ∈ W.gap, c ∉ word ++ [z]

section Words
variable {word : List Char} {z : Char}

theorem infix_quoted (h : Foreign W word z) (s : σ) (b : List Char) :
    word ++ [z] <:+: quoted W s ++ b ↔ word ++ [z] <:+: W.literal s ∨ word ++ [z] <:+: b := by
  have hq := h.marks '"' (by simp)
  rw [quoted, List.cons_append, infix_cons_foreign hq (by simp), List.append_assoc,
    List.singleton_append, infix_separated hq (by simp)]

theorem not_infix_bare (h : Foreign W word z) (tok : List Char)
    (ht : ∀ c ∈ tok, isBare c = true) : ¬ word ++ [z] <:+: tok := by
  refine not_infix_of_last word fun hz => ?_
  have hbare := ht z hz
  rw [h.last.1] at hbare
  exact Bool.false_ne_true hbare

mutual
theorem infix_render (h : Foreign W word z) : ∀ v : Json σ,
    word ++ [z] <:+: render W v ↔ ∃ s ∈ v.strings, word ++ [z] <:+: W.literal s
  | .null => by
      simpa [render, Json.strings] using
        not_infix_bare h "null".toList (List.all_eq_true.mp (by decide))
  | .bool true => by
      simpa [render, Json.strings] using
        not_infix_bare h "true".toList (List.all_eq_true.mp (by decide))
  | .bool false => by
      simpa [render, Json.strings] using
        not_infix_bare h "false".toList (List.all_eq_true.mp (by decide))
  | .int n => by
      simpa [render, Json.strings] using not_infix_bare h (intChars n) fun _ => intChars_bare
  | .real l => by
      simpa [render, Json.strings] using
        not_infix_bare h l.chars (List.all_eq_true.mp l.bare)
  | .str s => by
      have hq := infix_quoted h s []
      rw [List.append_nil] at hq
      simpa [render, Json.strings] using hq
  | .arr [] => by
      rw [render, infix_cons_foreign (h.marks '[' (by simp)) (by simp)]
      simpa [Json.strings, Json.itemStrings] using
        not_infix_of_last word (a := [']']) (by simpa using h.last.2.1)
  | .arr (v :: vs) => by
      rw [render, infix_cons_foreign (h.marks '[' (by simp)) (by simp),
        infix_renderItems h vs, infix_render h v]
      simp only [Json.strings, Json.itemStrings, List.mem_append, or_and_right, exists_or]
  | .obj [] => by
      rw [render, infix_cons_foreign (h.marks '{' (by simp)) (by simp)]
      simpa [Json.strings, Json.fieldStrings] using
        not_infix_of_last word (a := ['}']) (by simpa using h.last.2.2)
  | .obj ((k, v) :: fs) => by
      rw [render, infix_cons_foreign (h.marks '{' (by simp)) (by simp), infix_quoted h,
        infix_cons_foreign (h.marks ':' (by simp)) (by simp),
        infix_append_foreign h.gap (by simp), infix_renderFields h fs, infix_render h v]
      simp only [Json.strings, Json.fieldStrings, List.mem_cons, List.mem_append, or_and_right,
        exists_or, exists_eq_left]
theorem infix_renderItems (h : Foreign W word z) : ∀ (vs : List (Json σ)) {a : List Char},
    word ++ [z] <:+: a ++ renderItems W vs ↔
      word ++ [z] <:+: a ∨ ∃ s ∈ Json.itemStrings vs, word ++ [z] <:+: W.literal s
  | [], a => by
      rw [renderItems, infix_concat_foreign h.last.2.1]
      simp [Json.itemStrings]
  | v :: vs, a => by
      rw [renderItems, infix_separated (h.marks ',' (by simp)) (by simp),
        infix_append_foreign h.gap (by simp), infix_renderItems h vs, infix_render h v]
      simp only [Json.itemStrings, List.mem_append, or_and_right, exists_or]
theorem infix_renderFields (h : Foreign W word z) : ∀ (fs : List (σ × Json σ)) {a : List Char},
    word ++ [z] <:+: a ++ renderFields W fs ↔
      word ++ [z] <:+: a ∨ ∃ s ∈ Json.fieldStrings fs, word ++ [z] <:+: W.literal s
  | [], a => by
      rw [renderFields, infix_concat_foreign h.last.2.2]
      simp [Json.fieldStrings]
  | (k, v) :: fs, a => by
      rw [renderFields, infix_separated (h.marks ',' (by simp)) (by simp),
        infix_append_foreign h.gap (by simp), infix_quoted h,
        infix_cons_foreign (h.marks ':' (by simp)) (by simp),
        infix_append_foreign h.gap (by simp), infix_renderFields h fs, infix_render h v]
      simp only [Json.fieldStrings, List.mem_cons, List.mem_append, or_and_right, exists_or,
        exists_eq_left]
end

end Words

/-- A character outside the literals' surroundings is in the text when it is in
a literal. -/
theorem mem_render {z : Char} (h : Foreign W [] z) (v : Json σ) :
    z ∈ render W v ↔ ∃ s ∈ v.strings, z ∈ W.literal s := by
  have hinfix := infix_render h v
  simpa only [List.nil_append, List.singleton_infix_iff] using hinfix

/-! ## Mapping the characters -/

/-- The same writer with its literals taken character by character. -/
def Writer.mapped (W : Writer σ) (g : Char → List Char) : Writer σ where
  gap := W.gap
  literal s := (W.literal s).flatMap g

section Mapped
variable {g : Char → List Char}

theorem flatMap_fixed {cs : List Char} (h : ∀ c ∈ cs, g c = [c]) : cs.flatMap g = cs := by
  induction cs with
  | nil => rfl
  | cons c cs ih =>
      rw [List.flatMap_cons, h c List.mem_cons_self, ih fun d hd => h d (List.mem_cons_of_mem _ hd),
        List.singleton_append]

variable (h : Outside W fun c => g c = [c])

include h

theorem bare_flatMap {cs : List Char} (hbare : cs.all isBare = true) : cs.flatMap g = cs :=
  flatMap_fixed fun c hc => h.bare c (List.all_eq_true.mp hbare c hc)

theorem quoted_flatMap (s : σ) : (quoted W s).flatMap g = quoted (W.mapped g) s := by
  have hquote : g '"' = ['"'] := h.marks _ (by simp)
  rw [quoted, List.flatMap_cons, List.flatMap_append, List.flatMap_singleton, hquote, quoted]
  rfl

theorem mark_flatMap {c : Char} (hc : c ∈ ['"', ',', ':', '[', ']', '{', '}']) (cs : List Char) :
    (c :: cs).flatMap g = c :: cs.flatMap g := by
  rw [List.flatMap_cons, h.marks c hc, List.singleton_append]

theorem gap_flatMap (cs : List Char) : (W.gap ++ cs).flatMap g = W.gap ++ cs.flatMap g := by
  rw [List.flatMap_append, flatMap_fixed h.gap]

mutual
/-- A map that changes literals only. -/
theorem render_flatMap : ∀ v : Json σ, (render W v).flatMap g = render (W.mapped g) v
  | .null => by rw [render, bare_flatMap h (by decide), render]
  | .bool true => by rw [render, bare_flatMap h (by decide), render]
  | .bool false => by rw [render, bare_flatMap h (by decide), render]
  | .int n => by
      rw [render, bare_flatMap h (List.all_eq_true.mpr fun _ => intChars_bare), render]
  | .real l => by rw [render, bare_flatMap h l.bare, render]
  | .str s => by rw [render, quoted_flatMap h, render]
  | .arr [] => by
      rw [render, mark_flatMap h (by simp), mark_flatMap h (by simp), render]
      rfl
  | .arr (v :: vs) => by
      rw [render, mark_flatMap h (by simp), List.flatMap_append, render_flatMap v,
        renderItems_flatMap vs, render]
  | .obj [] => by
      rw [render, mark_flatMap h (by simp), mark_flatMap h (by simp), render]
      rfl
  | .obj ((k, v) :: fs) => by
      rw [render, mark_flatMap h (by simp), List.flatMap_append, quoted_flatMap h,
        mark_flatMap h (by simp), gap_flatMap h, List.flatMap_append, render_flatMap v,
        renderFields_flatMap fs, render]
      rfl
theorem renderItems_flatMap : ∀ vs : List (Json σ),
    (renderItems W vs).flatMap g = renderItems (W.mapped g) vs
  | [] => by
      rw [renderItems, mark_flatMap h (by simp), renderItems]
      rfl
  | v :: vs => by
      rw [renderItems, mark_flatMap h (by simp), gap_flatMap h, List.flatMap_append,
        render_flatMap v, renderItems_flatMap vs, renderItems]
      rfl
theorem renderFields_flatMap : ∀ fs : List (σ × Json σ),
    (renderFields W fs).flatMap g = renderFields (W.mapped g) fs
  | [] => by
      rw [renderFields, mark_flatMap h (by simp), renderFields]
      rfl
  | (k, v) :: fs => by
      rw [renderFields, mark_flatMap h (by simp), gap_flatMap h, List.flatMap_append,
        quoted_flatMap h, mark_flatMap h (by simp), gap_flatMap h, List.flatMap_append,
        render_flatMap v, renderFields_flatMap fs, renderFields]
      rfl
end

end Mapped

end Xlpod.JsonText
