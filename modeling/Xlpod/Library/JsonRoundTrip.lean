import Xlpod.Library.JsonText
import Mathlib.Data.List.TakeWhile
import Mathlib.Tactic.IntervalCases

/-!
# Reading back what was written

`Converts` is the one obligation on a writer and a reader: the gap is space and
`unquote` makes of a literal what a conversion of strings says, which may refuse
it. From it a rendered value reads to its conversion with nothing consumed
beyond it. `Agree` is the case of a literal that reads back to itself; then a
rendered document parses to the value it was rendered from.

The fuel is the length of the rendered text, so the induction over the value
needs no separate measure.
-/
namespace Xlpod.JsonText

variable {σ : Type}

structure Agree (W : Writer σ) (R : Reader σ) (ok : σ → Prop) : Prop where
  gap_space : ∀ c ∈ W.gap, isSpace c = true
  unquote_literal : ∀ s, ok s → ∀ rest, R.unquote (W.literal s ++ '"' :: rest) = some (s, rest)

structure Converts (W : Writer σ) (R : Reader σ) (ok : σ → Prop) (conv : σ → Option σ) : Prop where
  gap_space : ∀ c ∈ W.gap, isSpace c = true
  unquote_literal : ∀ s, ok s → ∀ rest,
    R.unquote (W.literal s ++ '"' :: rest) = (conv s).map fun t => (t, rest)

theorem Agree.converts {W : Writer σ} {R : Reader σ} {ok : σ → Prop} (h : Agree W R ok) :
    Converts W R ok some :=
  ⟨h.gap_space, h.unquote_literal⟩

/-! ## Tokens -/

theorem isWhole_iff_digits {ds : List Char} (h : isWhole ds = true) :
    ds ≠ [] ∧ ds.all Char.isDigit = true := by
  unfold isWhole at h
  split at h
  · simp at h
  · exact ⟨by simp, by decide⟩
  · simp only [Bool.and_eq_true] at h
    exact ⟨by simp, h.2⟩

theorem toDigits_head (n : ℕ) (hn : n ≠ 0) :
    ∃ c cs, Nat.toDigits 10 n = c :: cs ∧ c ≠ '0' := by
  induction n using Nat.strong_induction_on with
  | _ n ih =>
      rw [Nat.toDigits_eq_if (by decide)]
      split_ifs with h
      · refine ⟨n.digitChar, [], rfl, ?_⟩
        interval_cases n <;> first | exact absurd rfl hn | decide
      · obtain ⟨c, cs, hc, h0⟩ := ih (n / 10) (by omega) (by omega)
        exact ⟨c, cs ++ [(n % 10).digitChar], by rw [hc]; rfl, h0⟩

theorem toDigits_isDigit {n : ℕ} {c : Char} (h : c ∈ Nat.toDigits 10 n) : c.isDigit = true :=
  Nat.isDigit_of_mem_toDigits (by decide) (by decide) h

theorem isWhole_toDigits (n : ℕ) : isWhole (Nat.toDigits 10 n) = true := by
  by_cases hn : n = 0
  · subst n
    decide
  · obtain ⟨c, cs, hc, h0⟩ := toDigits_head n hn
    have hall : (c :: cs).all Char.isDigit = true := by
      rw [List.all_eq_true]
      intro d hd
      exact toDigits_isDigit (hc ▸ hd)
    rw [hc]
    unfold isWhole
    split
    · rename_i h
      exact absurd h (by simp)
    · rfl
    · rename_i h
      cases h
      simp only [hall, Bool.and_true, bne_iff_ne, ne_eq]
      exact h0

theorem readInt_intChars (n : ℤ) : readInt (intChars n) = some n := by
  cases n with
  | ofNat n =>
      have hd := isWhole_toDigits n
      simp only [intChars, readInt]
      split
      · rename_i ds h
        have hm : ('-' : Char).isDigit = true := toDigits_isDigit (n := n) (h ▸ by simp)
        exact absurd hm (by decide)
      · rw [if_pos hd, Nat.ofDigitChars_ten_toDigits]
        rfl
  | negSucc n =>
      simp only [intChars, readInt, isWhole_toDigits, if_true, Nat.ofDigitChars_ten_toDigits]
      rfl

theorem intChars_mem {n : ℤ} {c : Char} (h : c ∈ intChars n) : c.isDigit = true ∨ c = '-' := by
  cases n with
  | ofNat n => exact .inl (toDigits_isDigit h)
  | negSucc n =>
      rcases List.mem_cons.mp h with h | h
      · exact .inr h
      · exact .inl (toDigits_isDigit h)

theorem isBare_of_digit {c : Char} (h : c.isDigit = true ∨ c = '-') : isBare c = true := by
  rcases h with h | rfl
  · simp [isBare, Char.isAlphanum, h]
  · decide

theorem intChars_ne_nil (n : ℤ) : intChars n ≠ [] := by
  cases n <;> simp [intChars, Nat.toDigits_ne_nil]

theorem readBare_int (R : Reader σ) (n : ℤ) : readBare R (intChars n) = some (.int n) := by
  have hne (w : List Char) (c : Char) (hc : c ∈ w) (hd : (c.isDigit || c == '-') = false) :
      intChars n ≠ w := by
    intro h
    have hm := intChars_mem (n := n) (h ▸ hc)
    rcases hm with hm | hm <;> simp [hm] at hd
  rw [readBare, if_neg (hne _ 'n' (by decide) (by decide)),
    if_neg (hne _ 't' (by decide) (by decide)), if_neg (hne _ 'f' (by decide) (by decide)),
    readInt_intChars]

theorem readInt_digits {cs : List Char} {n : ℤ} (h : readInt cs = some n) :
    dropSign cs ≠ [] ∧ (dropSign cs).all Char.isDigit = true := by
  unfold readInt at h
  split at h
  · split_ifs at h with hw
    exact isWhole_iff_digits hw
  · rename_i hm
    split_ifs at h with hw
    have hs : dropSign cs = cs := by
      unfold dropSign
      split
      · exact absurd rfl (hm _)
      · rfl
    rw [hs]
    exact isWhole_iff_digits hw

theorem readInt_lexeme (l : Lexeme) : readInt l.chars = none := by
  cases h : readInt l.chars with
  | none => rfl
  | some n =>
      obtain ⟨-, hd⟩ := readInt_digits h
      have hr : isReal l.chars = false := by
        have hw : (dropSign l.chars).dropWhile Char.isDigit = [] := by
          rw [List.dropWhile_eq_nil_iff]
          exact List.all_eq_true.mp hd
        simp [isReal, hw]
      have hn := l.number
      rw [hr, Bool.false_or] at hn
      simp only [isNonfinite, Bool.or_eq_true, beq_iff_eq] at hn
      rcases hn with (hn | hn) | hn <;> rw [hn] at hd <;> exact absurd hd (by decide)

theorem readBare_real (R : Reader σ) (l : Lexeme)
    (h : isReal l.chars = true ∨ R.nonfinite = true) :
    readBare R l.chars = some (.real l) := by
  have hne (w : List Char) (hw : (isReal w || isNonfinite w) = false) : l.chars ≠ w := by
    intro h
    have hn := l.number
    rw [h, hw] at hn
    exact absurd hn (by decide)
  rw [readBare, if_neg (hne _ (by decide)), if_neg (hne _ (by decide)),
    if_neg (hne _ (by decide)), readInt_lexeme]
  simp only [l.bare, l.number, and_self, dite_true]
  rcases h with h | h <;> simp [h]

theorem Lexeme.ne_nil (l : Lexeme) : l.chars ≠ [] := by
  intro h
  have hn := l.number
  rw [h] at hn
  exact absurd hn (by decide)

/-! ## What may follow a token -/

def Ends (rest : List Char) : Prop := ∀ c cs, rest = c :: cs → isBare c = false

theorem ends_nil : Ends [] := by
  intro c cs h
  cases h

theorem ends_cons {c : Char} {rest : List Char} (h : isBare c = false) : Ends (c :: rest) := by
  intro d cs he
  cases he
  exact h

theorem ends_takeWhile {rest : List Char} (h : Ends rest) :
    rest.takeWhile isBare = [] ∧ rest.dropWhile isBare = rest := by
  cases rest with
  | nil => exact ⟨rfl, rfl⟩
  | cons c cs => simp [h c cs rfl]

theorem skip_cons {c : Char} {rest : List Char} (h : isSpace c = false) :
    skip (c :: rest) = c :: rest := by
  simp [skip, h]

theorem skip_append {gap rest : List Char} (h : ∀ c ∈ gap, isSpace c = true) :
    skip (gap ++ rest) = skip rest := by
  unfold skip
  exact List.dropWhile_append_of_pos h

theorem isBare_start {c : Char} (h : isBare c = true) :
    isSpace c = false ∧ c ≠ '"' ∧ c ≠ '[' ∧ c ≠ '{' := by
  refine ⟨?_, ?_, ?_, ?_⟩
  · by_contra hs
    simp only [Bool.not_eq_false, isSpace, Bool.or_eq_true, beq_iff_eq] at hs
    rcases hs with ((rfl | rfl) | rfl) | rfl <;> revert h <;> decide
  all_goals (rintro rfl; revert h; decide)

variable {W : Writer σ} {R : Reader σ} {ok : σ → Prop}

/-- What the reader is able to give back: supported strings, no repeated key
and, in a strict dialect, finite numbers only. -/
structure Json.Readable (R : Reader σ) (ok : σ → Prop) (v : Json σ) : Prop where
  strings : ∀ s ∈ v.strings, ok s
  keys : v.UniqueKeys
  finite : R.nonfinite = true ∨ v.Finite

/-- The strings and numbers that writer and reader support. -/
structure Json.Supported (R : Reader σ) (ok : σ → Prop) (v : Json σ) : Prop where
  strings : ∀ s ∈ v.strings, ok s
  finite : R.nonfinite = true ∨ v.Finite

theorem Json.Readable.supported {v : Json σ} (h : v.Readable R ok) : v.Supported R ok :=
  ⟨h.strings, h.finite⟩

theorem Json.Supported.head {v : Json σ} {vs : List (Json σ)}
    (h : (Json.arr (v :: vs)).Supported R ok) : v.Supported R ok := by
  refine ⟨fun s hs => h.strings s ?_, h.finite.imp_right (·.1)⟩
  simp [Json.strings, Json.itemStrings, hs]

theorem Json.Supported.tail {v : Json σ} {vs : List (Json σ)}
    (h : (Json.arr (v :: vs)).Supported R ok) : (Json.arr vs).Supported R ok := by
  refine ⟨fun s hs => h.strings s ?_, h.finite.imp_right (·.2)⟩
  simp only [Json.strings] at hs
  simp [Json.strings, Json.itemStrings, hs]

theorem Json.Supported.field {k : σ} {v : Json σ} {fs : List (σ × Json σ)}
    (h : (Json.obj ((k, v) :: fs)).Supported R ok) : ok k ∧ v.Supported R ok := by
  refine ⟨h.strings k (by simp [Json.strings, Json.fieldStrings]),
    fun s hs => h.strings s ?_, h.finite.imp_right (·.1)⟩
  simp [Json.strings, Json.fieldStrings, hs]

theorem Json.Supported.fields {k : σ} {v : Json σ} {fs : List (σ × Json σ)}
    (h : (Json.obj ((k, v) :: fs)).Supported R ok) : (Json.obj fs).Supported R ok := by
  refine ⟨fun s hs => h.strings s ?_, h.finite.imp_right (·.2)⟩
  simp only [Json.strings] at hs
  simp [Json.strings, Json.fieldStrings, hs]

theorem Json.Readable.cons_item {v : Json σ} {vs : List (Json σ)} (hv : v.Readable R ok)
    (hvs : (Json.arr vs).Readable R ok) : (Json.arr (v :: vs)).Readable R ok := by
  refine ⟨?_, ⟨hv.keys, hvs.keys⟩, ?_⟩
  · intro s hs
    simp only [Json.strings, Json.itemStrings, List.mem_append] at hs
    exact hs.elim (hv.strings s) (hvs.strings s)
  · rcases hv.finite with hR | hfv
    · exact .inl hR
    · exact hvs.finite.imp_right fun hfvs => ⟨hfv, hfvs⟩

/-- An array is readable when its items are. -/
theorem Json.Readable.items {vs : List (Json σ)} (h : ∀ v ∈ vs, v.Readable R ok) :
    (Json.arr vs).Readable R ok := by
  induction vs with
  | nil => exact ⟨by simp [Json.strings, Json.itemStrings], trivial, .inr trivial⟩
  | cons v vs ih =>
      have hvs := ih fun u hu => h u (List.mem_cons_of_mem v hu)
      exact .cons_item (h v List.mem_cons_self) hvs

theorem Json.Readable.cons_field {k : σ} {v : Json σ} {fs : List (σ × Json σ)} (hk : ok k)
    (hn : k ∉ fs.map Prod.fst) (hv : v.Readable R ok) (hfs : (Json.obj fs).Readable R ok) :
    (Json.obj ((k, v) :: fs)).Readable R ok := by
  refine ⟨?_, ⟨List.nodup_cons.mpr ⟨hn, hfs.keys.1⟩, hv.keys, hfs.keys.2⟩, ?_⟩
  · intro s hs
    simp only [Json.strings, Json.fieldStrings, List.mem_cons, List.mem_append] at hs
    rcases hs with rfl | hs | hs
    · exact hk
    · exact hv.strings s hs
    · exact hfs.strings s hs
  · rcases hv.finite with hR | hfv
    · exact .inl hR
    · exact hfs.finite.imp_right fun hff => ⟨hfv, hff⟩

theorem Json.Readable.empty : (Json.obj ([] : List (σ × Json σ))).Readable R ok :=
  ⟨by simp [Json.strings, Json.fieldStrings], ⟨List.nodup_nil, trivial⟩, .inr trivial⟩

theorem renderItems_ends (vs : List (Json σ)) (rest : List Char) :
    Ends (renderItems W vs ++ rest) := by
  cases vs <;> simp only [renderItems, List.cons_append] <;> exact ends_cons (by decide)

theorem renderFields_ends (fs : List (σ × Json σ)) (rest : List Char) :
    Ends (renderFields W fs ++ rest) := by
  cases fs with
  | nil => exact ends_cons (by decide)
  | cons f fs =>
      obtain ⟨k, v⟩ := f
      simp only [renderFields, List.cons_append]
      exact ends_cons (by decide)

/-- A rendered value never starts with space or a closing bracket. -/
theorem render_head (v : Json σ) : ∃ c cs, render W v = c :: cs ∧ isSpace c = false ∧ c ≠ ']' := by
  have hbare {tok : List Char} (hne : tok ≠ []) (hb : ∀ c ∈ tok, isBare c = true) :
      ∃ c cs, tok = c :: cs ∧ isSpace c = false ∧ c ≠ ']' := by
    obtain ⟨c, cs, rfl⟩ := List.exists_cons_of_ne_nil hne
    have hc := hb c (by simp)
    refine ⟨c, cs, rfl, (isBare_start hc).1, ?_⟩
    rintro rfl
    revert hc
    decide
  match v with
  | .null => exact ⟨_, _, rfl, by decide, by decide⟩
  | .bool true => exact ⟨_, _, rfl, by decide, by decide⟩
  | .bool false => exact ⟨_, _, rfl, by decide, by decide⟩
  | .int n =>
      rw [render]
      exact hbare (intChars_ne_nil n) fun c hc => isBare_of_digit (intChars_mem hc)
  | .real l =>
      rw [render]
      exact hbare l.ne_nil (List.all_eq_true.mp l.bare)
  | .str s => exact ⟨'"', _, rfl, by decide, by decide⟩
  | .arr [] => exact ⟨'[', _, rfl, by decide, by decide⟩
  | .arr (_ :: _) => exact ⟨'[', _, rfl, by decide, by decide⟩
  | .obj [] => exact ⟨'{', _, rfl, by decide, by decide⟩
  | .obj ((_, _) :: _) => exact ⟨'{', _, rfl, by decide, by decide⟩

section Reader
variable [DecidableEq σ]

theorem insertField_append {k : σ} {v : Json σ} {fs : List (σ × Json σ)}
    (h : k ∉ fs.map Prod.fst) : insertField k v fs = fs ++ [(k, v)] := by
  induction fs with
  | nil => rfl
  | cons f fs ih =>
      simp only [List.map_cons, List.mem_cons, not_or] at h
      rw [insertField, if_neg (Ne.symm h.1), ih h.2]
      rfl

/-- Merging repeated keys changes nothing when no key repeats. -/
theorem collect_eq {fields : List (σ × Json σ)} (h : (fields.map Prod.fst).Nodup) :
    collect fields = fields := by
  have go : ∀ (fs acc : List (σ × Json σ)), ((acc ++ fs).map Prod.fst).Nodup →
      fs.foldl (fun acc f => insertField f.1 f.2 acc) acc = acc ++ fs := by
    intro fs
    induction fs with
    | nil => simp
    | cons f fs ih =>
        intro acc hacc
        have hf : f.1 ∉ acc.map Prod.fst := by
          rw [List.map_append, List.map_cons, List.nodup_append] at hacc
          exact fun hm => hacc.2.2 _ hm _ List.mem_cons_self rfl
        rw [List.foldl_cons, insertField_append hf, ih]
        · simp
        · simpa using hacc
  simpa [collect] using go fields [] (by simpa using h)

/-- Inserting adds at most one field, and if it does, at the end. -/
theorem insertField_length (k : σ) (v : Json σ) (fs : List (σ × Json σ)) :
    (insertField k v fs).length ≤ fs.length + 1 ∧
      ((insertField k v fs).length = fs.length + 1 → insertField k v fs = fs ++ [(k, v)]) := by
  induction fs with
  | nil => exact ⟨Nat.le_refl _, fun _ => rfl⟩
  | cons f fs ih =>
      obtain ⟨k', v'⟩ := f
      by_cases hk : k' = k
      · rw [insertField, if_pos hk]
        simp
      · rw [insertField, if_neg hk, List.length_cons, List.length_cons]
        refine ⟨by omega, fun h => ?_⟩
        rw [ih.2 (by omega), List.cons_append]

/-- Nothing was merged when no field is missing. -/
theorem collect_of_length {fields : List (σ × Json σ)}
    (h : (collect fields).length = fields.length) : collect fields = fields := by
  have hfold (acc fields : List (σ × Json σ)) :
      (fields.foldl (fun acc f => insertField f.1 f.2 acc) acc).length ≤
          acc.length + fields.length ∧
        ((fields.foldl (fun acc f => insertField f.1 f.2 acc) acc).length =
            acc.length + fields.length →
          fields.foldl (fun acc f => insertField f.1 f.2 acc) acc = acc ++ fields) := by
    induction fields generalizing acc with
    | nil => exact ⟨Nat.le_refl _, fun _ => (List.append_nil acc).symm⟩
    | cons f fields ih =>
        obtain ⟨hle, heq⟩ := insertField_length f.1 f.2 acc
        obtain ⟨hle', heq'⟩ := ih (insertField f.1 f.2 acc)
        rw [List.foldl_cons, List.length_cons]
        refine ⟨by omega, fun h => ?_⟩
        rw [heq' (by omega), heq (by omega), List.append_assoc, List.singleton_append]
  exact (hfold [] fields).2 (by rwa [List.length_nil, Nat.zero_add])

theorem readValue_bare {tok rest : List Char} {v : Json σ} (fuel : ℕ) (hne : tok ≠ [])
    (hb : ∀ c ∈ tok, isBare c = true) (hr : Ends rest) (h : readBare R tok = some v) :
    readValue R (fuel + 1) (tok ++ rest) = some (v, rest) := by
  obtain ⟨c, cs, rfl⟩ := List.exists_cons_of_ne_nil hne
  obtain ⟨hs, h1, h2, h3⟩ := isBare_start (hb c (by simp))
  have ht : (c :: cs ++ rest).takeWhile isBare = c :: cs := by
    rw [List.takeWhile_append_of_pos hb, (ends_takeWhile hr).1, List.append_nil]
  have hd : (c :: cs ++ rest).dropWhile isBare = rest := by
    rw [List.dropWhile_append_of_pos hb, (ends_takeWhile hr).2]
  rw [readValue, List.cons_append, skip_cons hs]
  split
  · rename_i he; cases he; exact absurd rfl h1
  · rename_i he; cases he; exact absurd rfl h2
  · rename_i he; cases he; exact absurd rfl h3
  · rw [← List.cons_append, ht, hd, h]
    rfl

theorem readValue_skip {gap rest : List Char} (fuel : ℕ) (h : ∀ c ∈ gap, isSpace c = true) :
    readValue R fuel (gap ++ rest) = readValue R fuel rest := by
  cases fuel with
  | zero => rfl
  | succ fuel => rw [readValue, readValue, skip_append h]

/-! ## The value that is read -/

mutual
/-- The value with its strings converted and its repeated keys merged. -/
def Json.convert (conv : σ → Option σ) : Json σ → Option (Json σ)
  | .str s => (conv s).map .str
  | .arr items => (convertItems conv items).map .arr
  | .obj fields => (convertFields conv fields).map fun fs => .obj (collect fs)
  | v => some v
def convertItems (conv : σ → Option σ) : List (Json σ) → Option (List (Json σ))
  | [] => some []
  | v :: vs => do
      let v ← v.convert conv
      let vs ← convertItems conv vs
      some (v :: vs)
def convertFields (conv : σ → Option σ) : List (σ × Json σ) → Option (List (σ × Json σ))
  | [] => some []
  | (k, v) :: fs => do
      let k ← conv k
      let v ← v.convert conv
      let fs ← convertFields conv fs
      some ((k, v) :: fs)
end

variable {conv : σ → Option σ}

theorem convertFields_length {fs fs' : List (σ × Json σ)} (h : convertFields conv fs = some fs') :
    fs'.length = fs.length := by
  induction fs generalizing fs' with
  | nil =>
      cases h
      rfl
  | cons f fs ih =>
      obtain ⟨k, v⟩ := f
      simp only [convertFields, Option.bind_eq_bind, Option.bind_eq_some_iff,
        Option.some.injEq] at h
      obtain ⟨k', -, v', -, fs'', hfs, rfl⟩ := h
      rw [List.length_cons, List.length_cons, ih hfs]

mutual
/-- A conversion gives the value back exactly when it gives every string back. -/
theorem convert_eq_self : ∀ v : Json σ, v.UniqueKeys →
    (v.convert conv = some v ↔ ∀ s ∈ v.strings, conv s = some s)
  | .null, _ => by simp [Json.convert, Json.strings]
  | .bool _, _ => by simp [Json.convert, Json.strings]
  | .int _, _ => by simp [Json.convert, Json.strings]
  | .real _, _ => by simp [Json.convert, Json.strings]
  | .str _, _ => by simp [Json.convert, Json.strings]
  | .arr vs, h => by simp [Json.convert, Json.strings, convertItems_eq_self vs h]
  | .obj fs, h => by
      have hfields :
          (Json.obj fs).convert conv = some (.obj fs) ↔ convertFields conv fs = some fs := by
        simp only [Json.convert, Option.map_eq_some_iff, Json.obj.injEq]
        constructor
        · rintro ⟨fs', hconv, hcollect⟩
          have hsame : collect fs' = fs' := by
            apply collect_of_length
            rw [hcollect, convertFields_length hconv]
          rw [hconv, ← hsame, hcollect]
        · exact fun hconv => ⟨fs, hconv, collect_eq h.1⟩
      rw [hfields, convertFields_eq_self fs h.2, Json.strings]
theorem convertItems_eq_self : ∀ vs : List (Json σ), Json.itemKeys vs →
    (convertItems conv vs = some vs ↔ ∀ s ∈ Json.itemStrings vs, conv s = some s)
  | [], _ => by simp [convertItems, Json.itemStrings]
  | v :: vs, h => by
      simp only [convertItems, Option.bind_eq_bind, Option.bind_eq_some_iff, Option.some.injEq,
        List.cons.injEq, Json.itemStrings, List.forall_mem_append, ← convert_eq_self v h.1,
        ← convertItems_eq_self vs h.2]
      constructor
      · rintro ⟨v', hv, vs', hvs, rfl, rfl⟩
        exact ⟨hv, hvs⟩
      · exact fun ⟨hv, hvs⟩ => ⟨v, hv, vs, hvs, rfl, rfl⟩
theorem convertFields_eq_self : ∀ fs : List (σ × Json σ), Json.fieldKeys fs →
    (convertFields conv fs = some fs ↔ ∀ s ∈ Json.fieldStrings fs, conv s = some s)
  | [], _ => by simp [convertFields, Json.fieldStrings]
  | (k, v) :: fs, h => by
      simp only [convertFields, Option.bind_eq_bind, Option.bind_eq_some_iff, Option.some.injEq,
        List.cons.injEq, Prod.mk.injEq, Json.fieldStrings, List.forall_mem_cons,
        List.forall_mem_append, ← convert_eq_self v h.1, ← convertFields_eq_self fs h.2]
      constructor
      · rintro ⟨k', hk, v', hv, fs', hfs, ⟨rfl, rfl⟩, rfl⟩
        exact ⟨hk, hv, hfs⟩
      · exact fun ⟨hk, hv, hfs⟩ => ⟨k, hk, v, hv, fs, hfs, ⟨rfl, rfl⟩, rfl⟩
end

/-- A value whose keys do not repeat is its own conversion when its strings are. -/
theorem convert_some (v : Json σ) (h : v.UniqueKeys) : v.convert some = some v :=
  (convert_eq_self v h).mpr fun _ _ => rfl

omit [DecidableEq σ] in
theorem readKey_convert (hC : Converts W R ok conv) {k : σ} (hk : ok k) (rest : List Char) :
    readKey R (W.literal k ++ '"' :: ':' :: rest) = (conv k).map fun t => (t, rest) := by
  rw [readKey, hC.unquote_literal k hk]
  cases conv k <;> simp [skip_cons (show isSpace ':' = false by decide)]

-- The induction is on the value; the fuel only has to exceed the text still
-- to be read, and the text after it must not extend a bare token.
mutual
theorem readValue_convert (hC : Converts W R ok conv) : ∀ (v : Json σ) (fuel : ℕ)
    (rest : List Char), v.Supported R ok → (render W v).length < fuel → Ends rest →
      readValue R fuel (render W v ++ rest) = (v.convert conv).map fun u => (u, rest)
  | v, 0, _, _, h, _ => absurd h (Nat.not_lt_zero _)
  | .null, fuel + 1, rest, _, _, hr => by
      rw [render]
      exact readValue_bare fuel (by decide) (List.all_eq_true.mp (by decide)) hr rfl
  | .bool true, fuel + 1, rest, _, _, hr => by
      rw [render]
      exact readValue_bare fuel (by decide) (List.all_eq_true.mp (by decide)) hr rfl
  | .bool false, fuel + 1, rest, _, _, hr => by
      rw [render]
      exact readValue_bare fuel (by decide) (List.all_eq_true.mp (by decide)) hr rfl
  | .int n, fuel + 1, rest, _, _, hr => by
      rw [render]
      exact readValue_bare fuel (intChars_ne_nil n)
        (fun c hc => isBare_of_digit (intChars_mem hc)) hr (readBare_int R n)
  | .real l, fuel + 1, rest, hv, _, hr => by
      rw [render]
      refine readValue_bare fuel l.ne_nil (List.all_eq_true.mp l.bare) hr (readBare_real R l ?_)
      exact hv.finite.symm
  | .str s, fuel + 1, rest, hv, _, hr => by
      have hs : ok s := hv.strings s (by simp [Json.strings])
      rw [render, quoted, List.cons_append, List.append_assoc, readValue,
        skip_cons (show isSpace '"' = false by decide)]
      simp only [List.singleton_append, hC.unquote_literal s hs, Json.convert, Option.map_map]
      rfl
  | .arr [], fuel + 1, rest, _, _, _ => by
      rw [render, readValue, List.cons_append, skip_cons (show isSpace '[' = false by decide)]
      simp [skip_cons (show isSpace ']' = false by decide), Json.convert, convertItems]
  | .arr (v :: vs), fuel + 1, rest, hv, hf, hr => by
      simp only [render, List.length_cons, List.length_append] at hf
      have h1 := readValue_convert hC v fuel (renderItems W vs ++ rest) hv.head (by omega)
        (renderItems_ends vs rest)
      have h2 := readItems_convert hC vs fuel rest hv.tail (by omega) hr
      obtain ⟨c, cs, hc, hs, hb⟩ := render_head (W := W) v
      rw [render, readValue, List.cons_append, skip_cons (show isSpace '[' = false by decide)]
      simp only [List.append_assoc]
      rw [hc, List.cons_append] at h1 ⊢
      rw [skip_cons hs]
      split
      · rename_i he; cases he; exact absurd rfl hb
      · rw [Json.convert, convertItems]
        cases hu : v.convert conv <;> cases hus : convertItems conv vs <;> simp [h1, h2, hu, hus]
  | .obj [], fuel + 1, rest, _, _, _ => by
      rw [render, readValue, List.cons_append, skip_cons (show isSpace '{' = false by decide)]
      simp [skip_cons (show isSpace '}' = false by decide), Json.convert, convertFields, collect]
  | .obj ((k, v) :: fs), fuel + 1, rest, hv, hf, hr => by
      simp only [render, List.length_cons, List.length_append] at hf
      have h1 := readValue_convert hC v fuel (renderFields W fs ++ rest) hv.field.2 (by omega)
        (renderFields_ends fs rest)
      have h2 := readFields_convert hC fs fuel rest hv.fields (by omega) hr
      rw [render, readValue, List.cons_append, skip_cons (show isSpace '{' = false by decide)]
      simp only [quoted, List.cons_append, List.append_assoc,
        skip_cons (show isSpace '"' = false by decide), List.nil_append,
        readKey_convert hC hv.field.1, Json.convert, convertFields]
      cases conv k <;> cases hu : v.convert conv <;> cases hus : convertFields conv fs <;>
        simp [readValue_skip (R := R) fuel hC.gap_space, h1, h2, hu, hus]
theorem readItems_convert (hC : Converts W R ok conv) : ∀ (vs : List (Json σ)) (fuel : ℕ)
    (rest : List Char), (Json.arr vs).Supported R ok → (renderItems W vs).length ≤ fuel →
      Ends rest → readItems R fuel (renderItems W vs ++ rest) =
        (convertItems conv vs).map fun us => (us, rest)
  | [], 0, _, _, h, _ => by simp [renderItems] at h
  | _ :: _, 0, _, _, h, _ => by simp [renderItems] at h
  | [], fuel + 1, rest, _, _, _ => by
      rw [renderItems, readItems, List.singleton_append,
        skip_cons (show isSpace ']' = false by decide)]
      rfl
  | v :: vs, fuel + 1, rest, hv, hf, hr => by
      simp only [renderItems, List.length_cons, List.length_append] at hf
      have hne : 0 < (renderItems W vs).length := by cases vs <;> simp [renderItems]
      have h1 := readValue_convert hC v fuel (renderItems W vs ++ rest) hv.head (by omega)
        (renderItems_ends vs rest)
      have h2 := readItems_convert hC vs fuel rest hv.tail (by omega) hr
      rw [renderItems, readItems, List.cons_append, skip_cons (show isSpace ',' = false by decide),
        convertItems]
      simp only [List.append_assoc, readValue_skip (R := R) fuel hC.gap_space]
      cases hu : v.convert conv <;> cases hus : convertItems conv vs <;> simp [h1, h2, hu, hus]
theorem readFields_convert (hC : Converts W R ok conv) : ∀ (fs : List (σ × Json σ)) (fuel : ℕ)
    (rest : List Char), (Json.obj fs).Supported R ok → (renderFields W fs).length ≤ fuel →
      Ends rest → readFields R fuel (renderFields W fs ++ rest) =
        (convertFields conv fs).map fun us => (us, rest)
  | [], 0, _, _, h, _ => by simp [renderFields] at h
  | (_, _) :: _, 0, _, _, h, _ => by simp [renderFields] at h
  | [], fuel + 1, rest, _, _, _ => by
      rw [renderFields, readFields, List.singleton_append,
        skip_cons (show isSpace '}' = false by decide)]
      rfl
  | (k, v) :: fs, fuel + 1, rest, hv, hf, hr => by
      simp only [renderFields, List.length_cons, List.length_append] at hf
      have h1 := readValue_convert hC v fuel (renderFields W fs ++ rest) hv.field.2 (by omega)
        (renderFields_ends fs rest)
      have h2 := readFields_convert hC fs fuel rest hv.fields (by omega) hr
      rw [renderFields, readFields, List.cons_append,
        skip_cons (show isSpace ',' = false by decide), convertFields]
      simp only [quoted, List.cons_append, List.append_assoc, skip_append hC.gap_space,
        skip_cons (show isSpace '"' = false by decide), List.nil_append,
        readKey_convert hC hv.field.1]
      cases conv k <;> cases hu : v.convert conv <;> cases hus : convertFields conv fs <;>
        simp [readValue_skip (R := R) fuel hC.gap_space, h1, h2, hu, hus]
end

/-- A rendered document is read to its conversion. -/
theorem parse_convert (hC : Converts W R ok conv) {v : Json σ} (hv : v.Supported R ok) :
    parse R (render W v) = v.convert conv := by
  have h := readValue_convert hC v ((render W v).length + 1) [] hv (Nat.lt_succ_self _) ends_nil
  rw [List.append_nil] at h
  cases hu : v.convert conv <;> simp [parse, h, hu, skip]

/-- A rendered document on a line of its own. -/
theorem parse_line (hC : Converts W R ok conv) {v : Json σ} (hv : v.Supported R ok) :
    parse R (render W v ++ ['\n']) = v.convert conv := by
  have hfuel : (render W v).length < (render W v ++ ['\n']).length + 1 := by
    rw [List.length_append]
    omega
  have h := readValue_convert hC v _ ['\n'] hv hfuel (ends_cons (by decide))
  cases hu : v.convert conv with
  | none =>
      rw [hu] at h
      rw [parse, h]
      rfl
  | some u =>
      rw [hu] at h
      rw [parse, h]
      rfl

theorem parse_render (hA : Agree W R ok) {v : Json σ} (hv : v.Readable R ok) :
    parse R (render W v) = some v := by
  rw [parse_convert hA.converts hv.supported, convert_some v hv.keys]

end Reader

end Xlpod.JsonText
