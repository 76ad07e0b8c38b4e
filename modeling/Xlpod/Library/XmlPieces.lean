import Mathlib.Data.List.Infix
import Mathlib.Data.Nat.Notation

/-!
# The pieces of an XML text

A text is a sequence of characters, tags and blocks: comments, processing
instructions and character data sections. Every piece says where it ends, so a
text has one division into pieces. A tag has a name and attributes, whose values
are read with their references, and names are taken in a namespace that the
element or the root declares.

Entity declarations are left out, and names and references are checked less
strictly than XML does, so more texts are taken.
-/
namespace Xlpod.XmlPieces

/-! ## Texts that end at their first stop -/

section
variable {α : Type}

/-- With `stop` behind the body, `stop` occurs only there. -/
def EndsAt (stop : List α) : List α → Prop
  | [] => True
  | c :: body => ¬ stop <+: c :: (body ++ stop) ∧ EndsAt stop body

variable {stop body body' rest rest' : List α}

theorem EndsAt.prefix_false {c : α} (h : EndsAt stop (c :: body))
    (heq : stop ++ rest' = c :: (body ++ stop) ++ rest) : False := by
  have hlong : stop <+: (c :: (body ++ stop)) ++ rest := by
    rw [← heq]
    exact List.prefix_append stop rest'
  have hlength : stop.length ≤ (c :: (body ++ stop)).length := by
    simp
    omega
  exact h.1 (List.prefix_of_prefix_length_le hlong (List.prefix_append _ rest) hlength)

theorem EndsAt.unique (h : EndsAt stop body) (h' : EndsAt stop body')
    (heq : body ++ stop ++ rest = body' ++ stop ++ rest') : body = body' ∧ rest = rest' := by
  induction body generalizing body' with
  | nil =>
      cases body' with
      | nil => exact ⟨rfl, List.append_cancel_left heq⟩
      | cons c body' => exact (h'.prefix_false heq).elim
  | cons c body ih =>
      cases body' with
      | nil => exact (h.prefix_false heq.symm).elim
      | cons c' body' =>
          have hhead : c = c' := List.head_eq_of_cons_eq heq
          obtain ⟨hbody, hrest⟩ := ih h.2 h'.2 (List.tail_eq_of_cons_eq heq)
          rw [hhead, hbody]
          exact ⟨rfl, hrest⟩

/-- What has no character a stop begins with does not hold a stop. -/
theorem EndsAt.append_foreign {gap : List α} (hgap : ∀ c ∈ gap, stop.head? ≠ some c)
    (hne : stop ≠ []) (h : EndsAt stop body) : EndsAt stop (gap ++ body) := by
  induction gap with
  | nil => exact h
  | cons c gap ih =>
      refine ⟨fun hprefix => ?_, ih fun d hd => hgap d (List.mem_cons_of_mem c hd)⟩
      cases stop with
      | nil => exact hne rfl
      | cons s stop =>
          rw [List.cons_prefix_cons] at hprefix
          exact hgap c List.mem_cons_self (congrArg some hprefix.1)

end

/-! ## Pieces -/

def apostrophe : Char := Char.ofNat 39

/-- What stands between `<` and `>` of a tag: no `<`, and `>` in quotes only. -/
def tagText : Option Char → List Char → Bool
  | quote, [] => quote.isNone
  | none, c :: cs =>
      c ≠ '<' && c ≠ '>' && tagText (if c = '"' ∨ c = apostrophe then some c else none) cs
  | some q, c :: cs => c ≠ '<' && tagText (if c = q then none else some q) cs

theorem tagText_unique {quote : Option Char} {raw raw' rest rest' : List Char}
    (h : tagText quote raw = true) (h' : tagText quote raw' = true)
    (heq : raw ++ '>' :: rest = raw' ++ '>' :: rest') : raw = raw' ∧ rest = rest' := by
  induction raw generalizing quote raw' with
  | nil =>
      cases raw' with
      | nil => exact ⟨rfl, List.tail_eq_of_cons_eq heq⟩
      | cons c raw' =>
          have hc : '>' = c := List.head_eq_of_cons_eq heq
          cases quote with
          | none => simp [tagText, ← hc] at h'
          | some q => simp [tagText] at h
  | cons c raw ih =>
      cases raw' with
      | nil =>
          have hc : c = '>' := List.head_eq_of_cons_eq heq
          cases quote with
          | none => simp [tagText, hc] at h
          | some q => simp [tagText] at h'
      | cons c' raw' =>
          have hhead : c = c' := List.head_eq_of_cons_eq heq
          subst hhead
          have htail := List.tail_eq_of_cons_eq heq
          have hnext : ∃ quote', tagText quote' raw = true ∧ tagText quote' raw' = true := by
            cases quote with
            | none =>
                simp only [tagText, Bool.and_eq_true] at h h'
                exact ⟨_, h.2, h'.2⟩
            | some q =>
                simp only [tagText, Bool.and_eq_true] at h h'
                exact ⟨_, h.2, h'.2⟩
          obtain ⟨quote', hraw, hraw'⟩ := hnext
          obtain ⟨hsame, hrest⟩ := ih hraw hraw' htail
          rw [hsame]
          exact ⟨rfl, hrest⟩

theorem tagText_no_open {quote : Option Char} {raw : List Char} (h : tagText quote raw = true) :
    '<' ∉ raw := by
  induction raw generalizing quote with
  | nil => exact List.not_mem_nil
  | cons c raw ih =>
      have hparts : c ≠ '<' ∧ ∃ quote', tagText quote' raw = true := by
        cases quote with
        | none =>
            simp only [tagText, Bool.and_eq_true, decide_eq_true_eq] at h
            exact ⟨h.1.1, _, h.2⟩
        | some q =>
            simp only [tagText, Bool.and_eq_true, decide_eq_true_eq] at h
            exact ⟨h.1, _, h.2⟩
      obtain ⟨hc, quote', hraw⟩ := hparts
      intro hmem
      cases List.mem_cons.mp hmem with
      | inl hhead => exact hc hhead.symm
      | inr htail => exact ih hraw htail

inductive Kind
  | comment
  | instruction
  | cdata
deriving DecidableEq

def Kind.start : Kind → List Char
  | .comment => ['!', '-', '-']
  | .instruction => ['?']
  | .cdata => ['!', '[', 'C', 'D', 'A', 'T', 'A', '[']

def Kind.stop : Kind → List Char
  | .comment => ['-', '-', '>']
  | .instruction => ['?', '>']
  | .cdata => [']', ']', '>']

inductive Piece
  | char (c : Char)
  | block (kind : Kind) (body : List Char)
  | tag (raw : List Char)
deriving DecidableEq

def Piece.text : Piece → List Char
  | .char c => [c]
  | .block kind body => '<' :: (kind.start ++ (body ++ kind.stop))
  | .tag raw => '<' :: (raw ++ ['>'])

def Piece.Valid : Piece → Prop
  | .char c => c ≠ '<'
  | .block kind body => EndsAt kind.stop body
  | .tag raw => tagText none raw = true ∧ raw.head? ≠ some '!' ∧ raw.head? ≠ some '?'

theorem Kind.unique {kind kind' : Kind} {rest rest' : List Char}
    (h : kind.start ++ rest = kind'.start ++ rest') : kind = kind' ∧ rest = rest' := by
  cases kind <;> cases kind' <;> simp [Kind.start] at h ⊢ <;> exact h

theorem block_ne_tag {kind : Kind} {raw rest rest' : List Char}
    (hmark : raw.head? ≠ some '!') (hquestion : raw.head? ≠ some '?') :
    kind.start ++ rest ≠ raw ++ '>' :: rest' := by
  intro h
  cases raw with
  | nil => cases kind <;> simp [Kind.start] at h
  | cons c raw =>
      have hhead : c = '!' ∨ c = '?' := by
        cases kind <;> simp only [Kind.start, List.cons_append, List.cons.injEq] at h
        · exact .inl h.1.symm
        · exact .inr h.1.symm
        · exact .inl h.1.symm
      cases hhead with
      | inl hc => exact hmark (congrArg some hc)
      | inr hc => exact hquestion (congrArg some hc)

theorem Piece.unique {p q : Piece} (hp : p.Valid) (hq : q.Valid) {rest rest' : List Char}
    (h : p.text ++ rest = q.text ++ rest') : p = q ∧ rest = rest' := by
  cases p with
  | char c =>
      have hc : c ≠ '<' := hp
      cases q with
      | char c' =>
          have hhead : c = c' := List.head_eq_of_cons_eq h
          have htail : rest = rest' := List.tail_eq_of_cons_eq h
          rw [hhead]
          exact ⟨rfl, htail⟩
      | block kind body => exact absurd (List.head_eq_of_cons_eq h) hc
      | tag raw => exact absurd (List.head_eq_of_cons_eq h) hc
  | block kind body =>
      cases q with
      | char c => exact absurd (List.head_eq_of_cons_eq h).symm hq
      | block kind' body' =>
          simp only [Piece.text, List.cons_append, List.append_assoc, List.cons.injEq,
            true_and] at h
          obtain ⟨hkind, hrest⟩ := Kind.unique h
          subst hkind
          rw [← List.append_assoc, ← List.append_assoc] at hrest
          obtain ⟨hbody, hrest⟩ := EndsAt.unique hp hq hrest
          rw [hbody]
          exact ⟨rfl, hrest⟩
      | tag raw =>
          simp only [Piece.text, List.cons_append, List.append_assoc, List.cons.injEq,
            true_and] at h
          exact (block_ne_tag hq.2.1 hq.2.2 h).elim
  | tag raw =>
      cases q with
      | char c => exact absurd (List.head_eq_of_cons_eq h).symm hq
      | block kind body =>
          simp only [Piece.text, List.cons_append, List.append_assoc, List.cons.injEq,
            true_and] at h
          exact (block_ne_tag hp.2.1 hp.2.2 h.symm).elim
      | tag raw' =>
          simp only [Piece.text, List.cons_append, List.append_assoc, List.cons.injEq,
            true_and] at h
          obtain ⟨hraw, hrest⟩ := tagText_unique hp.1 hq.1 h
          rw [hraw]
          exact ⟨rfl, hrest⟩

theorem Piece.text_ne_nil (p : Piece) : p.text ≠ [] := by
  cases p <;> simp [Piece.text]

/-- The text of a sequence of pieces. -/
def spell (ps : List Piece) : List Char := ps.flatMap Piece.text

/-- A text is divided into pieces in one way. -/
theorem spell_unique {ps qs : List Piece} (hp : ∀ p ∈ ps, p.Valid) (hq : ∀ q ∈ qs, q.Valid)
    (h : spell ps = spell qs) : ps = qs := by
  induction ps generalizing qs with
  | nil =>
      cases qs with
      | nil => rfl
      | cons q qs => exact absurd (List.append_eq_nil_iff.mp h.symm).1 q.text_ne_nil
  | cons p ps ih =>
      cases qs with
      | nil => exact absurd (List.append_eq_nil_iff.mp h).1 p.text_ne_nil
      | cons q qs =>
          obtain ⟨hpiece, hrest⟩ := Piece.unique (hp p List.mem_cons_self)
            (hq q List.mem_cons_self) h
          rw [hpiece, ih (fun p hmem => hp p (List.mem_cons_of_mem _ hmem))
            (fun q hmem => hq q (List.mem_cons_of_mem _ hmem)) hrest]

/-! ## Tags -/

abbrev Attributes := List (List Char × List Char)

inductive Tag
  | start (name : List Char) (attributes : Attributes)
  | empty (name : List Char) (attributes : Attributes)
  | stop (name : List Char)
deriving DecidableEq

/-- The element that a tag begins. -/
def Tag.element : Tag → Option (List Char × Attributes)
  | .start name attributes | .empty name attributes => some (name, attributes)
  | .stop _ => none

def isSpace (c : Char) : Bool := c = ' ' || c = '\t' || c = '\n' || c = '\r'

def isNameChar (c : Char) : Bool :=
  !isSpace c && !(['/', '=', '<', '>', '"', apostrophe, '&', '!', '?'].contains c)

/-- The attributes behind a name, with fuel for their number. -/
def attributesFrom : ℕ → List Char → Option Attributes
  | 0, s => if s.all isSpace then some [] else none
  | n + 1, s =>
      if s.all isSpace then some []
      else if !s.head?.any isSpace then none
      else
        let s := s.dropWhile isSpace
        let name := s.takeWhile isNameChar
        match (s.dropWhile isNameChar).dropWhile isSpace with
        | '=' :: s =>
            match s.dropWhile isSpace with
            | quote :: s =>
                if (quote = '"' || quote = apostrophe) && !name.isEmpty then
                  match s.dropWhile (· ≠ quote) with
                  | _ :: rest =>
                      (attributesFrom n rest).map ((name, s.takeWhile (· ≠ quote)) :: ·)
                  | [] => none
                else none
            | [] => none
        | _ => none

def parseTag (raw : List Char) : Option Tag :=
  match raw with
  | '/' :: rest =>
      let name := rest.takeWhile isNameChar
      if !name.isEmpty && (rest.dropWhile isNameChar).all isSpace then some (.stop name) else none
  | _ =>
      let name := raw.takeWhile isNameChar
      let rest := raw.dropWhile isNameChar
      if name.isEmpty then none
      else if rest.getLast? = some '/' then
        (attributesFrom rest.length rest.dropLast).map (.empty name ·)
      else (attributesFrom rest.length rest).map (.start name ·)

/-- The character of a reference, by its name between `&` and `;`. -/
def reference : List Char → Option Char
  | ['a', 'm', 'p'] => some '&'
  | ['l', 't'] => some '<'
  | ['g', 't'] => some '>'
  | ['q', 'u', 'o', 't'] => some '"'
  | ['a', 'p', 'o', 's'] => some apostrophe
  | '#' :: 'x' :: digits => some (Char.ofNat (number 16 digits))
  | '#' :: digits => some (Char.ofNat (number 10 digits))
  | _ => none
where
  digitValue (c : Char) : ℕ := if c.isDigit then c.toNat - 48 else c.toLower.toNat - 97 + 10
  number (base : ℕ) (digits : List Char) : ℕ :=
    digits.foldl (fun n c => base * n + digitValue c) 0

/-- An attribute's value, with fuel for its length. -/
def expandFrom : ℕ → List Char → List Char
  | 0, _ => []
  | _ + 1, [] => []
  | n + 1, c :: s =>
      if c = '&' then
        match reference (s.takeWhile (· ≠ ';')), s.dropWhile (· ≠ ';') with
        | some d, _ :: rest => d :: expandFrom n rest
        | _, _ => c :: expandFrom n s
      else (if isSpace c then ' ' else c) :: expandFrom n s

def Attributes.value (attributes : Attributes) (name : List Char) : Option (List Char) :=
  (attributes.lookup name).map fun raw => expandFrom raw.length raw

/-! ## Namespaces -/

/-- The prefix of a name, which may be empty, and its local part. -/
def splitName (name : List Char) : List Char × List Char :=
  if name.contains ':' then (name.takeWhile (· ≠ ':'), (name.dropWhile (· ≠ ':')).drop 1)
  else ([], name)

def xmlnsName (pre : List Char) : List Char :=
  if pre.isEmpty then "xmlns".toList else "xmlns:".toList ++ pre

/-- The namespace of a prefix in an element with these attributes inside of one
with those of `outer`. -/
def namespaceOf (own outer : Attributes) (pre : List Char) : Option (List Char) :=
  (own.value (xmlnsName pre)).or (outer.value (xmlnsName pre))

/-! ## Nesting -/

/-- The number of open elements behind a tag. -/
def depthAfter (depth : ℕ) : Option Tag → ℕ
  | some (.start _ _) => depth + 1
  | some (.stop _) => depth - 1
  | _ => depth

/-- Each tag with the number of elements that are open in front of it. -/
def levels : ℕ → List Piece → List (ℕ × List Char)
  | _, [] => []
  | depth, .tag raw :: ps => (depth, raw) :: levels (depthAfter depth (parseTag raw)) ps
  | depth, _ :: ps => levels depth ps

/-- A space, or the byte order mark in front of a text. -/
def isBlank (c : Char) : Bool := isSpace c || c = Char.ofNat 0xFEFF

/-- The open elements behind a tag, when it may stand where none has been opened
yet, or where these are open. -/
def Tag.after : Option (List (List Char)) → Tag → Option (List (List Char))
  | none, .start name attributes => if (attributes.map (·.1)).Nodup then some [name] else none
  | none, .empty _ attributes => if (attributes.map (·.1)).Nodup then some [] else none
  | some (top :: names), .start name attributes =>
      if (attributes.map (·.1)).Nodup then some (name :: top :: names) else none
  | some (top :: names), .empty _ attributes =>
      if (attributes.map (·.1)).Nodup then some (top :: names) else none
  | some (top :: names), .stop name => if name = top then some names else none
  | _, _ => none

/-- The elements are closed in order. Outside of the root are blanks, comments and
instructions only. -/
def nests : Option (List (List Char)) → List Piece → Bool
  | open?, [] => open? = some []
  | open?, .char c :: ps => (open?.any (!·.isEmpty) || isBlank c) && nests open? ps
  | open?, .block kind _ :: ps => (open?.any (!·.isEmpty) || kind ≠ .cdata) && nests open? ps
  | open?, .tag raw :: ps =>
      match (parseTag raw).bind (Tag.after open?) with
      | some names => nests (some names) ps
      | none => false

theorem nests_tag {open? : Option (List (List Char))} {raw : List Char} {ps : List Piece} :
    nests open? (.tag raw :: ps) = true ↔ ∃ tag names, parseTag raw = some tag ∧
      tag.after open? = some names ∧ nests (some names) ps = true := by
  rw [nests]
  constructor
  · intro h
    split at h
    · next names hnames =>
        obtain ⟨tag, htag, hafter⟩ := Option.bind_eq_some_iff.mp hnames
        exact ⟨tag, names, htag, hafter, h⟩
    · cases h
  · intro h
    obtain ⟨tag, names, htag, hafter, hrest⟩ := h
    rw [htag, Option.bind_some, hafter]
    exact hrest

/-- The element of the first tag. -/
def root : List Piece → Option (List Char × Attributes)
  | [] => none
  | .tag raw :: _ => (parseTag raw).bind Tag.element
  | _ :: ps => root ps

/-- An end tag in front of which one element is open is the root's. -/
theorem last_of_nests {raw name : List Char} (hraw : parseTag raw = some (.stop name))
    {names : List (List Char)} {ps : List Piece} (h : nests (some names) ps = true)
    (hmem : (1, raw) ∈ levels names.length ps) : names.getLast? = some name := by
  induction ps generalizing names with
  | nil => cases hmem
  | cons p ps ih =>
      cases p with
      | char c =>
          simp only [nests, Bool.and_eq_true] at h
          exact ih h.2 hmem
      | block kind body =>
          simp only [nests, Bool.and_eq_true] at h
          exact ih h.2 hmem
      | tag raw' =>
          obtain ⟨tag, names', htag, hafter, hrest⟩ := nests_tag.mp h
          rw [levels, htag] at hmem
          cases names with
          | nil => cases hafter
          | cons top names =>
              cases tag with
              | start name' attributes =>
                  rw [Tag.after, Option.ite_none_right_eq_some, Option.some.injEq] at hafter
                  rw [← hafter.2] at hrest
                  cases List.mem_cons.mp hmem with
                  | inl hhead =>
                      rw [(Prod.mk.inj hhead).2, htag] at hraw
                      cases hraw
                  | inr htail =>
                      have hlast := ih hrest htail
                      rw [List.getLast?_cons_cons] at hlast
                      exact hlast
              | empty name' attributes =>
                  rw [Tag.after, Option.ite_none_right_eq_some, Option.some.injEq] at hafter
                  rw [← hafter.2] at hrest
                  cases List.mem_cons.mp hmem with
                  | inl hhead =>
                      rw [(Prod.mk.inj hhead).2, htag] at hraw
                      cases hraw
                  | inr htail => exact ih hrest htail
              | stop name' =>
                  rw [Tag.after, Option.ite_none_right_eq_some, Option.some.injEq] at hafter
                  rw [← hafter.2] at hrest
                  cases List.mem_cons.mp hmem with
                  | inl hhead =>
                      obtain ⟨hdepth, hsame⟩ := Prod.mk.inj hhead
                      rw [hsame, htag, Option.some.injEq, Tag.stop.injEq] at hraw
                      have hnil : names = [] := List.length_eq_zero_iff.mp (Nat.succ.inj hdepth.symm)
                      rw [hnil, ← hafter.1, hraw]
                      rfl
                  | inr htail =>
                      have hlast := ih hrest htail
                      cases names with
                      | nil => cases hlast
                      | cons next names =>
                          rw [List.getLast?_cons_cons]
                          exact hlast

theorem root_of_stop {raw name name' : List Char} {outer : Attributes}
    (hraw : parseTag raw = some (.stop name)) {ps : List Piece} (h : nests none ps = true)
    (hroot : root ps = some (name', outer)) (hmem : (1, raw) ∈ levels 0 ps) : name' = name := by
  induction ps with
  | nil => cases hmem
  | cons p ps ih =>
      cases p with
      | char c =>
          simp only [nests, Bool.and_eq_true] at h
          exact ih h.2 hroot hmem
      | block kind body =>
          simp only [nests, Bool.and_eq_true] at h
          exact ih h.2 hroot hmem
      | tag raw' =>
          obtain ⟨tag, names, htag, hafter, hrest⟩ := nests_tag.mp h
          rw [levels, htag] at hmem
          rw [root, htag] at hroot
          have htail : (1, raw) ∈ levels (depthAfter 0 (some tag)) ps := by
            cases List.mem_cons.mp hmem with
            | inl hhead => cases (Prod.mk.inj hhead).1
            | inr htail => exact htail
          cases tag with
          | start name'' attributes =>
              rw [Tag.after, Option.ite_none_right_eq_some, Option.some.injEq] at hafter
              rw [← hafter.2] at hrest
              have hlast := last_of_nests hraw hrest htail
              cases hroot
              exact Option.some.inj hlast
          | empty name'' attributes =>
              rw [Tag.after, Option.ite_none_right_eq_some, Option.some.injEq] at hafter
              rw [← hafter.2] at hrest
              cases last_of_nests hraw hrest htail
          | stop name'' => cases hafter

end Xlpod.XmlPieces
