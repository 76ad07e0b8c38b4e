import Xlpod.BundleArchive
import Xlpod.Library.XmlPieces

/-!
# The content types of a workbook

The patch of the content types looks for one spelling of the declaration and
one of the root's end tag, and splices its element in front of every occurrence
of the latter. On the pieces of the text this puts the element in front of each
such end tag and into each comment, instruction or data section that holds its
text. The part ends up declared once, with nothing else changed, for just the
texts whose spelling and comments agree with the search.
-/
namespace Xlpod.ContentTypes
open Xlpod.Substring Xlpod.ByteEncodings Xlpod.BundlePayload Xlpod.BundleFile Xlpod.BundleArchive
open Xlpod.XmlPieces

/-! ## Replacing a text -/

section
variable {old new a b t : List Char} {skip : ℕ}

theorem replaceFrom_foreign (hold : old.head? = some '<') (ha : '<' ∉ a) :
    replaceFrom old new 0 (a ++ b) = a ++ replaceFrom old new 0 b := by
  induction a with
  | nil => rfl
  | cons c a ih =>
      have hprefix : ¬ old.isPrefixOf (c :: (a ++ b)) = true := by
        intro h
        cases old with
        | nil => cases hold
        | cons o old =>
            have ho : o = '<' := Option.some.inj hold
            rw [List.isPrefixOf_iff_prefix, List.cons_prefix_cons] at h
            exact ha (by simp [← h.1, ho])
      rw [List.cons_append, replaceFrom, if_neg hprefix,
        ih fun h => ha (List.mem_cons_of_mem c h)]
      rfl

theorem replaceFrom_skip : replaceFrom old new a.length (a ++ b) = replaceFrom old new 0 b := by
  induction a with
  | nil => rfl
  | cons c a ih => exact ih

theorem replaceFrom_match (hne : old ≠ []) :
    replaceFrom old new 0 (old ++ b) = new ++ replaceFrom old new 0 b := by
  cases old with
  | nil => exact absurd rfl hne
  | cons o old =>
      have hprefix : (o :: old).isPrefixOf (o :: (old ++ b)) = true := by
        rw [List.isPrefixOf_iff_prefix]
        exact List.prefix_append (o :: old) b
      rw [List.cons_append, replaceFrom, if_pos hprefix]
      exact congrArg (new ++ ·) replaceFrom_skip

theorem prefix_separated {word : List Char} {d : Char} (hd : d ∉ word) :
    word <+: a ++ d :: b ↔ word <+: a := by
  constructor
  · intro h
    induction a generalizing word with
    | nil =>
        cases word with
        | nil => exact List.nil_prefix
        | cons w word =>
            have hhead := (List.cons_prefix_cons.mp h).1
            exact absurd (List.mem_cons.mpr (.inl hhead.symm)) hd
    | cons c a ih =>
        cases word with
        | nil => exact List.nil_prefix
        | cons w word =>
            obtain ⟨hhead, htail⟩ := List.cons_prefix_cons.mp h
            have htail := ih (fun hmem => hd (List.mem_cons_of_mem w hmem)) htail
            exact List.cons_prefix_cons.mpr ⟨hhead, htail⟩
  · intro h
    exact h.trans (List.prefix_append a (d :: b))

/-- A character outside of the pattern separates the text. -/
theorem replaceFrom_separated {d : Char} (hd : d ∉ old) (hskip : skip ≤ a.length) :
    replaceFrom old new skip (a ++ d :: b) =
      replaceFrom old new skip a ++ replaceFrom old new 0 (d :: b) := by
  induction a generalizing skip with
  | nil =>
      have hzero : skip = 0 := Nat.le_zero.mp hskip
      rw [hzero]
      rfl
  | cons c a ih =>
      cases skip with
      | succ skip => exact ih (Nat.le_of_succ_le_succ hskip)
      | zero =>
          have hsame : old.isPrefixOf (c :: (a ++ d :: b)) = old.isPrefixOf (c :: a) := by
            apply Bool.eq_iff_iff.mpr
            rw [List.isPrefixOf_iff_prefix, List.isPrefixOf_iff_prefix]
            exact prefix_separated (a := c :: a) hd
          rw [List.cons_append, replaceFrom, replaceFrom, hsame]
          split_ifs with hmatch
          · have hlength := (List.isPrefixOf_iff_prefix.mp hmatch).length_le
            rw [List.length_cons] at hlength
            rw [ih (by omega), List.append_assoc]
          · rw [ih (Nat.zero_le _)]
            rfl

theorem replaceFrom_of_absent (h : ¬ old <:+: t) : replaceFrom old new 0 t = t := by
  induction t with
  | nil => rfl
  | cons c t ih =>
      have hprefix : ¬ old.isPrefixOf (c :: t) = true := by
        rw [List.isPrefixOf_iff_prefix]
        exact fun hp => h hp.isInfix
      have htail : ¬ old <:+: t := fun ht => h (ht.trans (List.suffix_cons c t).isInfix)
      rw [replaceFrom, if_neg hprefix, ih htail]

theorem length_le_replaceFrom (hne : old ≠ []) (hlength : old.length < new.length) :
    t.length ≤ (replaceFrom old new skip t).length + skip := by
  have hpos := List.length_pos_of_ne_nil hne
  induction t generalizing skip with
  | nil => exact Nat.zero_le _
  | cons c t ih =>
      cases skip with
      | succ skip =>
          have h : t.length ≤ (replaceFrom old new skip t).length + skip := ih
          rw [replaceFrom, List.length_cons]
          omega
      | zero =>
          rw [replaceFrom]
          split_ifs
          · have h : t.length ≤ (replaceFrom old new (old.length - 1) t).length +
                (old.length - 1) := ih
            simp only [List.length_append, List.length_cons]
            omega
          · have h : t.length ≤ (replaceFrom old new 0 t).length + 0 := ih
            simp only [List.length_cons]
            omega

/-- A longer text at every occurrence makes a longer text. -/
theorem length_lt_replaceFrom (hne : old ≠ []) (hlength : old.length < new.length)
    (h : old <:+: t) : t.length < (replaceFrom old new 0 t).length := by
  have hpos := List.length_pos_of_ne_nil hne
  induction t with
  | nil => exact absurd (List.infix_nil.mp h) hne
  | cons c t ih =>
      rw [replaceFrom]
      split_ifs with hmatch
      · have hrest : t.length ≤ (replaceFrom old new (old.length - 1) t).length + (old.length - 1) :=
          length_le_replaceFrom hne hlength
        simp only [List.length_append, List.length_cons]
        omega
      · cases List.infix_cons_iff.mp h with
        | inl hprefix => exact absurd (List.isPrefixOf_iff_prefix.mpr hprefix) hmatch
        | inr htail =>
            have hrest := ih htail
            simp only [List.length_cons]
            omega

/-- What a replaced text begins with, the text itself begins with, unless it
begins as the replacement. -/
theorem prefix_of_replaceFrom {word s : List Char} {n : Char} {ns : List Char}
    (hn : n ∉ word) (h : word <+: replaceFrom old (n :: ns) 0 t ++ s) : word <+: t ++ s := by
  induction t generalizing word with
  | nil => exact h
  | cons c t ih =>
      cases word with
      | nil => exact List.nil_prefix
      | cons w word =>
          rw [replaceFrom] at h
          split_ifs at h with hmatch
          · have hhead := (List.cons_prefix_cons.mp h).1
            exact absurd (List.mem_cons.mpr (.inl hhead.symm)) hn
          · obtain ⟨hhead, htail⟩ := List.cons_prefix_cons.mp h
            have htail := ih (fun hmem => hn (List.mem_cons_of_mem w hmem)) htail
            exact List.cons_prefix_cons.mpr ⟨hhead, htail⟩

/-- The body of a block still ends at its first stop. -/
theorem endsAt_replaceFrom {stop : List Char} {n : Char} {ns : List Char} (hne : stop ≠ [])
    (hhead : ∀ c ∈ n :: ns, stop.head? ≠ some c) (hn : n ∉ stop) (h : EndsAt stop t) :
    EndsAt stop (replaceFrom old (n :: ns) skip t) := by
  induction t generalizing skip with
  | nil => trivial
  | cons c t ih =>
      cases skip with
      | succ skip => exact ih h.2
      | zero =>
          rw [replaceFrom]
          split_ifs with hmatch
          · exact EndsAt.append_foreign hhead hne (ih h.2)
          · refine ⟨fun hprefix => ?_, ih h.2⟩
            cases stop with
            | nil => exact hne rfl
            | cons s stop =>
                obtain ⟨hc, htail⟩ := List.cons_prefix_cons.mp hprefix
                have htail := prefix_of_replaceFrom
                  (fun hmem => hn (List.mem_cons_of_mem s hmem)) htail
                exact h.1 (List.cons_prefix_cons.mpr ⟨hc, htail⟩)

end

/-! ## The patch on pieces -/

def closeTag : List Char := "</Types>".toList

def insertion : List Char := ("  " ++ overrideTag ++ "\n</Types>").toList

/-- The end tag of an element `Types` without a prefix or a space. -/
def closeRaw : List Char := "/Types".toList

def overrideRaw : List Char := (overrideTag.toList.drop 1).dropLast

/-- What is spliced in front of an end tag. -/
def inserted : List Piece := [.char ' ', .char ' ', .tag overrideRaw, .char '\n']

def patchPiece : Piece → List Piece
  | .char c => [.char c]
  | .block kind body => [.block kind (replaceFrom closeTag insertion 0 body)]
  | .tag raw => if raw = closeRaw then inserted ++ [.tag raw] else [.tag raw]

def patched (ps : List Piece) : List Piece := ps.flatMap patchPiece

theorem closeTag_eq : closeTag = '<' :: (closeRaw ++ ['>']) := by decide

/-- The characters of the declaration, which the kernel then need not decode again. -/
def overrideChars : List Char :=
  ['<', 'O', 'v', 'e', 'r', 'r', 'i', 'd', 'e', ' ', 'P', 'a', 'r', 't', 'N', 'a', 'm', 'e', '=',
    '"', '/', 'c', 'u', 's', 't', 'o', 'm', 'X', 'm', 'l', '/', 'x', 'l', 'p', 'o', 'd', 'B', 'u',
    'n', 'd', 'l', 'e', '.', 'j', 's', 'o', 'n', '"', ' ', 'C', 'o', 'n', 't', 'e', 'n', 't', 'T',
    'y', 'p', 'e', '=', '"', 'a', 'p', 'p', 'l', 'i', 'c', 'a', 't', 'i', 'o', 'n', '/', 'v', 'n',
    'd', '.', 'x', 'l', 'p', 'o', 'd', '.', 'b', 'u', 'n', 'd', 'l', 'e', '+', 'j', 's', 'o', 'n',
    '"', '/', '>']

theorem overrideTag_toList : overrideTag.toList = overrideChars := by decide +kernel

theorem overrideTag_ne_nil : overrideTag.toList ≠ [] := by
  rw [overrideTag_toList]
  exact List.cons_ne_nil _ _

theorem overrideRaw_eq : overrideRaw = (overrideChars.drop 1).dropLast := by
  rw [overrideRaw, overrideTag_toList]

theorem insertion_chars :
    insertion = "  ".toList ++ overrideChars ++ "\n</Types>".toList := by
  rw [insertion, String.toList_append, String.toList_append, overrideTag_toList]

theorem insertion_eq : insertion = spell (inserted ++ [.tag closeRaw]) := by
  rw [insertion_chars, inserted, overrideRaw_eq]
  decide +kernel

theorem insertion_head : insertion = ' ' :: insertion.tail := by
  rw [insertion_chars]
  rfl

theorem spell_append (ps qs : List Piece) : spell (ps ++ qs) = spell ps ++ spell qs :=
  List.flatMap_append

theorem stop_head (kind : Kind) : ∃ d ds, kind.stop = d :: ds ∧ d ∉ closeTag ∧ d ∉ insertion ∧
    '<' ∉ d :: ds ∧ ' ' ∉ d :: ds := by
  have hnone : insertion.any (['-', '?', ']'].contains ·) = false := by
    rw [insertion_chars]
    decide +kernel
  have habsent {d : Char} (hd : d ∈ ['-', '?', ']']) : d ∉ insertion :=
    fun hmem => List.any_eq_false.mp hnone d hmem (List.contains_iff_mem.mpr hd)
  cases kind with
  | comment => exact ⟨'-', _, rfl, by decide, habsent (by simp), by decide, by decide⟩
  | instruction => exact ⟨'?', _, rfl, by decide, habsent (by simp), by decide, by decide⟩
  | cdata => exact ⟨']', _, rfl, by decide, habsent (by simp), by decide, by decide⟩

theorem patch_piece {p : Piece} (hp : p.Valid) (b : List Char) :
    replaceFrom closeTag insertion 0 (p.text ++ b) =
      spell (patchPiece p) ++ replaceFrom closeTag insertion 0 b := by
  have hclose : closeTag.head? = some '<' := by decide
  cases p with
  | char c =>
      have hc : '<' ∉ [c] := fun hmem => hp (List.mem_singleton.mp hmem).symm
      exact replaceFrom_foreign hclose hc
  | block kind body =>
      obtain ⟨d, ds, hstop, hd, -, hforeign, -⟩ := stop_head kind
      have hstart : '<' ∉ kind.start := by cases kind <;> decide
      have hno : ¬ closeTag.isPrefixOf ('<' :: (kind.start ++ (body ++ kind.stop ++ b))) = true := by
        rw [closeTag_eq]
        cases kind <;> simp [Kind.start, closeRaw]
      have htext : (Piece.block kind body).text ++ b =
          '<' :: (kind.start ++ (body ++ kind.stop ++ b)) := by simp [Piece.text]
      have hbody : replaceFrom closeTag insertion 0 (body ++ d :: (ds ++ b)) =
          replaceFrom closeTag insertion 0 body ++ (d :: ds ++ replaceFrom closeTag insertion 0 b) := by
        rw [replaceFrom_separated hd (Nat.zero_le _)]
        exact congrArg _ (replaceFrom_foreign hclose hforeign)
      rw [htext, replaceFrom, if_neg hno, replaceFrom_foreign hclose hstart, hstop,
        List.append_assoc, List.cons_append, hbody]
      simp [spell, patchPiece, Piece.text, hstop]
  | tag raw =>
      have hopen : '<' ∉ raw ++ ['>'] := by
        have hraw := tagText_no_open hp.1
        simp [hraw]
      have htext : (Piece.tag raw).text ++ b = '<' :: (raw ++ ['>'] ++ b) := rfl
      by_cases hclosing : raw = closeRaw
      · have hpatch : spell (patchPiece (.tag raw)) = insertion := by
          rw [patchPiece, if_pos hclosing, hclosing, insertion_eq]
        have hold : '<' :: (raw ++ ['>'] ++ b) = closeTag ++ b := by
          rw [hclosing, closeTag_eq]
          rfl
        rw [htext, hold, hpatch]
        exact replaceFrom_match (by decide)
      · have hno : ¬ closeTag.isPrefixOf ('<' :: (raw ++ ['>'] ++ b)) = true := by
          rw [List.isPrefixOf_iff_prefix]
          intro h
          obtain ⟨rest, hrest⟩ := h
          rw [closeTag_eq] at hrest
          have htail := List.tail_eq_of_cons_eq hrest
          have hsame : raw ++ '>' :: b = closeRaw ++ '>' :: rest := by
            simpa using htail.symm
          exact hclosing (tagText_unique hp.1 (by decide) hsame).1
        rw [htext, replaceFrom, if_neg hno, replaceFrom_foreign hclose hopen, patchPiece,
          if_neg hclosing]
        simp [spell, Piece.text]

theorem replaceFrom_spell {ps : List Piece} (h : ∀ p ∈ ps, p.Valid) :
    replaceFrom closeTag insertion 0 (spell ps) = spell (patched ps) := by
  induction ps with
  | nil => rfl
  | cons p ps ih =>
      have hrest := ih fun q hq => h q (List.mem_cons_of_mem p hq)
      have hfirst := patch_piece (h p List.mem_cons_self) (spell ps)
      rw [hrest, ← spell_append] at hfirst
      exact hfirst

theorem inserted_valid : ∀ p ∈ inserted, p.Valid := by
  have hraw : tagText none overrideRaw = true ∧ overrideRaw.head? ≠ some '!' ∧
      overrideRaw.head? ≠ some '?' := by
    rw [overrideRaw_eq]
    decide +kernel
  have hchar (c : Char) (hc : c ≠ '<') : (Piece.char c).Valid := hc
  simp only [inserted, List.forall_mem_cons]
  exact ⟨hchar ' ' (by decide), hchar ' ' (by decide), hraw, hchar '\n' (by decide),
    fun p hp => by cases hp⟩

theorem patchPiece_valid {p : Piece} (hp : p.Valid) : ∀ q ∈ patchPiece p, q.Valid := by
  cases p with
  | char c => simpa [patchPiece] using hp
  | block kind body =>
      obtain ⟨d, ds, hstop, hd, hdnew, -, hspace⟩ := stop_head kind
      have hbody : EndsAt kind.stop (replaceFrom closeTag insertion 0 body) := by
        rw [insertion_head]
        apply endsAt_replaceFrom _ _ _ hp
        · simp [hstop]
        · rw [← insertion_head, hstop]
          intro c hc hhead
          rw [← Option.some.inj hhead] at hc
          exact hdnew hc
        · rw [hstop]
          exact hspace
      intro q hq
      rw [List.mem_singleton.mp hq]
      exact hbody
  | tag raw =>
      rw [patchPiece]
      split
      · intro q hq
        cases List.mem_append.mp hq with
        | inl hin => exact inserted_valid q hin
        | inr hlast =>
            rw [List.mem_singleton.mp hlast]
            exact hp
      · intro q hq
        rw [List.mem_singleton.mp hq]
        exact hp

theorem patched_valid {ps : List Piece} (h : ∀ p ∈ ps, p.Valid) : ∀ q ∈ patched ps, q.Valid := by
  intro q hq
  obtain ⟨p, hp, hq⟩ := List.mem_flatMap.mp hq
  exact patchPiece_valid (h p hp) q hq

/-! ### Nesting -/

theorem parse_closeRaw : parseTag closeRaw = some (.stop "Types".toList) := by decide +kernel

def overrideAttributes : Attributes :=
  [("PartName".toList, '/' :: bundlePartPath.toList),
    ("ContentType".toList, bundleContentType.toList)]

theorem parse_overrideRaw :
    parseTag overrideRaw = some (.empty "Override".toList overrideAttributes) := by
  rw [overrideRaw_eq]
  decide +kernel

theorem nests_inserted (names : List (List Char)) (top : List Char) (ps : List Piece) :
    nests (some (top :: names)) (inserted ++ ps) = nests (some (top :: names)) ps := by
  have hnodup : (overrideAttributes.map (·.1)).Nodup := by decide
  have hafter : (Tag.empty "Override".toList overrideAttributes).after (some (top :: names)) =
      some (top :: names) := by rw [Tag.after, if_pos hnodup]
  simp only [inserted, List.cons_append, List.nil_append, nests, parse_overrideRaw,
    Option.bind_some, hafter]
  rfl

/-- The patch splices inside of elements only. -/
theorem nests_patched (open? : Option (List (List Char))) (ps : List Piece)
    (h : nests open? ps = true) : nests open? (patched ps) = true := by
  induction ps generalizing open? with
  | nil => exact h
  | cons p ps ih =>
      cases p with
      | char c =>
          simp only [nests, Bool.and_eq_true] at h
          change (_ && nests open? (patched ps)) = true
          rw [h.1, ih open? h.2]
          rfl
      | block kind body =>
          simp only [nests, Bool.and_eq_true] at h
          change (_ && nests open? (patched ps)) = true
          rw [h.1, ih open? h.2]
          rfl
      | tag raw =>
          obtain ⟨tag, names, htag, hafter, hrest⟩ := nests_tag.mp h
          have hkept : nests open? (.tag raw :: patched ps) = true :=
            nests_tag.mpr ⟨tag, names, htag, hafter, ih (some names) hrest⟩
          by_cases hclosing : raw = closeRaw
          · have hpatch : patched (.tag raw :: ps) = inserted ++ .tag raw :: patched ps := by
              simp [patched, patchPiece, hclosing]
            rw [hclosing, parse_closeRaw] at htag
            cases htag
            rw [hpatch]
            cases open? with
            | none => cases hafter
            | some names' =>
                cases names' with
                | nil => cases hafter
                | cons top names' =>
                    rw [nests_inserted]
                    exact hkept
          · have hpatch : patched (.tag raw :: ps) = .tag raw :: patched ps := by
              simp [patched, patchPiece, hclosing]
            rw [hpatch]
            exact hkept

/-! ### Tags and blocks -/

/-- The tags that the patch leaves for a tag at a depth. -/
def patchedTag (t : ℕ × List Char) : List (ℕ × List Char) :=
  if t.2 = closeRaw then [(t.1, overrideRaw), t] else [t]

theorem levels_patched (depth : ℕ) (ps : List Piece) :
    levels depth (patched ps) = (levels depth ps).flatMap patchedTag := by
  induction ps generalizing depth with
  | nil => rfl
  | cons p ps ih =>
      cases p with
      | char c => exact ih depth
      | block kind body => exact ih depth
      | tag raw =>
          have hrest := ih (depthAfter depth (parseTag raw))
          by_cases hclosing : raw = closeRaw
          · have hpatch : patched (.tag raw :: ps) = inserted ++ .tag raw :: patched ps := by
              simp [patched, patchPiece, hclosing]
            have hinserted : levels depth (inserted ++ .tag raw :: patched ps) =
                (depth, overrideRaw) :: levels depth (.tag raw :: patched ps) := by
              simp only [inserted, List.cons_append, List.nil_append, levels, parse_overrideRaw,
                depthAfter]
            rw [hpatch, hinserted, levels, levels, hrest]
            simp [patchedTag, hclosing]
          · have hpatch : patched (.tag raw :: ps) = .tag raw :: patched ps := by
              simp [patched, patchPiece, hclosing]
            rw [hpatch, levels, levels, hrest]
            simp [patchedTag, hclosing]

def blockOf : Piece → Option (Kind × List Char)
  | .block kind body => some (kind, body)
  | _ => none

/-- The comments, instructions and data sections. -/
def blocks (ps : List Piece) : List (Kind × List Char) := ps.filterMap blockOf

theorem blocks_patched (ps : List Piece) : blocks (patched ps) =
    (blocks ps).map fun b => (b.1, replaceFrom closeTag insertion 0 b.2) := by
  induction ps with
  | nil => rfl
  | cons p ps ih =>
      cases p with
      | char c => exact ih
      | block kind body => exact congrArg (_ :: ·) ih
      | tag raw =>
          have hskip : blocks (patchPiece (.tag raw)) = [] := by
            rw [patchPiece]
            split <;> rfl
          change List.filterMap blockOf (patchPiece (.tag raw) ++ patched ps) = _
          rw [List.filterMap_append]
          change blocks (patchPiece (.tag raw)) ++ blocks (patched ps) = _
          rw [hskip, ih]
          rfl

/-- The end tag's text is in none of them. -/
def Plain (ps : List Piece) : Prop := ∀ b ∈ blocks ps, ¬ closeTag <:+: b.2

theorem plain_of_blocks {ps : List Piece} (h : blocks (patched ps) = blocks ps) : Plain ps := by
  rw [blocks_patched] at h
  intro b hb hin
  have hlonger : closeTag.length < insertion.length := by
    rw [insertion_chars]
    decide +kernel
  have hlength := length_lt_replaceFrom (by decide) hlonger hin
  have hsame : (b.1, replaceFrom closeTag insertion 0 b.2) = b := by
    have hid : (blocks ps).map (fun b => (b.1, replaceFrom closeTag insertion 0 b.2)) =
        (blocks ps).map id := by
      rw [h, List.map_id]
    exact List.map_inj_left.mp hid b hb
  have hbody := congrArg (fun b : Kind × List Char => b.2.length) hsame
  simp only at hbody
  omega

theorem patchPiece_plain {p : Piece} (hplain : ∀ b ∈ blockOf p, ¬ closeTag <:+: b.2)
    (hclosing : p ≠ .tag closeRaw) : patchPiece p = [p] := by
  cases p with
  | char c => rfl
  | block kind body => rw [patchPiece, replaceFrom_of_absent (hplain (kind, body) rfl)]
  | tag raw =>
      have hraw : raw ≠ closeRaw := fun h => hclosing (congrArg _ h)
      rw [patchPiece, if_neg hraw]

/-- Without an occurrence nothing is patched. -/
theorem patched_of_plain {ps : List Piece} (hplain : Plain ps) (hclosing : .tag closeRaw ∉ ps) :
    patched ps = ps := by
  induction ps with
  | nil => rfl
  | cons p ps ih =>
      have hfirst : patchPiece p = [p] := by
        apply patchPiece_plain
        · intro b hb
          exact hplain b (List.mem_filterMap.mpr ⟨p, List.mem_cons_self, hb⟩)
        · intro hp
          exact hclosing (List.mem_cons.mpr (.inl hp.symm))
      have hrest : patched ps = ps := by
        apply ih
        · intro b hb
          obtain ⟨q, hq, hb⟩ := List.mem_filterMap.mp hb
          exact hplain b (List.mem_filterMap.mpr ⟨q, List.mem_cons_of_mem p hq, hb⟩)
        · exact fun hmem => hclosing (List.mem_cons_of_mem p hmem)
      change patchPiece p ++ patched ps = _
      rw [hfirst, hrest]
      rfl

/-! ### Elements -/

def isOpening : Piece → Bool
  | .tag raw => ((parseTag raw).bind Tag.element).isSome
  | _ => false

/-- The number of elements. -/
def elements (ps : List Piece) : ℕ := ps.countP isOpening

theorem elements_patchPiece (p : Piece) : elements (patchPiece p) =
    elements [p] + [p].count (.tag closeRaw) := by
  cases p with
  | char c => rfl
  | block kind body => rfl
  | tag raw =>
      rw [patchPiece]
      by_cases hclosing : raw = closeRaw
      · rw [if_pos hclosing, hclosing, inserted, overrideRaw_eq]
        decide +kernel
      · have hne : Piece.tag raw ≠ .tag closeRaw := fun h => hclosing (Piece.tag.inj h)
        rw [if_neg hclosing, List.count_singleton, if_neg (by simpa using hne)]
        rfl

theorem elements_patched (ps : List Piece) :
    elements (patched ps) = elements ps + ps.count (.tag closeRaw) := by
  induction ps with
  | nil => rfl
  | cons p ps ih =>
      have hfirst := elements_patchPiece p
      change (patchPiece p ++ patched ps).countP isOpening = _
      rw [List.countP_append]
      change elements (patchPiece p) + elements (patched ps) = elements (p :: ps) + _
      have hsplit : elements (p :: ps) = elements [p] + elements ps :=
        @List.countP_append _ isOpening [p] ps
      have hcount : (p :: ps).count (.tag closeRaw) =
          [p].count (.tag closeRaw) + ps.count (.tag closeRaw) := by
        rw [← List.count_append, List.singleton_append]
      rw [ih, hfirst, hsplit, hcount]
      omega

def isSpacing : Piece → Bool
  | .char c => isSpace c
  | _ => false

/-- One element `Override`, with spaces around it. -/
inductive IsOverride (ps : List Piece) : Prop
  | empty {raw name : List Char} {own : Attributes} :
      ps.filter (!isSpacing ·) = [.tag raw] → parseTag raw = some (.empty name own) →
      (splitName name).2 = "Override".toList → IsOverride ps
  | pair {raw raw' name name' : List Char} {own : Attributes} :
      ps.filter (!isSpacing ·) = [.tag raw, .tag raw'] → parseTag raw = some (.start name own) →
      parseTag raw' = some (.stop name') → (splitName name).2 = "Override".toList → IsOverride ps

theorem filter_spacing (ps : List Piece) :
    blocks (ps.filter (!isSpacing ·)) = blocks ps ∧
      elements (ps.filter (!isSpacing ·)) = elements ps := by
  have hblock (p : Piece) (h : isSpacing p = true) : blockOf p = none ∧ isOpening p = false := by
    cases p with
    | char c => exact ⟨rfl, rfl⟩
    | block kind body => cases h
    | tag raw => cases h
  induction ps with
  | nil => exact ⟨rfl, rfl⟩
  | cons p ps ih =>
      cases hp : isSpacing p with
      | true =>
          obtain ⟨hnone, hclosed⟩ := hblock p hp
          have hskip : blocks (p :: ps) = blocks ps := List.filterMap_cons_none hnone
          have hsame : elements (p :: ps) = elements ps :=
            List.countP_cons_of_neg (by simp [hclosed])
          rw [List.filter_cons_of_neg (by simp [hp]), hskip, hsame]
          exact ih
      | false =>
          rw [List.filter_cons_of_pos (by simp [hp])]
          rw [blocks, blocks, List.filterMap_cons, List.filterMap_cons, elements, elements,
            List.countP_cons, List.countP_cons]
          obtain ⟨hblocks, helements⟩ := ih
          unfold blocks at hblocks
          unfold elements at helements
          rw [hblocks, helements]
          exact ⟨rfl, rfl⟩

theorem IsOverride.counts {ps : List Piece} (h : IsOverride ps) :
    blocks ps = [] ∧ elements ps = 1 := by
  obtain ⟨hblocks, helements⟩ := filter_spacing ps
  rw [← hblocks, ← helements]
  cases h with
  | empty hbare hraw hname =>
      rw [hbare]
      exact ⟨rfl, by simp [elements, isOpening, hraw, Tag.element]⟩
  | pair hbare hraw hraw' hname =>
      rw [hbare]
      exact ⟨rfl, by simp [elements, isOpening, hraw, hraw', Tag.element]⟩

/-- The same pieces, with at most one more element `Override`. -/
def AddsOverride (ps qs : List Piece) : Prop :=
  qs = ps ∨ ∃ before after splice, ps = before ++ after ∧ qs = before ++ splice ++ after ∧
    IsOverride splice

theorem AddsOverride.counts {ps qs : List Piece} (h : AddsOverride ps qs) :
    blocks qs = blocks ps ∧ elements qs ≤ elements ps + 1 := by
  cases h with
  | inl hsame =>
      rw [hsame]
      exact ⟨rfl, Nat.le_succ _⟩
  | inr hadds =>
      obtain ⟨before, after, splice, hps, hqs, hsplice⟩ := hadds
      obtain ⟨hblocks, helements⟩ := hsplice.counts
      rw [hps, hqs]
      unfold blocks at hblocks ⊢
      unfold elements at helements ⊢
      simp only [List.filterMap_append, List.countP_append, hblocks, helements, List.append_nil,
        true_and]
      omega

/-- The patch adds one element at most just when the end tag's text is found at
most once, and in no block. -/
theorem addsOverride_patched_iff {ps : List Piece} :
    AddsOverride ps (patched ps) ↔ Plain ps ∧ ps.count (.tag closeRaw) ≤ 1 := by
  constructor
  · intro h
    obtain ⟨hblocks, helements⟩ := h.counts
    rw [elements_patched] at helements
    exact ⟨plain_of_blocks hblocks, by omega⟩
  · intro h
    obtain ⟨hplain, hcount⟩ := h
    by_cases hmem : .tag closeRaw ∈ ps
    · right
      obtain ⟨before, after, rfl⟩ := List.append_of_mem hmem
      rw [List.count_append, List.count_cons_self] at hcount
      have hbefore : .tag closeRaw ∉ before := List.count_eq_zero.mp (by omega)
      have hafter : .tag closeRaw ∉ after := List.count_eq_zero.mp (by omega)
      have hpart (part : List Piece) (hsub : part ⊆ before ++ .tag closeRaw :: after) :
          Plain part := by
        intro b hb
        obtain ⟨p, hp, hb⟩ := List.mem_filterMap.mp hb
        exact hplain b (List.mem_filterMap.mpr ⟨p, hsub hp, hb⟩)
      have hfront := patched_of_plain (hpart before (by simp)) hbefore
      have hback := patched_of_plain (hpart after (by intro p hp; simp [hp])) hafter
      refine ⟨before, .tag closeRaw :: after, inserted, rfl, ?_, ?_⟩
      · have hsplit : patched (before ++ .tag closeRaw :: after) =
            patched before ++ (inserted ++ .tag closeRaw :: patched after) := by
          simp [patched, patchPiece]
        rw [hsplit, hfront, hback, List.append_assoc]
      · have hbare : inserted.filter (!isSpacing ·) = [.tag overrideRaw] := by
          rw [inserted, overrideRaw_eq]
          decide +kernel
        exact .empty hbare parse_overrideRaw (by decide)
    · exact .inl (patched_of_plain hplain hmem)

/-! ## Declarations -/

def typesNamespace : List Char :=
  "http://schemas.openxmlformats.org/package/2006/content-types".toList

def partName : List Char := '/' :: bundlePartPath.toList

def bundleType : List Char := bundleContentType.toList

/-- The content type that an element in a root with these attributes gives the part. -/
def declarationOf (outer : Attributes) (raw : List Char) : Option (Option (List Char)) :=
  ((parseTag raw).bind Tag.element).bind fun element =>
    if (splitName element.1).2 = "Override".toList ∧
        namespaceOf element.2 outer (splitName element.1).1 = some typesNamespace ∧
        element.2.value "PartName".toList = some partName then
      some (element.2.value "ContentType".toList)
    else none

/-- The declarations right inside of the root. -/
def declaredIn (outer : Attributes) (tags : List (ℕ × List Char)) : List (Option (List Char)) :=
  tags.filterMap fun t => if t.1 = 1 then declarationOf outer t.2 else none

def declared (ps : List Piece) : List (Option (List Char)) :=
  match root ps with
  | some (_, outer) => declaredIn outer (levels 0 ps)
  | none => []

/-- A well-formed text with a root `Types` of the content types' namespace. -/
structure Document (ps : List Piece) : Prop where
  valid : ∀ p ∈ ps, p.Valid
  nests : nests none ps = true
  types : ∃ name outer, root ps = some (name, outer) ∧ (splitName name).2 = "Types".toList ∧
    namespaceOf outer [] (splitName name).1 = some typesNamespace

theorem root_patched {ps : List Piece} {element : List Char × Attributes}
    (h : root ps = some element) : root (patched ps) = some element := by
  induction ps with
  | nil => cases h
  | cons p ps ih =>
      cases p with
      | char c => exact ih h
      | block kind body => exact ih h
      | tag raw =>
          have hraw : raw ≠ closeRaw := by
            intro hclosing
            rw [root, hclosing, parse_closeRaw] at h
            cases h
          have hpatch : patched (.tag raw :: ps) = .tag raw :: patched ps := by
            simp [patched, patchPiece, hraw]
          rw [hpatch]
          exact h

theorem Document.patched {ps : List Piece} (h : Document ps) : Document (patched ps) := by
  obtain ⟨name, outer, hroot, htypes⟩ := h.types
  exact ⟨patched_valid h.valid, nests_patched none ps h.nests, name, outer, root_patched hroot,
    htypes⟩

theorem declarationOf_closeRaw (outer : Attributes) : declarationOf outer closeRaw = none := by
  rw [declarationOf, parse_closeRaw]
  rfl

/-- In the root's default namespace the spliced element is a declaration. -/
theorem declarationOf_overrideRaw {outer : Attributes}
    (h : namespaceOf outer [] [] = some typesNamespace) :
    declarationOf outer overrideRaw = some (some bundleType) := by
  have hname : splitName "Override".toList = ([], "Override".toList) := by decide
  have hown : overrideAttributes.value (xmlnsName []) = none := by decide
  have hpart : overrideAttributes.value "PartName".toList = some partName := by decide +kernel
  have htype : overrideAttributes.value "ContentType".toList = some bundleType := by decide +kernel
  have hnamespace : namespaceOf overrideAttributes outer [] = some typesNamespace := by
    rw [namespaceOf, hown, ← h, namespaceOf]
    cases outer.value (xmlnsName []) <;> rfl
  rw [declarationOf, parse_overrideRaw]
  change (if _ then _ else _) = _
  rw [hname, if_pos ⟨rfl, hnamespace, hpart⟩, htype]

theorem Document.default {ps : List Piece} (h : Document ps) {name : List Char}
    {outer : Attributes} (hroot : root ps = some (name, outer)) (hmem : (1, closeRaw) ∈ levels 0 ps) :
    namespaceOf outer [] [] = some typesNamespace := by
  obtain ⟨name', outer', hroot', -, hnamespace⟩ := h.types
  rw [hroot] at hroot'
  cases hroot'
  have hname := root_of_stop parse_closeRaw h.nests hroot hmem
  have hsplit : splitName "Types".toList = ([], "Types".toList) := by decide
  rw [hname, hsplit] at hnamespace
  exact hnamespace

section
variable {outer : Attributes} {tags : List (ℕ × List Char)}

theorem declaredIn_append (tags tags' : List (ℕ × List Char)) :
    declaredIn outer (tags ++ tags') = declaredIn outer tags ++ declaredIn outer tags' :=
  List.filterMap_append

/-- What the patch makes of one tag declares what it did, and the part once more at
an end tag of the root. -/
theorem declaredIn_patchedTag (t : ℕ × List Char)
    (h : t = (1, closeRaw) → namespaceOf outer [] [] = some typesNamespace) :
    declaredIn outer (patchedTag t) = declaredIn outer [t] ++
      List.replicate ([t].count (1, closeRaw)) (some bundleType) := by
  obtain ⟨depth, raw⟩ := t
  by_cases hclosing : raw = closeRaw
  · subst hclosing
    by_cases hdepth : depth = 1
    · subst hdepth
      have hdeclares := declarationOf_overrideRaw (h rfl)
      simp [patchedTag, declaredIn, hdeclares, declarationOf_closeRaw]
    · have hcount : [(depth, closeRaw)].count (1, closeRaw) = 0 := by
        simp [hdepth]
      rw [hcount]
      simp [patchedTag, declaredIn, hdepth]
  · have hcount : [(depth, raw)].count (1, closeRaw) = 0 := by
      simp [hclosing]
    rw [hcount, patchedTag, if_neg hclosing]
    simp

theorem declaredIn_patched
    (h : (1, closeRaw) ∈ tags → namespaceOf outer [] [] = some typesNamespace) :
    (declaredIn outer (tags.flatMap patchedTag)).Perm
      (declaredIn outer tags ++ List.replicate (tags.count (1, closeRaw)) (some bundleType)) := by
  induction tags with
  | nil => exact .refl _
  | cons t tags ih =>
      have hrest := ih fun hmem => h (List.mem_cons_of_mem t hmem)
      have hfirst := declaredIn_patchedTag t fun ht => h (List.mem_cons.mpr (.inl ht.symm))
      have hcount : (t :: tags).count (1, closeRaw) =
          [t].count (1, closeRaw) + tags.count (1, closeRaw) := by
        rw [← List.count_append, List.singleton_append]
      have hsplit : declaredIn outer (t :: tags) = declaredIn outer [t] ++ declaredIn outer tags :=
        declaredIn_append [t] tags
      rw [List.flatMap_cons, declaredIn_append, hfirst, hsplit, hcount, List.replicate_add]
      rw [List.append_assoc, List.append_assoc]
      apply List.Perm.append_left
      have hswap := @List.perm_append_comm _
        (List.replicate ([t].count (1, closeRaw)) (some bundleType)) (declaredIn outer tags)
      apply (hrest.append_left _).trans
      rw [← List.append_assoc, ← List.append_assoc]
      exact hswap.append_right _

end

theorem declared_patched {ps : List Piece} (h : Document ps) :
    (declared (patched ps)).Perm
      (declared ps ++ List.replicate ((levels 0 ps).count (1, closeRaw)) (some bundleType)) := by
  obtain ⟨name, outer, hroot, -⟩ := h.types
  rw [declared, declared, root_patched hroot, hroot, levels_patched]
  exact declaredIn_patched fun hmem => h.default hroot hmem

theorem count_levels_le (depth : ℕ) (ps : List Piece) :
    (levels depth ps).count (1, closeRaw) ≤ ps.count (.tag closeRaw) := by
  induction ps generalizing depth with
  | nil => exact Nat.le_refl _
  | cons p ps ih =>
      cases p with
      | char c => exact (ih depth).trans (List.count_le_count_cons ..)
      | block kind body => exact (ih depth).trans (List.count_le_count_cons ..)
      | tag raw =>
          have hrest := ih (depthAfter depth (parseTag raw))
          rw [levels, List.count_cons, List.count_cons]
          by_cases hclosing : raw = closeRaw
          · subst hclosing
            simp only [beq_self_eq_true, if_true]
            split <;> omega
          · have hne : ((depth, raw) == (1, closeRaw)) = false := by simp [hclosing]
            rw [hne]
            simp only [Bool.false_eq_true, if_false]
            omega

/-! ## The patched text -/

/-- The text that is stored for `text`. -/
def patchedText (text : List Char) : List Char :=
  if (find overrideTag.toList text).isSome then text
  else if (find "</Types>".toList text).isNone then text
  else replaceFrom "</Types>".toList ("  " ++ overrideTag ++ "\n</Types>").toList 0 text

theorem patchContentTypes_encodeUtf8 (text : List Char) :
    patchContentTypes (encodeUtf8 text) = .ok (encodeUtf8 (patchedText text)) := by
  unfold patchContentTypes patchedText
  rw [decodeUtf8_encodeUtf8]
  dsimp only
  split_ifs <;> rfl

/-- The tag is searched for as the writer spells it. -/
def SpelledOut (text : List Char) : Prop := overrideTag.toList <:+: text

theorem patchedText_of_spelledOut {text : List Char} (h : SpelledOut text) :
    patchedText text = text := if_pos ((find_isSome overrideTag_ne_nil).mpr h)

theorem patchedText_spell {ps : List Piece} (hvalid : ∀ p ∈ ps, p.Valid)
    (h : ¬ SpelledOut (spell ps)) : patchedText (spell ps) = spell (patched ps) := by
  have hfind : ¬ (find overrideTag.toList (spell ps)).isSome = true :=
    fun hsome => h ((find_isSome overrideTag_ne_nil).mp hsome)
  rw [← replaceFrom_spell hvalid, patchedText, if_neg hfind]
  split
  · next hnone =>
      have hne : closeTag ≠ [] := by decide
      have habsent : ¬ closeTag <:+: spell ps := by
        rw [← find_isSome hne, Bool.not_eq_true, Option.isSome_eq_false_iff]
        exact hnone
      exact (replaceFrom_of_absent habsent).symm
  · rfl

/-- The text declares the part once, with the bundle's type, and is the text of the
pieces `ps` with at most one more element `Override`. -/
def DeclaredOnce (ps : List Piece) (text : List Char) : Prop :=
  ∃ qs, text = spell qs ∧ Document qs ∧ declared qs = [some bundleType] ∧ AddsOverride ps qs

/-- The spellings that the patch is right for: the part is declared and its tag is
found, or the tag is not found, the end tag is found once at most and in no block,
and either the part is declared or the end tag is the root's. -/
def Suited (ps : List Piece) : Prop :=
  (SpelledOut (spell ps) → declared ps ≠ []) ∧
    (¬ SpelledOut (spell ps) → (Plain ps ∧ ps.count (.tag closeRaw) ≤ 1) ∧
      (declared ps = [] ↔ (1, closeRaw) ∈ levels 0 ps))

theorem declaredOnce_spell {ps qs : List Piece} (h : Document qs) :
    DeclaredOnce ps (spell qs) ↔ declared qs = [some bundleType] ∧ AddsOverride ps qs := by
  constructor
  · intro honce
    obtain ⟨qs', htext, hdoc, hrest⟩ := honce
    rw [spell_unique h.valid hdoc.valid htext]
    exact hrest
  · intro hrest
    exact ⟨qs, rfl, h, hrest⟩

theorem declaredOnce_patchedText_iff {ps : List Piece} (hdoc : Document ps)
    (honce : declared ps = [] ∨ declared ps = [some bundleType]) :
    DeclaredOnce ps (patchedText (spell ps)) ↔ Suited ps := by
  by_cases hspelled : SpelledOut (spell ps)
  · rw [patchedText_of_spelledOut hspelled, declaredOnce_spell hdoc]
    constructor
    · intro h
      refine ⟨fun _ => ?_, fun hnot => absurd hspelled hnot⟩
      rw [h.1]
      exact List.cons_ne_nil _ _
    · intro h
      exact ⟨honce.resolve_left (h.1 hspelled), .inl rfl⟩
  · rw [patchedText_spell hdoc.valid hspelled, declaredOnce_spell hdoc.patched,
      addsOverride_patched_iff]
    have hperm := declared_patched hdoc
    have hlevels := count_levels_le 0 ps
    have hmem : (1, closeRaw) ∈ levels 0 ps ↔ 0 < (levels 0 ps).count (1, closeRaw) :=
      List.count_pos_iff.symm
    constructor
    · intro h
      refine ⟨fun hyes => absurd hyes hspelled, fun _ => ⟨h.2, ?_⟩⟩
      rw [h.1] at hperm
      have hlength := hperm.length_eq
      rw [hmem]
      cases honce with
      | inl hnone =>
          rw [hnone] at hlength ⊢
          simp only [List.nil_append, List.length_replicate, List.length_singleton] at hlength
          exact iff_of_true rfl (by omega)
      | inr hone =>
          rw [hone] at hlength ⊢
          simp only [List.length_append, List.length_replicate, List.length_singleton] at hlength
          exact iff_of_false (List.cons_ne_nil _ _) (by omega)
    · intro h
      obtain ⟨hsingle, hdeclared⟩ := h.2 hspelled
      refine ⟨?_, hsingle⟩
      have hone := hsingle.2
      rw [hmem] at hdeclared
      cases honce with
      | inl hnone =>
          have hpos := hdeclared.mp hnone
          have hcount : (levels 0 ps).count (1, closeRaw) = 1 := by omega
          rw [hnone, hcount] at hperm
          exact List.perm_singleton.mp hperm
      | inr hthere =>
          have hzero : (levels 0 ps).count (1, closeRaw) = 0 := by
            by_contra hne
            have hnil := hdeclared.mpr (by omega)
            rw [hthere] at hnil
            exact List.cons_ne_nil _ _ hnil
          rw [hthere, hzero] at hperm
          exact List.perm_singleton.mp hperm

/-- A successful write declares the part exactly once, and changes nothing else in
the content types, just when their spelling suits the patch. -/
theorem write_declares_iff (L : Stdlib) (parts parts' : List (String × Bytes)) (payload : Payload)
    (ps : List Piece) (hdoc : Document ps)
    (honce : declared ps = [] ∨ declared ps = [some bundleType])
    (hread : zipRead parts contentTypesPath = some (encodeUtf8 (spell ps)))
    (hwrite : BundleWriter.write L (.zip parts) payload = .ok (.zip parts')) :
    ∃ text, zipRead parts' contentTypesPath = some (encodeUtf8 text) ∧
      (DeclaredOnce ps text ↔ Suited ps) := by
  obtain ⟨parts'', data, hparts, hlegible, -, hout⟩ := write_ok_iff.mp hwrite
  cases hparts
  cases hout
  obtain ⟨out, hpatch, hnew⟩ := zipRead_updated_types _ hlegible hread
  rw [patchContentTypes_encodeUtf8, Except.ok.injEq] at hpatch
  rw [← hpatch] at hnew
  exact ⟨_, hnew, declaredOnce_patchedText_iff hdoc honce⟩

/-! ### Two texts -/

def openRaw : List Char :=
  "Types xmlns=\"http://schemas.openxmlformats.org/package/2006/content-types\"".toList

/-- The tag with its attributes in the other order. -/
def reorderedRaw : List Char := ("Override ContentType=\"" ++ bundleContentType ++
  "\" PartName=\"/" ++ bundlePartPath ++ "\"/").toList

def undeclared : List Piece := [.tag openRaw, .tag closeRaw]

def reordered : List Piece := [.tag openRaw, .tag reorderedRaw, .tag closeRaw]

theorem document_of_tags (raws : List (List Char)) (outer : Attributes)
    (hvalid : raws.all (fun raw => tagText none raw && raw.head? != some '!' &&
      raw.head? != some '?') = true)
    (hnests : nests none (raws.map .tag) = true)
    (hroot : root (raws.map .tag) = some ("Types".toList, outer))
    (hnamespace : namespaceOf outer [] [] = some typesNamespace) : Document (raws.map .tag) := by
  refine ⟨?_, hnests, _, outer, hroot, by decide, ?_⟩
  · intro p hp
    obtain ⟨raw, hraw, hp⟩ := List.mem_map.mp hp
    subst hp
    have htag := List.all_eq_true.mp hvalid raw hraw
    simp only [Bool.and_eq_true, bne_iff_ne] at htag
    exact ⟨htag.1.1, htag.1.2, htag.2⟩
  · exact hnamespace

def typesAttributes : Attributes := [("xmlns".toList, typesNamespace)]

def openChars : List Char :=
  ['T', 'y', 'p', 'e', 's', ' ', 'x', 'm', 'l', 'n', 's', '=', '"', 'h', 't', 't', 'p', ':', '/',
    '/', 's', 'c', 'h', 'e', 'm', 'a', 's', '.', 'o', 'p', 'e', 'n', 'x', 'm', 'l', 'f', 'o', 'r',
    'm', 'a', 't', 's', '.', 'o', 'r', 'g', '/', 'p', 'a', 'c', 'k', 'a', 'g', 'e', '/', '2', '0',
    '0', '6', '/', 'c', 'o', 'n', 't', 'e', 'n', 't', '-', 't', 'y', 'p', 'e', 's', '"']

theorem openRaw_eq : openRaw = openChars := by decide +kernel

def reorderedChars : List Char :=
  ['O', 'v', 'e', 'r', 'r', 'i', 'd', 'e', ' ', 'C', 'o', 'n', 't', 'e', 'n', 't', 'T', 'y', 'p',
    'e', '=', '"', 'a', 'p', 'p', 'l', 'i', 'c', 'a', 't', 'i', 'o', 'n', '/', 'v', 'n', 'd', '.',
    'x', 'l', 'p', 'o', 'd', '.', 'b', 'u', 'n', 'd', 'l', 'e', '+', 'j', 's', 'o', 'n', '"', ' ',
    'P', 'a', 'r', 't', 'N', 'a', 'm', 'e', '=', '"', '/', 'c', 'u', 's', 't', 'o', 'm', 'X', 'm',
    'l', '/', 'x', 'l', 'p', 'o', 'd', 'B', 'u', 'n', 'd', 'l', 'e', '.', 'j', 's', 'o', 'n', '"',
    '/']

theorem reorderedRaw_eq : reorderedRaw = reorderedChars := by decide +kernel

theorem undeclared_document : Document undeclared := by
  have hdocument := document_of_tags [openChars, closeRaw] typesAttributes (by decide +kernel)
    (by decide +kernel) (by decide +kernel) (by decide +kernel)
  rwa [← openRaw_eq] at hdocument

theorem reordered_document : Document reordered := by
  have hdocument := document_of_tags [openChars, reorderedChars, closeRaw] typesAttributes
    (by decide +kernel) (by decide +kernel) (by decide +kernel) (by decide +kernel)
  rwa [← openRaw_eq, ← reorderedRaw_eq] at hdocument

theorem not_spelledOut {text : List Char} (h : (find overrideTag.toList text).isSome = false) :
    ¬ SpelledOut text := by
  intro hin
  rw [(find_isSome overrideTag_ne_nil).mpr hin] at h
  cases h

/-- A workbook with these content types is written. -/
theorem write_typed (ps : List Piece) : ∃ parts', BundleWriter.write plainStdlib
    (.zip [(contentTypesPath, encodeUtf8 (spell ps))]) (sessionPayload "hi") =
      .ok (.zip parts') := by
  refine ⟨_, write_ok_iff.mpr ⟨_, _, rfl, ?_, ⟨rfl, by decide +kernel⟩, rfl⟩⟩
  intro data hread
  have hdata : some (encodeUtf8 (spell ps)) = some data := hread
  cases hdata
  exact ⟨_, decodeUtf8_encodeUtf8 _⟩

theorem write_declares_undeclared : ∃ parts' text, BundleWriter.write plainStdlib
    (.zip [(contentTypesPath, encodeUtf8 (spell undeclared))]) (sessionPayload "hi") =
      .ok (.zip parts') ∧ zipRead parts' contentTypesPath = some (encodeUtf8 text) ∧
        DeclaredOnce undeclared text := by
  obtain ⟨parts', hwrite⟩ := write_typed undeclared
  have hnone : declared undeclared = [] := by decide +kernel
  obtain ⟨text, htext, hiff⟩ := write_declares_iff plainStdlib _ parts' _ undeclared
    undeclared_document (.inl hnone) rfl hwrite
  have habsent : ¬ SpelledOut (spell undeclared) := not_spelledOut (by decide +kernel)
  have hplain : Plain undeclared := fun b hb => by cases hb
  refine ⟨parts', text, hwrite, htext, hiff.mpr ⟨fun h => absurd h habsent, fun _ => ?_⟩⟩
  exact ⟨⟨hplain, by decide +kernel⟩, iff_of_true hnone (by decide +kernel)⟩

/-- A declaration in another spelling is not found, and a second one is added. -/
theorem reordered_declaredTwice : ∃ parts' text, BundleWriter.write plainStdlib
    (.zip [(contentTypesPath, encodeUtf8 (spell reordered))]) (sessionPayload "hi") =
      .ok (.zip parts') ∧ zipRead parts' contentTypesPath = some (encodeUtf8 text) ∧
        declared reordered = [some bundleType] ∧ ¬ DeclaredOnce reordered text := by
  obtain ⟨parts', hwrite⟩ := write_typed reordered
  obtain ⟨parts, data, hparts, hlegible, -, hout⟩ := write_ok_iff.mp hwrite
  cases hparts
  cases hout
  obtain ⟨out, hpatch, hnew⟩ := zipRead_updated_types _ hlegible rfl
  rw [patchContentTypes_encodeUtf8, Except.ok.injEq] at hpatch
  rw [← hpatch] at hnew
  have hone : declared reordered = [some bundleType] := by decide +kernel
  refine ⟨_, _, hwrite, hnew, hone, ?_⟩
  rw [declaredOnce_patchedText_iff reordered_document (.inr hone)]
  intro hsuited
  have habsent : ¬ SpelledOut (spell reordered) := not_spelledOut (by decide +kernel)
  have hnil := (hsuited.2 habsent).2.mpr (by decide +kernel)
  rw [hone] at hnil
  cases hnil

end Xlpod.ContentTypes
