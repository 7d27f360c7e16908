/-
Reading tags and attributes as they are written.

* `Scan.Reads`: a reader reads some characters from the front of a text and leaves the rest.
* `Scan.Stands`: characters that stand for a character in a value.
* `Scan.reads_attributeValue`: a value in quotes is read as what its characters stand for.
* `Scan.stands_escapeChar`, `Scan.stands_escapeAscii`: both ways to write a character stand for it.
* `Scan.reads_tag`: a tag is read as it is written.
-/
import Mathlib.Data.List.TakeDrop
import MplsReach.Proofs.Files
import MplsReach.Xml.Reader
import MplsReach.Xml.Writer

namespace MplsReach.Xml

/-- A cursor in front of another text. -/
def Cursor.before (c : Cursor) (cs : List Char) : Cursor := { c with rest := cs }

@[simp] lemma Cursor.rest_before (c : Cursor) (cs : List Char) : (c.before cs).rest = cs := rfl

@[simp] lemma Cursor.before_before (c : Cursor) (cs ds : List Char) :
    (c.before cs).before ds = c.before ds := rfl

namespace Scan

variable {α β : Type} {p : Scan α} {f : α → Scan β} {a : α} {b : β} {u v r cs : List Char}

/-- A reader reads some characters from the front of a text and leaves the rest. -/
def Reads (p : Scan α) (u : List Char) (a : α) (r : List Char) : Prop :=
  ∀ c : Cursor, StateT.run p (c.before (u ++ r)) = some (a, c.before r)

lemma Reads.pure (a : α) (r : List Char) : Reads (pure a) [] a r := fun _ => rfl

lemma Reads.bind (h : Reads p u a (v ++ r)) (h' : Reads (f a) v b r) :
    Reads (p >>= f) (u ++ v) b r := by
  intro c
  rw [StateT.run_bind, List.append_assoc, h c]
  exact h' c

/-- A look ahead, and then some characters. -/
lemma Reads.look (h : Reads p [] a (v ++ r)) (h' : Reads (f a) v b r) :
    Reads (p >>= f) v b r :=
  h.bind h'

/-- Some characters, and then nothing more. -/
lemma Reads.done (h : Reads p u a r) (h' : Reads (f a) [] b r) : Reads (p >>= f) u b r := by
  have := Reads.bind (v := []) h h'
  rwa [List.append_nil] at this

lemma Reads.discard (h : Reads p u a r) : Reads (discard p) u () r := by
  intro c
  change StateT.run (_ <$> p) _ = _
  rw [StateT.run_map, h c]
  rfl

/-! ### Small parts -/

lemma reads_rest (r : List Char) : Reads rest [] r r := fun _ => rfl

lemma reads_goTo (u r : List Char) : Reads (goTo r) u () r := fun _ => rfl

lemma reads_demand {b : Bool} (h : b = true) (r : List Char) : Reads (demand b) [] () r := by
  subst h
  exact fun _ => rfl

lemma reads_accept (word : String) (r : List Char) : Reads (accept word) word.toList true r := by
  refine (reads_rest (word.toList ++ r)).look ?_
  rw [if_pos (by simp)]
  refine Reads.done (a := ()) ?_ (Reads.pure true r)
  have hdrop : (word.toList ++ r).drop word.length = r := by
    rw [← String.length_toList, List.drop_left]
  rw [hdrop]
  exact reads_goTo _ r

/-- A word that the text does not go on with. -/
lemma refuses (word : String) (h : word.toList.isPrefixOf r = false) :
    Reads (accept word) [] false r := by
  refine (reads_rest r).look ?_
  rw [if_neg (by simp [h])]
  exact Reads.pure false r

lemma reads_expect (word : String) (r : List Char) : Reads (expect word) word.toList () r :=
  (reads_accept word r).done (reads_demand rfl r)

/-- Characters of a kind in front of a text that does not go on with this kind. -/
lemma span_append {p : Char → Bool} (hu : ∀ c ∈ u, p c = true)
    (hr : ∀ c ∈ r.head?, p c = false) : (u ++ r).span p = (u, r) := by
  have hstop : r.takeWhile p = [] ∧ r.dropWhile p = r := by
    cases r with
    | nil => simp
    | cons c cs => simp [hr c rfl]
  rw [List.span_eq_takeWhile_dropWhile, List.takeWhile_append_of_pos hu,
    List.dropWhile_append_of_pos hu, hstop.1, hstop.2, List.append_nil]

/-- Blanks are skipped. -/
lemma reads_skipSpaces (hu : ∀ c ∈ u, isSpace c = true)
    (hr : ∀ c ∈ r.head?, isSpace c = false) : Reads skipSpaces u (!u.isEmpty) r := by
  refine (reads_rest (u ++ r)).look ?_
  have hspan := span_append hu hr
  rw [List.span_eq_takeWhile_dropWhile] at hspan
  rw [(Prod.mk.inj hspan).2]
  have hany : (u ++ r).head?.any isSpace = !u.isEmpty := by
    cases u with
    | nil =>
        cases r with
        | nil => rfl
        | cons c cs => simp [hr c rfl]
    | cons c cs => simp [hu c]
  rw [hany]
  exact (reads_goTo u r).done (Reads.pure _ r)

lemma reads_run {p : Char → Bool} (hu : ∀ c ∈ u, p c = true)
    (hr : ∀ c ∈ r.head?, p c = false) : Reads (run p) u u r := by
  refine (reads_rest (u ++ r)).look ?_
  rw [span_append hu hr]
  exact (reads_goTo u r).done (Reads.pure _ r)

/-! ### Names -/

/-- A text that does not go on with a name. -/
def EndsName (r : List Char) : Prop := ∀ c ∈ r.head?, isNameChar c = false ∧ c ≠ ':'

lemma endsName_cons {c : Char} (hc : isNameChar c = false ∧ c ≠ ':') (r : List Char) :
    EndsName (c :: r) := by
  intro d hd
  obtain rfl : c = d := by simpa using hd
  exact hc

lemma exists_of_isPlainName {s : String} (hs : isPlainName s.toList = true) : ∃ c cs,
    s.toList = c :: cs ∧ isNameStart c = true ∧ ∀ d ∈ c :: cs, isNameChar d = true := by
  cases htext : s.toList with
  | nil => exact absurd hs (by simp [htext, isPlainName])
  | cons c cs =>
      rw [htext, isPlainName, Bool.and_eq_true, List.all_eq_true] at hs
      refine ⟨c, cs, rfl, hs.1, List.forall_mem_cons.mpr ⟨?_, hs.2⟩⟩
      simp [isNameChar, hs.1]

lemma reads_plainName? {s : String} (hs : isPlainName s.toList = true) (hr : EndsName r) :
    Reads plainName? s.toList (some s) r := by
  obtain ⟨c, cs, htext, hstart, hall⟩ := exists_of_isPlainName hs
  rw [htext]
  refine (reads_rest _).look ?_
  rw [if_pos (by simp [hstart])]
  refine (reads_run hall fun d hd => (hr d hd).1).done ?_
  rw [← htext, String.ofList_toList]
  exact Reads.pure _ r

/-- A name without a colon has no prefix. -/
lemma reads_qualifiedName {s : String} (hs : isPlainName s.toList = true) (hr : EndsName r) :
    Reads qualifiedName s.toList (none, s) r := by
  refine (reads_plainName? hs hr).done ?_
  have hcolon : ":".toList.isPrefixOf r = false := by
    cases r with
    | nil => rfl
    | cons c cs => simp [List.isPrefixOf_cons_cons, Ne.symm (hr c rfl).2]
  exact (refuses ":" hcolon).look (Reads.pure _ r)

/-! ### Literals -/

lemma cutBeforeAux_append {q : Char} (hu : q ∉ u) (front : List Char) :
    cutBeforeAux [q] front (u ++ q :: r) = some (front.reverse ++ u, r) := by
  induction u generalizing front with
  | nil => simp [cutBeforeAux]
  | cons c cs ih =>
      obtain ⟨hc, hcs⟩ := not_or.mp (mt List.mem_cons.mpr hu)
      simp [cutBeforeAux, hc, ih hcs]

/-- Characters in quotes. -/
lemma reads_literal (hu : ∀ c ∈ u, c ≠ '"' ∧ isDocumentChar c = true) (r : List Char) :
    Reads literal ('"' :: u ++ ['"']) u r := by
  refine (reads_accept "\"" (u ++ ['"'] ++ r)).bind (v := u ++ ['"']) ?_
  rw [if_pos rfl]
  refine (reads_rest (u ++ ['"'] ++ r)).look ?_
  have hcut : cutBefore "\"".toList (u ++ ['"'] ++ r) = some (u, r) := by
    rw [List.append_assoc]
    exact cutBeforeAux_append (fun h => (hu '"' h).1 rfl) []
  rw [hcut]
  refine (reads_demand (List.all_eq_true.mpr fun c hc => (hu c hc).2) _).look ?_
  exact (reads_goTo (u ++ ['"']) r).done (Reads.pure u r)

/-! ### Values -/

@[simp] lemma run_rest (c : Cursor) : StateT.run rest c = some (c.rest, c) := rfl

@[simp] lemma run_goTo (c : Cursor) (cs : List Char) :
    StateT.run (goTo cs) c = some ((), c.before cs) := rfl

variable {d : DocumentType} {e : List Char → Scan (List Char)} {x : Char}

/-- Characters that stand for a character in a value in quotes: the character itself, or a reference
to it after its ampersand. -/
inductive Stands (x : Char) : List Char → Prop where
  | plain : x ≠ '<' → x ≠ '&' → x ≠ '"' → (isSpace x = true → x = ' ') → Stands x [x]
  | reference {body : List Char} : (∀ y ∈ body, y ≠ '&' ∧ y ≠ '"' ∧ y ≠ '\r' ∧ isDocumentChar y) →
      (∀ d e r, Reads (valueReference d e) body [x] r) → Stands x ('&' :: body)

/-- Characters of values that stand for themselves. -/
def Verbatim (u : List Char) : Prop :=
  ∀ y ∈ u, y ≠ '<' ∧ isDocumentChar y = true ∧ (isSpace y = true → y = ' ')

lemma reads_valueText (hu : Verbatim u) (r : List Char) : Reads (valueText u) [] u r := by
  have hall : (u.all fun y => y ≠ '<' && isDocumentChar y) = true :=
    List.all_eq_true.mpr fun y hy => by simp [hu y hy]
  have hmap : (u.map fun y => if isSpace y then ' ' else y) = u := by
    refine (List.map_congr_left fun y hy => ?_).trans (List.map_id u)
    split
    next hspace => exact ((hu y hy).2.2 hspace).symm
    next => rfl
  refine (reads_demand hall r).look ?_
  rw [hmap]
  exact Reads.pure u r

/-- A reference and the text behind it. -/
lemma reads_valuePart (hu : ∀ r, Reads (valueReference d e) u [x] r) (hv : Verbatim v)
    (r : List Char) : Reads (valuePart d e (u ++ v)) [] (x :: v) r := by
  intro c
  have hreference := hu v c
  have htext := reads_valueText hv v c
  rw [List.nil_append] at htext
  simp [valuePart, StateT.run_bind, hreference, htext]

/-- Characters written as ones that stand for them, cut at the ampersands. -/
lemma cut_escaped {esc : Char → List Char} (cs : List Char)
    (h : ∀ x ∈ cs, isDocumentChar x = true ∧ Stands x (esc x)) : ∃ part parts back,
    Text.cutWhere (· = '&') (cs.flatMap esc) = part :: parts ∧ Verbatim part ∧
      (∀ r, Reads (parts.mapM (valuePart d e)) [] back r) ∧ part ++ back.flatten = cs := by
  induction cs with
  | nil => exact ⟨[], [], [], rfl, by simp [Verbatim], Reads.pure [], rfl⟩
  | cons x cs ih =>
      obtain ⟨⟨hx, hstands⟩, hcs⟩ := List.forall_mem_cons.mp h
      obtain ⟨part, parts, back, hcut, hpart, hparts, hback⟩ := ih hcs
      rw [List.flatMap_cons]
      generalize esc x = w at hstands ⊢
      cases hstands with
      | plain hlt hamp hquote hspace =>
          refine ⟨x :: part, parts, back, ?_, ?_, hparts, by rw [List.cons_append, hback]⟩
          · exact Text.cutWhere_append (by simpa using hamp) hcut
          · exact List.forall_mem_cons.mpr ⟨⟨hlt, hx, hspace⟩, hpart⟩
      | @reference body hbody hreads =>
          refine ⟨[], (body ++ part) :: parts, (x :: part) :: back, ?_, by simp [Verbatim],
            fun r => ?_, by simp [← hback]⟩
          · rw [List.cons_append, Text.cutWhere_cons_of_pos (by simp), Text.cutWhere_append _ hcut]
            exact fun y hy => decide_eq_false (hbody y hy).1
          · rw [List.mapM_cons]
            refine (reads_valuePart (hreads d e) hpart r).look ?_
            exact (hparts r).look (Reads.pure _ r)

lemma unifyNewlines_of_forall {cs : List Char} (h : ∀ x ∈ cs, x ≠ '\r') :
    Text.unifyNewlines cs = cs := by
  induction cs with
  | nil => rfl
  | cons x cs ih =>
      obtain ⟨hx, hcs⟩ := List.forall_mem_cons.mp h
      rw [Text.unifyNewlines, if_neg hx, ih hcs]
      exact fun _ heq => absurd heq hx

lemma mem_flatMap_escaped {esc : Char → List Char} {cs : List Char}
    (h : ∀ x ∈ cs, isDocumentChar x = true ∧ Stands x (esc x)) :
    ∀ y ∈ cs.flatMap esc, y ≠ '"' ∧ isDocumentChar y = true ∧ y ≠ '\r' := by
  intro y hy
  obtain ⟨x, hx, hy⟩ := List.mem_flatMap.mp hy
  obtain ⟨hchar, hstands⟩ := h x hx
  generalize esc x = w at hstands hy
  cases hstands with
  | plain hlt hamp hquote hspace =>
      obtain rfl := List.mem_singleton.mp hy
      refine ⟨hquote, hchar, ?_⟩
      rintro rfl
      exact absurd (hspace rfl) (by decide)
  | @reference body hbody hreads =>
      rcases List.mem_cons.mp hy with rfl | hy
      · decide
      · exact ⟨(hbody y hy).2.1, (hbody y hy).2.2.2, (hbody y hy).2.2.1⟩

/-- A value in quotes is read as what its characters stand for. -/
lemma reads_attributeValue {esc : Char → List Char} {cs : List Char}
    (h : ∀ x ∈ cs, isDocumentChar x = true ∧ Stands x (esc x)) (r : List Char) :
    Reads (attributeValue d) ('"' :: cs.flatMap esc ++ ['"']) cs r := by
  have hmem := mem_flatMap_escaped h
  refine (reads_literal (fun y hy => ⟨(hmem y hy).1, (hmem y hy).2.1⟩) r).done ?_
  rw [unifyNewlines_of_forall fun y hy => (hmem y hy).2.2]
  obtain ⟨part, parts, back, hcut, hpart, hparts, hback⟩ :=
    cut_escaped (d := d) (e := resolveValue d entityDepth) cs h
  rw [resolveValue, hcut]
  refine (reads_valueText hpart r).look ((hparts r).look ?_)
  rw [hback]
  exact Reads.pure cs r

/-! ### Characters as they are written -/

lemma reads_name {s : String} (hs : isPlainName s.toList = true) (hr : EndsName r) :
    Reads name s.toList s r := by
  obtain ⟨c, cs, htext, hstart, hall⟩ := exists_of_isPlainName hs
  have hname : Reads name? s.toList (some s) r := by
    rw [htext]
    refine (reads_rest _).look ?_
    simp only [List.cons_append, List.head?_cons, hstart, Bool.true_or, if_true]
    refine (reads_run (fun d hd => by simp [hall d hd]) fun d hd => by simp [hr d hd]).done ?_
    rw [← htext, String.ofList_toList]
    exact Reads.pure _ r
  exact hname.done (Reads.pure s r)

/-- A reference to a character by its name. -/
lemma reads_named {s : String} (hs : isPlainName s.toList = true) (hx : namedChar? s = some x)
    (d : DocumentType) (e : List Char → Scan (List Char)) (r : List Char) :
    Reads (valueReference d e) (s.toList ++ [';']) [x] r := by
  have hhash : "#".toList.isPrefixOf (s.toList ++ [';'] ++ r) = false := by
    obtain ⟨c, cs, htext, hstart, -⟩ := exists_of_isPlainName hs
    have hne : '#' ≠ c := by
      rintro rfl
      exact absurd hstart (by decide)
    simp [htext, List.isPrefixOf_cons_cons, hne]
  refine (refuses "#" hhash).look ?_
  rw [if_neg (by simp)]
  refine (reads_name hs (endsName_cons (by decide) r)).bind ((reads_expect ";" r).done ?_)
  rw [hx]
  exact Reads.pure [x] r

lemma toNat_of_isDigit {y : Char} (hy : y.isDigit = true) : 48 ≤ y.toNat ∧ y.toNat ≤ 57 := by
  simp only [Char.isDigit, Bool.and_eq_true, decide_eq_true_eq, ge_iff_le,
    UInt32.le_iff_toNat_le] at hy
  exact hy

lemma foldlM_numeral {cs : List Char} (h : ∀ y ∈ cs, y.isDigit = true) (n : ℕ) :
    cs.foldlM (fun n c => (hexValue? c).bind fun d =>
      if d < 10 then some (n * 10 + d) else none) n = some (Nat.ofDigitChars 10 cs n) := by
  induction cs generalizing n with
  | nil => rfl
  | cons y cs ih =>
      obtain ⟨hy, hcs⟩ := List.forall_mem_cons.mp h
      have hlt : y.toNat - 48 < 10 := by
        have hrange := toNat_of_isDigit hy
        omega
      have hstep : ((hexValue? y).bind fun d => if d < 10 then some (n * 10 + d) else none) =
          some (10 * n + (y.toNat - '0'.toNat)) := by
        simp [hexValue?, hy, hlt, Nat.mul_comm]
      rw [List.foldlM_cons, hstep, Nat.ofDigitChars_cons]
      exact ih hcs _

/-- A reference to a character by its number. -/
lemma reads_numbered (hx : isDocumentChar x = true) (d : DocumentType)
    (e : List Char → Scan (List Char)) (r : List Char) :
    Reads (valueReference d e) ('#' :: Nat.toDigits 10 x.toNat ++ [';']) [x] r := by
  have hdigit : ∀ y ∈ Nat.toDigits 10 x.toNat, y.isDigit = true :=
    fun y hy => Nat.isDigit_of_mem_toDigits (by decide) (by decide) hy
  have hnumeral : numeral? 10 (Nat.toDigits 10 x.toNat) = some x.toNat := by
    have hempty : (Nat.toDigits 10 x.toNat).isEmpty = false := by simp
    rw [numeral?, hempty, if_neg (by simp), foldlM_numeral hdigit, Nat.ofDigitChars_ten_toDigits]
  have hchar : charOfNumber? x.toNat = some x := by
    have hvalid : x.toNat.isValidChar := x.valid
    have heq : Char.ofNatAux x.toNat hvalid = x := Char.ext rfl
    rw [charOfNumber?, dif_pos hvalid]
    dsimp only
    rw [heq, if_pos hx]
  have hhex : "x".toList.isPrefixOf (Nat.toDigits 10 x.toNat ++ [';'] ++ r) = false := by
    obtain ⟨y, ys, hys⟩ := List.exists_cons_of_ne_nil (Nat.toDigits_ne_nil (n := x.toNat) (b := 10))
    have hne : 'x' ≠ y := by
      rintro rfl
      exact absurd (hdigit 'x' (by simp [hys])) (by decide)
    simp [hys, List.isPrefixOf_cons_cons, hne]
  have hreference : Reads characterReference (Nat.toDigits 10 x.toNat ++ [';']) x r := by
    refine (refuses "x" hhex).look ?_
    refine (reads_run (fun y hy => ?_) ?_).bind ((reads_expect ";" r).done ?_)
    · simp [hexValue?, hdigit y hy]
    · simp [hexValue?]
    · simp only [Bool.false_eq_true, if_false, hnumeral, Option.bind_some, hchar]
      exact Reads.pure x r
  refine (reads_accept "#" _).bind ?_
  rw [if_pos rfl]
  exact hreference.done (Reads.pure [x] r)

lemma stands_named {s : String} (hs : isPlainName s.toList = true) (hx : namedChar? s = some x)
    (hchars : (s.toList.all fun y => y ≠ '&' && y ≠ '"' && y ≠ '\r' && isDocumentChar y) = true) :
    Stands x ('&' :: (s.toList ++ [';'])) := by
  refine .reference (List.forall_mem_append.mpr ⟨fun y hy => ?_, ?_⟩) (reads_named hs hx)
  · simpa [and_assoc] using List.all_eq_true.mp hchars y hy
  · exact List.forall_mem_singleton.mpr (by decide)

lemma stands_numbered (hx : isDocumentChar x = true) :
    Stands x ('&' :: ('#' :: Nat.toDigits 10 x.toNat ++ [';'])) := by
  have hdigit : ∀ y ∈ Nat.toDigits 10 x.toNat,
      y ≠ '&' ∧ y ≠ '"' ∧ y ≠ '\r' ∧ isDocumentChar y := by
    intro y hy
    have hrange := toNat_of_isDigit (Nat.isDigit_of_mem_toDigits (by decide) (by decide) hy)
    refine ⟨?_, ?_, ?_, ?_⟩
    · rintro rfl
      exact absurd hrange (by decide)
    · rintro rfl
      exact absurd hrange (by decide)
    · rintro rfl
      exact absurd hrange (by decide)
    · simp [isDocumentChar, Text.inRanges]
      omega
  refine .reference (List.forall_mem_append.mpr ⟨?_, ?_⟩) (reads_numbered hx)
  · exact List.forall_mem_cons.mpr ⟨by decide, hdigit⟩
  · exact List.forall_mem_singleton.mpr (by decide)

/-- A character as it is written in a document stands for itself. -/
lemma stands_escapeChar (hx : isDocumentChar x = true) : Stands x (escapeChar x).toList := by
  unfold escapeChar
  split
  · exact stands_named (s := "amp") (by decide) rfl (by decide)
  · exact stands_named (s := "lt") (by decide) rfl (by decide)
  · exact stands_named (s := "gt") (by decide) rfl (by decide)
  · exact stands_named (s := "quot") (by decide) rfl (by decide)
  · exact stands_numbered (x := '\n') (by decide)
  · exact stands_numbered (x := '\r') (by decide)
  · exact stands_numbered (x := '\t') (by decide)
  next hamp hlt _ hquote hfeed hreturn htab =>
    rw [String.toList_singleton]
    refine .plain hlt hamp hquote fun hspace => ?_
    simp only [isSpace, Bool.or_eq_true, decide_eq_true_eq] at hspace
    rcases hspace with ((heq | heq) | heq) | heq
    · exact heq
    · exact absurd heq htab
    · exact absurd heq hfeed
    · exact absurd heq hreturn

/-- A character as it is written in a document in ASCII stands for itself. -/
lemma stands_escapeAscii (hx : isDocumentChar x = true) : Stands x (escapeAscii x).toList := by
  unfold escapeAscii
  split
  · exact stands_escapeChar hx
  · have htext : ("&#" ++ toString x.toNat ++ ";").toList =
        '&' :: ('#' :: Nat.toDigits 10 x.toNat ++ [';']) := by
      simp
    rw [htext]
    exact stands_numbered hx

/-! ### Tags -/

/-- How the characters of values are written, so that each one can be read back. -/
def Escapes (esc : Char → List Char) : Prop := ∀ x, isDocumentChar x = true → Stands x (esc x)

/-- Attributes as they are written, each behind a blank. -/
def attributeText (esc : Char → List Char) (as : List (String × String)) : List Char :=
  as.flatMap fun a => ' ' :: a.1.toList ++ '=' :: '"' :: a.2.toList.flatMap esc ++ ['"']

/-- Attributes that can be written and read back. -/
structure Sound (as : List (String × String)) : Prop where
  names : ∀ a ∈ as, isPlainName a.1.toList = true ∧ a.1 ≠ "xmlns"
  values : ∀ a ∈ as, ∀ x ∈ a.2.toList, isDocumentChar x = true
  nodup : (as.map Prod.fst).Nodup

lemma sound_nil : Sound [] := ⟨by simp, by simp, by simp⟩

variable {esc : Char → List Char} {as : List (String × String)}

/-- One attribute behind its blank. -/
lemma reads_oneAttribute (hesc : Escapes esc) {a : String × String} (w : Written)
    (hname : isPlainName a.1.toList = true) (hvalue : ∀ x ∈ a.2.toList, isDocumentChar x = true)
    (r : List Char) :
    Reads (oneAttribute (.empty false) w)
      (a.1.toList ++ '=' :: '"' :: a.2.toList.flatMap esc ++ ['"']) (⟨none, a.1⟩, a.2) r := by
  rw [List.append_assoc]
  refine (reads_qualifiedName hname (endsName_cons (by decide) _)).bind ?_
  refine (reads_skipSpaces (u := []) (by simp) (by simp [isSpace])).discard.look ?_
  refine (reads_expect "=" _).bind (v := '"' :: a.2.toList.flatMap esc ++ ['"']) ?_
  refine (reads_skipSpaces (u := []) (by simp) (by simp [isSpace])).discard.look ?_
  refine (reads_attributeValue (fun x hx => ⟨hvalue x hx, hesc x (hvalue x hx)⟩) r).done ?_
  have hread : Reads (pure (⟨none, a.1⟩, String.ofList a.2.toList)) []
      ((⟨none, a.1⟩, a.2) : Written × String) r := by
    rw [String.ofList_toList]
    exact Reads.pure _ r
  exact hread

lemma attributeRole_of_ne {name : String} (hname : name ≠ "xmlns") (value : String) :
    attributeRole ⟨none, name⟩ value = pure .plain := by
  unfold attributeRole
  split
  next heq => exact absurd (Written.mk.inj heq).2 hname
  next heq => exact absurd (Written.mk.inj heq).1 (by simp)
  next => rfl

/-- An attribute without a prefix that declares nothing is kept. -/
lemma reads_placeAttribute {a : String × String} (hname : a.1 ≠ "xmlns") (t : TagReading)
    (r : List Char) : Reads (placeAttribute t ⟨none, a.1⟩ a.2) []
      { t with plain := t.plain ++ [(⟨none, a.1⟩, a.2)] } r := by
  have hrule : blankRule ⟨none, a.1⟩ a.2 t.keepsBlanks = pure t.keepsBlanks :=
    if_neg (by simp)
  rw [placeAttribute, hrule, attributeRole_of_ne hname]
  exact Reads.pure _ r

lemma not_isSpace_of_isNameStart {c : Char} (hc : isNameStart c = true) : isSpace c = false := by
  by_contra hspace
  simp only [isSpace, Bool.not_eq_false, Bool.or_eq_true, decide_eq_true_eq] at hspace
  rcases hspace with ((rfl | rfl) | rfl) | rfl
  all_goals exact absurd hc (by decide)

/-- A name does not start with a mark. -/
lemma isPrefixOf_of_isNameStart {c x : Char} (hc : isNameStart c = true)
    (hx : isNameStart x = false) (xs cs : List Char) :
    (x :: xs).isPrefixOf (c :: cs) = false := by
  have hne : x ≠ c := by
    rintro rfl
    simp [hc] at hx
  simp [List.isPrefixOf_cons_cons, hne]

/-- How a tag ends, and whether it closes its element at once. -/
def IsClose (close : String) (closed : Bool) : Prop :=
  close = ">" ∧ closed = false ∨ close = "/>" ∧ closed = true

/-- Attributes are read as they are written, up to the end of their tag. -/
lemma reads_attributes (hesc : Escapes esc) (w : Written) {close : String} {closed : Bool}
    (hclose : IsClose close closed)
    (hnames : ∀ a ∈ as, isPlainName a.1.toList = true ∧ a.1 ≠ "xmlns")
    (hvalues : ∀ a ∈ as, ∀ x ∈ a.2.toList, isDocumentChar x = true) {fuel : ℕ}
    (hfuel : as.length < fuel) (t : TagReading) (r : List Char) :
    Reads (skipSpaces >>= fun spaced => attributes (.empty false) w fuel spaced t)
      (attributeText esc as ++ close.toList)
      ({ t with plain := t.plain ++ as.map fun a => (⟨none, a.1⟩, a.2) }, closed) r := by
  induction as generalizing fuel t with
  | nil =>
      obtain ⟨n, rfl⟩ := Nat.exists_eq_add_one_of_ne_zero (Nat.ne_of_gt hfuel)
      rw [attributeText, List.flatMap_nil, List.nil_append, List.map_nil, List.append_nil]
      rcases hclose with ⟨rfl, rfl⟩ | ⟨rfl, rfl⟩
      · refine (reads_skipSpaces (u := []) (by simp) (by simp [isSpace])).look ?_
        refine (reads_accept ">" r).done ?_
        exact Reads.pure _ r
      · refine (reads_skipSpaces (u := []) (by simp) (by simp [isSpace])).look ?_
        refine (refuses ">" (by simp [List.isPrefixOf_cons_cons])).look ?_
        exact (reads_accept "/>" r).done (Reads.pure _ r)
  | cons a as ih =>
      obtain ⟨n, rfl⟩ := Nat.exists_eq_add_one_of_ne_zero (Nat.ne_of_gt (Nat.zero_lt_of_lt hfuel))
      obtain ⟨hname, hnames⟩ := List.forall_mem_cons.mp hnames
      obtain ⟨hvalue, hvalues⟩ := List.forall_mem_cons.mp hvalues
      obtain ⟨c, cs, htext, hstart, -⟩ := exists_of_isPlainName hname.1
      have hsplit : attributeText esc (a :: as) ++ close.toList = [' '] ++
          ((a.1.toList ++ '=' :: '"' :: a.2.toList.flatMap esc ++ ['"']) ++
            (attributeText esc as ++ close.toList)) := by
        simp [attributeText]
      rw [hsplit]
      refine (reads_skipSpaces (by simp [isSpace]) ?_).bind ?_
      · simp [htext, not_isSpace_of_isNameStart hstart]
      refine (refuses ">" ?_).look ((refuses "/>" ?_).look ((reads_demand rfl _).look ?_))
      · rw [htext]
        exact isPrefixOf_of_isNameStart hstart (by decide) _ _
      · rw [htext]
        exact isPrefixOf_of_isNameStart hstart (by decide) _ _
      refine (reads_oneAttribute hesc w hname.1 hvalue _).bind ?_
      refine (reads_placeAttribute hname.2 t _).look ?_
      have hrest := ih hnames hvalues (Nat.lt_of_succ_lt_succ hfuel)
        { t with plain := t.plain ++ [(⟨none, a.1⟩, a.2)] }
      simpa using hrest

/-- Attributes without prefixes and with different names get no notice. -/
lemma reads_checkAttributes (scope : Scope) {seen : List Written}
    (hseen : ∀ a ∈ as, ⟨none, a.1⟩ ∉ seen) (hnodup : (as.map Prod.fst).Nodup) (r : List Char) :
    Reads (checkAttributes scope (as.map fun a => (⟨none, a.1⟩, a.2)) seen) [] () r := by
  induction as generalizing seen with
  | nil => exact Reads.pure () r
  | cons a as ih =>
      obtain ⟨hfresh, hseen⟩ := List.forall_mem_cons.mp hseen
      rw [List.map_cons, List.nodup_cons] at hnodup
      refine (reads_demand (by simpa using hfresh) r).look (ih (fun b hb => ?_) hnodup.2)
      rw [List.mem_cons, not_or]
      refine ⟨fun heq => hnodup.1 ?_, hseen b hb⟩
      rw [← (Written.mk.inj heq).2]
      exact List.mem_map_of_mem hb

/-- Without declarations no attribute identifies its element. -/
lemma reads_identifiers (w : Written) (as : List (String × String)) (r : List Char) :
    Reads (identifiers (.empty false) w (as.map fun a => (⟨none, a.1⟩, a.2))) [] () r := by
  induction as with
  | nil => exact Reads.pure () r
  | cons a as ih =>
      rw [List.map_cons, identifiers, if_neg (by simp), if_neg (by simp [DocumentType.identifies,
        DocumentType.empty])]
      exact ih

/-- The tag of an element that declares no name spaces, as it is read. -/
def plainTag (name : String) (as : List (String × String)) : Tag where
  written := ⟨none, name⟩
  scope := .outermost
  name := ⟨none, name⟩
  attributes := as.map fun a => (⟨none, a.1⟩, a.2)
  keepsBlanks := false

/-- A tag is read as it is written. -/
lemma reads_tag (hesc : Escapes esc) {name close : String} {closed : Bool}
    (hclose : IsClose close closed) (hname : isPlainName name.toList = true) (has : Sound as)
    {fuel : ℕ} (hfuel : as.length < fuel) (r : List Char) :
    Reads (tag (.empty false) fuel .outermost false)
      (name.toList ++ (attributeText esc as ++ close.toList)) (plainTag name as, closed) r := by
  have hends : EndsName (attributeText esc as ++ close.toList ++ r) := by
    cases as with
    | nil => rcases hclose with ⟨rfl, -⟩ | ⟨rfl, -⟩ <;> exact endsName_cons (by decide) _
    | cons a as => exact endsName_cons (by decide) _
  refine (reads_qualifiedName hname hends).bind ?_
  dsimp only
  rw [← bind_assoc]
  refine (reads_attributes hesc ⟨none, name⟩ hclose has.names has.values hfuel
    ⟨[], [], false⟩ r).done ?_
  refine (reads_checkAttributes _ (by simp) has.nodup r).look ?_
  refine (reads_identifiers _ as r).look ?_
  have htag : (⟨⟨none, name⟩, .outermost, Scope.outermost.elementName ⟨none, name⟩,
      (as.map fun a => (⟨none, a.1⟩, a.2)).map fun a => (Scope.outermost.attributeName a.1, a.2),
      false⟩ : Tag) = plainTag name as := by
    simp [plainTag, Scope.elementName, Scope.attributeName, Scope.isLost, Scope.space?,
      Scope.outermost]
  rw [← htag]
  exact Reads.pure _ r

end Scan

end MplsReach.Xml
