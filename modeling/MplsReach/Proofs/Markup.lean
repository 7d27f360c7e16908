/-
Elements are read as they are written.

* `LaidOut`: texts that write elements one after the other, with any layout between the tags.
* `Stack.Goes`: the pieces of a text take the open elements from one state to another.
* `Stack.goes_laidOut`: elements that are laid out become children of the innermost element.
* `Element.Writable.laidAs_plain`, `Element.Writable.laidAs_prettyAt`: the texts that are written for
  an element lay it out.
* `Node.read_plain`, `Node.read_pretty`: both texts of an element are read as that element.
-/
import MplsReach.Proofs.Scanning

namespace MplsReach.Xml

open Scan

/-! ### Elements as nodes -/

namespace Element

mutual

/-- An element as a node of a document. -/
def node : Element → Node
  | mk name as cs => .element ⟨none, name⟩ (as.map fun a => (⟨none, a.1⟩, a.2)) (nodes cs)

/-- Elements as nodes. -/
def nodes : List Element → List Node
  | [] => []
  | e :: es => e.node :: nodes es

end

lemma nodes_eq_map (es : List Element) : nodes es = es.map node := by
  induction es with
  | nil => rfl
  | cons e es ih => rw [nodes, ih, List.map_cons]

/-- Elements of a depth with names and attributes that can be written and read back. -/
inductive Writable : ℕ → Element → Prop where
  | mk {d : ℕ} {name : String} {as : List (String × String)} {cs : List Element} :
      isPlainName name.toList = true → Sound as → (∀ c ∈ cs, Writable d c) →
      Writable (d + 1) (mk name as cs)

end Element

/-! ### Layout -/

/-- Blanks and line ends, with which texts are laid out. -/
def Blank (gap : List Char) : Prop := ∀ c ∈ gap, c = ' ' ∨ c = '\n'

lemma Blank.isSpace {gap : List Char} (h : Blank gap) : ∀ c ∈ gap, isSpace c = true := by
  intro c hc
  rcases h c hc with rfl | rfl <;> rfl

lemma blank_nil : Blank [] := by simp [Blank]

/-- The text of a tag without the bracket in front. -/
def tagText (esc : Char → List Char) (name : String) (as : List (String × String))
    (close : String) : List Char :=
  name.toList ++ (attributeText esc as ++ close.toList)

lemma length_le_tagText (esc : Char → List Char) (name : String) (as : List (String × String))
    (close : String) : as.length ≤ (tagText esc name as close).length := by
  have hlength : as.length ≤ (attributeText esc as).length := by
    induction as with
    | nil => exact Nat.zero_le _
    | cons a as ih =>
        rw [attributeText, List.flatMap_cons, List.length_append, ← attributeText]
        simp only [List.length_cons, List.length_append]
        omega
  simp only [tagText, List.length_append]
  omega

/-- The text of a closing tag. -/
def endText (name : String) : List Char := '<' :: '/' :: (name.toList ++ ['>'])

/-- Texts that write elements of a depth, one after the other, with layout in front of tags. -/
inductive LaidOut (esc : Char → List Char) : ℕ → List Element → List Char → Prop where
  | nil {d : ℕ} : LaidOut esc d [] []
  | empty {d : ℕ} {gap v : List Char} {name : String} {as : List (String × String)}
      {es : List Element} :
      Blank gap → isPlainName name.toList = true → Sound as → LaidOut esc (d + 1) es v →
      LaidOut esc (d + 1) (.mk name as [] :: es) (gap ++ ('<' :: tagText esc name as "/>" ++ v))
  | full {d : ℕ} {gap back u v : List Char} {name : String} {as : List (String × String)}
      {c : Element} {cs es : List Element} :
      Blank gap → Blank back → isPlainName name.toList = true → Sound as →
      LaidOut esc d (c :: cs) u → LaidOut esc (d + 1) es v →
      LaidOut esc (d + 1) (.mk name as (c :: cs) :: es)
        (gap ++ ('<' :: tagText esc name as ">" ++ (u ++ (back ++ (endText name ++ v)))))

/-! ### Open elements -/

namespace Stack

variable {ex : Scope → List Char → Scan (List Node)} {fuel : ℕ} {s s' s'' : Stack}
  {u v r : List Char} {esc : Char → List Char}

/-- The pieces of a text in front of another take the open elements from one state to another. -/
def Goes (fuel : ℕ) (ex : Scope → List Char → Scan (List Node)) (s : Stack) (u : List Char)
    (s' : Stack) (r : List Char) : Prop :=
  ∃ k ≤ u.length, ∀ n (c : Cursor),
    StateT.run (run (.empty false) fuel ex (fun s _ => s.below.isEmpty) (n + k) s)
        (c.before (u ++ r)) =
      StateT.run (run (.empty false) fuel ex (fun s _ => s.below.isEmpty) n s') (c.before r)

lemma Goes.refl (s : Stack) (r : List Char) : Goes fuel ex s [] s r :=
  ⟨0, Nat.zero_le _, fun _ _ => rfl⟩

lemma Goes.trans (h : Goes fuel ex s u s' (v ++ r)) (h' : Goes fuel ex s' v s'' r) :
    Goes fuel ex s (u ++ v) s'' r := by
  obtain ⟨k, hk, hrun⟩ := h
  obtain ⟨k', hk', hrun'⟩ := h'
  refine ⟨k' + k, by rw [List.length_append]; omega, fun n c => ?_⟩
  rw [← Nat.add_assoc, List.append_assoc, hrun (n + k') c, hrun' n c]

/-- One piece, inside of an element. -/
lemma Goes.of_step (hbelow : s.below ≠ []) (hu : u ≠ [])
    (h : Reads (s.step (.empty false) fuel ex) u s' r) : Goes fuel ex s u s' r := by
  refine ⟨1, List.length_pos_iff.mpr hu, fun n c => ?_⟩
  rw [run, StateT.run_bind, run_rest]
  simp only [Cursor.rest_before, Option.bind_eq_bind, Option.bind_some]
  rw [if_neg (by simpa using hbelow), StateT.run_bind, h c]
  rfl

/-- Children added in order. -/
def addAll (s : Stack) (nodes : List Node) : Stack :=
  { s with top := { s.top with children := nodes.reverse ++ s.top.children } }

/-- Inside of an element that has no text so far. -/
structure Inside (s : Stack) : Prop where
  below : s.below ≠ []
  scope : s.top.tag.scope = .outermost
  blanks : s.top.tag.keepsBlanks = false
  children : ∀ n ∈ s.top.children, n.isText = false

lemma Inside.touchesText (h : s.Inside) : touchesText s.top.children = false := by
  have hhead : ∀ n ∈ s.top.children.head?, n.isText = false :=
    fun n hn => h.children n (List.mem_of_mem_head? hn)
  have hlast : ∀ n ∈ s.top.children.getLast?, n.isText = false :=
    fun n hn => h.children n (List.mem_of_mem_getLast? hn)
  rw [Stack.touchesText, Bool.or_eq_false_iff]
  refine ⟨?_, ?_⟩
  · cases hc : s.top.children.head? with
    | none => rfl
    | some n => exact hhead n hc
  · cases hc : s.top.children.getLast? with
    | none => rfl
    | some n => exact hlast n hc

/-! ### Pieces -/

/-- The text behind layout: a tag that opens an element, or the end of an element with children. -/
def Follows (s : Stack) (r : List Char) : Prop :=
  ∃ c cs, r = '<' :: c :: cs ∧ (c = '/' → s.top.children ≠ [])

lemma chunksAux_blank {gap : List Char} (hgap : Blank gap) (front r : List Char) :
    CharacterData.chunksAux front (gap ++ '<' :: r) =
      (CharacterData.close (gap.reverse ++ front) ('<' :: r), '<' :: r) := by
  induction gap generalizing front with
  | nil =>
      simp [CharacterData.chunksAux, CharacterData.isShort, CharacterData.longChunks,
        CharacterData.close]
  | cons c gap ih =>
      obtain ⟨hc, hgap⟩ := List.forall_mem_cons.mp hgap
      have hstep : CharacterData.chunksAux front (c :: (gap ++ '<' :: r)) =
          CharacterData.chunksAux (c :: front) (gap ++ '<' :: r) := by
        rcases hc with rfl | rfl <;> simp [CharacterData.chunksAux, CharacterData.isShort]
      rw [List.cons_append, hstep, ih hgap, List.reverse_cons, List.append_assoc,
        List.singleton_append]

lemma cutBefore_blank {gap : List Char} (hgap : Blank gap) (cs front : List Char) :
    cutBeforeAux (']' :: cs) front gap = none := by
  induction gap generalizing front with
  | nil => rfl
  | cons c gap ih =>
      obtain ⟨hc, hgap⟩ := List.forall_mem_cons.mp hgap
      have hne : ']' ≠ c := by rcases hc with rfl | rfl <;> decide
      rw [cutBeforeAux, if_neg (by simp [List.isPrefixOf_cons_cons, hne]), ih hgap]

lemma Inside.looksLikeLayout (hs : s.Inside) (hr : s.Follows r) :
    looksLikeLayout s.top.children r = true := by
  obtain ⟨c, cs, rfl, hc⟩ := hr
  unfold Stack.looksLikeLayout
  split
  next heq =>
    obtain ⟨rfl, rfl⟩ := List.cons.inj (List.cons.inj heq).2
    simp [hs.touchesText, hc rfl]
  next => simp [hs.touchesText]
  next => simp [hs.touchesText]
  next hopen _ => exact absurd rfl (hopen (c :: cs))

/-- Layout is skipped. -/
lemma goes_blank (hs : s.Inside) (hu : Blank u) (hr : s.Follows r) : Goes fuel ex s u s r := by
  by_cases hne : u = []
  · subst hne
    exact Goes.refl s r
  refine Goes.of_step hs.below hne ?_
  obtain ⟨c, cs, rfl, -⟩ := id hr
  have hchunks : CharacterData.chunks (u ++ '<' :: c :: cs) =
      ([(u, '<' :: c :: cs)], '<' :: c :: cs) := by
    rw [CharacterData.chunks, chunksAux_blank hu, List.append_nil, CharacterData.close,
      if_neg (by simpa using hne), List.reverse_reverse]
  have htake : (u ++ '<' :: c :: cs).takeWhile (fun c => c ≠ '<' && c ≠ '&') = u := by
    rw [List.takeWhile_append_of_pos]
    · simp
    · intro d hd
      rcases hu d hd with rfl | rfl <;> rfl
  have hlayout : s.addChunk (.empty false) (u, '<' :: c :: cs) = s := by
    rw [addChunk, if_pos]
    simp only [isLayout, hs.blanks, Bool.not_false, Bool.and_true, List.all_eq_true.mpr hu.isSpace]
    exact hs.looksLikeLayout hr
  have hdata : Reads (s.characterData (.empty false)) u s ('<' :: c :: cs) := by
    refine (reads_rest _).look ?_
    refine (reads_demand ?_ _).look ?_
    · rw [htake, cutBefore, cutBefore_blank hu]
      rfl
    rw [hchunks]
    refine (reads_demand (by rfl) _).look ((reads_goTo u _).done ?_)
    rw [List.foldl_cons, List.foldl_nil, hlayout]
    exact Reads.pure s _
  refine (reads_rest _).look ?_
  obtain ⟨d, ds, rfl⟩ := List.exists_cons_of_ne_nil hne
  rcases hu d (by simp) with rfl | rfl
  · exact hdata
  · exact hdata

variable {name : String} {as : List (String × String)} {close : String} {closed : Bool}

/-- The open elements after a tag. -/
def opened (s : Stack) (name : String) (as : List (String × String)) (closed : Bool) : Stack :=
  if closed then s.addAll [(Element.mk name as []).node]
  else ⟨⟨plainTag name as, []⟩, s.top :: s.below⟩

lemma reads_opening (hscope : s.top.tag.scope = .outermost)
    (hblanks : s.top.tag.keepsBlanks = false) (hroom : s.below.length < depthLimit)
    (hesc : Escapes esc) (hclose : IsClose close closed) (hname : isPlainName name.toList = true)
    (has : Sound as) (hfuel : as.length < fuel) (r : List Char) : Reads (s.opening (.empty false) fuel) (tagText esc name as close)
      (s.opened name as closed) r := by
  refine (reads_demand (by simpa using hroom) _).look ?_
  rw [hscope, hblanks]
  refine (reads_tag hesc hclose hname has hfuel r).done ?_
  rw [opened]
  cases closed with
  | true => exact Reads.pure _ r
  | false => exact Reads.pure _ r

/-- A tag that opens an element. -/
lemma goes_opening (hs : s.Inside) (hroom : s.below.length < depthLimit) (hesc : Escapes esc)
    (hclose : IsClose close closed) (hname : isPlainName name.toList = true) (has : Sound as)
    (hfuel : as.length < fuel) (r : List Char) :
    Goes fuel ex s ('<' :: tagText esc name as close) (s.opened name as closed) r := by
  refine Goes.of_step hs.below (by simp) ?_
  have hopening := reads_opening hs.scope hs.blanks hroom hesc hclose hname has hfuel r
  have hgo : Reads (goTo (tagText esc name as close ++ r) >>= fun _ =>
      s.opening (.empty false) fuel) ('<' :: tagText esc name as close)
      (s.opened name as closed) r :=
    (reads_goTo ['<'] (tagText esc name as close ++ r)).bind hopening
  obtain ⟨c, cs, htext, hstart, -⟩ := exists_of_isPlainName hname
  have hcons : tagText esc name as close ++ r =
      c :: (cs ++ (attributeText esc as ++ close.toList) ++ r) := by
    simp [tagText, htext]
  refine (reads_rest _).look ?_
  rw [List.cons_append, hcons]
  rw [hcons] at hgo
  -- the name starts with none of the characters that tell other markup
  have hname {x : Char} {xs ys : List Char} (heq : '<' :: c :: ys = '<' :: x :: xs) :
      isNameStart x = true := by
    rwa [← (List.cons.inj (List.cons.inj heq).2).1]
  split
  next heq => exact absurd (hname heq) (by decide)
  next heq => exact absurd (hname heq) (by decide)
  next heq => exact absurd (hname heq) (by decide)
  next heq => exact absurd (hname heq) (by decide)
  next heq =>
    rw [← (List.cons.inj heq).2]
    exact hgo
  next heq => exact absurd (List.cons.inj heq).1 (by decide)
  next heq => exact absurd (List.cons.inj heq).1 (by decide)
  next hother _ _ => exact absurd rfl (hother _)

/-- The end of an element. -/
lemma goes_closing {outer : OpenElement} {below : List OpenElement} (es : List Element)
    (r : List Char) :
    Goes fuel ex (addAll ⟨⟨plainTag name as, []⟩, outer :: below⟩ (Element.nodes es)) (endText name)
      (addAll ⟨outer, below⟩ [(Element.mk name as es).node]) r := by
  refine Goes.of_step (List.cons_ne_nil outer below) (by simp [endText]) ?_
  refine (reads_rest _).look ?_
  refine (reads_goTo ['<', '/'] (name.toList ++ ['>'] ++ r)).bind ?_
  refine (reads_expect name (['>'] ++ r)).bind ?_
  refine (reads_skipSpaces (u := []) (by simp) (by simp [isSpace])).discard.look ?_
  refine (reads_expect ">" r).done ?_
  have hnode : (Element.mk name as es).node = .element ⟨none, name⟩
      (as.map fun a => (⟨none, a.1⟩, a.2)) ((Element.nodes es).reverse ++ []).reverse := by
    simp [Element.node]
  rw [hnode]
  exact Reads.pure _ r

lemma Inside.addAll (h : s.Inside) (es : List Element) : (s.addAll (Element.nodes es)).Inside where
  below := h.below
  scope := h.scope
  blanks := h.blanks
  children := by
    intro n hn
    rcases List.mem_append.mp hn with hn | hn
    · rw [List.mem_reverse, Element.nodes_eq_map] at hn
      obtain ⟨⟨name, as, cs⟩, -, rfl⟩ := List.mem_map.mp hn
      rfl
    · exact h.children n hn

lemma addAll_nodes_cons (s : Stack) (e : Element) (es : List Element) :
    s.addAll (Element.nodes (e :: es)) = (s.addAll [e.node]).addAll (Element.nodes es) := by
  simp [addAll, Element.nodes]

lemma follows_tag (s : Stack) (hname : isPlainName name.toList = true) (v : List Char) :
    s.Follows ('<' :: tagText esc name as close ++ v) := by
  obtain ⟨c, cs, htext, hstart, -⟩ := exists_of_isPlainName hname
  refine ⟨c, cs ++ (attributeText esc as ++ close.toList) ++ v, by simp [tagText, htext], ?_⟩
  rintro rfl
  exact absurd hstart (by decide)

lemma inside_opened (outer : OpenElement) (below : List OpenElement) (name : String)
    (as : List (String × String)) : Inside ⟨⟨plainTag name as, []⟩, outer :: below⟩ :=
  ⟨by simp, rfl, rfl, by simp⟩

/-- The children of an element and its end, once the children can be read. -/
lemma goes_content {outer : OpenElement} {below : List OpenElement} {c : Element}
    {cs : List Element} {back : List Char} (hback : Blank back)
    (hchildren : ∀ r, Goes fuel ex ⟨⟨plainTag name as, []⟩, outer :: below⟩ u
      (addAll ⟨⟨plainTag name as, []⟩, outer :: below⟩ (Element.nodes (c :: cs))) r)
    (r : List Char) :
    Goes fuel ex ⟨⟨plainTag name as, []⟩, outer :: below⟩ (u ++ (back ++ endText name))
      (addAll ⟨outer, below⟩ [(Element.mk name as (c :: cs)).node]) r := by
  have hinside := (inside_opened outer below name as).addAll (c :: cs)
  refine (hchildren _).trans ((goes_blank hinside hback ⟨'/', _, rfl, ?_⟩).trans ?_)
  · simp [addAll, Element.nodes]
  · exact goes_closing (c :: cs) r

/-- Elements that are laid out become children of the innermost element. -/
lemma goes_laidOut (hesc : Escapes esc) {d : ℕ} {es : List Element} (h : LaidOut esc d es u)
    (hs : s.Inside) (hroom : s.below.length + d ≤ depthLimit) (hfuel : u.length < fuel)
    (r : List Char) : Goes fuel ex s u (s.addAll (Element.nodes es)) r := by
  induction h generalizing s r with
  | nil => exact Goes.refl s r
  | @empty d gap v name as es hgap hname has hes ih =>
      have hcount := length_le_tagText esc name as "/>"
      simp only [List.length_append, List.length_cons] at hfuel
      have htag : ∀ r, Goes fuel ex s ('<' :: tagText esc name as "/>")
          (s.addAll [(Element.mk name as []).node]) r :=
        goes_opening hs (by omega) hesc (.inr ⟨rfl, rfl⟩) hname has (by omega)
      refine (goes_blank hs hgap ?_).trans ((htag _).trans ?_)
      · rw [List.append_assoc]
        exact follows_tag s hname _
      · rw [addAll_nodes_cons]
        exact ih (hs.addAll [.mk name as []]) hroom (by omega) r
  | @full d gap back u v name as c cs es hgap hback hname has hcs hes ihcs ihes =>
      have hcount := length_le_tagText esc name as ">"
      simp only [List.length_append, List.length_cons] at hfuel
      have hcontent : ∀ r, Goes fuel ex (s.opened name as false) (u ++ (back ++ endText name))
          (s.addAll [(Element.mk name as (c :: cs)).node]) r :=
        goes_content hback fun r => ihcs (inside_opened s.top s.below name as)
          (by simp only [List.length_cons]; omega) (by omega) r
      have hassoc : u ++ (back ++ (endText name ++ v)) = u ++ (back ++ endText name) ++ v := by simp
      rw [hassoc]
      refine (goes_blank hs hgap ?_).trans ((goes_opening hs (by omega) hesc (.inl ⟨rfl, rfl⟩) hname
        has (by omega) _).trans ((hcontent _).trans ?_))
      · rw [List.append_assoc]
        exact follows_tag s hname _
      · rw [addAll_nodes_cons]
        exact ihes (hs.addAll [.mk name as (c :: cs)]) hroom (by omega) r

/-- A run ends outside of all elements. -/
lemma Goes.reads (h : Goes fuel ex s u s' r) (hdone : s'.below = []) {n : ℕ} (hn : u.length < n) :
    Reads (run (.empty false) fuel ex (fun s _ => s.below.isEmpty) n s) u s' r := by
  intro c
  obtain ⟨k, hk, hrun⟩ := h
  obtain ⟨m, rfl⟩ : ∃ m, n = m + 1 + k := ⟨n - k - 1, by omega⟩
  rw [hrun (m + 1) c, run, StateT.run_bind, run_rest]
  simp only [Option.bind_eq_bind, Option.bind_some]
  rw [if_pos (by simp [hdone])]
  rfl

end Stack

/-! ### Documents -/

section

variable {esc : Char → List Char} {name : String} {as : List (String × String)} {close : String}
  {closed : Bool} {u r : List Char} {e : Element}

/-- An element after its bracket, once its content can be read. -/
lemma reads_element (hesc : Escapes esc) (hclose : IsClose close closed)
    (hname : isPlainName name.toList = true) (has : Sound as)
    (hcontent : ∀ fuel, u.length < fuel → ∀ ex r,
      Stack.Goes fuel ex ((Stack.start .outermost).opened name as closed) u
        ((Stack.start .outermost).addAll [e.node]) r) (r : List Char) :
    Reads (element (.empty false)) (tagText esc name as close ++ u) [e.node] r := by
  refine (reads_rest _).look ?_
  have hcount := length_le_tagText esc name as close
  refine (Stack.reads_opening rfl rfl (by decide) hesc hclose hname has ?_ _).bind ?_
  · simp only [List.length_append]
    omega
  refine ((hcontent _ ?_ _ r).reads rfl ?_).done (Reads.pure _ r)
  · simp only [List.length_append]
    omega
  · simp only [List.length_append]
    omega

/-- An element as it is laid out. -/
lemma exists_of_laidOut (hesc : Escapes esc) {d : ℕ} (hd : d ≤ Stack.depthLimit) {t : List Char}
    (h : LaidOut esc d [e] t) : ∃ gap c w, t = gap ++ '<' :: c :: w ∧ Blank gap ∧
      isNameStart c = true ∧ ∀ r, Reads (element (.empty false)) (c :: w) [e.node] r := by
  cases h with
  | @empty d gap v name as es hgap hname has hes =>
      cases hes
      obtain ⟨c, cs, htext, hstart, -⟩ := exists_of_isPlainName hname
      have hreads := reads_element (e := .mk name as []) (u := []) hesc (.inr ⟨rfl, rfl⟩) hname has
        fun _ _ _ r => Stack.Goes.refl _ r
      rw [tagText, htext] at hreads
      exact ⟨gap, c, _, by simp [tagText, htext], hgap, hstart, hreads⟩
  | @full d gap back u v name as c cs es hgap hback hname has hcs hes =>
      cases hes
      obtain ⟨x, xs, htext, hstart, -⟩ := exists_of_isPlainName hname
      have hreads := reads_element (e := .mk name as (c :: cs)) (u := u ++ (back ++ endText name))
        hesc (.inl ⟨rfl, rfl⟩) hname has fun fuel hfuel ex r => Stack.goes_content hback
          (fun r => Stack.goes_laidOut hesc hcs (Stack.inside_opened _ [] name as)
            (by simp only [List.length_cons, List.length_nil]; omega)
            (by simp only [List.length_append] at hfuel; omega) r) r
      rw [tagText, htext] at hreads
      exact ⟨gap, x, _, by simp [tagText, htext], hgap, hstart, hreads⟩

/-- Blanks outside of the root. -/
lemma reads_remarks {gap : List Char} (hgap : Blank gap) {n : ℕ}
    (hspace : ∀ c ∈ r.head?, isSpace c = false) (hremark : "<!--".toList.isPrefixOf r = false)
    (hinstruction : "<?".toList.isPrefixOf r = false) : Reads (remarks (n + 1)) gap () r := by
  refine (reads_skipSpaces hgap.isSpace hspace).discard.done ?_
  refine (refuses "<!--" hremark).look ?_
  rw [if_neg (by simp)]
  refine (refuses "<?" hinstruction).look ?_
  rw [if_neg (by simp)]
  exact Reads.pure () r

/-- A text without a declaration of itself. -/
lemma reads_prologue {gap : List Char} (hgap : Blank gap) {c : Char} (hc : isNameStart c = true)
    (r : List Char) : Reads prologue [] false (gap ++ '<' :: c :: r) := by
  have hmark : Reads (isNext byteOrderMark) [] false (gap ++ '<' :: c :: r) := by
    refine (reads_rest _).look ?_
    have hhead : (gap ++ '<' :: c :: r).head? ≠ some byteOrderMark := by
      cases gap with
      | nil => simp [byteOrderMark]
      | cons d ds => rcases hgap d (by simp) with rfl | rfl <;> simp [byteOrderMark]
    rw [List.nil_append, decide_eq_false hhead]
    exact Reads.pure false _
  refine Reads.look (v := []) hmark ((reads_rest _).look ?_)
  rw [List.nil_append]
  split
  next heq =>
    cases gap with
    | nil =>
        rw [(List.cons.inj (List.cons.inj heq).2).1] at hc
        exact absurd hc (by decide)
    | cons d ds =>
        rw [List.cons_append, List.cons.injEq] at heq
        rcases hgap d (by simp) with rfl | rfl <;> exact absurd heq.1 (by decide)
  next => exact Reads.pure false _

/-- A document that lays out an element is read as that element. -/
lemma reads_document (hesc : Escapes esc) {d : ℕ} (hd : d ≤ Stack.depthLimit) {t back : List Char}
    (h : LaidOut esc d [e] t) (hback : Blank back) : Reads document (t ++ back) e.node [] := by
  obtain ⟨gap, c, w, rfl, hgap, hc, hreads⟩ := exists_of_laidOut hesc hd h
  have hother {x : Char} (hx : isNameStart x = false) (xs : List Char) (v : List Char) :
      ('<' :: x :: xs).isPrefixOf ('<' :: c :: v) = false := by
    rw [List.isPrefixOf_cons_cons, isPrefixOf_of_isNameStart hc hx, Bool.and_false]
  have hprologue : Reads prologue [] false (gap ++ ('<' :: c :: w ++ back) ++ []) := by
    rw [List.append_assoc]
    exact reads_prologue hgap hc _
  rw [List.append_assoc]
  refine hprologue.look ((reads_rest _).look ?_)
  refine (reads_remarks hgap ?_ ?_ ?_).bind ?_
  · simp [isSpace]
  · exact hother (by decide) _ _
  · exact hother (by decide) _ _
  refine (refuses "<!DOCTYPE" (hother (by decide) _ _)).look ?_
  refine (Reads.pure _ _).look ?_
  refine (reads_remarks blank_nil ?_ ?_ ?_).look ?_
  · simp [isSpace]
  · exact hother (by decide) _ _
  · exact hother (by decide) _ _
  refine (reads_expect "<" _).bind (v := c :: w ++ back) ((hreads _).bind ?_)
  refine (reads_remarks hback (by simp) rfl rfl).done ?_
  exact (reads_rest []).look ((reads_demand rfl []).look (Reads.pure _ []))

/-- A text that lays out an element is read as that element. -/
lemma Node.read_of_laidOut (hesc : Escapes esc) {d : ℕ} (hd : d ≤ Stack.depthLimit)
    {t back : List Char} (h : LaidOut esc d [e] t) (hback : Blank back) {s : String}
    (hs : s.toList = t ++ back) : Node.read s = .ok e.node := by
  have hrun := reads_document hesc hd h hback (.start [])
  rw [List.append_nil, ← hs] at hrun
  have hdocument : document? s.toList = some e.node := by
    have hstart : (Cursor.start []).before s.toList = .start s.toList := rfl
    rw [document?, ← hstart, hrun]
    rfl
  rw [Node.read, hdocument]

end

/-! ### Texts of elements -/

lemma toList_head (escape : Char → String) (name : String) (as : List (String × String))
    (close : String) : (head escape name as).toList ++ close.toList =
      tagText (fun c => (escape c).toList) name as close := by
  simp [head, tagText, attributeText, String.toList_join, List.flatMap_map]

namespace Element

/-- A text that lays out an element in front of other elements, behind any layout. -/
def LaidAs (esc : Char → List Char) (d : ℕ) (e : Element) (w : List Char) : Prop :=
  ∀ gap es v, Blank gap → LaidOut esc d es v → LaidOut esc d (e :: es) (gap ++ (w ++ v))

variable {d : ℕ} {e : Element} {es : List Element}

lemma laidOut_plainAll (h : ∀ e ∈ es, LaidAs (fun c => (escapeAscii c).toList) d e e.plain.toList) :
    LaidOut (fun c => (escapeAscii c).toList) d es (plainAll es).toList := by
  induction es with
  | nil => exact .nil
  | cons e es ih =>
      obtain ⟨he, hes⟩ := List.forall_mem_cons.mp h
      rw [plainAll, String.toList_append]
      exact he [] es _ blank_nil (ih hes)

/-- The text without layout. -/
lemma Writable.laidAs_plain (h : Writable d e) :
    LaidAs (fun c => (escapeAscii c).toList) d e e.plain.toList := by
  induction h with
  | @mk d name as cs hname has hcs ih =>
      intro gap es v hgap hes
      cases cs with
      | nil =>
          have htext : (Element.mk name as []).plain.toList =
              '<' :: tagText (fun c => (escapeAscii c).toList) name as "/>" := by
            simp [plain, ← toList_head]
          rw [htext]
          exact .empty hgap hname has hes
      | cons c cs =>
          have htext : (Element.mk name as (c :: cs)).plain.toList ++ v =
              '<' :: tagText (fun c => (escapeAscii c).toList) name as ">" ++
                ((plainAll (c :: cs)).toList ++ ([] ++ (endText name ++ v))) := by
            simp [plain, endText, ← toList_head]
          rw [htext]
          exact .full hgap blank_nil hname has (laidOut_plainAll ih) hes

/-- What stands in front of a line at a depth. -/
def indent (depth : ℕ) : List Char := List.replicate (2 * depth) ' '

lemma blank_newline (depth : ℕ) : Blank ('\n' :: indent depth) := by
  refine List.forall_mem_cons.mpr ⟨.inr rfl, fun c hc => .inl ?_⟩
  exact List.eq_of_mem_replicate hc

/-- A line end stands behind each element, and here in front. -/
lemma laidOut_prettyAll {esc : Char → List Char} {depth : ℕ}
    (h : ∀ e ∈ es, ∃ w, (e.prettyAt depth).toList = indent depth ++ (w ++ ['\n']) ∧
      LaidAs esc d e w) :
    ∃ u, '\n' :: (prettyAll depth es).toList = u ++ ['\n'] ∧ LaidOut esc d es u := by
  induction es with
  | nil => exact ⟨[], rfl, .nil⟩
  | cons e es ih =>
      obtain ⟨⟨w, hw, he⟩, hes⟩ := List.forall_mem_cons.mp h
      obtain ⟨u, hu, hlaid⟩ := ih hes
      refine ⟨'\n' :: indent depth ++ (w ++ u), ?_, he _ es u (blank_newline depth) hlaid⟩
      rw [prettyAll, String.toList_append, hw]
      simp [← hu]

/-- The lines of an element, without the layout around them. -/
lemma Writable.laidAs_prettyAt (h : Writable d e) (depth : ℕ) :
    ∃ w, (e.prettyAt depth).toList = indent depth ++ (w ++ ['\n']) ∧
      LaidAs (fun c => (escapeChar c).toList) d e w := by
  induction h generalizing depth with
  | @mk d name as cs hname has hcs ih =>
      cases cs with
      | nil =>
          refine ⟨'<' :: tagText (fun c => (escapeChar c).toList) name as "/>", ?_,
            fun gap es v hgap hes => .empty hgap hname has hes⟩
          simp [prettyAt, indent, ← toList_head]
      | cons c cs =>
          obtain ⟨u, hu, hlaid⟩ := laidOut_prettyAll fun c hc => ih c hc (depth + 1)
          refine ⟨'<' :: tagText (fun c => (escapeChar c).toList) name as ">" ++
            (u ++ ('\n' :: indent depth ++ endText name)), ?_, fun gap es v hgap hes => ?_⟩
          · have hlines (x : List Char) :
                '\n' :: ((prettyAll (depth + 1) (c :: cs)).toList ++ x) = u ++ '\n' :: x := by
              rw [← List.cons_append, hu, List.append_assoc, List.singleton_append]
            simp [prettyAt, hlines, ← toList_head, indent, endText]
          · have hfull := LaidOut.full hgap (blank_newline depth) hname has hlaid hes
            simpa using hfull

end Element

lemma escapes_escapeChar : Escapes fun c => (escapeChar c).toList :=
  fun _ hx => stands_escapeChar hx

lemma escapes_escapeAscii : Escapes fun c => (escapeAscii c).toList :=
  fun _ hx => stands_escapeAscii hx

namespace Node

variable {d : ℕ} {e : Element}

/-- The text of an element without layout is read as that element. -/
theorem read_plain (h : e.Writable d) (hd : d ≤ Stack.depthLimit) :
    Node.read e.plain = .ok e.node := by
  have hlaid := h.laidAs_plain [] [] [] blank_nil .nil
  rw [List.nil_append, List.append_nil] at hlaid
  exact read_of_laidOut escapes_escapeAscii hd hlaid blank_nil (List.append_nil _).symm

/-- The lines of an element are read as that element. -/
theorem read_pretty (h : e.Writable d) (hd : d ≤ Stack.depthLimit) :
    Node.read e.pretty = .ok e.node := by
  obtain ⟨w, hw, hlaid⟩ := h.laidAs_prettyAt 0
  have hlaid := hlaid [] [] [] blank_nil .nil
  rw [List.nil_append, List.append_nil] at hlaid
  exact read_of_laidOut escapes_escapeChar hd hlaid (by simp [Blank]) hw

end Node

end MplsReach.Xml
