/-
Names written in queries.

A backslash in front of each character with a meaning of its own makes any name a word, unless it is
empty or a single comma, or has blanks or characters beyond the first plane.

* `Lexeme`: a token that ends where it does, since it cannot go on with the text behind it.
* `Cut`: a text put together from such tokens; `tokens_of_cut`: **it is cut into these tokens.**
* `spelling`: a name as it is written; `Spellable.lexeme`: it is one word, and `unescape_spelled`:
  the name that it stands for.
* `name_spelled`: **a query that asks for a name as it is written is about the label of that name.**
-/
import MplsReach.Proofs.Alternation

namespace MplsReach.Query

/-! ### Tokens that end where they do -/

/-- The state after several characters. -/
def Scan.steps (s : Scan) (cs : List Char) : Option Scan := cs.foldlM Scan.step s

@[simp] lemma Scan.steps_nil (s : Scan) : s.steps [] = some s := rfl

@[simp] lemma Scan.steps_cons (s : Scan) (c : Char) (cs : List Char) :
    s.steps (c :: cs) = (s.step c).bind (·.steps cs) := rfl

/-- The characters of a token that starts a text and cannot go on with the rest of it. -/
def Lexeme (kind : TokenKind) (cs rest : List Char) : Prop :=
  ∃ s, Scan.start.steps cs = some s ∧ s.accepts = some kind ∧ ∀ c ∈ rest.head?, s.step c = none

/-- A text put together from tokens, none of which can go on with the text behind it. -/
inductive Cut : List Char → List (TokenKind × String) → Prop where
  | nil : Cut [] []
  | cons {kind : TokenKind} {cs rest : List Char} {ls : List (TokenKind × String)} :
      Lexeme kind cs rest → Cut rest ls → Cut (cs ++ rest) ((kind, String.ofList cs) :: ls)

variable {kind : TokenKind} {cs rest : List Char} {l : Lexer}

lemma attempt_append {s t : Scan} (hsteps : s.steps cs = some t) (hkind : t.accepts = some kind)
    (hend : ∀ c ∈ rest.head?, t.step c = none) (cursor : Cursor) (seen : List Char)
    (longest : Option Match) (hne : cs ≠ []) : ∃ place,
    (attempt s cursor seen longest (cs ++ rest)).longest =
      some ⟨kind, cs.reverse ++ seen, rest, place⟩ := by
  induction cs generalizing s cursor seen longest with
  | nil => exact absurd rfl hne
  | cons c cs ih =>
      obtain ⟨next, hnext, hsteps⟩ := Option.bind_eq_some_iff.mp hsteps
      rw [List.cons_append, attempt, hnext]
      cases cs with
      | cons d ds =>
          obtain ⟨place, h⟩ := ih hsteps (cursor.advance c) (c :: seen) _ (by simp)
          exact ⟨place, by simpa using h⟩
      | nil =>
          obtain rfl : next = t := by simpa using hsteps
          -- the text ends, or the next character cannot go on
          cases rest with
          | nil => simp [attempt, hkind]
          | cons d ds => simp [attempt, hkind, hend d rfl]

lemma Lexeme.ne_nil (h : Lexeme kind cs rest) : cs ≠ [] := by
  rintro rfl
  obtain ⟨s, hsteps, hkind, -⟩ := h
  obtain rfl : Scan.start = s := by simpa using hsteps
  exact absurd hkind (by simp [Scan.accepts])

/-- The token that starts a text and cannot go on is the next one. -/
lemma next_of_lexeme (h : Lexeme kind cs rest) (hl : l.rest = cs ++ rest) : ∃ line column l',
    l.next = (.ok ⟨kind, String.ofList cs, line, column⟩, l') ∧ l'.rest = rest := by
  have hne := h.ne_nil
  obtain ⟨s, hsteps, hkind, hend⟩ := h
  obtain ⟨place, hlongest⟩ := attempt_append hsteps hkind hend l.cursor [] none hne
  rw [Lexer.next, hl]
  simp [hlongest]

/-- A lexer in front of a text put together from tokens that cannot go on reads these tokens. -/
lemma run_of_cut {ls : List (TokenKind × String)} (h : Cut l.rest ls)
    (hls : ∀ x ∈ ls, x.1 ≠ .ending) : ∃ ts line column,
    l.run = (ts ++ [⟨.ending, "", line, column⟩], none) ∧
      ts.map (fun t => (t.kind, t.text)) = ls := by
  generalize hrest : l.rest = text at h
  induction h generalizing l with
  | nil =>
      refine ⟨[], l.cursor.place.line + 1, l.cursor.place.column + 1, ?_, rfl⟩
      rw [Lexer.run, Lexer.next, hrest]
      simp only [attempt, List.isEmpty_nil, if_true, List.nil_append]
  | @cons kind cs rest ls hfirst _ ih =>
      obtain ⟨hkind, hls⟩ := List.forall_mem_cons.mp hls
      obtain ⟨line, column, l', hnext, hl'⟩ := next_of_lexeme hfirst hrest
      obtain ⟨ts, line', column', hrun, hts⟩ := ih hls hl'
      have hshorter : l'.rest.length < l.rest.length := by
        rw [hl', hrest, List.length_append]
        have := List.length_pos_iff.mpr hfirst.ne_nil
        omega
      refine ⟨⟨kind, String.ofList cs, line, column⟩ :: ts, line', column', ?_, ?_⟩
      · rw [Lexer.run, hnext]
        simp only [hkind, if_false, hshorter, dite_true, hrun, List.cons_append]
      · simp [hts]

/-- **A text put together from tokens that cannot go on is cut into these tokens.** -/
lemma tokens_of_cut {text : String} {ls : List (TokenKind × String)} (h : Cut text.toList ls)
    (hls : ∀ x ∈ ls, x.1 ≠ .ending) : ∃ ts line column,
    tokens text = (ts ++ [⟨.ending, "", line, column⟩], none) ∧
      ts.map (fun t => (t.kind, t.text)) = ls :=
  run_of_cut (l := .start text.toList) h hls

/-! ### Names as they are written -/

/-- The characters with a meaning of their own. -/
def special : List Char :=
  ['<', '>', '(', ')', '[', ']', '\x7b', '\x7d', '|', '*', '+', '^', '.', '?', '\\']

/-- Characters with a backslash in front of each one that has a meaning of its own. -/
def spelled (cs : List Char) : List Char :=
  cs.flatMap fun c => if c ∈ special then ['\\', c] else [c]

/-- A name as it is written in a query. -/
def spelling (s : String) : String := String.ofList (spelled s.toList)

/-- The characters that names may have. -/
def isSpellable (c : Char) : Bool :=
  c.toNat ≤ 0xFFFF && c ≠ ' ' && c ≠ '\t' && c ≠ '\r' && c ≠ '\n'

/-- A name that can be written in a query. -/
structure Spellable (s : String) : Prop where
  ne_empty : s ≠ ""
  ne_comma : s ≠ ","
  chars : ∀ c ∈ s.toList, isSpellable c

instance (s : String) : Decidable (Spellable s) :=
  decidable_of_iff (s ≠ "" ∧ s ≠ "," ∧ s.toList.all isSpellable = true)
    ⟨fun h => ⟨h.1, h.2.1, List.all_eq_true.mp h.2.2⟩,
      fun h => ⟨h.ne_empty, h.ne_comma, List.all_eq_true.mpr h.chars⟩⟩

variable {c : Char} {s : String}

lemma isEscapable_iff : isEscapable c = true ↔ c ∈ special := by
  simp [isEscapable, special]

lemma isWordChar_iff : isWordChar c = true ↔ isSpellable c = true ∧ c ∉ special := by
  simp only [isWordChar, isSpellable, isSpace, ← isEscapable_iff, Bool.and_eq_true,
    Bool.not_eq_true', Bool.or_eq_false_iff, decide_eq_true_eq, decide_eq_false_iff_not,
    Bool.not_eq_true]
  tauto

lemma single?_eq_none (h : c ∉ special) : single? c = none := by
  unfold single?
  split <;> simp_all [special]

lemma spelled_cons (c : Char) (cs : List Char) :
    spelled (c :: cs) = (if c ∈ special then ['\\', c] else [c]) ++ spelled cs :=
  List.flatMap_cons

/-- A word goes on with the characters of a name. -/
lemma steps_word (h : ∀ c ∈ cs, isSpellable c) : Scan.word.steps (spelled cs) = some .word := by
  induction cs with
  | nil => rfl
  | cons c cs ih =>
      obtain ⟨hc, hcs⟩ := List.forall_mem_cons.mp h
      rw [spelled_cons]
      split
      next hspecial =>
        have hescape : Scan.escape.step c = some .word := if_pos (isEscapable_iff.mpr hspecial)
        have hback : Scan.word.step '\\' = some .escape := rfl
        simpa [hback, hescape] using ih hcs
      next hplain =>
        have hne : c ≠ '\\' := by
          rintro rfl
          exact hplain (by decide)
        have hword : Scan.word.step c = some .word := by
          rw [Scan.step, Scan.wordStep, if_neg hne, if_pos (isWordChar_iff.mpr ⟨hc, hplain⟩)]
        simpa [hword] using ih hcs

/-- A comma goes on like a word. -/
lemma steps_comma (hne : cs ≠ []) : Scan.comma.steps cs = Scan.word.steps cs := by
  cases cs with
  | nil => exact absurd rfl hne
  | cons c cs => rfl

/-- A name starts like a word goes on, unless it starts with a comma. -/
lemma steps_start (hc : isSpellable c) (hcomma : c ≠ ',') :
    Scan.start.steps (spelled (c :: cs)) = Scan.word.steps (spelled (c :: cs)) := by
  rw [spelled_cons]
  split
  next => rfl
  next hplain =>
    have hspace : isSpace c = false := by
      simp only [isSpellable, Bool.and_eq_true, decide_eq_true_eq] at hc
      simp [isSpace, hc]
    have hstep : Scan.start.step c = Scan.word.step c := by
      simp [Scan.step, hspace, hcomma, single?_eq_none hplain]
    simp [hstep]

/-- The characters of a name are those of a word. -/
lemma Spellable.steps (h : Spellable s) : Scan.start.steps (spelled s.toList) = some .word := by
  have hchars := h.chars
  have hempty : s.toList ≠ [] := fun hs => h.ne_empty (String.toList_eq_nil_iff.mp hs)
  have hcomma : s.toList ≠ [','] := fun hs => h.ne_comma (String.toList_inj.mp hs)
  generalize s.toList = cs at *
  cases cs with
  | nil => exact absurd rfl hempty
  | cons c cs =>
      by_cases hfirst : c = ','
      · -- something stands behind the comma, which makes it a word
        subst hfirst
        have hne : spelled cs ≠ [] := by
          cases cs with
          | nil => exact absurd rfl hcomma
          | cons d ds => rw [spelled_cons]; split <;> simp
        have hstep : Scan.start.step ',' = some .comma := rfl
        have hplain : ',' ∉ special := by decide
        rw [spelled_cons, if_neg hplain, List.singleton_append, Scan.steps_cons, hstep,
          Option.bind_some, steps_comma hne]
        exact steps_word (List.forall_mem_cons.mp hchars).2
      · rw [steps_start (List.forall_mem_cons.mp hchars).1 hfirst]
        exact steps_word hchars

/-- A name is one word in front of a chevron. -/
lemma Spellable.lexeme (h : Spellable s) (rest : List Char) :
    Lexeme .word (spelled s.toList) ('>' :: rest) :=
  ⟨.word, h.steps, rfl, by simp [Scan.step, Scan.wordStep, isWordChar, isEscapable]⟩

lemma unescape_cons (h : c ≠ '\\') (cs : List Char) : unescape (c :: cs) = c :: unescape cs := by
  rw [unescape]
  rintro d ds rfl
  exact absurd rfl h

/-- A name as it is written stands for the name. -/
lemma unescape_spelled (cs : List Char) : unescape (spelled cs) = cs := by
  induction cs with
  | nil => rfl
  | cons c cs ih =>
      rw [spelled_cons]
      split
      next hspecial =>
        have hne : c ≠ '\n' := by
          rintro rfl
          exact absurd hspecial (by decide)
        simp [unescape, hne, ih]
      next hplain =>
        have hne : c ≠ '\\' := by
          rintro rfl
          exact hplain (by decide)
        rw [List.singleton_append, unescape_cons hne, ih]

/-! ### Queries about a name -/

/-- The query for packets that pass one router, with a header of one name both in front of the
network and behind it. -/
def aboutName (s : String) : String := "<" ++ spelling s ++ "> . <" ++ spelling s ++ ">"

/-- The tokens of a query about a name, without the end of the text. -/
def lexemesAbout (s : String) : List (TokenKind × String) :=
  [(.chevLeft, "<"), (.word, spelling s), (.chevRight, ">"), (.blank, " "), (.dot, "."),
    (.blank, " "), (.chevLeft, "<"), (.word, spelling s), (.chevRight, ">")]

lemma Spellable.cut (h : Spellable s) : Cut (aboutName s).toList (lexemesAbout s) := by
  have hsingle : ∀ c k rest, Scan.start.step c = some (.single k) → Lexeme k [c] rest :=
    fun c k rest hc => ⟨.single k, by simp [hc], rfl, fun _ _ => rfl⟩
  have hblank : ∀ c rest, isSpace c = false → Lexeme .blank [' '] (c :: rest) :=
    fun c rest hc => ⟨.blank, rfl, rfl, by simp [Scan.step, hc]⟩
  have htext : (aboutName s).toList = ['<'] ++ (spelled s.toList ++ (['>'] ++ ([' '] ++ (['.'] ++
      ([' '] ++ (['<'] ++ (spelled s.toList ++ (['>'] ++ [])))))))) := by
    simp [aboutName, spelling]
  rw [htext]
  exact .cons (hsingle '<' _ _ rfl) (.cons (h.lexeme _) (.cons (hsingle '>' _ _ rfl)
    (.cons (hblank '.' _ rfl) (.cons (hsingle '.' _ _ rfl) (.cons (hblank '<' _ rfl)
    (.cons (hsingle '<' _ _ rfl) (.cons (h.lexeme _) (.cons (hsingle '>' _ _ rfl) .nil))))))))

/-- A header of one word. -/
def header (t : Token) : Atom := .sequence [.simple (.simple t)]

lemma exists_of_map_eq_cons {ts : List Token} {ls : List (TokenKind × String)} {x : String}
    (h : ts.map (fun t => (t.kind, t.text)) = (kind, x) :: ls) : ∃ line column us,
    ts = ⟨kind, x, line, column⟩ :: us ∧ us.map (fun t => (t.kind, t.text)) = ls := by
  obtain ⟨t, us, rfl, ht, hus⟩ := List.map_eq_cons_iff.mp h
  obtain ⟨rfl, rfl⟩ := Prod.mk.inj ht
  exact ⟨t.line, t.column, us, rfl, hus⟩

/-- A query about a name is read with the name in both headers. -/
lemma Spellable.read (h : Spellable s) : ∃ t u : Token, t.text = spelling s ∧ u.text = spelling s ∧
    Query.read (aboutName s) = .ok ⟨some (header t), .sequence [.any], some (header u)⟩ := by
  obtain ⟨ts, line, column, htokens, hts⟩ := tokens_of_cut h.cut (by simp [lexemesAbout])
  obtain ⟨_, _, ts₁, rfl, h₁⟩ := exists_of_map_eq_cons hts
  obtain ⟨line₂, column₂, ts₂, rfl, h₂⟩ := exists_of_map_eq_cons h₁
  obtain ⟨_, _, ts₃, rfl, h₃⟩ := exists_of_map_eq_cons h₂
  obtain ⟨_, _, ts₄, rfl, h₄⟩ := exists_of_map_eq_cons h₃
  obtain ⟨_, _, ts₅, rfl, h₅⟩ := exists_of_map_eq_cons h₄
  obtain ⟨_, _, ts₆, rfl, h₆⟩ := exists_of_map_eq_cons h₅
  obtain ⟨_, _, ts₇, rfl, h₇⟩ := exists_of_map_eq_cons h₆
  obtain ⟨line₈, column₈, ts₈, rfl, h₈⟩ := exists_of_map_eq_cons h₇
  obtain ⟨_, _, ts₉, rfl, h₉⟩ := exists_of_map_eq_cons h₈
  obtain rfl := List.map_eq_nil_iff.mp h₉
  refine ⟨⟨.word, spelling s, line₂, column₂⟩, ⟨.word, spelling s, line₈, column₈⟩, rfl, rfl, ?_⟩
  rw [Query.read, Query.readWithEnd, htokens]
  rfl

section Headers

variable {D E : List Label} {t : Token} {n : Nfa ℕ Label} {b : Label}

lemma exists_automaton_header (D : List Label) (t : Token) :
    ∃ n, Alphabet.labels.automaton D (some (header t)) = .ok (n, learn D [t]) := by
  simp [Alphabet.automaton, Alphabet.sketch, header, Sketch.draw, Sketch.drawSequence,
    Sketch.meaning, Sketch.blank, lookup_eq, Sketch.place, bind, Except.bind, pure, Except.pure]

/-- A header of one word that stands for one label reads this label. -/
lemma accepts_header_iff {a : Label}
    (h : Alphabet.labels.automaton D (some (header t)) = .ok (n, E))
    (ha : ∀ b, b ∈ learn D [t] ∧ b.name = t.name ↔ b = a) (w : List Label) :
    n.Accepts w ↔ w = [a] := by
  rw [(accepts_automaton_iff h).2]
  constructor
  · intro hw
    -- one leg leads from the entry to the exit, and none leads on
    cases hw with
    | cons hleg hw =>
        obtain ⟨-, rfl, b, hb, rfl⟩ := hleg
        cases hw with
        | refl => rw [(ha b).mp hb, List.append_nil]
        | cons hleg _ => exact absurd hleg.1 (by simp)
  · rintro rfl
    exact Tour.single ⟨rfl, rfl, a, (ha a).mpr rfl, rfl⟩

lemma nodup_labelDomain (labels : List Label) : ((labelDomain labels).map Label.name).Nodup :=
  Dictionary.nodup_putAll (by simp) labels

/-- A word stands for one label, if the known ones have different names: for the known one of its
name, or for a new one. -/
lemma exists_label_of_name (hD : (D.map Label.name).Nodup) (t : Token) : ∃ a : Label,
    a.name = t.name ∧ (a ∈ D ∨ a = .named t.name ∧ ∀ l ∈ D, l.name ≠ t.name) ∧
      ∀ b, b ∈ learn D [t] ∧ b.name = t.name ↔ b = a := by
  by_cases hknown : (Symbol.simple t).In D
  · obtain ⟨a, ha, hname⟩ := hknown
    refine ⟨a, hname, .inl ha, fun b => ⟨fun hb => ?_, ?_⟩⟩
    · have hmem := mem_of_names ⟨a, ha, hname⟩ hb.1 hb.2
      exact List.inj_on_of_nodup_map hD hmem ha (hb.2.trans hname.symm)
    · rintro rfl
      exact ⟨mem_learn_of_mem ha, hname⟩
  · have hnew : ∀ l ∈ D, l.name ≠ t.name := by simpa [Symbol.In, Symbol.Names] using hknown
    refine ⟨.named t.name, rfl, .inr ⟨rfl, hnew⟩, fun b => ?_⟩
    rw [mem_learn_iff, Learned]
    constructor
    · rintro ⟨hb | ⟨u, hu, rfl, -⟩, hname⟩
      · exact absurd hname (hnew b hb)
      · rw [List.mem_singleton.mp hu]
    · rintro rfl
      exact ⟨.inr ⟨t, List.mem_singleton_self t, rfl, hnew⟩, rfl⟩

/-- A label that is known or new to the labels that a header may have is so to all labels. -/
lemma known_or_new {labels : List Label} {a : Label} {s : String}
    (h : a ∈ labelDomain labels ∨ a = .named s ∧ ∀ l ∈ labelDomain labels, l.name ≠ s) :
    a ∈ labels ∨ a = .named s ∧ ∀ l ∈ labels, l.name ≠ s := by
  refine h.imp mem_of_mem_labelDomain fun hnew => ⟨hnew.1, fun l hl heq => ?_⟩
  have hkey : l.name ∈ (labelDomain labels).map Label.name :=
    Dictionary.mem_keys_putAll_iff.mpr (.inr (List.mem_map_of_mem hl))
  obtain ⟨l', hl', hkey⟩ := List.mem_map.mp hkey
  exact hnew.2 l' hl' (hkey.trans heq)

/-- The automata of a query with words of one name in both headers read one label. -/
lemma exists_automata_of_name {Spent : Type} [DecidableEq Spent] (labels : List Label)
    (M : Pda (Hop Spent) StackSymbol) {t u : Token} (htu : t.name = u.name) :
    ∃ A, (Query.mk (some (header t)) (.sequence [.any]) (some (header u))).automata labels M =
        .ok A ∧
      ∃ a : Label, a.name = t.name ∧
        (a ∈ labels ∨ a = .named t.name ∧ ∀ l ∈ labels, l.name ≠ t.name) ∧
        ∀ w, (A.constructing.Accepts w ↔ w = [a]) ∧ (A.destructing.Accepts w ↔ w = [a]) := by
  obtain ⟨n, hn⟩ := exists_automaton_header (labelDomain labels) t
  obtain ⟨m, hm⟩ := exists_automaton_header (learn (labelDomain labels) [t]) u
  obtain ⟨path, hpath⟩ : ∃ path, Alphabet.hops.automatonBetween
      (M.locations.filter (·.routerName?.isSome)) M.initial M.final
      (some (.sequence [.any])) = .ok path := ⟨_, rfl⟩
  obtain ⟨a, ha, hnew, hunique⟩ := exists_label_of_name (nodup_labelDomain labels) t
  refine ⟨⟨n, path, m⟩, ?_, a, ha, known_or_new hnew, fun w => ⟨?_, ?_⟩⟩
  · have hreverse : (header t).reverse = header t := by
      simp [header, Atom.reverse, Atom.reverseAll]
    simp only [Query.automata, Option.map_some, hreverse, hn, hpath, hm, bind, Except.bind, pure,
      Except.pure]
  · exact accepts_header_iff hn hunique w
  · -- the name is known behind the network
    have hknown : ∀ v ∈ [u], (Symbol.simple v).In (learn (labelDomain labels) [t]) := by
      intro v hv
      obtain rfl := List.mem_singleton.mp hv
      exact ⟨a, ((hunique a).mpr rfl).1, ha.trans htu⟩
    refine accepts_header_iff hm (fun b => ?_) w
    rw [learn_of_known hknown, ← htu]
    exact hunique b

end Headers

/-- **A query that asks for a name as it is written is about the label of that name.** It is cut
into chevrons, blanks, a dot and twice the written name, which is one word; both words stand for the
name; and in front of the network and behind it the automata of the query accept one word of one
label, the known one of that name or a new one. -/
theorem name_spelled {Spent : Type} [DecidableEq Spent] (s : String) (h : Spellable s)
    (labels : List Label) (M : Pda (Hop Spent) StackSymbol) :
    (∃ ts, tokens (aboutName s) = (ts, none) ∧
      ts.map (fun t => (t.kind, t.text)) = lexemesAbout s ++ [(.ending, "")]) ∧
    ∃ q t u, Query.read (aboutName s) = .ok q ∧
      q.constructing = some (header t) ∧ t.text = spelling s ∧ t.name = s ∧
      q.destructing = some (header u) ∧ u.text = spelling s ∧ u.name = s ∧
      ∃ A, q.automata labels M = .ok A ∧
      ∃ a : Label, a.name = s ∧ (a ∈ labels ∨ a = .named s ∧ ∀ l ∈ labels, l.name ≠ s) ∧
        ∀ w, (A.constructing.Accepts w ↔ w = [a]) ∧ (A.destructing.Accepts w ↔ w = [a]) := by
  constructor
  · obtain ⟨ts, line, column, htokens, hts⟩ := tokens_of_cut h.cut (by simp [lexemesAbout])
    exact ⟨_, htokens, by simp [hts]⟩
  · obtain ⟨t, u, ht, hu, hread⟩ := h.read
    have hname : ∀ {t : Token}, t.text = spelling s → t.name = s := by
      intro t ht
      rw [Token.name, ht, spelling, String.toList_ofList, unescape_spelled, String.ofList_toList]
    refine ⟨_, t, u, hread, rfl, ht, hname ht, rfl, hu, hname hu, ?_⟩
    have hautomata := exists_automata_of_name labels M ((hname ht).trans (hname hu).symm)
    rwa [hname ht] at hautomata

/-- A name that starts with a comma and is made of special characters. -/
theorem name_spelled_specials : Spellable ",<\\n.>" ∧ spelling ",<\\n.>" = ",\\<\\\\n\\.\\>" ∧
    ∃ M q A a, pushingRouter.overForwarding 0 = .ok M ∧
      Query.read "<,\\<\\\\n\\.\\>> . <,\\<\\\\n\\.\\>>" = .ok q ∧
      q.automata [.named "a"] M = .ok A ∧ Label.name a = ",<\\n.>" ∧
      ∀ w, (A.constructing.Accepts w ↔ w = [a]) ∧ (A.destructing.Accepts w ↔ w = [a]) := by
  have hs : Spellable ",<\\n.>" := by decide +kernel
  have htext : aboutName ",<\\n.>" = "<,\\<\\\\n\\.\\>> . <,\\<\\\\n\\.\\>>" := by decide +kernel
  obtain ⟨M, hM⟩ : ∃ M, pushingRouter.overForwarding 0 = .ok M := ⟨_, rfl⟩
  obtain ⟨-, q, t, u, hread, -, -, -, -, -, -, A, hA, a, ha, -, hw⟩ :=
    name_spelled ",<\\n.>" hs [.named "a"] M
  exact ⟨hs, by decide +kernel, M, q, A, a, hM, htext ▸ hread, hA, ha, hw⟩

end MplsReach.Query
