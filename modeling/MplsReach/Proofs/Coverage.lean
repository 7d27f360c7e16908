/-
The labels that can reach the end of the network.

* `Learned`: the labels that are known after some words were looked up.
* `Sketch.learns_draw`: drawing a header makes known the labels that its words name, and reads known
  labels only.
* `Covers`: every header may stand behind the network, and whatever label a run has on the stack can
  be taken off there.
* `covers_of_distinct_names`: this holds of every network whose labels have different names.
-/
import MplsReach.Proofs.Marker
import MplsReach.Proofs.Reversal

namespace MplsReach

namespace Query

/-- What is known after words were looked up: a word that names no known label brings a new one. -/
def Learned (D : List Label) (words : List Token) (l : Label) : Prop :=
  l ∈ D ∨ ∃ t ∈ words, l = .named t.name ∧ ∀ m ∈ D, m.name ≠ t.name

lemma learned_nil {D : List Label} {l : Label} : Learned D [] l ↔ l ∈ D := by
  simp [Learned]

/-- Words that are looked up one after the other. -/
lemma learned_append {D D' : List Label} {us vs : List Token}
    (h : ∀ l, l ∈ D' ↔ Learned D us l) (l : Label) :
    Learned D' vs l ↔ Learned D (us ++ vs) l := by
  constructor
  · rintro (hl | ⟨t, ht, rfl, hnew⟩)
    · exact ((h l).mp hl).imp_right fun ⟨t, ht, hl⟩ => ⟨t, List.mem_append_left vs ht, hl⟩
    · exact .inr ⟨t, List.mem_append_right us ht, rfl, fun m hm => hnew m ((h m).mpr (.inl hm))⟩
  · rintro (hl | ⟨t, ht, rfl, hnew⟩)
    · exact .inl ((h l).mpr (.inl hl))
    · rcases List.mem_append.mp ht with ht | ht
      · exact .inl ((h _).mpr (.inr ⟨t, ht, rfl, hnew⟩))
      · -- a label of that name may have become known in between: then it is the same label
        by_cases hknown : ∃ m ∈ D', m.name = t.name
        · obtain ⟨m, hm, hname⟩ := hknown
          rcases (h m).mp hm with hmD | ⟨u, hu, rfl, -⟩
          · exact absurd hname (hnew m hmD)
          · have heq : u.name = t.name := hname
            exact .inl (heq ▸ hm)
        · exact .inr ⟨t, ht, rfl, fun m hm hname => hknown ⟨m, hm, hname⟩⟩

lemma learned_of_lookup {D D' as : List Label} {word : Token}
    (h : Alphabet.labels.lookup D word.name = .ok (D', as)) :
    (∀ l, l ∈ D' ↔ Learned D [word] l) ∧ ∀ a ∈ as, a ∈ D' := by
  rw [Alphabet.labels] at h
  simp only at h
  split at h
  · rename_i hnone
    obtain ⟨rfl, rfl⟩ := Prod.mk.inj (Except.ok.inj h)
    have hnew : ∀ m ∈ D, m.name ≠ word.name := by simpa using hnone
    refine ⟨fun l => ?_, fun a ha => List.mem_append_right D ha⟩
    simp only [Learned, List.mem_append, List.mem_singleton, exists_eq_left]
    exact or_congr_right ⟨fun hl => ⟨hl, hnew⟩, And.left⟩
  · rename_i hsome
    obtain ⟨rfl, rfl⟩ := Prod.mk.inj (Except.ok.inj h)
    refine ⟨fun l => ⟨.inl, ?_⟩, fun a ha => (List.mem_filter.mp ha).1⟩
    rintro (hl | ⟨t, ht, rfl, hnew⟩)
    · exact hl
    · obtain rfl := List.mem_singleton.mp ht
      obtain ⟨m, hm⟩ := List.exists_mem_of_ne_nil _ hsome
      obtain ⟨hmD, hname⟩ := List.mem_filter.mp hm
      exact absurd (of_decide_eq_true hname) (hnew m hmD)

/-! ### Drawing -/

namespace Sketch

/-- A sketch in which words were looked up, with new edges for labels that are known then. -/
structure Learns (words : List Token) (s t : Sketch Label) : Prop where
  domain_iff : ∀ l, l ∈ t.domain ↔ Learned s.domain words l
  edges : ∃ new, t.edges = s.edges ++ new ∧ ∀ e ∈ new, ∀ l, e.symbol = some l → l ∈ t.domain

variable {s t u : Sketch Label} {us vs : List Token}

lemma Learns.refl (s : Sketch Label) : Learns [] s s :=
  ⟨fun _ => learned_nil.symm, [], by simp, by simp⟩

lemma Learns.trans (h : Learns us s t) (h' : Learns vs t u) : Learns (us ++ vs) s u := by
  obtain ⟨new, hnew, hmem⟩ := h.edges
  obtain ⟨new', hnew', hmem'⟩ := h'.edges
  refine ⟨fun l => (h'.domain_iff l).trans (learned_append h.domain_iff l), new ++ new', ?_, ?_⟩
  · rw [hnew', hnew, List.append_assoc]
  · intro e he l hl
    rcases List.mem_append.mp he with he | he
    · exact (h'.domain_iff l).mpr (.inl (hmem e he l hl))
    · exact hmem' e he l hl

lemma Learns.place (h : Learns us s t) {A : Alphabet Label} {source target : ℕ} {as : List Label}
    (has : ∀ a ∈ as, a ∈ t.domain) : Learns us s (t.place A source target as) := by
  obtain ⟨new, hnew, hmem⟩ := h.edges
  refine ⟨h.domain_iff, _, by rw [Sketch.place, hnew, List.append_assoc], fun e he l hl => ?_⟩
  rcases List.mem_append.mp he with he | he
  · exact hmem e he l hl
  · obtain ⟨a, ha, rfl⟩ := List.mem_map.mp he
    exact Option.some.inj hl ▸ has a ha

lemma learns_silent (source target : ℕ) : Learns [] s (s.silent source target) := by
  refine ⟨fun _ => learned_nil.symm, _, rfl, fun e he l hl => ?_⟩
  rw [List.mem_singleton.mp he] at hl
  exact absurd hl (by simp)

lemma learns_repeated {source target : ℕ} (q : Quantifier) :
    Learns [] s (s.repeated source target q) := by
  cases q with
  | zeroOrMore => exact (learns_silent target source).trans (learns_silent source target)
  | oneOrMore => exact learns_silent target source
  | zeroOrOne => exact learns_silent source target

lemma learns_meaning {x : Symbol} {as : List Label}
    (h : s.meaning Alphabet.labels x = .ok (t, as)) :
    Learns x.words s t ∧ ∀ a ∈ as, a ∈ t.domain := by
  cases x with
  | tuple => exact absurd h (by simp [meaning])
  | simple word =>
      obtain ⟨⟨D, bs⟩, hl, heq⟩ := exists_of_bind_eq_ok h
      obtain ⟨rfl, rfl⟩ := Prod.mk.inj (Except.ok.inj heq)
      obtain ⟨hdomain, hfound⟩ := learned_of_lookup hl
      exact ⟨⟨hdomain, [], by simp, by simp⟩, hfound⟩

lemma learns_meanings {xs : List Symbol} {as : List Label}
    (h : meanings Alphabet.labels s xs = .ok (t, as)) :
    Learns (xs.flatMap Symbol.words) s t ∧ ∀ a ∈ as, a ∈ t.domain := by
  induction xs generalizing s as with
  | nil =>
      obtain ⟨rfl, rfl⟩ := Prod.mk.inj (Except.ok.inj h)
      exact ⟨.refl s, by simp⟩
  | cons x xs ih =>
      obtain ⟨⟨s', bs⟩, hx, h⟩ := exists_of_bind_eq_ok h
      obtain ⟨⟨t', cs⟩, hxs, h⟩ := exists_of_bind_eq_ok h
      obtain ⟨rfl, rfl⟩ := Prod.mk.inj (Except.ok.inj h)
      obtain ⟨hl, hb⟩ := learns_meaning hx
      obtain ⟨hl', hc⟩ := ih hxs
      refine ⟨hl.trans hl', fun a ha => ?_⟩
      rcases List.mem_append.mp ha with ha | ha
      · exact (hl'.domain_iff a).mpr (.inl (hb a ha))
      · exact hc a ha

lemma learns_drawSequence {as : List Atom}
    (ih : ∀ a ∈ as, ∀ {s t : Sketch Label} {source target : ℕ},
      draw Alphabet.labels s source target a = .ok t → Learns a.words s t)
    {source target : ℕ} (h : drawSequence Alphabet.labels s source target as = .ok t) :
    Learns (Atom.wordsAll as) s t := by
  induction as generalizing source s with
  | nil => exact absurd h (by simp [drawSequence])
  | cons a as ihs =>
      cases as with
      | nil =>
          rw [drawSequence] at h
          simpa [Atom.wordsAll] using ih a List.mem_cons_self h
      | cons b bs =>
          rw [drawSequence] at h
          obtain ⟨s', ha, h⟩ := exists_of_bind_eq_ok h
          have hfirst := ih a List.mem_cons_self ha
          have hrest := ihs (fun c hc => ih c (List.mem_cons_of_mem a hc)) h
          -- the new location in between changes neither labels nor edges
          exact Learns.trans ⟨hfirst.domain_iff, hfirst.edges⟩ hrest

/-- **What drawing a header makes known**: the labels that its words name. Its edges read labels
that are known then. -/
lemma learns_draw (a : Atom) {source target : ℕ}
    (h : draw Alphabet.labels s source target a = .ok t) : Learns a.words s t := by
  have hothers : ∀ {D excluded as : List Label}, Alphabet.labels.others D excluded = .ok as →
      ∀ b ∈ as, b ∈ D := by
    intro D excluded as has b hb
    obtain rfl := Except.ok.inj has
    exact (List.mem_filter.mp hb).1
  induction a using Atom.ind generalizing source target s t with
  | simple x =>
      rw [draw] at h
      obtain ⟨⟨s', as⟩, hx, h⟩ := exists_of_bind_eq_ok h
      obtain rfl := Except.ok.inj h
      obtain ⟨hl, has⟩ := learns_meaning hx
      exact hl.place has
  | any =>
      rw [draw] at h
      obtain ⟨as, has, h⟩ := exists_of_bind_eq_ok h
      obtain rfl := Except.ok.inj h
      exact (Learns.refl s).place (hothers has)
  | positiveSet xs =>
      rw [draw] at h
      obtain ⟨⟨s', as⟩, hxs, h⟩ := exists_of_bind_eq_ok h
      obtain rfl := Except.ok.inj h
      obtain ⟨hl, has⟩ := learns_meanings hxs
      exact hl.place fun a ha => has a ((Text.mem_distinct a as).mp ha)
  | negativeSet xs =>
      rw [draw] at h
      obtain ⟨⟨s', as⟩, hxs, h⟩ := exists_of_bind_eq_ok h
      obtain ⟨bs, hbs, h⟩ := exists_of_bind_eq_ok h
      obtain rfl := Except.ok.inj h
      obtain ⟨hl, -⟩ := learns_meanings hxs
      exact hl.place (hothers hbs)
  | sequence as ih =>
      rw [draw] at h
      exact learns_drawSequence ih h
  | alternative l r ihl ihr =>
      rw [draw] at h
      obtain ⟨s', hl, hr⟩ := exists_of_bind_eq_ok h
      exact (ihl hl).trans (ihr hr)
  | quantified a q ih =>
      rw [draw] at h
      obtain ⟨s', ha, h⟩ := exists_of_bind_eq_ok h
      obtain rfl := Except.ok.inj h
      simpa [Atom.words] using (ih ha).trans (learns_repeated q)

end Sketch

/-- The words of a header that may be left out. -/
def headerWords (r : Option Atom) : List Token := r.elim [] Atom.words

/-- What the automaton of a header makes known, and the labels that it reads. -/
lemma learned_of_automaton {D D' : List Label} {r : Option Atom} {N : Nfa ℕ Label}
    (h : Alphabet.labels.automaton D r = .ok (N, D')) :
    (∀ l, l ∈ D' ↔ Learned D (headerWords r) l) ∧
      ∀ e ∈ N.edges, ∀ l, e.symbol = some l → l ∈ D' := by
  obtain ⟨⟨s, i, f⟩, hs, h⟩ := exists_of_bind_eq_ok h
  obtain ⟨rfl, rfl⟩ := Prod.mk.inj (Except.ok.inj h)
  cases r with
  | none =>
      obtain ⟨rfl, -⟩ := Prod.mk.inj (Except.ok.inj hs)
      exact ⟨fun _ => learned_nil.symm, fun e he => absurd he List.not_mem_nil⟩
  | some r =>
      obtain ⟨t, ht, hs⟩ := exists_of_bind_eq_ok hs
      obtain ⟨rfl, -⟩ := Prod.mk.inj (Except.ok.inj hs)
      obtain ⟨hdomain, new, hnew, hmem⟩ := Sketch.learns_draw r ht
      refine ⟨hdomain, fun e he => hmem e ?_⟩
      simpa [Sketch.finish, hnew, Sketch.blank] using he

lemma Atom.mem_words_reverse {a : Atom} {t : Token} : t ∈ a.reverse.words ↔ t ∈ a.words := by
  induction a using Atom.ind with
  | simple x => rfl
  | any => rfl
  | positiveSet xs => rfl
  | negativeSet xs => rfl
  | sequence as ih =>
      simp only [Atom.reverse, Atom.words, Atom.mem_wordsAll, Atom.reverseAll_eq_map,
        List.mem_reverse, List.mem_map, exists_exists_and_eq_and]
      exact exists_congr fun a => and_congr_right (ih a)
  | alternative l r ihl ihr =>
      simp only [Atom.reverse, Atom.words, List.mem_append, ihl, ihr]
  | quantified a q ih => exact ih

lemma mem_headerWords_reverse {r : Option Atom} {t : Token} :
    t ∈ headerWords (r.map Atom.reverse) ↔ t ∈ headerWords r := by
  cases r with
  | none => rfl
  | some a => exact Atom.mem_words_reverse

/-! ### Any header -/

/-- The expression for all headers. -/
def anyHeader : Atom := .sequence [.quantified .any .zeroOrMore]

/-- An automaton that reads each of some labels from one location to the other, again and again. -/
structure ReadsAny (D : List Label) (N : Nfa ℕ Label) : Prop where
  initial_eq : N.initial = 0
  final_eq : N.final = 1
  edges_eq : N.edges = D.map (fun l => ⟨0, some l, 1⟩) ++ [⟨1, none, 0⟩, ⟨0, none, 1⟩]

lemma automaton_anyHeader (D : List Label) :
    ∃ N, Alphabet.labels.automaton D (some anyHeader) = .ok (N, D) ∧ ReadsAny D N := by
  refine ⟨_, rfl, rfl, rfl, ?_⟩
  simp [Sketch.finish, Sketch.repeated, Sketch.silent, Sketch.place, Sketch.blank, Alphabet.labels]

lemma ReadsAny.mem_edges_iff {D : List Label} {N : Nfa ℕ Label} (h : ReadsAny D N) {l : Label} :
    ⟨N.initial, some l, N.final⟩ ∈ N.edges ↔ l ∈ D := by
  simp [h.initial_eq, h.final_eq, h.edges_eq]

/-- It accepts all headers of these labels. -/
lemma ReadsAny.accepts {D : List Label} {N : Nfa ℕ Label} (h : ReadsAny D N) {d : List Label}
    (hd : ∀ l ∈ d, l ∈ D) : N.Accepts d := by
  have hpath : N.Path 0 d 1 := by
    induction d with
    | nil => exact .silent (by simp [h.edges_eq]) (.refl 1)
    | cons l d ih =>
        obtain ⟨hl, hd⟩ := List.forall_mem_cons.mp hd
        have hread : ⟨0, some l, 1⟩ ∈ N.edges := by simp [h.edges_eq, hl]
        have hback : ⟨1, none, 0⟩ ∈ N.edges := by simp [h.edges_eq]
        exact .read hread (.silent hback (ih hd))
  rwa [Nfa.Accepts, h.initial_eq, h.final_eq]

/-! ### What is known behind the network -/

variable {Spent : Type} [DecidableEq Spent] {M : Pda (Hop Spent) StackSymbol} {q : Query}
  {labels : List Label} {a : Automata Spent}

/-- Behind the network, the labels of the network and those that the first header names are
known. -/
lemma exists_known (ha : q.automata labels M = .ok a) (hnames : (labels.map Label.name).Nodup)
    (hany : q.destructing = some anyHeader) :
    ∃ D, (∀ l, l ∈ D ↔ Learned labels (headerWords q.constructing) l) ∧
      (∀ e ∈ a.constructing.edges, ∀ l, e.symbol = some l → l ∈ D) ∧ ReadsAny D a.destructing := by
  obtain ⟨D, E, hconstructing, -, hdestructing⟩ := exists_of_automata_eq_ok ha
  obtain ⟨hlearned, hread⟩ := learned_of_automaton hconstructing
  obtain ⟨N, hN, hreads⟩ := automaton_anyHeader D
  rw [hany, hN] at hdestructing
  obtain ⟨rfl, -⟩ := Prod.mk.inj (Except.ok.inj hdestructing)
  refine ⟨D, fun l => ?_, hread, hreads⟩
  rw [hlearned]
  simp only [Learned, mem_labelDomain_iff hnames, mem_headerWords_reverse]

end Query

variable {Spent : Type} [DecidableEq Spent] {M : Pda (Hop Spent) StackSymbol} {n : Network}
  {q : Query} {labels : List Label} {a : Query.Automata Spent}

/-- Behind the network, the labels of the network and those that the first header names can be taken
off. No other labels are ever on the stack, and so every packet whose stack has a bottom comes to
the end. -/
structure Covers (q : Query) (labels : List Label) (a : Query.Automata Spent)
    (M : Pda (Hop Spent) StackSymbol) : Prop where
  read_iff : ∀ l, ⟨a.destructing.initial, some l, a.destructing.final⟩ ∈ a.destructing.edges ↔
    Query.Learned labels (Query.headerWords q.constructing) l
  read_of_reaches : ∀ takeOver c,
    ((a.parts M).whole takeOver).Reaches ⟨.inl (.inl .start), [.bottom]⟩ c →
    ∀ s, .label s ∈ c.stack →
      ⟨a.destructing.initial, some (.named s), a.destructing.final⟩ ∈ a.destructing.edges
  final_iff : ∀ takeOver,
    (∃ w, ((a.parts M).whole takeOver).Reaches ⟨.inl (.inl .start), [.bottom]⟩
      ⟨.inr a.destructing.final, .bottom :: w⟩) ↔
    ∃ w, .bottom ∈ w ∧ ((a.parts M).whole takeOver).Reaches ⟨.inl (.inl .start), [.bottom]⟩
      ⟨.inl ((a.parts M).front takeOver).final, w⟩

lemma StackSymbol.eq_named_of_label_eq {s : String} {l : Label} (h : label s = ofLabel l) :
    l = .named s := by
  cases l with
  | named _ => exact congrArg Label.named (StackSymbol.label.inj h).symm
  | absent _ => exact absurd h (by simp [ofLabel])

/-- Symbols of known labels are a header of known labels. -/
lemma exists_header {D : List Label} {w : List StackSymbol}
    (h : ∀ x ∈ w, ∃ l ∈ D, StackSymbol.ofLabel l = x) :
    ∃ d : List Label, (∀ l ∈ d, l ∈ D) ∧ d.map .ofLabel = w := by
  induction w with
  | nil => exact ⟨[], by simp, rfl⟩
  | cons x w ih =>
      obtain ⟨hx, hw⟩ := List.forall_mem_cons.mp h
      obtain ⟨l, hl, rfl⟩ := hx
      obtain ⟨d, hd, rfl⟩ := ih hw
      exact ⟨l :: d, List.forall_mem_cons.mpr ⟨hl, hd⟩, rfl⟩

section Known

variable {D : List Label} {takeOver : Bool}
  (hread : ∀ e ∈ a.constructing.edges, ∀ l, e.symbol = some l → l ∈ D)
  (hbrings : ∀ s, M.Brings s → ∃ l ∈ D, s = .ofLabel l)

include hread hbrings

/-- Labels on the stack are labels that the first header or forwarding brings in. -/
lemma named_mem_of_whole_reaches {c : Config (Place Spent) StackSymbol}
    (hc : ((a.parts M).whole takeOver).Reaches ⟨.inl (.inl .start), [.bottom]⟩ c) {s : String}
    (hs : .label s ∈ c.stack) : .named s ∈ D := by
  rcases hc.mem_stack hs with hs | hs
  · exact absurd hs (by simp)
  · rcases brings_whole hs with hs | ⟨e, he, l, hl, hs⟩ | hs
    · exact absurd hs (by simp)
    · exact StackSymbol.eq_named_of_label_eq hs ▸ hread e he l hl
    · obtain ⟨l, hl, hs⟩ := hbrings _ hs
      exact StackSymbol.eq_named_of_label_eq hs ▸ hl

/-- If all labels on the stack can be taken off behind the network, the end is reached with a bottom
on top from every stack that has one. -/
lemma whole_reaches_bottom_iff (hM : Forwards M) (hreads : Query.ReadsAny D a.destructing) :
    (∃ w, ((a.parts M).whole takeOver).Reaches ⟨.inl (.inl .start), [.bottom]⟩
      ⟨.inr a.destructing.final, .bottom :: w⟩) ↔
    ∃ w, .bottom ∈ w ∧ ((a.parts M).whole takeOver).Reaches ⟨.inl (.inl .start), [.bottom]⟩
      ⟨.inl ((a.parts M).front takeOver).final, w⟩ := by
  have hplain := plain_front (a := a) hM takeOver
  constructor
  · rintro ⟨w, h⟩
    obtain ⟨v, -, hfront, hdestroy⟩ := (Pda.concat_reaches_iff hplain Nfa.plain_remover).mp h
    obtain ⟨d, -, rfl⟩ := (destroy_reaches_iff (List.cons_ne_nil _ _)).mp hdestroy
    exact ⟨_, by simp, Pda.concat_reaches_inl hplain Nfa.plain_remover hfront⟩
  · rintro ⟨w, hbottom, h⟩
    have hfront : ((a.parts M).front takeOver).Reaches ⟨.inl .start, [.bottom]⟩
        ⟨((a.parts M).front takeOver).final, w⟩ :=
      (Pda.concat_reaches_inl_iff hplain Nfa.plain_remover).mp h
    have hlabels : ∀ s, M.Brings s → ∃ l : Label, s = .ofLabel l := fun s hs =>
      (hbrings s hs).imp fun _ => And.right
    have hmarker : .marker ∉ w := markerInBuilder_of_reaches hM (not_brings_marker hlabels) h
    -- what stands above the first bottom is taken off
    obtain ⟨above, rest, rfl, hfirst⟩ := List.eq_append_cons_of_mem hbottom
    obtain ⟨d, hd, habove⟩ := exists_header (D := D) (w := above) fun x hx => by
      cases x with
      | bottom => exact absurd hx hfirst
      | marker => exact absurd (List.mem_append_left _ hx) hmarker
      | label s =>
          exact ⟨_, named_mem_of_whole_reaches hread hbrings h (List.mem_append_left _ hx), rfl⟩
    have hdestroy : (a.parts M).destroy.Reaches ⟨a.destructing.initial, above ++ .bottom :: rest⟩
        ⟨a.destructing.final, .bottom :: rest⟩ :=
      (destroy_reaches_iff (List.cons_ne_nil _ _)).mpr ⟨d, hreads.accepts hd, by rw [habove]⟩
    exact ⟨rest, (Pda.concat_reaches_iff hplain Nfa.plain_remover).mpr
      ⟨_, by simp, hfront, hdestroy⟩⟩

end Known

lemma covers_of_brings (hM : Forwards M)
    (hbrings : ∀ s, M.Brings s → ∃ l, n.Brings l ∧ s = .ofLabel l)
    (hlabels : n.labels = .ok labels) (hnames : (labels.map Label.name).Nodup)
    (hany : q.destructing = some Query.anyHeader) (ha : q.automata labels M = .ok a) :
    Covers q labels a M := by
  obtain ⟨D, hD, hread, hreads⟩ := Query.exists_known ha hnames hany
  have hbrings' : ∀ s, M.Brings s → ∃ l ∈ D, s = .ofLabel l := by
    intro s hs
    obtain ⟨l, hl, hs⟩ := hbrings s hs
    exact ⟨l, (hD l).mpr (.inl ((Network.mem_labels_iff hlabels).mpr (.inl hl))), hs⟩
  refine ⟨fun l => hreads.mem_edges_iff.trans (hD l), fun takeOver c hc s hs => ?_, fun takeOver =>
    whole_reaches_bottom_iff hread hbrings' hM hreads⟩
  exact hreads.mem_edges_iff.mpr (named_mem_of_whole_reaches hread hbrings' hc hs)

/-- **Any header behind the network covers every label that can come there.** For every network
whose labels have different names, every bound on failures and both kinds of forwarding, and every
query that asks for any header behind the network: there, the labels of the network and those that
the first header names can be taken off, no other label is ever on the stack, and the end is reached
with a bottom of the stack on top exactly if the network is left with a bottom somewhere on it. -/
theorem covers_of_distinct_names (n : Network) (k : Int) (q : Query) (labels : List Label)
    (hlabels : n.labels = .ok labels) (hnames : (labels.map Label.name).Nodup)
    (hany : q.destructing = some Query.anyHeader) :
    (∀ M a, n.overForwarding k = .ok M → q.automata labels M = .ok a → Covers q labels a M) ∧
    (∀ M a, n.underForwarding k = .ok M → q.automata labels M = .ok a → Covers q labels a M) :=
  ⟨fun _ _ hM => covers_of_brings (Network.forwards_overForwarding hM)
      (fun _ => Network.exists_of_brings_over hM) hlabels hnames hany,
    fun _ _ hM => covers_of_brings (Network.forwards_underForwarding hM)
      (fun _ => Network.exists_of_brings_under hM) hlabels hnames hany⟩

/-- From a header that is the label `b`, through the router `r`, to any header. -/
def anyBehind : Query :=
  let word (s : String) : Query.Atom := .simple (.simple ⟨.word, s, 1, 1⟩)
  ⟨some (word "b"), word "r", some Query.anyHeader⟩

/-- Behind the router that pushes a label, that label and the one that the query names can be taken
off. -/
theorem covers_pushing : ∃ M a, pushingRouter.overForwarding 0 = .ok M ∧
    pushingRouter.labels = .ok [.named "a"] ∧ anyBehind.automata [.named "a"] M = .ok a ∧
    Covers anyBehind [.named "a"] a M :=
  ⟨_, _, rfl, rfl, rfl, (covers_of_distinct_names pushingRouter 0 anyBehind [.named "a"] rfl
    (by decide) rfl).1 _ _ rfl rfl⟩

end MplsReach
