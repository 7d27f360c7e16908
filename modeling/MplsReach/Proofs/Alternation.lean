/-
Header expressions while names become known, and the order of alternatives.

A name that no known label has brings a new label, which dots and negative sets that are drawn later
cover. So the words of an expression depend on what is known when it is drawn.

* `learn`: the labels that are known after words were looked up.
* `Atom.WayFrom`: the words that are read between the gates of an expression that is drawn over a
  domain; each part of it is drawn when the words of the parts before it are known.
* `Sketch.draw_shows`: **the edges drawn for an expression show these ways**, whatever names it has.
* `Atom.wayFrom_congr`: domains over which an expression has the same ways.
* `Exchanged`: what exchanging two alternatives does to the words of a header.
* `alternatives_exchanged`: words of known labels stay; all words stay exactly if the ways through
  the alternatives in both orders read the same words with a new label, and in particular if each
  alternative spells out its labels or the other one names known labels only.
-/
import MplsReach.Proofs.Coverage

namespace MplsReach

/-- Legs that agree on the words over some symbols make tours that do. -/
lemma Tour.congr_over {ν Sym : Type} {leg leg' : ν → List Sym → ν → Prop} {P : Sym → Prop}
    (hl : ∀ x u y, (∀ a ∈ u, P a) → (leg x u y ↔ leg' x u y)) {x y : ν} {w : List Sym}
    (hw : ∀ a ∈ w, P a) : Tour leg x w y ↔ Tour leg' x w y := by
  have hmono : ∀ {leg leg' : ν → List Sym → ν → Prop},
      (∀ x u y, (∀ a ∈ u, P a) → leg x u y → leg' x u y) → Tour leg x w y → Tour leg' x w y := by
    intro leg leg' hl h
    induction h with
    | refl x => exact .refl x
    | cons hleg _ ih =>
        obtain ⟨hu, hv⟩ := List.forall_mem_append.mp hw
        exact .cons (hl _ _ _ hu hleg) (ih hv)
  exact ⟨hmono fun x u y hu => (hl x u y hu).mp, hmono fun x u y hu => (hl x u y hu).mpr⟩

namespace Query

/-! ### Names that become known -/

/-- The labels that are known after words were looked up one after the other. -/
def learn (D : List Label) (words : List Token) : List Label :=
  words.foldl (fun D t => if D.any (·.name = t.name) then D else D ++ [.named t.name]) D

variable {D E : List Label} {us vs : List Token} {b : Label}

lemma learn_append (D : List Label) (us vs : List Token) :
    learn D (us ++ vs) = learn (learn D us) vs :=
  List.foldl_append

/-- A name stands for the labels of that name that are known once it was looked up. -/
lemma lookup_eq (D : List Label) (t : Token) :
    Alphabet.labels.lookup D t.name =
      .ok (learn D [t], (learn D [t]).filter (·.name = t.name)) := by
  by_cases h : (Symbol.simple t).In D
  · have hany : D.any (·.name = t.name) = true := by simpa [Symbol.In, Symbol.Names] using h
    simp only [Alphabet.lookup_labels h, learn, List.foldl_cons, List.foldl_nil, hany, if_true]
  · have hnone : ∀ a ∈ D, a.name ≠ t.name := by simpa [Symbol.In, Symbol.Names] using h
    have hfilter : D.filter (·.name = t.name) = [] := by simpa using hnone
    have hany : D.any (·.name = t.name) = false := by simpa using hnone
    have hlearn : learn D [t] = D ++ [.named t.name] := by
      simp only [learn, List.foldl_cons, List.foldl_nil, hany, Bool.false_eq_true, if_false]
    have hlookup : Alphabet.labels.lookup D t.name =
        .ok (D ++ [.named t.name], [.named t.name]) := by
      simp only [Alphabet.labels, hfilter]
    rw [hlookup, hlearn, List.filter_append, hfilter]
    simp [Label.name]

lemma mem_learn_iff : b ∈ learn D us ↔ Learned D us b := by
  induction us generalizing D with
  | nil => exact learned_nil.symm
  | cons t us ih =>
      have hfirst := (learned_of_lookup (lookup_eq D t)).1
      rw [← List.singleton_append, learn_append, ih]
      exact learned_append hfirst b

lemma mem_learn_of_mem (h : b ∈ D) : b ∈ learn D us := mem_learn_iff.mpr (.inl h)

/-- What is known after words depends on the labels that were known before. -/
lemma mem_learn_congr (h : ∀ b, b ∈ D ↔ b ∈ E) : b ∈ learn D us ↔ b ∈ learn E us := by
  simp only [mem_learn_iff, Learned, h]

/-- Words in another order make the same labels known. -/
lemma mem_learn_comm : b ∈ learn (learn D us) vs ↔ b ∈ learn (learn D vs) us := by
  rw [← learn_append, ← learn_append, mem_learn_iff, mem_learn_iff]
  simp only [Learned, List.mem_append, or_comm]

/-- A word that was looked up is known. -/
lemma in_learn {t : Token} (ht : t ∈ us) : (Symbol.simple t).In (learn D us) := by
  by_cases h : (Symbol.simple t).In D
  · obtain ⟨a, ha, hname⟩ := h
    exact ⟨a, mem_learn_of_mem ha, hname⟩
  · have hnone : ∀ m ∈ D, m.name ≠ t.name := by simpa [Symbol.In, Symbol.Names] using h
    exact ⟨.named t.name, mem_learn_iff.mpr (.inr ⟨t, ht, rfl, hnone⟩), rfl⟩

/-- Words that are known bring nothing new. -/
lemma learn_of_known (h : ∀ t ∈ us, (Symbol.simple t).In D) : learn D us = D := by
  induction us with
  | nil => rfl
  | cons t us ih =>
      obtain ⟨ht, hus⟩ := List.forall_mem_cons.mp h
      have hany : D.any (·.name = t.name) = true := by simpa [Symbol.In, Symbol.Names] using ht
      rw [← List.singleton_append, learn_append]
      simp only [learn, List.foldl_cons, List.foldl_nil, hany, if_true]
      exact ih hus

/-- No further label of a known name becomes known. -/
lemma mem_of_names {x : Symbol} (hx : x.In D) (hb : b ∈ learn D us) (hname : x.Names b) :
    b ∈ D := by
  rcases mem_learn_iff.mp hb with hb | ⟨t, -, rfl, hnew⟩
  · exact hb
  · obtain ⟨a, ha, hxa⟩ := hx
    cases x with
    | simple word => exact absurd (hxa.trans hname.symm) (hnew a ha)
    | tuple => exact hxa.elim

/-! ### Ways over a domain that grows -/

/-- An expression without parts reads one of the labels that it stands for once its own words are
known. -/
def Atom.readsFrom (D : List Label) (a : Atom) : Gate → List Label → Gate → Prop :=
  a.reads (learn D a.words)

mutual

/-- The words that are read between the gates of an expression that is drawn over a domain. A part
is drawn when the words of the parts before it are known. -/
def Atom.WayFrom (D : List Label) : Atom → Gate → List Label → Gate → Prop
  | .simple x => Tour ((Atom.simple x).readsFrom D)
  | .any => Tour (Atom.any.readsFrom D)
  | .positiveSet xs => Tour ((Atom.positiveSet xs).readsFrom D)
  | .negativeSet xs => Tour ((Atom.negativeSet xs).readsFrom D)
  | .sequence as => Atom.WayAllFrom D as
  | .alternative l r => Tour fun x u y => l.WayFrom D x u y ∨ r.WayFrom (learn D l.words) x u y
  | .quantified a q => Tour fun x u y => a.WayFrom D x u y ∨ q.Bridge x u y

/-- The words that are read between the gates of expressions that are drawn one behind the other
over a domain. -/
def Atom.WayAllFrom (D : List Label) : List Atom → Gate → List Label → Gate → Prop
  | [] => Tour fun _ _ _ => False
  | [a] => a.WayFrom D
  | a :: b :: as => fun x w y =>
    Tour (Chained (a.WayFrom D) (Atom.WayAllFrom (learn D a.words) (b :: as))) x.outer w y.outer

end

/-! ### Drawing -/

namespace Sketch

variable {s t u : Sketch Label} {source target : ℕ}

/-- A symbol is looked up. -/
lemma of_meaning_eq_ok {x : Symbol} {as : List Label}
    (h : s.meaning Alphabet.labels x = .ok (t, as)) :
    (∃ symbols, t = { s with domain := learn s.domain x.words, symbols := symbols }) ∧
      x.In t.domain ∧ ∀ b, b ∈ as ↔ b ∈ t.domain ∧ x.Names b := by
  cases x with
  | tuple => exact absurd h (by simp [meaning])
  | simple word =>
      obtain ⟨⟨D, bs⟩, hl, heq⟩ := exists_of_bind_eq_ok h
      rw [lookup_eq] at hl
      obtain ⟨rfl, rfl⟩ := Prod.mk.inj (Except.ok.inj hl)
      obtain ⟨rfl, rfl⟩ := Prod.mk.inj (Except.ok.inj heq)
      exact ⟨⟨_, rfl⟩, in_learn (List.mem_singleton_self word), by simp [Symbol.Names]⟩

/-- Symbols are looked up one after the other. -/
lemma of_meanings_eq_ok {xs : List Symbol} {as : List Label}
    (h : meanings Alphabet.labels s xs = .ok (t, as)) :
    (∃ symbols, t =
      { s with domain := learn s.domain (xs.flatMap Symbol.words), symbols := symbols }) ∧
      ∀ b, b ∈ as ↔ b ∈ t.domain ∧ ∃ x ∈ xs, x.Names b := by
  induction xs generalizing s as with
  | nil =>
      obtain ⟨rfl, rfl⟩ := Prod.mk.inj (Except.ok.inj h)
      exact ⟨⟨_, rfl⟩, by simp⟩
  | cons x xs ih =>
      obtain ⟨⟨s', bs⟩, hx, h⟩ := exists_of_bind_eq_ok h
      obtain ⟨⟨t', cs⟩, hxs, h⟩ := exists_of_bind_eq_ok h
      obtain ⟨rfl, rfl⟩ := Prod.mk.inj (Except.ok.inj h)
      obtain ⟨⟨symbols, hs'⟩, hin, hbs⟩ := of_meaning_eq_ok hx
      obtain ⟨⟨symbols', ht'⟩, hcs⟩ := ih hxs
      have hdomain : t'.domain = learn s'.domain (xs.flatMap Symbol.words) := by rw [ht']
      refine ⟨⟨symbols', ?_⟩, fun b => ?_⟩
      · rw [ht', hs', List.flatMap_cons, learn_append]
      · rw [List.mem_append, hbs, hcs, List.exists_mem_cons_iff, and_or_left]
        -- what the first symbol stands for is not changed by the further ones
        refine or_congr_left ⟨fun hb => ⟨hdomain ▸ mem_learn_of_mem hb.1, hb.2⟩, fun hb => ?_⟩
        exact ⟨mem_of_names hin (hdomain ▸ hb.1) hb.2, hb.2⟩

lemma Shows.withDomain {way : Gate → List Label → Gate → Prop} (h : Shows way source target s t)
    (D : List Label) : Shows way source target { s with domain := D } { t with domain := D } :=
  ⟨rfl, h.edges⟩

lemma Drawn.withDomain (h : Drawn (fun _ => True) source target s t) (D : List Label) :
    Drawn (fun _ => True) source target { s with domain := D } { t with domain := D } := by
  obtain ⟨new, hnew, hmem⟩ := h.edges
  exact ⟨h.size_le, fun _ _ _ => trivial, new, hnew,
    fun e he => ⟨(hmem e he).1, (hmem e he).2.1, fun _ _ _ => trivial⟩⟩

/-- What was drawn, apart from its domain. -/
lemma drawn_of_draw {a : Atom} (h : draw Alphabet.labels s source target a = .ok t) :
    Drawn (fun _ => True) source target s t :=
  draw_drawn ⟨fun _ _ => ⟨fun _ _ => trivial, fun _ _ => trivial⟩, fun _ _ _ _ => trivial⟩ a h

lemma drawn_of_drawSequence {as : List Atom}
    (h : drawSequence Alphabet.labels s source target as = .ok t) :
    Drawn (fun _ => True) source target s t :=
  drawSequence_drawn (fun _ _ => drawn_of_draw) h

/-- A sketch to which something is added over a domain that grows by words. -/
def Adds (words : List Token) (way : Gate → List Label → Gate → Prop) (source target : ℕ)
    (s t : Sketch Label) : Prop :=
  t.domain = learn s.domain words ∧ Shows way source target { s with domain := t.domain } t

/-- Edges for the labels that an expression without parts stands for. -/
lemma adds_place {a : Atom} {as : List Label} (hne : source ≠ target)
    (ht : ∃ symbols, t = { s with domain := learn s.domain a.words, symbols := symbols })
    (has : ∀ b, b ∈ as ↔ a.Letter t.domain b) :
    Adds a.words (Tour (a.readsFrom s.domain)) source target s
      (t.place Alphabet.labels source target as) := by
  obtain ⟨symbols, rfl⟩ := ht
  have hplace := shows_place (A := Alphabet.labels)
    (s := { s with domain := learn s.domain a.words })
    (t := { s with domain := learn s.domain a.words, symbols := symbols }) hne rfl rfl
    fun b => Iff.refl (b ∈ as)
  refine ⟨rfl, hplace.congr fun x w y => Tour.congr fun x u y => ?_⟩
  constructor
  · rintro ⟨b, hb, rfl, rfl, rfl⟩
    exact ⟨rfl, rfl, b, (has b).mp hb, rfl⟩
  · rintro ⟨rfl, rfl, b, hb, rfl⟩
    exact ⟨b, (has b).mpr hb, rfl, rfl, rfl⟩

/-- Two things between the same locations, the second one over what is known after the first. -/
lemma Adds.union {way way' : Gate → List Label → Gate → Prop} (hsource : source < s.size)
    (htarget : target < s.size) (hd : Drawn (fun _ => True) source target s t)
    (hd' : Drawn (fun _ => True) source target t u) (h : Adds us way source target s t)
    (h' : Adds vs way' source target t u) :
    Adds (us ++ vs) (Tour fun x w y => way x w y ∨ way' x w y) source target s u := by
  refine ⟨by rw [h'.1, h.1, learn_append], ?_⟩
  exact Shows.union (s := { s with domain := u.domain }) (t := { t with domain := u.domain })
    hsource htarget (hd.withDomain _) (hd'.withDomain _) (h.2.withDomain _) h'.2

/-- Two things one behind the other, the second one over what is known after the first. -/
lemma Adds.chain {way way' : Gate → List Label → Gate → Prop} (hsource : source < s.size)
    (htarget : target < s.size) (hne : source ≠ target)
    (hd : Drawn (fun _ => True) source s.size { s with size := s.size + 1 } t)
    (hd' : Drawn (fun _ => True) s.size target t u)
    (h : Adds us way source s.size { s with size := s.size + 1 } t)
    (h' : Adds vs way' s.size target t u) :
    Adds (us ++ vs) (fun x w y => Tour (Chained way way') x.outer w y.outer) source target s u := by
  refine ⟨by rw [h'.1, h.1, learn_append], ?_⟩
  exact Shows.chain (s := { s with domain := u.domain }) (t := { t with domain := u.domain })
    hsource htarget hne (hd.withDomain _) (hd'.withDomain _) (h.2.withDomain _) h'.2

lemma drawSequence_shows {as : List Atom}
    (ih : ∀ a ∈ as, ∀ {s t : Sketch Label} {source target : ℕ},
      draw Alphabet.labels s source target a = .ok t → source < s.size → target < s.size →
        source ≠ target → Adds a.words (a.WayFrom s.domain) source target s t)
    (h : drawSequence Alphabet.labels s source target as = .ok t) (hsource : source < s.size)
    (htarget : target < s.size) (hne : source ≠ target) :
    Adds (Atom.wordsAll as) (Atom.WayAllFrom s.domain as) source target s t := by
  induction as generalizing source s with
  | nil => exact absurd h (by simp [drawSequence])
  | cons a as ihs =>
      cases as with
      | nil =>
          rw [drawSequence] at h
          simpa [Atom.wordsAll, Atom.WayAllFrom] using
            ih a List.mem_cons_self h hsource htarget hne
      | cons b bs =>
          rw [drawSequence] at h
          obtain ⟨s', ha, h⟩ := exists_of_bind_eq_ok h
          have hfirst := ih a List.mem_cons_self ha (Nat.lt_succ_of_lt hsource)
            (Nat.lt_succ_self _) (Nat.ne_of_lt hsource)
          have hd := drawn_of_draw ha
          have hsize : s.size + 1 ≤ s'.size := hd.size_le
          have hrest := ihs (fun c hc => ih c (List.mem_cons_of_mem a hc)) h (by omega) (by omega)
            (by omega)
          rw [hfirst.1] at hrest
          rw [Atom.wordsAll, Atom.WayAllFrom]
          exact hfirst.chain hsource htarget hne hd (drawn_of_drawSequence h) hrest

/-- **Drawing a header shows its ways**, each part of it over what is known when it is drawn. -/
lemma draw_shows (a : Atom) (h : draw Alphabet.labels s source target a = .ok t)
    (hsource : source < s.size) (htarget : target < s.size) (hne : source ≠ target) :
    Adds a.words (a.WayFrom s.domain) source target s t := by
  induction a using Atom.ind generalizing source target s t with
  | simple x =>
      rw [draw] at h
      obtain ⟨⟨s', as⟩, hx, h⟩ := exists_of_bind_eq_ok h
      obtain rfl := Except.ok.inj h
      obtain ⟨hs', -, has⟩ := of_meaning_eq_ok hx
      exact adds_place hne hs' has
  | any =>
      rw [draw] at h
      obtain ⟨as, has, h⟩ := exists_of_bind_eq_ok h
      obtain rfl := Except.ok.inj h
      obtain rfl := Except.ok.inj has
      exact adds_place hne ⟨s.symbols, rfl⟩ (by simp [Atom.Letter])
  | positiveSet xs =>
      rw [draw] at h
      obtain ⟨⟨s', as⟩, hxs, h⟩ := exists_of_bind_eq_ok h
      obtain rfl := Except.ok.inj h
      obtain ⟨hs', has⟩ := of_meanings_eq_ok hxs
      exact adds_place hne hs' fun b => (Text.mem_distinct b as).trans (has b)
  | negativeSet xs =>
      rw [draw] at h
      obtain ⟨⟨s', as⟩, hxs, h⟩ := exists_of_bind_eq_ok h
      obtain ⟨bs, hbs, h⟩ := exists_of_bind_eq_ok h
      obtain rfl := Except.ok.inj h
      obtain rfl := Except.ok.inj hbs
      have hwords := isWord_of_meanings_eq_ok hxs
      obtain ⟨hs', has⟩ := of_meanings_eq_ok hxs
      refine adds_place hne hs' fun b => ?_
      have hmem : b ∈ s'.domain.filter (fun a => !(as.map Label.name).contains a.name) ↔
          b ∈ s'.domain ∧ ∀ c ∈ as, c.name ≠ b.name := by simp
      rw [hmem, Atom.Letter]
      -- a label shares its name with an excluded one exactly if an excluded symbol names it
      refine and_congr_right fun hb => ⟨fun hnot x hx hname => ?_, fun hnot c hc hname => ?_⟩
      · exact hnot b ((has b).mpr ⟨hb, x, hx, hname⟩) rfl
      · obtain ⟨-, x, hx, hcname⟩ := (has c).mp hc
        obtain ⟨word, rfl⟩ := hwords x hx
        exact hnot _ hx (hname.symm.trans hcname)
  | sequence as ih =>
      rw [draw] at h
      rw [Atom.words, Atom.WayFrom]
      exact drawSequence_shows ih h hsource htarget hne
  | alternative l r ihl ihr =>
      rw [draw] at h
      obtain ⟨s', hl, hr⟩ := exists_of_bind_eq_ok h
      have hd := drawn_of_draw hl
      have hsize := hd.size_le
      have hleft := ihl hl hsource htarget hne
      have hright := ihr hr (by omega) (by omega) hne
      rw [hleft.1] at hright
      rw [Atom.words, Atom.WayFrom]
      exact hleft.union hsource htarget hd (drawn_of_draw hr) hright
  | quantified a q ih =>
      rw [draw] at h
      obtain ⟨s', ha, h⟩ := exists_of_bind_eq_ok h
      obtain rfl := Except.ok.inj h
      have hbridge : Adds [] (Tour q.Bridge) source target s' (s'.repeated source target q) := by
        have hdomain : (s'.repeated source target q).domain = s'.domain := by cases q <;> rfl
        exact ⟨hdomain, hdomain ▸ shows_repeated hne q⟩
      have hboth := (ih ha hsource htarget hne).union hsource htarget (drawn_of_draw ha)
        (drawn_repeated s' q) hbridge
      rw [List.append_nil] at hboth
      rw [Atom.words, Atom.WayFrom]
      exact ⟨hboth.1, hboth.2.congr fun _ _ _ => Tour.or_tour_iff⟩

end Sketch

/-- **The automaton of a header expression accepts the words of its ways** over the domain that it
is drawn over, and makes its words known. -/
lemma accepts_automaton_iff {a : Atom} {n : Nfa ℕ Label}
    (h : Alphabet.labels.automaton D (some a) = .ok (n, E)) :
    E = learn D a.words ∧ ∀ w, n.Accepts w ↔ a.WayFrom D .entry w .exit := by
  obtain ⟨⟨s, i, f⟩, hs, h⟩ := exists_of_bind_eq_ok h
  obtain ⟨rfl, rfl⟩ := Prod.mk.inj (Except.ok.inj h)
  obtain ⟨t, ht, hs⟩ := exists_of_bind_eq_ok hs
  obtain ⟨rfl, hif⟩ := Prod.mk.inj (Except.ok.inj hs)
  obtain ⟨rfl, rfl⟩ := Prod.mk.inj hif
  obtain ⟨hdomain, -, new, hnew, htour⟩ := Sketch.draw_shows a ht Nat.two_pos Nat.one_lt_two
    Nat.zero_ne_one
  refine ⟨hdomain, fun w => ?_⟩
  have hedges : t.edges = new := by simpa [Sketch.blank] using hnew
  refine Iff.trans ?_ (htour .entry w .exit)
  rw [Nfa.Accepts, Nfa.path_iff_tour, ← hedges]
  rfl

/-- What a header makes known. -/
lemma learn_of_automaton {a : Option Atom} {n : Nfa ℕ Label}
    (h : Alphabet.labels.automaton D a = .ok (n, E)) : E = learn D (headerWords a) := by
  cases a with
  | none => exact (Prod.mk.inj (Except.ok.inj h)).2.symm
  | some a => exact (accepts_automaton_iff h).1

/-! ### Domains over which an expression has the same ways -/

mutual

/-- All parts of an expression that have no parts are of one kind. -/
def Atom.Leaves (kind : Atom → Prop) : Atom → Prop
  | .simple x => kind (.simple x)
  | .any => kind .any
  | .positiveSet xs => kind (.positiveSet xs)
  | .negativeSet xs => kind (.negativeSet xs)
  | .sequence as => Atom.LeavesAll kind as
  | .alternative l r => l.Leaves kind ∧ r.Leaves kind
  | .quantified a _ => a.Leaves kind

/-- All parts of expressions that have no parts are of one kind. -/
def Atom.LeavesAll (kind : Atom → Prop) : List Atom → Prop
  | [] => True
  | a :: as => a.Leaves kind ∧ Atom.LeavesAll kind as

end

lemma Atom.leavesAll_iff {kind : Atom → Prop} {as : List Atom} :
    Atom.LeavesAll kind as ↔ ∀ a ∈ as, a.Leaves kind := by
  induction as with
  | nil => simp [Atom.LeavesAll]
  | cons a as ih => rw [Atom.LeavesAll, ih, List.forall_mem_cons]

lemma Atom.leaves_of_forall {K : Atom → Prop} (h : ∀ a, K a) (a : Atom) :
    a.Leaves K := by
  induction a using Atom.ind with
  | simple x => exact h _
  | any => exact h _
  | positiveSet xs => exact h _
  | negativeSet xs => exact h _
  | sequence as ih => exact Atom.leavesAll_iff.mpr ih
  | alternative l r ihl ihr => exact ⟨ihl, ihr⟩
  | quantified a q ih => exact ih

section Congr

variable {R : List Label → List Label → Prop} {K : Atom → Prop} {P : Label → Prop}

lemma Atom.wayAllFrom_congr (hR : ∀ {D E} us, R D E → R (learn D us) (learn E us)) {as : List Atom}
    (ih : ∀ a ∈ as, ∀ {D E : List Label}, R D E → ∀ x w y, (∀ b ∈ w, P b) →
      (a.WayFrom D x w y ↔ a.WayFrom E x w y))
    (hDE : R D E) {x y : Gate} {w : List Label} (hw : ∀ b ∈ w, P b) :
    Atom.WayAllFrom D as x w y ↔ Atom.WayAllFrom E as x w y := by
  induction as generalizing D E x w y with
  | nil => exact Iff.rfl
  | cons a as ihs =>
      cases as with
      | nil => exact ih a List.mem_cons_self hDE x w y hw
      | cons c cs =>
          rw [Atom.WayAllFrom, Atom.WayAllFrom]
          refine Tour.congr_over (fun i u j hu => or_congr ?_ ?_) hw
          · exact exists₂_congr fun x y => and_congr_right fun _ => and_congr_right fun _ =>
              ih a List.mem_cons_self hDE x u y hu
          · exact exists₂_congr fun x y => and_congr_right fun _ => and_congr_right fun _ =>
              ihs (fun c hc => ih c (List.mem_cons_of_mem a hc)) (hR a.words hDE) hu

/-- Domains between which an expression's parts without parts cannot tell, as far as some labels
are concerned, give it the same ways over these labels, if this stays so with every word. -/
lemma Atom.wayFrom_congr (hR : ∀ {D E} us, R D E → R (learn D us) (learn E us))
    (hK : ∀ {D E} a, R D E → K a → ∀ b, P b →
      (a.Letter (learn D a.words) b ↔ a.Letter (learn E a.words) b))
    {a : Atom} (ha : a.Leaves K) (hDE : R D E) (x : Gate) (w : List Label) (y : Gate)
    (hw : ∀ b ∈ w, P b) : a.WayFrom D x w y ↔ a.WayFrom E x w y := by
  have hreads : ∀ {D E : List Label} (a : Atom), R D E → K a → ∀ {x y : Gate} {w : List Label},
      (∀ b ∈ w, P b) → (Tour (a.readsFrom D) x w y ↔ Tour (a.readsFrom E) x w y) := by
    intro D E a hDE ha x y w hw
    refine Tour.congr_over (fun x u y hu => ?_) hw
    refine and_congr_right fun _ => and_congr_right fun _ => exists_congr fun b => ?_
    refine and_congr_left fun hb => hK a hDE ha b (hu b ?_)
    exact hb ▸ List.mem_singleton_self b
  induction a using Atom.ind generalizing D E x w y with
  | simple z => exact hreads _ hDE ha hw
  | any => exact hreads _ hDE ha hw
  | positiveSet xs => exact hreads _ hDE ha hw
  | negativeSet xs => exact hreads _ hDE ha hw
  | sequence as ih =>
      have hall := Atom.leavesAll_iff.mp ha
      exact Atom.wayAllFrom_congr hR (fun a has {_ _} hDE x w y hw =>
        ih a has (hall a has) hDE x w y hw) hDE hw
  | alternative l r ihl ihr =>
      refine Tour.congr_over (fun x u y hu => ?_) hw
      exact or_congr (ihl ha.1 hDE x u y hu) (ihr ha.2 (hR l.words hDE) x u y hu)
  | quantified a q ih =>
      refine Tour.congr_over (fun x u y hu => ?_) hw
      exact or_congr_left (ih ha hDE x u y hu)

end Congr

lemma Atom.letter_congr {a : Atom} (h : b ∈ D ↔ b ∈ E) : a.Letter D b ↔ a.Letter E b := by
  cases a <;> simp [Atom.Letter, h]

/-- The order in which labels became known does not matter. -/
lemma Atom.wayFrom_congr_of_mem (h : ∀ b, b ∈ D ↔ b ∈ E) (a : Atom) (x : Gate) (w : List Label)
    (y : Gate) : a.WayFrom D x w y ↔ a.WayFrom E x w y :=
  Atom.wayFrom_congr (R := fun D E => ∀ b, b ∈ D ↔ b ∈ E) (K := fun _ => True)
    (P := fun _ => True) (fun _ h _ => mem_learn_congr h)
    (fun _ h _ _ _ => Atom.letter_congr (mem_learn_congr h))
    (Atom.leaves_of_forall (fun _ => trivial) a) h x w y fun _ _ => trivial

/-- More words that are known do not change how words of known labels are read. -/
lemma Atom.wayFrom_learn_of_known (a : Atom) {x y : Gate} {w : List Label}
    (hw : ∀ b ∈ w, b ∈ D) : a.WayFrom (learn D us) x w y ↔ a.WayFrom D x w y := by
  refine Atom.wayFrom_congr (R := fun E F => ∀ b ∈ D, b ∈ E ∧ b ∈ F) (K := fun _ => True)
    (P := (· ∈ D)) ?_ ?_ (Atom.leaves_of_forall (fun _ => trivial) a) ?_ x w y hw
  · exact fun us h b hb => ⟨mem_learn_of_mem (h b hb).1, mem_learn_of_mem (h b hb).2⟩
  · exact fun a h _ b hb => Atom.letter_congr
      (iff_of_true (mem_learn_of_mem (h b hb).1) (mem_learn_of_mem (h b hb).2))
  · exact fun b hb => ⟨mem_learn_of_mem hb, hb⟩

/-- An expression without parts that spells out its labels: a word, or a set of words. -/
def Atom.SpellsOut : Atom → Prop
  | .simple _ | .positiveSet _ => True
  | _ => False

/-- An expression without dots and negative sets. -/
def Atom.Explicit (a : Atom) : Prop := a.Leaves Atom.SpellsOut

/-- An expression that spells out its labels is read alike, whatever else is known. -/
lemma Atom.Explicit.wayFrom_learn {a : Atom} (ha : a.Explicit) (x : Gate) (w : List Label)
    (y : Gate) : a.WayFrom (learn D us) x w y ↔ a.WayFrom D x w y := by
  -- the one domain is the other one with some words more
  refine Atom.wayFrom_congr (R := fun E F => ∃ vs, ∀ b, b ∈ E ↔ b ∈ learn F vs)
    (K := Atom.SpellsOut) (P := fun _ => True) ?_ ?_ ha ⟨us, fun _ => Iff.rfl⟩ x w y
    fun _ _ => trivial
  · rintro E F us ⟨vs, h⟩
    exact ⟨vs, fun b => (mem_learn_congr h).trans mem_learn_comm⟩
  · rintro E F a ⟨vs, h⟩ ha b -
    -- a label that a word of the expression names is known as soon as the word is
    have hnamed : ∀ z : Symbol, z.In (learn F a.words) → z.Names b →
        (b ∈ learn E a.words ↔ b ∈ learn F a.words) := by
      intro z hz hname
      rw [mem_learn_congr h, mem_learn_comm]
      exact ⟨fun hb => mem_of_names hz hb hname, mem_learn_of_mem⟩
    have hknown : ∀ z : Symbol, (∀ t ∈ z.words, t ∈ a.words) → z.Names b →
        z.In (learn F a.words) := by
      intro z hz hname
      cases z with
      | simple word => exact in_learn (hz word (List.mem_singleton_self word))
      | tuple => exact hname.elim
    cases a with
    | simple z =>
        exact and_congr_left fun hname => hnamed z (hknown z (fun _ => id) hname) hname
    | positiveSet xs =>
        refine and_congr_left fun hb => ?_
        obtain ⟨z, hz, hname⟩ := hb
        refine hnamed z (hknown z (fun t ht => ?_) hname) hname
        exact List.mem_flatMap.mpr ⟨z, hz, ht⟩
    | any => exact ha.elim
    | negativeSet xs => exact ha.elim
    | sequence as => exact ha.elim
    | alternative l r => exact ha.elim
    | quantified a q => exact ha.elim

/-! ### Alternatives in either order -/

/-- What two alternatives in round brackets are read as. -/
def Atom.oneOf (x y : Atom) : Atom := .sequence [.sequence [.alternative x y]]

/-- Two alternatives read the same words with a new label in either order: the one that is drawn
second is drawn when the words of the first one are known. -/
def Atom.Commute (D : List Label) (x y : Atom) : Prop :=
  ∀ w, (∃ b ∈ w, b ∉ D) →
    (Tour (fun i u j => x.WayFrom D i u j ∨ y.WayFrom (learn D x.words) i u j) .entry w .exit ↔
      Tour (fun i u j => y.WayFrom D i u j ∨ x.WayFrom (learn D y.words) i u j) .entry w .exit)

/-- An alternative that is not touched by the words of another one: it has neither dots nor negative
sets, or the other one brings no new label. -/
def Atom.Untouched (D : List Label) (x y : Atom) : Prop :=
  x.Explicit ∨ ∀ t ∈ y.words, (Symbol.simple t).In D

/-- What exchanging two alternatives does to the words of a header, over the labels that are known
where it is drawn. -/
structure Exchanged (D : List Label) (x y : Atom) (n m : Nfa ℕ Label) : Prop where
  /-- Words of known labels stay. -/
  known : ∀ w, (∀ b ∈ w, b ∈ D) → (n.Accepts w ↔ m.Accepts w)
  /-- All words stay exactly if the alternatives read the same words with a new label. -/
  all_iff : (∀ w, n.Accepts w ↔ m.Accepts w) ↔ Atom.Commute D x y
  /-- All words stay if neither alternative is touched by the words of the other one. -/
  of_untouched : x.Untouched D y → y.Untouched D x → ∀ w, n.Accepts w ↔ m.Accepts w

lemma Atom.wayFrom_oneOf {x y : Atom} {w : List Label} :
    (Atom.oneOf x y).WayFrom D .entry w .exit ↔
      Tour (fun i u j => x.WayFrom D i u j ∨ y.WayFrom (learn D x.words) i u j) .entry w .exit :=
  Iff.rfl

lemma Atom.Untouched.wayFrom_learn {x y : Atom} (h : x.Untouched D y) (i : Gate) (u : List Label)
    (j : Gate) : x.WayFrom (learn D y.words) i u j ↔ x.WayFrom D i u j := by
  rcases h with h | h
  · exact h.wayFrom_learn i u j
  · rw [learn_of_known h]

lemma Atom.mem_words_oneOf {x y : Atom} {t : Token} :
    t ∈ (Atom.oneOf x y).reverse.words ↔ t ∈ x.words ∨ t ∈ y.words := by
  rw [Atom.mem_words_reverse]
  simp [Atom.oneOf, Atom.words, Atom.wordsAll]

/-- Where the words of both alternatives are known, their order does not matter. -/
lemma Atom.wayFrom_oneOf_comm {x y : Atom} (w : List Label) :
    (Atom.oneOf x y).WayFrom (learn D (Atom.oneOf x y).reverse.words) .entry w .exit ↔
      (Atom.oneOf y x).WayFrom (learn D (Atom.oneOf y x).reverse.words) .entry w .exit := by
  have hmem : ∀ b, b ∈ learn D (Atom.oneOf x y).reverse.words ↔
      b ∈ learn D (Atom.oneOf y x).reverse.words := by
    intro b
    simp only [mem_learn_iff, Learned, Atom.mem_words_oneOf, or_comm]
  have hx : ∀ t ∈ x.words, (Symbol.simple t).In (learn D (Atom.oneOf x y).reverse.words) :=
    fun t ht => in_learn (Atom.mem_words_oneOf.mpr (.inl ht))
  have hy : ∀ t ∈ y.words, (Symbol.simple t).In (learn D (Atom.oneOf y x).reverse.words) :=
    fun t ht => in_learn (Atom.mem_words_oneOf.mpr (.inl ht))
  rw [Atom.wayFrom_oneOf, Atom.wayFrom_oneOf, learn_of_known hx, learn_of_known hy]
  refine Tour.congr fun i u j => ?_
  rw [Atom.wayFrom_congr_of_mem hmem x, Atom.wayFrom_congr_of_mem hmem y]
  exact or_comm

/-- **What exchanging two alternatives does** to the automaton of a header. -/
lemma exchanged_of_automaton {x y : Atom} {n m : Nfa ℕ Label} {F : List Label}
    (hn : Alphabet.labels.automaton D (some (Atom.oneOf x y)) = .ok (n, E))
    (hm : Alphabet.labels.automaton D (some (Atom.oneOf y x)) = .ok (m, F)) :
    Exchanged D x y n m := by
  have hnaccepts : ∀ w, n.Accepts w ↔ _ :=
    fun w => ((accepts_automaton_iff hn).2 w).trans Atom.wayFrom_oneOf
  have hmaccepts : ∀ w, m.Accepts w ↔ _ :=
    fun w => ((accepts_automaton_iff hm).2 w).trans Atom.wayFrom_oneOf
  have hknown : ∀ w, (∀ b ∈ w, b ∈ D) → (n.Accepts w ↔ m.Accepts w) := by
    intro w hw
    rw [hnaccepts, hmaccepts]
    refine Tour.congr_over (P := (· ∈ D)) (fun i u j hu => ?_) hw
    rw [Atom.wayFrom_learn_of_known y hu, Atom.wayFrom_learn_of_known x hu]
    exact or_comm
  refine ⟨hknown, ⟨fun h w _ => ?_, fun h w => ?_⟩, fun hx hy w => ?_⟩
  · rw [← hnaccepts, ← hmaccepts]
    exact h w
  · by_cases hw : ∀ b ∈ w, b ∈ D
    · exact hknown w hw
    · push Not at hw
      rw [hnaccepts, hmaccepts]
      exact h w hw
  · rw [hnaccepts, hmaccepts]
    refine Tour.congr fun i u j => ?_
    rw [hy.wayFrom_learn, hx.wayFrom_learn]
    exact or_comm

/-- **Exchanging two alternatives of a header.** For every domain of labels, every network and any
two alternatives, in the header in front of the network and in the one behind it: the words of
labels that are known there stay; all words stay exactly if the ways through the alternatives in
both orders read the same words with a new label, and in particular if neither alternative is
touched by the words of the other one. Behind the network all words stay if the alternatives stand
in front of it too. -/
theorem alternatives_exchanged {Spent : Type} [DecidableEq Spent] (labels : List Label)
    (M : Pda (Hop Spent) StackSymbol) (x y : Atom) :
    (∀ (q q' : Query) A B,
      ({ q with constructing := some (.oneOf x y) } : Query).automata labels M = .ok A →
      ({ q' with constructing := some (.oneOf y x) } : Query).automata labels M = .ok B →
      Exchanged (labelDomain labels) x.reverse y.reverse A.constructing B.constructing) ∧
    (∀ (q : Query) A B,
      ({ q with destructing := some (.oneOf x y) } : Query).automata labels M = .ok A →
      ({ q with destructing := some (.oneOf y x) } : Query).automata labels M = .ok B →
      Exchanged (learn (labelDomain labels) (headerWords (q.constructing.map Atom.reverse))) x y
        A.destructing B.destructing) ∧
    ∀ path path' A B,
      (Query.mk (some (.oneOf x y)) path (some (.oneOf x y))).automata labels M = .ok A →
      (Query.mk (some (.oneOf y x)) path' (some (.oneOf y x))).automata labels M = .ok B →
      ∀ w, A.destructing.Accepts w ↔ B.destructing.Accepts w := by
  refine ⟨fun q q' A B hA hB => ?_, fun q A B hA hB => ?_, fun path path' A B hA hB w => ?_⟩
  · obtain ⟨D, -, hconstructing, -, -⟩ := exists_of_automata_eq_ok hA
    obtain ⟨E, -, hconstructing', -, -⟩ := exists_of_automata_eq_ok hB
    exact exchanged_of_automaton hconstructing hconstructing'
  · obtain ⟨D, _, hconstructing, -, hdestructing⟩ := exists_of_automata_eq_ok hA
    obtain ⟨D', _, hconstructing', -, hdestructing'⟩ := exists_of_automata_eq_ok hB
    -- the same header stands in front, so that the same labels are known behind
    obtain ⟨-, rfl⟩ := Prod.mk.inj (Except.ok.inj (hconstructing.symm.trans hconstructing'))
    rw [learn_of_automaton hconstructing] at hdestructing hdestructing'
    exact exchanged_of_automaton hdestructing hdestructing'
  · obtain ⟨D, _, hconstructing, -, hdestructing⟩ := exists_of_automata_eq_ok hA
    obtain ⟨E, _, hconstructing', -, hdestructing'⟩ := exists_of_automata_eq_ok hB
    obtain rfl := learn_of_automaton hconstructing
    obtain rfl := learn_of_automaton hconstructing'
    rw [(accepts_automaton_iff hdestructing).2, (accepts_automaton_iff hdestructing').2]
    exact Atom.wayFrom_oneOf_comm w

/-- A header of two alternatives in front of a path of one router. -/
def inFront (x y : Atom) : Query := ⟨some (.oneOf x y), .any, none⟩

/-- Alternatives that spell out their labels may be exchanged, also if these are new. -/
theorem alternatives_exchanged_spelledOut : ∃ M A B,
    pushingRouter.overForwarding 0 = .ok M ∧ pushingRouter.labels = .ok [.named "a"] ∧
    (inFront (literal "b") (literal "c")).automata [.named "a"] M = .ok A ∧
    (inFront (literal "c") (literal "b")).automata [.named "a"] M = .ok B ∧
    ∀ w, A.constructing.Accepts w ↔ B.constructing.Accepts w := by
  obtain ⟨M, hM⟩ : ∃ M, pushingRouter.overForwarding 0 = .ok M := ⟨_, rfl⟩
  obtain ⟨A, hA⟩ : ∃ A, (inFront (literal "b") (literal "c")).automata [.named "a"] M = .ok A :=
    ⟨_, rfl⟩
  obtain ⟨B, hB⟩ : ∃ B, (inFront (literal "c") (literal "b")).automata [.named "a"] M = .ok B :=
    ⟨_, rfl⟩
  have hexchanged := (alternatives_exchanged [.named "a"] M (literal "b") (literal "c")).1
    (inFront (literal "b") (literal "c")) (inFront (literal "c") (literal "b")) A B hA hB
  exact ⟨M, A, B, hM, rfl, hA, hB, hexchanged.of_untouched (.inl trivial) (.inl trivial)⟩

/-- The expression `a .`. -/
def dotBehind : Atom := .sequence [literal "a", .any]

/-- The dot in `(b|(a .))` covers the new label `b`, and the one in `((a .)|b)` does not: the header
`a b` is built for the first one only. -/
theorem alternatives_not_exchanged : ∃ M A B,
    pushingRouter.overForwarding 0 = .ok M ∧ pushingRouter.labels = .ok [.named "a"] ∧
    (inFront (literal "b") dotBehind).automata [.named "a"] M = .ok A ∧
    (inFront dotBehind (literal "b")).automata [.named "a"] M = .ok B ∧
    A.constructing.Accepts [.named "b", .named "a"] ∧
    ¬ B.constructing.Accepts [.named "b", .named "a"] := by
  obtain ⟨M, hM⟩ : ∃ M, pushingRouter.overForwarding 0 = .ok M := ⟨_, rfl⟩
  obtain ⟨A, hA, hAends, hAedges⟩ : ∃ A, (inFront (literal "b") dotBehind).automata [.named "a"] M =
      .ok A ∧ (A.constructing.initial = 0 ∧ A.constructing.final = 1) ∧ A.constructing.edges =
      [⟨0, some (.named "b"), 1⟩, ⟨0, some (.named "a"), 2⟩, ⟨0, some (.named "b"), 2⟩,
        ⟨2, some (.named "a"), 1⟩] := ⟨_, rfl, ⟨rfl, rfl⟩, rfl⟩
  obtain ⟨B, hB, hBends, hBedges⟩ : ∃ B, (inFront dotBehind (literal "b")).automata [.named "a"] M =
      .ok B ∧ (B.constructing.initial = 0 ∧ B.constructing.final = 1) ∧ B.constructing.edges =
      [⟨0, some (.named "a"), 2⟩, ⟨2, some (.named "a"), 1⟩, ⟨0, some (.named "b"), 1⟩] :=
    ⟨_, rfl, ⟨rfl, rfl⟩, rfl⟩
  refine ⟨M, A, B, hM, rfl, hA, hB, ?_, fun h => ?_⟩
  · rw [Nfa.Accepts, hAends.1, hAends.2]
    exact .read (q := 2) (by simp [hAedges]) (.read (q := 1) (by simp [hAedges]) (.refl 1))
  · -- the only edge that reads `b` leads to the end, which no edge leaves
    rw [Nfa.Accepts, hBends.1, hBends.2] at h
    cases h with
    | silent he _ => simp [hBedges] at he
    | read he h =>
        obtain rfl : _ = 1 := by simpa [hBedges] using he
        cases h with
        | silent he _ => simp [hBedges] at he
        | read he _ => simp [hBedges] at he

end Query

end MplsReach
