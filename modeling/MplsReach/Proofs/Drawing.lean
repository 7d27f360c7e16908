/-
What drawing an expression adds to a sketch.

* `Atom.ind`: a property of all expressions that passes from the parts of an expression to it.
* `Sketch.Drawn`: the locations and symbols of the edges that are added between two locations; all
  other locations that they use are new.
* `Sketch.draw_drawn`: whatever is drawn, only such edges are added.
* `Alphabet.entered_automatonBetween`: the automaton of an expression between two symbols is entered
  by the first of them.
* `exists_of_automata_eq_ok`: what the automata of a query are drawn from.
-/
import Mathlib.Tactic.Common
import MplsReach.Proofs.Product
import MplsReach.Proofs.Results
import MplsReach.Query.Automata
import MplsReach.Query.Drawing

namespace MplsReach

namespace Query

/-- A property that passes from the parts of an expression to it holds of all expressions. -/
@[elab_as_elim]
theorem Atom.ind {P : Atom → Prop} (simple : ∀ x, P (.simple x)) (any : P .any)
    (positiveSet : ∀ xs, P (.positiveSet xs)) (negativeSet : ∀ xs, P (.negativeSet xs))
    (sequence : ∀ as, (∀ a ∈ as, P a) → P (.sequence as))
    (alternative : ∀ l r, P l → P r → P (.alternative l r))
    (quantified : ∀ a q, P a → P (.quantified a q)) (a : Atom) : P a :=
  @Atom.rec P (fun as => ∀ b ∈ as, P b) simple any positiveSet negativeSet sequence alternative
    quantified (fun _ hb => absurd hb List.not_mem_nil)
    (fun _ _ hhead htail => List.forall_mem_cons.mpr ⟨hhead, htail⟩) a

/-! ### Edges between two locations -/

/-- One of two locations, or a new one. -/
def Between (source target low high x : Nat) : Prop :=
  x = source ∨ x = target ∨ (low ≤ x ∧ x < high)

/-- What an alphabet finds keeps to a property that the domain has. -/
structure Alphabet.Closed {Sym : Type} (A : Alphabet Sym) (P : Sym → Prop) : Prop where
  lookup : ∀ {D name D' as}, A.lookup D name = .ok (D', as) → (∀ a ∈ D, P a) →
    (∀ a ∈ D', P a) ∧ ∀ a ∈ as, P a
  others : ∀ {D excluded as}, A.others D excluded = .ok as → (∀ a ∈ D, P a) → ∀ a ∈ as, P a

/-- Hops that are found are hops of the domain. -/
lemma Alphabet.closed_hops {Spent : Type} (P : Hop Spent → Prop) : Alphabet.hops.Closed P where
  lookup {D name D' as} h hD := by
    rw [Alphabet.hops] at h
    simp only at h
    split at h
    · exact absurd h (by simp)
    · obtain ⟨rfl, rfl⟩ := Prod.mk.inj (Except.ok.inj h)
      exact ⟨hD, fun a ha => hD a (List.mem_filter.mp ha).1⟩
  others {D excluded as} h hD := by
    obtain rfl := Except.ok.inj h
    exact fun a ha => hD a (List.mem_filter.mp ha).1

namespace Sketch

variable {Sym : Type} {A : Alphabet Sym} {P : Sym → Prop}

/-- The domain of a sketch has a property. -/
def Over (P : Sym → Prop) (s : Sketch Sym) : Prop := ∀ a ∈ s.domain, P a

/-- A sketch with edges added between two locations. They use the two locations and new ones, and
read symbols with a property that the domain keeps. -/
structure Drawn (P : Sym → Prop) (source target : Nat) (s t : Sketch Sym) : Prop where
  size_le : s.size ≤ t.size
  names : s.Over P → t.Over P
  edges : ∃ new, t.edges = s.edges ++ new ∧ ∀ e ∈ new,
    Between source target s.size t.size e.source ∧
    Between source target s.size t.size e.target ∧
    (s.Over P → ∀ a, e.symbol = some a → P a)

lemma Drawn.refl (source target : Nat) (s : Sketch Sym) : Drawn P source target s s :=
  ⟨Nat.le_refl _, id, [], by simp, by simp⟩

/-- Drawing one thing after the other between the same locations. -/
lemma Drawn.trans {source target : Nat} {s t u : Sketch Sym} (h : Drawn P source target s t)
    (h' : Drawn P source target t u) : Drawn P source target s u := by
  obtain ⟨new, hnew, hmem⟩ := h.edges
  obtain ⟨new', hnew', hmem'⟩ := h'.edges
  have hsize := h.size_le
  have hsize' := h'.size_le
  refine ⟨Nat.le_trans hsize hsize', h'.names ∘ h.names, new ++ new', ?_, fun e he => ?_⟩
  · rw [hnew', hnew, List.append_assoc]
  · rcases List.mem_append.mp he with he | he
    · obtain ⟨hs, ht, hP⟩ := hmem e he
      refine ⟨?_, ?_, hP⟩
      · unfold Between at *
        omega
      · unfold Between at *
        omega
    · obtain ⟨hs, ht, hP⟩ := hmem' e he
      refine ⟨?_, ?_, hP ∘ h.names⟩
      · unfold Between at *
        omega
      · unfold Between at *
        omega

/-- Drawing one thing behind the other, with a new location in between. -/
lemma Drawn.trans_middle {source target : Nat} {s t u : Sketch Sym}
    (h : Drawn P source s.size { s with size := s.size + 1 } t)
    (h' : Drawn P s.size target t u) : Drawn P source target s u := by
  obtain ⟨new, hnew, hmem⟩ := h.edges
  obtain ⟨new', hnew', hmem'⟩ := h'.edges
  have hsize : s.size + 1 ≤ t.size := h.size_le
  have hsize' := h'.size_le
  refine ⟨by omega, fun hs => h'.names (h.names hs), new ++ new', ?_, fun e he => ?_⟩
  · rw [hnew', hnew, List.append_assoc]
  · rcases List.mem_append.mp he with he | he
    · obtain ⟨hs, ht, hP⟩ := hmem e he
      refine ⟨?_, ?_, hP⟩
      · simp only [Between] at *
        omega
      · simp only [Between] at *
        omega
    · obtain ⟨hs, ht, hP⟩ := hmem' e he
      refine ⟨?_, ?_, fun hs => hP (h.names hs)⟩
      · simp only [Between] at *
        omega
      · simp only [Between] at *
        omega

/-- An edge for each of some symbols, after something else was drawn. -/
lemma Drawn.place {source target : Nat} {s t : Sketch Sym} {as : List Sym}
    (h : Drawn P source target s t) (has : s.Over P → ∀ a ∈ as, P a) :
    Drawn P source target s (t.place A source target as) := by
  obtain ⟨new, hnew, hmem⟩ := h.edges
  refine ⟨h.size_le, h.names, _, by rw [Sketch.place, hnew, List.append_assoc], fun e he => ?_⟩
  rcases List.mem_append.mp he with he | he
  · exact hmem e he
  · obtain ⟨a, ha, rfl⟩ := List.mem_map.mp he
    refine ⟨.inl rfl, ?_, fun hs b hb => Option.some.inj hb ▸ has hs a ha⟩
    cases A.stays a with
    | true => exact .inl rfl
    | false => exact .inr (.inl rfl)

lemma drawn_silent {source target x y : Nat} {s : Sketch Sym} (hx : x = source ∨ x = target)
    (hy : y = source ∨ y = target) : Drawn P source target s (s.silent x y) := by
  refine ⟨Nat.le_refl _, id, _, rfl, fun e he => ?_⟩
  rw [List.mem_singleton.mp he]
  exact ⟨hx.imp_right .inl, hy.imp_right .inl, fun _ a ha => by simp at ha⟩

lemma drawn_repeated {source target : Nat} (s : Sketch Sym) (q : Quantifier) :
    Drawn P source target s (s.repeated source target q) := by
  cases q with
  | zeroOrMore =>
      exact (drawn_silent (.inr rfl) (.inl rfl)).trans (drawn_silent (.inl rfl) (.inr rfl))
  | oneOrMore => exact drawn_silent (.inr rfl) (.inl rfl)
  | zeroOrOne => exact drawn_silent (.inl rfl) (.inr rfl)

/-! ### Symbols of an expression -/

lemma drawn_meaning (hA : A.Closed P) {source target : Nat} {s t : Sketch Sym} {x : Symbol}
    {as : List Sym} (h : s.meaning A x = .ok (t, as)) :
    Drawn P source target s t ∧ (s.Over P → ∀ a ∈ as, P a) := by
  cases x with
  | tuple => exact absurd h (by simp [meaning])
  | simple word =>
      obtain ⟨⟨D, bs⟩, hl, heq⟩ := exists_of_bind_eq_ok h
      obtain ⟨rfl, rfl⟩ := Prod.mk.inj (Except.ok.inj heq)
      exact ⟨⟨Nat.le_refl _, fun hs => (hA.lookup hl hs).1, [], by simp, by simp⟩,
        fun hs => (hA.lookup hl hs).2⟩

lemma drawn_meanings (hA : A.Closed P) {source target : Nat} {xs : List Symbol}
    {s t : Sketch Sym} {as : List Sym} (h : meanings A s xs = .ok (t, as)) :
    Drawn P source target s t ∧ (s.Over P → ∀ a ∈ as, P a) := by
  induction xs generalizing s as with
  | nil =>
      obtain ⟨rfl, rfl⟩ := Prod.mk.inj (Except.ok.inj h)
      exact ⟨.refl source target s, by simp⟩
  | cons x xs ih =>
      obtain ⟨⟨s', bs⟩, hx, h⟩ := exists_of_bind_eq_ok h
      obtain ⟨⟨t', cs⟩, hxs, h⟩ := exists_of_bind_eq_ok h
      obtain ⟨rfl, rfl⟩ := Prod.mk.inj (Except.ok.inj h)
      obtain ⟨hd, hb⟩ := drawn_meaning hA hx
      obtain ⟨hd', hc⟩ := ih hxs
      refine ⟨hd.trans hd', fun hs a ha => ?_⟩
      rcases List.mem_append.mp ha with ha | ha
      · exact hb hs a ha
      · exact hc (hd.names hs) a ha

/-! ### Expressions -/

variable [DecidableEq Sym]

lemma drawSequence_drawn {as : List Atom}
    (ih : ∀ a ∈ as, ∀ {source target : Nat} {s t : Sketch Sym},
      draw A s source target a = .ok t → Drawn P source target s t)
    {source target : Nat} {s t : Sketch Sym} (h : drawSequence A s source target as = .ok t) :
    Drawn P source target s t := by
  induction as generalizing source s with
  | nil => exact absurd h (by simp [drawSequence])
  | cons a as ihs =>
      cases as with
      | nil =>
          rw [drawSequence] at h
          exact ih a List.mem_cons_self h
      | cons b bs =>
          rw [drawSequence] at h
          obtain ⟨s', ha, h⟩ := exists_of_bind_eq_ok h
          have hrest := ihs (fun c hc => ih c (List.mem_cons_of_mem a hc)) h
          exact (ih a List.mem_cons_self ha).trans_middle hrest

/-- **What drawing an expression adds**: edges that use its two locations and new ones. -/
lemma draw_drawn (hA : A.Closed P) (a : Atom) {source target : Nat} {s t : Sketch Sym}
    (h : draw A s source target a = .ok t) : Drawn P source target s t := by
  induction a using Atom.ind generalizing source target s t with
  | simple x =>
      rw [draw] at h
      obtain ⟨⟨s', as⟩, hx, h⟩ := exists_of_bind_eq_ok h
      obtain rfl := Except.ok.inj h
      obtain ⟨hd, hP⟩ := drawn_meaning hA hx
      exact hd.place hP
  | any =>
      rw [draw] at h
      obtain ⟨as, has, h⟩ := exists_of_bind_eq_ok h
      obtain rfl := Except.ok.inj h
      exact (Drawn.refl source target s).place (hA.others has)
  | positiveSet xs =>
      rw [draw] at h
      obtain ⟨⟨s', as⟩, hxs, h⟩ := exists_of_bind_eq_ok h
      obtain rfl := Except.ok.inj h
      obtain ⟨hd, hP⟩ := drawn_meanings hA hxs
      exact hd.place fun hs a ha => hP hs a ((Text.mem_distinct a as).mp ha)
  | negativeSet xs =>
      rw [draw] at h
      obtain ⟨⟨s', as⟩, hxs, h⟩ := exists_of_bind_eq_ok h
      obtain ⟨bs, hbs, h⟩ := exists_of_bind_eq_ok h
      obtain rfl := Except.ok.inj h
      obtain ⟨hd, -⟩ := drawn_meanings hA hxs
      exact hd.place fun hs => hA.others hbs (hd.names hs)
  | sequence as ih =>
      rw [draw] at h
      exact drawSequence_drawn ih h
  | alternative l r ihl ihr =>
      rw [draw] at h
      obtain ⟨s', hl, hr⟩ := exists_of_bind_eq_ok h
      exact (ihl hl).trans (ihr hr)
  | quantified a q ih =>
      rw [draw] at h
      obtain ⟨s', ha, h⟩ := exists_of_bind_eq_ok h
      obtain rfl := Except.ok.inj h
      exact (ih ha).trans (drawn_repeated s' q)

end Sketch

/-! ### Automata between two symbols -/

variable {Sym : Type} [DecidableEq Sym] {A : Alphabet Sym}

/-- The automaton of an expression between two symbols is entered by the first one, if no symbol of
the domain is that one. -/
lemma Alphabet.entered_automatonBetween {first last : Sym} {domain : List Sym} {a : Atom}
    {n : Nfa Nat Sym} (hA : A.Closed (· ≠ first)) (hdomain : ∀ x ∈ domain, x ≠ first)
    (hlast : last ≠ first) (h : A.automatonBetween domain first last (some a) = .ok n) :
    n.Entered first := by
  obtain ⟨⟨s, i, f⟩, hs, h⟩ := exists_of_bind_eq_ok h
  obtain rfl := Except.ok.inj h
  obtain ⟨s', ha, heq⟩ := exists_of_bind_eq_ok hs
  obtain ⟨rfl, hif⟩ := Prod.mk.inj (Except.ok.inj heq)
  obtain ⟨rfl, rfl⟩ := Prod.mk.inj hif
  have hd := Sketch.draw_drawn hA a ha
  obtain ⟨new, hnew, hmem⟩ := hd.edges
  have hsize : 2 ≤ s'.size := hd.size_le
  -- the edges of the expression leave the new locations alone
  have hedges : ∀ e ∈ s'.edges, e.source < s'.size ∧ ∀ x, e.symbol = some x → x ≠ first := by
    intro e he
    rw [hnew] at he
    obtain ⟨hs, -, hP⟩ := hmem e (by simpa [Sketch.blank] using he)
    refine ⟨?_, hP hdomain⟩
    simp only [Between, Sketch.blank] at hs
    omega
  refine ⟨fun e he hsrc => ?_, fun e he hsym => ?_⟩
  all_goals
    simp only [Sketch.finish, Sketch.enclose, List.mem_append, List.mem_cons, List.not_mem_nil,
      or_false] at he
    rcases he with he | rfl | rfl
  · have := (hedges e he).1
    simp only [Sketch.finish] at hsrc
    omega
  · simp
  · simp
  · exact absurd rfl ((hedges e he).2 first hsym)
  · rfl
  · exact absurd (Option.some.inj hsym) hlast

/-! ### The automata of a query -/

/-- What the automata of a query are drawn from. -/
lemma exists_of_automata_eq_ok {Spent : Type} [DecidableEq Spent] {q : Query} {labels : List Label}
    {M : Pda (Hop Spent) StackSymbol} {a : Automata Spent} (h : q.automata labels M = .ok a) :
    ∃ D E,
      Alphabet.labels.automaton (labelDomain labels) (q.constructing.map Atom.reverse) =
        .ok (a.constructing, D) ∧
      Alphabet.hops.automatonBetween (M.locations.filter (·.routerName?.isSome)) M.initial M.final
        (some q.network) = .ok a.network ∧
      Alphabet.labels.automaton D q.destructing = .ok (a.destructing, E) := by
  obtain ⟨⟨constructing, D⟩, hconstructing, h⟩ := exists_of_bind_eq_ok h
  obtain ⟨network, hnetwork, h⟩ := exists_of_bind_eq_ok h
  obtain ⟨⟨destructing, E⟩, hdestructing, h⟩ := exists_of_bind_eq_ok h
  obtain rfl := Except.ok.inj h
  exact ⟨D, E, hconstructing, hnetwork, hdestructing⟩

end Query

end MplsReach
