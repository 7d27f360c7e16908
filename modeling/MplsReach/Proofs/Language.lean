/-
The language of a header expression, and the words that its automaton accepts.

* `Atom.language`: the regular language that an expression is written as.
* `Atom.reads`: the words between the gates of an expression without parts; `Atom.Way` makes of them
  the words between the gates of every expression.
* `exists_labels_automaton`: the automaton of an expression accepts the words of its ways.
* `way_of_mem_language`: every word of the language is among them.
-/
import Mathlib.Computability.Language
import Mathlib.Order.CompletePartialOrder
import MplsReach.Proofs.Ways

namespace MplsReach.Query

open Computability

/-! ### Languages -/

/-- A symbol of an expression names a label. -/
def Symbol.Names : Symbol → Label → Prop
  | .simple word, a => a.name = word.name
  | .tuple .., _ => False

/-- A symbol of an expression names a label of the domain. -/
def Symbol.In (D : List Label) (x : Symbol) : Prop := ∃ a ∈ D, x.Names a

/-- The labels that an expression without parts stands for: those of a name, all of the domain,
those of a set, and those of the domain that are not in a set. -/
def Atom.Letter (D : List Label) : Atom → Label → Prop
  | .simple x, a => a ∈ D ∧ x.Names a
  | .any, a => a ∈ D
  | .positiveSet xs, a => a ∈ D ∧ ∃ x ∈ xs, x.Names a
  | .negativeSet xs, a => a ∈ D ∧ ∀ x ∈ xs, ¬ x.Names a
  | .sequence _, _ | .alternative _ _, _ | .quantified _ _, _ => False

/-- The words of one label. -/
def oneLabel (P : Label → Prop) : Language Label := {w | ∃ a, P a ∧ w = [a]}

/-- A language as often as a quantifier says. -/
def Quantifier.language (L : Language Label) : Quantifier → Language Label
  | .zeroOrMore => L∗
  | .oneOrMore => L * L∗
  | .zeroOrOne => 1 + L

mutual

/-- The language that an expression is written as. -/
def Atom.language (D : List Label) : Atom → Language Label
  | .simple x => oneLabel ((Atom.simple x).Letter D)
  | .any => oneLabel (Atom.any.Letter D)
  | .positiveSet xs => oneLabel ((Atom.positiveSet xs).Letter D)
  | .negativeSet xs => oneLabel ((Atom.negativeSet xs).Letter D)
  | .sequence as => Atom.languageAll D as
  | .alternative l r => l.language D + r.language D
  | .quantified a q => q.language (a.language D)

/-- The language of expressions one behind the other. -/
def Atom.languageAll (D : List Label) : List Atom → Language Label
  | [] => 1
  | a :: as => a.language D * Atom.languageAll D as

end

/-! ### Ways that read labels -/

variable {D : List Label}

/-- An expression without parts reads one of its labels, from the entry to the exit. -/
def Atom.reads (D : List Label) (a : Atom) (x : Gate) (u : List Label) (y : Gate) : Prop :=
  x = .entry ∧ y = .exit ∧ ∃ b, a.Letter D b ∧ u = [b]

lemma Alphabet.total_labels : Alphabet.labels.Total := fun _ _ => ⟨_, rfl⟩

/-- A name in the domain stands for the labels of that name. -/
lemma Alphabet.lookup_labels {word : Token} (h : (Symbol.simple word).In D) :
    Alphabet.labels.lookup D word.name = .ok (D, D.filter (·.name = word.name)) := by
  obtain ⟨a, ha, hname⟩ := h
  have hmem : a ∈ D.filter (·.name = word.name) :=
    List.mem_filter.mpr ⟨ha, decide_eq_true hname⟩
  rw [Alphabet.labels]
  simp only
  split
  · next hnil => exact absurd (hnil ▸ hmem) List.not_mem_nil
  · rfl

lemma Alphabet.knows_labels {x : Symbol} (h : x.In D) : Alphabet.labels.Knows D x := by
  cases x with
  | simple word => exact ⟨_, Alphabet.lookup_labels h⟩
  | tuple => exact h.elim fun _ ha => ha.2

lemma Alphabet.mem_found_labels {x : Symbol} (h : x.In D) {a : Label} :
    a ∈ Alphabet.labels.found D x ↔ a ∈ D ∧ x.Names a := by
  cases x with
  | simple word => simp [Alphabet.found, Alphabet.lookup_labels h, Symbol.Names]
  | tuple => exact h.elim fun _ ha => ha.2.elim

/-- The labels that share no name with those that symbols stand for. -/
lemma Alphabet.mem_left_labels {xs : List Symbol} (h : ∀ x ∈ xs, x.In D) {a : Label} :
    a ∈ Alphabet.labels.left D (xs.flatMap (Alphabet.labels.found D)) ↔
      a ∈ D ∧ ∀ x ∈ xs, ¬ x.Names a := by
  have hleft : ∀ excluded, a ∈ Alphabet.labels.left D excluded ↔
      a ∈ D ∧ ∀ b ∈ excluded, b.name ≠ a.name := by
    simp [Alphabet.left, Alphabet.labels]
  rw [hleft]
  refine and_congr_right fun ha => ⟨fun hne x hx hnames => ?_, fun hnot b hb heq => ?_⟩
  · have hfound := (Alphabet.mem_found_labels (h x hx)).mpr ⟨ha, hnames⟩
    exact hne a (List.mem_flatMap.mpr ⟨x, hx, hfound⟩) rfl
  · obtain ⟨x, hx, hfound⟩ := List.mem_flatMap.mp hb
    obtain ⟨-, hnames⟩ := (Alphabet.mem_found_labels (h x hx)).mp hfound
    cases x with
    | simple word => exact hnot _ hx (heq.symm.trans hnames)
    | tuple => exact hnames

/-- Over the domain, an expression without parts is drawn for the labels that it stands for. -/
lemma Alphabet.mem_letters_labels {a : Atom} (h : a.Over (Symbol.In D)) {b : Label} :
    b ∈ Alphabet.labels.letters D a ↔ a.Letter D b := by
  cases a with
  | simple x => exact Alphabet.mem_found_labels h
  | any => simp [Alphabet.letters, Alphabet.left, Alphabet.labels, Atom.Letter]
  | positiveSet xs =>
      rw [Alphabet.letters, Atom.Letter, List.mem_flatMap]
      rw [Atom.Over] at h
      constructor
      · rintro ⟨x, hx, hb⟩
        obtain ⟨hD, hnames⟩ := (Alphabet.mem_found_labels (h x hx)).mp hb
        exact ⟨hD, x, hx, hnames⟩
      · rintro ⟨hD, x, hx, hnames⟩
        exact ⟨x, hx, (Alphabet.mem_found_labels (h x hx)).mpr ⟨hD, hnames⟩⟩
  | negativeSet xs => exact Alphabet.mem_left_labels h
  | sequence => simp [Alphabet.letters, Atom.Letter]
  | alternative => simp [Alphabet.letters, Atom.Letter]
  | quantified => simp [Alphabet.letters, Atom.Letter]

lemma Alphabet.reading_labels_iff {a : Atom} (h : a.Over (Symbol.In D)) {x y : Gate}
    {u : List Label} : Alphabet.labels.reading D a x u y ↔ a.reads D x u y := by
  constructor
  · rintro ⟨b, hb, rfl, rfl, rfl⟩
    exact ⟨rfl, rfl, b, (Alphabet.mem_letters_labels h).mp hb, rfl⟩
  · rintro ⟨rfl, rfl, b, hb, rfl⟩
    exact ⟨b, (Alphabet.mem_letters_labels h).mpr hb, rfl, rfl, rfl⟩

/-- **The automaton of a header expression accepts the words of its ways.** -/
lemma exists_labels_automaton {a : Atom} (h : a.Over (Symbol.In D)) :
    ∃ n, Alphabet.labels.automaton D (some a) = .ok (n, D) ∧
      ∀ w, n.Accepts w ↔ a.Way (Atom.reads D) .entry w .exit := by
  obtain ⟨n, hn, haccepts⟩ := Alphabet.exists_automaton Alphabet.total_labels
    (h.mono fun _ => Alphabet.knows_labels)
  refine ⟨n, hn, fun w => ?_⟩
  rw [haccepts w, Atom.way_congr (fun _ ha _ _ _ => Alphabet.reading_labels_iff ha) h]

/-! ### The language is read -/

/-- Repetitions go around by the way back. -/
lemma tour_of_mem_kstar {way : Gate → List Label → Gate → Prop} {L : Language Label}
    (hL : ∀ u ∈ L, way .entry u .exit) {q : Quantifier} (hq : q ≠ .zeroOrOne) {w : List Label}
    (h : w ∈ L∗) : Tour (fun x u y => way x u y ∨ q.Bridge x u y) .entry w .entry := by
  obtain ⟨S, rfl, hS⟩ := Language.mem_kstar.mp h
  induction S with
  | nil => exact .refl _
  | cons u S ih =>
      obtain ⟨hu, hS⟩ := List.forall_mem_cons.mp hS
      have hback : q.Bridge .exit ([] : List Label) .entry := ⟨rfl, .inl ⟨hq, rfl, rfl⟩⟩
      exact .cons (.inl (hL u hu)) (.cons (.inr hback) (ih hS (Language.join_mem_kstar hS)))

/-- Every word of a language is read as often as a quantifier says. -/
lemma tour_of_mem_quantifier {way : Gate → List Label → Gate → Prop} {L : Language Label}
    (hL : ∀ u ∈ L, way .entry u .exit) {q : Quantifier} {w : List Label} (h : w ∈ q.language L) :
    Tour (fun x u y => way x u y ∨ q.Bridge x u y) .entry w .exit := by
  cases q with
  | zeroOrMore =>
      have hpast : Quantifier.zeroOrMore.Bridge .entry ([] : List Label) .exit :=
        ⟨rfl, .inr ⟨by decide, rfl, rfl⟩⟩
      have htour := (tour_of_mem_kstar (q := .zeroOrMore) hL (by decide) h).trans
        (.single (.inr hpast))
      rwa [List.append_nil] at htour
  | oneOrMore =>
      rw [Quantifier.language, ← Language.mul_self_kstar_comm, Language.mem_mul] at h
      obtain ⟨v, hv, u, hu, rfl⟩ := h
      exact (tour_of_mem_kstar (q := .oneOrMore) hL (by decide) hv).trans (.single (.inl (hL u hu)))
  | zeroOrOne =>
      rcases h with h | h
      · obtain rfl := (Language.mem_one w).mp h
        exact .single (.inr ⟨rfl, .inr ⟨by decide, rfl, rfl⟩⟩)
      · exact .single (.inl (hL w h))

lemma wayAll_of_mem_languageAll {as : List Atom} (hne : as ≠ [])
    (ih : ∀ a ∈ as, ∀ w ∈ a.language D, a.Way (Atom.reads D) .entry w .exit) {w : List Label}
    (h : w ∈ Atom.languageAll D as) : Atom.WayAll (Atom.reads D) as .entry w .exit := by
  induction as generalizing w with
  | nil => exact absurd rfl hne
  | cons a as ihs =>
      rw [Atom.languageAll, Language.mem_mul] at h
      obtain ⟨u, hu, v, hv, rfl⟩ := h
      have hfirst := ih a List.mem_cons_self u hu
      cases as with
      | nil =>
          obtain rfl := (Language.mem_one v).mp hv
          rw [List.append_nil]
          exact hfirst
      | cons b bs =>
          have hsecond := ihs (List.cons_ne_nil b bs)
            (fun c hc => ih c (List.mem_cons_of_mem a hc)) hv
          rw [Atom.WayAll]
          exact .cons (.inl ⟨.entry, .exit, rfl, rfl, hfirst⟩)
            (.single (.inr ⟨.entry, .exit, rfl, rfl, hsecond⟩))

/-- **Every word of the language of an expression is read by a way through it.** -/
lemma way_of_mem_language {a : Atom} (h : a.Over (Symbol.In D)) {w : List Label}
    (hw : w ∈ a.language D) : a.Way (Atom.reads D) .entry w .exit := by
  have hletter : ∀ (a : Atom) u, u ∈ oneLabel (a.Letter D) → Tour (a.reads D) .entry u .exit :=
    fun a u ⟨b, hb, hu⟩ => .single ⟨rfl, rfl, b, hb, hu⟩
  induction a using Atom.ind generalizing w with
  | simple x => exact hletter _ w hw
  | any => exact hletter _ w hw
  | positiveSet xs => exact hletter _ w hw
  | negativeSet xs => exact hletter _ w hw
  | sequence as ih =>
      rw [Atom.Over, Atom.overAll_iff] at h
      exact wayAll_of_mem_languageAll h.1 (fun a ha w hw => ih a ha (h.2 a ha) hw) hw
  | alternative l r ihl ihr =>
      rcases hw with hw | hw
      · exact .single (.inl (ihl h.1 hw))
      · exact .single (.inr (ihr h.2 hw))
  | quantified a q ih => exact tour_of_mem_quantifier (fun u hu => ih h hu) hw

end MplsReach.Query
