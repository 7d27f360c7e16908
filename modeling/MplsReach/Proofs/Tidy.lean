/-
Header expressions whose automata accept just their languages.

The parts of an expression share locations, and a quantifier puts its way back and its way past on
them. So a way may leave a part by a loop of its neighbour: the automaton of `a*|b` accepts `b b`.

* `Atom.loops`: an expression may come back to a gate.
* `Atom.tidy`, `Atom.loose`: where no loops meet, no word is added; under a repetition, none is
  added that the repetition does not have anyway.
* `automaton_accepts_iff`: **what the automaton of a header expression accepts**, and exactly when
  it accepts just the language of the expression.
-/
import MplsReach.Proofs.Language

namespace MplsReach.Query

open Computability

mutual

/-- Whether a way through an expression may come back to a gate. -/
def Atom.loops : Atom → Gate → Bool
  | .simple _, _ | .any, _ | .positiveSet _, _ | .negativeSet _, _ => false
  | .sequence as, x => Atom.loopsAll as x
  | .alternative l r, x => l.loops x || r.loops x
  | .quantified a q, x => q != .zeroOrOne || a.loops x

/-- Whether a way through expressions one behind the other may come back to a gate. -/
def Atom.loopsAll : List Atom → Gate → Bool
  | [], _ => false
  | [a], x => a.loops x
  | a :: _ :: _, .entry => a.loops .entry
  | _ :: b :: as, .exit => Atom.loopsAll (b :: as) .exit

end

/-- Whether no way through an expression comes back to a gate. -/
def Atom.calm (a : Atom) : Bool := !a.loops .entry && !a.loops .exit

/-- Whether an expression is a repetition. -/
def Atom.iterated : Atom → Bool
  | .quantified _ q => q != .zeroOrOne
  | _ => false

mutual

/-- No loops meet at a shared location, so that only words of the language are read. -/
def Atom.tidy : Atom → Bool
  | .simple _ | .any | .positiveSet _ | .negativeSet _ => true
  | .sequence as => Atom.tidyAll as
  | .alternative l r => l.tidy && r.tidy && l.calm && r.calm
  | .quantified a .zeroOrMore => a.loose
  | .quantified a .oneOrMore => a.tidy || a.loose
  | .quantified a .zeroOrOne => a.tidy && a.calm || a.loose && a.iterated

/-- Tidy expressions one behind the other, of which no two neighbours loop where they meet. -/
def Atom.tidyAll : List Atom → Bool
  | [] => true
  | [a] => a.tidy
  | a :: b :: as =>
    a.tidy && !(a.loops .exit && Atom.loopsAll (b :: as) .entry) && Atom.tidyAll (b :: as)

/-- Only words of repetitions of the language are read, from any gate to any gate. -/
def Atom.loose : Atom → Bool
  | .simple _ | .any | .positiveSet _ | .negativeSet _ => true
  | .sequence as => Atom.tidyAll as && !Atom.loopsAll as .entry && !Atom.loopsAll as .exit
  | .alternative l r => l.loose && r.loose
  | .quantified a _ => a.loose

end

variable {D : List Label}

/-! ### Gates without loops -/

/-- A gate without loops is not come back to: no way leads to such an entry, and none from such an
exit. -/
structure Quiet (way : Gate → List Label → Gate → Prop) (loops : Gate → Bool) : Prop where
  entry : loops .entry = false → ∀ x w, way x w .entry → x = .entry ∧ w = []
  exit : loops .exit = false → ∀ w y, way .exit w y → y = .exit ∧ w = []

/-- Expressions without parts lead from the entry to the exit. -/
lemma quiet_tour_reads (a : Atom) (loops : Gate → Bool) : Quiet (Tour (a.reads D)) loops where
  entry _ _ _ h := h.arrives fun _ _ hu => Gate.noConfusion hu.2.1
  exit _ _ _ h := h.departs fun _ _ hu => Gate.noConfusion hu.1

lemma quiet_wayAll {as : List Atom} (ih : ∀ a ∈ as, Quiet (a.Way (Atom.reads D)) a.loops) :
    Quiet (Atom.WayAll (Atom.reads D) as) (Atom.loopsAll as) := by
  induction as with
  | nil => exact ⟨fun _ x w h => h.arrives fun _ _ => False.elim,
      fun _ w y h => h.departs fun _ _ => False.elim⟩
  | cons a as ihs =>
      obtain ⟨ha, has⟩ := List.forall_mem_cons.mp ih
      cases as with
      | nil => exact ha
      | cons b bs =>
          have hrest := ihs has
          constructor
          · intro hloops x w h
            have harrive := h.arrives fun i u hu => ?_
            · cases x with
              | entry => exact ⟨rfl, harrive.2⟩
              | exit => exact Junction.noConfusion harrive.1
            · rcases hu with ⟨x, y, rfl, hy, hu⟩ | ⟨x, y, rfl, hy, hu⟩
              · obtain rfl : y = .entry := by cases y <;> first | rfl | cases hy
                obtain ⟨rfl, rfl⟩ := ha.entry hloops x u hu
                exact ⟨rfl, rfl⟩
              · cases y <;> cases hy
          · intro hloops w y h
            have hdepart := h.departs fun u j hu => ?_
            · cases y with
              | entry => exact Junction.noConfusion hdepart.1
              | exit => exact ⟨rfl, hdepart.2⟩
            · rcases hu with ⟨x, y, hx, rfl, hu⟩ | ⟨x, y, hx, rfl, hu⟩
              · cases x <;> cases hx
              · obtain rfl : x = .exit := by cases x <;> first | rfl | cases hx
                obtain ⟨rfl, rfl⟩ := hrest.exit hloops u y hu
                exact ⟨rfl, rfl⟩

lemma Atom.quiet_way (a : Atom) : Quiet (a.Way (Atom.reads D)) a.loops := by
  induction a using Atom.ind with
  | simple x => exact quiet_tour_reads _ _
  | any => exact quiet_tour_reads _ _
  | positiveSet xs => exact quiet_tour_reads _ _
  | negativeSet xs => exact quiet_tour_reads _ _
  | sequence as ih => exact quiet_wayAll ih
  | alternative l r ihl ihr =>
      constructor
      · intro hloops x w h
        rw [Atom.loops, Bool.or_eq_false_iff] at hloops
        refine h.arrives fun x u hu => ?_
        rcases hu with hu | hu
        · exact ihl.entry hloops.1 x u hu
        · exact ihr.entry hloops.2 x u hu
      · intro hloops w y h
        rw [Atom.loops, Bool.or_eq_false_iff] at hloops
        refine h.departs fun u y hu => ?_
        rcases hu with hu | hu
        · exact ihl.exit hloops.1 u y hu
        · exact ihr.exit hloops.2 u y hu
  | quantified a q ih =>
      constructor
      · intro hloops x w h
        rw [Atom.loops, Bool.or_eq_false_iff, bne_eq_false_iff_eq] at hloops
        refine h.arrives fun x u hu => ?_
        rcases hu with hu | ⟨-, ⟨hq, -, -⟩ | ⟨-, -, hy⟩⟩
        · exact ih.entry hloops.2 x u hu
        · exact absurd hloops.1 hq
        · cases hy
      · intro hloops w y h
        rw [Atom.loops, Bool.or_eq_false_iff, bne_eq_false_iff_eq] at hloops
        refine h.departs fun u y hu => ?_
        rcases hu with hu | ⟨-, ⟨hq, -, -⟩ | ⟨-, hx, -⟩⟩
        · exact ih.exit hloops.2 u y hu
        · exact absurd hloops.1 hq
        · cases hx

/-! ### Tours from the entry to the exit -/

section Across

variable {leg way way' : Gate → List Label → Gate → Prop} {w : List Label}

/-- A tour that cannot come back crosses by one leg. -/
lemma leg_of_tour (hentry : ∀ x u, leg x u .entry → x = .entry ∧ u = [])
    (hexit : ∀ u y, leg .exit u y → y = .exit ∧ u = []) (h : Tour leg .entry w .exit) :
    leg .entry w .exit := by
  generalize hx : Gate.entry = x, hy : Gate.exit = y at h
  induction h with
  | refl => exact Gate.noConfusion (hx.trans hy.symm)
  | @cons x z y u v hleg hrest ih =>
      subst hx hy
      cases z with
      | entry =>
          obtain ⟨-, rfl⟩ := hentry _ _ hleg
          exact ih rfl rfl
      | exit =>
          obtain ⟨-, rfl⟩ := hrest.departs hexit
          rwa [List.append_nil]

/-- A silent tour crosses by a silent leg. -/
lemma leg_of_silent_tour (h : Tour leg .entry [] .exit) : leg .entry [] .exit := by
  generalize hx : Gate.entry = x, hw : ([] : List Label) = w, hy : Gate.exit = y at h
  induction h with
  | refl => exact Gate.noConfusion (hx.trans hy.symm)
  | @cons x z y u v hleg _ ih =>
      obtain ⟨rfl, rfl⟩ := List.append_eq_nil_iff.mp hw.symm
      subst hx hy
      cases z with
      | entry => exact ih rfl rfl rfl
      | exit => exact hleg

/-- What is left to read through two expressions one behind the other: from a gate of the first one
both are crossed, at the far end the second one may still loop. -/
def Crossing (way way' : Gate → List Label → Gate → Prop) : Junction → List Label → Prop
  | .entry, w => ∃ u v, w = u ++ v ∧ way .entry u .exit ∧ way' .entry v .exit
  | .middle, w => ∃ u v, w = u ++ v ∧ way .exit u .exit ∧ way' .entry v .exit
  | .exit, w => way' .exit w .exit

lemma crossing_first {x : Gate} :
    Crossing way way' x.first w ↔ ∃ u v, w = u ++ v ∧ way x u .exit ∧ way' .entry v .exit := by
  cases x <;> exact Iff.rfl

/-- Ways through the second expression alone cross, if they start where it starts or ends. -/
lemma crossing_second (hway : Composes way) {x : Gate} (h : way' x w .exit) :
    Crossing way way' x.second w := by
  cases x with
  | entry => exact ⟨[], w, rfl, hway.refl _, h⟩
  | exit => exact h

/-- If not both expressions loop where they meet, a leg in front of a crossing makes a crossing. -/
lemma Crossing.step (hway : Composes way) (hway' : Composes way')
    (hquiet : (∀ u y, way .exit u y → y = .exit ∧ u = []) ∨
      ∀ x u, way' x u .entry → x = .entry ∧ u = []) {i j : Junction} {u : List Label}
    (hleg : Chained way way' i u j) (h : Crossing way way' j w) : Crossing way way' i (u ++ w) := by
  rcases hleg with ⟨x, y, rfl, rfl, hu⟩ | ⟨x, y, rfl, rfl, hu⟩
  · obtain ⟨u', v, rfl, hcross, hcross'⟩ := crossing_first.mp h
    exact crossing_first.mpr ⟨u ++ u', v, by simp, hway.trans hu hcross, hcross'⟩
  · cases y with
    | exit => exact crossing_second hway (hway'.trans hu h)
    | entry =>
        obtain ⟨u', v, rfl, hback, hcross'⟩ := h
        rcases hquiet with hquiet | hquiet
        · obtain ⟨-, rfl⟩ := hquiet _ _ hback
          exact crossing_second hway (hway'.trans hu hcross')
        · obtain ⟨rfl, rfl⟩ := hquiet _ _ hu
          exact ⟨u', v, rfl, hback, hcross'⟩

/-- A tour through two expressions, of which not both loop where they meet, crosses one and then
the other. -/
lemma exists_of_chained_tour (hway : Composes way) (hway' : Composes way')
    (hquiet : (∀ u y, way .exit u y → y = .exit ∧ u = []) ∨
      ∀ x u, way' x u .entry → x = .entry ∧ u = [])
    (h : Tour (Chained way way') .entry w .exit) :
    ∃ u v, w = u ++ v ∧ way .entry u .exit ∧ way' .entry v .exit := by
  have key : ∀ {i j w}, Tour (Chained way way') i w j → j = .exit → Crossing way way' i w := by
    intro i j w h hj
    induction h with
    | refl => exact hj ▸ hway'.refl _
    | cons hleg _ ih => exact (ih hj).step hway hway' hquiet hleg
  exact key h rfl

/-- A silent tour through two expressions crosses both silently. -/
lemma of_silent_chained_tour (h : Tour (Chained way way') .entry [] .exit) :
    way .entry [] .exit ∧ way' .entry [] .exit := by
  have key : ∀ {i j w}, Tour (Chained way way') i w j → w = [] → j = .exit →
      (i = .entry → way .entry [] .exit) ∧ (i ≠ .exit → way' .entry [] .exit) := by
    intro i j w h hw hj
    induction h with
    | refl => simp [hj]
    | @cons i k j u v hleg _ ih =>
        obtain ⟨rfl, rfl⟩ := List.append_eq_nil_iff.mp hw
        obtain ⟨ih, ih'⟩ := ih rfl hj
        rcases hleg with ⟨x, y, rfl, rfl, hu⟩ | ⟨x, y, rfl, rfl, hu⟩
        · refine ⟨fun hx => ?_, fun _ => ih' (by cases y <;> simp [Gate.first])⟩
          cases y with
          | entry => exact ih rfl
          | exit => cases x <;> first | exact hu | cases hx
        · refine ⟨fun hx => absurd hx (by cases x <;> simp [Gate.second]), fun hx => ?_⟩
          cases y with
          | entry => exact ih' (by simp [Gate.second])
          | exit => cases x <;> first | exact hu | exact absurd rfl hx
  exact ⟨(key h rfl rfl).1 rfl, (key h rfl rfl).2 (by simp)⟩

end Across

/-! ### Tidy expressions -/

/-- Expressions one behind the other are crossed one after the other, if no two neighbours loop
where they meet. -/
lemma mem_languageAll_of_wayAll {as : List Atom} (hne : as ≠ [])
    (ih : ∀ a ∈ as, a.tidy = true → ∀ w, a.Way (Atom.reads D) .entry w .exit → w ∈ a.language D)
    (htidy : Atom.tidyAll as = true) {w : List Label}
    (h : Atom.WayAll (Atom.reads D) as .entry w .exit) : w ∈ Atom.languageAll D as := by
  induction as generalizing w with
  | nil => exact absurd rfl hne
  | cons a as ihs =>
      obtain ⟨ha, has⟩ := List.forall_mem_cons.mp ih
      cases as with
      | nil => exact Language.mem_mul.mpr ⟨w, ha htidy w h, [], rfl, List.append_nil w⟩
      | cons b bs =>
          rw [Atom.tidyAll, Bool.and_eq_true, Bool.and_eq_true, Bool.not_eq_true',
            Bool.and_eq_false_iff] at htidy
          obtain ⟨⟨htidya, hloops⟩, htidyall⟩ := htidy
          have hquiet := quiet_wayAll fun c (_ : c ∈ b :: bs) => Atom.quiet_way (D := D) c
          obtain ⟨u, v, rfl, hu, hv⟩ := exists_of_chained_tour (Atom.composes_way _ a)
            (Atom.composes_wayAll fun c _ => Atom.composes_way _ c)
            (hloops.imp (Atom.quiet_way a).exit hquiet.entry) h
          exact Language.append_mem_mul (ha htidya u hu)
            (ihs (List.cons_ne_nil b bs) has htidyall hv)

lemma nil_mem_languageAll_of_wayAll {as : List Atom} (hne : as ≠ [])
    (ih : ∀ a ∈ as, a.Way (Atom.reads D) .entry [] .exit → [] ∈ a.language D)
    (h : Atom.WayAll (Atom.reads D) as .entry [] .exit) : [] ∈ Atom.languageAll D as := by
  induction as with
  | nil => exact absurd rfl hne
  | cons a as ihs =>
      obtain ⟨ha, has⟩ := List.forall_mem_cons.mp ih
      cases as with
      | nil => exact Language.append_mem_mul (ha h) rfl
      | cons b bs =>
          obtain ⟨hu, hv⟩ := of_silent_chained_tour h
          exact Language.append_mem_mul (ha hu) (ihs (List.cons_ne_nil b bs) has hv)

/-- An expression that may be crossed silently has the empty word. -/
lemma nil_mem_language_of_way {a : Atom} (ho : a.Over (Symbol.In D))
    (h : a.Way (Atom.reads D) .entry [] .exit) : [] ∈ a.language D := by
  induction a using Atom.ind with
  | simple x => exact absurd (leg_of_silent_tour h).2.2 (by simp)
  | any => exact absurd (leg_of_silent_tour h).2.2 (by simp)
  | positiveSet xs => exact absurd (leg_of_silent_tour h).2.2 (by simp)
  | negativeSet xs => exact absurd (leg_of_silent_tour h).2.2 (by simp)
  | sequence as ih =>
      rw [Atom.Over, Atom.overAll_iff] at ho
      exact nil_mem_languageAll_of_wayAll ho.1 (fun a ha => ih a ha (ho.2 a ha)) h
  | alternative l r ihl ihr => exact (leg_of_silent_tour h).imp (ihl ho.1) (ihr ho.2)
  | quantified a q ih =>
      cases q with
      | zeroOrMore => exact Language.nil_mem_kstar _
      | zeroOrOne => exact .inl rfl
      | oneOrMore =>
          rcases leg_of_silent_tour h with h | ⟨-, ⟨-, hx, -⟩ | ⟨hq, -, -⟩⟩
          · exact Language.append_mem_mul (ih ho h) (Language.nil_mem_kstar _)
          · cases hx
          · exact absurd rfl hq

lemma mem_of_le {L L' : Language Label} (h : L ≤ L') {w : List Label} (hw : w ∈ L) : w ∈ L' :=
  (Language.le_iff L L').mp h ▸ (Language.mem_add L L' w).mpr (.inl hw)

/-- Legs that read words of repetitions make tours that do. -/
lemma mem_kstar_of_tour {ν : Type} {leg : ν → List Label → ν → Prop} {L : Language Label} {x y : ν}
    {w : List Label} (hleg : ∀ x u y, leg x u y → u ∈ L∗) (h : Tour leg x w y) : w ∈ L∗ := by
  induction h with
  | refl => exact Language.nil_mem_kstar L
  | cons hu _ ih => exact kstar_mul_kstar L ▸ Language.append_mem_mul (hleg _ _ _ hu) ih

/-- A tour with ways back crosses once or more. -/
lemma mem_mul_kstar_of_tour {way : Gate → List Label → Gate → Prop} (hway : Composes way)
    {L : Language Label} (hL : ∀ u, way .entry u .exit → u ∈ L) {w : List Label}
    (h : Tour (fun x u y => way x u y ∨ Quantifier.oneOrMore.Bridge x u y) .entry w .exit) :
    w ∈ L * L∗ := by
  have key : ∀ {x y w}, Tour (fun x u y => way x u y ∨ Quantifier.oneOrMore.Bridge x u y) x w y →
      y = .exit → ∃ u v, w = u ++ v ∧ way x u .exit ∧ v ∈ L∗ := by
    intro x y w h hy
    induction h with
    | refl => exact ⟨[], [], rfl, hy ▸ hway.refl _, Language.nil_mem_kstar L⟩
    | @cons x z y u₀ w hleg _ ih =>
        obtain ⟨u, v, rfl, hu, hv⟩ := ih hy
        rcases hleg with hleg | ⟨rfl, ⟨-, rfl, rfl⟩ | ⟨hq, -, -⟩⟩
        · exact ⟨u₀ ++ u, v, by simp, hway.trans hleg hu, hv⟩
        · have hmem : u ++ v ∈ L∗ :=
            mem_of_le mul_kstar_le_kstar (Language.append_mem_mul (hL u hu) hv)
          exact ⟨[], u ++ v, rfl, hway.refl _, hmem⟩
        · exact absurd rfl hq
  obtain ⟨u, v, rfl, hu, hv⟩ := key h rfl
  exact Language.append_mem_mul (hL u hu) hv

/-- A repetition of a repetition has no more words, but for the empty one. -/
lemma kstar_language_le_of_iterated {a : Atom} (h : a.iterated = true) :
    (a.language D)∗ ≤ 1 + a.language D := by
  cases a with
  | quantified a q =>
      cases q with
      | zeroOrMore =>
          rw [Atom.language, Quantifier.language, kstar_idem]
          exact le_add_self
      | oneOrMore =>
          have hle := kstar_mono (mul_kstar_le_kstar (a := a.language D))
          rw [kstar_idem] at hle
          rwa [Atom.language, Quantifier.language, one_add_mul_kstar]
      | zeroOrOne => exact absurd h (by simp [Atom.iterated])
  | _ => exact absurd h (by simp [Atom.iterated])

/-- A quantified language has the words that are quantified. -/
lemma le_quantifier_language (L : Language Label) (q : Quantifier) : L ≤ q.language L := by
  cases q with
  | zeroOrMore => exact le_kstar
  | oneOrMore => exact le_mul_of_one_le_right' one_le_kstar
  | zeroOrOne => exact le_add_self

lemma mem_oneLabel_of_reads {a : Atom} {w : List Label} (h : Tour (a.reads D) .entry w .exit) :
    w ∈ oneLabel (a.Letter D) :=
  (leg_of_tour (fun _ _ hu => Gate.noConfusion hu.2.1) (fun _ _ hu => Gate.noConfusion hu.1) h).2.2

/-- What an expression has to be for its ways to read words of its language only, and for all ways
between its gates to read words of its repetitions. -/
structure Atom.Sound (D : List Label) (a : Atom) : Prop where
  of_tidy : a.tidy = true → ∀ w, a.Way (Atom.reads D) .entry w .exit → w ∈ a.language D
  of_loose : a.loose = true → ∀ x w y, a.Way (Atom.reads D) x w y → w ∈ (a.language D)∗

lemma sound_of_way_eq {a : Atom} (hway : a.Way (Atom.reads D) = Tour (a.reads D))
    (hlanguage : a.language D = oneLabel (a.Letter D)) : a.Sound D where
  of_tidy _ w h := by
    rw [hlanguage]
    exact mem_oneLabel_of_reads (hway ▸ h)
  of_loose _ x w y h := by
    rw [hlanguage]
    rw [hway] at h
    exact mem_kstar_of_tour (fun _ _ _ hu => mem_of_le le_kstar hu.2.2) h

/-- A tidy sequence that does not come back to its gates is loose. -/
lemma sound_sequence {as : List Atom} (hne : as ≠ []) (ih : ∀ a ∈ as, a.Sound D) :
    (Atom.sequence as).Sound D := by
  have htidy : ∀ h : Atom.tidyAll as = true, ∀ w, Atom.WayAll (Atom.reads D) as .entry w .exit →
      w ∈ Atom.languageAll D as :=
    fun h w => mem_languageAll_of_wayAll hne (fun a ha => (ih a ha).of_tidy) h
  refine ⟨htidy, fun hloose x w y h => ?_⟩
  rw [Atom.loose, Bool.and_eq_true, Bool.and_eq_true, Bool.not_eq_true',
    Bool.not_eq_true'] at hloose
  obtain ⟨⟨htidyall, hentry⟩, hexit⟩ := hloose
  have hquiet := quiet_wayAll fun c (_ : c ∈ as) => Atom.quiet_way (D := D) c
  cases y with
  | entry =>
      obtain ⟨-, rfl⟩ := hquiet.entry hentry x w h
      exact Language.nil_mem_kstar _
  | exit =>
      cases x with
      | entry => exact mem_of_le le_kstar (htidy htidyall w h)
      | exit =>
          obtain ⟨-, rfl⟩ := hquiet.exit hexit w .exit h
          exact Language.nil_mem_kstar _

lemma sound_alternative {l r : Atom} (hl : l.Sound D) (hr : r.Sound D) :
    (Atom.alternative l r).Sound D := by
  constructor
  · intro htidy w h
    rw [Atom.tidy, Bool.and_eq_true, Bool.and_eq_true, Bool.and_eq_true, Atom.calm, Atom.calm,
      Bool.and_eq_true, Bool.and_eq_true] at htidy
    obtain ⟨⟨⟨htl, htr⟩, hcl⟩, hcr⟩ := htidy
    simp only [Bool.not_eq_true'] at hcl hcr
    have hleg := leg_of_tour (fun x u hu => ?_) (fun u y hu => ?_) h
    · exact hleg.imp (hl.of_tidy htl w) (hr.of_tidy htr w)
    · rcases hu with hu | hu
      · exact (Atom.quiet_way l).entry hcl.1 x u hu
      · exact (Atom.quiet_way r).entry hcr.1 x u hu
    · rcases hu with hu | hu
      · exact (Atom.quiet_way l).exit hcl.2 u y hu
      · exact (Atom.quiet_way r).exit hcr.2 u y hu
  · intro hloose x w y h
    rw [Atom.loose, Bool.and_eq_true] at hloose
    refine mem_kstar_of_tour (fun x u y hu => ?_) h
    rcases hu with hu | hu
    · exact mem_of_le (kstar_mono le_self_add) (hl.of_loose hloose.1 x u y hu)
    · exact mem_of_le (kstar_mono le_add_self) (hr.of_loose hloose.2 x u y hu)

lemma sound_quantified {a : Atom} (ho : a.Over (Symbol.In D)) (ha : a.Sound D) (q : Quantifier) :
    (Atom.quantified a q).Sound D := by
  have hloose : ∀ {q : Quantifier}, a.loose = true → ∀ x w y,
      (Atom.quantified a q).Way (Atom.reads D) x w y → w ∈ (a.language D)∗ := by
    intro q hloose x w y h
    refine mem_kstar_of_tour (fun x u y hu => ?_) h
    rcases hu with hu | ⟨rfl, -⟩
    · exact ha.of_loose hloose x u y hu
    · exact Language.nil_mem_kstar _
  refine ⟨fun htidy w h => ?_, fun hl x w y h =>
    mem_of_le (kstar_mono (le_quantifier_language _ q)) (hloose hl x w y h)⟩
  cases q with
  | zeroOrMore => exact hloose htidy _ w _ h
  | oneOrMore =>
      rw [Atom.tidy, Bool.or_eq_true] at htidy
      rcases htidy with htidy | htidy
      · exact mem_mul_kstar_of_tour (Atom.composes_way _ a) (ha.of_tidy htidy) h
      · have hmem := hloose htidy _ w _ h
        rw [← Language.one_add_self_mul_kstar_eq_kstar] at hmem
        rcases hmem with hnil | hmem
        · obtain rfl := (Language.mem_one w).mp hnil
          exact nil_mem_language_of_way (a := .quantified a .oneOrMore) ho h
        · exact hmem
  | zeroOrOne =>
      rw [Atom.tidy, Bool.or_eq_true, Bool.and_eq_true, Bool.and_eq_true, Atom.calm,
        Bool.and_eq_true, Bool.not_eq_true', Bool.not_eq_true'] at htidy
      rcases htidy with ⟨htidy, hentry, hexit⟩ | ⟨htidy, hiterated⟩
      · have hquiet := Atom.quiet_way (D := D) (.quantified a .zeroOrOne)
        have hleg := leg_of_tour (fun x u hu => ?_) (fun u y hu => ?_) h
        · rcases hleg with hu | ⟨rfl, -⟩
          · exact .inr (ha.of_tidy htidy w hu)
          · exact .inl rfl
        · exact hquiet.entry hentry x u (.single hu)
        · exact hquiet.exit hexit u y (.single hu)
      · exact mem_of_le (kstar_language_le_of_iterated hiterated) (hloose htidy _ w _ h)

/-- **Tidy expressions read just their languages**, and loose ones nothing but repetitions. -/
lemma Atom.sound {a : Atom} (h : a.Over (Symbol.In D)) : a.Sound D := by
  induction a using Atom.ind with
  | simple x => exact sound_of_way_eq rfl rfl
  | any => exact sound_of_way_eq rfl rfl
  | positiveSet xs => exact sound_of_way_eq rfl rfl
  | negativeSet xs => exact sound_of_way_eq rfl rfl
  | sequence as ih =>
      rw [Atom.Over, Atom.overAll_iff] at h
      exact sound_sequence h.1 fun a ha => ih a ha (h.2 a ha)
  | alternative l r ihl ihr => exact sound_alternative (ihl h.1) (ihr h.2)
  | quantified a q ih => exact sound_quantified (a := a) h (ih h) q

/-! ### The automaton of a header expression -/

/-- **What the automaton of a header expression accepts.** For every domain and every expression
whose names are names of the domain there is an automaton. It accepts the words of the ways through
the expression, among them every word of its language; so it accepts just the language exactly if
no way from the entry to the exit reads another word. No way does if the expression is tidy. -/
theorem automaton_accepts_iff (D : List Label) (a : Atom) (h : a.Over (Symbol.In D)) :
    ∃ n, Alphabet.labels.automaton D (some a) = .ok (n, D) ∧
      (∀ w, n.Accepts w ↔ a.Way (Atom.reads D) .entry w .exit) ∧
      (∀ w ∈ a.language D, n.Accepts w) ∧
      ((∀ w, n.Accepts w ↔ w ∈ a.language D) ↔
        ∀ w, a.Way (Atom.reads D) .entry w .exit → w ∈ a.language D) ∧
      (a.tidy = true → ∀ w, n.Accepts w ↔ w ∈ a.language D) := by
  obtain ⟨n, hn, haccepts⟩ := exists_labels_automaton h
  have hlanguage : ∀ w ∈ a.language D, n.Accepts w :=
    fun w hw => (haccepts w).mpr (way_of_mem_language h hw)
  refine ⟨n, hn, haccepts, hlanguage, ⟨fun hiff w hw => ?_, fun hway w => ?_⟩, fun htidy w => ?_⟩
  · exact (hiff w).mp ((haccepts w).mpr hw)
  · exact ⟨fun hw => hway w ((haccepts w).mp hw), hlanguage w⟩
  · exact ⟨fun hw => (Atom.sound h).of_tidy htidy w ((haccepts w).mp hw), hlanguage w⟩

/-- The expression that a word is. -/
def literal (name : String) : Atom := .simple (.simple ⟨.word, name, 1, 1⟩)

/-- Two labels. -/
def twoLabels : List Label := [.named "a", .named "b"]

lemma in_twoLabels {name : String} (h : name = "a" ∨ name = "b") :
    Symbol.In twoLabels (.simple ⟨.word, name, 1, 1⟩) := by
  rcases h with rfl | rfl
  · exact ⟨.named "a", by simp [twoLabels], rfl⟩
  · exact ⟨.named "b", by simp [twoLabels], rfl⟩

/-- The expression `[^a] (a|b)* b?`. -/
def mixedHeader : Atom :=
  .sequence [.negativeSet [.simple ⟨.word, "a", 1, 1⟩],
    .quantified (.alternative (literal "a") (literal "b")) .zeroOrMore,
    .quantified (literal "b") .zeroOrOne]

/-- The automaton of a tidy expression accepts just its language. -/
theorem automaton_accepts_mixedHeader :
    mixedHeader.Over (Symbol.In twoLabels) ∧ mixedHeader.tidy = true ∧
      ∃ n, Alphabet.labels.automaton twoLabels (some mixedHeader) = .ok (n, twoLabels) ∧
        ∀ w, n.Accepts w ↔ w ∈ mixedHeader.language twoLabels := by
  have ha := in_twoLabels (.inl rfl)
  have hb := in_twoLabels (.inr rfl)
  have hover : mixedHeader.Over (Symbol.In twoLabels) :=
    ⟨by simp, fun x hx => List.mem_singleton.mp hx ▸ ha, ⟨ha, hb⟩, hb, trivial⟩
  obtain ⟨n, hn, -, -, -, htidy⟩ := automaton_accepts_iff twoLabels mixedHeader hover
  exact ⟨hover, rfl, n, hn, htidy rfl⟩

/-- The expression `a*|b`. -/
def untidyHeader : Atom := .alternative (.quantified (literal "a") .zeroOrMore) (literal "b")

/-- The way back of `a*` leads from behind `b` to in front of it, so that `b b` is accepted, which
is not a word of `a*|b`. -/
theorem automaton_accepts_stray_word :
    untidyHeader.Over (Symbol.In twoLabels) ∧
      ∃ n, Alphabet.labels.automaton twoLabels (some untidyHeader) = .ok (n, twoLabels) ∧
        n.Accepts [.named "b", .named "b"] ∧
        [.named "b", .named "b"] ∉ untidyHeader.language twoLabels := by
  have ha := in_twoLabels (.inl rfl)
  have hb := in_twoLabels (.inr rfl)
  refine ⟨⟨ha, hb⟩, _, rfl, ?_, ?_⟩
  · exact .read (q := 1) (by decide) (.silent (q := 0) (by decide) (.read (q := 1) (by decide)
      (.refl 1)))
  · rintro (hstar | ⟨b, -, hlength⟩)
    · obtain ⟨S, hS, hletters⟩ := Language.mem_kstar_iff_exists_nonempty.mp hstar
      cases S with
      | nil => simp at hS
      | cons u S =>
          obtain ⟨⟨c, ⟨-, hc⟩, rfl⟩, -⟩ := hletters u List.mem_cons_self
          obtain rfl : c = .named "b" := (List.cons.inj hS).1.symm
          have hne : (Label.named "b").name ≠ Token.name ⟨.word, "a", 1, 1⟩ := by decide
          exact hne hc
    · simp at hlength

end MplsReach.Query
