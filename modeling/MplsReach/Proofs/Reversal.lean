/-
Header expressions backwards.

The header in front of the network is put on the stack from the bottom upwards, so that its
automaton is drawn for the expression with every sequence in reverse order.

* `Tour.reverse`: a tour backwards.
* `Atom.wayAll_iff_tour`: the ways through expressions one behind the other are the tours along a
  row of places, one between any two neighbours.
* `Atom.way_reverse_iff`: **the ways through an expression in reverse order are its ways
  backwards**.
* `Atom.over_of_draw_eq_ok`: what can be drawn has words for symbols and no empty sequence.
* `headers_built_iff_removed`: an expression in front of the network puts those headers on the
  stack that the same expression behind the network takes off.
-/
import MplsReach.Proofs.Tidy
import MplsReach.Proofs.Verdict

namespace MplsReach

variable {ν κ Sym : Type}

/-- A tour backwards, whose places may have other names. -/
lemma Tour.reverse {f : ν → κ} {leg : ν → List Sym → ν → Prop} {leg' : κ → List Sym → κ → Prop}
    (hl : ∀ x u y, leg x u y → leg' (f y) u.reverse (f x)) {x y : ν} {w : List Sym}
    (h : Tour leg x w y) : Tour leg' (f y) w.reverse (f x) := by
  induction h with
  | refl => exact .refl _
  | cons hleg _ ih =>
      rw [List.reverse_append]
      exact ih.trans (.single (hl _ _ _ hleg))

namespace Query

/-- The other one of the two ends. -/
def Gate.flip : Gate → Gate
  | entry => exit
  | exit => entry

@[simp]
lemma Gate.flip_flip (x : Gate) : x.flip.flip = x := by
  cases x <;> rfl

/-! ### Expressions in reverse order -/

lemma Atom.reverseAll_eq_map (as : List Atom) : Atom.reverseAll as = as.map Atom.reverse := by
  induction as with
  | nil => rfl
  | cons a as ih => rw [Atom.reverseAll, ih, List.map_cons]

/-- In reverse order twice, every sequence is as it was. -/
lemma Atom.reverse_reverse (a : Atom) : a.reverse.reverse = a := by
  induction a using Atom.ind with
  | simple x => rfl
  | any => rfl
  | positiveSet xs => rfl
  | negativeSet xs => rfl
  | sequence as ih =>
      have hparts : (as.map Atom.reverse).map Atom.reverse = as := by
        rw [List.map_map]
        exact (List.map_congr_left ih).trans (List.map_id as)
      simp only [Atom.reverse, Atom.reverseAll_eq_map, List.map_reverse, List.reverse_reverse,
        hparts]
  | alternative l r ihl ihr => simp only [Atom.reverse, ihl, ihr]
  | quantified a q ih => simp only [Atom.reverse, ih]

/-- The symbols stay the same, and no sequence becomes empty. -/
lemma Atom.Over.reverse {known : Symbol → Prop} {a : Atom} (h : a.Over known) :
    a.reverse.Over known := by
  induction a using Atom.ind with
  | simple x => exact h
  | any => trivial
  | positiveSet xs => exact h
  | negativeSet xs => exact h
  | sequence as ih =>
      rw [Atom.Over, Atom.overAll_iff] at h
      rw [Atom.reverse, Atom.Over, Atom.overAll_iff, Atom.reverseAll_eq_map]
      refine ⟨by simpa using h.1, fun b hb => ?_⟩
      obtain ⟨a, ha, rfl⟩ := List.mem_map.mp (List.mem_reverse.mp hb)
      exact ih a ha (h.2 a ha)
  | alternative l r ihl ihr => exact ⟨ihl h.1, ihr h.2⟩
  | quantified a q ih => exact ih h

/-! ### A row of places -/

variable {read : Atom → Gate → List Sym → Gate → Prop}

/-- What an expression reads with its gates at two places. -/
def Atom.PlacedLeg (read : Atom → Gate → List Sym → Gate → Prop) (a : Atom) (source target : ℕ)
    (i : ℕ) (u : List Sym) (j : ℕ) : Prop :=
  ∃ x y, Gate.place source target x = i ∧ Gate.place source target y = j ∧ a.Way read x u y

/-- What is read along a row of places: each of some expressions one behind the other has its entry
at the place of its number and its exit at the next one. -/
def Atom.RowLeg (read : Atom → Gate → List Sym → Gate → Prop) (as : List Atom) (i : ℕ)
    (u : List Sym) (j : ℕ) : Prop :=
  ∃ (k : ℕ) (a : Atom), as[k]? = some a ∧ a.PlacedLeg read k (k + 1) i u j

/-- The same legs one place further. -/
def Further (leg : ℕ → List Sym → ℕ → Prop) (i : ℕ) (u : List Sym) (j : ℕ) : Prop :=
  ∃ i' j', i' + 1 = i ∧ j' + 1 = j ∧ leg i' u j'

lemma Gate.place_succ (source target : ℕ) (x : Gate) :
    x.place (source + 1) (target + 1) = x.place source target + 1 := by
  cases x <;> rfl

/-- The first expression is between the first two places, and the others are one place further. -/
lemma Atom.rowLeg_cons_iff {a : Atom} {as : List Atom} {i j : ℕ} {u : List Sym} :
    Atom.RowLeg read (a :: as) i u j ↔
      a.PlacedLeg read 0 1 i u j ∨ Further (Atom.RowLeg read as) i u j := by
  constructor
  · rintro ⟨k, b, hb, x, y, rfl, rfl, hway⟩
    cases k with
    | zero =>
        obtain rfl : a = b := Option.some.inj hb
        exact .inl ⟨x, y, rfl, rfl, hway⟩
    | succ k =>
        exact .inr ⟨_, _, (Gate.place_succ k _ x).symm, (Gate.place_succ k _ y).symm, k, b, hb, x, y,
          rfl, rfl, hway⟩
  · rintro (hfirst | ⟨_, _, rfl, rfl, k, b, hb, x, y, rfl, rfl, hway⟩)
    · exact ⟨0, a, rfl, hfirst⟩
    · exact ⟨k + 1, b, hb, x, y, Gate.place_succ k _ x, Gate.place_succ k _ y, hway⟩

lemma Composes.of_tour {way : Gate → List Sym → Gate → Prop} (hway : Composes way) {x y : Gate}
    {w : List Sym} (h : Tour way x w y) : way x w y := by
  induction h with
  | refl x => exact hway.refl x
  | cons hleg _ ih => exact hway.trans hleg ih

/-- Between the places of its gates, an expression reads the words of its ways. -/
lemma Atom.tour_placedLeg_iff {a : Atom} {i j : ℕ} (hne : i ≠ j) {x y : Gate} {w : List Sym} :
    Tour (a.PlacedLeg read i j) (x.place i j) w (y.place i j) ↔ a.Way read x w y := by
  have hinj := Gate.place_injective hne
  constructor
  · intro h
    refine (Atom.composes_way read a).of_tour (h.lift hinj fun x' u z hleg => ?_)
    obtain ⟨x, y, hx, rfl, hway⟩ := hleg
    exact ⟨y, rfl, hinj hx ▸ hway⟩
  · exact fun h => .single ⟨x, y, rfl, rfl, h⟩

lemma tour_further_iff {leg : ℕ → List Sym → ℕ → Prop} {i j : ℕ} {w : List Sym} :
    Tour (Further leg) (i + 1) w (j + 1) ↔ Tour leg i w j := by
  constructor
  · refine Tour.lift (f := (· + 1)) (add_left_injective 1) fun i u z hleg => ?_
    obtain ⟨i', j', hi, rfl, hleg⟩ := hleg
    obtain rfl : i' = i := Nat.succ_injective hi
    exact ⟨j', rfl, hleg⟩
  · exact Tour.bind (f := (· + 1)) fun i u j hleg => .single ⟨i, j, rfl, rfl, hleg⟩

/-- An expression in front of a row, whose first place is the second one from then on. -/
lemma Atom.tour_chained_row_iff {a : Atom} {way : Gate → List Sym → Gate → Prop}
    {leg : ℕ → List Sym → ℕ → Prop} {n : ℕ} (hn : n ≠ 0)
    (hleg : ∀ {x v y}, way x v y ↔ Tour leg (x.place 0 n) v (y.place 0 n)) {x y : Gate}
    {w : List Sym} :
    Tour (Chained (a.Way read) way) x.outer w y.outer ↔
      Tour (fun i u j => a.PlacedLeg read 0 1 i u j ∨ Further leg i u j) (x.place 0 (n + 1)) w
        (y.place 0 (n + 1)) := by
  have hinj : Function.Injective (Junction.place 0 1 (n + 1)) :=
    Junction.place_injective (by omega) (by omega) (by omega)
  -- the expression keeps to the first two places, and the row to those behind the first one
  have hfirst : ∀ i u j, a.PlacedLeg read 0 1 i u j → i ≤ 1 ∧ j ≤ 1 := by
    rintro _ _ _ ⟨x, y, rfl, rfl, -⟩
    cases x <;> cases y <;> simp [Gate.place]
  have hrow : ∀ i u j, Further leg i u j → 1 ≤ i ∧ 1 ≤ j := by
    rintro _ _ _ ⟨i, j, rfl, rfl, -⟩
    omega
  have hfirstWay : ∀ x y v, Tour (a.PlacedLeg read 0 1) (x.first.place 0 1 (n + 1)) v
      (y.first.place 0 1 (n + 1)) ↔ a.Way read x v y := by
    intro x y v
    rw [Gate.place_first, Gate.place_first, Atom.tour_placedLeg_iff Nat.zero_ne_one]
  have hrowWay : ∀ x y v, Tour (Further leg) (x.second.place 0 1 (n + 1)) v
      (y.second.place 0 1 (n + 1)) ↔ way x v y := by
    intro x y v
    rw [Gate.place_second, Gate.place_second, Gate.place_succ 0 n, Gate.place_succ 0 n,
      tour_further_iff, hleg]
  have haway : ∀ i u j, a.PlacedLeg read 0 1 i u j → i ≠ n + 1 ∧ j ≠ n + 1 := by
    intro i u j h
    have := hfirst i u j h
    omega
  have haway' : ∀ i u j, Further leg i u j → i ≠ 0 ∧ j ≠ 0 := by
    intro i u j h
    have := hrow i u j h
    omega
  rw [← Gate.place_outer 0 1 (n + 1) x, ← Gate.place_outer 0 1 (n + 1) y,
    tour_union_iff hfirst hrow (fun z hz hz' => ⟨.middle, Nat.le_antisymm hz' hz⟩)
      (Nat.le_total _ _)]
  exact (Sketch.tour_chained_iff hinj haway haway' hfirstWay hrowWay).symm

/-- **The ways through expressions one behind the other** are the tours from one end of their row
to the other. -/
lemma Atom.wayAll_iff_tour {as : List Atom} (hne : as ≠ []) {x y : Gate} {w : List Sym} :
    Atom.WayAll read as x w y ↔
      Tour (Atom.RowLeg read as) (x.place 0 as.length) w (y.place 0 as.length) := by
  induction as generalizing x y w with
  | nil => exact absurd rfl hne
  | cons a as ih =>
      cases as with
      | nil =>
          rw [Atom.WayAll, ← Atom.tour_placedLeg_iff Nat.zero_ne_one]
          refine Tour.congr fun i u j => ?_
          rw [Atom.rowLeg_cons_iff]
          refine ⟨.inl, fun h => h.elim id ?_⟩
          rintro ⟨_, _, -, -, k, b, hb, -⟩
          exact absurd hb (by simp)
      | cons b bs =>
          rw [Tour.congr fun _ _ _ => Atom.rowLeg_cons_iff]
          exact Atom.tour_chained_row_iff (Nat.succ_ne_zero bs.length) (ih (List.cons_ne_nil b bs))

/-! ### Ways backwards -/

/-- Along a row in reverse order, the places are counted from the other end. -/
lemma Atom.RowLeg.reverse {as : List Atom}
    (ih : ∀ a ∈ as, ∀ {x y u}, a.Way read x u y → a.reverse.Way read y.flip u.reverse x.flip)
    {i j : ℕ} {u : List Sym} (h : Atom.RowLeg read as i u j) :
    Atom.RowLeg read (Atom.reverseAll as).reverse (as.length - j) u.reverse (as.length - i) := by
  obtain ⟨k, a, ha, x, y, rfl, rfl, hway⟩ := h
  obtain ⟨hk, -⟩ := List.getElem?_eq_some_iff.mp ha
  have hflip : ∀ x : Gate, x.flip.place (as.length - 1 - k) (as.length - 1 - k + 1) =
      as.length - x.place k (k + 1) := by
    rintro (_ | _) <;> simp only [Gate.flip, Gate.place] <;> omega
  have hpart : (Atom.reverseAll as).reverse[as.length - 1 - k]? = some a.reverse := by
    rw [Atom.reverseAll_eq_map, List.getElem?_reverse (by rw [List.length_map]; omega),
      List.length_map, List.getElem?_map]
    have hindex : as.length - 1 - (as.length - 1 - k) = k := by omega
    rw [hindex, ha]
    rfl
  exact ⟨_, a.reverse, hpart, y.flip, x.flip, hflip y, hflip x,
    ih a (List.mem_of_getElem? ha) hway⟩

/-- Every way through an expression is one through the reverse order, backwards. -/
lemma Atom.Way.reverse (hread : ∀ a x u y, read a x u y → read a y.flip u.reverse x.flip)
    {a : Atom} {x y : Gate} {w : List Sym} (h : a.Way read x w y) :
    a.reverse.Way read y.flip w.reverse x.flip := by
  induction a using Atom.ind generalizing x y w with
  | simple s => exact Tour.reverse (hread _) h
  | any => exact Tour.reverse (hread _) h
  | positiveSet xs => exact Tour.reverse (hread _) h
  | negativeSet xs => exact Tour.reverse (hread _) h
  | sequence as ih =>
      rw [Atom.reverse, Atom.Way]
      cases as with
      | nil => exact Tour.reverse (fun _ _ _ => False.elim) h
      | cons b bs =>
          have hlength : (Atom.reverseAll (b :: bs)).reverse.length = (b :: bs).length := by
            rw [Atom.reverseAll_eq_map, List.length_reverse, List.length_map]
          have hplace : ∀ x : Gate, x.flip.place 0 (b :: bs).length =
              (b :: bs).length - x.place 0 (b :: bs).length := by
            rintro (_ | _) <;> simp [Gate.flip, Gate.place]
          rw [Atom.wayAll_iff_tour (by simp [Atom.reverseAll]), hlength, hplace, hplace]
          exact Tour.reverse (f := ((b :: bs).length - ·)) (fun _ _ _ => Atom.RowLeg.reverse ih)
            ((Atom.wayAll_iff_tour (List.cons_ne_nil b bs)).mp h)
  | alternative l r ihl ihr =>
      exact Tour.reverse (fun _ _ _ => Or.imp ihl ihr) h
  | quantified a q ih =>
      refine Tour.reverse (fun i u j hleg => hleg.imp ih ?_) h
      rintro ⟨rfl, ⟨hq, rfl, rfl⟩ | ⟨hq, rfl, rfl⟩⟩
      · exact ⟨rfl, .inl ⟨hq, rfl, rfl⟩⟩
      · exact ⟨rfl, .inr ⟨hq, rfl, rfl⟩⟩

/-- **The ways through an expression in reverse order are its ways backwards.** -/
lemma Atom.way_reverse_iff (hread : ∀ a x u y, read a x u y → read a y.flip u.reverse x.flip)
    {a : Atom} {x y : Gate} {w : List Sym} :
    a.reverse.Way read x w y ↔ a.Way read y.flip w.reverse x.flip := by
  constructor
  · intro h
    have hback := h.reverse hread
    rwa [Atom.reverse_reverse] at hback
  · intro h
    have hback := h.reverse hread
    rwa [Gate.flip_flip, Gate.flip_flip, List.reverse_reverse] at hback

/-! ### What can be drawn -/

/-- A symbol is a word. -/
def Symbol.IsWord (x : Symbol) : Prop := ∃ word, x = .simple word

/-- The words of a symbol. -/
def Symbol.words : Symbol → List Token
  | .simple word => [word]
  | .tuple .. => []

mutual

/-- The words of an expression. -/
def Atom.words : Atom → List Token
  | .simple x => x.words
  | .any => []
  | .positiveSet xs => xs.flatMap Symbol.words
  | .negativeSet xs => xs.flatMap Symbol.words
  | .sequence as => Atom.wordsAll as
  | .alternative l r => l.words ++ r.words
  | .quantified a _ => a.words

/-- The words of expressions. -/
def Atom.wordsAll : List Atom → List Token
  | [] => []
  | a :: as => a.words ++ Atom.wordsAll as

end

lemma Atom.mem_wordsAll {as : List Atom} {t : Token} :
    t ∈ Atom.wordsAll as ↔ ∃ a ∈ as, t ∈ a.words := by
  induction as with
  | nil => simp [Atom.wordsAll]
  | cons a as ih => simp [Atom.wordsAll, ih]

/-- An expression of words, all of which are names of the domain. -/
lemma Atom.over_in_of_words {D : List Label} {a : Atom} (h : a.Over Symbol.IsWord)
    (hwords : ∀ t ∈ a.words, (Symbol.simple t).In D) : a.Over (Symbol.In D) := by
  have hset : ∀ xs : List Symbol, (∀ x ∈ xs, x.IsWord) →
      (∀ t ∈ xs.flatMap Symbol.words, (Symbol.simple t).In D) → ∀ x ∈ xs, x.In D := by
    intro xs h hwords x hx
    obtain ⟨word, rfl⟩ := h x hx
    exact hwords word (List.mem_flatMap.mpr ⟨_, hx, List.mem_singleton_self word⟩)
  induction a using Atom.ind with
  | simple x =>
      obtain ⟨word, rfl⟩ := h
      exact hwords word (List.mem_singleton_self word)
  | any => trivial
  | positiveSet xs => exact hset xs h hwords
  | negativeSet xs => exact hset xs h hwords
  | sequence as ih =>
      rw [Atom.Over, Atom.overAll_iff] at h ⊢
      exact ⟨h.1, fun a ha => ih a ha (h.2 a ha) fun t ht =>
        hwords t (Atom.mem_wordsAll.mpr ⟨a, ha, ht⟩)⟩
  | alternative l r ihl ihr =>
      exact ⟨ihl h.1 fun t ht => hwords t (List.mem_append_left _ ht),
        ihr h.2 fun t ht => hwords t (List.mem_append_right _ ht)⟩
  | quantified a q ih => exact ih h hwords

section Drawing

variable {A : Alphabet Sym}

lemma Sketch.isWord_of_meaning_eq_ok {s t : Sketch Sym} {x : Symbol} {as : List Sym}
    (h : s.meaning A x = .ok (t, as)) : x.IsWord := by
  cases x with
  | simple word => exact ⟨word, rfl⟩
  | tuple => exact absurd h (by simp [Sketch.meaning])

lemma Sketch.isWord_of_meanings_eq_ok {xs : List Symbol} {s t : Sketch Sym} {as : List Sym}
    (h : Sketch.meanings A s xs = .ok (t, as)) : ∀ x ∈ xs, x.IsWord := by
  induction xs generalizing s t as with
  | nil => exact fun _ hx => absurd hx List.not_mem_nil
  | cons x xs ih =>
      obtain ⟨⟨s', bs⟩, hx, h⟩ := exists_of_bind_eq_ok h
      obtain ⟨⟨t', cs⟩, hxs, -⟩ := exists_of_bind_eq_ok h
      exact List.forall_mem_cons.mpr ⟨Sketch.isWord_of_meaning_eq_ok hx, ih hxs⟩

variable [DecidableEq Sym]

lemma Atom.over_of_drawSequence_eq_ok {as : List Atom}
    (ih : ∀ a ∈ as, ∀ {source target : ℕ} {s t : Sketch Sym},
      Sketch.draw A s source target a = .ok t → a.Over Symbol.IsWord)
    {source target : ℕ} {s t : Sketch Sym}
    (h : Sketch.drawSequence A s source target as = .ok t) :
    as ≠ [] ∧ ∀ a ∈ as, a.Over Symbol.IsWord := by
  induction as generalizing source s with
  | nil => exact absurd h (by simp [Sketch.drawSequence])
  | cons a as ihs =>
      refine ⟨List.cons_ne_nil a as, ?_⟩
      cases as with
      | nil =>
          rw [Sketch.drawSequence] at h
          exact List.forall_mem_singleton.mpr (ih a List.mem_cons_self h)
      | cons b bs =>
          rw [Sketch.drawSequence] at h
          obtain ⟨s', ha, h⟩ := exists_of_bind_eq_ok h
          exact List.forall_mem_cons.mpr ⟨ih a List.mem_cons_self ha,
            (ihs (fun c hc => ih c (List.mem_cons_of_mem a hc)) h).2⟩

/-- **What can be drawn** has words for symbols and no empty sequence. -/
lemma Atom.over_of_draw_eq_ok {a : Atom} {source target : ℕ} {s t : Sketch Sym}
    (h : Sketch.draw A s source target a = .ok t) : a.Over Symbol.IsWord := by
  induction a using Atom.ind generalizing source target s t with
  | simple x =>
      rw [Sketch.draw] at h
      obtain ⟨⟨s', as⟩, hx, -⟩ := exists_of_bind_eq_ok h
      exact Sketch.isWord_of_meaning_eq_ok hx
  | any => trivial
  | positiveSet xs =>
      rw [Sketch.draw] at h
      obtain ⟨⟨s', as⟩, hxs, -⟩ := exists_of_bind_eq_ok h
      exact Sketch.isWord_of_meanings_eq_ok hxs
  | negativeSet xs =>
      rw [Sketch.draw] at h
      obtain ⟨⟨s', as⟩, hxs, -⟩ := exists_of_bind_eq_ok h
      exact Sketch.isWord_of_meanings_eq_ok hxs
  | sequence as ih =>
      rw [Sketch.draw] at h
      rw [Atom.Over, Atom.overAll_iff]
      exact Atom.over_of_drawSequence_eq_ok ih h
  | alternative l r ihl ihr =>
      rw [Sketch.draw] at h
      obtain ⟨s', hl, hr⟩ := exists_of_bind_eq_ok h
      exact ⟨ihl hl, ihr hr⟩
  | quantified a q ih =>
      rw [Sketch.draw] at h
      obtain ⟨s', ha, -⟩ := exists_of_bind_eq_ok h
      exact ih ha

/-- An automaton of an expression is drawn for it. -/
lemma Atom.over_of_automaton_eq_ok {a : Atom} {D E : List Sym} {n : Nfa ℕ Sym}
    (h : A.automaton D (some a) = .ok (n, E)) : a.Over Symbol.IsWord := by
  obtain ⟨⟨s, i, f⟩, hs, -⟩ := exists_of_bind_eq_ok h
  obtain ⟨t, ht, -⟩ := exists_of_bind_eq_ok hs
  exact Atom.over_of_draw_eq_ok ht

end Drawing

/-! ### The header in front of the network -/

variable {D : List Label}

lemma Atom.reads_flip (a : Atom) (x : Gate) (u : List Label) (y : Gate) (h : a.reads D x u y) :
    a.reads D y.flip u.reverse x.flip := by
  obtain ⟨rfl, rfl, b, hb, rfl⟩ := h
  exact ⟨rfl, rfl, b, hb, rfl⟩

/-- The automata of an expression in both orders accept the same words, one of them backwards. -/
lemma exists_automata_reverse {a : Atom} (h : a.Over (Symbol.In D)) :
    ∃ n m, Alphabet.labels.automaton D (some a.reverse) = .ok (n, D) ∧
      Alphabet.labels.automaton D (some a) = .ok (m, D) ∧
      ∀ w, n.Accepts w ↔ m.Accepts w.reverse := by
  obtain ⟨n, hn, hnaccepts⟩ := exists_labels_automaton h.reverse
  obtain ⟨m, hm, hmaccepts⟩ := exists_labels_automaton h
  refine ⟨n, m, hn, hm, fun w => ?_⟩
  rw [hnaccepts, hmaccepts]
  exact Atom.way_reverse_iff Atom.reads_flip

/-- Automata that accept the same words, one of them backwards: what is built by the one is removed
by the other. -/
lemma built_iff_removed {n m : Nfa ℕ Label} (h : ∀ w, n.Accepts w ↔ m.Accepts w.reverse)
    (u : List StackSymbol) :
    (n.mapSymbols .ofLabel).builder.Reaches ⟨.start, [.bottom]⟩ ⟨.finish, u⟩ ↔
      (m.mapSymbols .ofLabel).remover.Reaches ⟨m.initial, u⟩ ⟨m.final, [.bottom]⟩ := by
  rw [build_reaches_iff, destroy_reaches_iff (List.cons_ne_nil _ _)]
  constructor
  · rintro ⟨c, hc, rfl⟩
    exact ⟨c.reverse, (h c).mp hc, by rw [List.map_reverse]⟩
  · rintro ⟨d, hd, rfl⟩
    refine ⟨d.reverse, (h d.reverse).mpr (by rwa [List.reverse_reverse]), ?_⟩
    rw [List.map_reverse, List.reverse_reverse]

/-- **The same expression means the same headers in front of the network and behind it.** For every
domain and every expression whose words are names of the domain, or no expression at all, either
both automata are drawn or neither is. If they are, the one for the front accepts the words that the
other one accepts backwards, and the stacks that it builds on the bottom are the stacks that the
other one takes off down to the bottom. -/
theorem headers_built_iff_removed (D : List Label) (a : Option Atom)
    (h : ∀ b ∈ a, ∀ t ∈ b.words, (Symbol.simple t).In D) :
    (∃ n m, Alphabet.labels.automaton D (a.map Atom.reverse) = .ok (n, D) ∧
      Alphabet.labels.automaton D a = .ok (m, D) ∧
      (∀ w, n.Accepts w ↔ m.Accepts w.reverse) ∧
      ∀ u, (n.mapSymbols .ofLabel).builder.Reaches ⟨.start, [.bottom]⟩ ⟨.finish, u⟩ ↔
        (m.mapSymbols .ofLabel).remover.Reaches ⟨m.initial, u⟩ ⟨m.final, [.bottom]⟩) ∨
    ∃ f g, Alphabet.labels.automaton D (a.map Atom.reverse) = .error f ∧
      Alphabet.labels.automaton D a = .error g := by
  cases a with
  | none =>
      have hempty : ∀ w, ((Sketch.blank D 1).finish 0 0).Accepts w →
          ((Sketch.blank D 1).finish 0 0).Accepts w.reverse := by
        intro w hw
        cases hw with
        | refl => exact .refl _
        | silent he => exact absurd he List.not_mem_nil
        | read he => exact absurd he List.not_mem_nil
      have haccepts : ∀ w, ((Sketch.blank D 1).finish 0 0).Accepts w ↔
          ((Sketch.blank D 1).finish 0 0).Accepts w.reverse :=
        fun w => ⟨hempty w, fun hw => List.reverse_reverse w ▸ hempty _ hw⟩
      exact .inl ⟨_, _, rfl, rfl, haccepts, built_iff_removed haccepts⟩
  | some a =>
      by_cases hover : a.Over Symbol.IsWord
      · obtain ⟨n, m, hn, hm, haccepts⟩ :=
          exists_automata_reverse (Atom.over_in_of_words hover (h a rfl))
        exact .inl ⟨n, m, hn, hm, haccepts, built_iff_removed haccepts⟩
      · have hfails : ∀ b : Atom, ¬ b.Over Symbol.IsWord →
            ∃ f, Alphabet.labels.automaton D (some b) = .error f := by
          intro b hb
          cases hauto : Alphabet.labels.automaton D (some b) with
          | error f => exact ⟨f, rfl⟩
          | ok r => exact absurd (Atom.over_of_automaton_eq_ok (n := r.1) (E := r.2) hauto) hb
        have hreverse : ¬ a.reverse.Over Symbol.IsWord := fun hr =>
          hover (a.reverse_reverse ▸ hr.reverse)
        obtain ⟨f, hf⟩ := hfails _ hreverse
        obtain ⟨g, hg⟩ := hfails _ hover
        exact .inr ⟨f, g, hf, hg⟩

/-- The expression `(a b)+ (b|[^a] a)`. -/
def nestedHeader : Atom :=
  .sequence [.quantified (.sequence [literal "a", literal "b"]) .oneOrMore,
    .alternative (literal "b")
      (.sequence [.negativeSet [.simple ⟨.word, "a", 1, 1⟩], literal "a"])]

/-- The header `a b a b b` is taken off the stack by this expression, and put there by it, from the
last label to the first one. -/
theorem headers_built_iff_removed_nested :
    (∀ t ∈ nestedHeader.words, (Symbol.simple t).In twoLabels) ∧
    ∃ n m, Alphabet.labels.automaton twoLabels (some nestedHeader.reverse) = .ok (n, twoLabels) ∧
      Alphabet.labels.automaton twoLabels (some nestedHeader) = .ok (m, twoLabels) ∧
      m.Accepts [.named "a", .named "b", .named "a", .named "b", .named "b"] ∧
      n.Accepts [.named "b", .named "b", .named "a", .named "b", .named "a"] := by
  have hnames : ∀ t ∈ nestedHeader.words, t = ⟨.word, "a", 1, 1⟩ ∨ t = ⟨.word, "b", 1, 1⟩ := by
    decide
  have hwords : ∀ t ∈ nestedHeader.words, (Symbol.simple t).In twoLabels := by
    intro t ht
    rcases hnames t ht with rfl | rfl
    · exact in_twoLabels (.inl rfl)
    · exact in_twoLabels (.inr rfl)
  refine ⟨hwords, ?_⟩
  rcases headers_built_iff_removed twoLabels (some nestedHeader)
    (fun b hb => Option.some.inj hb ▸ hwords) with ⟨n, m, hn, hm, haccepts, -⟩ | ⟨_, _, -, hg⟩
  · refine ⟨n, m, hn, hm, ?_⟩
    have hword : m.Accepts [.named "a", .named "b", .named "a", .named "b", .named "b"] := by
      obtain rfl := (Prod.mk.inj (Except.ok.inj hm)).1
      exact .read (q := 3) (by decide) (.read (q := 2) (by decide) (.silent (q := 0) (by decide)
        (.read (q := 3) (by decide) (.read (q := 2) (by decide) (.read (q := 1) (by decide)
          (.refl 1))))))
    exact ⟨hword, (haccepts _).mpr hword⟩
  · exact absurd hg nofun

end Query

end MplsReach
