/-
One automaton behind another, in a workshop.

The larger one of two automata may be taken over, so that only the other one is copied, or both are
copied.

* `Workshop.Whole`: an automaton with its ends, whose transitions join its own locations.
* `Workshop.Joinable`: two such automata without common locations and special names.
* `Workshop.LabelsKnown`: all labels of two automata are symbols of one of them.
* `Workshop.joinInto`: what is done once it is known which automaton is kept.
* `acts_joinInto`: its parts, whichever automaton is kept; `exists_fails_joinInto`: it fails at a
  label that neither automaton has among its symbols.
* `join_alike`: **it does not matter whether an automaton is taken over**, and the whole does what
  the two automata do one after the other.
* `join_unlike`: without a stack nothing leads from the first automaton to the second one, a label
  that is no symbol is not copied, and sets of tops are lost in copies.
-/
import Mathlib.Data.List.Nodup
import MplsReach.Proofs.Alike
import MplsReach.Proofs.Bench

namespace MplsReach

/-! ### Entries and lists -/

/-- The last entry that was put under a key. -/
lemma Dictionary.get?_putAll_map {α β : Type} [DecidableEq α] {moves : List (α × β)} {f : α → β}
    {as : List α} (l : α) : get? Prod.fst l (putAll Prod.fst moves (as.map fun a => (a, f a))) =
      if l ∈ as then some (l, f l) else get? Prod.fst l moves := by
  induction as generalizing moves with
  | nil => rfl
  | cons a as ih =>
      have hrest : putAll Prod.fst moves ((a :: as).map fun a => (a, f a)) =
        putAll Prod.fst (put Prod.fst (a, f a) moves) (as.map fun a => (a, f a)) := rfl
      rw [hrest, ih, get?_put]
      by_cases hl : l ∈ as
      · simp [hl]
      · by_cases ha : a = l
        · simp [ha]
        · simp [hl, ha, Ne.symm ha]

lemma Dictionary.get?_map {α β : Type} [DecidableEq α] {f : α → β} {as : List α} {l : α}
    (h : l ∈ as) : get? Prod.fst l (as.map fun a => (a, f a)) = some (l, f l) := by
  induction as with
  | nil => exact absurd h List.not_mem_nil
  | cons a as ih =>
      unfold get? at ih ⊢
      by_cases ha : a = l
      · simp [ha]
      · have hl : l ∈ as := (List.mem_cons.mp h).resolve_left (Ne.symm ha)
        simpa [ha] using ih hl

/-- A run from where no step is possible. -/
lemma Pda.Reaches.eq_of_not_step {Loc Sym : Type} [DecidableEq Sym] {p : Pda Loc Sym}
    {c d : Config Loc Sym} (h : p.Reaches c d) (hc : ∀ e, ¬ p.Step c e) : d = c := by
  induction h with
  | refl => rfl
  | tail _ hstep ih => exact absurd (ih ▸ hstep) (hc _)

namespace Workshop

/-- Nothing in place of what is kept. -/
def unlessKept {α : Type} (kept : Bool) (as : List α) : List α := if kept then [] else as

/-- What a location becomes: it stays where it is kept, else it gets the next number in order. -/
def place (kept : Bool) (next : Nat) (ls : List Nat) (l : Nat) : Nat :=
  if kept then l else next + ls.idxOf l

/-- Numbers in order, told by what they are for. -/
lemma zipIdx_eq_map {ls : List Nat} (h : ls.Nodup) (n : Nat) :
    ls.zipIdx n = ls.map fun l => (l, n + ls.idxOf l) := by
  induction ls generalizing n with
  | nil => rfl
  | cons l ls ih =>
      obtain ⟨hl, hls⟩ := List.nodup_cons.mp h
      rw [List.zipIdx_cons, ih hls, List.map_cons, List.idxOf_cons_self, Nat.add_zero]
      refine congrArg _ (List.map_congr_left fun m hm => ?_)
      have hne : l ≠ m := fun heq => hl (heq ▸ hm)
      rw [List.idxOf_cons_ne ls hne, Nat.succ_eq_add_one, Nat.add_assoc, Nat.add_comm 1]

lemma range'_eq_map {ls : List Nat} (h : ls.Nodup) (n : Nat) :
    List.range' n ls.length = ls.map fun l => n + ls.idxOf l := by
  have hsnd := congrArg (List.map Prod.snd) (zipIdx_eq_map h n)
  rw [List.zipIdx_map_snd, List.map_map] at hsnd
  exact hsnd

/-! ### Automata that can be joined -/

/-- An automaton as a value. -/
def automaton (w : Workshop) (P : Piece) : Pda Nat String := w.view P (w.transitionsOf P)

/-- An automaton of parts that were made, each of them once, with both ends. Its transitions join
its own locations and do not fire on sets of tops. -/
structure Whole (w : Workshop) (P : Piece) : Prop where
  made : ∀ i ∈ P.transitions, i < w.transitions.length
  named : ∀ l ∈ P.locations, l < w.names.length
  locations_nodup : P.locations.Nodup
  symbols_nodup : P.symbols.Nodup
  specials_nodup : (P.specials.map Prod.fst).Nodup
  exists_initial : ∃ l ∈ P.locations, P.initial = some l
  exists_final : ∃ l ∈ P.locations, P.final = some l
  source_mem : ∀ t ∈ w.transitionsOf P, t.source ∈ P.locations
  target_mem : ∀ t ∈ w.transitionsOf P, t.target ∈ P.locations
  plain : (w.automaton P).Plain

/-- Two automata without common locations and special names. -/
structure Joinable (w : Workshop) (p q : Nat) (P Q : Piece) : Prop where
  first : w.pieces[p]? = some P
  second : w.pieces[q]? = some Q
  whole_first : w.Whole P
  whole_second : w.Whole Q
  locations_disjoint : P.locations.Disjoint Q.locations
  specials_disjoint : (P.specials.map Prod.fst).Disjoint (Q.specials.map Prod.fst)

/-- All labels of two automata, of their special symbols and of their transitions, are symbols of
one of them. -/
structure LabelsKnown (w : Workshop) (P Q : Piece) : Prop where
  specials : ∀ x ∈ P.specials ++ Q.specials, x.2 ∈ P.symbols ++ Q.symbols
  transitions : ∀ t ∈ w.transitionsOf P ++ w.transitionsOf Q, ∀ a ∈ t.symbols,
    a ∈ P.symbols ++ Q.symbols

variable {w : Workshop} {p q r : Nat} {P Q : Piece} {b : Bench} {kept : Option Side}
  {symbols : List String}

lemma Whole.ownEnds (h : w.Whole P) : (w.automaton P).OwnEnds := by
  obtain ⟨i, hi, hinitial⟩ := h.exists_initial
  obtain ⟨f, hf, hfinal⟩ := h.exists_final
  refine ⟨?_, ?_, h.source_mem, h.target_mem⟩
  · simpa [automaton, view, orNone, hinitial] using hi
  · simpa [automaton, view, orNone, hfinal] using hf

lemma Whole.initial_eq (h : w.Whole P) : P.initial = some (w.automaton P).initial := by
  obtain ⟨i, -, hi⟩ := h.exists_initial
  simp [automaton, view, orNone, hi]

lemma Whole.final_eq (h : w.Whole P) : P.final = some (w.automaton P).final := by
  obtain ⟨f, -, hf⟩ := h.exists_final
  simp [automaton, view, orNone, hf]

/-- Copies have the labels of transitions that do not fire on sets. -/
lemma Whole.symbols_copied (h : w.Whole P) {t : Transition Nat String}
    (ht : t ∈ w.transitionsOf P) : t.copied.symbols = t.symbols := by
  have hinput : t.copied.input = t.input := Transition.input_copied (h.plain t ht)
  rw [Transition.symbols, Transition.symbols, hinput]
  rfl

lemma Joinable.ne (h : w.Joinable p q P Q) : p ≠ q := by
  rintro rfl
  obtain rfl : P = Q := Option.some.inj (h.first.symm.trans h.second)
  obtain ⟨l, hl, -⟩ := h.whole_first.exists_initial
  exact h.locations_disjoint hl hl

/-! ### What is done once it is known which automaton is kept -/

/-- The special symbols of a part. -/
def bringSpecials (kept : Bool) (r : Nat) (symbols : List String) (P : Piece) : Work Unit :=
  if kept then pure () else copySpecials r symbols P.specials

/-- The locations of a part, and what they become. -/
def bringLocations (kept : Bool) (r : Nat) (P : Piece) : Work Moves :=
  if kept then pure (P.locations.map fun l => (l, l)) else copyLocations r P.locations

/-- The transitions of a part. -/
def bringTransitions (kept : Bool) (r : Nat) (symbols : List String) (moves : Moves) (P : Piece) :
    Work Unit :=
  if kept then pure () else copyTransitions r symbols moves P

/-- The ends of the whole. -/
def bringEnds (kept : Option Side) (r : Nat) (moves : Moves) (P Q : Piece) : Work Unit := do
  if kept = some .first then modifyPiece r fun s => { s with final := none }
  if kept = some .second then modifyPiece r fun s => { s with initial := none }
  if kept ≠ some .first then setInitial r (← moved moves P.initial)
  if kept ≠ some .second then setFinal r (← moved moves Q.final)

/-- The second automaton behind the first one, where it is known which one is kept. -/
def joinInto (kept : Option Side) (r : Nat) (P Q : Piece) : Work Nat := do
  let symbols := P.symbols ++ Q.symbols
  symbols.forM (addSymbol r)
  bringSpecials (kept = some .first) r symbols P
  bringSpecials (kept = some .second) r symbols Q
  let own ← bringLocations (kept = some .first) r P
  let others ← bringLocations (kept = some .second) r Q
  let moves := Dictionary.putAll Prod.fst own others
  bringTransitions (kept = some .first) r symbols moves P
  bringTransitions (kept = some .second) r symbols moves Q
  let source ← moved moves P.final
  let target ← moved moves Q.initial
  let _ ← addTransition r (.plain source target .any .noop)
  bringEnds kept r moves P Q
  pure r

/-- The automaton that is kept, or one without parts. -/
def keptPiece (P Q : Piece) : Option Side → Piece
  | some .first => P
  | some .second => Q
  | none => blank

/-- **Joining** is done into the automaton that is kept or into a new one. -/
lemma exists_run_join (h : w.Joinable p q P Q) (takeOver : Bool) :
    ∃ kept r w₀, (takeOver = false → kept = none) ∧
      (join takeOver p q).run.run w = (joinInto kept r P Q).run.run w₀ ∧
      w₀.Shows r (w.bench (keptPiece P Q kept)) := by
  have hne := h.ne
  have hnew : w.pieces.length ≠ q := fun heq =>
    absurd h.second (by simp [← heq])
  cases takeOver with
  | true =>
      by_cases hlt : P.transitions.length < Q.transitions.length
      · refine ⟨some .second, q, w, by simp, ?_, Q, h.second, h.whole_second.made, rfl⟩
        rw [join, run_bind_of_ok (run_piece h.first), run_bind_of_ok (run_piece h.second)]
        simp [hlt, joinInto, bringSpecials, bringLocations, bringTransitions, bringEnds]
      · refine ⟨some .first, p, w, by simp, ?_, P, h.first, h.whole_first.made, rfl⟩
        rw [join, run_bind_of_ok (run_piece h.first), run_bind_of_ok (run_piece h.second)]
        simp [hlt, hne, joinInto, bringSpecials, bringLocations, bringTransitions, bringEnds]
  | false =>
      refine ⟨none, w.pieces.length, { w with pieces := w.pieces ++ [blank] }, fun _ => rfl, ?_,
        blank, ?_, ?_, rfl⟩
      · rw [join, run_bind_of_ok (run_piece h.first), run_bind_of_ok (run_piece h.second)]
        simp only [Bool.false_eq_true, if_false]
        rw [run_bind_of_ok (x := addPiece) (w := w) rfl]
        simp [hnew, joinInto, bringSpecials, bringLocations, bringTransitions, bringEnds]
      · simp
      · exact fun i hi => absurd hi List.not_mem_nil

/-! ### Parts of the whole -/

lemma acts_bringSpecials (kept : Bool) (hsymbols : ∀ x ∈ P.specials, x.2 ∈ symbols)
    (h : kept = false → ((b.specials ++ P.specials).map Prod.fst).Nodup) :
    Acts r (bringSpecials kept r symbols P) b ()
      { b with specials := b.specials ++ unlessKept kept P.specials } := by
  cases kept with
  | true => simpa [bringSpecials, unlessKept] using acts_pure (r := r) (b := b) ()
  | false =>
      have hacts := acts_copySpecials (r := r) (b := b) hsymbols
      rw [Dictionary.putAll_eq_append (h rfl)] at hacts
      exact hacts

lemma acts_bringLocations (kept : Bool) (hnamed : ∀ l ∈ P.locations, l < b.names.length)
    (hnodup : P.locations.Nodup) :
    Acts r (bringLocations kept r P) b
      (P.locations.map fun l => (l, place kept b.names.length P.locations l))
      (b.withLocations (unlessKept kept (P.locations.map (b.names.getD · .missing)))
        (unlessKept kept (P.locations.map (place kept b.names.length P.locations)))) := by
  cases kept with
  | true => exact b.withLocations_nil.symm ▸ acts_pure _
  | false =>
      have hacts := acts_copyLocations (r := r) hnamed
      rw [zipIdx_eq_map hnodup, range'_eq_map hnodup] at hacts
      exact hacts

lemma acts_bringTransitions (kept : Bool) {moves : Moves} {ts : List (Transition Nat String)}
    {move : Nat → Nat} (hts : P.transitions.filterMap (b.made[·]?) = ts)
    (hends : ∀ t ∈ ts, EndsKnown moves move t)
    (hsymbols : ∀ t ∈ ts, ∀ a ∈ t.copied.symbols, a ∈ symbols) :
    Acts r (bringTransitions kept r symbols moves P) b ()
      (b.withTransitions (unlessKept kept (ts.map (copyAlong move)))) := by
  cases kept with
  | true => exact b.withTransitions_nil.symm ▸ acts_pure ()
  | false => exact acts_copyTransitions hts hends hsymbols

/-- The ends that are not kept are those of the parts. -/
lemma acts_bringEnds {moves : Moves} {i f m n : Nat} (hi : P.initial = some i)
    (hf : Q.final = some f) (hm : Dictionary.get? Prod.fst i moves = some (i, m))
    (hn : Dictionary.get? Prod.fst f moves = some (f, n))
    (hfirst : kept = some .first → b.initial = some m)
    (hsecond : kept = some .second → b.final = some n)
    (hnone : kept = none → b.initial = none ∧ b.final = none) :
    Acts r (bringEnds kept r moves P Q) b () { b with initial := some m, final := some n } := by
  rw [bringEnds, hi, hf]
  rcases kept with _ | _ | _
  · obtain ⟨hinitial, hfinal⟩ := hnone rfl
    simp only [reduceCtorEq, ↓reduceIte, ne_eq, not_false_eq_true]
    exact (acts_moved hm).bind ((acts_setInitial hinitial).bind
      ((acts_moved hn).bind (acts_setFinal hfinal)))
  · have hend : { b with initial := some m, final := some n } =
        { { b with final := none } with final := some n } := by rw [hfirst rfl]
    simp only [↓reduceIte, Option.some.injEq, reduceCtorEq, ne_eq, not_true_eq_false,
      not_false_eq_true]
    rw [hend]
    exact acts_clearFinal.bind ((acts_moved hn).bind (acts_setFinal rfl))
  · have hend : { b with initial := some m, final := some n } =
        { { b with initial := none } with initial := some m } := by rw [hsecond rfl]
    simp only [Option.some.injEq, reduceCtorEq, ↓reduceIte, ne_eq, not_false_eq_true,
      not_true_eq_false, bind_pure_comp, id_map']
    rw [hend]
    exact acts_clearInitial.bind ((acts_moved hm).bind (acts_setInitial rfl))

/-! ### The whole -/

section Joined

variable (w : Workshop) (kept : Option Side) (P Q : Piece)

/-- What the locations of the first automaton become. -/
def moveFirst : Nat → Nat := place (kept = some .first) w.names.length P.locations

/-- All names, once the locations of the first automaton are copied. -/
def namesBetween : List LocationName :=
  w.names ++ unlessKept (kept = some .first) (P.locations.map w.name)

/-- What the locations of the second automaton become. -/
def moveSecond : Nat → Nat :=
  place (kept = some .second) (w.namesBetween kept P).length Q.locations

/-- The transitions that are added: copies, and the one from the end of the first automaton to the
start of the second one. -/
def addedTransitions : List (Transition Nat String) :=
  unlessKept (kept = some .first) ((w.transitionsOf P).map (copyAlong (w.moveFirst kept P))) ++
  unlessKept (kept = some .second) ((w.transitionsOf Q).map (copyAlong (w.moveSecond kept P Q))) ++
  [.plain (w.moveFirst kept P (w.automaton P).final) (w.moveSecond kept P Q (w.automaton Q).initial)
    .any .noop]

/-- What there is to see of the whole. -/
def joined : Bench where
  names := w.namesBetween kept P ++ unlessKept (kept = some .second) (Q.locations.map w.name)
  made := w.transitions ++ w.addedTransitions kept P Q
  locations := (keptPiece P Q kept).locations ++
    unlessKept (kept = some .first) (P.locations.map (w.moveFirst kept P)) ++
    unlessKept (kept = some .second) (Q.locations.map (w.moveSecond kept P Q))
  symbols := (P.symbols ++ Q.symbols).foldl noted (keptPiece P Q kept).symbols
  transitions := w.transitionsOf (keptPiece P Q kept) ++ w.addedTransitions kept P Q
  specials := (keptPiece P Q kept).specials ++ unlessKept (kept = some .first) P.specials ++
    unlessKept (kept = some .second) Q.specials
  initial := some (w.moveFirst kept P (w.automaton P).initial)
  final := some (w.moveSecond kept P Q (w.automaton Q).final)

/-- What the locations of both automata become. -/
def bothMoves : Moves :=
  Dictionary.putAll Prod.fst (P.locations.map fun l => (l, w.moveFirst kept P l))
    (Q.locations.map fun l => (l, w.moveSecond kept P Q l))

/-- What there is to see once all symbols are brought. -/
def lettered : Bench :=
  { w.bench (keptPiece P Q kept) with symbols := (w.joined kept P Q).symbols }

/-- What there is to see once all special symbols are brought, too. -/
def titled : Bench := { w.lettered kept P Q with specials := (w.joined kept P Q).specials }

/-- What there is to see once all locations are brought, too. -/
def placed : Bench :=
  { w.titled kept P Q with
    names := (w.joined kept P Q).names
    locations := (w.joined kept P Q).locations }

/-- What there is to see once all transitions are brought, too. -/
def wired : Bench := (w.placed kept P Q).withTransitions (w.addedTransitions kept P Q)

end Joined

/-- The locations of the second automaton keep their names meanwhile. -/
lemma getD_namesBetween {l : Nat} (hl : l < w.names.length) :
    (w.namesBetween kept P).getD l .missing = w.name l := by
  simp [namesBetween, name, List.getD_eq_getElem?_getD, List.getElem?_append_left hl]

lemma Whole.lt_namesBetween (h : w.Whole Q) {l : Nat} (hl : l ∈ Q.locations) :
    l < (w.namesBetween kept P).length :=
  List.length_append ▸ Nat.lt_add_right _ (h.named l hl)

/-- Special symbols of a part that is not kept have new names. -/
lemma Joinable.specials_nodup (h : w.Joinable p q P Q) (kept : Option Side) :
    (kept ≠ some .first →
      (((keptPiece P Q kept).specials ++ P.specials).map Prod.fst).Nodup) ∧
    (kept ≠ some .second → (((keptPiece P Q kept).specials ++
      unlessKept (kept = some .first) P.specials ++ Q.specials).map Prod.fst).Nodup) := by
  have hnodup : ((P.specials ++ Q.specials).map Prod.fst).Nodup := by
    rw [List.map_append]
    exact List.nodup_append'.mpr
      ⟨h.whole_first.specials_nodup, h.whole_second.specials_nodup, h.specials_disjoint⟩
  rcases kept with _ | _ | _
  · exact ⟨fun _ => h.whole_first.specials_nodup, fun _ => hnodup⟩
  · refine ⟨fun hne => absurd rfl hne, fun _ => ?_⟩
    simpa [keptPiece, unlessKept] using hnodup
  · refine ⟨fun _ => ?_, fun hne => absurd rfl hne⟩
    have hperm : (Q.specials ++ P.specials).Perm (P.specials ++ Q.specials) := List.perm_append_comm
    exact (hperm.map Prod.fst).nodup_iff.mpr hnodup

/-- What the locations of both automata become is known. -/
lemma Joinable.get?_bothMoves (h : w.Joinable p q P Q) (kept : Option Side) :
    (∀ l ∈ P.locations,
      Dictionary.get? Prod.fst l (w.bothMoves kept P Q) = some (l, w.moveFirst kept P l)) ∧
    ∀ l ∈ Q.locations,
      Dictionary.get? Prod.fst l (w.bothMoves kept P Q) = some (l, w.moveSecond kept P Q l) := by
  refine ⟨fun l hl => ?_, fun l hl => ?_⟩
  · rw [bothMoves, Dictionary.get?_putAll_map, if_neg (h.locations_disjoint hl),
      Dictionary.get?_map hl]
  · rw [bothMoves, Dictionary.get?_putAll_map, if_pos hl]

/-- Where both automata are copied, a special symbol that is no symbol stops it. -/
lemma exists_fails_specials {α : Type} {x : Work α}
    (hsymbols : ¬ ∀ x ∈ P.specials ++ Q.specials, x.2 ∈ symbols) :
    ∃ a ∉ symbols, Fails r (do
      copySpecials r symbols P.specials
      copySpecials r symbols Q.specials
      x) b (.unknownName (some a)) := by
  by_cases hknown : ∀ x ∈ P.specials, x.2 ∈ symbols
  · obtain ⟨a, ha, hfails⟩ := exists_fails_copySpecials
      fun hrest => hsymbols (List.forall_mem_append.mpr ⟨hknown, hrest⟩)
    exact ⟨a, ha, (acts_copySpecials hknown).bind_fails hfails.bind⟩
  · obtain ⟨a, ha, hfails⟩ := exists_fails_copySpecials hknown
    exact ⟨a, ha, hfails.bind⟩

section Stages

variable (h : w.Joinable p q P Q) (kept : Option Side)

include h

omit kept in
/-- The labels that transitions name are those that their copies name. -/
lemma Joinable.labelsCopied_iff : (∀ t ∈ w.transitionsOf P ++ w.transitionsOf Q,
      ∀ a ∈ t.copied.symbols, a ∈ symbols) ↔
    ∀ t ∈ w.transitionsOf P ++ w.transitionsOf Q, ∀ a ∈ t.symbols, a ∈ symbols := by
  refine forall₂_congr fun t ht => ?_
  rcases List.mem_append.mp ht with ht | ht
  · rw [h.whole_first.symbols_copied ht]
  · rw [h.whole_second.symbols_copied ht]

lemma Joinable.exists_acts_specials (hsymbols : ∀ x ∈ P.specials ++ Q.specials, x.2 ∈ symbols) :
    ∃ b, Acts r (bringSpecials (kept = some .first) r symbols P) (w.lettered kept P Q) () b ∧
      Acts r (bringSpecials (kept = some .second) r symbols Q) b () (w.titled kept P Q) := by
  obtain ⟨hP, hQ⟩ := List.forall_mem_append.mp hsymbols
  obtain ⟨hfirst, hsecond⟩ := h.specials_nodup kept
  exact ⟨_, acts_bringSpecials _ hP fun hk => hfirst (of_decide_eq_false hk),
    acts_bringSpecials _ hQ fun hk => hsecond (of_decide_eq_false hk)⟩

lemma Joinable.exists_acts_locations :
    ∃ b, Acts r (bringLocations (kept = some .first) r P) (w.titled kept P Q)
        (P.locations.map fun l => (l, w.moveFirst kept P l)) b ∧
      Acts r (bringLocations (kept = some .second) r Q) b
        (Q.locations.map fun l => (l, w.moveSecond kept P Q l)) (w.placed kept P Q) := by
  let b : Bench := (w.titled kept P Q).withLocations
    (unlessKept (kept = some .first) (P.locations.map w.name))
    (unlessKept (kept = some .first) (P.locations.map (w.moveFirst kept P)))
  have hnames : Q.locations.map (b.names.getD · .missing) = Q.locations.map w.name :=
    List.map_congr_left fun l hl => getD_namesBetween (h.whole_second.named l hl)
  have hacts := acts_bringLocations (r := r) (b := b) (kept = some .second)
    (fun l hl => h.whole_second.lt_namesBetween hl) h.whole_second.locations_nodup
  rw [hnames] at hacts
  exact ⟨b, acts_bringLocations _ h.whole_first.named h.whole_first.locations_nodup, hacts⟩

/-- The moves know the ends of all transitions. -/
lemma Joinable.endsKnown :
    (∀ t ∈ w.transitionsOf P, EndsKnown (w.bothMoves kept P Q) (w.moveFirst kept P) t) ∧
      ∀ t ∈ w.transitionsOf Q, EndsKnown (w.bothMoves kept P Q) (w.moveSecond kept P Q) t := by
  obtain ⟨hfirst, hsecond⟩ := h.get?_bothMoves kept
  have hP := h.whole_first
  have hQ := h.whole_second
  exact ⟨fun t ht => ⟨hfirst _ (hP.source_mem t ht), hfirst _ (hP.target_mem t ht)⟩,
    fun t ht => ⟨hsecond _ (hQ.source_mem t ht), hsecond _ (hQ.target_mem t ht)⟩⟩

/-- The transitions of both automata are brought, and one from the end of the first automaton to the
start of the second one. -/
lemma Joinable.exists_acts_transitions (hsymbols : ∀ t ∈ w.transitionsOf P ++ w.transitionsOf Q,
      ∀ a ∈ t.copied.symbols, a ∈ symbols) :
    ∃ b c i, Acts r (bringTransitions (kept = some .first) r symbols (w.bothMoves kept P Q) P)
        (w.placed kept P Q) () b ∧
      Acts r (bringTransitions (kept = some .second) r symbols (w.bothMoves kept P Q) Q) b () c ∧
      Acts r (addTransition r (.plain (w.moveFirst kept P (w.automaton P).final)
        (w.moveSecond kept P Q (w.automaton Q).initial) .any .noop)) c i (w.wired kept P Q) := by
  obtain ⟨hsymbols₁, hsymbols₂⟩ := List.forall_mem_append.mp hsymbols
  obtain ⟨hends₁, hends₂⟩ := h.endsKnown kept
  let b : Bench := (w.placed kept P Q).withTransitions (unlessKept (kept = some .first)
    ((w.transitionsOf P).map (copyAlong (w.moveFirst kept P))))
  let c : Bench := b.withTransitions (unlessKept (kept = some .second)
    ((w.transitionsOf Q).map (copyAlong (w.moveSecond kept P Q))))
  have hglue := acts_addTransition (r := r) (b := c) (.plain
    (w.moveFirst kept P (w.automaton P).final) (w.moveSecond kept P Q (w.automaton Q).initial)
    .any .noop)
  refine ⟨b, c, c.made.length, acts_bringTransitions _ rfl hends₁ hsymbols₁,
    acts_bringTransitions _ (filterMap_made_append h.whole_second.made) hends₂ hsymbols₂, ?_⟩
  simpa [b, c, wired, Bench.withTransitions, addedTransitions] using hglue

lemma Joinable.acts_ends :
    Acts r (bringEnds kept r (w.bothMoves kept P Q) P Q) (w.wired kept P Q) ()
      (w.joined kept P Q) := by
  obtain ⟨hfirst, hsecond⟩ := h.get?_bothMoves kept
  refine acts_bringEnds (b := w.wired kept P Q) h.whole_first.initial_eq h.whole_second.final_eq
    (hfirst _ h.whole_first.ownEnds.initial_mem) (hsecond _ h.whole_second.ownEnds.final_mem)
    ?_ ?_ ?_
  · rintro rfl
    exact h.whole_first.initial_eq
  · rintro rfl
    exact h.whole_second.final_eq
  · rintro rfl
    exact ⟨rfl, rfl⟩

/-- **What joining does**, whichever automaton is kept. -/
lemma acts_joinInto (hknown : w.LabelsKnown P Q) :
    Acts r (joinInto kept r P Q) (w.bench (keptPiece P Q kept)) r (w.joined kept P Q) := by
  obtain ⟨hfirst, hsecond⟩ := h.get?_bothMoves kept
  obtain ⟨_, hspecials₁, hspecials₂⟩ := h.exists_acts_specials (r := r) kept hknown.specials
  obtain ⟨_, hlocations₁, hlocations₂⟩ := h.exists_acts_locations (r := r) kept
  obtain ⟨_, c, _, htransitions₁, htransitions₂, hglue⟩ :=
    h.exists_acts_transitions (r := r) kept (h.labelsCopied_iff.mpr hknown.transitions)
  have hsymbols : Acts r ((P.symbols ++ Q.symbols).forM (addSymbol r))
    (w.bench (keptPiece P Q kept)) () (w.lettered kept P Q) := acts_addSymbols _
  have hsource : Acts r (moved (w.bothMoves kept P Q) P.final) c
      (w.moveFirst kept P (w.automaton P).final) c := by
    rw [h.whole_first.final_eq]
    exact acts_moved (hfirst _ h.whole_first.ownEnds.final_mem)
  have htarget : Acts r (moved (w.bothMoves kept P Q) Q.initial) c
      (w.moveSecond kept P Q (w.automaton Q).initial) c := by
    rw [h.whole_second.initial_eq]
    exact acts_moved (hsecond _ h.whole_second.ownEnds.initial_mem)
  exact hsymbols.bind (hspecials₁.bind (hspecials₂.bind (hlocations₁.bind (hlocations₂.bind
    (htransitions₁.bind (htransitions₂.bind (hsource.bind (htarget.bind (hglue.bind
    ((h.acts_ends kept).bind (acts_pure r)))))))))))

omit kept in
/-- Where both automata are copied, a transition with a label that is no symbol stops it. -/
lemma Joinable.exists_fails_transitions {α : Type} {x : Work α}
    (hsymbols : ¬ ∀ t ∈ w.transitionsOf P ++ w.transitionsOf Q, ∀ a ∈ t.copied.symbols,
      a ∈ symbols) :
    ∃ a ∉ symbols, Fails r (do
      copyTransitions r symbols (w.bothMoves none P Q) P
      copyTransitions r symbols (w.bothMoves none P Q) Q
      x) (w.placed none P Q) (.unknownName (some a)) := by
  obtain ⟨hends₁, hends₂⟩ := h.endsKnown none
  let b : Bench := w.placed none P Q
  have hts₁ : P.transitions.filterMap (b.made[·]?) = w.transitionsOf P := rfl
  by_cases hknown : ∀ t ∈ w.transitionsOf P, ∀ a ∈ t.copied.symbols, a ∈ symbols
  · let c : Bench := b.withTransitions ((w.transitionsOf P).map (copyAlong (w.moveFirst none P)))
    have hts₂ : Q.transitions.filterMap (c.made[·]?) = w.transitionsOf Q :=
      filterMap_made_append h.whole_second.made
    obtain ⟨a, ha, hfails⟩ := exists_fails_copyTransitions (r := r) hts₂ hends₂
      fun hrest => hsymbols (List.forall_mem_append.mpr ⟨hknown, hrest⟩)
    exact ⟨a, ha, (acts_copyTransitions hts₁ hends₁ hknown).bind_fails hfails.bind⟩
  · obtain ⟨a, ha, hfails⟩ := exists_fails_copyTransitions (r := r) hts₁ hends₁ hknown
    exact ⟨a, ha, hfails.bind⟩

omit kept in
/-- **Joining fails** where both automata are copied and a label is no symbol of them. -/
lemma exists_fails_joinInto (hknown : ¬ w.LabelsKnown P Q) :
    ∃ a ∉ P.symbols ++ Q.symbols,
      Fails r (joinInto none r P Q) (w.bench blank) (.unknownName (some a)) := by
  have hsymbols : Acts r ((P.symbols ++ Q.symbols).forM (addSymbol r)) (w.bench blank) ()
    (w.lettered none P Q) := acts_addSymbols _
  by_cases hspecials : ∀ x ∈ P.specials ++ Q.specials, x.2 ∈ P.symbols ++ Q.symbols
  · obtain ⟨_, hspecials₁, hspecials₂⟩ := h.exists_acts_specials (r := r) none hspecials
    obtain ⟨_, hlocations₁, hlocations₂⟩ := h.exists_acts_locations (r := r) none
    obtain ⟨a, ha, hfails⟩ := h.exists_fails_transitions (r := r)
      fun hcopied => hknown ⟨hspecials, h.labelsCopied_iff.mp hcopied⟩
    exact ⟨a, ha, hsymbols.bind_fails (hspecials₁.bind_fails (hspecials₂.bind_fails
      (hlocations₁.bind_fails (hlocations₂.bind_fails hfails))))⟩
  · obtain ⟨a, ha, hfails⟩ := exists_fails_specials (r := r) hspecials
    exact ⟨a, ha, hsymbols.bind_fails hfails⟩

end Stages

/-! ### The whole is one automaton behind the other -/

/-- What is kept and what is added, in some order. -/
lemma perm_parts {α : Type} {base xs ys : List α} (hfirst : kept = some .first → base = xs)
    (hsecond : kept = some .second → base = ys) (hnone : kept = none → base = []) :
    (base ++ unlessKept (kept = some .first) xs ++ unlessKept (kept = some .second) ys).Perm
      (xs ++ ys) := by
  rcases kept with _ | _ | _
  · rw [hnone rfl]
    exact .refl _
  · simp [hfirst rfl, unlessKept]
  · rw [hsecond rfl]
    simpa [unlessKept] using List.perm_append_comm

lemma mem_foldl_noted {symbols as : List String} {a : String} :
    a ∈ as.foldl noted symbols ↔ a ∈ symbols ∨ a ∈ as := by
  induction as generalizing symbols with
  | nil => simp
  | cons c as ih =>
      have hnoted : a ∈ noted symbols c ↔ a ∈ symbols ∨ a = c := by
        rw [noted]
        split
        · rename_i hc
          exact ⟨.inl, fun h => h.elim id fun h => h ▸ List.contains_iff_mem.mp hc⟩
        · simp
      rw [List.foldl_cons, ih, hnoted, List.mem_cons, or_assoc]

lemma nodup_foldl_noted {symbols as : List String} (h : symbols.Nodup) :
    (as.foldl noted symbols).Nodup := by
  induction as generalizing symbols with
  | nil => exact h
  | cons c as ih =>
      refine ih ?_
      rw [noted]
      split
      · exact h
      · rename_i hc
        rw [List.contains_iff_mem] at hc
        exact List.nodup_append'.mpr ⟨h, List.nodup_singleton c, by simpa using hc⟩

lemma place_injOn {k : Bool} {n : Nat} {ls : List Nat} :
    Set.InjOn (place k n ls) {l | l ∈ ls} := by
  intro l hl m _ heq
  cases k with
  | true => exact heq
  | false => exact (List.idxOf_inj hl).mp (Nat.add_left_cancel heq)

/-- Locations of the two automata do not become one. -/
lemma Joinable.moveFirst_ne (h : w.Joinable p q P Q) (kept : Option Side) {l m : Nat}
    (hl : l ∈ P.locations) (hm : m ∈ Q.locations) :
    w.moveFirst kept P l ≠ w.moveSecond kept P Q m := by
  have hln := h.whole_first.named l hl
  have hmn := h.whole_second.named m hm
  have hidx := List.idxOf_lt_length_of_mem hl
  rcases kept with _ | _ | _ <;>
    simp [moveFirst, moveSecond, place, namesBetween, unlessKept] <;> omega

lemma map_unlessKept {α β : Type} (k : Bool) (f : α → β) (as : List α) :
    (unlessKept k as).map f = unlessKept k (as.map f) := by
  cases k <;> rfl

/-- What is to be seen, as a value. -/
def Bench.automaton (b : Bench) : Pda Nat String where
  locations := b.locations
  symbols := b.symbols
  transitions := b.transitions
  specials := b.specials
  initial := b.initial.getD b.names.length
  final := b.final.getD b.names.length

lemma automaton_eq {R : Piece} (h : w.bench R = b) : w.automaton R = b.automaton := by
  subst h
  rfl

/-- Locations that are kept stay the same. -/
lemma moveFirst_kept : w.moveFirst (some .first) P = id := rfl

lemma moveSecond_kept : w.moveSecond (some .second) P Q = id := rfl

/-- Copies of transitions that do not fire on sets differ in comments and ends only. -/
lemma Whole.withoutComments_copyAlong (h : w.Whole P) {t : Transition Nat String}
    (ht : t ∈ w.transitionsOf P) : (copyAlong id t).withoutComments = t.withoutComments := by
  have hinput : t.copied.input = t.input := Transition.input_copied (h.plain t ht)
  simp only [copyAlong, Transition.mapLocations, Transition.withoutComments, hinput]
  rfl

lemma Joinable.perm_transitions (h : w.Joinable p q P Q) (kept : Option Side) :
    ((w.joined kept P Q).transitions.map Transition.withoutComments).Perm
      (((w.transitionsOf P).map (copyAlong (w.moveFirst kept P)) ++
        (w.transitionsOf Q).map (copyAlong (w.moveSecond kept P Q)) ++
        [Transition.plain (w.moveFirst kept P (w.automaton P).final)
          (w.moveSecond kept P Q (w.automaton Q).initial) .any .noop]).map
        Transition.withoutComments) := by
  simp only [joined, addedTransitions, ← List.append_assoc, List.map_append, map_unlessKept]
  refine List.Perm.append_right _ (perm_parts ?_ ?_ ?_)
  · rintro rfl
    rw [moveFirst_kept, List.map_map]
    exact List.map_congr_left fun t ht => (h.whole_first.withoutComments_copyAlong ht).symm
  · rintro rfl
    rw [moveSecond_kept, List.map_map]
    exact List.map_congr_left fun t ht => (h.whole_second.withoutComments_copyAlong ht).symm
  · rintro rfl
    rfl

/-- **The whole** is the second automaton behind the first one, whichever automaton is kept. -/
lemma Joinable.alike_joined (h : w.Joinable p q P Q) (kept : Option Side) :
    Pda.Alike (Sum.elim (w.moveFirst kept P) (w.moveSecond kept P Q))
      (Pda.concat none (w.automaton P) (w.automaton Q)) (w.joined kept P Q).automaton where
  injOn := by
    rintro (l | l) hl (m | m) hm heq <;>
      simp only [Pda.concat, Set.mem_ofPred_eq, List.mem_append, List.mem_map, Sum.inl.injEq,
        Sum.inr.injEq, exists_eq_right, reduceCtorEq, and_false, exists_false, or_false,
        false_or] at hl hm
    · exact congrArg Sum.inl (place_injOn hl hm heq)
    · exact absurd heq (h.moveFirst_ne kept hl hm)
    · exact absurd heq.symm (h.moveFirst_ne kept hm hl)
    · exact congrArg Sum.inr (place_injOn hl hm heq)
  locations := by
    simp only [Pda.concat, List.map_append, List.map_map]
    refine perm_parts ?_ ?_ ?_
    · rintro rfl
      exact (List.map_id _).symm
    · rintro rfl
      exact (List.map_id _).symm
    · rintro rfl
      rfl
  symbols := by
    refine (List.perm_ext_iff_of_nodup (nodup_foldl_noted ?_) (Text.nodup_distinct _)).mpr
      fun a => ?_
    · rcases kept with _ | _ | _
      · exact List.nodup_nil
      · exact h.whole_first.symbols_nodup
      · exact h.whole_second.symbols_nodup
    · rw [mem_foldl_noted, Text.mem_distinct]
      refine or_iff_right_of_imp fun ha => ?_
      rcases kept with _ | _ | _
      · exact absurd ha List.not_mem_nil
      · exact List.mem_append_left _ ha
      · exact List.mem_append_right _ ha
  specials := by
    have hnodup := (h.specials_nodup none).2 (by simp)
    have hspecials : (Pda.concat none (w.automaton P) (w.automaton Q)).specials =
        P.specials ++ Q.specials := Dictionary.putAll_eq_append hnodup
    rw [hspecials]
    refine perm_parts ?_ ?_ ?_ <;> (rintro rfl; rfl)
  transitions := by
    refine (h.perm_transitions kept).trans (List.Perm.of_eq ?_)
    simp only [Pda.concat, Pda.copiedUnless, reduceCtorEq, decide_false, Bool.false_eq_true,
      if_false, List.map_append, List.map_map]
    rfl
  initial_eq := rfl
  final_eq := rfl

/-- Wherever a location gets to, it has its name there. -/
lemma getD_place {k : Bool} {names rest : List LocationName} {ls : List Nat} {l : Nat}
    {name : Nat → LocationName} (hl : l ∈ ls) (hlt : l < names.length)
    (hname : names.getD l .missing = name l) :
    (names ++ unlessKept k (ls.map name) ++ rest).getD (place k names.length ls l) .missing =
      name l := by
  cases k with
  | true =>
      rw [← hname]
      simp [place, unlessKept, List.getD_eq_getElem?_getD, List.getElem?_append_left hlt]
  | false =>
      have hidx := List.idxOf_lt_length_of_mem hl
      have hplace : names.length + ls.idxOf l < (names ++ ls.map name).length := by
        rw [List.length_append, List.length_map]
        exact Nat.add_lt_add_left hidx _
      simp only [place, unlessKept, Bool.false_eq_true, if_false, List.getD_eq_getElem?_getD]
      rw [List.getElem?_append_left hplace, List.getElem?_append_right (Nat.le_add_right _ _)]
      simp [List.getElem?_idxOf hl]

/-- **Joining** makes the second automaton behind the first one, over locations of the same
names. -/
lemma Joinable.exists_join (h : w.Joinable p q P Q) (hknown : w.LabelsKnown P Q)
    (takeOver : Bool) :
    ∃ r w' R f, (join takeOver p q).run.run w = (.ok r, w') ∧ w'.pieces[r]? = some R ∧
      Pda.Alike f (Pda.concat none (w.automaton P) (w.automaton Q)) (w'.automaton R) ∧
      (∀ l ∈ P.locations, w'.name (f (.inl l)) = w.name l) ∧
      ∀ l ∈ Q.locations, w'.name (f (.inr l)) = w.name l := by
  obtain ⟨kept, r, w₀, -, hrun, hw₀⟩ := exists_run_join h takeOver
  obtain ⟨w', hrun', R, hR, -, hbench⟩ := acts_joinInto h kept hknown w₀ hw₀
  have hnames : w'.names = (w.joined kept P Q).names := congrArg Bench.names hbench
  refine ⟨r, w', R, _, hrun.trans hrun', hR, automaton_eq hbench ▸ h.alike_joined kept,
    fun l hl => ?_, fun l hl => ?_⟩
  · rw [name, hnames]
    exact getD_place hl (h.whole_first.named l hl) rfl
  · rw [name, hnames]
    rw [← List.append_nil (w.joined kept P Q).names]
    exact getD_place hl (h.whole_second.lt_namesBetween hl)
      (getD_namesBetween (h.whole_second.named l hl))

/-- **It does not matter whether an automaton is taken over.** Let two automata have no common
locations and special names. If all their labels are symbols of one of them, they are joined without
a failure both if the larger one is taken over and if both are copied. The results are alike, over
locations of the same names, and each of them does what the first automaton does and then what the
second one does, with a symbol on the stack in between. Otherwise copying both fails, at a label
that is no symbol of them. -/
theorem join_alike (w : Workshop) (p q : Nat) (P Q : Piece) (h : w.Joinable p q P Q) :
    (w.LabelsKnown P Q → ∃ r w₁ R s w₂ S,
      (join true p q).run.run w = (.ok r, w₁) ∧ w₁.pieces[r]? = some R ∧
      (join false p q).run.run w = (.ok s, w₂) ∧ w₂.pieces[s]? = some S ∧
      (∃ f, Pda.Alike f (w₁.automaton R) (w₂.automaton S) ∧
        ∀ l ∈ R.locations, w₂.name (f l) = w₁.name l) ∧
      ∀ v x,
        ((w₁.automaton R).Yields v x ↔
          ∃ u, u ≠ [] ∧ (w.automaton P).Yields v u ∧ (w.automaton Q).Yields u x) ∧
        ((w₂.automaton S).Yields v x ↔
          ∃ u, u ≠ [] ∧ (w.automaton P).Yields v u ∧ (w.automaton Q).Yields u x)) ∧
    (¬ w.LabelsKnown P Q → ∃ a w', a ∉ P.symbols ++ Q.symbols ∧
      (join false p q).run.run w = (.error (.unknownName (some a)), w')) := by
  refine ⟨fun hknown => ?_, fun hknown => ?_⟩
  · obtain ⟨r, w₁, R, f₁, hrun₁, hR, halike₁, hfirst₁, hsecond₁⟩ := h.exists_join hknown true
    obtain ⟨s, w₂, S, f₂, hrun₂, hS, halike₂, hfirst₂, hsecond₂⟩ := h.exists_join hknown false
    have hends := Pda.ownEnds_concat h.whole_first.ownEnds h.whole_second.ownEnds
    refine ⟨r, w₁, R, s, w₂, S, hrun₁, hR, hrun₂, hS, ?_, fun v x => ⟨?_, ?_⟩⟩
    · obtain ⟨g, hg, hback⟩ := halike₁.symm hends
      refine ⟨f₂ ∘ g, hg.trans halike₂, fun m hm => ?_⟩
      obtain ⟨l, hl, rfl⟩ := halike₁.mem_locations_iff.mp hm
      rw [Function.comp_apply, hback l hl]
      rcases List.mem_append.mp hl with hl | hl
      · obtain ⟨l', hl', rfl⟩ := List.mem_map.mp hl
        rw [hfirst₁ l' hl', hfirst₂ l' hl']
      · obtain ⟨l', hl', rfl⟩ := List.mem_map.mp hl
        rw [hsecond₁ l' hl', hsecond₂ l' hl']
    · rw [halike₁.yields_iff hends]
      exact Pda.yields_concat_iff h.whole_first.plain h.whole_second.plain
    · rw [halike₂.yields_iff hends]
      exact Pda.yields_concat_iff h.whole_first.plain h.whole_second.plain
  · obtain ⟨kept, r, w₀, hkept, hrun, hw₀⟩ := exists_run_join h false
    obtain rfl := hkept rfl
    obtain ⟨a, ha, hfails⟩ := exists_fails_joinInto h hknown
    obtain ⟨w', hrun'⟩ := hfails w₀ hw₀
    exact ⟨a, w', ha, hrun.trans hrun'⟩

/-- An automaton that pushes a label, and a larger one that pops what is on top. -/
def pushAndPop : Workshop where
  names := [.text "p", .text "p'", .text "q", .text "q'"]
  transitions :=
    [.plain 0 1 (.on "a") (.push "b"), .plain 2 3 .any .pop, .plain 3 2 (.on "b") .noop]
  pieces := [⟨[0, 1], ["a", "b"], [0], [("start", "a")], some 0, some 1⟩,
    ⟨[2, 3], ["b"], [1, 2], [("end", "b")], some 2, some 3⟩]

/-- The automaton that pushes a label. -/
def pushing : Piece := ⟨[0, 1], ["a", "b"], [0], [("start", "a")], some 0, some 1⟩

/-- The automaton that pops what is on top. -/
def popping : Piece := ⟨[2, 3], ["b"], [1, 2], [("end", "b")], some 2, some 3⟩

lemma joinable_pushAndPop : pushAndPop.Joinable 0 1 pushing popping where
  first := rfl
  second := rfl
  whole_first := ⟨by decide, by decide, by decide, by decide, by decide, ⟨0, by decide, rfl⟩,
    ⟨1, by decide, rfl⟩, by decide, by decide, by
      simp [Pda.Plain, automaton, view, transitionsOf, pushAndPop, pushing, Transition.plain]⟩
  whole_second := ⟨by decide, by decide, by decide, by decide, by decide, ⟨2, by decide, rfl⟩,
    ⟨3, by decide, rfl⟩, by decide, by decide, by
      simp [Pda.Plain, automaton, view, transitionsOf, pushAndPop, popping, Transition.plain]⟩
  locations_disjoint := by simp [pushing, popping]
  specials_disjoint := by simp [pushing, popping]

lemma labelsKnown_pushAndPop : pushAndPop.LabelsKnown pushing popping where
  specials := by decide
  transitions := by decide

/-- The larger automaton is taken over, and the whole pushes and pops. -/
theorem join_alike_pushAndPop : ∃ w₁ R s w₂ S f,
    (join true 0 1).run.run pushAndPop = (.ok 1, w₁) ∧ w₁.pieces[1]? = some R ∧
    (join false 0 1).run.run pushAndPop = (.ok s, w₂) ∧ w₂.pieces[s]? = some S ∧
    Pda.Alike f (w₁.automaton R) (w₂.automaton S) ∧ (w₁.automaton R).Yields ["a"] ["a"] := by
  obtain ⟨r, w₁, R, s, w₂, S, hrun₁, hR, hrun₂, hS, ⟨f, hf, -⟩, hyields⟩ :=
    (join_alike pushAndPop 0 1 pushing popping joinable_pushAndPop).1 labelsKnown_pushAndPop
  have hsecond : ((join true 0 1).run.run pushAndPop).1 = .ok 1 := rfl
  obtain rfl : r = 1 := Except.ok.inj ((congrArg Prod.fst hrun₁).symm.trans hsecond)
  refine ⟨w₁, R, s, w₂, S, f, hrun₁, hR, hrun₂, hS, hf,
    (hyields _ _).1.mpr ⟨["b", "a"], List.cons_ne_nil _ _, ?_, ?_⟩⟩
  · exact (Pda.step_of_mem (t := .plain 0 1 (.on "a") (.push "b")) (by decide) rfl []).reaches
  · exact (Pda.step_of_mem (t := .plain 2 3 .any .pop) (by decide) rfl ["a"]).reaches

/-- Two automata that do nothing. -/
def standing : Workshop where
  names := [.text "p", .text "q"]
  transitions := []
  pieces := [⟨[0], ["a"], [], [], some 0, some 0⟩, ⟨[1], ["a"], [], [], some 1, some 1⟩]

/-- An automaton that pushes a label which it does not have among its symbols, and one that does
nothing. -/
def unlettered : Workshop where
  names := [.text "p", .text "p'", .text "q"]
  transitions := [.plain 0 1 (.on "a") (.push "c")]
  pieces := [⟨[0, 1], ["a"], [0], [], some 0, some 1⟩, ⟨[2], ["a"], [], [], some 2, some 2⟩]

/-- An automaton that fires on a set of tops, and one that does nothing. -/
def choosing : Workshop where
  names := [.text "p", .text "p'", .text "q"]
  transitions := [⟨0, 1, .among ["b"], .noop, none, none, []⟩]
  pieces := [⟨[0, 1], ["a", "b"], [0], [], some 0, some 1⟩, ⟨[2], ["a"], [], [], some 2, some 2⟩]

/-- Two automata that have nothing to do to an empty stack do not have that in common with the one
behind the other. A label that is no symbol is passed over when the automaton with it is taken over,
and stops the work when it is copied. And a set of tops is lost when the first automaton is copied:
the whole then lets a label through that it stops if the automaton is taken over. -/
theorem join_unlike :
    (∃ P Q w' R, standing.pieces = [P, Q] ∧
      (join false 0 1).run.run standing = (.ok 2, w') ∧ w'.pieces[2]? = some R ∧
      (standing.automaton P).Yields [] [] ∧ (standing.automaton Q).Yields [] [] ∧
      ¬ (w'.automaton R).Yields [] []) ∧
    (∃ w₁ w₂, (join true 0 1).run.run unlettered = (.ok 0, w₁) ∧
      (join false 0 1).run.run unlettered = (.error (.unknownName (some "c")), w₂)) ∧
    ∃ w₁ R w₂ S, (join true 0 1).run.run choosing = (.ok 0, w₁) ∧ w₁.pieces[0]? = some R ∧
      (join false 0 1).run.run choosing = (.ok 2, w₂) ∧ w₂.pieces[2]? = some S ∧
      ¬ (w₁.automaton R).Yields ["a"] ["a"] ∧ (w₂.automaton S).Yields ["a"] ["a"] := by
  obtain ⟨w₁, R, hrun₁, hR, htaken⟩ : ∃ w₁ R, (join true 0 1).run.run choosing = (.ok 0, w₁) ∧
      w₁.pieces[0]? = some R ∧ w₁.automaton R = ⟨[0, 1, 3], ["a", "b"],
        [⟨0, 1, .among ["b"], .noop, none, none, []⟩, .plain 1 3 .any .noop], [], 0, 3⟩ :=
    ⟨_, _, rfl, rfl, rfl⟩
  obtain ⟨w₂, S, hrun₂, hS, hcopied⟩ : ∃ w₂ S, (join false 0 1).run.run choosing = (.ok 2, w₂) ∧
      w₂.pieces[2]? = some S ∧ w₂.automaton S = ⟨[3, 4, 5], ["a", "b"],
        [.plain 3 4 .any .noop, .plain 4 5 .any .noop], [], 3, 5⟩ :=
    ⟨_, _, rfl, rfl, rfl⟩
  refine ⟨⟨_, _, _, _, rfl, rfl, rfl, .refl _, .refl _, fun h => ?_⟩, ⟨_, _, rfl, rfl⟩,
    w₁, R, w₂, S, hrun₁, hR, hrun₂, hS, fun h => ?_, ?_⟩
  · have hstill := Pda.Reaches.eq_of_not_step h fun d hd => by
      obtain ⟨t, ht, a, v, ha, hc, -⟩ := Pda.step_iff.mp hd
      exact absurd (congrArg Config.stack hc) (by simp)
    exact absurd hstill (by decide)
  · rw [htaken] at h
    have hstill := Pda.Reaches.eq_of_not_step h fun d hd => by
      obtain ⟨t, ht, a, v, ha, hc, -⟩ := Pda.step_iff.mp hd
      rcases List.mem_pair.mp ht with rfl | rfl
      · obtain ⟨rfl, -⟩ := List.cons.inj (congrArg Config.stack hc)
        exact absurd ha (by decide)
      · exact absurd (congrArg Config.location hc) (by simp [Transition.plain])
    exact absurd hstill (by decide)
  · rw [hcopied]
    exact (Pda.step_of_mem (t := .plain 3 4 .any .noop) (by decide) rfl []).reaches.tail
      (Pda.step_of_mem (t := .plain 4 5 .any .noop) (by decide) rfl [])

end Workshop

end MplsReach
