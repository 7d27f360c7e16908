/-
Work on one automaton in a workshop.

* `Workshop.Bench`: what there is to see of one automaton: its parts, and all names and transitions
  that were made.
* `Workshop.Acts`: work that ends without a failure wherever the same is to be seen, with the same
  result and the same to be seen afterwards.
* `Workshop.Fails`: work that ends with a failure wherever the same is to be seen.
* `Acts.bind`: one piece of work after the other. One lemma for each piece of work follows.
* `acts_copySpecials`, `acts_copyLocations`, `acts_copyTransitions`: copies of locations get new
  numbers in order, and transitions are copied along with their ends.
* `exists_fails_copySpecials`, `exists_fails_copyTransitions`: nothing with a label that is no symbol
  is copied.
-/
import Mathlib.Data.List.Basic
import MplsReach.Proofs.Results
import MplsReach.Pushdown.Workshop

namespace MplsReach.Workshop

/-- What there is to see of one automaton in a workshop. -/
structure Bench where
  names : List LocationName
  made : List (Transition Nat String)
  locations : List Nat
  symbols : List String
  transitions : List (Transition Nat String)
  specials : List (String × String)
  initial : Option Nat
  final : Option Nat

/-- New locations of the automaton, with their names. -/
def Bench.withLocations (b : Bench) (names : List LocationName) (ls : List Nat) : Bench :=
  { b with names := b.names ++ names, locations := b.locations ++ ls }

/-- New transitions of the automaton. -/
def Bench.withTransitions (b : Bench) (ts : List (Transition Nat String)) : Bench :=
  { b with made := b.made ++ ts, transitions := b.transitions ++ ts }

/-- A copy of a transition that joins what the ends have become. -/
def copyAlong (move : Nat → Nat) (t : Transition Nat String) : Transition Nat String :=
  t.copied.mapLocations move

/-- What there is to see of an automaton. -/
def bench (w : Workshop) (R : Piece) : Bench :=
  ⟨w.names, w.transitions, R.locations, R.symbols, w.transitionsOf R, R.specials, R.initial,
    R.final⟩

/-- The automaton of a number is to be seen, with transitions that were made. -/
def Shows (w : Workshop) (r : Nat) (b : Bench) : Prop :=
  ∃ R, w.pieces[r]? = some R ∧ (∀ i ∈ R.transitions, i < w.transitions.length) ∧ w.bench R = b

/-- Work that ends without a failure, with a result and something to see afterwards that depend on
what is to be seen before. -/
def Acts {α : Type} (r : Nat) (x : Work α) (b : Bench) (a : α) (b' : Bench) : Prop :=
  ∀ w : Workshop, w.Shows r b → ∃ w', x.run.run w = (.ok a, w') ∧ w'.Shows r b'

/-- Work that ends with a failure, wherever the same is to be seen before. -/
def Fails {α : Type} (r : Nat) (x : Work α) (b : Bench) (e : Fault) : Prop :=
  ∀ w : Workshop, w.Shows r b → ∃ w', x.run.run w = (.error e, w')

variable {α β : Type} {r : Nat} {x : Work α} {f : α → Work β} {b b' b'' : Bench} {w w' : Workshop}
  {e : Fault}

lemma Bench.withLocations_nil (b : Bench) : b.withLocations [] [] = b := by
  simp [withLocations]

lemma Bench.withLocations_cons (b : Bench) (name : LocationName) (names : List LocationName)
    (l : Nat) (ls : List Nat) : b.withLocations (name :: names) (l :: ls) =
      (b.withLocations [name] [l]).withLocations names ls := by
  simp [withLocations]

lemma Bench.withTransitions_nil (b : Bench) : b.withTransitions [] = b := by
  simp [withTransitions]

lemma Bench.withTransitions_cons (b : Bench) (t : Transition Nat String)
    (ts : List (Transition Nat String)) :
    b.withTransitions (t :: ts) = (b.withTransitions [t]).withTransitions ts := by
  simp [withTransitions]

/-! ### Work in general -/

lemma run_bind_of_ok {a : α} (h : x.run.run w = (.ok a, w')) :
    (x >>= f).run.run w = (f a).run.run w' := by
  rw [ExceptT.run_bind, StateT.run_bind, h]
  rfl

lemma acts_pure (a : α) : Acts r (pure a) b a b := fun w hw => ⟨w, rfl, hw⟩

lemma Acts.bind {a : α} {c : β} (hx : Acts r x b a b') (hf : Acts r (f a) b' c b'') :
    Acts r (x >>= f) b c b'' := by
  intro w hw
  obtain ⟨w', hrun, hw'⟩ := hx w hw
  obtain ⟨w'', hrun', hw''⟩ := hf w' hw'
  exact ⟨w'', (run_bind_of_ok hrun).trans hrun', hw''⟩

/-- Nothing is done after a failure. -/
lemma Fails.bind (hx : Fails r x b e) : Fails r (x >>= f) b e := by
  intro w hw
  obtain ⟨w', hrun⟩ := hx w hw
  refine ⟨w', ?_⟩
  rw [ExceptT.run_bind, StateT.run_bind, hrun]
  rfl

lemma Acts.bind_fails {a : α} (hx : Acts r x b a b') (hf : Fails r (f a) b' e) :
    Fails r (x >>= f) b e := by
  intro w hw
  obtain ⟨w', hrun, hw'⟩ := hx w hw
  obtain ⟨w'', hrun'⟩ := hf w' hw'
  exact ⟨w'', (run_bind_of_ok hrun).trans hrun'⟩

/-- Work that starts with a look around. -/
lemma acts_get_bind {f : Workshop → Work β} {c : β}
    (h : ∀ w : Workshop, w.Shows r b → Acts r (f w) b c b') : Acts r (get >>= f) b c b' := by
  intro w hw
  obtain ⟨w', hrun, hw'⟩ := h w hw w hw
  exact ⟨w', hrun, hw'⟩

lemma fails_get_bind {f : Workshop → Work β}
    (h : ∀ w : Workshop, w.Shows r b → Fails r (f w) b e) : Fails r (get >>= f) b e :=
  fun w hw => h w hw w hw

lemma Shows.names_eq (h : w.Shows r b) : w.names = b.names := by
  obtain ⟨R, -, -, rfl⟩ := h
  rfl

lemma Shows.made_eq (h : w.Shows r b) : w.transitions = b.made := by
  obtain ⟨R, -, -, rfl⟩ := h
  rfl

/-! ### Parts of an automaton -/

/-- A part of the automaton is changed, but not its transitions. -/
lemma acts_modifyPiece {g : Piece → Piece} {h : Bench → Bench}
    (hg : ∀ R, (g R).transitions = R.transitions)
    (hh : ∀ (w : Workshop) R, w.bench (g R) = h (w.bench R)) :
    Acts r (modifyPiece r g) b () (h b) := by
  rintro w ⟨R, hR, hlt, rfl⟩
  refine ⟨{ w with pieces := w.pieces.modify r g }, rfl, g R, ?_, ?_, hh w R⟩
  · simp [hR]
  · rwa [hg]

/-- A symbol, behind those that are there, unless it is one of them. -/
def noted (symbols : List String) (a : String) : List String :=
  if symbols.contains a then symbols else symbols ++ [a]

lemma acts_addSymbol (a : String) :
    Acts r (addSymbol r a) b () { b with symbols := noted b.symbols a } := by
  refine acts_modifyPiece (h := fun b => { b with symbols := noted b.symbols a })
    (fun R => ?_) (fun w R => ?_)
  · split <;> rfl
  · rw [bench, bench, noted]
    split <;> rfl

lemma acts_setSpecial (key a : String) :
    Acts r (setSpecial r key a) b ()
      { b with specials := Dictionary.put Prod.fst (key, a) b.specials } :=
  acts_modifyPiece
    (h := fun b => { b with specials := Dictionary.put Prod.fst (key, a) b.specials })
    (fun _ => rfl) (fun _ _ => rfl)

lemma acts_clearInitial :
    Acts r (modifyPiece r fun s => { s with initial := none }) b () { b with initial := none } :=
  acts_modifyPiece (h := fun b => { b with initial := none }) (fun _ => rfl) (fun _ _ => rfl)

lemma acts_clearFinal :
    Acts r (modifyPiece r fun s => { s with final := none }) b () { b with final := none } :=
  acts_modifyPiece (h := fun b => { b with final := none }) (fun _ => rfl) (fun _ _ => rfl)

lemma run_piece {p : Nat} {P : Piece} (h : w.pieces[p]? = some P) :
    (piece p).run.run w = (.ok P, w) := by
  have hget : (get : Work Workshop).run.run w = (.ok w, w) := rfl
  rw [piece, run_bind_of_ok hget, h]
  rfl

/-- An end that is not there yet is set. -/
lemma acts_setOnce {g : Piece → Piece} {h : Bench → Bench} {read : Piece → Option Nat}
    (hg : ∀ R, (g R).transitions = R.transitions)
    (hh : ∀ (w : Workshop) R, w.bench (g R) = h (w.bench R))
    (hread : ∀ (w : Workshop) R, w.bench R = b → read R = none) :
    Acts r (do
      if (read (← piece r)).isSome then throw .setTwice
      modifyPiece r g) b () (h b) := by
  intro w hw
  obtain ⟨R, hR, -, hb⟩ := id hw
  obtain ⟨w', hrun, hw'⟩ := acts_modifyPiece hg hh w hw
  refine ⟨w', ?_, hw'⟩
  rw [run_bind_of_ok (run_piece hR)]
  simpa [hread w R hb] using hrun

lemma acts_setInitial {l : Nat} (h : b.initial = none) :
    Acts r (setInitial r l) b () { b with initial := some l } :=
  acts_setOnce (h := fun b => { b with initial := some l }) (fun _ => rfl) (fun _ _ => rfl)
    fun _ _ hb => (congrArg Bench.initial hb).trans h

lemma acts_setFinal {l : Nat} (h : b.final = none) :
    Acts r (setFinal r l) b () { b with final := some l } :=
  acts_setOnce (h := fun b => { b with final := some l }) (fun _ => rfl) (fun _ _ => rfl)
    fun _ _ hb => (congrArg Bench.final hb).trans h

/-- A new location has the next number. -/
lemma acts_addLocation (name : LocationName) :
    Acts r (addLocation r name) b b.names.length
      (b.withLocations [name] [b.names.length]) := by
  rintro w ⟨R, hR, hlt, rfl⟩
  refine ⟨⟨w.names ++ [name], w.transitions, w.pieces.modify r fun q =>
    { q with locations := q.locations ++ [w.names.length] }⟩, rfl,
    { R with locations := R.locations ++ [w.names.length] }, ?_, hlt, rfl⟩
  simp [hR]

/-- Transitions that were made stay the same when more are made. -/
lemma filterMap_made_append {is : List Nat} {ts us : List (Transition Nat String)}
    (h : ∀ i ∈ is, i < ts.length) :
    is.filterMap ((ts ++ us)[·]?) = is.filterMap (ts[·]?) := by
  refine List.filterMap_congr fun i hi => ?_
  exact List.getElem?_append_left (h i hi)

/-- A new transition. -/
lemma acts_addTransition (t : Transition Nat String) :
    Acts r (addTransition r t) b b.made.length (b.withTransitions [t]) := by
  rintro w ⟨R, hR, hlt, rfl⟩
  refine ⟨⟨w.names, w.transitions ++ [t], w.pieces.modify r fun q =>
    { q with transitions := q.transitions ++ [w.transitions.length] }⟩, rfl,
    { R with transitions := R.transitions ++ [w.transitions.length] }, ?_, ?_, ?_⟩
  · simp [hR]
  · intro i hi
    rw [List.length_append, List.length_singleton]
    rcases List.mem_append.mp hi with hi | hi
    · exact Nat.lt_succ_of_lt (hlt i hi)
    · exact List.mem_singleton.mp hi ▸ Nat.lt_succ_self _
  · simp [bench, transitionsOf, Bench.withTransitions, filterMap_made_append hlt]

/-! ### Many parts -/

lemma acts_addSymbols (as : List String) :
    Acts r (as.forM (addSymbol r)) b () { b with symbols := as.foldl noted b.symbols } := by
  induction as generalizing b with
  | nil => exact acts_pure ()
  | cons a as ih => exact (acts_addSymbol a).bind ih

section Demands

variable {symbols : List String}

lemma acts_demandSymbol {a : String} (h : a ∈ symbols) :
    Acts r (demandSymbol symbols a) b () b := by
  rw [demandSymbol, if_pos (List.contains_iff_mem.mpr h)]
  exact acts_pure ()

lemma fails_demandSymbol {a : String} (h : a ∉ symbols) :
    Fails r (demandSymbol symbols a) b (.unknownName (some a)) := by
  rw [demandSymbol, if_neg (by simpa using h)]
  exact fun w _ => ⟨w, rfl⟩

/-- Work in steps fails at the first step that asks for a label which is no symbol. -/
lemma exists_fails_forM {xs : List α} {step : α → Work Unit} {ok : α → Prop}
    (hacts : ∀ x ∈ xs, ok x → ∀ b, ∃ b', Acts r (step x) b () b')
    (hfails : ∀ x ∈ xs, ¬ ok x → ∀ b, ∃ a ∉ symbols, Fails r (step x) b (.unknownName (some a)))
    (h : ¬ ∀ x ∈ xs, ok x) :
    ∃ a ∉ symbols, Fails r (xs.forM step) b (.unknownName (some a)) := by
  induction xs generalizing b with
  | nil => exact absurd (by simp) h
  | cons x xs ih =>
      obtain ⟨hx, hxs⟩ := List.forall_mem_cons.mp hacts
      obtain ⟨hx', hxs'⟩ := List.forall_mem_cons.mp hfails
      by_cases hok : ok x
      · obtain ⟨b', hstep⟩ := hx hok b
        obtain ⟨a, ha, hrest⟩ := ih (b := b') hxs hxs' fun hall =>
          h (List.forall_mem_cons.mpr ⟨hok, hall⟩)
        exact ⟨a, ha, hstep.bind_fails hrest⟩
      · obtain ⟨a, ha, hstep⟩ := hx' hok b
        exact ⟨a, ha, hstep.bind⟩

lemma acts_demandSymbols {as : List String} (h : ∀ a ∈ as, a ∈ symbols) :
    Acts r (as.forM (demandSymbol symbols)) b () b := by
  induction as with
  | nil => exact acts_pure ()
  | cons a as ih =>
      obtain ⟨ha, has⟩ := List.forall_mem_cons.mp h
      exact (acts_demandSymbol ha).bind (ih has)

lemma exists_fails_demandSymbols {as : List String} (h : ¬ ∀ a ∈ as, a ∈ symbols) :
    ∃ a ∉ symbols, Fails r (as.forM (demandSymbol symbols)) b (.unknownName (some a)) :=
  exists_fails_forM (fun _ _ ha b => ⟨b, acts_demandSymbol ha⟩)
    (fun a _ ha _ => ⟨a, ha, fails_demandSymbol ha⟩) h

lemma acts_copySpecial (key : String) {a : String} (h : a ∈ symbols) :
    Acts r (do demandSymbol symbols a; setSpecial r key a) b ()
      { b with specials := Dictionary.put Prod.fst (key, a) b.specials } :=
  (acts_demandSymbol h).bind (acts_setSpecial key a)

/-- **Special symbols** are taken over as they are. -/
lemma acts_copySpecials {specials : List (String × String)} (h : ∀ x ∈ specials, x.2 ∈ symbols) :
    Acts r (copySpecials r symbols specials) b ()
      { b with specials := Dictionary.putAll Prod.fst b.specials specials } := by
  induction specials generalizing b with
  | nil => exact acts_pure ()
  | cons x specials ih =>
      obtain ⟨hx, hspecials⟩ := List.forall_mem_cons.mp h
      exact (acts_copySpecial x.1 hx).bind (ih hspecials)

/-- Special symbols that are no symbols are not taken over. -/
lemma exists_fails_copySpecials {specials : List (String × String)}
    (h : ¬ ∀ x ∈ specials, x.2 ∈ symbols) :
    ∃ a ∉ symbols, Fails r (copySpecials r symbols specials) b (.unknownName (some a)) :=
  exists_fails_forM (fun x _ hx _ => ⟨_, acts_copySpecial x.1 hx⟩)
    (fun x _ hx _ => ⟨x.2, hx, (fails_demandSymbol hx).bind⟩) h

end Demands

lemma acts_moved {moves : Moves} {l m : Nat}
    (h : Dictionary.get? Prod.fst l moves = some (l, m)) :
    Acts r (moved moves (some l)) b m b := by
  rw [moved, Option.bind_some, h]
  exact acts_pure m

/-- **Copies of locations** get new numbers in order, and the names of the locations. -/
lemma acts_copyLocations {ls : List Nat} (h : ∀ l ∈ ls, l < b.names.length) :
    Acts r (copyLocations r ls) b (ls.zipIdx b.names.length)
      (b.withLocations (ls.map (b.names.getD · .missing))
        (List.range' b.names.length ls.length)) := by
  induction ls generalizing b with
  | nil => exact b.withLocations_nil.symm ▸ acts_pure []
  | cons l ls ih =>
      obtain ⟨-, hls⟩ := List.forall_mem_cons.mp h
      let name := b.names.getD l .missing
      let b₁ := b.withLocations [name] [b.names.length]
      have hfirst : Acts r (do pure (l, ← addLocation r ((← get).name l)) : Work (Nat × Nat)) b
          (l, b.names.length) b₁ := by
        refine acts_get_bind fun w hw => ?_
        have hname : w.name l = name := by rw [Workshop.name, hw.names_eq]
        rw [hname]
        exact (acts_addLocation name).bind (acts_pure _)
      -- names of the locations that are copied later are not affected by the new one
      have hnames : ls.map (b₁.names.getD · .missing) = ls.map (b.names.getD · .missing) := by
        refine List.map_congr_left fun l' hl' => ?_
        simp [b₁, Bench.withLocations, List.getD_eq_getElem?_getD,
          List.getElem?_append_left (hls l' hl')]
      have hlength : b₁.names.length = b.names.length + 1 := by simp [b₁, Bench.withLocations]
      have hrest := ih (b := b₁) fun l' hl' => hlength ▸ Nat.lt_succ_of_lt (hls l' hl')
      rw [hnames, hlength] at hrest
      rw [copyLocations, List.mapM_cons, List.map_cons, List.length_cons, List.range'_succ,
        Bench.withLocations_cons]
      exact hfirst.bind (hrest.bind (acts_pure _))

/-! ### Copies of transitions -/

section Copies

variable {symbols : List String} {moves : Moves} {move : Nat → Nat}
  {t : Transition Nat String} {ts : List (Transition Nat String)}

/-- It is known what the ends of a transition become. -/
def EndsKnown (moves : Moves) (move : Nat → Nat) (t : Transition Nat String) : Prop :=
  Dictionary.get? Prod.fst t.source moves = some (t.source, move t.source) ∧
    Dictionary.get? Prod.fst t.target moves = some (t.target, move t.target)

lemma acts_copyTransition (hends : EndsKnown moves move t)
    (hsymbols : ∀ a ∈ t.copied.symbols, a ∈ symbols) :
    Acts r (copyTransition r symbols moves t) b () (b.withTransitions [copyAlong move t]) :=
  (acts_demandSymbols hsymbols).bind ((acts_moved hends.1).bind ((acts_moved hends.2).bind
    ((acts_addTransition (copyAlong move t)).bind (acts_pure ()))))

lemma acts_copyEach (hends : ∀ t ∈ ts, EndsKnown moves move t)
    (hsymbols : ∀ t ∈ ts, ∀ a ∈ t.copied.symbols, a ∈ symbols) :
    Acts r (ts.forM (copyTransition r symbols moves)) b ()
      (b.withTransitions (ts.map (copyAlong move))) := by
  induction ts generalizing b with
  | nil => exact b.withTransitions_nil.symm ▸ acts_pure ()
  | cons t ts ih =>
      obtain ⟨ht, hts⟩ := List.forall_mem_cons.mp hends
      obtain ⟨has, hrest⟩ := List.forall_mem_cons.mp hsymbols
      rw [List.map_cons, Bench.withTransitions_cons]
      exact (acts_copyTransition ht has).bind (ih hts hrest)

lemma exists_fails_copyEach (hends : ∀ t ∈ ts, EndsKnown moves move t)
    (hsymbols : ¬ ∀ t ∈ ts, ∀ a ∈ t.copied.symbols, a ∈ symbols) :
    ∃ a ∉ symbols,
      Fails r (ts.forM (copyTransition r symbols moves)) b (.unknownName (some a)) := by
  refine exists_fails_forM (fun t ht has _ => ⟨_, acts_copyTransition (hends t ht) has⟩)
    (fun t _ has _ => ?_) hsymbols
  obtain ⟨a, ha, hfails⟩ := exists_fails_demandSymbols has
  exact ⟨a, ha, hfails.bind⟩

/-- **Copies of transitions** join what the ends have become. -/
lemma acts_copyTransitions {q : Piece} (hts : q.transitions.filterMap (b.made[·]?) = ts)
    (hends : ∀ t ∈ ts, EndsKnown moves move t)
    (hsymbols : ∀ t ∈ ts, ∀ a ∈ t.copied.symbols, a ∈ symbols) :
    Acts r (copyTransitions r symbols moves q) b ()
      (b.withTransitions (ts.map (copyAlong move))) := by
  refine acts_get_bind fun w hw => ?_
  have hof : w.transitionsOf q = ts := by rw [transitionsOf, hw.made_eq, hts]
  rw [hof]
  exact acts_copyEach hends hsymbols

/-- Transitions with labels that are no symbols are not copied. -/
lemma exists_fails_copyTransitions {q : Piece} (hts : q.transitions.filterMap (b.made[·]?) = ts)
    (hends : ∀ t ∈ ts, EndsKnown moves move t)
    (hsymbols : ¬ ∀ t ∈ ts, ∀ a ∈ t.copied.symbols, a ∈ symbols) :
    ∃ a ∉ symbols, Fails r (copyTransitions r symbols moves q) b (.unknownName (some a)) := by
  obtain ⟨a, ha, hfails⟩ := exists_fails_copyEach (r := r) (b := b) hends hsymbols
  refine ⟨a, ha, fails_get_bind fun w hw => ?_⟩
  have hof : w.transitionsOf q = ts := by rw [transitionsOf, hw.made_eq, hts]
  rw [hof]
  exact hfails

end Copies

end MplsReach.Workshop
