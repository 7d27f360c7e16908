/-
Runs that are replayed from their printed steps.

* `Pda.Course`: a run with its transitions and the configurations that it goes through.
* `Shown`: what a printed step shows of the stack: a symbol, or a star for the one on top.
* `Naming.Replays`: printed steps are read one after the other, and each puts what it shows in place
  of the top.
* `replays_course`: the steps of a run without replacements replay it; `line_ne_of_replace`: a step
  that replaces the top cannot be read as what it does.
* `Naming.Legible`: what a step shows can be told from what follows it; `legible_stackSymbol`: this
  is so for the symbols on the stack of a packet.
* `printed_replays_iff`: **a printed run replays exactly when nothing is replaced in it.**
-/
import MplsReach.Proofs.Quoting
import MplsReach.Proofs.Realization
import MplsReach.Pushdown.Commentary

namespace MplsReach

variable {Loc Sym : Type}

/-! ### Runs with all their configurations -/

/-- A run with its transitions and the configurations that it goes through, in order; the one that
it starts from is not one of them. -/
inductive Pda.Course [DecidableEq Sym] (p : Pda Loc Sym) :
    Config Loc Sym → List (Transition Loc Sym) → List (Config Loc Sym) → Prop where
  | refl (c : Config Loc Sym) : Course p c [] []
  | step {c d : Config Loc Sym} {t : Transition Loc Sym} {ts : List (Transition Loc Sym)}
      {cs : List (Config Loc Sym)} :
      p.Fires t c d → Course p d ts cs → Course p c (t :: ts) (d :: cs)

/-! ### Reading printed steps -/

/-- What a printed step shows of the stack: a symbol, or whichever symbol is on top. -/
inductive Shown (Sym : Type) where
  | star
  | symbol (a : Sym)

namespace Shown

/-- The symbol that is meant when another one is on top. -/
def fill (a : Sym) : Shown Sym → Sym
  | star => a
  | symbol b => b

/-- How it is written. -/
def text (n : Naming Loc Sym) : Shown Sym → String
  | star => "*"
  | symbol a => n.symbol a

@[simp] lemma fill_star (a : Sym) : star.fill a = a := rfl

@[simp] lemma fill_symbol (a b : Sym) : (symbol b).fill a = b := rfl

@[simp] lemma text_star (n : Naming Loc Sym) : star.text n = "*" := rfl

@[simp] lemma text_symbol (n : Naming Loc Sym) (a : Sym) : (symbol a).text n = n.symbol a := rfl

lemma fill_eq_iff {a b : Sym} {x : Shown Sym} :
    x.fill a = b ↔ x = star ∧ a = b ∨ x = symbol b := by
  cases x <;> simp

end Shown

namespace Naming

/-- A step from a location to another that needs a top and leaves symbols in its place. -/
def line (n : Naming Loc Sym) (source : Loc) (top : Shown Sym) (target : Loc)
    (left : List (Shown Sym)) : String :=
  n.location source ++ " <" ++ top.text n ++ "> --> " ++ n.location target ++ " " ++
    " ".intercalate (left.map (·.text n))

/-- Lines are read one after the other as steps. Each needs the top that it shows, and puts the
symbols that it shows in its place; the configurations that are gone through are listed. -/
inductive Replays (n : Naming Loc Sym) :
    Config Loc Sym → List String → List (Config Loc Sym) → Prop where
  | nil (c : Config Loc Sym) : Replays n c [] []
  | cons {source target : Loc} {a : Sym} {w : List Sym} {top : Shown Sym} {left : List (Shown Sym)}
      {lines : List String} {ds : List (Config Loc Sym)} : top.fill a = a →
      Replays n ⟨target, left.map (·.fill a) ++ w⟩ lines ds →
        Replays n ⟨source, a :: w⟩ (n.line source top target left :: lines)
          (⟨target, left.map (·.fill a) ++ w⟩ :: ds)

end Naming

/-! ### What is printed -/

/-- The top that a printed step shows. -/
def Input.shown : Input Sym → Shown Sym
  | .on a => .symbol a
  | _ => .star

/-- What a printed step shows in place of a top. -/
def Op.shown (top : Shown Sym) : Op Sym → List (Shown Sym)
  | .pop => []
  | .noop => [top]
  | .push a | .replace a => [.symbol a, top]
  | .pushReplace a b => [.symbol a, .symbol b]

/-- A printed step can be read. -/
lemma Transition.printed_eq (n : Naming Loc Sym) (t : Transition Loc Sym) :
    t.printed n = n.line t.source t.input.shown t.target (t.op.shown t.input.shown) := by
  obtain ⟨source, target, input, op, _⟩ := t
  cases input <;> cases op <;>
    simp [Transition.printed, Naming.line, Input.shown, Op.shown, Shown.text]

lemma Input.fill_shown [DecidableEq Sym] {i : Input Sym} {a : Sym} (h : i.admits a = true) :
    i.shown.fill a = a := by
  cases i with
  | on b => simpa [admits, shown] using h
  | any => rfl
  | among as => rfl

/-- But for a replacement, the symbols that a printed step shows are those that it leaves. -/
lemma Op.map_fill_shown {op : Op Sym} (hop : ∀ b, op ≠ .replace b) {a : Sym} {top : Shown Sym}
    (htop : top.fill a = a) : (op.shown top).map (·.fill a) = op.apply a := by
  cases op with
  | replace b => exact absurd rfl (hop b)
  | noop => simp [shown, apply, htop]
  | pop => rfl
  | push b => simp [shown, apply, htop]
  | pushReplace b c => rfl

/-- The steps of a run without replacements replay it. -/
lemma replays_course [DecidableEq Sym] {p : Pda Loc Sym} {c : Config Loc Sym}
    {ts : List (Transition Loc Sym)} {cs : List (Config Loc Sym)} (n : Naming Loc Sym)
    (h : p.Course c ts cs) (hops : ∀ t ∈ ts, ∀ b, t.op ≠ .replace b) :
    n.Replays c (ts.map (·.printed n)) cs := by
  induction h with
  | refl c => exact .nil c
  | @step _ _ t ts cs hfires _ ih =>
      obtain ⟨hop, hops⟩ := List.forall_mem_cons.mp hops
      obtain ⟨-, a, w, ha, rfl, rfl⟩ := hfires
      have htop := Input.fill_shown ha
      have ih := ih hops
      rw [← Op.map_fill_shown hop htop] at ih ⊢
      rw [List.map_cons, t.printed_eq]
      exact .cons htop ih

/-! ### Replacements -/

lemma toList_line (n : Naming Loc Sym) (source target : Loc) (top : Shown Sym)
    (left : List (Shown Sym)) : (n.line source top target left).toList =
      (n.location source).toList ++ (" <".toList ++ ((top.text n).toList ++ ("> --> ".toList ++
        ((n.location target).toList ++ (" ".toList ++
          (" ".intercalate (left.map (·.text n))).toList))))) := by
  simp [Naming.line]

/-- A line that shows two symbols, the second of them as the top, is no line between the same
locations that shows one: the lengths are different, or a bracket stands where none is. -/
lemma line_ne_of_replace (n : Naming Loc Sym) (source target : Loc) {a b : Sym}
    {top top' x : Shown Sym} (htop : top.fill a = a) (htop' : top'.fill a = a)
    (hx : x.fill a = b) :
    n.line source top target [.symbol b, top] ≠ n.line source top' target [x] := by
  intro h
  have h := congrArg String.toList h
  rw [toList_line, toList_line, List.append_cancel_left_eq, List.append_cancel_left_eq] at h
  have hlength : 2 * (top.text n).toList.length + (n.symbol b).toList.length + 1 =
      (top'.text n).toList.length + (x.text n).toList.length := by
    have := congrArg List.length h
    simp at this
    omega
  have hstar : "*".toList.length = 1 := rfl
  rw [Shown.fill_eq_iff] at htop htop' hx
  obtain ⟨rfl, -⟩ | rfl := htop <;> obtain ⟨rfl, -⟩ | rfl := htop' <;>
    obtain ⟨rfl, rfl⟩ | rfl := hx <;>
    simp only [Shown.text_star, Shown.text_symbol, hstar] at hlength <;>
    try omega
  -- The lengths agree for a name of three characters that is read in place of a star, and for an
  -- empty one; there the lines differ in the character at which the bracket closes, or in the last.
  · obtain ⟨x, y, z, hxyz⟩ : ∃ x y z, (n.symbol a).toList = [x, y, z] :=
      List.length_eq_three.mp (by omega)
    simp [hxyz] at h
  · have hempty : (n.symbol a).toList = [] := List.length_eq_zero_iff.mp (by omega)
    simp [hempty] at h
  · have hempty : (n.symbol a).toList = [] := List.length_eq_zero_iff.mp (by omega)
    simp [hempty] at h

namespace Naming

/-- What reading a line does. -/
lemma replays_cons_iff {n : Naming Loc Sym} {c d : Config Loc Sym} {line : String}
    {lines : List String} {ds : List (Config Loc Sym)} :
    n.Replays c (line :: lines) (d :: ds) ↔
      (∃ a w top left, c.stack = a :: w ∧ top.fill a = a ∧
        line = n.line c.location top d.location left ∧ d.stack = left.map (·.fill a) ++ w) ∧
      n.Replays d lines ds := by
  obtain ⟨source, v⟩ := c
  obtain ⟨target, u⟩ := d
  constructor
  · intro h
    cases h with
    | @cons _ _ a w top left _ _ htop hrest =>
        exact ⟨⟨a, w, top, left, rfl, htop, rfl, rfl⟩, hrest⟩
  · rintro ⟨⟨a, w, top, left, rfl, htop, rfl, rfl⟩, hrest⟩
    exact .cons htop hrest

/-- The steps of a run with a replacement do not replay it. -/
lemma op_ne_of_replays [DecidableEq Sym] {p : Pda Loc Sym} {c : Config Loc Sym}
    {ts : List (Transition Loc Sym)} {cs : List (Config Loc Sym)} {n : Naming Loc Sym}
    (h : p.Course c ts cs) (hreplays : n.Replays c (ts.map (·.printed n)) cs) :
    ∀ t ∈ ts, ∀ b, t.op ≠ .replace b := by
  induction h with
  | refl => simp
  | @step _ _ t ts cs hfires _ ih =>
      obtain ⟨⟨a, w, top, left, hstack, htop, hline, hleft⟩, hrest⟩ :=
        replays_cons_iff.mp hreplays
      refine List.forall_mem_cons.mpr ⟨fun b hb => ?_, ih hrest⟩
      obtain ⟨-, a', w', ha, rfl, rfl⟩ := hfires
      obtain ⟨rfl, rfl⟩ := List.cons.inj hstack
      rw [hb, List.append_cancel_right_eq] at hleft
      obtain ⟨x, rfl, hx⟩ := List.map_eq_singleton_iff.mp hleft.symm
      have hprinted := t.printed_eq n
      rw [hb] at hprinted
      exact line_ne_of_replace n _ _ (Input.fill_shown ha) htop hx (hprinted.symm.trans hline)

/-! ### Reading in one way only -/

/-- What a step shows can be told from what is written behind it. -/
def Legible (n : Naming Loc Sym) : Prop :=
  ∀ x y : Shown Sym, ∀ r s : List Char,
    (x.text n).toList ++ r = (y.text n).toList ++ s → x = y

lemma toList_intercalate_cons (s : String) (ts : List String) :
    (" ".intercalate (s :: ts)).toList = s.toList ++ ts.flatMap fun t => ' ' :: t.toList := by
  induction ts generalizing s with
  | nil => simp
  | cons t ts ih => simp [ih]

lemma Legible.flatMap_inj {n : Naming Loc Sym} (hn : n.Legible) {xs ys : List (Shown Sym)}
    (h : (xs.flatMap fun x => ' ' :: (x.text n).toList) =
      ys.flatMap fun y => ' ' :: (y.text n).toList) : xs = ys := by
  induction xs generalizing ys with
  | nil =>
      cases ys with
      | nil => rfl
      | cons => simp at h
  | cons x xs ih =>
      cases ys with
      | nil => simp at h
      | cons y ys =>
          rw [List.flatMap_cons, List.flatMap_cons, List.cons_append, List.cons_append] at h
          have h := (List.cons.inj h).2
          obtain rfl := hn x y _ _ h
          rw [ih (List.append_cancel_left h)]

lemma Legible.text_ne {n : Naming Loc Sym} (hn : n.Legible) (x : Shown Sym) :
    (x.text n).toList ≠ [] := by
  intro h
  obtain rfl := hn x .star "*".toList [] (by simp [h])
  simp at h

lemma Legible.intercalate_inj {n : Naming Loc Sym} (hn : n.Legible) {xs ys : List (Shown Sym)}
    (h : " ".intercalate (xs.map (·.text n)) = " ".intercalate (ys.map (·.text n))) : xs = ys := by
  have h := congrArg String.toList h
  cases xs with
  | nil =>
      cases ys with
      | nil => rfl
      | cons y ys =>
          rw [List.map_cons, toList_intercalate_cons] at h
          exact absurd (List.append_eq_nil_iff.mp h.symm).1 (hn.text_ne y)
  | cons x xs =>
      cases ys with
      | nil =>
          rw [List.map_cons, toList_intercalate_cons] at h
          exact absurd (List.append_eq_nil_iff.mp h).1 (hn.text_ne x)
      | cons y ys =>
          simp only [List.map_cons, toList_intercalate_cons, List.flatMap_map] at h
          obtain rfl := hn x y _ _ h
          rw [hn.flatMap_inj (List.append_cancel_left h)]

/-- A line between two locations shows one thing. -/
lemma Legible.line_inj {n : Naming Loc Sym} (hn : n.Legible) {source target : Loc}
    {top top' : Shown Sym} {left left' : List (Shown Sym)}
    (h : n.line source top target left = n.line source top' target left') :
    top = top' ∧ left = left' := by
  have h := congrArg String.toList h
  rw [toList_line, toList_line, List.append_cancel_left_eq, List.append_cancel_left_eq] at h
  obtain rfl := hn top top' _ _ h
  simp only [List.append_cancel_left_eq, String.toList_inj] at h
  exact ⟨rfl, hn.intercalate_inj h⟩

/-- Lines between known locations replay in one way only. -/
lemma Replays.unique {n : Naming Loc Sym} (hn : n.Legible) {c : Config Loc Sym}
    {lines : List String} {cs ds : List (Config Loc Sym)} (hc : n.Replays c lines cs)
    (hd : n.Replays c lines ds) (h : ds.map (·.location) = cs.map (·.location)) : ds = cs := by
  induction hc generalizing ds with
  | nil => exact List.map_eq_nil_iff.mp h
  | @cons source target a w top left lines cs htop _ ih =>
      cases ds with
      | nil => simp at h
      | cons d ds =>
          obtain ⟨hlocation, hlocations⟩ := List.cons.inj h
          obtain ⟨⟨b, v, top', left', hstack, -, hline, hleft⟩, hrest⟩ := replays_cons_iff.mp hd
          obtain ⟨rfl, rfl⟩ := List.cons.inj hstack
          obtain ⟨location, stack⟩ := d
          obtain rfl : location = target := hlocation
          obtain rfl := (hn.line_inj hline).2
          obtain rfl : stack = _ := hleft
          rw [ih hrest hlocations]

/-- The symbols on the stack of a packet are legible. -/
lemma legible_stackSymbol {n : Naming Loc StackSymbol} (hn : n.symbol = StackSymbol.text) :
    n.Legible := by
  have hlabel : ∀ a b : String, ∀ r s : List Char, (StackSymbol.label a).text.toList ++ r =
      (StackSymbol.label b).text.toList ++ s → a = b := by
    intro a b r s h
    simp only [StackSymbol.text, String.toList_append, List.append_assoc,
      List.append_cancel_left_eq] at h
    exact (Text.quote_append_inj h).1
  intro x y r s h
  cases x with
  | star =>
      cases y with
      | star => rfl
      | symbol b => cases b <;> simp [hn, StackSymbol.text] at h
  | symbol a =>
      cases y with
      | star => cases a <;> simp [hn, StackSymbol.text] at h
      | symbol b =>
          rw [Shown.text_symbol, Shown.text_symbol, hn] at h
          cases a <;> cases b
          case label.label a b => rw [hlabel a b r s h]
          all_goals first | rfl | simp [StackSymbol.text] at h

end Naming

/-- **A printed run replays exactly when nothing is replaced in it.** The printed steps of a run are
read one after the other, a star standing for the symbol on top, and put what they show in place of
the top. They go through the configurations of the run if no step replaces the top by one symbol,
and only then, since a replacement is printed with the symbol that it replaces. Where the names of
symbols can be told from what follows them, they go through nothing else. -/
theorem printed_replays_iff [DecidableEq Sym] {p : Pda Loc Sym} {c : Config Loc Sym}
    {ts : List (Transition Loc Sym)} {cs : List (Config Loc Sym)} (h : p.Course c ts cs)
    (n : Naming Loc Sym) :
    (n.Replays c (ts.map (·.printed n)) cs ↔ ∀ t ∈ ts, ∀ b, t.op ≠ .replace b) ∧
    (n.Legible → (∀ t ∈ ts, ∀ b, t.op ≠ .replace b) → ∀ ds,
      ds.map (·.location) = cs.map (·.location) → n.Replays c (ts.map (·.printed n)) ds →
        ds = cs) := by
  refine ⟨⟨Naming.op_ne_of_replays h, replays_course n h⟩, fun hn hops ds hlocations hds => ?_⟩
  exact (replays_course n h hops).unique hn hds hlocations

/-! ### Printed headers -/

/-- Locations are written as numbers, and symbols as in the header of a packet. -/
def numberedNaming : Naming ℕ StackSymbol where
  location := toString
  symbol := StackSymbol.text
  value := StackSymbol.describeValue

/-- A label goes on the stack, then another one on top of it, which is taken off again. -/
def stacking : List (Transition ℕ StackSymbol) :=
  [.plain 0 1 .any (.push (.label "a")),
    .plain 1 2 (.on (.label "a")) (.pushReplace (.label "b's") (.label "c")),
    .plain 2 3 .any .noop,
    .plain 3 4 (.on (.label "b's")) .pop]

/-- What the stack holds meanwhile. -/
def stacked : List (Config ℕ StackSymbol) :=
  [⟨1, [.label "a", .bottom]⟩, ⟨2, [.label "b's", .label "c", .bottom]⟩,
    ⟨3, [.label "b's", .label "c", .bottom]⟩, ⟨4, [.label "c", .bottom]⟩]

lemma course_stacking :
    (Pda.ofTransitions [] [] [] 0 4 stacking).Course ⟨0, [.bottom]⟩ stacking stacked := by
  refine .step ⟨?_, .bottom, [], rfl, rfl, rfl⟩ (.step ⟨?_, .label "a", [.bottom], ?_, rfl, rfl⟩
    (.step ⟨?_, .label "b's", [.label "c", .bottom], rfl, rfl, rfl⟩
      (.step ⟨?_, .label "b's", [.label "c", .bottom], ?_, rfl, rfl⟩ (.refl _))))
  all_goals simp [Pda.ofTransitions, stacking, Transition.plain, Input.admits]

/-- Labels that are put on the stack and taken off are replayed, and nothing else is. -/
theorem printed_replays_stacking :
    (Pda.ofTransitions [] [] [] 0 4 stacking).Course ⟨0, [.bottom]⟩ stacking stacked ∧
      numberedNaming.Legible ∧
      numberedNaming.Replays ⟨0, [.bottom]⟩ (stacking.map (·.printed numberedNaming)) stacked ∧
      ∀ ds, ds.map (·.location) = stacked.map (·.location) →
        numberedNaming.Replays ⟨0, [.bottom]⟩ (stacking.map (·.printed numberedNaming)) ds →
          ds = stacked := by
  have hlegible : numberedNaming.Legible := Naming.legible_stackSymbol rfl
  have hops : ∀ t ∈ stacking, ∀ b, t.op ≠ .replace b := by simp [stacking, Transition.plain]
  obtain ⟨hreplays, hunique⟩ := printed_replays_iff course_stacking numberedNaming
  exact ⟨course_stacking, hlegible, hreplays.mpr hops, hunique hlegible hops⟩

/-- A replacement of the top that is printed with both symbols. -/
def replacing : Transition String String := .plain "p" "q" (.on "x") (.replace "y")

/-- Locations and symbols are written as they are. -/
def verbatim : Naming String String := ⟨id, id, id⟩

/-- A replaced symbol stays on the stack when the printed step is read. -/
theorem replacing_not_replayed :
    (Pda.ofTransitions [] [] [] "p" "q" [replacing]).Course ⟨"p", ["x"]⟩ [replacing]
        [⟨"q", ["y"]⟩] ∧
      replacing.printed verbatim = "p <x> --> q y x" ∧
      verbatim.Replays ⟨"p", ["x"]⟩ [replacing.printed verbatim] [⟨"q", ["y", "x"]⟩] ∧
      ¬ verbatim.Replays ⟨"p", ["x"]⟩ [replacing.printed verbatim] [⟨"q", ["y"]⟩] := by
  have hcourse : (Pda.ofTransitions [] [] [] "p" "q" [replacing]).Course ⟨"p", ["x"]⟩ [replacing]
      [⟨"q", ["y"]⟩] :=
    .step ⟨List.mem_singleton_self _, "x", [], by decide, rfl, rfl⟩ (.refl _)
  refine ⟨hcourse, by decide, ?_, fun h => ?_⟩
  · rw [Transition.printed_eq]
    exact .cons (w := []) (a := "x") rfl (.nil _)
  · exact Naming.op_ne_of_replays hcourse h replacing (List.mem_singleton_self _) "y" rfl

end MplsReach
