/-
The ways through an expression that is drawn between two locations.

* `Atom.Way`: the words that are read between the two gates of an expression, in any direction. The
  parts of an expression share locations, and every part may be used as often as a way comes by.
* `Atom.Over`: all symbols of an expression are known, and no sequence is empty.
* `Sketch.drawable_of_over`: **an expression can be drawn, and the edges drawn for it show exactly
  its ways**, whatever else is there.
-/
import MplsReach.Proofs.Drawing
import MplsReach.Proofs.Tours

namespace MplsReach.Query

/-! ### Gates and junctions -/

/-- The two ends of an expression. -/
inductive Gate where
  | entry
  | exit
deriving DecidableEq, Repr

/-- The ends of two expressions one behind the other. -/
inductive Junction where
  | entry
  | middle
  | exit
deriving DecidableEq, Repr

/-- The location of a gate. -/
def Gate.place (source target : Nat) : Gate → Nat
  | .entry => source
  | .exit => target

/-- The location of a junction. -/
def Junction.place (source middle target : Nat) : Junction → Nat
  | .entry => source
  | .middle => middle
  | .exit => target

namespace Gate

/-- The gates of the first one of two expressions. -/
def first : Gate → Junction
  | entry => .entry
  | exit => .middle

/-- The gates of the second one of two expressions. -/
def second : Gate → Junction
  | entry => .middle
  | exit => .exit

/-- The gates of two expressions, taken together. -/
def outer : Gate → Junction
  | entry => .entry
  | exit => .exit

lemma eq_exit_or_first (i : Junction) : i = .exit ∨ ∃ x : Gate, x.first = i := by
  cases i
  · exact .inr ⟨entry, rfl⟩
  · exact .inr ⟨exit, rfl⟩
  · exact .inl rfl

lemma eq_entry_or_second (i : Junction) : i = .entry ∨ ∃ x : Gate, x.second = i := by
  cases i
  · exact .inl rfl
  · exact .inr ⟨entry, rfl⟩
  · exact .inr ⟨exit, rfl⟩

lemma place_injective {source target : Nat} (h : source ≠ target) :
    Function.Injective (place source target) := by
  rintro (_ | _) (_ | _) heq
  · rfl
  · exact absurd heq h
  · exact absurd heq.symm h
  · rfl

lemma place_first (source middle target : Nat) (x : Gate) :
    x.first.place source middle target = x.place source middle := by
  cases x <;> rfl

lemma place_second (source middle target : Nat) (x : Gate) :
    x.second.place source middle target = x.place middle target := by
  cases x <;> rfl

lemma place_outer (source middle target : Nat) (x : Gate) :
    x.outer.place source middle target = x.place source target := by
  cases x <;> rfl

end Gate

lemma Junction.place_injective {source middle target : Nat} (h : source ≠ middle)
    (h' : middle ≠ target) (h'' : source ≠ target) :
    Function.Injective (place source middle target) := by
  rintro (_ | _ | _) (_ | _ | _) heq <;> simp_all [place]

variable {Sym : Type}

/-- A tour by legs that keep away from one junction goes from gate to gate of the expression that
has the other two, or does not move. -/
lemma exists_gates_of_tour {f : Gate → Junction} {k : Junction} (hf : ∀ i, i = k ∨ ∃ x, f x = i)
    {p : Junction → Nat} (hp : Function.Injective p) {leg : Nat → List Sym → Nat → Prop}
    (hleg : ∀ x u y, leg x u y → x ≠ p k ∧ y ≠ p k) {i j : Junction} {w : List Sym}
    (h : Tour leg (p i) w (p j)) : (i = j ∧ w = []) ∨ ∃ x y, f x = i ∧ f y = j := by
  rcases hf i with rfl | ⟨x, rfl⟩
  · obtain ⟨hj, rfl⟩ := h.departs fun u y hu => absurd rfl (hleg _ _ _ hu).1
    exact .inl ⟨hp hj.symm, rfl⟩
  · rcases hf j with rfl | ⟨y, rfl⟩
    · obtain ⟨hi, rfl⟩ := h.arrives fun x u hu => absurd rfl (hleg _ _ _ hu).2
      exact .inl ⟨hp hi, rfl⟩
    · exact .inr ⟨x, y, rfl, rfl⟩

/-! ### Ways -/

/-- What a quantifier lets pass silently: back from the exit, and past the expression. -/
def Quantifier.Bridge (q : Quantifier) (x : Gate) (u : List Sym) (y : Gate) : Prop :=
  u = [] ∧ ((q ≠ .zeroOrOne ∧ x = .exit ∧ y = .entry) ∨ (q ≠ .oneOrMore ∧ x = .entry ∧ y = .exit))

/-- Ways through two expressions, one behind the other. -/
def Chained (way way' : Gate → List Sym → Gate → Prop) (i : Junction) (u : List Sym)
    (j : Junction) : Prop :=
  (∃ x y, x.first = i ∧ y.first = j ∧ way x u y) ∨ ∃ x y, x.second = i ∧ y.second = j ∧ way' x u y

mutual

/-- The words that are read between the gates of an expression, given those of its symbols. -/
def Atom.Way (read : Atom → Gate → List Sym → Gate → Prop) :
    Atom → Gate → List Sym → Gate → Prop
  | .simple x => Tour (read (.simple x))
  | .any => Tour (read .any)
  | .positiveSet xs => Tour (read (.positiveSet xs))
  | .negativeSet xs => Tour (read (.negativeSet xs))
  | .sequence as => Atom.WayAll read as
  | .alternative l r => Tour fun x u y => l.Way read x u y ∨ r.Way read x u y
  | .quantified a q => Tour fun x u y => a.Way read x u y ∨ q.Bridge x u y

/-- The words that are read between the gates of expressions one behind the other. -/
def Atom.WayAll (read : Atom → Gate → List Sym → Gate → Prop) :
    List Atom → Gate → List Sym → Gate → Prop
  | [] => Tour fun _ _ _ => False
  | [a] => a.Way read
  | a :: b :: as => fun x w y =>
    Tour (Chained (a.Way read) (Atom.WayAll read (b :: as))) x.outer w y.outer

end

mutual

/-- All symbols of an expression are of one kind, and no sequence is empty. -/
def Atom.Over (known : Symbol → Prop) : Atom → Prop
  | .simple x => known x
  | .any => True
  | .positiveSet xs => ∀ x ∈ xs, known x
  | .negativeSet xs => ∀ x ∈ xs, known x
  | .sequence as => as ≠ [] ∧ Atom.OverAll known as
  | .alternative l r => l.Over known ∧ r.Over known
  | .quantified a _ => a.Over known

/-- All symbols of some expressions are of one kind, and no sequence in them is empty. -/
def Atom.OverAll (known : Symbol → Prop) : List Atom → Prop
  | [] => True
  | a :: as => a.Over known ∧ Atom.OverAll known as

end

lemma Atom.overAll_iff {known : Symbol → Prop} {as : List Atom} :
    Atom.OverAll known as ↔ ∀ a ∈ as, a.Over known := by
  induction as with
  | nil => simp [Atom.OverAll]
  | cons a as ih => rw [Atom.OverAll, ih, List.forall_mem_cons]

/-- Ways that may be taken one behind the other. -/
structure Composes (way : Gate → List Sym → Gate → Prop) : Prop where
  refl : ∀ x, way x [] x
  trans : ∀ {x y z u v}, way x u y → way y v z → way x (u ++ v) z

lemma composes_tour (leg : Gate → List Sym → Gate → Prop) : Composes (Tour leg) :=
  ⟨.refl, .trans⟩

lemma Atom.composes_wayAll {read : Atom → Gate → List Sym → Gate → Prop} {as : List Atom}
    (ih : ∀ a ∈ as, Composes (a.Way read)) : Composes (Atom.WayAll read as) := by
  match as, ih with
  | [], _ => exact composes_tour _
  | [a], ih => exact ih a List.mem_cons_self
  | a :: b :: as, _ => exact ⟨fun x => .refl x.outer, .trans⟩

lemma Atom.composes_way (read : Atom → Gate → List Sym → Gate → Prop) (a : Atom) :
    Composes (a.Way read) := by
  induction a using Atom.ind with
  | simple x => exact composes_tour _
  | any => exact composes_tour _
  | positiveSet xs => exact composes_tour _
  | negativeSet xs => exact composes_tour _
  | sequence as ih => exact Atom.composes_wayAll ih
  | alternative l r => exact composes_tour _
  | quantified a q => exact composes_tour _

lemma Atom.Over.mono {known known' : Symbol → Prop} (hk : ∀ x, known x → known' x) {a : Atom}
    (h : a.Over known) : a.Over known' := by
  induction a using Atom.ind with
  | simple x => exact hk x h
  | any => trivial
  | positiveSet xs => exact fun x hx => hk x (h x hx)
  | negativeSet xs => exact fun x hx => hk x (h x hx)
  | sequence as ih =>
      rw [Atom.Over, Atom.overAll_iff] at h ⊢
      exact ⟨h.1, fun a ha => ih a ha (h.2 a ha)⟩
  | alternative l r ihl ihr => exact ⟨ihl h.1, ihr h.2⟩
  | quantified a q ih => exact ih h

/-- The ways through an expression depend on what its parts without parts read. -/
lemma Atom.way_congr {known : Symbol → Prop} {read read' : Atom → Gate → List Sym → Gate → Prop}
    (hr : ∀ a, a.Over known → ∀ x u y, read a x u y ↔ read' a x u y) {a : Atom}
    (h : a.Over known) : a.Way read = a.Way read' := by
  have hread : ∀ a : Atom, a.Over known → read a = read' a := fun a ha =>
    funext fun x => funext fun u => funext fun y => propext (hr a ha x u y)
  induction a using Atom.ind with
  | simple x => simp only [Atom.Way, hread _ h]
  | any => simp only [Atom.Way, hread _ h]
  | positiveSet xs => simp only [Atom.Way, hread _ h]
  | negativeSet xs => simp only [Atom.Way, hread _ h]
  | sequence as ih =>
      rw [Atom.Over, Atom.overAll_iff] at h
      have hall : ∀ bs : List Atom, (∀ b ∈ bs, b ∈ as) →
          Atom.WayAll read bs = Atom.WayAll read' bs := by
        intro bs hbs
        induction bs with
        | nil => rfl
        | cons b bs ihs =>
            obtain ⟨hb, hbs⟩ := List.forall_mem_cons.mp hbs
            have hhead := ih b hb (h.2 b hb)
            cases bs with
            | nil => exact hhead
            | cons c cs => simp only [Atom.WayAll, hhead, ihs hbs]
      exact hall as fun _ => id
  | alternative l r ihl ihr => simp only [Atom.Way, ihl h.1, ihr h.2]
  | quantified a q ih => simp only [Atom.Way, ih h]

/-! ### What symbols stand for -/

namespace Alphabet

variable (A : Alphabet Sym) (D : List Sym)

/-- A symbol is known: it stands for symbols of the domain and brings no new ones. -/
def Knows : Symbol → Prop
  | .simple word => ∃ as, A.lookup D word.name = .ok (D, as)
  | .tuple .. => False

/-- What a symbol stands for. -/
def found : Symbol → List Sym
  | .simple word =>
    match A.lookup D word.name with
    | .ok (_, as) => as
    | .error _ => []
  | .tuple .. => []

/-- What is left of the domain. -/
def left (excluded : List Sym) : List Sym :=
  match A.others D excluded with
  | .ok as => as
  | .error _ => []

/-- What is left of a domain can always be told. -/
def Total : Prop := ∀ D excluded, ∃ as, A.others D excluded = .ok as

/-- The symbols that an expression without parts stands for. -/
def letters : Atom → List Sym
  | .simple x => A.found D x
  | .any => A.left D []
  | .positiveSet xs => xs.flatMap (A.found D)
  | .negativeSet xs => A.left D (xs.flatMap (A.found D))
  | .sequence _ | .alternative _ _ | .quantified _ _ => []

/-- One of some symbols is read: the automaton stays at the entry or goes to the exit. -/
def leg (as : List Sym) (x : Gate) (u : List Sym) (y : Gate) : Prop :=
  ∃ a ∈ as, u = [a] ∧ x = .entry ∧ y = if A.stays a then .entry else .exit

/-- The words that expressions without parts read. -/
def reading (a : Atom) : Gate → List Sym → Gate → Prop := A.leg (A.letters D a)

end Alphabet

namespace Sketch

variable {A : Alphabet Sym}

/-- A known symbol changes nothing but the symbols of a sketch. -/
lemma exists_meaning {s : Sketch Sym} {x : Symbol} (h : A.Knows s.domain x) :
    ∃ symbols, s.meaning A x = .ok ({ s with symbols := symbols }, A.found s.domain x) := by
  cases x with
  | tuple => exact h.elim
  | simple word =>
      obtain ⟨as, has⟩ := h
      refine ⟨s.symbols ++ as, ?_⟩
      simp only [meaning, Alphabet.found, has]
      rfl

/-- Known symbols change nothing but the symbols of a sketch. -/
lemma exists_meanings {s : Sketch Sym} {xs : List Symbol} (h : ∀ x ∈ xs, A.Knows s.domain x) :
    ∃ symbols, meanings A s xs =
      .ok ({ s with symbols := symbols }, xs.flatMap (A.found s.domain)) := by
  induction xs generalizing s with
  | nil => exact ⟨s.symbols, rfl⟩
  | cons x xs ih =>
      obtain ⟨hx, hxs⟩ := List.forall_mem_cons.mp h
      obtain ⟨symbols, hmeaning⟩ := exists_meaning hx
      obtain ⟨symbols', hmeanings⟩ := ih (s := { s with symbols := symbols }) hxs
      refine ⟨symbols', ?_⟩
      rw [meanings, hmeaning]
      simp only [bind, Except.bind, hmeanings]
      rfl

/-! ### Edges that show ways -/

variable {way way' : Gate → List Sym → Gate → Prop} {source target : Nat} {s t u : Sketch Sym}

/-- A sketch with edges added that show the ways between two gates: by these edges alone, just these
words are read between the locations of the gates. -/
structure Shows (way : Gate → List Sym → Gate → Prop) (source target : Nat) (s t : Sketch Sym) :
    Prop where
  domain_eq : t.domain = s.domain
  edges : ∃ new, t.edges = s.edges ++ new ∧ ∀ x w y,
    Tour (EdgeLeg new) (x.place source target) w (y.place source target) ↔ way x w y

lemma Shows.congr (h : Shows way source target s t) (hway : ∀ x w y, way x w y ↔ way' x w y) :
    Shows way' source target s t := by
  obtain ⟨new, hnew, htour⟩ := h.edges
  exact ⟨h.domain_eq, new, hnew, fun x w y => (htour x w y).trans (hway x w y)⟩

/-- The ends of the edges that were drawn. -/
lemma Drawn.between {P : Sym → Prop} {new : List (Edge Nat Sym)} (h : Drawn P source target s t)
    (hnew : t.edges = s.edges ++ new) (x : Nat) (w : List Sym) (y : Nat)
    (hleg : EdgeLeg new x w y) :
    Between source target s.size t.size x ∧ Between source target s.size t.size y := by
  obtain ⟨new', hnew', hmem⟩ := h.edges
  obtain rfl : new = new' := List.append_cancel_left (hnew.symm.trans hnew')
  obtain ⟨e, he, rfl, rfl, -⟩ := hleg
  exact ⟨(hmem e he).1, (hmem e he).2.1⟩

/-- An edge for each of some symbols shows that one of them is read. -/
lemma shows_place {as bs : List Sym} (hne : source ≠ target) (hdomain : t.domain = s.domain)
    (hedges : t.edges = s.edges) (has : ∀ a, a ∈ as ↔ a ∈ bs) :
    Shows (Tour (A.leg bs)) source target s (t.place A source target as) := by
  have hinj := Gate.place_injective hne
  refine ⟨hdomain, _, by rw [place, hedges], fun x w y => ⟨?_, ?_⟩⟩
  · refine Tour.lift hinj fun i u y hleg => ?_
    obtain ⟨e, he, hsource, htarget, rfl⟩ := hleg
    obtain ⟨a, ha, rfl⟩ := List.mem_map.mp he
    obtain rfl : i = .entry := hinj hsource.symm
    refine ⟨_, ?_, a, (has a).mp ha, rfl, rfl, rfl⟩
    rw [← htarget]
    cases A.stays a <;> rfl
  · refine Tour.bind fun i u j hleg => ?_
    obtain ⟨a, ha, rfl, rfl, rfl⟩ := hleg
    refine .single ⟨_, List.mem_map.mpr ⟨a, (has a).mpr ha, rfl⟩, rfl, ?_, rfl⟩
    cases A.stays a <;> rfl

/-- Silent edges show what a quantifier lets pass. -/
lemma shows_repeated (hne : source ≠ target) (q : Quantifier) :
    Shows (Tour q.Bridge) source target s (s.repeated source target q) := by
  have hinj := Gate.place_injective hne
  have hbridges : ∃ new, (s.repeated source target q).edges = s.edges ++ new ∧ ∀ e, e ∈ new ↔
      (q ≠ .zeroOrOne ∧ e = ⟨target, none, source⟩) ∨
        (q ≠ .oneOrMore ∧ e = ⟨source, none, target⟩) := by
    cases q
    · exact ⟨_, List.append_assoc _ _ _, by simp⟩
    · exact ⟨_, rfl, by simp⟩
    · exact ⟨_, rfl, by simp⟩
  obtain ⟨new, hnew, hmem⟩ := hbridges
  refine ⟨by cases q <;> rfl, new, hnew, fun x w y => ⟨?_, ?_⟩⟩
  · refine Tour.lift hinj fun i u y hleg => ?_
    obtain ⟨e, he, hsource, rfl, rfl⟩ := hleg
    rcases (hmem e).mp he with ⟨hq, rfl⟩ | ⟨hq, rfl⟩
    · obtain rfl : i = .exit := hinj hsource.symm
      exact ⟨.entry, rfl, rfl, .inl ⟨hq, rfl, rfl⟩⟩
    · obtain rfl : i = .entry := hinj hsource.symm
      exact ⟨.exit, rfl, rfl, .inr ⟨hq, rfl, rfl⟩⟩
  · refine Tour.bind fun i u j hleg => ?_
    obtain ⟨rfl, ⟨hq, rfl, rfl⟩ | ⟨hq, rfl, rfl⟩⟩ := hleg
    · exact .single ⟨_, (hmem _).mpr (.inl ⟨hq, rfl⟩), rfl, rfl, rfl⟩
    · exact .single ⟨_, (hmem _).mpr (.inr ⟨hq, rfl⟩), rfl, rfl, rfl⟩

/-- Edges for two expressions between the same locations show the ways by both of them. -/
lemma Shows.union {P : Sym → Prop} (hsource : source < s.size) (htarget : target < s.size)
    (hd : Drawn P source target s t) (hd' : Drawn P source target t u)
    (h : Shows way source target s t) (h' : Shows way' source target t u) :
    Shows (Tour fun x w y => way x w y ∨ way' x w y) source target s u := by
  obtain ⟨new, hnew, hway⟩ := h.edges
  obtain ⟨new', hnew', hway'⟩ := h'.edges
  have hsize := hd.size_le
  refine ⟨h'.domain_eq.trans h.domain_eq, new ++ new', by rw [hnew', hnew, List.append_assoc],
    fun x w y => ?_⟩
  have hshared : ∀ z, Between source target s.size t.size z →
      Between source target t.size u.size z → ∃ k : Gate, k.place source target = z := by
    rintro z (rfl | rfl | hz) hz'
    · exact ⟨.entry, rfl⟩
    · exact ⟨.exit, rfl⟩
    · simp only [Between] at hz'
      omega
  have hx : Between source target s.size t.size (x.place source target) := by
    cases x
    · exact .inl rfl
    · exact .inr (.inl rfl)
  calc Tour (EdgeLeg (new ++ new')) (x.place source target) w (y.place source target)
      ↔ Tour (fun i v j => EdgeLeg new i v j ∨ EdgeLeg new' i v j) (x.place source target) w
          (y.place source target) := Tour.congr fun _ _ _ => edgeLeg_append
    _ ↔ Tour (SharedLeg (Gate.place source target) (EdgeLeg new) (EdgeLeg new')) x w y :=
        tour_union_iff (hd.between hnew) (hd'.between hnew') hshared (.inl hx)
    _ ↔ Tour (fun x w y => way x w y ∨ way' x w y) x w y :=
        Tour.congr fun i v j => or_congr (hway i v j) (hway' i v j)

/-- Tours by two kinds of legs, each of which keeps away from the far end of the other one and shows
the ways through one of two expressions, are the ways through both of them. -/
lemma tour_chained_iff {p : Junction → Nat} (hp : Function.Injective p)
    {l₁ l₂ : Nat → List Sym → Nat → Prop} (h₁ : ∀ a v b, l₁ a v b → a ≠ p .exit ∧ b ≠ p .exit)
    (h₂ : ∀ a v b, l₂ a v b → a ≠ p .entry ∧ b ≠ p .entry)
    (hfirst : ∀ x y v, Tour l₁ (p x.first) v (p y.first) ↔ way x v y)
    (hsecond : ∀ x y v, Tour l₂ (p x.second) v (p y.second) ↔ way' x v y) {i j : Junction}
    {w : List Sym} : Tour (SharedLeg p l₁ l₂) i w j ↔ Tour (Chained way way') i w j := by
  refine ⟨Tour.bind (f := id) fun i v j hleg => ?_, Tour.mono fun i v j hleg => ?_⟩
  · rcases hleg with hleg | hleg
    · rcases exists_gates_of_tour Gate.eq_exit_or_first hp h₁ hleg with
        ⟨rfl, rfl⟩ | ⟨a, b, rfl, rfl⟩
      · exact .refl i
      · exact .single (.inl ⟨a, b, rfl, rfl, (hfirst a b v).mp hleg⟩)
    · rcases exists_gates_of_tour Gate.eq_entry_or_second hp h₂ hleg with
        ⟨rfl, rfl⟩ | ⟨a, b, rfl, rfl⟩
      · exact .refl i
      · exact .single (.inr ⟨a, b, rfl, rfl, (hsecond a b v).mp hleg⟩)
  · rcases hleg with ⟨a, b, rfl, rfl, hab⟩ | ⟨a, b, rfl, rfl, hab⟩
    · exact .inl ((hfirst a b v).mpr hab)
    · exact .inr ((hsecond a b v).mpr hab)

/-- Edges for two expressions with a location in between show the ways through both of them. -/
lemma Shows.chain {P : Sym → Prop} (hsource : source < s.size) (htarget : target < s.size)
    (hne : source ≠ target) (hd : Drawn P source s.size { s with size := s.size + 1 } t)
    (hd' : Drawn P s.size target t u)
    (h : Shows way source s.size { s with size := s.size + 1 } t)
    (h' : Shows way' s.size target t u) :
    Shows (fun x w y => Tour (Chained way way') x.outer w y.outer) source target s u := by
  obtain ⟨new, hnew, hway⟩ := h.edges
  obtain ⟨new', hnew', hway'⟩ := h'.edges
  have hsize : s.size + 1 ≤ t.size := hd.size_le
  refine ⟨h'.domain_eq.trans h.domain_eq, new ++ new', by rw [hnew', hnew, List.append_assoc],
    fun x w y => ?_⟩
  have hinj : Function.Injective (Junction.place source s.size target) :=
    Junction.place_injective (by omega) (by omega) hne
  -- only the location in between is shared by both
  have hshared : ∀ z, Between source s.size (s.size + 1) t.size z →
      Between s.size target t.size u.size z →
      ∃ k : Junction, k.place source s.size target = z := by
    intro z hz hz'
    refine ⟨.middle, ?_⟩
    simp only [Between, Junction.place] at *
    omega
  have hx : Between source s.size (s.size + 1) t.size (x.outer.place source s.size target) ∨
      Between s.size target t.size u.size (x.outer.place source s.size target) := by
    cases x
    · exact .inl (.inl rfl)
    · exact .inr (.inr (.inl rfl))
  have hfirst : ∀ x y v, Tour (EdgeLeg new) (x.first.place source s.size target) v
      (y.first.place source s.size target) ↔ way x v y := by
    intro x y v
    rw [Gate.place_first, Gate.place_first, hway]
  have hsecond : ∀ x y v, Tour (EdgeLeg new') (x.second.place source s.size target) v
      (y.second.place source s.size target) ↔ way' x v y := by
    intro x y v
    rw [Gate.place_second, Gate.place_second, hway']
  -- the edges of either expression keep away from the far end of the other one
  have haway : ∀ a v b, EdgeLeg new a v b → a ≠ target ∧ b ≠ target := by
    intro a v b hab
    have := hd.between hnew a v b hab
    simp only [Between] at this
    omega
  have haway' : ∀ a v b, EdgeLeg new' a v b → a ≠ source ∧ b ≠ source := by
    intro a v b hab
    have := hd'.between hnew' a v b hab
    simp only [Between] at this
    omega
  rw [← Gate.place_outer source s.size target x, ← Gate.place_outer source s.size target y]
  calc Tour (EdgeLeg (new ++ new')) (x.outer.place source s.size target) w
        (y.outer.place source s.size target)
      ↔ Tour (fun i v j => EdgeLeg new i v j ∨ EdgeLeg new' i v j)
          (x.outer.place source s.size target) w (y.outer.place source s.size target) :=
        Tour.congr fun _ _ _ => edgeLeg_append
    _ ↔ Tour (SharedLeg (Junction.place source s.size target) (EdgeLeg new) (EdgeLeg new'))
          x.outer w y.outer :=
        tour_union_iff (hd.between hnew) (hd'.between hnew') hshared hx
    _ ↔ Tour (Chained way way') x.outer w y.outer :=
        tour_chained_iff hinj haway haway' hfirst hsecond

/-! ### Expressions -/

variable [DecidableEq Sym] {D : List Sym}

/-- What can be drawn over a domain so that ways are shown. -/
def Drawable (D : List Sym) (draws : Sketch Sym → Nat → Nat → Except Fault (Sketch Sym))
    (way : Gate → List Sym → Gate → Prop) : Prop :=
  ∀ s source target, s.domain = D → source < s.size → target < s.size → source ≠ target →
    ∃ t, draws s source target = .ok t ∧ Drawn (fun _ => True) source target s t ∧
      Shows way source target s t

lemma drawable_sequence {as : List Atom} (hne : as ≠ [])
    (ih : ∀ a ∈ as, Drawable D (draw A · · · a) (a.Way (A.reading D))) :
    Drawable D (drawSequence A · · · as) (Atom.WayAll (A.reading D) as) := by
  induction as with
  | nil => exact absurd rfl hne
  | cons a as ihs =>
      cases as with
      | nil =>
          intro s source target hs hsource htarget hst
          simp only [drawSequence, Atom.WayAll]
          exact ih a List.mem_cons_self s source target hs hsource htarget hst
      | cons b bs =>
          intro s source target hs hsource htarget hst
          obtain ⟨t, ht, hd, hshows⟩ := ih a List.mem_cons_self { s with size := s.size + 1 } source
            s.size hs (Nat.lt_succ_of_lt hsource) (Nat.lt_succ_self _) (Nat.ne_of_lt hsource)
          have hsize : s.size + 1 ≤ t.size := hd.size_le
          obtain ⟨u, hu, hd', hshows'⟩ := ihs (List.cons_ne_nil b bs)
            (fun c hc => ih c (List.mem_cons_of_mem a hc)) t s.size target
            (hshows.domain_eq.trans hs) hsize (by omega) (by omega)
          refine ⟨u, ?_, hd.trans_middle hd', ?_⟩
          · simp only [drawSequence, ht, bind, Except.bind]
            exact hu
          · rw [Atom.WayAll]
            exact hshows.chain hsource htarget hst hd hd' hshows'

/-- Symbols can be drawn if they stand for what the expression reads. -/
lemma drawable_place {a : Atom}
    (h : ∀ s source target, s.domain = D → ∃ symbols as,
      draw A s source target a = .ok (({ s with symbols := symbols }).place A source target as) ∧
        ∀ b, b ∈ as ↔ b ∈ A.letters D a) :
    Drawable D (draw A · · · a) (Tour (A.reading D a)) := by
  intro s source target hs _ _ hst
  obtain ⟨symbols, as, hdraw, has⟩ := h s source target hs
  have hdrawn : Drawn (fun _ => True) source target s (s.place A source target as) :=
    (Drawn.refl source target s).place fun _ _ _ => trivial
  exact ⟨_, hdraw, ⟨Nat.le_refl _, fun _ _ _ => trivial, hdrawn.edges⟩,
    shows_place hst rfl rfl has⟩

/-- **Drawing shows the ways of an expression**: an expression whose symbols are known can be drawn
between any two locations, and the edges drawn for it read just the words of its ways. -/
lemma drawable_of_over (hA : A.Total) {a : Atom} (h : a.Over (A.Knows D)) :
    Drawable D (draw A · · · a) (a.Way (A.reading D)) := by
  induction a using Atom.ind with
  | simple x =>
      refine drawable_place fun s source target hs => ?_
      obtain ⟨symbols, hx⟩ := exists_meaning (hs.symm ▸ h : A.Knows s.domain x)
      refine ⟨symbols, _, by rw [draw, hx]; rfl, fun b => ?_⟩
      rw [hs]
      rfl
  | any =>
      refine drawable_place fun s source target hs => ?_
      obtain ⟨as, has⟩ := hA D []
      refine ⟨s.symbols, as, ?_, fun b => ?_⟩
      · subst hs
        rw [draw, has]
        rfl
      · rw [Alphabet.letters, Alphabet.left, has]
  | positiveSet xs =>
      refine drawable_place fun s source target hs => ?_
      obtain ⟨symbols, hxs⟩ := exists_meanings (hs.symm ▸ h : ∀ x ∈ xs, A.Knows s.domain x)
      refine ⟨symbols, _, by rw [draw, hxs]; rfl, fun b => ?_⟩
      rw [Text.mem_distinct, hs]
      rfl
  | negativeSet xs =>
      refine drawable_place fun s source target hs => ?_
      obtain ⟨symbols, hxs⟩ := exists_meanings (hs.symm ▸ h : ∀ x ∈ xs, A.Knows s.domain x)
      obtain ⟨as, has⟩ := hA D (xs.flatMap (A.found D))
      refine ⟨symbols, as, ?_, fun b => ?_⟩
      · subst hs
        rw [draw, hxs]
        simp only [bind, Except.bind, has]
        rfl
      · rw [Alphabet.letters, Alphabet.left, has]
  | sequence as ih =>
      rw [Atom.Over] at h
      simp only [draw, Atom.Way]
      exact drawable_sequence h.1 fun a ha => ih a ha (Atom.overAll_iff.mp h.2 a ha)
  | alternative l r ihl ihr =>
      intro s source target hs hsource htarget hst
      rw [Atom.Over] at h
      obtain ⟨t, ht, hd, hshows⟩ := ihl h.1 s source target hs hsource htarget hst
      have hsize := hd.size_le
      obtain ⟨u, hu, hd', hshows'⟩ := ihr h.2 t source target (hshows.domain_eq.trans hs)
        (by omega) (by omega) hst
      refine ⟨u, ?_, hd.trans hd', ?_⟩
      · simp only [draw, ht, bind, Except.bind]
        exact hu
      · rw [Atom.Way]
        exact hshows.union hsource htarget hd hd' hshows'
  | quantified a q ih =>
      intro s source target hs hsource htarget hst
      rw [Atom.Over] at h
      obtain ⟨t, ht, hd, hshows⟩ := ih h s source target hs hsource htarget hst
      have hd' : Drawn (fun _ => True) source target t (t.repeated source target q) :=
        drawn_repeated t q
      refine ⟨t.repeated source target q, ?_, hd.trans hd', ?_⟩
      · simp only [draw, ht]
        rfl
      · rw [Atom.Way]
        exact (hshows.union hsource htarget hd hd' (shows_repeated hst q)).congr
          fun _ _ _ => Tour.or_tour_iff

end Sketch

/-- **The automaton of an expression accepts the words of its ways** from the entry to the exit. -/
lemma Alphabet.exists_automaton [DecidableEq Sym] {A : Alphabet Sym} (hA : A.Total) {D : List Sym}
    {a : Atom} (h : a.Over (A.Knows D)) :
    ∃ n, A.automaton D (some a) = .ok (n, D) ∧
      ∀ w, n.Accepts w ↔ a.Way (A.reading D) .entry w .exit := by
  obtain ⟨t, ht, -, hshows⟩ := Sketch.drawable_of_over hA h (.blank D 2) 0 1 rfl Nat.two_pos
    Nat.one_lt_two Nat.zero_ne_one
  obtain ⟨new, hnew, htour⟩ := hshows.edges
  refine ⟨t.finish 0 1, ?_, fun w => ?_⟩
  · have hdomain : t.domain = D := hshows.domain_eq
    simp only [automaton, sketch, ht, bind, Except.bind, pure, Except.pure, hdomain]
  · have hedges : t.edges = new := by simpa [Sketch.blank] using hnew
    rw [Nfa.Accepts, Nfa.path_iff_tour, ← htour .entry w .exit, ← hedges]
    rfl

end MplsReach.Query
