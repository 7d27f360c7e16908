/-
Ways of packets when interfaces fail, and the automaton that bounds the failures at each hop.

* `Network.Trace`: the ways of a packet and its header under a set of failed interfaces. A rule is
  used if its own interface works and all interfaces of earlier groups have failed.
* `Network.Passes`: the ways of a stack on which every rule but the first one stands behind at most
  `k` others.
* `Network.exists_run_over_iff`: the runs of the automaton are just those ways.
* `Network.exists_overForwarding_iff`: when there is an automaton.
* `overForwarding_keeps_traces_iff`: **exactly when no trace is missed**. A group of rules that
  share an interface counts more rules than interfaces that have to fail, so traces can be missed.
-/
import Mathlib.Data.Finset.Card
import MplsReach.Proofs.Grounded
import MplsReach.Proofs.Passages

namespace MplsReach

/-! ### Traces -/

/-- What an action does to a header; there must be a label to swap or to pop. -/
def Action.onHeader : Action → List Label → Option (List Label)
  | .push l, h => some (l :: h)
  | .swap l, _ :: h => some (l :: h)
  | .pop, _ :: h => some h
  | .swap _, [] | .pop, [] => none
  | .noop, h | .unknown, h => some h

/-- What actions do to a header, one after the other. -/
def Action.allOnHeader : List Action → List Label → Option (List Label)
  | [], h => some h
  | a :: as, h => (a.onHeader h).bind (Action.allOnHeader as)

/-- A destination is for packets with its label on top; without a label, for empty headers. -/
def Destination.Selects (d : Destination) : List Label → Prop
  | [] => d.label.isNamed = false
  | l :: _ => d.label = l

/-- A rule of a destination is in use when interfaces have failed: its own one works, and those of
all rules of earlier groups have failed. -/
def Destination.Active (d : Destination) (router : RouterId) (F : Finset Endpoint) (r : Rule) :
    Prop :=
  ∃ i g, d.groups[i]? = some g ∧ r ∈ g ∧ ⟨router, r.target⟩ ∉ F ∧
    ∀ r' ∈ (d.groups.take i).flatten, ⟨router, r'.target⟩ ∈ F

/-- The ways of a packet that arrives at an endpoint with a header, when interfaces have failed: the
endpoints that it leaves by, and the header that it has at last. -/
inductive Network.Trace (n : Network) (F : Finset Endpoint) :
    Endpoint → List Label → List Endpoint → List Label → Prop where
  | last {p : Endpoint} {d : Destination} {r : Rule} {u v : List Label} :
      d ∈ n.destinationsAt p → d.Selects u → d.Active p.router F r →
        Action.allOnHeader r.actions u = some v → n.Trace F p u [⟨p.router, r.target⟩] v
  | hop {p q : Endpoint} {d : Destination} {r : Rule} {u u' v : List Label} {ps : List Endpoint} :
      d ∈ n.destinationsAt p → d.Selects u → d.Active p.router F r →
        Action.allOnHeader r.actions u = some u' → (⟨p.router, r.target⟩, q) ∈ n.crossings →
          n.Trace F q u' ps v → n.Trace F p u (⟨p.router, r.target⟩ :: ps) v

/-- The stack of a header. -/
def stackOf (h : List Label) : List StackSymbol := h.map .ofLabel ++ [.bottom]

/-- Forwarding with a bound at each hop misses no trace: whatever interfaces have failed, at most
`k` of them, every trace is the way of a run from its first to its last header. -/
def Network.KeepsTraces (n : Network) (k : Int) : Prop :=
  ∃ M, n.overForwarding k = .ok M ∧ ∀ F : Finset Endpoint, (F.card : Int) ≤ k →
    ∀ p ∈ n.endpoints, ∀ u ps v, n.Trace F p u ps v →
      ∃ ls, M.Run ⟨.start, stackOf u⟩ ls ⟨.finish, stackOf v⟩ ∧ passed ls = ps

/-! ### Networks -/

/-- Packets that arrive at the endpoints only meet pushes, swaps and pops. -/
def Network.Doable (n : Network) : Prop :=
  ∀ p ∈ n.endpoints, ∀ o ∈ n.offersAt p, ∀ a ∈ o.rule.actions, a ≠ .noop ∧ a ≠ .unknown

/-- Packets that cross a link only meet pushes, swaps and pops, in rules that stand behind at most
`k` others. -/
def Network.DoableAcross (n : Network) (k : Int) : Prop :=
  ∀ left arrived, (left, arrived) ∈ n.crossings → ∀ o ∈ n.offersAt arrived, o.before ≤ k →
    ∀ a ∈ o.rule.actions, a ≠ .noop ∧ a ≠ .unknown

/-- Pushes, swaps and pops are carried out, and nothing else. -/
lemma Action.exists_op_iff {a : Action} : (∃ o, a.op = .ok o) ↔ a ≠ .noop ∧ a ≠ .unknown := by
  cases a <;> simp [Action.op]

/-- Where at most `k` interfaces have to fail for a group to be used, at most `k` rules stand before
it. -/
def Destination.Sparse (k : Int) (d : Destination) : Prop :=
  ∀ i < d.groups.length,
    ((Text.distinct ((d.groups.take i).flatten.map Rule.target)).length : Int) ≤ k →
      ((d.groups.take i).flatten.length : Int) ≤ k

/-- All destinations count at most `k` rules for at most `k` interfaces. -/
def Network.Sparse (n : Network) (k : Int) : Prop :=
  ∀ t ∈ n.tables, ∀ d ∈ t.destinations, d.Sparse k

/-! ### Ways of a stack -/

/-- A rule for packets with a label on top takes a stack to another one. -/
def Offer.Takes (o : Offer) (s s' : List StackSymbol) : Prop :=
  s.head? = some (.ofLabel o.label) ∧ Action.allOnStack o.rule.actions s = some s'

/-- The rest of a way from an endpoint: the packet leaves the network, or it crosses a link and is
forwarded by a rule that stands behind at most `k` others. -/
inductive Network.Counted (n : Network) (k : Int) :
    Endpoint → List StackSymbol → List Endpoint → List StackSymbol → Prop where
  | leave {p : Endpoint} {s : List StackSymbol} :
      p ∈ n.endpoints → s ≠ [] → n.Counted k p s [] s
  | cross {p q : Endpoint} {o : Offer} {s s' v : List StackSymbol} {ps : List Endpoint} :
      (p, q) ∈ n.crossings → o ∈ n.offersAt q → o.before ≤ k → o.Takes s s' →
        n.Counted k ⟨q.router, o.rule.target⟩ s' ps v →
          n.Counted k p s (⟨q.router, o.rule.target⟩ :: ps) v

/-- The ways of a stack through a network: a packet enters by any rule of any endpoint, and is then
forwarded by rules that stand behind at most `k` others. -/
def Network.Passes (n : Network) (k : Int) (s : List StackSymbol) (ps : List Endpoint)
    (v : List StackSymbol) : Prop :=
  ∃ p ∈ n.endpoints, ∃ o ∈ n.offersAt p, ∃ s' qs, o.Takes s s' ∧
    ps = ⟨p.router, o.rule.target⟩ :: qs ∧ n.Counted k ⟨p.router, o.rule.target⟩ s' qs v

namespace Network

variable {n : Network} {k : Int}

/-- The next endpoint of a way is that of a rule that stands behind at most `k` others. -/
lemma Counted.exists_offer {p p' : Endpoint} {s v : List StackSymbol} {ps : List Endpoint}
    (h : n.Counted k p s (p' :: ps) v) : ∃ q o, (p, q) ∈ n.crossings ∧ o ∈ n.offersAt q ∧
      o.before ≤ k ∧ p' = ⟨q.router, o.rule.target⟩ := by
  cases h with
  | @cross _ q o _ _ _ _ hcross ho hbefore _ _ => exact ⟨q, o, hcross, ho, hbefore, rfl⟩

lemma moving_over :
    Moving (n.overEntries ++ n.overCrossings k) (n.endpoints.map (exit · ())) := by
  refine moving_of_offers (fun t ht => ?_) fun t ht => ?_
  · rcases List.mem_append.mp ht with ht | ht
    · obtain ⟨p, -, o, -, rfl⟩ := mem_overEntries_iff.mp ht
      exact ⟨o, p.router, (), .inl rfl⟩
    · obtain ⟨left, p, -, o, -, -, rfl⟩ := mem_overCrossings_iff.mp ht
      exact ⟨o, p.router, (), .inr ⟨left, (), rfl⟩⟩
  · obtain ⟨p, -, rfl⟩ := List.mem_map.mp ht
    exact ⟨p, (), rfl⟩

lemma mem_exits_over_iff {p : Endpoint} {e : Unit} :
    exit p e ∈ n.endpoints.map (exit · ()) ↔ p ∈ n.endpoints := by
  simp [exit, Transition.plain]

/-- The passages of the automaton are the ways of a stack with a bound at each hop. -/
lemma passage_over_iff {p : Endpoint} {s v : List StackSymbol} {ps : List Endpoint} :
    Passage (n.overEntries ++ n.overCrossings k) (n.endpoints.map (exit · ())) p () s ps v ↔
      n.Counted k p s ps v := by
  constructor
  · intro h
    generalize () = e at h
    induction h with
    | leave hexit hs => exact .leave (mem_exits_over_iff.mp hexit) hs
    | @cross p q e f t a w s v as ps ht hsource htarget ha has _ ih =>
        rcases List.mem_append.mp ht with ht | ht
        · obtain ⟨left, -, o, -, rfl⟩ := mem_overEntries_iff.mp ht
          cases hsource
        · obtain ⟨left, arrived, hcross, o, ho, hbefore, rfl⟩ := mem_overCrossings_iff.mp ht
          obtain ⟨rfl, -, -⟩ := Hop.at.inj hsource
          obtain ⟨rfl, rfl, -⟩ := Hop.at.inj htarget
          obtain rfl := Input.on.inj ha
          exact .cross hcross ho hbefore ⟨rfl, has⟩ ih
  · intro h
    induction h with
    | leave hp hs => exact .leave (mem_exits_over_iff.mpr hp) hs
    | @cross p q o s s' v ps hcross ho hbefore htakes _ ih =>
        obtain ⟨w, rfl⟩ := List.head?_eq_some_iff.mp htakes.1
        exact .cross (List.mem_append_right _
          (mem_overCrossings_iff.mpr ⟨p, q, hcross, o, ho, hbefore, rfl⟩)) rfl rfl rfl htakes.2 ih

/-- **Runs with a bound at each hop**: the runs of the automaton are just the ways of a stack. -/
lemma exists_run_over_iff {M : Pda (Hop Unit) StackSymbol} (hM : n.overForwarding k = .ok M)
    {s v : List StackSymbol} {ps : List Endpoint} :
    (∃ ls, M.Run ⟨.start, s⟩ ls ⟨.finish, v⟩ ∧ passed ls = ps) ↔ n.Passes k s ps v := by
  rw [exists_run_iff hM moving_over]
  constructor
  · rintro ⟨t, ht, a, w, q, as, e, s', qs, hsource, htarget, ha, rfl, hs', rfl, hpassage⟩
    rcases List.mem_append.mp ht with ht | ht
    · obtain ⟨p, hp, o, ho, rfl⟩ := mem_overEntries_iff.mp ht
      obtain ⟨rfl, rfl, -⟩ := Hop.at.inj htarget
      obtain rfl := Input.on.inj ha
      exact ⟨p, hp, o, ho, s', qs, ⟨rfl, hs'⟩, rfl, passage_over_iff.mp hpassage⟩
    · obtain ⟨left, arrived, -, o, -, -, rfl⟩ := mem_overCrossings_iff.mp ht
      cases hsource
  · rintro ⟨p, hp, o, ho, s', qs, ⟨hhead, hs'⟩, rfl, hcounted⟩
    obtain ⟨w, rfl⟩ := List.head?_eq_some_iff.mp hhead
    have henter := mem_overEntries_iff.mpr ⟨p, hp, o, ho, rfl⟩
    exact ⟨_, List.mem_append_left _ henter, _, w, _, _, (), s', qs, rfl, rfl, rfl, rfl, hs', rfl,
      passage_over_iff.mpr hcounted⟩

/-- There is an automaton exactly if all actions that packets meet, on entering and behind links,
can be carried out. -/
lemma exists_overForwarding_iff :
    (∃ M, n.overForwarding k = .ok M) ↔ n.Doable ∧ n.DoableAcross k := by
  rw [overForwarding, exists_forwarding_iff]
  simp only [Action.exists_op_iff]
  constructor
  · intro h
    refine ⟨fun p hp o ho => ?_, fun left p hcross o ho hbefore => ?_⟩
    · have henter := mem_overEntries_iff.mpr ⟨p, hp, o, ho, rfl⟩
      exact h _ (List.mem_append_left _ henter) _ _ () rfl
    · have hcross := mem_overCrossings_iff.mpr ⟨left, p, hcross, o, ho, hbefore, rfl⟩
      exact h _ (List.mem_append_right _ hcross) _ _ () rfl
  · rintro ⟨hentry, hacross⟩ t ht q as e htarget
    rcases List.mem_append.mp ht with ht | ht
    · obtain ⟨p, hp, o, ho, rfl⟩ := mem_overEntries_iff.mp ht
      obtain ⟨-, rfl, -⟩ := Hop.at.inj htarget
      exact hentry p hp o ho
    · obtain ⟨left, p, hcross, o, ho, hbefore, rfl⟩ := mem_overCrossings_iff.mp ht
      obtain ⟨-, rfl, -⟩ := Hop.at.inj htarget
      exact hacross left p hcross o ho hbefore

/-- Links lead to endpoints, where packets can enter as well. -/
lemma Grounded.doableAcross (hn : n.Grounded) (h : n.Doable) (k : Int) : n.DoableAcross k :=
  fun _ p hcross o ho _ => h p (hn.arrival_mem hcross) o ho

lemma Grounded.exists_overForwarding_iff (hn : n.Grounded) :
    (∃ M, n.overForwarding k = .ok M) ↔ n.Doable := by
  rw [Network.exists_overForwarding_iff, and_iff_left_of_imp fun h => hn.doableAcross h k]

end Network

/-! ### From headers to stacks -/

/-- An action that is carried out does to the stack what it does to the header. -/
lemma Action.onStack_stackOf {a : Action} (ha : a ≠ .noop ∧ a ≠ .unknown) {u v : List Label}
    (h : a.onHeader u = some v) : a.onStack (stackOf u) = some (stackOf v) := by
  cases a with
  | push l =>
      obtain rfl := Option.some.inj h
      cases u <;> rfl
  | swap l =>
      cases u with
      | nil => cases h
      | cons b u =>
          obtain rfl := Option.some.inj h
          rfl
  | pop =>
      cases u with
      | nil => cases h
      | cons b u =>
          obtain rfl := Option.some.inj h
          rfl
  | noop => exact absurd rfl ha.1
  | unknown => exact absurd rfl ha.2

lemma Action.allOnStack_stackOf {as : List Action} (has : ∀ a ∈ as, a ≠ .noop ∧ a ≠ .unknown)
    {u v : List Label} (h : Action.allOnHeader as u = some v) :
    Action.allOnStack as (stackOf u) = some (stackOf v) := by
  induction as generalizing u with
  | nil =>
      obtain rfl := Option.some.inj h
      rfl
  | cons a as ih =>
      obtain ⟨u', hu', h⟩ := Option.bind_eq_some_iff.mp h
      have hstack := Action.onStack_stackOf (has a List.mem_cons_self) hu'
      exact Option.bind_eq_some_iff.mpr
        ⟨stackOf u', hstack, ih (fun b hb => has b (List.mem_cons_of_mem a hb)) h⟩

lemma stackOf_ne_nil (u : List Label) : stackOf u ≠ [] := by simp [stackOf]

/-- The destination of a header is for what is on top of its stack. -/
lemma Destination.Selects.head?_stackOf {d : Destination} {u : List Label} (h : d.Selects u) :
    (stackOf u).head? = some (.ofLabel d.label) := by
  cases u with
  | nil =>
      change d.label.isNamed = false at h
      cases hd : d.label with
      | named name => simp [hd, Label.isNamed] at h
      | absent spelling => rfl
  | cons l u =>
      change d.label = l at h
      rw [h]
      rfl

/-! ### Counting failures -/

/-- Interfaces of a router that have all failed are no more than the failures. -/
lemma length_distinct_le_card (router : RouterId) {F : Finset Endpoint} {is : List (Option String)}
    (h : ∀ i ∈ is, ⟨router, i⟩ ∈ F) : (Text.distinct is).length ≤ F.card := by
  have hinj : Function.Injective (Endpoint.mk router) := fun i j hij => (Endpoint.mk.inj hij).2
  have hnodup := (Text.nodup_distinct is).map hinj
  have hsub : ((Text.distinct is).map (Endpoint.mk router)).toFinset ⊆ F := by
    intro p hp
    obtain ⟨i, hi, rfl⟩ := List.mem_map.mp (List.mem_toFinset.mp hp)
    exact h i ((Text.mem_distinct i is).mp hi)
  have hcard := Finset.card_le_card hsub
  rwa [List.toFinset_card_of_nodup hnodup, List.length_map] at hcard

/-- Rules in use are offered; where destinations are sparse, behind at most as many rules as
interfaces may fail. -/
lemma Destination.Active.exists_offer {n : Network} {k : Int} {p : Endpoint} {d : Destination}
    {F : Finset Endpoint} {r : Rule} (h : d.Active p.router F r) (hd : d ∈ n.destinationsAt p)
    (hsparse : n.Sparse k) (hF : (F.card : Int) ≤ k) :
    r ∈ d.rules ∧ ∃ before : Nat, before ≤ k ∧ ⟨d.source, d.label, r, before⟩ ∈ n.offersAt p := by
  obtain ⟨i, g, hg, hr, -, hfailed⟩ := h
  obtain ⟨t, ht, -, hdt, -⟩ := Network.mem_destinationsAt_iff.mp hd
  have hlength : (Text.distinct ((d.groups.take i).flatten.map Rule.target)).length ≤ F.card := by
    refine length_distinct_le_card p.router fun j hj => ?_
    obtain ⟨r', hr', rfl⟩ := List.mem_map.mp hj
    exact hfailed r' hr'
  have hbefore := hsparse t ht d hdt i (List.getElem?_eq_some_iff.mp hg).1 (by omega)
  exact ⟨Destination.mem_rules hg hr, _, hbefore,
    Network.mem_offersAt_iff.mpr ⟨d, hd, i, g, r, hg, hr, rfl⟩⟩

/-- Where destinations are sparse, a trace is a way on which rules stand behind at most `k` others.
-/
lemma Network.Trace.exists_counted {n : Network} {k : Int} {F : Finset Endpoint}
    (hn : n.Grounded) (hdoable : n.Doable) (hsparse : n.Sparse k) (hF : (F.card : Int) ≤ k)
    {p : Endpoint} {u v : List Label} {ps : List Endpoint} (h : n.Trace F p u ps v)
    (hp : p ∈ n.endpoints) :
    ∃ o ∈ n.offersAt p, o.before ≤ k ∧ ∃ s' qs, o.Takes (stackOf u) s' ∧
      ps = ⟨p.router, o.rule.target⟩ :: qs ∧
      n.Counted k ⟨p.router, o.rule.target⟩ s' qs (stackOf v) := by
  induction h with
  | @last p d r u v hd hselects hactive hactions =>
      obtain ⟨hr, b, hb, ho⟩ := hactive.exists_offer hd hsparse hF
      exact ⟨_, ho, hb, stackOf v, [],
        ⟨hselects.head?_stackOf, Action.allOnStack_stackOf (hdoable p hp _ ho) hactions⟩, rfl,
        .leave (hn.target_mem hd hr) (stackOf_ne_nil v)⟩
  | @hop p q d r u u' v ps hd hselects hactive hactions hcross _ ih =>
      obtain ⟨-, b, hb, ho⟩ := hactive.exists_offer hd hsparse hF
      obtain ⟨o', ho', hb', s', qs, htakes, rfl, hcounted⟩ := ih (hn.arrival_mem hcross)
      exact ⟨_, ho, hb, stackOf u', _,
        ⟨hselects.head?_stackOf, Action.allOnStack_stackOf (hdoable p hp _ ho) hactions⟩, rfl,
        .cross hcross ho' hb' htakes hcounted⟩

/-! ### When no trace is missed -/

/-- **Traces that forwarding keeps.** In a grounded network, as `Network.grounded_of_read` gives
them, forwarding with a bound at each hop misses no trace exactly if only pushes, swaps and pops are
met and each trace under at most `k` failures is also a way on which every rule but the first one
stands behind at most `k` others. So it is if no destination counts more than `k` rules where at
most `k` interfaces have to fail. -/
theorem overForwarding_keeps_traces_iff (n : Network) (hn : n.Grounded) (k : Int) :
    (n.KeepsTraces k ↔ n.Doable ∧ ∀ F : Finset Endpoint, (F.card : Int) ≤ k →
      ∀ p ∈ n.endpoints, ∀ u ps v, n.Trace F p u ps v → n.Passes k (stackOf u) ps (stackOf v)) ∧
    (n.Doable → n.Sparse k → n.KeepsTraces k) := by
  have hkeeps : n.KeepsTraces k ↔ n.Doable ∧ ∀ F : Finset Endpoint, (F.card : Int) ≤ k →
      ∀ p ∈ n.endpoints, ∀ u ps v, n.Trace F p u ps v →
        n.Passes k (stackOf u) ps (stackOf v) := by
    rw [← hn.exists_overForwarding_iff (k := k)]
    constructor
    · rintro ⟨M, hM, htraces⟩
      exact ⟨⟨M, hM⟩, fun F hF p hp u ps v h =>
        (Network.exists_run_over_iff hM).mp (htraces F hF p hp u ps v h)⟩
    · rintro ⟨⟨M, hM⟩, hpasses⟩
      exact ⟨M, hM, fun F hF p hp u ps v h =>
        (Network.exists_run_over_iff hM).mpr (hpasses F hF p hp u ps v h)⟩
  refine ⟨hkeeps, fun hdoable hsparse => hkeeps.mpr ⟨hdoable, fun F hF p hp u ps v h => ?_⟩⟩
  obtain ⟨o, ho, -, s', qs, htakes, rfl, hcounted⟩ := h.exists_counted hn hdoable hsparse hF hp
  exact ⟨p, hp, o, ho, s', qs, htakes, rfl, hcounted⟩

/-- Three routers in a row. The second one has rules that come before that for the third one. -/
def detouring (detours : Group) : Network :=
  let A : Router := ⟨⟨"", some "A"⟩, [⟨some "i", false⟩, ⟨some "b", false⟩]⟩
  let B : Router := ⟨⟨"", some "B"⟩, [⟨some "a", false⟩, ⟨some "x", false⟩, ⟨some "c", false⟩]⟩
  let C : Router := ⟨⟨"", some "C"⟩, [⟨some "b", false⟩, ⟨some "o", false⟩]⟩
  ⟨[A, B, C],
    [⟨⟨A.id, some "b"⟩, ⟨B.id, some "a"⟩⟩, ⟨⟨B.id, some "c"⟩, ⟨C.id, some "b"⟩⟩],
    [⟨A, [⟨some "i", .absent .empty, [[⟨some "b", [.push (.named "L")]⟩]]⟩]⟩,
      ⟨B, [⟨some "a", .named "L", [detours, [⟨some "c", [.swap (.named "K")]⟩]]⟩]⟩,
      ⟨C, [⟨some "b", .named "K", [[⟨some "o", [.pop]⟩]]⟩]⟩]⟩

/-- The interface of the detours. -/
def detour : Endpoint := ⟨⟨"", some "B"⟩, some "x"⟩

/-- The way through the three routers in a row. -/
def straightWay : List Endpoint :=
  [⟨⟨"", some "A"⟩, some "b"⟩, ⟨⟨"", some "B"⟩, some "c"⟩, ⟨⟨"", some "C"⟩, some "o"⟩]

/-- Packets go straight on when the detours have failed. -/
lemma trace_detouring {detours : Group} (h : ∀ r ∈ detours, r.target = some "x") :
    (detouring detours).Trace {detour} ⟨⟨"", some "A"⟩, some "i"⟩ [] straightWay [] := by
  refine .hop (d := ⟨some "i", .absent .empty, [[⟨some "b", [.push (.named "L")]⟩]]⟩)
    (r := ⟨some "b", [.push (.named "L")]⟩) (Network.mem_destinationsAt_iff.mpr
      ⟨_, .head _, rfl, .head _, rfl⟩) rfl ⟨0, _, rfl, .head _, by decide, by simp⟩ rfl
    (q := ⟨⟨"", some "B"⟩, some "a"⟩) (.head _) ?_
  refine .hop (d := ⟨some "a", .named "L", [detours, [⟨some "c", [.swap (.named "K")]⟩]]⟩)
    (r := ⟨some "c", [.swap (.named "K")]⟩) (Network.mem_destinationsAt_iff.mpr
      ⟨_, .tail _ (.head _), rfl, .head _, rfl⟩) rfl
    ⟨1, _, rfl, .head _, by decide, fun r hr => ?_⟩ rfl
    (q := ⟨⟨"", some "C"⟩, some "b"⟩) (.tail _ (.tail _ (.head _))) ?_
  · have hr : r ∈ detours := by simpa using hr
    simp [h r hr, detour]
  · exact .last (d := ⟨some "b", .named "K", [[⟨some "o", [.pop]⟩]]⟩) (r := ⟨some "o", [.pop]⟩)
      (Network.mem_destinationsAt_iff.mpr ⟨_, .tail _ (.tail _ (.head _)), rfl, .head _, rfl⟩) rfl
      ⟨0, _, rfl, .head _, by decide, by simp⟩ rfl

/-- One detour. -/
def oneDetour : Network := detouring [⟨some "x", [.swap (.named "M")]⟩]

/-- Two detours by one interface. -/
def twoDetours : Network :=
  detouring [⟨some "x", [.swap (.named "M")]⟩, ⟨some "x", [.swap (.named "N")]⟩]

/-- One detour is one rule, so that forwarding with one failure keeps the way straight on. -/
theorem overForwarding_keeps_traces_oneDetour :
    oneDetour.Grounded ∧ oneDetour.Trace {detour} ⟨⟨"", some "A"⟩, some "i"⟩ [] straightWay [] ∧
      oneDetour.KeepsTraces 1 := by
  have hgrounded : oneDetour.Grounded := ⟨by decide, by decide⟩
  have hdoable : oneDetour.Doable := by
    unfold Network.Doable
    decide
  have hsparse : oneDetour.Sparse 1 := by
    unfold Network.Sparse Destination.Sparse
    decide
  exact ⟨hgrounded, trace_detouring (by simp),
    (overForwarding_keeps_traces_iff oneDetour hgrounded 1).2 hdoable hsparse⟩

/-- **A trace that is missed**: two detours by one interface are two rules, but one failure. -/
theorem overForwarding_misses_straightWay :
    twoDetours.Grounded ∧ twoDetours.Doable ∧
      twoDetours.Trace {detour} ⟨⟨"", some "A"⟩, some "i"⟩ [] straightWay [] ∧
      ¬ twoDetours.KeepsTraces 1 := by
  have hdoable : twoDetours.Doable := by
    unfold Network.Doable
    decide
  have htrace : twoDetours.Trace {detour} ⟨⟨"", some "A"⟩, some "i"⟩ [] straightWay [] :=
    trace_detouring (by simp)
  refine ⟨⟨by decide, by decide⟩, hdoable, htrace, ?_⟩
  rintro ⟨M, hM, hkeeps⟩
  have hrun := hkeeps {detour} (by simp) _ (by decide) [] straightWay [] htrace
  obtain ⟨p, -, o, -, s', qs, -, hway, hcounted⟩ := (Network.exists_run_over_iff hM).mp hrun
  obtain ⟨-, rfl⟩ := List.cons.inj hway
  obtain ⟨q, o, hcross, ho, hbefore, hc⟩ := hcounted.exists_offer
  -- The rules behind at most one other rule are those of the first groups, and none leads there.
  have hoffers : ∀ c ∈ twoDetours.crossings, ∀ o ∈ twoDetours.offersAt c.2,
      (o.before : Int) ≤ 1 → o.rule.target ≠ some "c" := by decide
  exact hoffers _ hcross o ho hbefore (Endpoint.mk.inj hc).2.symm

end MplsReach
