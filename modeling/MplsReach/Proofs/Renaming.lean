/-
Automata that are part of others once their hops are renamed.

What a packet has spent is part of its hop, and nothing that a query says depends on it.

* `Hop.mapSpent`: the same hop with something else spent.
* `Pda.Embeds`: each transition, between renamed locations, is one of another automaton;
  `Pda.Embeds.run` carries runs over.
* `Pda.Embeds.of_forwarding`: forwarding automata need this of their moves and exits only.
* `Sketch.PartOf`: each edge, reading a renamed hop, is one of another sketch; `Sketch.PartOf.draw`
  keeps this whatever is drawn.
* `Query.exists_automata_of_mem`: a query that has automata for some hops has automata for more of
  them, and accepts the renamed paths.
-/
import MplsReach.Proofs.Concat
import MplsReach.Proofs.Drawing
import MplsReach.Proofs.Forwarding
import MplsReach.Proofs.Paths

namespace MplsReach

/-! ### Runs -/

namespace Pda

variable {Loc Loc' Sym : Type} {f : Loc → Loc'} {p : Pda Loc Sym} {p' : Pda Loc' Sym}

/-- Each transition, between renamed locations, is one of another automaton. -/
def Embeds (f : Loc → Loc') (p : Pda Loc Sym) (p' : Pda Loc' Sym) : Prop :=
  ∀ t ∈ p.transitions, t.mapLocations f ∈ p'.transitions

variable [DecidableEq Sym]

lemma Embeds.step (h : Embeds f p p') {c d : Config Loc Sym} (hs : p.Step c d) :
    p'.Step (c.mapLocation f) (d.mapLocation f) := by
  obtain ⟨t, ht, a, w, ha, rfl, rfl⟩ := step_iff.mp hs
  exact step_of_mem (h t ht) ha w

/-- Runs are carried over with the locations that they enter. -/
lemma Embeds.run (h : Embeds f p p') {c d : Config Loc Sym} {ls : List Loc} (hr : p.Run c ls d) :
    p'.Run (c.mapLocation f) (ls.map f) (d.mapLocation f) := by
  induction hr with
  | refl c => exact .refl _
  | step hs _ ih => exact .step (h.step hs) ih

lemma Embeds.reaches (h : Embeds f p p') {c d : Config Loc Sym} (hr : p.Reaches c d) :
    p'.Reaches (c.mapLocation f) (d.mapLocation f) := by
  induction hr with
  | refl => exact .refl _
  | tail _ hs ih => exact ih.tail (h.step hs)

end Pda

/-! ### Hops -/

variable {S S' : Type} {g : S → S'}

namespace Hop

/-- The same hop with something else spent. -/
def mapSpent (g : S → S') : Hop S → Hop S'
  | .start => .start
  | .finish => .finish
  | .at p as e => .at p as (g e)

@[simp]
lemma routerName?_mapSpent (h : Hop S) : (h.mapSpent g).routerName? = h.routerName? := by
  cases h <;> rfl

@[simp]
lemma isBusy_mapSpent (h : Hop S) : (h.mapSpent g).isBusy = h.isBusy := by
  rcases h with _ | _ | ⟨p, _ | ⟨a, as⟩, e⟩ <;> rfl

end Hop

section Forwarding

variable [DecidableEq S] [DecidableEq S'] {moves exits : List (Transition (Hop S) StackSymbol)}
  {moves' exits' : List (Transition (Hop S') StackSymbol)} {M : Pda (Hop S) StackSymbol}
  {M' : Pda (Hop S') StackSymbol}

/-- The chains of actions follow the moves, so that moves and exits are all that has to be carried
over. -/
lemma Pda.Embeds.of_forwarding (hM : forwarding moves exits = .ok M)
    (hM' : forwarding moves' exits' = .ok M')
    (hmoves : ∀ m ∈ moves, m.mapLocations (Hop.mapSpent g) ∈ moves')
    (hexits : ∀ m ∈ exits, m.mapLocations (Hop.mapSpent g) ∈ exits') :
    M.Embeds (Hop.mapSpent g) M' := by
  intro t ht
  rw [mem_transitions_forwarding_iff hM']
  rcases (mem_transitions_forwarding_iff hM).mp ht with
    hm | ⟨p, cs, e, a, bs, o, ⟨m, hm, htarget⟩, hsuffix, ho, rfl⟩ | hm
  · exact .inl (hmoves t hm)
  · refine .inr (.inl ⟨p, cs, g e, a, bs, o, ⟨_, hmoves m hm, ?_⟩, hsuffix, ho, rfl⟩)
    rw [Transition.mapLocations, htarget, Hop.mapSpent]
  · exact .inr (.inr (hexits t hm))

/-- The locations of a forwarding automaton are the ends of its transitions and its own two ends. -/
lemma mem_locations_forwarding_iff (hM : forwarding moves exits = .ok M) {l : Hop S} :
    l ∈ M.locations ↔ l = .start ∨ l = .finish ∨
      ∃ t ∈ M.transitions, l = t.source ∨ l = t.target := by
  obtain ⟨acts, -, rfl⟩ := forwarding_eq_ok_iff.mp hM
  simp only [Pda.ofTransitions, Text.mem_distinct, List.mem_append, List.mem_flatMap, List.mem_cons,
    List.not_mem_nil, or_false, or_assoc]

/-- With the transitions, the locations are carried over. -/
lemma Pda.Embeds.mem_locations (h : M.Embeds (Hop.mapSpent g) M')
    (hM : forwarding moves exits = .ok M) (hM' : forwarding moves' exits' = .ok M') {l : Hop S}
    (hl : l ∈ M.locations) : l.mapSpent g ∈ M'.locations := by
  rw [mem_locations_forwarding_iff hM']
  rcases (mem_locations_forwarding_iff hM).mp hl with rfl | rfl | ⟨t, ht, rfl | rfl⟩
  · exact .inl rfl
  · exact .inr (.inl rfl)
  · exact .inr (.inr ⟨_, h t ht, .inl rfl⟩)
  · exact .inr (.inr ⟨_, h t ht, .inr rfl⟩)

end Forwarding

namespace Query

/-! ### Names -/

/-- Hops that are found under the same names, and more of them on the other side. -/
structure FoundWith (g : S → S') (as : List (Hop S)) (as' : List (Hop S')) : Prop where
  mem : ∀ a ∈ as, a.mapSpent g ∈ as'
  names : ∀ b ∈ as', ∃ a ∈ as, a.routerName? = b.routerName?

lemma FoundWith.nil : FoundWith g [] [] := ⟨by simp, by simp⟩

lemma FoundWith.append {as bs : List (Hop S)} {as' bs' : List (Hop S')} (h : FoundWith g as as')
    (h' : FoundWith g bs bs') : FoundWith g (as ++ bs) (as' ++ bs') where
  mem a ha := (List.mem_append.mp ha).elim
    (fun ha => List.mem_append_left _ (h.mem a ha)) fun ha => List.mem_append_right _ (h'.mem a ha)
  names b hb := by
    rcases List.mem_append.mp hb with hb | hb
    · obtain ⟨a, ha, hname⟩ := h.names b hb
      exact ⟨a, List.mem_append_left _ ha, hname⟩
    · obtain ⟨a, ha, hname⟩ := h'.names b hb
      exact ⟨a, List.mem_append_right _ ha, hname⟩

/-- A name that stands for hops of a domain stands for some of a larger one. -/
lemma Alphabet.exists_lookup_hops {D E as : List (Hop S)} {D' : List (Hop S')} {name : String}
    (hD : ∀ a ∈ D, a.mapSpent g ∈ D') (h : Alphabet.hops.lookup D name = .ok (E, as)) :
    E = D ∧ ∃ as', Alphabet.hops.lookup D' name = .ok (D', as') ∧ FoundWith g as as' := by
  simp only [Alphabet.hops] at h ⊢
  split at h
  · exact absurd h (by simp)
  · rename_i hne
    obtain ⟨rfl, rfl⟩ := Prod.mk.inj (Except.ok.inj h)
    refine ⟨rfl, ?_⟩
    have hmem : ∀ a ∈ D.filter (·.routerName? = some (some name)),
        a.mapSpent g ∈ D'.filter (·.routerName? = some (some name)) := by
      intro a ha
      obtain ⟨ha, hname⟩ := List.mem_filter.mp ha
      exact List.mem_filter.mpr ⟨hD a ha, by rwa [Hop.routerName?_mapSpent]⟩
    obtain ⟨a, ha⟩ := List.exists_mem_of_ne_nil _ hne
    refine ⟨D'.filter (·.routerName? = some (some name)), ?_, hmem, fun b hb => ⟨a, ha, ?_⟩⟩
    · split
      · rename_i hnil
        exact absurd (hmem a ha) (hnil ▸ List.not_mem_nil)
      · rfl
    · have hname := of_decide_eq_true (List.mem_filter.mp ha).2
      exact hname.trans (of_decide_eq_true (List.mem_filter.mp hb).2).symm

/-- What is left when names are excluded is left in a larger domain too. -/
lemma Alphabet.exists_others_hops {D ex as : List (Hop S)} {D' ex' : List (Hop S')}
    (hD : ∀ a ∈ D, a.mapSpent g ∈ D')
    (hex : ∀ b ∈ ex', ∃ a ∈ ex, a.routerName? = b.routerName?)
    (h : Alphabet.hops.others D ex = .ok as) :
    ∃ as', Alphabet.hops.others D' ex' = .ok as' ∧ ∀ a ∈ as, a.mapSpent g ∈ as' := by
  obtain rfl := Except.ok.inj h
  refine ⟨_, rfl, fun a ha => ?_⟩
  obtain ⟨ha, hout⟩ := List.mem_filter.mp ha
  refine List.mem_filter.mpr ⟨hD a ha, ?_⟩
  simp only [Hop.routerName?_mapSpent, Bool.not_eq_true', List.contains_eq_mem,
    decide_eq_false_iff_not, List.mem_map, not_exists, not_and] at hout ⊢
  intro b hb hname
  obtain ⟨c, hc, hcb⟩ := hex b hb
  exact hout c hc (hcb.trans hname)

/-! ### Sketches -/

namespace Sketch

/-- Each edge, reading a renamed hop, is one of another sketch with as many locations, and each hop
of the domain, renamed, is one of its domain. -/
structure PartOf (g : S → S') (s : Sketch (Hop S)) (s' : Sketch (Hop S')) : Prop where
  domain : ∀ a ∈ s.domain, a.mapSpent g ∈ s'.domain
  size_eq : s'.size = s.size
  edges : ∀ e ∈ s.edges, ⟨e.source, e.symbol.map (Hop.mapSpent g), e.target⟩ ∈ s'.edges

variable {s t : Sketch (Hop S)} {s' : Sketch (Hop S')} {source target : Nat}

/-- Hops that the automaton stays at are renamed to such hops, so that edges keep their ends. -/
lemma PartOf.place (h : PartOf g s s') {as : List (Hop S)} {as' : List (Hop S')}
    (has : ∀ a ∈ as, a.mapSpent g ∈ as') : PartOf g (s.place Alphabet.hops source target as)
      (s'.place Alphabet.hops source target as') := by
  refine ⟨h.domain, h.size_eq, fun e he => ?_⟩
  rcases List.mem_append.mp he with he | he
  · exact List.mem_append_left _ (h.edges e he)
  · obtain ⟨a, ha, rfl⟩ := List.mem_map.mp he
    refine List.mem_append_right _ (List.mem_map.mpr ⟨a.mapSpent g, has a ha, ?_⟩)
    simp [Alphabet.hops]

lemma PartOf.silent (h : PartOf g s s') (x y : Nat) : PartOf g (s.silent x y) (s'.silent x y) := by
  refine ⟨h.domain, h.size_eq, fun e he => ?_⟩
  rcases List.mem_append.mp he with he | he
  · exact List.mem_append_left _ (h.edges e he)
  · rw [List.mem_singleton.mp he]
    exact List.mem_append_right _ List.mem_cons_self

lemma PartOf.repeated (h : PartOf g s s') (q : Quantifier) :
    PartOf g (s.repeated source target q) (s'.repeated source target q) := by
  cases q with
  | zeroOrMore => exact (h.silent _ _).silent _ _
  | oneOrMore => exact h.silent _ _
  | zeroOrOne => exact h.silent _ _

lemma PartOf.meaning (h : PartOf g s s') {x : Symbol} {as : List (Hop S)}
    (hx : s.meaning Alphabet.hops x = .ok (t, as)) :
    ∃ t' as', s'.meaning Alphabet.hops x = .ok (t', as') ∧ PartOf g t t' ∧
      FoundWith g as as' := by
  cases x with
  | tuple => exact absurd hx (by simp [Sketch.meaning])
  | simple word =>
      obtain ⟨⟨E, bs⟩, hlookup, hx⟩ := exists_of_bind_eq_ok hx
      obtain ⟨rfl, rfl⟩ := Prod.mk.inj (Except.ok.inj hx)
      obtain ⟨rfl, as', hlookup', has⟩ := Alphabet.exists_lookup_hops h.domain hlookup
      refine ⟨{ s' with symbols := s'.symbols ++ as' }, as', ?_, ⟨h.domain, h.size_eq, h.edges⟩,
        has⟩
      rw [Sketch.meaning, hlookup']
      rfl

lemma PartOf.meanings (h : PartOf g s s') {xs : List Symbol} {as : List (Hop S)}
    (hxs : Sketch.meanings Alphabet.hops s xs = .ok (t, as)) :
    ∃ t' as', Sketch.meanings Alphabet.hops s' xs = .ok (t', as') ∧ PartOf g t t' ∧
      FoundWith g as as' := by
  induction xs generalizing s s' as with
  | nil =>
      obtain ⟨rfl, rfl⟩ := Prod.mk.inj (Except.ok.inj hxs)
      exact ⟨s', [], rfl, h, .nil⟩
  | cons x xs ih =>
      obtain ⟨⟨u, bs⟩, hx, hxs⟩ := exists_of_bind_eq_ok hxs
      obtain ⟨⟨v, cs⟩, hrest, hxs⟩ := exists_of_bind_eq_ok hxs
      obtain ⟨rfl, rfl⟩ := Prod.mk.inj (Except.ok.inj hxs)
      obtain ⟨u', bs', hx', hu, hbs⟩ := h.meaning hx
      obtain ⟨v', cs', hrest', hv, hcs⟩ := ih hu hrest
      refine ⟨v', bs' ++ cs', ?_, hv, hbs.append hcs⟩
      simp only [Sketch.meanings, hx', bind, Except.bind, hrest']
      rfl

variable [DecidableEq S] [DecidableEq S']

lemma PartOf.drawSequence {as : List Atom}
    (ih : ∀ a ∈ as, ∀ {source target : Nat} {s t : Sketch (Hop S)} {s' : Sketch (Hop S')},
      PartOf g s s' → Sketch.draw Alphabet.hops s source target a = .ok t →
        ∃ t', Sketch.draw Alphabet.hops s' source target a = .ok t' ∧ PartOf g t t')
    (h : PartOf g s s') (hs : Sketch.drawSequence Alphabet.hops s source target as = .ok t) :
    ∃ t', Sketch.drawSequence Alphabet.hops s' source target as = .ok t' ∧ PartOf g t t' := by
  induction as generalizing source s s' with
  | nil => exact absurd hs (by simp [Sketch.drawSequence])
  | cons a as ihs =>
      cases as with
      | nil =>
          rw [Sketch.drawSequence] at hs ⊢
          exact ih a List.mem_cons_self h hs
      | cons b bs =>
          rw [Sketch.drawSequence] at hs
          obtain ⟨u, ha, hs⟩ := exists_of_bind_eq_ok hs
          -- both sketches put the next location at the same place
          have hnext : PartOf g { s with size := s.size + 1 } { s' with size := s'.size + 1 } :=
            ⟨h.domain, congrArg (· + 1) h.size_eq, h.edges⟩
          obtain ⟨u', ha', hu⟩ := ih a List.mem_cons_self hnext ha
          obtain ⟨t', ht', ht⟩ := ihs (fun c hc => ih c (List.mem_cons_of_mem a hc)) hu hs
          refine ⟨t', ?_, ht⟩
          rw [Sketch.drawSequence, h.size_eq]
          rw [h.size_eq] at ha'
          rw [ha']
          exact ht'

/-- **Whatever is drawn**, a part of a sketch stays a part of it. -/
lemma PartOf.draw (h : PartOf g s s') {a : Atom}
    (hs : Sketch.draw Alphabet.hops s source target a = .ok t) :
    ∃ t', Sketch.draw Alphabet.hops s' source target a = .ok t' ∧ PartOf g t t' := by
  induction a using Atom.ind generalizing source target s t s' with
  | simple x =>
      rw [Sketch.draw] at hs ⊢
      obtain ⟨⟨u, as⟩, hx, hs⟩ := exists_of_bind_eq_ok hs
      obtain rfl := Except.ok.inj hs
      obtain ⟨u', as', hx', hu, has⟩ := h.meaning hx
      rw [hx']
      exact ⟨_, rfl, hu.place has.mem⟩
  | any =>
      rw [Sketch.draw] at hs ⊢
      obtain ⟨as, has, hs⟩ := exists_of_bind_eq_ok hs
      obtain rfl := Except.ok.inj hs
      obtain ⟨as', has', hmem⟩ :=
        Alphabet.exists_others_hops h.domain (FoundWith.nil (g := g)).names has
      rw [has']
      exact ⟨_, rfl, h.place hmem⟩
  | positiveSet xs =>
      rw [Sketch.draw] at hs ⊢
      obtain ⟨⟨u, as⟩, hxs, hs⟩ := exists_of_bind_eq_ok hs
      obtain rfl := Except.ok.inj hs
      obtain ⟨u', as', hxs', hu, has⟩ := h.meanings hxs
      rw [hxs']
      refine ⟨_, rfl, hu.place fun a ha => ?_⟩
      exact (Text.mem_distinct _ _).mpr (has.mem a ((Text.mem_distinct a as).mp ha))
  | negativeSet xs =>
      rw [Sketch.draw] at hs ⊢
      obtain ⟨⟨u, as⟩, hxs, hs⟩ := exists_of_bind_eq_ok hs
      obtain ⟨bs, hbs, hs⟩ := exists_of_bind_eq_ok hs
      obtain rfl := Except.ok.inj hs
      obtain ⟨u', as', hxs', hu, has⟩ := h.meanings hxs
      obtain ⟨bs', hbs', hmem⟩ := Alphabet.exists_others_hops hu.domain has.names hbs
      refine ⟨u'.place Alphabet.hops source target bs', ?_, hu.place hmem⟩
      simp only [hxs', bind, Except.bind, hbs']
      rfl
  | sequence as ih =>
      rw [Sketch.draw] at hs ⊢
      exact PartOf.drawSequence (fun a ha => ih a ha) h hs
  | alternative l r ihl ihr =>
      rw [Sketch.draw] at hs ⊢
      obtain ⟨u, hl, hr⟩ := exists_of_bind_eq_ok hs
      obtain ⟨u', hl', hu⟩ := ihl h hl
      rw [hl']
      exact ihr hu hr
  | quantified a q ih =>
      rw [Sketch.draw] at hs ⊢
      obtain ⟨u, ha, hs⟩ := exists_of_bind_eq_ok hs
      obtain rfl := Except.ok.inj hs
      obtain ⟨u', ha', hu⟩ := ih h ha
      rw [ha']
      exact ⟨_, rfl, hu.repeated q⟩

end Sketch

/-! ### Automata of queries -/

variable [DecidableEq S] [DecidableEq S']

/-- The automaton of a path over more hops accepts the renamed paths. -/
lemma Alphabet.exists_automatonBetween_hops {D : List (Hop S)} {D' : List (Hop S')}
    (hD : ∀ a ∈ D, a.mapSpent g ∈ D') {first last : Hop S} {a : Atom} {n : Nfa Nat (Hop S)}
    (h : Alphabet.hops.automatonBetween D first last (some a) = .ok n) :
    ∃ n', Alphabet.hops.automatonBetween D' (first.mapSpent g) (last.mapSpent g) (some a) =
        .ok n' ∧
      ∀ w, n.Accepts w → n'.Accepts (w.map (Hop.mapSpent g)) := by
  obtain ⟨⟨s, i, f⟩, hs, h⟩ := exists_of_bind_eq_ok h
  obtain rfl := Except.ok.inj h
  obtain ⟨t, ha, hs⟩ := exists_of_bind_eq_ok hs
  obtain ⟨rfl, rfl, rfl⟩ : t = s ∧ 0 = i ∧ 1 = f := by simpa using Except.ok.inj hs
  have hblank : Sketch.PartOf g (.blank D 2) (.blank D' 2) := ⟨hD, rfl, by simp [Sketch.blank]⟩
  obtain ⟨t', ha', ht⟩ := hblank.draw ha
  refine ⟨(t'.enclose 0 1 (first.mapSpent g) (last.mapSpent g)).finish t.size (t.size + 1), ?_,
    fun w hw => ?_⟩
  · rw [Alphabet.automatonBetween, Alphabet.sketch, ha', ← ht.size_eq]
    rfl
  · refine Nfa.Path.map (fun e he => ?_) hw
    simp only [Sketch.finish, Sketch.enclose, List.mem_append, List.mem_cons, List.not_mem_nil,
      or_false] at he ⊢
    rcases he with he | rfl | rfl
    · exact .inl (ht.edges e he)
    · exact .inr (.inl (by simp [ht.size_eq]))
    · exact .inr (.inr (by simp [ht.size_eq]))

/-- **A query that has automata for some hops** has automata for more of them: the headers are the
same, and paths are accepted with renamed hops. -/
lemma exists_automata_of_mem {q : Query} {labels : List Label} {M : Pda (Hop S) StackSymbol}
    {M' : Pda (Hop S') StackSymbol} (hM : Forwards M) (hM' : Forwards M')
    (hmem : ∀ l ∈ M.locations, l.mapSpent g ∈ M'.locations) {a : Automata S}
    (ha : q.automata labels M = .ok a) :
    ∃ a', q.automata labels M' = .ok a' ∧ a'.constructing = a.constructing ∧
      a'.destructing = a.destructing ∧
      ∀ w, a.network.Accepts w → a'.network.Accepts (w.map (Hop.mapSpent g)) := by
  obtain ⟨⟨constructing, domain⟩, hconstructing, ha⟩ := exists_of_bind_eq_ok ha
  obtain ⟨network, hnetwork, ha⟩ := exists_of_bind_eq_ok ha
  obtain ⟨⟨destructing, domain'⟩, hdestructing, ha⟩ := exists_of_bind_eq_ok ha
  obtain rfl := Except.ok.inj ha
  have hhops : ∀ l ∈ M.locations.filter (·.routerName?.isSome),
      l.mapSpent g ∈ M'.locations.filter (·.routerName?.isSome) := by
    intro l hl
    obtain ⟨hl, hname⟩ := List.mem_filter.mp hl
    exact List.mem_filter.mpr ⟨hmem l hl, by rwa [Hop.routerName?_mapSpent]⟩
  obtain ⟨network', hnetwork', haccepts⟩ := Alphabet.exists_automatonBetween_hops hhops hnetwork
  have hends : M.initial.mapSpent g = M'.initial ∧ M.final.mapSpent g = M'.final := by
    rw [hM.initial_eq, hM.final_eq, hM'.initial_eq, hM'.final_eq]
    exact ⟨rfl, rfl⟩
  rw [hends.1, hends.2] at hnetwork'
  refine ⟨⟨constructing, network', destructing⟩, ?_, rfl, rfl, haccepts⟩
  simp only [Query.automata, hconstructing, hnetwork', hdestructing, bind, Except.bind]
  rfl

end Query

end MplsReach
