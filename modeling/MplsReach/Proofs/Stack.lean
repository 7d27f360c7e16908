/-
What can stand on the stack.

* `Pda.Brings`: a transition of the automaton puts a symbol on the stack.
* `Pda.Reaches.mem_stack`: whatever stands on the stack stood there before, or was brought in.
* `Pda.Reaches.mem_dropLast`: the same above the bottom of the stack.
* `Network.Brings`: an action of some rule brings a label in; forwarding puts nothing else on the
  stack.
* `Network.mem_labels_iff`: the labels of a network are those and the named ones that its rules are
  for.
* `brings_whole`: the three parts of a query put the marker on the stack, the labels of the header
  in front of the network, and labels that actions bring in.
-/
import MplsReach.Proofs.Grounded
import MplsReach.Proofs.Verdict

namespace MplsReach

/-! ### Runs -/

section Runs

variable {Loc Sym : Type}

/-- What stands above the bottom after an operation stood there before, or was brought in. -/
lemma Op.mem_dropLast {op : Op Sym} {a b : Sym} {w : List Sym}
    (h : b ∈ (op.apply a ++ w).dropLast) : b ∈ (a :: w).dropLast ∨ b ∈ op.symbols := by
  cases w with
  | nil =>
      rw [List.append_nil] at h
      exact .inr (by cases op <;> simp_all [Op.apply, Op.symbols])
  | cons c w =>
      rw [List.dropLast_append_of_ne_nil (List.cons_ne_nil c w)] at h
      rw [List.dropLast_cons_of_ne_nil (List.cons_ne_nil c w)]
      rcases List.mem_append.mp h with h | h
      · rcases Op.mem_apply h with rfl | h
        · exact .inl List.mem_cons_self
        · exact .inr h
      · exact .inl (List.mem_cons_of_mem a h)

namespace Pda

variable {p : Pda Loc Sym}

/-- A transition of the automaton puts a symbol on the stack. -/
def Brings (p : Pda Loc Sym) (a : Sym) : Prop := ∃ t ∈ p.transitions, a ∈ t.op.symbols

variable [DecidableEq Sym] {c d : Config Loc Sym} {a : Sym}

/-- Whatever stands on the stack stood there before, or was brought in. -/
lemma Reaches.mem_stack (h : p.Reaches c d) (ha : a ∈ d.stack) : a ∈ c.stack ∨ p.Brings a := by
  induction h with
  | refl => exact .inl ha
  | tail _ hstep ih =>
      obtain ⟨t, ht, b, w, -, rfl, rfl⟩ := step_iff.mp hstep
      rcases List.mem_append.mp ha with ha | ha
      · rcases Op.mem_apply ha with rfl | ha
        · exact ih List.mem_cons_self
        · exact .inr ⟨t, ht, ha⟩
      · exact ih (List.mem_cons_of_mem b ha)

/-- Whatever stands above the bottom of the stack stood there before, or was brought in. -/
lemma Reaches.mem_dropLast (h : p.Reaches c d) (ha : a ∈ d.stack.dropLast) :
    a ∈ c.stack.dropLast ∨ p.Brings a := by
  induction h with
  | refl => exact .inl ha
  | tail _ hstep ih =>
      obtain ⟨t, ht, b, w, -, rfl, rfl⟩ := step_iff.mp hstep
      rcases Op.mem_dropLast ha with ha | ha
      · exact ih ha
      · exact .inr ⟨t, ht, ha⟩

end Pda

end Runs

/-! ### Parts -/

namespace Pda

section Parts

variable {α β Sym : Type} {p : Pda α Sym} {a : Sym}

lemma brings_copiedUnless_iff (kept : Bool) : (p.copiedUnless kept).Brings a ↔ p.Brings a := by
  cases kept with
  | true => exact Iff.rfl
  | false => simp [Brings, copiedUnless, Transition.copied]

variable [DecidableEq Sym]

/-- One automaton behind another puts on the stack what the two do. -/
lemma brings_concat_iff {q : Pda β Sym} {kept : Option Side} :
    (concat kept p q).Brings a ↔ p.Brings a ∨ q.Brings a := by
  rw [← brings_copiedUnless_iff (p := p) (kept = some .first),
    ← brings_copiedUnless_iff (p := q) (kept = some .second)]
  constructor
  · rintro ⟨t, ht, ha⟩
    rcases mem_transitions_concat.mp ht with ⟨t', ht', rfl⟩ | ⟨t', ht', rfl⟩ | rfl
    · exact .inl ⟨t', ht', ha⟩
    · exact .inr ⟨t', ht', ha⟩
    · exact absurd ha List.not_mem_nil
  · rintro (⟨t, ht, ha⟩ | ⟨t, ht, ha⟩)
    · exact ⟨_, mem_transitions_concat.mpr (.inl ⟨t, ht, rfl⟩), ha⟩
    · exact ⟨_, mem_transitions_concat.mpr (.inr (.inl ⟨t, ht, rfl⟩)), ha⟩

/-- An observed automaton puts nothing more on the stack. -/
lemma brings_of_product {ν : Type} [DecidableEq α] [DecidableEq ν] {n : Nfa ν α}
    (h : (p.product n).Brings a) : p.Brings a := by
  obtain ⟨t, ht, ha⟩ := h
  rcases mem_transitions_product.mp ht with
    ⟨e, -, -, rfl⟩ | ⟨e, -, -, l, -, rfl⟩ | ⟨e, -, t', ht', -, rfl⟩
  · exact absurd ha List.not_mem_nil
  · exact absurd ha List.not_mem_nil
  · exact ⟨t', ht', ha⟩

end Parts

end Pda

namespace Nfa

variable {ν : Type} [DecidableEq ν] {n : Nfa ν StackSymbol} {a : StackSymbol}

/-- A builder puts the marker on the stack and the symbols of its edges. -/
lemma brings_of_builder (h : n.builder.Brings a) :
    a = .marker ∨ ∃ e ∈ n.edges, e.symbol = some a := by
  obtain ⟨t, ht, ha⟩ := h
  rcases mem_transitions_builder.mp ht with ⟨⟨p, s, q⟩, he, rfl⟩ | rfl | rfl
  · cases s with
    | none => exact absurd ha List.not_mem_nil
    | some s =>
        rcases List.mem_pair.mp ha with rfl | rfl
        · exact .inl rfl
        · exact .inr ⟨_, he, rfl⟩
  · exact .inl (List.mem_singleton.mp ha)
  · exact absurd ha List.not_mem_nil

/-- A remover puts nothing on the stack. -/
lemma not_brings_remover : ¬ n.remover.Brings a := by
  rintro ⟨t, ht, ha⟩
  obtain ⟨⟨p, s, q⟩, -, rfl⟩ := mem_transitions_remover.mp ht
  cases s <;> exact absurd ha List.not_mem_nil

end Nfa

/-! ### Networks -/

/-- An action of some rule brings a label in. -/
def Network.Brings (n : Network) (l : Label) : Prop :=
  ∃ t ∈ n.tables, ∃ d ∈ t.destinations, ∃ r ∈ d.rules, ∃ a ∈ r.actions, a.label? = some l

lemma Rule.mem_actionLabels_iff {r : Rule} {labels : List Label} (h : r.actionLabels = .ok labels)
    {l : Label} : l ∈ labels ↔ ∃ a ∈ r.actions, a.label? = some l := by
  unfold Rule.actionLabels at h
  split at h
  · exact absurd h nofun
  · obtain rfl := Except.ok.inj h
    exact List.mem_filterMap

lemma Destination.mem_labels_iff {d : Destination} {labels : List Label}
    (h : d.labels = .ok labels) {l : Label} :
    l ∈ labels ↔ (l.isNamed = true ∧ d.rules ≠ [] ∧ d.label = l) ∨
      ∃ r ∈ d.rules, ∃ a ∈ r.actions, a.label? = some l := by
  obtain ⟨brought, hbrought, h⟩ := exists_of_bind_eq_ok h
  obtain rfl := Except.ok.inj h
  have hrules := mem_flatten_of_mapM_eq_ok (b := l) hbrought fun r _ _ hr l =>
    Rule.mem_actionLabels_iff (l := l) hr
  rw [Text.mem_distinct, List.mem_append, hrules]
  refine or_congr_left ?_
  split
  · rename_i hown
    simp only [Bool.and_eq_true, Bool.not_eq_true', List.isEmpty_eq_false_iff] at hown
    rw [List.mem_singleton]
    exact ⟨fun h => ⟨h ▸ hown.1, hown.2, h.symm⟩, fun h => h.2.2.symm⟩
  · rename_i hown
    simp only [Bool.and_eq_true, Bool.not_eq_true', List.isEmpty_eq_false_iff, not_and] at hown
    refine ⟨fun h => absurd h List.not_mem_nil, fun ⟨hnamed, hrules, hl⟩ => ?_⟩
    exact absurd hrules (hown (hl ▸ hnamed))

/-- **The labels of a network** are those that its actions bring in and the named ones that its
rules are for. -/
lemma Network.mem_labels_iff {n : Network} {labels : List Label} (h : n.labels = .ok labels)
    {l : Label} : l ∈ labels ↔ n.Brings l ∨
      (l.isNamed = true ∧ ∃ t ∈ n.tables, ∃ d ∈ t.destinations, d.rules ≠ [] ∧ d.label = l) := by
  obtain ⟨parts, hparts, h⟩ := exists_of_bind_eq_ok h
  obtain rfl := Except.ok.inj h
  rw [Text.mem_distinct, mem_flatten_of_mapM_eq_ok hparts fun t _ ls ht l =>
    show l ∈ ls ↔ ∃ d ∈ t.destinations, (l.isNamed = true ∧ d.rules ≠ [] ∧ d.label = l) ∨
      ∃ r ∈ d.rules, ∃ a ∈ r.actions, a.label? = some l from ?_]
  · constructor
    · rintro ⟨t, ht, d, hd, ⟨hnamed, hrules, hl⟩ | hbrings⟩
      · exact .inr ⟨hnamed, t, ht, d, hd, hrules, hl⟩
      · exact .inl ⟨t, ht, d, hd, hbrings⟩
    · rintro (⟨t, ht, d, hd, hbrings⟩ | ⟨hnamed, t, ht, d, hd, hrules, hl⟩)
      · exact ⟨t, ht, d, hd, .inr hbrings⟩
      · exact ⟨t, ht, d, hd, .inl ⟨hnamed, hrules, hl⟩⟩
  · obtain ⟨parts', hparts', ht⟩ := exists_of_bind_eq_ok ht
    obtain rfl := Except.ok.inj ht
    rw [Text.mem_distinct]
    exact mem_flatten_of_mapM_eq_ok hparts' fun d _ _ hd l => Destination.mem_labels_iff (l := l) hd

namespace Query

variable {labels : List Label} {l : Label}

/-- Labels of a network that a header may have are labels of the network. -/
lemma mem_of_mem_labelDomain (h : l ∈ labelDomain labels) : l ∈ labels :=
  (Dictionary.mem_of_mem_putAll h).resolve_left List.not_mem_nil

/-- If labels have different names, a header may have all of them. -/
lemma mem_labelDomain_iff (h : (labels.map Label.name).Nodup) :
    l ∈ labelDomain labels ↔ l ∈ labels := by
  refine ⟨mem_of_mem_labelDomain, fun hl => ?_⟩
  have hname : l.name ∈ (labelDomain labels).map Label.name :=
    Dictionary.mem_keys_putAll_iff.mpr (.inr (List.mem_map_of_mem hl))
  obtain ⟨m, hm, heq⟩ := List.mem_map.mp hname
  rwa [← List.inj_on_of_nodup_map h (mem_of_mem_labelDomain hm) hl heq]

end Query

section Forwarding

variable {Spent : Type} [DecidableEq Spent] {n : Network} {s : StackSymbol}

/-- An action puts the symbol of its label on the stack. -/
lemma Action.exists_label_of_op {a : Action} {o : Op StackSymbol} (h : a.op = .ok o)
    (hs : s ∈ o.symbols) : ∃ l, a.label? = some l ∧ s = .ofLabel l := by
  cases a with
  | push l =>
      obtain rfl := Except.ok.inj h
      exact ⟨l, rfl, List.mem_singleton.mp hs⟩
  | swap l =>
      obtain rfl := Except.ok.inj h
      exact ⟨l, rfl, List.mem_singleton.mp hs⟩
  | pop =>
      obtain rfl := Except.ok.inj h
      exact absurd hs List.not_mem_nil
  | noop => exact absurd h nofun
  | unknown => exact absurd h nofun

/-- The marker is no label. -/
lemma StackSymbol.marker_ne_ofLabel (l : Label) : marker ≠ ofLabel l := by
  cases l <;> simp [ofLabel]

/-- A forwarding automaton whose moves and exits do nothing and whose moves lead to rules of a
network puts labels on the stack that actions of the network bring in. -/
lemma Network.exists_of_brings_forwarding {moves exits : List (Transition (Hop Spent) StackSymbol)}
    {M : Pda (Hop Spent) StackSymbol} (h : forwarding moves exits = .ok M)
    (hmoves : ∀ m ∈ moves, m.op = .noop ∧
      ∃ p, ∃ o ∈ n.offersAt p, ∃ e, m.target = o.hop p.router e)
    (hexits : ∀ m ∈ exits, m.op = .noop) (hs : M.Brings s) :
    ∃ l, n.Brings l ∧ s = .ofLabel l := by
  obtain ⟨t, ht, hs⟩ := hs
  rcases (mem_transitions_forwarding_iff h).mp ht with
    hm | ⟨p, cs, e, a, bs, op, ⟨m, hm, htarget⟩, hsuffix, hop, rfl⟩ | hm
  · rw [(hmoves t hm).1] at hs
    exact absurd hs List.not_mem_nil
  · obtain ⟨-, p', o, ho, e', htarget'⟩ := hmoves m hm
    obtain ⟨l, hl, rfl⟩ := Action.exists_label_of_op hop hs
    obtain ⟨-, rfl, -⟩ := Hop.at.inj (htarget'.symm.trans htarget)
    obtain ⟨d, hd, i, g, r, hg, hr, rfl⟩ := Network.mem_offersAt_iff.mp ho
    obtain ⟨table, htable, -, hd, -⟩ := Network.mem_destinationsAt_iff.mp hd
    exact ⟨l, ⟨table, htable, d, hd, r, Destination.mem_rules hg hr, a,
      hsuffix.subset List.mem_cons_self, hl⟩, rfl⟩
  · rw [hexits t hm] at hs
    exact absurd hs List.not_mem_nil

variable {k : Int}

lemma Network.exists_of_brings_over {M : Pda (Hop Unit) StackSymbol}
    (h : n.overForwarding k = .ok M) (hs : M.Brings s) : ∃ l, n.Brings l ∧ s = .ofLabel l := by
  refine exists_of_brings_forwarding h (fun m hm => ?_) (fun m hm => ?_) hs
  · rcases List.mem_append.mp hm with hm | hm
    · obtain ⟨p, -, o, ho, rfl⟩ := mem_overEntries_iff.mp hm
      exact ⟨rfl, p, o, ho, (), rfl⟩
    · obtain ⟨-, p, -, o, ho, -, rfl⟩ := mem_overCrossings_iff.mp hm
      exact ⟨rfl, p, o, ho, (), rfl⟩
  · obtain ⟨p, -, rfl⟩ := List.mem_map.mp hm
    rfl

lemma Network.exists_of_brings_under {M : Pda (Hop Nat) StackSymbol}
    (h : n.underForwarding k = .ok M) (hs : M.Brings s) : ∃ l, n.Brings l ∧ s = .ofLabel l := by
  refine exists_of_brings_forwarding h (fun m hm => ?_) (fun m hm => ?_) hs
  · rcases mem_underMoves_iff.mp hm with ⟨p, -, o, ho, rfl⟩ | ⟨-, p, -, o, ho, spent, -, rfl⟩
    · exact ⟨rfl, p, o, (List.takeWhile_sublist _).subset ho, o.before, rfl⟩
    · exact ⟨rfl, p, o, ho, spent + o.before, rfl⟩
  · obtain ⟨p, -, spent, -, rfl⟩ := mem_underExits_iff.mp hm
    rfl

/-! ### The three parts -/

variable {M : Pda (Hop Spent) StackSymbol} {a : Query.Automata Spent}

/-- **What the three parts of a query put on the stack**: the marker, labels that the header in
front of the network may have, and what forwarding brings in. -/
lemma brings_whole {takeOver : Bool} (h : ((a.parts M).whole takeOver).Brings s) :
    s = .marker ∨ (∃ e ∈ a.constructing.edges, ∃ l, e.symbol = some l ∧ s = .ofLabel l) ∨
      M.Brings s := by
  rcases Pda.brings_concat_iff.mp h with h | h
  · rcases Pda.brings_concat_iff.mp h with h | h
    · rcases Nfa.brings_of_builder h with rfl | ⟨e, he, hs⟩
      · exact .inl rfl
      · obtain ⟨e', he', rfl⟩ := List.mem_map.mp he
        obtain ⟨l, hl, rfl⟩ := Option.map_eq_some_iff.mp hs
        exact .inr (.inl ⟨e', he', l, hl, rfl⟩)
    · exact .inr (.inr (Pda.brings_of_product h))
  · exact absurd h Nfa.not_brings_remover

end Forwarding

end MplsReach
