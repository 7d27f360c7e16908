/-
Runs of forwarding automata, hop by hop.

* `Action.onStack`, `Action.allOnStack`: what actions do to a stack.
* `passed`: the endpoints that a run passes, each when its actions are done.
* `Passage`: the rest of a way, from where all actions of a hop are done: the packet leaves the
  network, or it crosses to the next hop.
* `exists_run_iff`: **a run through a forwarding automaton is an entry and a passage.**
-/
import MplsReach.Proofs.Forwarding

namespace MplsReach

/-! ### Actions on a stack -/

/-- What an action does to a stack; there is nothing to do it to if the stack is empty. -/
def Action.onStack (a : Action) : List StackSymbol → Option (List StackSymbol)
  | [] => none
  | s :: w =>
    match a.op with
    | .ok o => some (o.apply s ++ w)
    | .error _ => none

/-- What actions do to a stack, one after the other. -/
def Action.allOnStack : List Action → List StackSymbol → Option (List StackSymbol)
  | [], w => some w
  | a :: as, w => (a.onStack w).bind (Action.allOnStack as)

lemma Action.onStack_eq_some_iff {a : Action} {w w' : List StackSymbol} :
    a.onStack w = some w' ↔ ∃ o s v, a.op = .ok o ∧ w = s :: v ∧ w' = o.apply s ++ v := by
  cases w with
  | nil => simp [Action.onStack]
  | cons s v =>
      rw [Action.onStack]
      cases a.op with
      | error f => simp
      | ok o => simp [eq_comm]

/-! ### Hops that are passed -/

variable {Spent : Type}

/-- The endpoint of a hop whose actions are done. -/
def Hop.done? : Hop Spent → Option Endpoint
  | .at p [] _ => some p
  | _ => none

/-- The endpoints that are passed on the way through locations. -/
def passed (ls : List (Hop Spent)) : List Endpoint := ls.filterMap Hop.done?

/-- Moves lead from in front of the network, or from where all actions are done, to a hop; they look
at one symbol and leave the stack as it is. Exits lead from where all actions are done. -/
structure Moving (moves exits : List (Transition (Hop Spent) StackSymbol)) : Prop where
  source : ∀ t ∈ moves, t.source = .start ∨ ∃ p e, t.source = .at p [] e
  target : ∀ t ∈ moves, ∃ p as e, t.target = .at p as e
  input : ∀ t ∈ moves, ∃ a, t.input = .on a
  op : ∀ t ∈ moves, t.op = .noop
  exits : ∀ t ∈ exits, ∃ p e, t = exit p e

/-- Entries and crossings by rules are moves. -/
lemma moving_of_offers {moves exits : List (Transition (Hop Spent) StackSymbol)}
    (hmoves : ∀ t ∈ moves, ∃ (o : Offer) (r : RouterId) (e : Spent),
      t = o.enter r e ∨ ∃ p f, t = o.cross (.at p [] f) r e)
    (hexits : ∀ t ∈ exits, ∃ p e, t = exit p e) : Moving moves exits := by
  refine ⟨fun t ht => ?_, fun t ht => ?_, fun t ht => ?_, fun t ht => ?_, hexits⟩
  · obtain ⟨o, r, e, rfl | ⟨p, f, rfl⟩⟩ := hmoves t ht
    · exact .inl rfl
    · exact .inr ⟨p, f, rfl⟩
  · obtain ⟨o, r, e, rfl | ⟨p, f, rfl⟩⟩ := hmoves t ht
    · exact ⟨_, _, _, rfl⟩
    · exact ⟨_, _, _, rfl⟩
  · obtain ⟨o, r, e, rfl | ⟨p, f, rfl⟩⟩ := hmoves t ht
    · exact ⟨_, rfl⟩
    · exact ⟨_, rfl⟩
  · obtain ⟨o, r, e, rfl | ⟨p, f, rfl⟩⟩ := hmoves t ht
    · rfl
    · rfl

/-- The rest of a way from an endpoint where all actions are done: the packet leaves the network, or
it crosses to the next hop, whose actions are done to the stack. -/
inductive Passage (moves exits : List (Transition (Hop Spent) StackSymbol)) :
    Endpoint → Spent → List StackSymbol → List Endpoint → List StackSymbol → Prop where
  | leave {p : Endpoint} {e : Spent} {s : List StackSymbol} :
      exit p e ∈ exits → s ≠ [] → Passage moves exits p e s [] s
  | cross {p q : Endpoint} {e f : Spent} {t : Transition (Hop Spent) StackSymbol}
      {a : StackSymbol} {w s v : List StackSymbol} {as : List Action} {ps : List Endpoint} :
      t ∈ moves → t.source = .at p [] e → t.target = .at q as f → t.input = .on a →
        Action.allOnStack as (a :: w) = some s → Passage moves exits q f s ps v →
          Passage moves exits p e (a :: w) (q :: ps) v

variable [DecidableEq Spent] {moves exits : List (Transition (Hop Spent) StackSymbol)}
  {M : Pda (Hop Spent) StackSymbol}

/-! ### Steps -/

/-- **Steps of a forwarding automaton**: a move, an action, or an exit. -/
lemma step_forwarding_iff (hM : forwarding moves exits = .ok M) (hm : Moving moves exits)
    {c d : Config (Hop Spent) StackSymbol} :
    M.Step c d ↔
      (∃ t ∈ moves, ∃ a w, t.input = .on a ∧ c = ⟨t.source, a :: w⟩ ∧ d = ⟨t.target, a :: w⟩) ∨
      (∃ p cs e a bs s s', (∃ m ∈ moves, m.target = .at p cs e) ∧ a :: bs <:+ cs ∧
        a.onStack s = some s' ∧ c = ⟨.at p (a :: bs) e, s⟩ ∧ d = ⟨.at p bs e, s'⟩) ∨
      ∃ p e s, exit p e ∈ exits ∧ s ≠ [] ∧ c = ⟨.at p [] e, s⟩ ∧ d = ⟨.finish, s⟩ := by
  constructor
  · intro h
    obtain ⟨t, ht, b, w, hb, rfl, rfl⟩ := Pda.step_iff.mp h
    rcases (mem_transitions_forwarding_iff hM).mp ht with
      ht | ⟨p, cs, e, a, bs, o, hcs, hbs, ho, rfl⟩ | ht
    · obtain ⟨a, ha⟩ := hm.input t ht
      obtain rfl : a = b := by simpa [ha, Input.admits] using hb
      exact .inl ⟨t, ht, a, w, ha, rfl, by rw [hm.op t ht]; rfl⟩
    · have hstack := Action.onStack_eq_some_iff.mpr ⟨o, b, w, ho, rfl, rfl⟩
      exact .inr (.inl ⟨p, cs, e, a, bs, _, _, hcs, hbs, hstack, rfl, rfl⟩)
    · obtain ⟨p, e, rfl⟩ := hm.exits t ht
      exact .inr (.inr ⟨p, e, b :: w, ht, List.cons_ne_nil b w, rfl, rfl⟩)
  · rintro (⟨t, ht, a, w, ha, rfl, rfl⟩ | ⟨p, cs, e, a, bs, s, s', hcs, hbs, hs, rfl, rfl⟩ |
      ⟨p, e, s, hexit, hs, rfl, rfl⟩)
    · have hstep := Pda.step_of_mem (a := a) ((mem_transitions_forwarding_iff hM).mpr (.inl ht))
        (by simp [ha, Input.admits]) w
      rwa [hm.op t ht] at hstep
    · obtain ⟨o, b, w, ho, rfl, rfl⟩ := Action.onStack_eq_some_iff.mp hs
      exact Pda.step_of_mem ((mem_transitions_forwarding_iff hM).mpr
        (.inr (.inl ⟨p, cs, e, a, bs, o, hcs, hbs, ho, rfl⟩))) rfl w
    · obtain ⟨b, w, rfl⟩ := List.exists_cons_of_ne_nil hs
      exact Pda.step_of_mem ((mem_transitions_forwarding_iff hM).mpr (.inr (.inr hexit))) rfl w

/-- A step from a hop with actions to do does the first of them. -/
lemma step_busy (hM : forwarding moves exits = .ok M) (hm : Moving moves exits) {p : Endpoint}
    {a : Action} {as : List Action} {e : Spent} {s : List StackSymbol}
    {d : Config (Hop Spent) StackSymbol} (h : M.Step ⟨.at p (a :: as) e, s⟩ d) :
    ∃ s', a.onStack s = some s' ∧ d = ⟨.at p as e, s'⟩ := by
  rcases (step_forwarding_iff hM hm).mp h with ⟨t, ht, b, w, -, hc, -⟩ |
    ⟨q, cs, f, b, bs, u, u', -, -, hu, hc, rfl⟩ | ⟨q, f, u, -, -, hc, -⟩
  · obtain ⟨hsource, -⟩ := Config.mk.inj hc
    rcases hm.source t ht with hstart | ⟨q, f, hat⟩
    · simp [hstart] at hsource
    · simp [hat] at hsource
  · obtain ⟨hat, rfl⟩ := Config.mk.inj hc
    obtain ⟨rfl, hcons, rfl⟩ := Hop.at.inj hat
    obtain ⟨rfl, rfl⟩ := List.cons.inj hcons
    exact ⟨u', hu, rfl⟩
  · simp at hc

/-- A step from a hop whose actions are done crosses to another hop, or leaves the network. -/
lemma step_done (hM : forwarding moves exits = .ok M) (hm : Moving moves exits) {p : Endpoint}
    {e : Spent} {s : List StackSymbol} {d : Config (Hop Spent) StackSymbol}
    (h : M.Step ⟨.at p [] e, s⟩ d) :
    (∃ t ∈ moves, ∃ a w, t.source = .at p [] e ∧ t.input = .on a ∧ s = a :: w ∧
      d = ⟨t.target, s⟩) ∨ (exit p e ∈ exits ∧ s ≠ [] ∧ d = ⟨.finish, s⟩) := by
  rcases (step_forwarding_iff hM hm).mp h with ⟨t, ht, b, w, hb, hc, rfl⟩ |
    ⟨q, cs, f, b, bs, u, u', -, -, -, hc, -⟩ | ⟨q, f, u, hexit, hu, hc, rfl⟩
  · obtain ⟨hsource, rfl⟩ := Config.mk.inj hc
    exact .inl ⟨t, ht, b, w, hsource.symm, hb, rfl, rfl⟩
  · simp at hc
  · obtain ⟨hat, rfl⟩ := Config.mk.inj hc
    obtain ⟨rfl, -, rfl⟩ := Hop.at.inj hat
    exact .inr ⟨hexit, hu, rfl⟩

/-- A step from in front of the network enters it. -/
lemma step_start (hM : forwarding moves exits = .ok M) (hm : Moving moves exits)
    {s : List StackSymbol} {d : Config (Hop Spent) StackSymbol} (h : M.Step ⟨.start, s⟩ d) :
    ∃ t ∈ moves, ∃ a w, t.source = .start ∧ t.input = .on a ∧ s = a :: w ∧ d = ⟨t.target, s⟩ := by
  rcases (step_forwarding_iff hM hm).mp h with ⟨t, ht, b, w, hb, hc, rfl⟩ |
    ⟨q, cs, f, b, bs, u, u', -, -, -, hc, -⟩ | ⟨q, f, u, -, -, hc, -⟩
  · obtain ⟨hsource, rfl⟩ := Config.mk.inj hc
    exact ⟨t, ht, b, w, hsource.symm, hb, rfl, rfl⟩
  · simp at hc
  · simp at hc

/-- Behind the network there are no steps. -/
lemma not_step_finish (hM : forwarding moves exits = .ok M) (hm : Moving moves exits)
    {s : List StackSymbol} {d : Config (Hop Spent) StackSymbol} : ¬ M.Step ⟨.finish, s⟩ d := by
  intro h
  rcases (step_forwarding_iff hM hm).mp h with ⟨t, ht, b, w, -, hc, -⟩ |
    ⟨q, cs, f, b, bs, u, u', -, -, -, hc, -⟩ | ⟨q, f, u, -, -, hc, -⟩
  · obtain ⟨hsource, -⟩ := Config.mk.inj hc
    rcases hm.source t ht with hstart | ⟨q, f, hat⟩
    · simp [hstart] at hsource
    · simp [hat] at hsource
  · simp at hc
  · simp at hc

/-! ### Runs -/

/-- A run from a hop to behind the network does the actions of the hop and then makes a passage. -/
lemma exists_passage_of_run (hM : forwarding moves exits = .ok M) (hm : Moving moves exits)
    {p : Endpoint} {as : List Action} {e : Spent} {s v : List StackSymbol} {ls : List (Hop Spent)}
    (h : M.Run ⟨.at p as e, s⟩ ls ⟨.finish, v⟩) :
    ∃ s' ps, Action.allOnStack as s = some s' ∧ passed (.at p as e :: ls) = p :: ps ∧
      Passage moves exits p e s' ps v := by
  generalize hc : (⟨.at p as e, s⟩ : Config (Hop Spent) StackSymbol) = c at h
  generalize hd : (⟨.finish, v⟩ : Config (Hop Spent) StackSymbol) = d at h
  induction h generalizing p as e s with
  | refl => exact absurd (Config.mk.inj (hc.trans hd.symm)).1 (by simp)
  | @step c d' d ls hstep hrun ih =>
      subst hc
      cases as with
      | cons a as =>
          obtain ⟨s', hs', rfl⟩ := step_busy hM hm hstep
          obtain ⟨s'', ps, hs'', hpassed, hpassage⟩ := ih rfl hd
          exact ⟨s'', ps, by simp [Action.allOnStack, hs', hs''], hpassed, hpassage⟩
      | nil =>
          rcases step_done hM hm hstep with ⟨t, ht, a, w, hsource, ha, rfl, rfl⟩ | ⟨hexit, hs, rfl⟩
          · obtain ⟨q, bs, f, htarget⟩ := hm.target t ht
            obtain ⟨s', ps, hs', hpassed, hpassage⟩ := ih (by rw [htarget]) hd
            refine ⟨a :: w, q :: ps, rfl, ?_, .cross ht hsource htarget ha hs' hpassage⟩
            rw [← hpassed, htarget]
            rfl
          · cases hrun with
            | refl =>
                obtain ⟨-, rfl⟩ := Config.mk.inj hd
                exact ⟨v, [], rfl, rfl, .leave hexit hs⟩
            | step hstep' => exact absurd hstep' (not_step_finish hM hm)

/-- The actions of a hop are done one after the other. -/
lemma exists_run_of_allOnStack (hM : forwarding moves exits = .ok M) (hm : Moving moves exits)
    {p : Endpoint} {cs as : List Action} {e : Spent} {s s' : List StackSymbol}
    (hcs : ∃ m ∈ moves, m.target = .at p cs e) (has : as <:+ cs)
    (h : Action.allOnStack as s = some s') :
    ∃ ls, M.Run ⟨.at p as e, s⟩ ls ⟨.at p [] e, s'⟩ ∧ passed (.at p as e :: ls) = [p] := by
  induction as generalizing s with
  | nil =>
      obtain rfl := Option.some.inj h
      exact ⟨[], .refl _, rfl⟩
  | cons a as ih =>
      obtain ⟨s₁, hs₁, h⟩ := Option.bind_eq_some_iff.mp h
      obtain ⟨ls, hrun, hpassed⟩ := ih ((List.suffix_cons a as).trans has) h
      have hstep : M.Step ⟨.at p (a :: as) e, s⟩ ⟨.at p as e, s₁⟩ :=
        (step_forwarding_iff hM hm).mpr
          (.inr (.inl ⟨p, cs, e, a, as, s, s₁, hcs, has, hs₁, rfl, rfl⟩))
      exact ⟨.at p as e :: ls, .step hstep hrun, hpassed⟩

/-- A passage is made by a run. -/
lemma exists_run_of_passage (hM : forwarding moves exits = .ok M) (hm : Moving moves exits)
    {p : Endpoint} {e : Spent} {s v : List StackSymbol} {ps : List Endpoint}
    (h : Passage moves exits p e s ps v) :
    ∃ ls, M.Run ⟨.at p [] e, s⟩ ls ⟨.finish, v⟩ ∧ passed ls = ps := by
  induction h with
  | @leave p e s hexit hs =>
      have hstep : M.Step ⟨.at p [] e, s⟩ ⟨.finish, s⟩ :=
        (step_forwarding_iff hM hm).mpr (.inr (.inr ⟨p, e, s, hexit, hs, rfl, rfl⟩))
      exact ⟨[.finish], .step hstep (.refl _), rfl⟩
  | @cross p q e f t a w s v as ps ht hsource htarget ha has _ ih =>
      obtain ⟨ls, hrun, hpassed⟩ := exists_run_of_allOnStack hM hm ⟨t, ht, htarget⟩
        (List.suffix_refl as) has
      obtain ⟨ms, hrun', hpassed'⟩ := ih
      have hstep : M.Step ⟨.at p [] e, a :: w⟩ ⟨.at q as f, a :: w⟩ :=
        (step_forwarding_iff hM hm).mpr
          (.inl ⟨t, ht, a, w, ha, by rw [hsource], by rw [htarget]⟩)
      refine ⟨.at q as f :: ls ++ ms, .step hstep (hrun.append hrun'), ?_⟩
      rw [passed, List.filterMap_append]
      exact congrArg₂ (· ++ ·) hpassed hpassed'

/-- **Runs of a forwarding automaton**: a run from in front of the network to behind it is an entry,
whose actions are done, and a passage from there. -/
lemma exists_run_iff (hM : forwarding moves exits = .ok M) (hm : Moving moves exits)
    {s v : List StackSymbol} {ps : List Endpoint} :
    (∃ ls, M.Run ⟨.start, s⟩ ls ⟨.finish, v⟩ ∧ passed ls = ps) ↔
      ∃ t ∈ moves, ∃ a w p as e s' qs, t.source = .start ∧ t.target = .at p as e ∧
        t.input = .on a ∧ s = a :: w ∧ Action.allOnStack as s = some s' ∧ ps = p :: qs ∧
        Passage moves exits p e s' qs v := by
  constructor
  · rintro ⟨ls, hrun, rfl⟩
    cases hrun with
    | step hstep hrun =>
        obtain ⟨t, ht, a, w, hsource, ha, rfl, rfl⟩ := step_start hM hm hstep
        obtain ⟨p, as, e, htarget⟩ := hm.target t ht
        rw [htarget] at hrun ⊢
        obtain ⟨s', qs, hs', hpassed, hpassage⟩ := exists_passage_of_run hM hm hrun
        exact ⟨t, ht, a, w, p, as, e, s', qs, hsource, htarget, ha, rfl, hs', hpassed, hpassage⟩
  · rintro ⟨t, ht, a, w, p, as, e, s', qs, hsource, htarget, ha, rfl, hs', rfl, hpassage⟩
    obtain ⟨ls, hrun, hpassed⟩ := exists_run_of_allOnStack hM hm ⟨t, ht, htarget⟩
      (List.suffix_refl as) hs'
    obtain ⟨ms, hrun', hpassed'⟩ := exists_run_of_passage hM hm hpassage
    have hstep : M.Step ⟨.start, a :: w⟩ ⟨.at p as e, a :: w⟩ :=
      (step_forwarding_iff hM hm).mpr (.inl ⟨t, ht, a, w, ha, by rw [hsource], by rw [htarget]⟩)
    refine ⟨.at p as e :: ls ++ ms, .step hstep (hrun.append hrun'), ?_⟩
    rw [passed, List.filterMap_append]
    exact congrArg₂ (· ++ ·) hpassed hpassed'

end MplsReach
