/-
How the mark of the lowest label is passed along.

* `givenName`: the name that marking gives to the label of an action.
* `PassesMarks`: a swapped label has the mark of the label that the rule is for, a pushed one is
  above another, unless the packet had no label.
* `passesMarks_iff`: this holds if and only if all labels are brought in by rules for labels that
  were marked as upper ones.
-/
import MplsReach.Proofs.Copies

namespace MplsReach.Dump

variable {d d' d₁ : Dump} {done : List (Option String)} {x : LabelId}

lemma Rule.label?_eq_some_iff {r : Rule} : r.label? = some x ↔ r.arrival = .labelled x := by
  cases h : r.arrival <;> simp [Rule.label?, h]

/-! ### Actions in their order -/

/-- The actions of a rule, each with the packets that it is for. -/
def Rule.steps (r : Rule) : List (Arrival × Action) := r.actions.map (r.arrival, ·)

/-- The actions of a table, each with the packets that it is for. -/
def Table.steps (t : Table) : List (Arrival × Action) := t.rules.flatMap Rule.steps

section Leaves

variable {ps qs : List (Arrival × Action)} {rs cs : List Rule}

lemma leaves_append_iff : Leaves (ps ++ qs) x ↔ Leaves ps x ∧ Leaves qs x := List.forall_mem_append

lemma leaves_map_iff {arrival : Arrival} {as : List Action} :
    Leaves (as.map (arrival, ·)) x ↔ x ∉ as.filterMap Action.label? := by
  simp [Leaves]

lemma leaves_steps_iff : Leaves (rs.flatMap Rule.steps) x ↔ x ∉ rs.flatMap Rule.brings := by
  induction rs with
  | nil => simp [Leaves]
  | cons r rs ih =>
      rw [List.flatMap_cons, List.flatMap_cons, leaves_append_iff, List.mem_append, not_or, ih,
        Rule.steps, leaves_map_iff, Rule.brings]

/-- Copies bring in what the rules bring in. -/
lemma brings_of_copies {name : LabelId → String} {next : Nat}
    (h : List.Forall₂ (IsCopy name next d₁) rs cs) :
    cs.flatMap Rule.brings = rs.flatMap Rule.brings := by
  induction h with
  | nil => rfl
  | cons hcopy _ ih =>
      obtain ⟨l, l', -, rfl, -, -⟩ := hcopy
      rw [List.flatMap_cons, List.flatMap_cons, ih]
      rfl

lemma notMem_brings_filter (p : Rule → Bool) (hx : x ∉ rs.flatMap Rule.brings) :
    x ∉ (rs.filter p).flatMap Rule.brings := fun hmem => by
  obtain ⟨r, hr, hxr⟩ := List.mem_flatMap.mp hmem
  exact hx (List.mem_flatMap.mpr ⟨r, List.mem_of_mem_filter hr, hxr⟩)

lemma Grown.leaves {t t₁ : Table} (h : Grown d done d₁ t t₁) (hx : x ∉ t.brings) :
    Leaves t₁.steps x := by
  obtain ⟨-, cs, hrules, hcs⟩ := h
  rw [Table.steps, hrules, List.flatMap_append, leaves_append_iff, leaves_steps_iff,
    leaves_steps_iff, brings_of_copies hcs]
  refine ⟨hx, ?_⟩
  rw [copied]
  split
  · exact notMem_brings_filter _ hx
  · exact List.not_mem_nil

lemma leaves_of_grown {ts ts₁ : List Table} (h : List.Forall₂ (Grown d done d₁) ts ts₁)
    (hx : x ∉ ts.flatMap Table.brings) : Leaves (ts₁.flatMap Table.steps) x := by
  induction h with
  | nil => simp [Leaves]
  | cons hgrown _ ih =>
      rw [List.flatMap_cons, List.mem_append, not_or] at hx
      rw [List.flatMap_cons, leaves_append_iff]
      exact ⟨hgrown.leaves hx.1, ih hx.2⟩

end Leaves

/-! ### The names of labels that actions bring in -/

/-- The name of the label of an action, once it is marked. Only the labels of rules for upper labels
are marked once and as upper ones. -/
def givenName (d : Dump) (arrival : Arrival) (a : Action) (name : String) : String :=
  match arrival, a with
  | .ethernet _, _ => name ++ upperMark
  | .labelled m, .swap _ =>
    if d.isUpper m then name ++ upperMark
    else Text.replace lowestMark upperMark (name ++ lowestMark)
  | .labelled m, _ => if d.isUpper m then name ++ upperMark else name ++ upperMark ++ upperMark

section Names

variable {t : Table} {r : Rule} {a : Action}

/-- Where the one action stands that brings a label in. -/
lemma Apart.exists_split (hd : Apart d) (ht : t ∈ d.tables) (hr : r ∈ t.rules) (ha : a ∈ r.actions)
    (hx : a.label? = some x) :
    ∃ T T' R R' A A', d.tables = T ++ t :: T' ∧ t.rules = R ++ r :: R' ∧ r.actions = A ++ a :: A' ∧
      x ∉ T.flatMap Table.brings ∧ x ∉ R.flatMap Rule.brings ∧ x ∉ A.filterMap Action.label? ∧
      x ∉ A'.filterMap Action.label? ∧ x ∉ R'.flatMap Rule.brings ∧
      x ∉ T'.flatMap Table.brings := by
  obtain ⟨T, T', hT⟩ := List.append_of_mem ht
  obtain ⟨R, R', hR⟩ := List.append_of_mem hr
  obtain ⟨A, A', hA⟩ := List.append_of_mem ha
  have hsplit : d.tables.flatMap Table.brings =
      (T.flatMap Table.brings ++ (R.flatMap Rule.brings ++ A.filterMap Action.label?)) ++
        x :: (A'.filterMap Action.label? ++ R'.flatMap Rule.brings ++ T'.flatMap Table.brings) := by
    simp [hT, Table.brings, hR, Rule.brings, hA, hx]
  have hnodup := hd.labels.of_append_right
  rw [hsplit] at hnodup
  have hnot := (List.nodup_cons.mp (List.perm_middle.nodup_iff.mp hnodup)).1
  simp only [List.mem_append, not_or] at hnot
  exact ⟨T, T', R, R', A, A', hT, hR, hA, hnot.1.1, hnot.1.2.1, hnot.1.2.2, hnot.2.1.1, hnot.2.1.2,
    hnot.2.2⟩

/-- The labels of rules are not marked together with those that actions bring in. -/
lemma Completed.leaves_arrival {m : LabelId} (hd : Separate d) (hc : Completed d done d₁)
    (ht : t ∈ d.tables) (hr : r ∈ t.rules) (hm : r.label? = some m) :
    Leaves (d₁.tables.flatMap Table.steps) m := by
  refine leaves_of_grown hc.tables fun hmem => ?_
  refine hd.disjoint (List.mem_flatMap.mpr ⟨t, ht, ?_⟩) hmem
  exact List.mem_filterMap.mpr ⟨r, hr, hm⟩

lemma Completed.leaves_new {m : LabelId} (hd : Separate d) (hc : Completed d done d₁)
    (hm : d.labels.length ≤ m) : Leaves (d₁.tables.flatMap Table.steps) m :=
  leaves_of_grown hc.tables fun hmem =>
    absurd (hd.known m (List.mem_append_right _ hmem)) (Nat.not_lt.mpr hm)

/-- The labels that actions bring in have the names that they had, until they are marked. -/
lemma Completed.labelName_brought (hd : Separate d) (hc : Completed d done d₁)
    (hx : x ∈ d.tables.flatMap Table.brings) : d₁.labelName x = d.labelName x := by
  refine labelName_eq (hc.kept x (hd.known x (List.mem_append_right _ hx)) ?_)
  rintro ⟨-, t, ht, -, hx'⟩
  exact hd.disjoint (List.mem_flatMap.mpr ⟨t, ht, hx'⟩) hx

lemma Completed.exists_table (hc : Completed d done d₁) (ht : t ∈ d.tables) :
    ∃ t₁ ∈ d₁.tables, ∀ r ∈ t.rules, r ∈ t₁.rules := by
  obtain ⟨T, T', hT⟩ := List.append_of_mem ht
  obtain ⟨S, t₁, S', hS, -, ⟨-, cs, hrules, -⟩, -⟩ :=
    exists_of_forall₂_append_cons (hT ▸ hc.tables)
  exact ⟨t₁, by simp [hS], fun r hr => hrules ▸ List.mem_append_left _ hr⟩

/-- Completing the tables does not change which rules are for upper labels. -/
lemma Completed.isUpper_arrival {m : LabelId} (hd : Separate d) (hc : Completed d done d₁)
    (ht : t ∈ d.tables) (hr : r ∈ t.rules) (hm : r.label? = some m) :
    d₁.isUpper m = d.isUpper m := by
  by_cases hlow : LowAt d done m
  · rw [hlow.1, isUpper, labelName, hc.lowest m hlow]
    exact endsIn_upper_lowest _
  · have hmem : m ∈ t.arrivals := List.mem_filterMap.mpr ⟨r, hr, hm⟩
    exact isUpper_eq (hc.kept m (hd.lt_of_mem_arrivals ht hmem) hlow)

variable (hd : Apart d) (hc : Completed d done d₁) (hdone : ∀ t ∈ d.tables, t.router ∈ done)
  (hmarks : Marks d₁ (d₁.tables.flatMap Table.steps) d') (ht : t ∈ d.tables) (hr : r ∈ t.rules)
  (ha : a ∈ r.actions) (hx : a.label? = some x)

include hd hc hdone hmarks ht hr ha hx

omit hmarks in
/-- Besides one action of a rule, only the same action of a copy of the rule brings in its label. -/
lemma Completed.exists_steps :
    ∃ ps qs us R R' A A' cs, d₁.tables.flatMap Table.steps =
        ps ++ (r.arrival, a) :: (qs ++ (cs.flatMap Rule.steps ++ us)) ∧
      List.Forall₂ (IsCopy (fun l => d.labelName l ++ lowestMark) d.labels.length d₁)
        ((R ++ r :: R').filter (isLow d)) cs ∧
      r.actions = A ++ a :: A' ∧ Leaves ps x ∧ Leaves qs x ∧ Leaves us x ∧
      x ∉ R.flatMap Rule.brings ∧ x ∉ R'.flatMap Rule.brings ∧
      x ∉ A.filterMap Action.label? ∧ x ∉ A'.filterMap Action.label? := by
  obtain ⟨T, T', R, R', A, A', hT, hR, hA, hxT, hxR, hxA, hxA', hxR', hxT'⟩ :=
    hd.exists_split ht hr ha hx
  obtain ⟨S, t₁, S', hS, hTS, ⟨-, cs, hrules, hcs⟩, hTS'⟩ :=
    exists_of_forall₂_append_cons (hT ▸ hc.tables)
  rw [copied, if_pos (hdone t ht), hR] at hcs
  refine ⟨S.flatMap Table.steps ++ (R.flatMap Rule.steps ++ A.map (r.arrival, ·)),
    A'.map (r.arrival, ·) ++ R'.flatMap Rule.steps, S'.flatMap Table.steps, R, R', A, A', cs, ?_,
    hcs, hA, ?_, ?_, leaves_of_grown hTS' hxT', hxR, hxR', hxA, hxA'⟩
  · simp [hS, Table.steps, hrules, hR, Rule.steps, hA]
  · simp only [leaves_append_iff, leaves_steps_iff, leaves_map_iff]
    exact ⟨leaves_of_grown hTS hxT, hxR, hxA⟩
  · simp only [leaves_append_iff, leaves_steps_iff, leaves_map_iff]
    exact ⟨hxA', hxR'⟩

/-- The action of a rule without a copy marks its label once. -/
lemma Completed.labelName_once (hlow : isLow d r = false) :
    d'.labelName x = remark d₁ r.arrival a (d₁.labelName x) := by
  obtain ⟨ps, qs, us, R, R', A, A', cs, hsteps, hcs, hA, hps, hqs, hus, hxR, hxR', hxA, hxA'⟩ :=
    hc.exists_steps hd hdone ht hr ha hx
  have hleaves : ∀ m, r.arrival = .labelled m → Leaves (d₁.tables.flatMap Table.steps) m :=
    fun m hm => hc.leaves_arrival hd.separate ht hr (Rule.label?_eq_some_iff.mpr hm)
  rw [List.filter_append, List.filter_cons_of_neg (by simp [hlow])] at hcs
  rw [hsteps] at hmarks hleaves
  refine hmarks.labelName_once hx hps ?_ fun m hm => (leaves_append_iff.mp (hleaves m hm)).1
  simp only [leaves_append_iff, leaves_steps_iff, brings_of_copies hcs, List.flatMap_append,
    List.mem_append, not_or]
  exact ⟨hqs, ⟨notMem_brings_filter _ hxR, notMem_brings_filter _ hxR'⟩, hus⟩

/-- The action of a rule with a copy marks its label for the rule and then for the copy. -/
lemma Completed.labelName_twice (hlow : isLow d r = true) :
    ∃ l, d₁.isUpper l = true ∧
      d'.labelName x = remark d₁ (.labelled l) a (remark d₁ r.arrival a (d₁.labelName x)) := by
  obtain ⟨ps, qs, us, R, R', A, A', cs, hsteps, hcs, hA, hps, hqs, hus, hxR, hxR', hxA, hxA'⟩ :=
    hc.exists_steps hd hdone ht hr ha hx
  have hleaves : ∀ m, r.arrival = .labelled m → Leaves (d₁.tables.flatMap Table.steps) m :=
    fun m hm => hc.leaves_arrival hd.separate ht hr (Rule.label?_eq_some_iff.mpr hm)
  rw [List.filter_append, List.filter_cons_of_pos hlow] at hcs
  obtain ⟨C, c, C', rfl, hC, ⟨l, l', hl, rfl, hle, hname⟩, hC'⟩ := exists_of_forall₂_append_cons hcs
  have hnew := hc.leaves_new hd.separate hle
  have hsteps' : d₁.tables.flatMap Table.steps =
      ps ++ (r.arrival, a) :: (qs ++ (C.flatMap Rule.steps ++ A.map (.labelled l', ·))) ++
        (.labelled l', a) :: (A'.map (.labelled l', ·) ++ (C'.flatMap Rule.steps ++ us)) := by
    simp [hsteps, Rule.steps, hA]
  rw [hsteps'] at hmarks hleaves hnew
  refine ⟨l', ?_, hmarks.labelName_twice hx hps ?_ ?_ (fun m hm => ?_) fun m hm => ?_⟩
  · rw [isUpper, labelName, hname]
    exact endsIn_replace _
  · simp only [leaves_append_iff, leaves_steps_iff, leaves_map_iff, brings_of_copies hC]
    exact ⟨hqs, notMem_brings_filter _ hxR, hxA⟩
  · simp only [leaves_append_iff, leaves_steps_iff, leaves_map_iff, brings_of_copies hC']
    exact ⟨hxA', notMem_brings_filter _ hxR', hus⟩
  · exact (leaves_append_iff.mp (leaves_append_iff.mp (hleaves m hm)).1).1
  · obtain rfl := Arrival.labelled.inj hm
    exact (leaves_append_iff.mp hnew).1

/-- The name that marking gives to the label of an action. -/
lemma Completed.labelName_given :
    d'.labelName x = givenName d r.arrival a (d.labelName x) := by
  have hbrought : x ∈ d.tables.flatMap Table.brings := List.mem_flatMap.mpr ⟨t, ht,
    List.mem_flatMap.mpr ⟨r, hr, List.mem_filterMap.mpr ⟨a, ha, hx⟩⟩⟩
  obtain ⟨hupper, hlowest⟩ := hd.unmarked x hbrought
  have hname := hc.labelName_brought hd.separate hbrought
  cases harrival : r.arrival with
  | ethernet i =>
      have hlow : isLow d r = false := by simp [isLow, Rule.label?, harrival]
      rw [hc.labelName_once hd hdone hmarks ht hr ha hx hlow, hname, harrival]
      cases a with
      | push l => simp [remark, givenName, hupper]
      | swap l =>
          obtain ⟨t₁, ht₁, hrules⟩ := hc.exists_table ht
          have hmem : (r.arrival, .swap l) ∈ d₁.tables.flatMap Table.steps := List.mem_flatMap.mpr
            ⟨t₁, ht₁, List.mem_flatMap.mpr ⟨r, hrules r hr, List.mem_map.mpr ⟨_, ha, rfl⟩⟩⟩
          obtain ⟨_, _, hswap⟩ := hmarks.exists_of_mem hmem
          rw [harrival] at hswap
          exact absurd hswap (by simp [markAction])
      | _ => exact absurd hx (by simp [Action.label?])
  | labelled m =>
      have hlabel := Rule.label?_eq_some_iff.mpr harrival
      have hsame := hc.isUpper_arrival hd.separate ht hr hlabel
      cases hm : d.isUpper m with
      | true =>
          have hlow : isLow d r = false := by simp [isLow, hlabel, hm]
          rw [hc.labelName_once hd hdone hmarks ht hr ha hx hlow, hname, harrival]
          cases a with
          | push y => simp [remark, givenName, marked, hm, hlowest]
          | swap y => simp [remark, givenName, marked, hsame, hm, hlowest]
          | _ => exact absurd hx (by simp [Action.label?])
      | false =>
          have hlow : isLow d r = true := by simp [isLow, hlabel, hm]
          obtain ⟨l, hl, htwice⟩ := hc.labelName_twice hd hdone hmarks ht hr ha hx hlow
          rw [htwice, hname, harrival]
          cases a with
          | push y => simp [remark, givenName, marked, hm, hlowest, endsIn_lowest_upper]
          | swap y => simp [remark, givenName, marked, hsame, hm, hl, hupper, Text.endsIn_append]
          | _ => exact absurd hx (by simp [Action.label?])

end Names

/-! ### The marks of all rules -/

section Rules

variable {t t₁ : Table} {r : Rule}

lemma exists_of_markBottoms (hd : Separate d) (h : d.markBottoms = (d', none)) :
    ∃ d₁ done, (∀ t ∈ d.tables, t.router ∈ done) ∧ Completed d done d₁ ∧
      Marks d₁ (d₁.tables.flatMap Table.steps) d' := by
  rw [markBottoms] at h
  split at h
  · exact absurd (congrArg Prod.snd h) (by simp)
  · rename_i d₁ hcompleted
    have hrouters : ∀ router ∈ d.tables.map (·.router), ∃ t ∈ d.tables, t.router = router :=
      fun router hrouter => List.mem_map.mp hrouter
    refine ⟨d₁, (d.tables.map (·.router)).reverse ++ [], fun t ht => ?_, ?_, h⟩
    · rw [List.append_nil, List.mem_reverse]
      exact List.mem_map_of_mem ht
    · exact completed_stepTables hd (.refl d) hrouters (by simpa using hd.routers) hcompleted

/-- A rule of a completed table is one of the rules that it had, or a copy of one. -/
lemma Completed.rule_cases (hc : Completed d done d₁) (ht : t₁ ∈ d₁.tables) (hr : r ∈ t₁.rules) :
    ∃ t ∈ d.tables, r ∈ t.rules ∨ ∃ s ∈ t.rules, isLow d s = true ∧
      IsCopy (fun l => d.labelName l ++ lowestMark) d.labels.length d₁ s r := by
  obtain ⟨S, S', hS⟩ := List.append_of_mem ht
  obtain ⟨T, t, T', hT, -, ⟨-, cs, hrules, hcs⟩, -⟩ :=
    exists_of_forall₂_append_cons (hS ▸ hc.tables.flip)
  refine ⟨t, by simp [hT], ?_⟩
  rw [hrules] at hr
  refine (List.mem_append.mp hr).imp id fun hr => ?_
  obtain ⟨C, C', hC⟩ := List.append_of_mem hr
  obtain ⟨R, s, R', hR, -, hcopy, -⟩ := exists_of_forall₂_append_cons (hC ▸ hcs.flip)
  have hs : s ∈ copied d done t := by simp [hR]
  rw [copied] at hs
  split at hs
  · exact ⟨s, List.mem_of_mem_filter hs, (List.mem_filter.mp hs).2, hcopy⟩
  · exact absurd hs List.not_mem_nil

variable (hd : Separate d) (hc : Completed d done d₁)
  (hmarks : Marks d₁ (d₁.tables.flatMap Table.steps) d')

include hd hc hmarks

/-- The label of a rule is not marked again. -/
lemma Completed.isUpper_eq (ht : t ∈ d.tables) (hr : r ∈ t.rules) (hx : r.label? = some x) :
    d'.isUpper x = d.isUpper x :=
  (Dump.isUpper_eq (hmarks.frame.2 x (hc.leaves_arrival hd ht hr hx))).trans
    (hc.isUpper_arrival hd ht hr hx)

/-- The label of a rule is marked as a lowest one unless it is marked as an upper one. -/
lemma Completed.labelName_arrival (hdone : ∀ t ∈ d.tables, t.router ∈ done) (ht : t ∈ d.tables)
    (hr : r ∈ t.rules) (hx : r.label? = some x) :
    d'.labelName x = if d.isUpper x then d.labelName x else d.labelName x ++ lowestMark := by
  have hframe := hmarks.frame.2 x (hc.leaves_arrival hd ht hr hx)
  have hmem : x ∈ t.arrivals := List.mem_filterMap.mpr ⟨r, hr, hx⟩
  cases hupper : d.isUpper x with
  | true =>
      have hlow : ¬ LowAt d done x := fun h => Bool.false_ne_true (h.1.symm.trans hupper)
      exact labelName_eq (hframe.trans (hc.kept x (hd.lt_of_mem_arrivals ht hmem) hlow))
  | false =>
      rw [labelName, hframe, hc.lowest x ⟨hupper, t, ht, hdone t ht, hmem⟩]
      rfl

/-- Every label of a rule ends in a mark. -/
lemma Completed.marked_arrival (hdone : ∀ t ∈ d.tables, t.router ∈ done) (ht : t₁ ∈ d₁.tables)
    (hr : r ∈ t₁.rules) (hx : r.label? = some x) :
    d'.isUpper x = true ∨ Text.endsIn lowestMark (d'.labelName x) = true := by
  obtain ⟨t, ht, hr | ⟨s, hs, hlow, l, l', hl, rfl, hle, hname⟩⟩ := hc.rule_cases ht hr
  · cases hupper : d.isUpper x with
    | true => exact .inl (by rw [hc.isUpper_eq hd hmarks ht hr hx, hupper])
    | false =>
        rw [hc.labelName_arrival hd hmarks hdone ht hr hx, hupper]
        exact .inr (Text.endsIn_append _ _)
  · obtain rfl : l' = x := Option.some.inj hx
    rw [isUpper, labelName, hmarks.frame.2 l' (hc.leaves_new hd hle), hname]
    exact .inl (endsIn_replace _)

end Rules

/-! ### Passing marks along -/

/-- The mark that the label of an action should have. -/
def dueMark (d : Dump) : Arrival → Action → String
  | .labelled m, .swap _ => if d.isUpper m then upperMark else lowestMark
  | .labelled _, _ => upperMark
  | .ethernet _, _ => lowestMark

/-- Every label that an action brings in has its name from before and the mark that it should have:
a swapped label the mark of the label that it is swapped for, a pushed one that of an upper label
or, where the packet had no label, that of the lowest one. -/
def PassesMarks (d d' : Dump) : Prop :=
  ∀ t ∈ d'.tables, ∀ r ∈ t.rules, ∀ a ∈ r.actions, ∀ x, a.label? = some x →
    d'.labelName x = d.labelName x ++ dueMark d' r.arrival a

lemma append_upper_ne_append_lowest (s t : String) : s ++ upperMark ≠ t ++ lowestMark := fun h => by
  have hends := Text.endsIn_append s upperMark
  rw [h, endsIn_upper_lowest] at hends
  exact Bool.false_ne_true hends

lemma replace_ne_append_lowest (s t : String) :
    Text.replace lowestMark upperMark (s ++ lowestMark) ≠ t ++ lowestMark := fun h => by
  have hends := endsIn_replace s
  rw [h, endsIn_upper_lowest] at hends
  exact Bool.false_ne_true hends

lemma append_upper_ne (s : String) : s ++ upperMark ++ upperMark ≠ s ++ upperMark := fun h => by
  have hlength := congrArg (fun t : String => t.toList.length) h
  simp [toList_upperMark] at hlength

/-- Only for rules for upper labels are the given names the due ones. -/
lemma givenName_eq_iff {r : Rule} {a : Action} {name : String}
    (hsame : ∀ m, r.label? = some m → d'.isUpper m = d.isUpper m) (ha : a.label? = some x) :
    givenName d r.arrival a name = name ++ dueMark d' r.arrival a ↔
      ∃ m, r.label? = some m ∧ d.isUpper m = true := by
  cases harrival : r.arrival with
  | ethernet i =>
      refine iff_of_false (append_upper_ne_append_lowest name name) ?_
      simp [Rule.label?, harrival]
  | labelled m =>
      have hlabel := Rule.label?_eq_some_iff.mpr harrival
      have hsame := hsame m hlabel
      cases hm : d.isUpper m with
      | true =>
          refine iff_of_true ?_ ⟨m, hlabel, hm⟩
          cases a <;> simp [givenName, dueMark, hm, hsame]
      | false =>
          refine iff_of_false ?_ (by simp [hlabel, hm])
          cases a with
          | push y => simpa [givenName, dueMark, hm] using append_upper_ne name
          | swap y => simpa [givenName, dueMark, hm, hsame] using replace_ne_append_lowest name name
          | _ => exact absurd ha (by simp [Action.label?])

/-- Every rule is for a label with a mark. The labels that actions bring in get the mark of an upper
label, twice or in the place of other marks where a rule has a copy. So marks are passed along if
and only if all labels are brought in by rules that were for upper labels from the start. -/
theorem passesMarks_iff (hd : Apart d) (h : d.markBottoms = (d', none)) :
    (∀ t ∈ d'.tables, ∀ l ∈ t.arrivals,
      d'.isUpper l = true ∨ Text.endsIn lowestMark (d'.labelName l) = true) ∧
    (∀ t ∈ d.tables, ∀ r ∈ t.rules, ∀ a ∈ r.actions, ∀ x, a.label? = some x →
      d'.labelName x = givenName d r.arrival a (d.labelName x)) ∧
    (PassesMarks d d' ↔ ∀ t ∈ d.tables, ∀ r ∈ t.rules, r.brings ≠ [] →
      ∃ l, r.label? = some l ∧ d.isUpper l = true) := by
  obtain ⟨d₁, done, hdone, hc, hmarks⟩ := exists_of_markBottoms hd.separate h
  have htables : d'.tables = d₁.tables := hmarks.frame.1
  have hgiven : ∀ t ∈ d.tables, ∀ r ∈ t.rules, ∀ a ∈ r.actions, ∀ x, a.label? = some x →
      d'.labelName x = givenName d r.arrival a (d.labelName x) :=
    fun t ht r hr a ha x hx => hc.labelName_given hd hdone hmarks ht hr ha hx
  have hsame : ∀ t ∈ d.tables, ∀ r ∈ t.rules, ∀ m, r.label? = some m →
      d'.isUpper m = d.isUpper m := fun t ht r hr m => hc.isUpper_eq hd.separate hmarks ht hr
  refine ⟨fun t ht l hl => ?_, hgiven, fun hpasses t ht r hr hbrings => ?_,
    fun hupper t₁ ht₁ r hr a ha x hx => ?_⟩
  · obtain ⟨r, hr, hlabel⟩ := List.mem_filterMap.mp hl
    exact hc.marked_arrival hd.separate hmarks hdone (htables ▸ ht) hr hlabel
  · obtain ⟨x, hx⟩ := List.exists_mem_of_ne_nil _ hbrings
    obtain ⟨a, ha, hax⟩ := List.mem_filterMap.mp hx
    obtain ⟨t₁, ht₁, hrules⟩ := hc.exists_table ht
    rw [← givenName_eq_iff (hsame t ht r hr) hax, ← hgiven t ht r hr a ha x hax]
    exact hpasses t₁ (htables ▸ ht₁) r (hrules r hr) a ha x hax
  · have hbrings : ∀ {s : Rule}, a ∈ s.actions → s.brings ≠ [] := fun hs =>
      List.ne_nil_of_mem (List.mem_filterMap.mpr ⟨a, hs, hx⟩)
    obtain ⟨t, ht, hr | ⟨s, hs, hlow, l, l', hl, rfl, -⟩⟩ := hc.rule_cases (htables ▸ ht₁) hr
    · rw [hgiven t ht r hr a ha x hx, givenName_eq_iff (hsame t ht r hr) hx]
      exact hupper t ht r hr (hbrings ha)
    · -- a rule with a copy is not for an upper label
      obtain ⟨m, hm, hmupper⟩ := hupper t ht s hs (hbrings ha)
      obtain ⟨m', hm', hmlow⟩ := isLow_iff.mp hlow
      rw [Option.some.inj (hm.symm.trans hm'), hmlow] at hmupper
      exact absurd hmupper Bool.false_ne_true

/-- A rule for an upper label that swaps and pushes labels, and one for a lowest label that takes it
away. -/
def upperSwapping : Dump :=
  ⟨.empty, [some "100(S=0)", some "200", some "300", some "400"],
    [⟨some "r", [⟨.labelled 0, 0, [.swap 1, .push 2], .number 1⟩,
      ⟨.labelled 3, 0, [.pop], .number 1⟩]⟩]⟩

/-- The same rules with marks. -/
def upperSwapped : Dump :=
  ⟨.empty, [some "100(S=0)", some "200(S=0)", some "300(S=0)", some "400(S=1)", some "400(S=0)"],
    [⟨some "r", [⟨.labelled 0, 0, [.swap 1, .push 2], .number 1⟩,
      ⟨.labelled 3, 0, [.pop], .number 1⟩, ⟨.labelled 4, 0, [.pop], .number 1⟩]⟩]⟩

theorem passesMarks_upperSwapping :
    Apart upperSwapping ∧ upperSwapping.markBottoms = (upperSwapped, none) ∧
      PassesMarks upperSwapping upperSwapped := by
  have hapart : Apart upperSwapping := ⟨by decide, by decide, by decide, by decide +kernel⟩
  have hmarked : upperSwapping.markBottoms = (upperSwapped, none) := by decide +kernel
  exact ⟨hapart, hmarked, (passesMarks_iff hapart hmarked).2.2.mpr (by decide +kernel)⟩

/-- A rule for a lowest label that swaps and pushes labels, and one that pushes a label on packets
without labels. -/
def lowestSwapping : Dump :=
  ⟨.empty, [some "100", some "200", some "300", some "400"],
    [⟨some "r", [⟨.labelled 0, 1, [.swap 1, .push 2], .number 1⟩,
      ⟨.ethernet (some "i"), 1, [.push 3], .number 1⟩]⟩]⟩

/-- The same rules with marks. -/
def lowestSwapped : Dump :=
  ⟨.empty, [some "100(S=1)", some "200(S=0)", some "300(S=0)(S=0)", some "400(S=0)",
      some "100(S=0)"],
    [⟨some "r", [⟨.labelled 0, 1, [.swap 1, .push 2], .number 1⟩,
      ⟨.ethernet (some "i"), 1, [.push 3], .number 1⟩,
      ⟨.labelled 4, 1, [.swap 1, .push 2], .number 1⟩]⟩]⟩

/-- The rule for the lowest label swaps in an upper one, because its copy marks the label again. -/
theorem not_passesMarks_lowestSwapping :
    Apart lowestSwapping ∧ lowestSwapping.markBottoms = (lowestSwapped, none) ∧
      ¬ PassesMarks lowestSwapping lowestSwapped := by
  refine ⟨⟨by decide, by decide, by decide, by decide +kernel⟩, by decide +kernel, fun h => ?_⟩
  have hswap := h _ List.mem_cons_self _ List.mem_cons_self (.swap 1) List.mem_cons_self 1 rfl
  exact absurd hswap (by decide +kernel)

end MplsReach.Dump
