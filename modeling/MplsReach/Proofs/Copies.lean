/-
Copies of rules for labels above others.

* `IsCopy`: a rule with a label of its own that is marked as an upper one.
* `CompletedTable`: a table in which the labels of rules are marked, and the rules for lowest labels
  have copies behind all rules.
* `Completed`: the tables of some routers are completed.
* `Separate`: no two rules have a label in common, and no rule has one with an action.
* `Apart`: no two rules or actions have a label in common.
* `completed_stepTables`: tables are completed one after the other.
-/
import Mathlib.Data.List.Forall2
import Mathlib.Data.List.Nodup
import Mathlib.Data.List.Pairwise
import MplsReach.Proofs.Marks

namespace MplsReach.Dump

variable {d d' d₁ d₂ : Dump} {router : Option String} {x : LabelId}

/-! ### Labels of rules -/

/-- Whether a rule is for packets whose label is not marked as an upper one. -/
def isLow (d : Dump) (r : Rule) : Bool := r.label?.any fun l => !d.isUpper l

lemma isLow_iff {r : Rule} : isLow d r = true ↔ ∃ l, r.label? = some l ∧ d.isUpper l = false := by
  cases h : r.label? <;> simp [isLow, h]

lemma isUpper_eq (h : d'.labelName? x = d.labelName? x) : d'.isUpper x = d.isUpper x := by
  rw [isUpper, isUpper, labelName, labelName, h]

lemma isLow_eq {r : Rule} (h : ∀ l, r.label? = some l → d'.labelName? l = d.labelName? l) :
    isLow d' r = isLow d r := by
  cases hl : r.label? with
  | none => simp [isLow, hl]
  | some l => simp [isLow, hl, isUpper_eq (h l hl)]

lemma labelName_eq (h : d'.labelName? x = d.labelName? x) : d'.labelName x = d.labelName x := by
  rw [labelName, labelName, h]

/-- New labels do not change the names of the others. -/
lemma labelName?_of_append {new : List (Option String)} (h : d'.labels = d.labels ++ new)
    (hx : x < d.labels.length) : d'.labelName? x = d.labelName? x := by
  simp [labelName?, h, List.getD_eq_getElem?_getD, List.getElem?_append_left hx]

lemma markLowest_cons (d : Dump) (l : LabelId) (ls : List LabelId) :
    d.markLowest (l :: ls) =
      (if d.isUpper l then d else d.rename l (· ++ lowestMark)).markLowest ls := rfl

lemma markLowest_frame (ls : List LabelId) :
    (d.markLowest ls).tables = d.tables ∧ (d.markLowest ls).labels.length = d.labels.length := by
  induction ls generalizing d with
  | nil => exact ⟨rfl, rfl⟩
  | cons l ls ih =>
      rw [markLowest_cons]
      obtain ⟨htables, hlength⟩ := @ih (if d.isUpper l then d else d.rename l (· ++ lowestMark))
      rw [htables, hlength]
      split
      · exact ⟨rfl, rfl⟩
      · exact ⟨rfl, by simp [rename]⟩

/-- Each label is marked once, unless it is marked as an upper one. -/
lemma labelName?_markLowest {ls : List LabelId} (h : ls.Nodup) (x : LabelId) :
    (d.markLowest ls).labelName? x =
      if x ∈ ls ∧ d.isUpper x = false then (d.labelName? x).map (· ++ lowestMark)
      else d.labelName? x := by
  induction ls generalizing d with
  | nil => simp [markLowest]
  | cons l ls ih =>
      obtain ⟨hl, hls⟩ := List.nodup_cons.mp h
      rw [markLowest_cons, ih hls]
      by_cases hx : l = x
      · subst hx
        by_cases hupper : d.isUpper l = true
        · simp [hl, hupper]
        · simp [hl, hupper, labelName?_rename]
      · have hname : (if d.isUpper l = true then d else d.rename l (· ++ lowestMark)).labelName? x =
            d.labelName? x := by
          split
          · rfl
          · rw [labelName?_rename, if_neg hx]
        simp [isUpper_eq hname, hname, Ne.symm hx]

/-! ### Copies -/

/-- A rule for packets with a new label, whose name is a given one with the mark of an upper
label. -/
def IsCopy (name : LabelId → String) (next : Nat) (d' : Dump) (r c : Rule) : Prop :=
  ∃ l l', r.label? = some l ∧ c = { r with arrival := .labelled l' } ∧ next ≤ l' ∧
    d'.labelName? l' = some (Text.replace lowestMark upperMark (name l))

lemma lt_of_labelName? {name : String} (h : d.labelName? x = some name) : x < d.labels.length := by
  by_contra hle
  rw [labelName?, List.getD_eq_getElem?_getD, List.getElem?_eq_none (Nat.not_lt.mp hle)] at h
  exact absurd h (by simp)

lemma IsCopy.mono {name name' : LabelId → String} {next next' : Nat} {r c : Rule}
    (h : IsCopy name next d r c) (hname : ∀ l, r.label? = some l → name l = name' l)
    (hnext : next' ≤ next)
    (hkept : ∀ x, next ≤ x → x < d.labels.length → d'.labelName? x = d.labelName? x) :
    IsCopy name' next' d' r c := by
  obtain ⟨l, l', hl, rfl, hle, hl'⟩ := h
  refine ⟨l, l', hl, rfl, hnext.trans hle, ?_⟩
  rw [hkept l' hle (lt_of_labelName? hl'), hl', hname l hl]

/-- Rules at the end of the table of a router. -/
def withRules (router : Option String) (cs : List Rule) (t : Table) : Table :=
  if t.router = router then { t with rules := t.rules ++ cs } else t

lemma withRules_nil : withRules router [] = id := by
  funext t
  simp [withRules]

lemma withRules_cons (c : Rule) (cs : List Rule) (t : Table) :
    withRules router cs (withRules router [c] t) = withRules router (c :: cs) t := by
  by_cases h : t.router = router <;> simp [withRules, h]

/-- Copies of rules are added one after the other. -/
lemma exists_of_addUpper {us : List Rule}
    (hus : ∀ r ∈ us, ∃ l, r.label? = some l ∧ l < d.labels.length)
    (h : stepwise (fun d r => d.addUpper router r) d us = (d', none)) :
    ∃ cs new, d'.labels = d.labels ++ new ∧ d'.tables = d.tables.map (withRules router cs) ∧
      List.Forall₂ (IsCopy d.labelName d.labels.length d') us cs := by
  induction us generalizing d with
  | nil =>
      obtain rfl : d = d' := congrArg Prod.fst h
      exact ⟨[], [], by simp, by simp [withRules_nil], .nil⟩
  | cons r us ih =>
      obtain ⟨⟨l, hl, hlt⟩, hus⟩ := List.forall_mem_cons.mp hus
      obtain ⟨e, hr, h⟩ := exists_of_stepwise_cons h
      let c : Rule := { r with arrival := .labelled d.labels.length }
      let name := Text.replace lowestMark upperMark (d.labelName l)
      obtain ⟨hlabels, htables⟩ : e.labels = d.labels ++ [some name] ∧
          e.tables = d.tables.map (withRules router [c]) := by
        rw [addUpper, hl] at hr
        simp only at hr
        split at hr
        · exact absurd hr nofun
        · obtain rfl := Except.ok.inj hr
          exact ⟨rfl, rfl⟩
      have hlength : e.labels.length = d.labels.length + 1 := by simp [hlabels]
      have hus' : ∀ r ∈ us, ∃ l, r.label? = some l ∧ l < e.labels.length := fun r hr =>
        (hus r hr).imp fun l hl => ⟨hl.1, hlength ▸ Nat.lt_succ_of_lt hl.2⟩
      obtain ⟨cs, new, hlabels', htables', hcopies⟩ := ih hus' h
      have hnew : d'.labels = d.labels ++ (some name :: new) := by
        rw [hlabels', hlabels, List.append_assoc, List.singleton_append]
      refine ⟨c :: cs, some name :: new, hnew, ?_, .cons ?_ ?_⟩
      · rw [htables', htables, List.map_map]
        exact List.map_congr_left fun t _ => withRules_cons c cs t
      · refine ⟨l, d.labels.length, hl, rfl, Nat.le_refl _, ?_⟩
        simp [labelName?, hnew, List.getD_eq_getElem?_getD, name]
      · -- the labels of the other rules have the names that they had before
        refine ((List.forall₂_and_left _ _).mpr ⟨hus, hcopies⟩).imp fun r' c' hcopy => ?_
        obtain ⟨⟨l', hl', hlt'⟩, hcopy⟩ := hcopy
        refine hcopy.mono (fun m hm => ?_) (by omega) fun _ _ _ => rfl
        obtain rfl : l' = m := Option.some.inj (hl'.symm.trans hm)
        exact labelName_eq (labelName?_of_append hlabels hlt')

lemma exists_of_forall₂_append_cons {α β : Type} {R : α → β → Prop} {a : α} {as as' : List α}
    {bs : List β} (h : List.Forall₂ R (as ++ a :: as') bs) :
    ∃ cs b cs', bs = cs ++ b :: cs' ∧ List.Forall₂ R as cs ∧ R a b ∧ List.Forall₂ R as' cs' := by
  induction as generalizing bs with
  | nil =>
      obtain ⟨b, cs', hb, hcs', rfl⟩ := List.forall₂_cons_left_iff.mp h
      exact ⟨[], b, cs', rfl, .nil, hb, hcs'⟩
  | cons a₀ as ih =>
      obtain ⟨b₀, bs₀, hb₀, hbs₀, rfl⟩ := List.forall₂_cons_left_iff.mp h
      obtain ⟨cs, b, cs', rfl, hcs, hb, hcs'⟩ := ih hbs₀
      exact ⟨b₀ :: cs, b, cs', rfl, .cons hb₀ hcs, hb, hcs'⟩

/-! ### One table -/

/-- The labels of the packets that the rules of a table are for. -/
def Table.arrivals (t : Table) : List LabelId := t.rules.filterMap Rule.label?

/-- The labels of a table are marked, and copies of its rules for lowest labels stand behind its
rules. -/
structure CompletedTable (d : Dump) (t : Table) (cs : List Rule) (d' : Dump) : Prop where
  length_le : d.labels.length ≤ d'.labels.length
  names : ∀ x < d.labels.length, d'.labelName? x =
    if x ∈ t.arrivals ∧ d.isUpper x = false then some (d.labelName x ++ lowestMark)
    else d.labelName? x
  tables : d'.tables = d.tables.map (withRules t.router cs)
  copies : List.Forall₂ (IsCopy (fun l => d.labelName l ++ lowestMark) d.labels.length d')
    (t.rules.filter (isLow d)) cs

section Table

variable {t : Table}

lemma exists_of_isLow {r : Rule} (hr : r ∈ t.rules.filter (isLow d)) :
    ∃ l, r.label? = some l ∧ l ∈ t.arrivals ∧ d.isUpper l = false := by
  obtain ⟨hmem, hlow⟩ := List.mem_filter.mp hr
  obtain ⟨l, hl, hlow⟩ := isLow_iff.mp hlow
  exact ⟨l, hl, List.mem_filterMap.mpr ⟨r, hmem, hl⟩, hlow⟩

variable (hnodup : t.arrivals.Nodup)

include hnodup

lemma labelName_markLowest (hsome : ∀ x ∈ t.arrivals, (d.labelName? x).isSome)
    (hx : x ∈ t.arrivals) (hlow : d.isUpper x = false) :
    (d.markLowest t.arrivals).labelName x = d.labelName x ++ lowestMark := by
  obtain ⟨name, hname⟩ := Option.isSome_iff_exists.mp (hsome x hx)
  rw [labelName, labelName, labelName?_markLowest hnodup, if_pos ⟨hx, hlow⟩, hname]
  rfl

/-- No name that is marked as one of a lowest label is among those that are marked as ones of upper
labels. -/
lemma filter_unpaired (hsome : ∀ x ∈ t.arrivals, (d.labelName? x).isSome) :
    (t.rules.filter (isLow d)).filter (fun r => !r.label?.any fun l =>
      ((t.arrivals.filter d.isUpper).map (d.markLowest t.arrivals).labelName).contains
        ((d.markLowest t.arrivals).labelName l)) = t.rules.filter (isLow d) := by
  refine List.filter_eq_self.mpr fun r hr => ?_
  obtain ⟨l, hl, hmem, hlow⟩ := exists_of_isLow hr
  rw [hl, Option.any_some, labelName_markLowest hnodup hsome hmem hlow, Bool.not_eq_true',
    Bool.eq_false_iff, ne_eq, List.contains_iff_mem, List.mem_map]
  rintro ⟨u, hu, heq⟩
  have hupper := (List.mem_filter.mp hu).2
  rw [labelName, labelName?_markLowest hnodup, if_neg (by simp [hupper])] at heq
  have hfalse := endsIn_upper_lowest (d.labelName l)
  rw [← heq] at hfalse
  exact absurd hupper (by rw [isUpper, labelName, hfalse]; simp)

/-- Where all labels of a table have names, the rules for lowest labels all get a copy. -/
lemma stepwise_of_completeTable (hrules : d.rulesOf router = t.rules)
    (h : d.completeTable router = (d', none)) :
    (∀ x ∈ t.arrivals, (d.labelName? x).isSome) ∧
      stepwise (fun d r => d.addUpper router r) (d.markLowest t.arrivals)
        (t.rules.filter (isLow d)) = (d', none) := by
  have harrivals :
      (t.rules.filter fun r => r.label?.isSome).filterMap Rule.label? = t.arrivals := by
    rw [List.filterMap_filter, Table.arrivals]
    refine List.filterMap_congr fun r _ => ?_
    cases r.label? <;> rfl
  have hrest : (t.rules.filter fun r => r.label?.isSome).filter (fun r => !r.label?.any d.isUpper) =
      t.rules.filter (isLow d) := by
    rw [List.filter_filter]
    refine List.filter_congr fun r _ => ?_
    cases hl : r.label? <;> simp [isLow, hl]
  simp only [completeTable, hrules, harrivals, hrest] at h
  split at h
  · exact absurd (congrArg Prod.snd h) (by simp)
  · rename_i hnames
    have hsome : ∀ x ∈ t.arrivals, (d.labelName? x).isSome := fun x hx =>
      Option.isSome_iff_ne_none.mpr fun hnone =>
        hnames (List.any_eq_true.mpr ⟨x, hx, by simp [hnone]⟩)
    rw [filter_unpaired hnodup hsome] at h
    exact ⟨hsome, h⟩

/-- The table of a router is completed. -/
lemma exists_of_completeTable (hrules : d.rulesOf t.router = t.rules)
    (hknown : ∀ x ∈ t.arrivals, x < d.labels.length) (h : d.completeTable t.router = (d', none)) :
    ∃ cs, CompletedTable d t cs d' := by
  obtain ⟨hsome, h⟩ := stepwise_of_completeTable hnodup hrules h
  obtain ⟨htables, hlength⟩ := markLowest_frame (d := d) t.arrivals
  obtain ⟨cs, new, hlabels, htables', hcopies⟩ := exists_of_addUpper (fun r hr => by
    obtain ⟨l, hl, hmem, -⟩ := exists_of_isLow hr
    exact ⟨l, hl, hlength ▸ hknown l hmem⟩) h
  refine ⟨cs, ?_, fun x hx => ?_, by rw [htables', htables], ?_⟩
  · rw [hlabels, List.length_append, hlength]
    omega
  · rw [labelName?_of_append hlabels (hlength ▸ hx), labelName?_markLowest hnodup]
    split
    · obtain ⟨name, hname⟩ := Option.isSome_iff_exists.mp (hsome x (And.left ‹_›))
      rw [labelName, hname]
      rfl
    · rfl
  · refine ((List.forall₂_and_left _ _).mpr ⟨fun r => exists_of_isLow, hcopies⟩).imp
      fun r c hcopy => ?_
    obtain ⟨⟨l, hl, hmem, hlow⟩, hcopy⟩ := hcopy
    refine hcopy.mono (fun m hm => ?_) hlength.ge fun _ _ _ => rfl
    obtain rfl : l = m := Option.some.inj (hl.symm.trans hm)
    exact labelName_markLowest hnodup hsome hmem hlow

end Table

/-! ### All tables -/

/-- A label in a table of some routers that is not marked as an upper one. -/
def LowAt (d : Dump) (done : List (Option String)) (x : LabelId) : Prop :=
  d.isUpper x = false ∧ ∃ t ∈ d.tables, t.router ∈ done ∧ x ∈ t.arrivals

/-- The rules of a table that have copies once the tables of some routers are completed. -/
def copied (d : Dump) (done : List (Option String)) (t : Table) : List Rule :=
  if t.router ∈ done then t.rules.filter (isLow d) else []

/-- A table with copies behind its rules. -/
def Grown (d : Dump) (done : List (Option String)) (d₁ : Dump) (t t₁ : Table) : Prop :=
  t₁.router = t.router ∧ ∃ cs, t₁.rules = t.rules ++ cs ∧
    List.Forall₂ (IsCopy (fun l => d.labelName l ++ lowestMark) d.labels.length d₁)
      (copied d done t) cs

/-- The tables of some routers are completed. -/
structure Completed (d : Dump) (done : List (Option String)) (d₁ : Dump) : Prop where
  length_le : d.labels.length ≤ d₁.labels.length
  lowest : ∀ x, LowAt d done x → d₁.labelName? x = some (d.labelName x ++ lowestMark)
  kept : ∀ x < d.labels.length, ¬ LowAt d done x → d₁.labelName? x = d.labelName? x
  tables : List.Forall₂ (Grown d done d₁) d.tables d₁.tables

lemma Completed.refl (d : Dump) : Completed d [] d where
  length_le := Nat.le_refl _
  lowest x hx := by
    obtain ⟨-, t, -, hmem, -⟩ := hx
    exact absurd hmem List.not_mem_nil
  kept _ _ _ := rfl
  tables := List.forall₂_same.mpr fun t _ => ⟨rfl, [], by simp, by simp [copied]⟩

/-- The labels that the actions of a rule bring in. -/
def Rule.brings (r : Rule) : List LabelId := r.actions.filterMap Action.label?

/-- The labels that the actions of a table bring in. -/
def Table.brings (t : Table) : List LabelId := t.rules.flatMap Rule.brings

/-- Tables of different routers, in which no two rules have one label in common, nor a rule one with
an action. -/
structure Separate (d : Dump) : Prop where
  routers : (d.tables.map Table.router).Nodup
  arrivals : (d.tables.flatMap Table.arrivals).Nodup
  disjoint : (d.tables.flatMap Table.arrivals).Disjoint (d.tables.flatMap Table.brings)
  known : ∀ x ∈ d.tables.flatMap Table.arrivals ++ d.tables.flatMap Table.brings,
    x < d.labels.length

/-- Tables of different routers, in which no two rules or actions have one label in common. The
labels that actions bring in are not marked. -/
structure Apart (d : Dump) : Prop where
  routers : (d.tables.map Table.router).Nodup
  labels : (d.tables.flatMap Table.arrivals ++ d.tables.flatMap Table.brings).Nodup
  known : ∀ x ∈ d.tables.flatMap Table.arrivals ++ d.tables.flatMap Table.brings,
    x < d.labels.length
  unmarked : ∀ x ∈ d.tables.flatMap Table.brings,
    Text.endsIn upperMark (d.labelName x) = false ∧ Text.endsIn lowestMark (d.labelName x) = false

lemma Apart.separate (hd : Apart d) : Separate d where
  routers := hd.routers
  arrivals := hd.labels.of_append_left
  disjoint := List.disjoint_of_nodup_append hd.labels
  known := hd.known

section Separate

variable {done : List (Option String)} {t t' : Table}

lemma Separate.nodup_arrivals (hd : Separate d) (ht : t ∈ d.tables) : t.arrivals.Nodup :=
  (List.nodup_flatMap.mp hd.arrivals).1 t ht

/-- A label is in the table of one router only. -/
lemma Separate.eq_of_mem_arrivals (hd : Separate d) (ht : t ∈ d.tables) (ht' : t' ∈ d.tables)
    (hx : x ∈ t.arrivals) (hx' : x ∈ t'.arrivals) : t = t' := by
  by_contra hne
  have hdisjoint := (List.nodup_flatMap.mp hd.arrivals).2
  have : Std.Symm (Function.onFun List.Disjoint Table.arrivals) := ⟨fun _ _ h _ hx hx' => h hx' hx⟩
  exact hdisjoint.forall ht ht' hne hx hx'

lemma Separate.eq_of_router (hd : Separate d) (ht : t ∈ d.tables) (ht' : t' ∈ d.tables)
    (h : t.router = t'.router) : t = t' :=
  List.inj_on_of_nodup_map hd.routers ht ht' h

lemma Separate.lt_of_mem_arrivals (hd : Separate d) (ht : t ∈ d.tables) (hx : x ∈ t.arrivals) :
    x < d.labels.length :=
  hd.known x (List.mem_append_left _ (List.mem_flatMap.mpr ⟨t, ht, hx⟩))

lemma Separate.lowAt_iff (hd : Separate d) (ht : t ∈ d.tables) (hx : x ∈ t.arrivals) :
    LowAt d done x ↔ d.isUpper x = false ∧ t.router ∈ done := by
  refine and_congr_right fun _ => ⟨?_, fun h => ⟨t, ht, h, hx⟩⟩
  rintro ⟨t', ht', hdone, hx'⟩
  rwa [hd.eq_of_mem_arrivals ht ht' hx hx']

lemma rulesOf_eq (hrouters : (d.tables.map Table.router).Nodup) (ht : t ∈ d.tables) :
    d.rulesOf t.router = t.rules := by
  have hget : Dictionary.get? Table.router t.router d.tables = some t := by
    rw [Dictionary.get?]
    cases hfind : d.tables.find? fun a => a.router = t.router with
    | none => exact absurd (List.find?_eq_none.mp hfind t ht) (by simp)
    | some a =>
        have hrouter : a.router = t.router := by simpa using List.find?_some hfind
        rw [List.inj_on_of_nodup_map hrouters (List.mem_of_find?_eq_some hfind) ht hrouter]
  rw [rulesOf, hget]
  rfl

lemma Completed.map_router (hc : Completed d done d₁) :
    d₁.tables.map Table.router = d.tables.map Table.router := by
  rw [← List.forall₂_eq_eq_eq, List.forall₂_map_left_iff, List.forall₂_map_right_iff]
  exact hc.tables.flip.imp fun _ _ h => h.1

/-- A table that is not yet completed has its own rules and no others. -/
lemma Completed.rulesOf_eq (hd : Separate d) (hc : Completed d done d₁) (ht : t ∈ d.tables)
    (hnew : t.router ∉ done) : d₁.rulesOf t.router = t.rules := by
  obtain ⟨T, T', htables⟩ := List.append_of_mem ht
  obtain ⟨S, t₁, S', htables₁, -, ⟨hrouter, cs, hrules, hcs⟩, -⟩ :=
    exists_of_forall₂_append_cons (htables ▸ hc.tables)
  have ht₁ : t₁ ∈ d₁.tables := by simp [htables₁]
  rw [copied, if_neg hnew] at hcs
  rw [← hrouter, Dump.rulesOf_eq (hc.map_router ▸ hd.routers) ht₁, hrules,
    List.forall₂_nil_left_iff.mp hcs, List.append_nil]

/-- The labels of a table that is not yet completed have the names that they had. -/
lemma Completed.labelName?_eq (hd : Separate d) (hc : Completed d done d₁) (ht : t ∈ d.tables)
    (hnew : t.router ∉ done) (hx : x ∈ t.arrivals) : d₁.labelName? x = d.labelName? x :=
  hc.kept x (hd.lt_of_mem_arrivals ht hx) fun hlow => hnew ((hd.lowAt_iff ht hx).mp hlow).2

lemma CompletedTable.labelName?_eq {cs : List Rule} (hcs : CompletedTable d₁ t cs d₂)
    (hx : x < d₁.labels.length) (hmem : x ∉ t.arrivals) : d₂.labelName? x = d₁.labelName? x := by
  rw [hcs.names x hx, if_neg fun h => hmem h.1]

/-- The table itself gets copies. -/
lemma Completed.grown_self {t₁ : Table} {cs : List Rule} (hd : Separate d) (hc : Completed d done d₁)
    (ht : t ∈ d.tables) (hnew : t.router ∉ done) (hcs : CompletedTable d₁ t cs d₂)
    (hgrown : Grown d done d₁ t t₁) :
    Grown d (t.router :: done) d₂ t (withRules t.router cs t₁) := by
  obtain ⟨hrouter, cs', hrules, hcs'⟩ := hgrown
  rw [copied, if_neg hnew] at hcs'
  obtain rfl := List.forall₂_nil_left_iff.mp hcs'
  rw [withRules, if_pos hrouter]
  refine ⟨hrouter, cs, by rw [hrules, List.append_nil], ?_⟩
  have hlow : t.rules.filter (isLow d₁) = t.rules.filter (isLow d) :=
    List.filter_congr fun r hr => isLow_eq fun l hl =>
      hc.labelName?_eq hd ht hnew (List.mem_filterMap.mpr ⟨r, hr, hl⟩)
  rw [copied, if_pos List.mem_cons_self, ← hlow]
  refine ((List.forall₂_and_left _ _).mpr ⟨fun r => exists_of_isLow, hcs.copies⟩).imp
    fun r c hcopy => ?_
  obtain ⟨⟨l, hl, hmem, -⟩, hcopy⟩ := hcopy
  refine hcopy.mono (fun m hm => ?_) hc.length_le fun _ _ _ => rfl
  obtain rfl : l = m := Option.some.inj (hl.symm.trans hm)
  rw [labelName_eq (hc.labelName?_eq hd ht hnew hmem)]

/-- The other tables stay as they are. -/
lemma CompletedTable.grown_other {t₁ : Table} {cs : List Rule} (hd : Separate d) (ht : t ∈ d.tables)
    (hcs : CompletedTable d₁ t cs d₂) (hne : t'.router ≠ t.router)
    (hgrown : Grown d done d₁ t' t₁) :
    Grown d (t.router :: done) d₂ t' (withRules t.router cs t₁) := by
  obtain ⟨hrouter, cs', hrules, hcs'⟩ := hgrown
  have hcopied : copied d (t.router :: done) t' = copied d done t' := by
    simp [copied, hne]
  rw [withRules, if_neg (hrouter ▸ hne)]
  refine ⟨hrouter, cs', hrules, hcopied ▸ ?_⟩
  -- the labels of copies are not among those that are marked
  refine hcs'.imp fun r c hcopy => hcopy.mono (fun _ _ => rfl) (Nat.le_refl _) fun x hle hx =>
    hcs.labelName?_eq hx fun hmem => ?_
  exact absurd (hd.lt_of_mem_arrivals ht hmem) (Nat.not_lt.mpr hle)

/-- One more table is completed. -/
lemma Completed.step (hd : Separate d) (hc : Completed d done d₁) (ht : t ∈ d.tables)
    (hnew : t.router ∉ done) (h : d₁.completeTable t.router = (d₂, none)) :
    Completed d (t.router :: done) d₂ := by
  have hknown : ∀ {t' : Table}, t' ∈ d.tables → ∀ x ∈ t'.arrivals, x < d₁.labels.length :=
    fun ht' x hx => (hd.lt_of_mem_arrivals ht' hx).trans_le hc.length_le
  obtain ⟨cs, hcs⟩ := exists_of_completeTable (hd.nodup_arrivals ht)
    (hc.rulesOf_eq hd ht hnew) (hknown ht) h
  refine ⟨hc.length_le.trans hcs.length_le, fun x hx => ?_, fun x hx hlow => ?_, ?_⟩
  · by_cases hmem : x ∈ t.arrivals
    · have hname := hc.labelName?_eq hd ht hnew hmem
      rw [hcs.names x (hknown ht x hmem), if_pos ⟨hmem, isUpper_eq hname ▸ hx.1⟩,
        labelName_eq hname]
    · obtain ⟨hupper, t', ht', hdone, hx'⟩ := hx
      have hdone' : t'.router ∈ done := by
        refine (List.mem_cons.mp hdone).resolve_left fun heq => hmem ?_
        rwa [← hd.eq_of_router ht' ht heq]
      rw [hcs.labelName?_eq (hknown ht' x hx') hmem, hc.lowest x ⟨hupper, t', ht', hdone', hx'⟩]
  · have hdone : ¬ LowAt d done x := fun ⟨hupper, t', ht', hmem, hx'⟩ =>
      hlow ⟨hupper, t', ht', List.mem_cons_of_mem _ hmem, hx'⟩
    rw [hcs.names x (hx.trans_le hc.length_le), if_neg, hc.kept x hx hdone]
    rintro ⟨hmem, hupper⟩
    rw [isUpper_eq (hc.labelName?_eq hd ht hnew hmem)] at hupper
    exact hlow ((hd.lowAt_iff ht hmem).mpr ⟨hupper, List.mem_cons_self⟩)
  · rw [hcs.tables, List.forall₂_map_right_iff]
    refine ((List.forall₂_and_left _ _).mpr ⟨fun _ h => h, hc.tables⟩).imp
      fun t' t₁ ⟨ht', hgrown⟩ => ?_
    by_cases heq : t'.router = t.router
    · obtain rfl := hd.eq_of_router ht' ht heq
      exact hc.grown_self hd ht hnew hcs hgrown
    · exact hcs.grown_other hd ht heq hgrown

/-- The tables of some routers are completed, one after the other. -/
lemma completed_stepTables {rs : List (Option String)} (hd : Separate d) (hc : Completed d done d₁)
    (hrs : ∀ router ∈ rs, ∃ t ∈ d.tables, t.router = router) (hnodup : (rs ++ done).Nodup)
    (h : markBottoms.stepTables rs d₁ = (d', none)) : Completed d (rs.reverse ++ done) d' := by
  induction rs generalizing done d₁ with
  | nil =>
      obtain rfl : d₁ = d' := congrArg Prod.fst h
      exact hc
  | cons router rs ih =>
      obtain ⟨⟨t, ht, rfl⟩, hrs'⟩ := List.forall_mem_cons.mp hrs
      rw [List.cons_append, ← List.perm_middle.nodup_iff] at hnodup
      rw [markBottoms.stepTables] at h
      split at h
      · exact absurd (congrArg Prod.snd h) (by simp)
      · rename_i hstep
        rw [List.reverse_cons, List.append_assoc, List.singleton_append]
        have hnew : t.router ∉ done := (List.nodup_cons.mp hnodup.of_append_right).1
        exact ih (hc.step hd ht hnew hstep) hrs' hnodup h

end Separate

end MplsReach.Dump
