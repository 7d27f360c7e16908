/-
The rules for upper labels that completing a table adds.

* `copyName`: the name of the label that the copy of a rule is for; `Unmarked.copyName_eq_iff`: a
  name without marks is kept.
* `Table.rulesFor`: the rules for a label of a name; `Table.copiedTo`: those whose copies are for an
  upper label of a name.
* `Completed.exists_rulesFor_upper`: rules for upper labels are kept, and copies stand behind them.
* `AddsMissing`: copies are added only for labels without rules for upper ones.
* `markBottoms_addsMissing_iff`: **exactly when they are.** Names are compared when one of them is
  marked already, so that every rule for a lowest label gets a copy.
-/
import MplsReach.Proofs.MarkPassing

namespace MplsReach

/-! ### Parts that are replaced -/

namespace Text

variable {old new cs : List Char}

/-- A part that is not there is not replaced. -/
lemma replaceAux_of_not_infix (h : ¬ old <:+: cs) : replaceAux old new cs = cs := by
  induction cs with
  | nil => rw [replaceAux]
  | cons c cs ih =>
      have habsent : ¬ old <+: c :: cs := fun hp => h hp.isInfix
      have hrest : ¬ old <:+: cs := fun hi => h (hi.trans (List.suffix_cons c cs).isInfix)
      rw [replaceAux_of_absent habsent, ih hrest]

/-- Where something is replaced, what is put in is there. -/
lemma replaceAux_eq_or_infix (hold : old ≠ []) (new cs : List Char) :
    replaceAux old new cs = cs ∨ new <:+: replaceAux old new cs := by
  induction cs with
  | nil => exact .inl (by rw [replaceAux])
  | cons c cs ih =>
      by_cases hp : old <+: c :: cs
      · rw [replaceAux_of_present hold hp]
        exact .inr (List.prefix_append _ _).isInfix
      · rw [replaceAux_of_absent hp]
        exact ih.imp (congrArg (c :: ·)) fun hi => hi.trans (List.suffix_cons _ _).isInfix

end Text

namespace Dump

/-- A text without a bracket is found after marks were replaced only where it was before. -/
lemma prefix_of_prefix_replaceAux {p : List Char} (hp : '(' ∉ p) {cs : List Char}
    (h : p <+: Text.replaceAux lowestMark.toList upperMark.toList cs) : p <+: cs := by
  induction p generalizing cs with
  | nil => exact List.nil_prefix
  | cons x p ih =>
      rw [List.mem_cons, not_or] at hp
      cases cs with
      | nil =>
          rw [Text.replaceAux] at h
          exact h
      | cons c cs =>
          by_cases hc : lowestMark.toList <+: c :: cs
          · rw [Text.replaceAux_of_present (by simp [toList_lowestMark]) hc, toList_upperMark] at h
            exact absurd (List.cons_prefix_cons.mp h).1.symm hp.1
          · rw [Text.replaceAux_of_absent hc] at h
            obtain ⟨rfl, hrest⟩ := List.cons_prefix_cons.mp h
            exact List.cons_prefix_cons.mpr ⟨rfl, ih hp.2 hrest⟩

/-- No mark of a lowest label is left when such marks are replaced. -/
lemma not_infix_replaceAux (cs : List Char) :
    ¬ lowestMark.toList <:+: Text.replaceAux lowestMark.toList upperMark.toList cs := by
  have hold : lowestMark.toList ≠ [] := by simp [toList_lowestMark]
  induction hn : cs.length using Nat.strong_induction_on generalizing cs with
  | _ n ih =>
      cases cs with
      | nil => simp [Text.replaceAux, toList_lowestMark]
      | cons c cs =>
          by_cases hc : lowestMark.toList <+: c :: cs
          · have hrest := ih _ (by
              rw [← hn, List.length_drop]
              have hpos := List.length_pos_iff.mpr hold
              simp only [List.length_cons]
              omega) ((c :: cs).drop lowestMark.toList.length) rfl
            rw [Text.replaceAux_of_present hold hc]
            simpa [toList_upperMark, toList_lowestMark, List.infix_cons_iff] using hrest
          · have hrest := ih cs.length (by rw [← hn, List.length_cons]; omega) cs rfl
            rw [Text.replaceAux_of_absent hc, List.infix_cons_iff, not_or]
            refine ⟨fun hp => hc ?_, hrest⟩
            -- a mark that begins here was there before
            have hmark : lowestMark.toList = '(' :: ['S', '=', '1', ')'] := toList_lowestMark
            rw [hmark, List.cons_prefix_cons, ← hmark] at hp
            rw [hmark, List.cons_prefix_cons]
            exact ⟨hp.1, prefix_of_prefix_replaceAux (by decide) hp.2⟩

/-! ### The names of copies -/

/-- The name, up to its mark, of the label that the copy of a rule is for. -/
def copyName (name : String) : String := Text.replace lowestMark upperMark name

/-- No mark stands in a name. -/
def Unmarked (name : String) : Prop :=
  ¬ upperMark.toList <:+: name.toList ∧ ¬ lowestMark.toList <:+: name.toList

instance (name : String) : Decidable (Unmarked name) := inferInstanceAs (Decidable (_ ∧ _))

variable {name m : String}

lemma toList_copyName (name : String) : (copyName name).toList =
    Text.replaceAux lowestMark.toList upperMark.toList name.toList := String.toList_ofList

lemma copyName_eq_self (h : ¬ lowestMark.toList <:+: name.toList) : copyName name = name := by
  rw [← String.toList_inj, toList_copyName]
  exact Text.replaceAux_of_not_infix h

/-- The names of copies are those that are kept. -/
lemma copyName_copyName (name : String) : copyName (copyName name) = copyName name :=
  copyName_eq_self (toList_copyName name ▸ not_infix_replaceAux name.toList)

/-- A name without marks is that of a copy only if it is kept. -/
lemma Unmarked.copyName_eq_iff (h : Unmarked name) : copyName m = name ↔ m = name := by
  constructor
  · intro hm
    have hold : lowestMark.toList ≠ [] := by simp [toList_lowestMark]
    rcases Text.replaceAux_eq_or_infix hold upperMark.toList m.toList with heq | hinfix
    · rw [← toList_copyName, String.toList_inj] at heq
      exact heq.symm.trans hm
    · rw [← toList_copyName, hm] at hinfix
      exact absurd hinfix h.1
  · rintro rfl
    exact copyName_eq_self h.2

/-! ### Rules for a label of a name -/

/-- The rules of a table for packets with a label of a name. -/
def Table.rulesFor (d : Dump) (name : String) (t : Table) : List Rule :=
  t.rules.filter fun r => r.label?.any fun l => d.labelName l = name

/-- The rules of a table whose copies are for an upper label of a name. -/
def Table.copiedTo (d : Dump) (name : String) (t : Table) : List Rule :=
  (t.rules.filter (isLow d)).filter fun r => r.label?.any fun l => copyName (d.labelName l) = name

/-- A rule sends packets the same way as another one, with the same actions and weight. -/
def Rule.Mirrors (r c : Rule) : Prop :=
  c.out = r.out ∧ c.actions = r.actions ∧ c.weight = r.weight

/-- Rules for upper labels of a name are added only where there are none. If there are some, they
stay as they are. If there are none, each rule for a label of the name gets one that sends packets
the same way, and is itself for a lowest label from then on. -/
def AddsMissing (d d' : Dump) (t t' : Table) (name : String) : Prop :=
  (t.rulesFor d (name ++ upperMark) ≠ [] →
    t'.rulesFor d' (name ++ upperMark) = t.rulesFor d (name ++ upperMark)) ∧
  (t.rulesFor d (name ++ upperMark) = [] →
    List.Forall₂ Rule.Mirrors (t.rulesFor d name) (t'.rulesFor d' (name ++ upperMark)) ∧
    ∀ r ∈ t.rulesFor d name, r ∈ t'.rulesFor d' (name ++ lowestMark))

variable {d d' d₁ : Dump} {done : List (Option String)} {t t' : Table} {r : Rule}

lemma Table.mem_rulesFor_iff :
    r ∈ t.rulesFor d name ↔ r ∈ t.rules ∧ ∃ l, r.label? = some l ∧ d.labelName l = name := by
  rw [Table.rulesFor, List.mem_filter]
  cases hl : r.label? <;> simp

lemma Table.mem_copiedTo_iff : r ∈ t.copiedTo d name ↔ r ∈ t.rules ∧
    ∃ l, r.label? = some l ∧ d.isUpper l = false ∧ copyName (d.labelName l) = name := by
  rw [Table.copiedTo, List.mem_filter, List.mem_filter, isLow, and_assoc]
  cases hl : r.label? <;> simp

/-- Where a name is kept, all rules for it have copies for it. -/
lemma Table.rulesFor_sublist (hname : Text.endsIn upperMark name = false)
    (hcopy : copyName name = name) : (t.rulesFor d name).Sublist (t.copiedTo d name) := by
  rw [Table.rulesFor, Table.copiedTo, List.filter_filter]
  refine List.monotone_filter_right _ fun r hr => ?_
  cases hl : r.label? with
  | none => simp [hl] at hr
  | some l =>
      have hlabel : d.labelName l = name := by simpa [hl] using hr
      simp [isLow, hl, isUpper, hlabel, hname, hcopy]

lemma Table.copiedTo_eq_nil (hcopy : copyName name ≠ name) : t.copiedTo d name = [] := by
  refine List.eq_nil_iff_forall_not_mem.mpr fun r hr => hcopy ?_
  obtain ⟨-, l, -, -, rfl⟩ := Table.mem_copiedTo_iff.mp hr
  exact copyName_copyName _

lemma Table.copiedTo_eq_rulesFor (hname : Unmarked name) :
    t.copiedTo d name = t.rulesFor d name := by
  rw [Table.rulesFor, Table.copiedTo, List.filter_filter]
  refine List.filter_congr fun r _ => ?_
  cases hl : r.label? with
  | none => simp
  | some l =>
      have hupper : d.labelName l = name → d.isUpper l = false := by
        rintro rfl
        rw [isUpper, Bool.eq_false_iff]
        exact fun hends => hname.1 (Text.endsIn_iff.mp hends).isInfix
      by_cases hlabel : d.labelName l = name
      · simp [isLow, hl, hname.copyName_eq_iff, hlabel, hupper hlabel]
      · simp [hname.copyName_eq_iff, hlabel]

/-- If as many rules are copied as there are for a name, they are those. -/
lemma Table.eq_of_mirrors {cs : List Rule} (hname : Text.endsIn upperMark name = false)
    (hcs : List.Forall₂ Rule.Mirrors (t.copiedTo d name) cs) :
    List.Forall₂ Rule.Mirrors (t.rulesFor d name) cs ↔ t.copiedTo d name = t.rulesFor d name := by
  constructor
  · intro h
    have hlength : (t.rulesFor d name).length = (t.copiedTo d name).length :=
      h.length_eq.trans hcs.length_eq.symm
    by_cases hcopy : copyName name = name
    · exact ((Table.rulesFor_sublist hname hcopy).eq_of_length hlength).symm
    · rw [Table.copiedTo_eq_nil hcopy] at hlength ⊢
      exact (List.eq_nil_of_length_eq_zero hlength).symm
  · intro h
    rwa [← h]

/-! ### Completed tables -/

section Completed

variable (hd : Separate d) (hc : Completed d done d₁) (hdone : ∀ t ∈ d.tables, t.router ∈ done)
  (hmarks : Marks d₁ (d₁.tables.flatMap Table.steps) d') (ht : t ∈ d.tables)

include hd hc hdone hmarks ht

/-- Among the rules that there were, those for upper labels are the same. -/
lemma Completed.filter_rules_upper (name : String) :
    (t.rules.filter fun r => r.label?.any fun l => d'.labelName l = name ++ upperMark) =
      t.rulesFor d (name ++ upperMark) := by
  refine List.filter_congr fun r hr => ?_
  cases hl : r.label? with
  | none => rfl
  | some l =>
      simp only [Option.any_some, decide_eq_decide]
      rw [hc.labelName_arrival hd hmarks hdone ht hr hl]
      split
      · rfl
      · rename_i hupper
        refine iff_of_false (fun h => append_upper_ne_append_lowest _ _ h.symm) fun h => hupper ?_
        rw [isUpper, h]
        exact Text.endsIn_append _ _

/-- Rules for upper labels are kept, and copies stand behind them. -/
lemma Completed.exists_rulesFor_upper (hgrown : Grown d done d₁ t t') (name : String) :
    ∃ cs, t'.rulesFor d' (name ++ upperMark) = t.rulesFor d (name ++ upperMark) ++ cs ∧
      List.Forall₂ Rule.Mirrors (t.copiedTo d name) cs := by
  obtain ⟨-, cs, hrules, hcs⟩ := hgrown
  rw [copied, if_pos (hdone t ht)] at hcs
  refine ⟨cs.filter fun c => c.label?.any fun l => d'.labelName l = name ++ upperMark, ?_, ?_⟩
  · rw [Table.rulesFor, hrules, List.filter_append, hc.filter_rules_upper hd hdone hmarks ht]
  · -- a copy is for a label of the name if the rule is copied to it
    have hfilter := List.rel_filter (R := IsCopy (fun l => d.labelName l ++ lowestMark)
      d.labels.length d₁) (p := fun r => r.label?.any fun l => copyName (d.labelName l) = name)
      (q := fun c => c.label?.any fun l => d'.labelName l = name ++ upperMark) ?_ hcs
    · exact hfilter.imp fun r c hcopy => by
        obtain ⟨l, l', -, rfl, -, -⟩ := hcopy
        exact ⟨rfl, rfl, rfl⟩
    · rintro r c ⟨l, l', hl, rfl, hle, hcopied⟩
      have hlabel : d'.labelName l' = copyName (d.labelName l) ++ upperMark := by
        rw [labelName, hmarks.frame.2 l' (hc.leaves_new hd hle), hcopied, replace_append_lowest]
        rfl
      have harrives : ({ r with arrival := .labelled l' } : Rule).label? = some l' := rfl
      simp [hl, harrives, hlabel]

/-- Rules for labels that are not upper ones are for lowest ones from then on. -/
lemma Completed.mem_rulesFor_lowest (hgrown : Grown d done d₁ t t')
    (hname : Text.endsIn upperMark name = false) (hr : r ∈ t.rulesFor d name) :
    r ∈ t'.rulesFor d' (name ++ lowestMark) := by
  obtain ⟨-, cs, hrules, -⟩ := hgrown
  obtain ⟨hr, l, hl, hlabel⟩ := Table.mem_rulesFor_iff.mp hr
  refine Table.mem_rulesFor_iff.mpr ⟨hrules ▸ List.mem_append_left _ hr, l, hl, ?_⟩
  rw [hc.labelName_arrival hd hmarks hdone ht hr hl, if_neg, hlabel]
  rw [isUpper, hlabel, hname]
  exact Bool.false_ne_true

/-- Rules are added just where they are missing if and only if, for a name, the copies are those of
its rules or, where there are rules for upper labels, there are none. -/
lemma Completed.addsMissing_iff (hgrown : Grown d done d₁ t t')
    (hname : Text.endsIn upperMark name = false) :
    AddsMissing d d' t t' name ↔ t.copiedTo d name =
      if t.rulesFor d (name ++ upperMark) = [] then t.rulesFor d name else [] := by
  obtain ⟨cs, hrules, hcs⟩ := hc.exists_rulesFor_upper hd hdone hmarks ht hgrown name
  rw [AddsMissing, hrules]
  split
  · rename_i hnone
    rw [hnone, List.nil_append, ← Table.eq_of_mirrors hname hcs]
    constructor
    · exact fun h => (h.2 rfl).1
    · exact fun h => ⟨fun hne => absurd rfl hne, fun _ =>
        ⟨h, fun r hr => hc.mem_rulesFor_lowest hd hdone hmarks ht hgrown hname hr⟩⟩
  · rename_i hsome
    have hempty : t.copiedTo d name = [] ↔ cs = [] := by
      rw [← List.length_eq_zero_iff, ← List.length_eq_zero_iff, hcs.length_eq]
    rw [hempty]
    constructor
    · exact fun h => List.append_right_eq_self.mp (h.1 hsome)
    · rintro rfl
      exact ⟨fun _ => List.append_nil _, fun hnone => absurd hnone hsome⟩

end Completed

/-- **Rules that are added for upper labels.** Where marking ends without a fault, they are added
only where they are missing if and only if the rules that are copied to the upper label of a name
are all rules for the name, or none if there are rules for the upper label. So for a name without
marks it is asked that there are no rules for the upper label or none for the name itself. -/
theorem markBottoms_addsMissing_iff (hd : Separate d) (h : d.markBottoms = (d', none)) :
    List.Forall₂ (fun t t' => t'.router = t.router ∧
      (∀ name, Text.endsIn upperMark name = false →
        (AddsMissing d d' t t' name ↔ t.copiedTo d name =
          if t.rulesFor d (name ++ upperMark) = [] then t.rulesFor d name else [])) ∧
      ∀ name, Unmarked name → (AddsMissing d d' t t' name ↔
        t.rulesFor d (name ++ upperMark) = [] ∨ t.rulesFor d name = [])) d.tables d'.tables := by
  obtain ⟨d₁, done, hdone, hc, hmarks⟩ := exists_of_markBottoms hd h
  rw [hmarks.frame.1]
  refine ((List.forall₂_and_left _ _).mpr ⟨fun _ ht => ht, hc.tables⟩).imp
    fun t t' ⟨ht, hgrown⟩ => ?_
  have hiff : ∀ name, Text.endsIn upperMark name = false →
      (AddsMissing d d' t t' name ↔ t.copiedTo d name =
        if t.rulesFor d (name ++ upperMark) = [] then t.rulesFor d name else []) :=
    fun name hname => hc.addsMissing_iff hd hdone hmarks ht hgrown hname
  refine ⟨hgrown.1, hiff, fun name hname => ?_⟩
  have hends : Text.endsIn upperMark name = false := by
    rw [Bool.eq_false_iff]
    exact fun hends => hname.1 (Text.endsIn_iff.mp hends).isInfix
  rw [hiff name hends, Table.copiedTo_eq_rulesFor hname]
  split <;> simp [*]

theorem addsMissing_upperSwapping :
    Separate upperSwapping ∧ upperSwapping.markBottoms = (upperSwapped, none) ∧
      ∀ t ∈ upperSwapping.tables, ∀ t' ∈ upperSwapped.tables,
        t.rulesFor upperSwapping "100(S=0)" ≠ [] ∧
          AddsMissing upperSwapping upperSwapped t t' "100" ∧
        t.rulesFor upperSwapping "400" ≠ [] ∧
          AddsMissing upperSwapping upperSwapped t t' "400" := by
  have hseparate : Separate upperSwapping :=
    ⟨by decide, by decide, List.disjoint_left.mpr (by decide), by decide⟩
  have hmarked : upperSwapping.markBottoms = (upperSwapped, none) := by decide +kernel
  refine ⟨hseparate, hmarked, fun t ht t' ht' => ?_⟩
  obtain rfl := List.mem_singleton.mp ht
  obtain rfl := List.mem_singleton.mp ht'
  have hadds := (List.forall₂_cons.mp (markBottoms_addsMissing_iff hseparate hmarked)).1.2.2
  exact ⟨by decide +kernel, (hadds "100" (by decide +kernel)).mpr (.inr (by decide +kernel)),
    by decide +kernel, (hadds "400" (by decide +kernel)).mpr (.inl (by decide +kernel))⟩

/-- A table with a rule for lowest labels of a name and one for upper ones. -/
def paired : Dump :=
  ⟨.empty, [some "100", some "100(S=0)"],
    [⟨some "r", [⟨.labelled 0, 0, [.pop], .number 1⟩, ⟨.labelled 1, 1, [.pop], .number 1⟩]⟩]⟩

/-- The same rules with marks, and a second rule for upper labels. -/
def pairedAgain : Dump :=
  ⟨.empty, [some "100(S=1)", some "100(S=0)", some "100(S=0)"],
    [⟨some "r", [⟨.labelled 0, 0, [.pop], .number 1⟩, ⟨.labelled 1, 1, [.pop], .number 1⟩,
      ⟨.labelled 2, 0, [.pop], .number 1⟩]⟩]⟩

/-- Packets with the upper label, that left by one interface only, leave by the other one too. -/
theorem not_addsMissing_paired :
    Separate paired ∧ paired.markBottoms = (pairedAgain, none) ∧
      ∀ t ∈ paired.tables, ∀ t' ∈ pairedAgain.tables,
        ¬ AddsMissing paired pairedAgain t t' "100" := by
  refine ⟨⟨by decide, by decide, List.disjoint_left.mpr (by decide), by decide⟩, by decide +kernel,
    fun t ht t' ht' h => ?_⟩
  obtain rfl := List.mem_singleton.mp ht
  obtain rfl := List.mem_singleton.mp ht'
  exact absurd (h.1 (by decide +kernel)) (by decide +kernel)

end Dump

end MplsReach
