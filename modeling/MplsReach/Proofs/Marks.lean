/-
Marks on the names of labels.

* `Text.replaceAux_append`: where a part is replaced that a text ends in, the text ends in the new
  one.
* `Dump.remark`: how an action marks the name of its label.
* `Dump.Marks`: actions that mark the names of their labels one after the other.
* `Marks.frame`: they leave the names of all labels that no action brings in.
* `Marks.labelName_once`, `Marks.labelName_twice`: the name of a label that one action brings in,
  and of one that a rule and a copy of the rule bring in.
-/
import Mathlib.Data.List.Infix
import MplsReach.Dump.Table
import MplsReach.Proofs.Results

namespace MplsReach

/-! ### Texts -/

namespace Text

variable {s e f : String}

lemma endsIn_iff : endsIn e s = true ↔ e.toList <:+ s.toList := List.isSuffixOf_iff_suffix

lemma endsIn_append (s e : String) : endsIn e (s ++ e) = true := by
  rw [endsIn_iff, String.toList_append]
  exact List.suffix_append _ _

/-- A text ends in only one text of each length. -/
lemma endsIn_append_of_ne (hlength : e.toList.length = f.toList.length) (hne : e ≠ f) :
    endsIn e (s ++ f) = false := by
  rw [Bool.eq_false_iff, ne_eq, endsIn_iff, String.toList_append]
  intro hsuffix
  have heq : e.toList <:+ f.toList :=
    List.suffix_of_suffix_length_le hsuffix (List.suffix_append _ _) hlength.le
  exact hne (String.toList_inj.mp (heq.eq_of_length hlength))

lemma replaceAux_of_present {old new cs : List Char} (hold : old ≠ []) (h : old <+: cs) :
    replaceAux old new cs = new ++ replaceAux old new (cs.drop old.length) := by
  cases cs with
  | nil => exact absurd (List.prefix_nil.mp h) hold
  | cons c cs =>
      have hlength : ((c :: cs).drop old.length).length < (c :: cs).length := by
        have hpos := List.length_pos_iff.mpr hold
        rw [List.length_drop, List.length_cons]
        omega
      rw [replaceAux, if_pos (List.isPrefixOf_iff_prefix.mpr h), dif_pos hlength]

lemma replaceAux_of_absent {old new cs : List Char} {c : Char} (h : ¬ old <+: c :: cs) :
    replaceAux old new (c :: cs) = c :: replaceAux old new cs := by
  rw [replaceAux, if_neg fun hp => h (List.isPrefixOf_iff_prefix.mp hp)]

/-- A part that overlaps with no other occurrence of itself is found where a text ends in it. -/
lemma replaceAux_append {old new : List Char} (hold : old ≠ [])
    (hborder : ∀ k < old.length, 0 < k → ¬ old.drop k <+: old) (cs : List Char) :
    replaceAux old new (cs ++ old) = replaceAux old new cs ++ new := by
  induction hn : cs.length using Nat.strong_induction_on generalizing cs with
  | _ n ih =>
      cases cs with
      | nil =>
          rw [List.nil_append, replaceAux_of_present hold List.prefix_rfl, List.drop_length,
            replaceAux, List.append_nil, List.nil_append]
      | cons c cs =>
          by_cases hp : old <+: (c :: cs) ++ old
          · have hle : old.length ≤ (c :: cs).length := by
              by_contra hlt
              -- otherwise the occurrence overlaps with the one at the end
              obtain ⟨rest, hrest⟩ := hp
              refine hborder (c :: cs).length (by omega) (by simp) ⟨rest, ?_⟩
              rw [← List.drop_append_of_le_length (by omega), hrest, List.drop_left]
            have hp' : old <+: c :: cs :=
              List.prefix_of_prefix_length_le hp (List.prefix_append _ _) hle
            have hrest := ih _ (by
              rw [← hn, List.length_drop]
              have hpos := List.length_pos_iff.mpr hold
              omega) ((c :: cs).drop old.length) rfl
            rw [replaceAux_of_present hold hp, replaceAux_of_present hold hp',
              List.drop_append_of_le_length hle, hrest, List.append_assoc]
          · have hp' : ¬ old <+: c :: cs := fun h => hp (h.trans (List.prefix_append _ _))
            have hrest := ih cs.length (by rw [← hn, List.length_cons]; omega) cs rfl
            rw [List.cons_append] at hp ⊢
            rw [replaceAux_of_absent hp, replaceAux_of_absent hp', hrest, List.cons_append]

end Text

namespace Dump

lemma toList_upperMark : upperMark.toList = ['(', 'S', '=', '0', ')'] := by
  simp [upperMark]

lemma toList_lowestMark : lowestMark.toList = ['(', 'S', '=', '1', ')'] := by
  simp [lowestMark]

lemma endsIn_upper_lowest (s : String) : Text.endsIn upperMark (s ++ lowestMark) = false :=
  Text.endsIn_append_of_ne (by simp [toList_upperMark, toList_lowestMark])
    (by simp [upperMark, lowestMark])

lemma endsIn_lowest_upper (s : String) : Text.endsIn lowestMark (s ++ upperMark) = false :=
  Text.endsIn_append_of_ne (by simp [toList_upperMark, toList_lowestMark])
    (by simp [upperMark, lowestMark])

/-- Where the mark of a lowest label is replaced, the mark of an upper one ends the name. -/
lemma replace_append_lowest (s : String) :
    Text.replace lowestMark upperMark (s ++ lowestMark) =
      Text.replace lowestMark upperMark s ++ upperMark := by
  have hreplace : ∀ name : String, (Text.replace lowestMark upperMark name).toList =
      Text.replaceAux lowestMark.toList upperMark.toList name.toList :=
    fun name => String.toList_ofList
  rw [← String.toList_inj, String.toList_append, hreplace, hreplace, String.toList_append,
    toList_lowestMark]
  exact Text.replaceAux_append (by simp) (by decide) _

lemma endsIn_replace (s : String) :
    Text.endsIn upperMark (Text.replace lowestMark upperMark (s ++ lowestMark)) = true := by
  rw [replace_append_lowest]
  exact Text.endsIn_append _ _

/-! ### Names -/

variable {d d' : Dump} {x m : LabelId} {arrival : Arrival} {a : Action}

lemma labelName?_rename (d : Dump) (l x : LabelId) (f : String → String) :
    (d.rename l f).labelName? x = if l = x then (d.labelName? x).map f else d.labelName? x := by
  simp only [labelName?, rename, List.getD_eq_getElem?_getD, List.getElem?_modify]
  by_cases h : l = x
  · cases d.labels[x]? <;> simp [h]
  · simp [h]

/-- How an action marks the name of its label. -/
def remark (d : Dump) : Arrival → Action → String → String
  | .labelled _, .push _ => marked upperMark lowestMark
  | .labelled m, .swap _ =>
    if d.isUpper m then marked upperMark lowestMark else marked lowestMark upperMark
  | .ethernet _, .push _ => fun name =>
    if Text.endsIn upperMark name then Text.replace upperMark lowestMark name else name ++ upperMark
  | _, _ => id

/-- What one action does: it marks the name of its label, if it has a label. -/
lemma eq_of_markAction (h : d.markAction arrival a = .ok d') :
    (a.label? = none ∧ d' = d) ∨
      ∃ x, a.label? = some x ∧ (d.labelName? x).isSome ∧ d' = d.rename x (remark d arrival a) := by
  have hname : ∀ {l : LabelId} {e : Dump}, (do d.requireName l; pure e) = .ok d' →
      (d.labelName? l).isSome ∧ d' = e := by
    intro l e h
    obtain ⟨_, hrequire, h⟩ := exists_of_bind_eq_ok h
    rw [requireName] at hrequire
    split at hrequire
    · exact ⟨‹_›, (Except.ok.inj h).symm⟩
    · exact absurd hrequire nofun
  cases arrival with
  | labelled m =>
      cases a with
      | push l => exact .inr ⟨l, rfl, hname h⟩
      | swap l =>
          obtain ⟨hsome, rfl⟩ := hname h
          refine .inr ⟨l, rfl, hsome, ?_⟩
          rw [remark]
          split <;> rfl
      | pop => exact .inl ⟨rfl, (Except.ok.inj h).symm⟩
      | alien => exact absurd h nofun
  | ethernet i =>
      cases a with
      | push l => exact .inr ⟨l, rfl, hname h⟩
      | swap l => exact absurd h nofun
      | pop => exact absurd h nofun
      | alien => exact absurd h nofun

/-! ### One action after the other -/

section Stepwise

variable {α σ : Type} {f : σ → α → Except Fault σ} {s s' : σ} {as bs : List α}

lemma exists_of_stepwise_cons {c : α} (h : stepwise f s (c :: as) = (s', none)) :
    ∃ s₁, f s c = .ok s₁ ∧ stepwise f s₁ as = (s', none) := by
  rw [stepwise] at h
  split at h
  · exact absurd (congrArg Prod.snd h) (by simp)
  · exact ⟨_, ‹_›, h⟩

lemma exists_of_stepwise_append (h : stepwise f s (as ++ bs) = (s', none)) :
    ∃ s₁, stepwise f s as = (s₁, none) ∧ stepwise f s₁ bs = (s', none) := by
  induction as generalizing s with
  | nil => exact ⟨s, rfl, h⟩
  | cons c as ih =>
      obtain ⟨s₁, hc, h⟩ := exists_of_stepwise_cons h
      obtain ⟨s₂, has, hbs⟩ := ih h
      exact ⟨s₂, by rw [stepwise, hc]; exact has, hbs⟩

end Stepwise

/-- Actions, each with the packets that it is for, mark the names of their labels one after the
other. -/
def Marks (d : Dump) (ps : List (Arrival × Action)) (d' : Dump) : Prop :=
  stepwise (fun d (p : Arrival × Action) => d.markAction p.1 p.2) d ps = (d', none)

variable {ps qs : List (Arrival × Action)}

lemma Marks.exists_of_cons {p : Arrival × Action} (h : Marks d (p :: ps) d') :
    ∃ d₁, d.markAction p.1 p.2 = .ok d₁ ∧ Marks d₁ ps d' := exists_of_stepwise_cons h

lemma Marks.exists_of_append (h : Marks d (ps ++ qs) d') : ∃ d₁, Marks d ps d₁ ∧ Marks d₁ qs d' :=
  exists_of_stepwise_append h

lemma Marks.exists_of_mem {p : Arrival × Action} (h : Marks d ps d') (hp : p ∈ ps) :
    ∃ d₁ d₂ : Dump, d₁.markAction p.1 p.2 = .ok d₂ := by
  obtain ⟨qs, rs, rfl⟩ := List.append_of_mem hp
  obtain ⟨d₁, -, hrest⟩ := h.exists_of_append
  obtain ⟨d₂, hmark, -⟩ := hrest.exists_of_cons
  exact ⟨d₁, d₂, hmark⟩

/-- No action of some brings a label in. -/
def Leaves (ps : List (Arrival × Action)) (x : LabelId) : Prop := ∀ p ∈ ps, p.2.label? ≠ some x

/-- Marking leaves all but the names of labels, and of those the ones that no action brings in. -/
lemma Marks.frame (h : Marks d ps d') :
    d'.tables = d.tables ∧ ∀ x, Leaves ps x → d'.labelName? x = d.labelName? x := by
  induction ps generalizing d with
  | nil =>
      obtain rfl : d = d' := congrArg Prod.fst h
      exact ⟨rfl, fun _ _ => rfl⟩
  | cons p ps ih =>
      obtain ⟨d₁, hp, hps⟩ := h.exists_of_cons
      obtain ⟨htables, hnames⟩ := ih hps
      rcases eq_of_markAction hp with ⟨-, rfl⟩ | ⟨l, hl, -, rfl⟩
      · exact ⟨htables, fun x hx => hnames x fun q hq => hx q (List.mem_cons_of_mem p hq)⟩
      · refine ⟨htables, fun x hx => ?_⟩
        have hne : l ≠ x := fun heq => hx p List.mem_cons_self (heq ▸ hl)
        rw [hnames x fun q hq => hx q (List.mem_cons_of_mem p hq), labelName?_rename, if_neg hne]

/-- The labels of the packets are not marked, and so tell the same all the time. -/
lemma Marks.remark_eq (h : Marks d ps d') (harrival : ∀ m, arrival = .labelled m → Leaves ps m) :
    remark d' arrival a = remark d arrival a := by
  cases arrival with
  | ethernet i => cases a <;> rfl
  | labelled m =>
      have hupper : d'.isUpper m = d.isUpper m := by
        rw [isUpper, isUpper, labelName, labelName, h.frame.2 m (harrival m rfl)]
      cases a with
      | swap l => rw [remark, remark, hupper]
      | _ => rfl

/-- A label that one action brings in is marked by that action. -/
lemma Marks.labelName_once (h : Marks d (ps ++ (arrival, a) :: qs) d') (ha : a.label? = some x)
    (hps : Leaves ps x) (hqs : Leaves qs x) (harrival : ∀ m, arrival = .labelled m → Leaves ps m) :
    d'.labelName x = remark d arrival a (d.labelName x) := by
  obtain ⟨d₁, hfirst, hrest⟩ := h.exists_of_append
  obtain ⟨d₂, hmark, hlast⟩ := hrest.exists_of_cons
  have hremark : remark d₁ arrival a = remark d arrival a := hfirst.remark_eq harrival
  rcases eq_of_markAction hmark with ⟨hnone, -⟩ | ⟨l, hl, hsome, rfl⟩
  · exact absurd (ha.symm.trans hnone) (by simp)
  · obtain rfl : x = l := Option.some.inj (ha.symm.trans hl)
    obtain ⟨name, hname⟩ := Option.isSome_iff_exists.mp hsome
    have hbefore := hfirst.frame.2 x hps
    have hafter := hlast.frame.2 x hqs
    rw [labelName?_rename, if_pos rfl, hname] at hafter
    rw [hname] at hbefore
    rw [labelName, labelName, hafter, ← hbefore, hremark]
    rfl

/-- A label that two actions bring in is marked by one after the other. -/
lemma Marks.labelName_twice {rs : List (Arrival × Action)} {arrival' : Arrival}
    (h : Marks d (ps ++ (arrival, a) :: qs ++ (arrival', a) :: rs) d') (ha : a.label? = some x)
    (hps : Leaves ps x) (hqs : Leaves qs x) (hrs : Leaves rs x)
    (harrival : ∀ m, arrival = .labelled m → Leaves ps m)
    (harrival' : ∀ m, arrival' = .labelled m → Leaves (ps ++ (arrival, a) :: qs) m) :
    d'.labelName x = remark d arrival' a (remark d arrival a (d.labelName x)) := by
  obtain ⟨d₁, hfirst, hrest⟩ := h.exists_of_append
  have honce := hfirst.labelName_once ha hps hqs harrival
  have hrest' : Marks d₁ ([] ++ (arrival', a) :: rs) d' := hrest
  have hagain := hrest'.labelName_once ha (by simp [Leaves]) hrs (by simp [Leaves])
  rw [hagain, honce, hfirst.remark_eq harrival']

end Dump

end MplsReach
