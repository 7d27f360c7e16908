/-
Tables as they are read.

* `Reading.ofFile`: what is read of the file of a router, before it is settled where the rules lead
  that leave by virtual interfaces; `readFile_eq`.
* `followed`: the entries that a rule is led along, one behind the other; `foldl_resolve`: it is
  settled by these.
* `Reading.Fresh`: no label of a rule is the label of another rule or of an action; `Fresh.readHop`:
  it stays so with each next hop.
* `separate_of_read`: **tables that are read are separate.**
* `KeepsNextHops`: a rule that leaves by a virtual interface has each next hop of the interface.
* `readFile_keepsNextHops_iff`: **exactly when it does.** Entries are put in place of the rule, so
  that it has the next hop of the first entry, and no more than one.
-/
import Mathlib.Data.List.Perm.Subperm
import MplsReach.Dump.Conversion
import MplsReach.Dump.Reader
import MplsReach.Proofs.Copies
import MplsReach.Proofs.Grounded

namespace MplsReach.Dump

/-! ### Entries for virtual interfaces -/

/-- A rule whose packets go on as an entry for a virtual interface says. -/
def Rule.via (r : Rule) (v : Virtual) : Rule :=
  { r with out := v.out, actions := r.actions ++ v.actions, weight := .number v.weight }

/-- The entries that packets are led along when they leave by an interface: the first one for the
interface, then the first one behind it for the interface that it leads to, and so on. -/
def followed (t : Topology) : Option String → List Virtual → List Virtual
  | _, [] => []
  | i, v :: vs =>
    if i = some v.interface then v :: followed t (t.interfaceName v.out) vs else followed t i vs

variable {t : Topology} {i : Option String} {vs : List Virtual} {u v : Virtual} {r : Rule}

/-- A rule ends up where the entries lead that it follows. -/
lemma foldl_resolve (vs : List Virtual) (r : Rule) : vs.foldl (Rule.resolve t) r =
    (followed t (t.interfaceName r.out) vs).foldl Rule.via r := by
  induction vs generalizing r with
  | nil => rfl
  | cons v vs ih =>
      rw [List.foldl_cons, ih, Rule.resolve, followed]
      split <;> rfl

lemma followed_sublist (i : Option String) (vs : List Virtual) : (followed t i vs).Sublist vs := by
  induction vs generalizing i with
  | nil => exact List.Sublist.slnil
  | cons v vs ih =>
      rw [followed]
      split
      · exact (ih _).cons_cons v
      · exact (ih _).cons v

lemma followed_eq_nil (h : ∀ u ∈ vs, i ≠ some u.interface) : followed t i vs = [] := by
  induction vs with
  | nil => rfl
  | cons v vs ih =>
      rw [followed, if_neg (h v List.mem_cons_self), ih fun u hu => h u (List.mem_cons_of_mem v hu)]

/-- Only the first entry is followed if it leads to no other one. -/
lemma followed_eq_singleton (hfirst : vs.find? (fun u => i = some u.interface) = some u)
    (hend : ∀ w ∈ vs, t.interfaceName u.out ≠ some w.interface) : followed t i vs = [u] := by
  induction vs with
  | nil => exact absurd hfirst (by simp)
  | cons v vs ih =>
      have hrest : ∀ w ∈ vs, t.interfaceName u.out ≠ some w.interface :=
        fun w hw => hend w (List.mem_cons_of_mem v hw)
      rw [followed]
      by_cases hv : i = some v.interface
      · rw [List.find?_cons_of_pos (by simpa using hv)] at hfirst
        obtain rfl := Option.some.inj hfirst
        rw [if_pos hv, followed_eq_nil hrest]
      · rw [List.find?_cons_of_neg (by simpa using hv)] at hfirst
        rw [if_neg hv, ih hfirst hrest]

/-- The first entry for an interface is the only one, if there is one for each. -/
lemma find?_of_nodup (hnodup : (vs.map Virtual.interface).Nodup) (hv : v ∈ vs)
    (hi : i = some v.interface) : vs.find? (fun u => i = some u.interface) = some v := by
  cases hfirst : vs.find? (fun u => i = some u.interface) with
  | none => exact absurd hi (by simpa using List.find?_eq_none.mp hfirst v hv)
  | some u =>
      have hu : i = some u.interface := by simpa using List.find?_some hfirst
      rw [List.inj_on_of_nodup_map hnodup (List.mem_of_find?_eq_some hfirst) hv
        (Option.some.inj (hu.symm.trans hi))]

lemma arrival_foldl_via (ws : List Virtual) (r : Rule) :
    (ws.foldl Rule.via r).arrival = r.arrival := by
  induction ws generalizing r with
  | nil => rfl
  | cons w ws ih => exact ih (r.via w)

/-- The labels that the actions of an entry bring in. -/
def Virtual.brings (v : Virtual) : List LabelId := v.actions.filterMap Action.label?

lemma brings_foldl_via (ws : List Virtual) (r : Rule) :
    (ws.foldl Rule.via r).brings = r.brings ++ ws.flatMap Virtual.brings := by
  induction ws generalizing r with
  | nil => exact (List.append_nil _).symm
  | cons w ws ih =>
      have hvia : (r.via w).brings = r.brings ++ w.brings := List.filterMap_append
      rw [List.foldl_cons, ih, hvia, List.append_assoc, List.flatMap_cons]

/-! ### What is read of a file -/

/-- What is read of the file of a router: the rules, and the entries for virtual interfaces. -/
def Reading.ofFile (addresses : List (String × String)) (d : Dump) (f : File) :
    Except Fault Reading := do
  let _ ← d.topology.router f.router
  let information ← child "forwarding-table-information" (← f.root)
  let entries := (information.findAll "route-table").flatMap (·.findAll "rt-entry")
  entries.foldlM (Reading.readEntry addresses f.router) ⟨d.startTable f.router, []⟩

variable {addresses : List (String × String)} {d d' : Dump} {f : File} {s s' : Reading}

lemma readFile_eq (addresses : List (String × String)) (d : Dump) (f : File) :
    d.readFile addresses f =
      (fun s => s.dump.resolve f.router s.virtuals) <$> Reading.ofFile addresses d f := by
  simp only [Dump.readFile, Reading.ofFile, map_eq_pure_bind, bind_assoc]

/-- The root of a document that is given as characters. -/
lemma root_ofList (name : String) (cs : List Char) : File.root ⟨name, String.ofList cs⟩ =
    (Xml.document? cs).elim (.error .malformedXml) Xml.Node.withoutSpaces := by
  rw [File.root, Xml.Node.read, String.toList_ofList]
  cases Xml.document? cs <;> rfl

/-- Another list of rules in the table of a router leaves the routers as they are. -/
lemma routers_update (router : Option String) (g : List Rule → List Rule) (ts : List Table) :
    (ts.map fun t => if t.router = router then { t with rules := g t.rules } else t).map
      Table.router = ts.map Table.router := by
  rw [List.map_map]
  refine List.map_congr_left fun t _ => ?_
  rw [Function.comp_apply]
  split <;> rfl

lemma rulesOf_resolve (router : Option String) (d : Dump) (vs : List Virtual) :
    (d.resolve router vs).rulesOf router = (d.rulesOf router).map fun r =>
      (followed d.topology (d.topology.interfaceName r.out) vs).foldl Rule.via r := by
  have hrouter : (fun a : Table => decide (a.router = router)) ∘ (fun t : Table =>
      if t.router = router then
        { t with rules := t.rules.map fun r => vs.foldl (Rule.resolve d.topology) r }
      else t) = fun t => decide (t.router = router) := by
    funext t
    simp only [Function.comp_apply]
    split <;> rfl
  simp only [Dump.rulesOf, Dump.resolve, Dictionary.get?, List.find?_map, hrouter, ← foldl_resolve]
  cases h : d.tables.find? fun t => t.router = router with
  | none => rfl
  | some t =>
      have ht : t.router = router := by simpa using List.find?_some h
      simp [ht]

/-! ### Labels of rules -/

/-- A dump gets new labels, these among them. -/
structure Gains (d d' : Dump) (xs : List LabelId) : Prop where
  tables : d'.tables = d.tables
  length_le : d.labels.length ≤ d'.labels.length
  new : ∀ x ∈ xs, d.labels.length ≤ x ∧ x < d'.labels.length

variable {d₁ : Dump} {xs ys : List LabelId} {router : Option String}

lemma Gains.trans (h : Gains d d₁ xs) (h' : Gains d₁ d' ys) : Gains d d' (xs ++ ys) where
  tables := h'.tables.trans h.tables
  length_le := h.length_le.trans h'.length_le
  new x hx := by
    rcases List.mem_append.mp hx with hx | hx
    · exact ⟨(h.new x hx).1, (h.new x hx).2.trans_le h'.length_le⟩
    · exact ⟨h.length_le.trans (h'.new x hx).1, (h'.new x hx).2⟩

lemma gains_addLabel (d : Dump) (name : Option String) :
    Gains d (d.addLabel name).1 [(d.addLabel name).2] where
  tables := rfl
  length_le := by simp [Dump.addLabel]
  new := by simp [Dump.addLabel]

lemma gains_addActions (os : List Operation) (d : Dump) :
    Gains d (d.addActions os).1 ((d.addActions os).2.filterMap Action.label?) := by
  induction os generalizing d with
  | nil => exact ⟨rfl, le_rfl, by simp [Dump.addActions]⟩
  | cons o os ih =>
      cases o with
      | pop => exact ih d
      | push name => exact (gains_addLabel d (some name)).trans (ih _)
      | swap name => exact (gains_addLabel d (some name)).trans (ih _)

lemma Separate.of_gains (hd : Separate d) (h : Gains d d' xs) : Separate d' where
  routers := h.tables ▸ hd.routers
  arrivals := h.tables ▸ hd.arrivals
  disjoint := h.tables ▸ hd.disjoint
  known x hx := (hd.known x (h.tables ▸ hx)).trans_le h.length_le

/-- The table of one router gets one more label. -/
lemma arrivals_addRule_subperm (r : Rule) (router : Option String) {ts : List Table}
    (hnodup : (ts.map Table.router).Nodup) :
    ((ts.map fun t => if t.router = router then { t with rules := t.rules ++ [r] } else t).flatMap
      Table.arrivals).Subperm (r.label?.toList ++ ts.flatMap Table.arrivals) := by
  induction ts with
  | nil => exact List.nil_subperm
  | cons t ts ih =>
      rw [List.map_cons, List.nodup_cons] at hnodup
      rw [List.map_cons, List.flatMap_cons, List.flatMap_cons]
      split
      · rename_i ht
        -- no other table is of the router
        have hothers : (ts.map fun t =>
            if t.router = router then { t with rules := t.rules ++ [r] } else t) = ts := by
          refine (List.map_congr_left fun u hu => if_neg fun hu' => hnodup.1 ?_).trans
            (List.map_id' ts)
          exact ht.trans hu'.symm ▸ List.mem_map_of_mem hu
        have hlast : Table.arrivals { t with rules := t.rules ++ [r] } =
            t.arrivals ++ r.label?.toList := by
          rw [Table.arrivals, List.filterMap_append]
          cases hl : r.label? <;> simp [hl, Table.arrivals]
        rw [hothers, hlast, List.append_assoc]
        exact (List.perm_append_comm_assoc _ _ _).subperm
      · have hperm := List.perm_append_comm_assoc t.arrivals r.label?.toList
          (ts.flatMap Table.arrivals)
        exact ((List.subperm_append_left t.arrivals).mpr (ih hnodup.2)).trans hperm.subperm

lemma mem_brings_addRule {x : LabelId} (hx : x ∈ (d.addRule router r).tables.flatMap Table.brings) :
    x ∈ r.brings ∨ x ∈ d.tables.flatMap Table.brings := by
  obtain ⟨t', ht', hx⟩ := List.mem_flatMap.mp hx
  obtain ⟨t, ht, rfl⟩ := List.mem_map.mp ht'
  split at hx
  · rw [Table.brings, List.flatMap_append, List.flatMap_singleton, List.mem_append] at hx
    exact hx.symm.imp_right fun hx => List.mem_flatMap.mpr ⟨t, ht, hx⟩
  · exact .inr (List.mem_flatMap.mpr ⟨t, ht, hx⟩)

/-- A rule with new labels leaves tables separate. -/
lemma Separate.addRule (hd : Separate d) (hg : Gains d d' (r.brings ++ r.label?.toList))
    (hown : ∀ l ∈ r.label?, l ∉ r.brings) : Separate (d'.addRule router r) := by
  have hd' := hd.of_gains hg
  have hsub := arrivals_addRule_subperm r router hd'.routers
  have hlabel : ∀ l ∈ r.label?.toList, d.labels.length ≤ l ∧ l < d'.labels.length :=
    fun l hl => hg.new l (List.mem_append_right _ hl)
  have hbrings : ∀ x ∈ r.brings, d.labels.length ≤ x ∧ x < d'.labels.length :=
    fun x hx => hg.new x (List.mem_append_left _ hx)
  have harrival : ∀ x ∈ d'.tables.flatMap Table.arrivals, x < d.labels.length :=
    fun x hx => hd.known x (List.mem_append_left _ (hg.tables ▸ hx))
  have hbrought : ∀ x ∈ d'.tables.flatMap Table.brings, x < d.labels.length :=
    fun x hx => hd.known x (List.mem_append_right _ (hg.tables ▸ hx))
  have hrouters : (d'.addRule router r).tables.map Table.router = d'.tables.map Table.router :=
    routers_update router (· ++ [r]) d'.tables
  refine ⟨hrouters ▸ hd'.routers, ?_, ?_, ?_⟩
  · have hnodup : (r.label?.toList ++ d'.tables.flatMap Table.arrivals).Nodup := by
      refine List.nodup_append.mpr ⟨?_, hd'.arrivals, fun l hl x hx hlx => ?_⟩
      · cases r.label? <;> simp
      · exact absurd (harrival x hx) (hlx ▸ (hlabel l hl).1).not_gt
    obtain ⟨zs, hperm, hzs⟩ := hsub
    exact hperm.nodup_iff.mp (hnodup.sublist hzs)
  · intro x hx hx'
    rcases List.mem_append.mp (hsub.subset hx) with hx | hx <;>
      rcases mem_brings_addRule hx' with hx' | hx'
    · exact hown x (Option.mem_toList.mp hx) hx'
    · exact absurd (hbrought x hx') (hlabel x hx).1.not_gt
    · exact absurd (harrival x hx) (hbrings x hx').1.not_gt
    · exact hd'.disjoint hx hx'
  · intro x hx
    have hlength : (d'.addRule router r).labels.length = d'.labels.length := rfl
    rw [hlength]
    rcases List.mem_append.mp hx with hx | hx
    · rcases List.mem_append.mp (hsub.subset hx) with hx | hx
      · exact (hlabel x hx).2
      · exact hd'.known x (List.mem_append_left _ hx)
    · rcases mem_brings_addRule hx with hx | hx
      · exact (hbrings x hx).2
      · exact hd'.known x (List.mem_append_right _ hx)

/-- An entry that is emptied takes its part away. -/
lemma flatMap_put_sublist {α β κ : Type} [DecidableEq κ] (key : α → κ) {g : α → List β} {a : α}
    (ha : g a = []) (as : List α) :
    ((Dictionary.put key a as).flatMap g).Sublist (as.flatMap g) := by
  induction as with
  | nil => simp [Dictionary.put, ha]
  | cons b as ih =>
      rw [Dictionary.put, List.flatMap_cons]
      split
      · rw [List.flatMap_cons, ha, List.nil_append]
        exact List.sublist_append_right _ _
      · rw [List.flatMap_cons]
        exact ih.append_left _

lemma Separate.startTable (hd : Separate d) (router : Option String) :
    Separate (d.startTable router) := by
  have harrivals := flatMap_put_sublist Table.router (g := Table.arrivals) (a := ⟨router, []⟩) rfl
    d.tables
  have hbrings := flatMap_put_sublist Table.router (g := Table.brings) (a := ⟨router, []⟩) rfl
    d.tables
  exact ⟨Dictionary.nodup_put _ _ hd.routers, hd.arrivals.sublist harrivals,
    List.disjoint_of_subset_left harrivals.subset
      (List.disjoint_of_subset_right hbrings.subset hd.disjoint),
    fun x hx => hd.known x ((harrivals.append hbrings).subset hx)⟩

/-- The labels of rules are apart from each other and from those that actions bring in. -/
structure Reading.Fresh (s : Reading) : Prop where
  separate : Separate s.dump
  disjoint : (s.dump.tables.flatMap Table.arrivals).Disjoint (s.virtuals.flatMap Virtual.brings)
  known : ∀ x ∈ s.virtuals.flatMap Virtual.brings, x < s.dump.labels.length

/-- What a next hop can add: nothing, a rule, or an entry for a virtual interface. The labels are
new. -/
lemma readHop_cases {entry n : Xml.Node}
    (h : Reading.readHop addresses router entry s n = .ok s') : s' = s ∨
      (∃ d r, Gains s.dump d (r.brings ++ r.label?.toList) ∧ (∀ l ∈ r.label?, l ∉ r.brings) ∧
        s' = { s with dump := d.addRule router r }) ∨
      ∃ d v, Gains s.dump d v.brings ∧ s' = ⟨d, s.virtuals ++ [v]⟩ := by
  rw [Reading.readHop] at h
  split at h
  · exact .inl (Except.ok.inj h).symm
  · obtain ⟨target, -, h⟩ := exists_of_bind_eq_ok h
    obtain ⟨⟨topology, out⟩, -, h⟩ := exists_of_bind_eq_ok h
    obtain ⟨kind, -, h⟩ := exists_of_bind_eq_ok h
    split at h
    · obtain ⟨os, -, h⟩ := exists_of_bind_eq_ok h
      obtain ⟨weight, -, h⟩ := exists_of_bind_eq_ok h
      obtain ⟨place, -, h⟩ := exists_of_bind_eq_ok h
      split at h
      · obtain ⟨destination, -, h⟩ := exists_of_bind_eq_ok h
        -- labels do not depend on the topology
        have hactions := gains_addActions os { s.dump with topology := topology }
        have hnew : Gains s.dump _ _ := ⟨hactions.tables, hactions.length_le, hactions.new⟩
        split at h <;> obtain rfl := Except.ok.inj h
        · exact .inr (.inl ⟨_, ⟨.labelled _, out, _, .number weight⟩,
            hnew.trans (gains_addLabel _ _), fun l hl hbrought =>
              absurd (hnew.new l hbrought).2 (Option.some.inj hl ▸ lt_irrefl _), rfl⟩)
        · exact .inr (.inl ⟨_, ⟨.ethernet _, out, _, .number weight⟩,
            (List.append_nil _).symm ▸ hnew, fun l hl => absurd hl (by simp [Rule.label?]), rfl⟩)
        · exact .inr (.inr ⟨_, ⟨_, out, _, weight⟩, hnew, rfl⟩)
      · exact absurd h (by simp)
    · exact absurd h (by simp)

/-- Labels of rules stay apart with each next hop. -/
lemma Reading.Fresh.readHop (hs : s.Fresh) {entry n : Xml.Node}
    (h : Reading.readHop addresses router entry s n = .ok s') : s'.Fresh := by
  obtain rfl | ⟨d, r, hg, hown, rfl⟩ | ⟨d, v, hg, rfl⟩ := readHop_cases h
  · exact hs
  · have hsub := arrivals_addRule_subperm r router (hs.separate.of_gains hg).routers
    refine ⟨hs.separate.addRule hg hown, fun x hx hx' => ?_,
      fun x hx => (hs.known x hx).trans_le hg.length_le⟩
    rcases List.mem_append.mp (hsub.subset hx) with hx | hx
    · exact absurd (hs.known x hx') (hg.new x (List.mem_append_right _ hx)).1.not_gt
    · exact hs.disjoint (hg.tables ▸ hx) hx'
  · refine ⟨hs.separate.of_gains hg, fun x hx hx' => ?_, fun x hx => ?_⟩
    · rw [List.flatMap_append, List.flatMap_singleton, List.mem_append] at hx'
      replace hx : x ∈ s.dump.tables.flatMap Table.arrivals := hg.tables ▸ hx
      rcases hx' with hx' | hx'
      · exact hs.disjoint hx hx'
      · exact absurd (hs.separate.known x (List.mem_append_left _ hx)) (hg.new x hx').1.not_gt
    · rw [List.flatMap_append, List.flatMap_singleton, List.mem_append] at hx
      rcases hx with hx | hx
      · exact (hs.known x hx).trans_le hg.length_le
      · exact (hg.new x hx).2

/-- What holds at first and is kept at each step holds at last. -/
lemma foldlM_invariant {ε α σ : Type} {P : σ → Prop} {step : σ → α → Except ε σ}
    (hstep : ∀ s a s', P s → step s a = .ok s' → P s') {as : List α} {s s' : σ} (hs : P s)
    (h : as.foldlM step s = .ok s') : P s' := by
  induction as generalizing s with
  | nil => exact Except.ok.inj h ▸ hs
  | cons a as ih =>
      rw [List.foldlM_cons] at h
      obtain ⟨s₁, hs₁, h⟩ := exists_of_bind_eq_ok h
      exact ih (hstep s a s₁ hs hs₁) h

lemma Separate.fresh_ofFile (hd : Separate d) (h : Reading.ofFile addresses d f = .ok s) :
    s.Fresh := by
  obtain ⟨-, -, h⟩ := exists_of_bind_eq_ok h
  obtain ⟨root, -, h⟩ := exists_of_bind_eq_ok h
  obtain ⟨information, -, h⟩ := exists_of_bind_eq_ok h
  have hstart : Reading.Fresh ⟨d.startTable f.router, []⟩ :=
    ⟨hd.startTable _, List.disjoint_nil_right _, by simp⟩
  exact foldlM_invariant (fun s entry s' hs hentry =>
    foldlM_invariant (fun s n s' hs hn => hs.readHop hn) hs hentry) hstart h

lemma arrivals_resolve (router : Option String) (d : Dump) (vs : List Virtual) :
    (d.resolve router vs).tables.flatMap Table.arrivals = d.tables.flatMap Table.arrivals := by
  rw [Dump.resolve, List.flatMap_map]
  refine List.flatMap_congr fun t _ => ?_
  split
  · rw [Table.arrivals, List.filterMap_map]
    refine List.filterMap_congr fun r _ => ?_
    rw [Function.comp_apply, foldl_resolve, Rule.label?, arrival_foldl_via]
    rfl
  · rfl

lemma mem_brings_resolve {x : LabelId}
    (hx : x ∈ (d.resolve router vs).tables.flatMap Table.brings) :
    x ∈ d.tables.flatMap Table.brings ∨ x ∈ vs.flatMap Virtual.brings := by
  obtain ⟨t', ht', hx⟩ := List.mem_flatMap.mp hx
  obtain ⟨t, ht, rfl⟩ := List.mem_map.mp ht'
  split at hx
  · rw [Table.brings, List.flatMap_map] at hx
    obtain ⟨r, hr, hx⟩ := List.mem_flatMap.mp hx
    rw [foldl_resolve, brings_foldl_via, List.mem_append] at hx
    rcases hx with hx | hx
    · exact .inl (List.mem_flatMap.mpr ⟨t, ht, List.mem_flatMap.mpr ⟨r, hr, hx⟩⟩)
    · obtain ⟨v, hv, hx⟩ := List.mem_flatMap.mp hx
      exact .inr (List.mem_flatMap.mpr ⟨v, (followed_sublist _ _).subset hv, hx⟩)
  · exact .inl (List.mem_flatMap.mpr ⟨t, ht, hx⟩)

/-- Entries that are followed bring no label of a rule in. -/
lemma Reading.Fresh.resolve (hs : s.Fresh) (router : Option String) :
    Separate (s.dump.resolve router s.virtuals) := by
  have harrivals := arrivals_resolve router s.dump s.virtuals
  have hrouters : (s.dump.resolve router s.virtuals).tables.map Table.router =
      s.dump.tables.map Table.router :=
    routers_update router (List.map fun r => s.virtuals.foldl (Rule.resolve s.dump.topology) r) _
  refine ⟨hrouters ▸ hs.separate.routers, harrivals ▸ hs.separate.arrivals, fun x hx hx' => ?_,
    fun x hx => ?_⟩
  · rw [harrivals] at hx
    exact (mem_brings_resolve hx').elim (hs.separate.disjoint hx) (hs.disjoint hx)
  · show x < s.dump.labels.length
    rcases List.mem_append.mp hx with hx | hx
    · exact hs.separate.known x (List.mem_append_left _ (harrivals ▸ hx))
    · exact (mem_brings_resolve hx).elim
        (fun hx => hs.separate.known x (List.mem_append_right _ hx)) (hs.known x)

lemma Separate.readFile (hd : Separate d) (h : d.readFile addresses f = .ok d') :
    Separate d' := by
  rw [readFile_eq, map_eq_pure_bind] at h
  obtain ⟨s, hs, h⟩ := exists_of_bind_eq_ok h
  obtain rfl := Except.ok.inj h
  exact (hd.fresh_ofFile hs).resolve f.router

/-- **Tables that are read are separate.** -/
theorem separate_of_read {files : List File} (h : Dump.read addresses t files = .ok d) :
    Separate d := by
  have hempty : Separate (Dump.ofTopology t) :=
    ⟨List.nodup_nil, List.nodup_nil, List.disjoint_nil_right _, by simp [Dump.ofTopology]⟩
  exact foldlM_invariant (fun d f d' hd hf => hd.readFile hf) hempty h

/-! ### Next hops of virtual interfaces -/

/-- The packets that a rule is for: the label, or the interface that they arrive on. -/
def packets (d : Dump) : Arrival → Label ⊕ Option String
  | .labelled l => .inl (d.label l)
  | .ethernet i => .inr i

/-- Two rules say the same of the same packets, with labels that have the same names. -/
def Same (d : Dump) (r q : Rule) : Prop :=
  packets d r.arrival = packets d q.arrival ∧ r.out = q.out ∧
    r.actions.map d.action = q.actions.map d.action ∧ r.weight = q.weight

instance (d : Dump) (r q : Rule) : Decidable (Same d r q) := inferInstanceAs (Decidable (_ ∧ _))

/-- Two entries say the same. -/
def SameHop (d : Dump) (u v : Virtual) : Prop :=
  u.out = v.out ∧ u.actions.map d.action = v.actions.map d.action ∧ u.weight = v.weight

/-- An entry leads to no interface that there is an entry for. -/
def Reading.Ends (s : Reading) (v : Virtual) : Prop :=
  ∀ w ∈ s.virtuals, s.dump.topology.interfaceName v.out ≠ some w.interface

/-- An entry is a next hop of a rule: it is for the interface that the rule leaves by, and leads to
no virtual one. -/
def Reading.NextHop (s : Reading) (r : Rule) (v : Virtual) : Prop :=
  s.dump.topology.interfaceName r.out = some v.interface ∧ s.Ends v

/-- The first entry for the interface that a rule leaves by. -/
def Reading.first? (s : Reading) (r : Rule) : Option Virtual :=
  s.virtuals.find? fun v => s.dump.topology.interfaceName r.out = some v.interface

/-- There is a rule for the packets of a rule that takes them by an entry. -/
def Takes (d : Dump) (router : Option String) (r : Rule) (v : Virtual) : Prop :=
  ∃ r' ∈ d.rulesOf router, Same d r' (r.via v)

/-- No next hop of a rule is lost. -/
def KeepsNextHops (s : Reading) (router : Option String) (d : Dump) : Prop :=
  ∀ r ∈ s.dump.rulesOf router, ∀ v ∈ s.virtuals, s.NextHop r v → Takes d router r v

instance (s : Reading) (v : Virtual) : Decidable (s.Ends v) :=
  inferInstanceAs (Decidable (∀ w ∈ s.virtuals, _))

instance (s : Reading) (r : Rule) (v : Virtual) : Decidable (s.NextHop r v) :=
  inferInstanceAs (Decidable (_ ∧ _))

instance (d : Dump) (router : Option String) (r : Rule) (v : Virtual) :
    Decidable (Takes d router r v) :=
  inferInstanceAs (Decidable (∃ r' ∈ d.rulesOf router, _))

instance (s : Reading) (router : Option String) (d : Dump) : Decidable (KeepsNextHops s router d) :=
  inferInstanceAs (Decidable (∀ r ∈ s.dump.rulesOf router, ∀ v ∈ s.virtuals, _))

/-- A rule is led along entries. -/
def Reading.settled (s : Reading) (r : Rule) : Rule :=
  (followed s.dump.topology (s.dump.topology.interfaceName r.out) s.virtuals).foldl Rule.via r

lemma settled_of_first? (hu : s.first? r = some u) (hend : s.Ends u) : s.settled r = r.via u := by
  rw [Reading.settled, followed_eq_singleton hu hend]
  rfl

lemma same_via_iff : Same d (r.via u) (r.via v) ↔ SameHop d u v := by
  simp [Same, SameHop, Rule.via]

lemma takes_resolve_iff (s : Reading) (router : Option String) (r : Rule) (v : Virtual) :
    Takes (s.dump.resolve router s.virtuals) router r v ↔ ∃ q ∈ s.dump.rulesOf router,
      Same (s.dump.resolve router s.virtuals) (s.settled q) (r.via v) := by
  rw [Takes, rulesOf_resolve]
  simp only [List.mem_map, exists_exists_and_eq_and]
  rfl

/-- A rule that is the only one for its packets goes by the first entry. -/
lemma takes_iff_of_sole (hr : r ∈ s.dump.rulesOf router)
    (hsole : ∀ q ∈ s.dump.rulesOf router,
      packets s.dump q.arrival = packets s.dump r.arrival → q = r)
    (hu : s.first? r = some u) (hend : s.Ends u) :
    Takes (s.dump.resolve router s.virtuals) router r v ↔ SameHop s.dump u v := by
  rw [takes_resolve_iff]
  constructor
  · rintro ⟨q, hq, hsame⟩
    have hpackets : packets s.dump q.arrival = packets s.dump r.arrival := by
      have harrival : (s.settled q).arrival = q.arrival := arrival_foldl_via _ q
      exact harrival ▸ hsame.1
    obtain rfl := hsole q hq hpackets
    rw [settled_of_first? hu hend] at hsame
    exact same_via_iff.mp hsame
  · intro h
    exact ⟨r, hr, settled_of_first? hu hend ▸ same_via_iff.mpr h⟩

/-- Next hops are kept where each virtual interface has one entry. -/
lemma keepsNextHops_of_nodup (hnodup : (s.virtuals.map Virtual.interface).Nodup) :
    KeepsNextHops s router (s.dump.resolve router s.virtuals) := by
  intro r hr v hv hnext
  have hfirst : s.first? r = some v := find?_of_nodup hnodup hv hnext.1
  exact (takes_resolve_iff s router r v).mpr
    ⟨r, hr, settled_of_first? hfirst hnext.2 ▸ ⟨rfl, rfl, rfl, rfl⟩⟩

/-- **Next hops that are kept.** Where the entries of a file can be read, the file can, and each
rule becomes one rule. No next hop is lost if and only if for each one of them some rule for the
same packets is led to it. That holds where each virtual interface has one entry. But a rule that is
the only one for its packets goes by the first entry for its interface, so that another next hop is
kept only if it says the same. -/
theorem readFile_keepsNextHops_iff (hs : Reading.ofFile addresses d f = .ok s) :
    ∃ d', d.readFile addresses f = .ok d' ∧
      d'.rulesOf f.router = (s.dump.rulesOf f.router).map s.settled ∧
      (KeepsNextHops s f.router d' ↔ ∀ r ∈ s.dump.rulesOf f.router, ∀ v ∈ s.virtuals,
        s.NextHop r v → ∃ q ∈ s.dump.rulesOf f.router, Same d' (s.settled q) (r.via v)) ∧
      ((s.virtuals.map Virtual.interface).Nodup → KeepsNextHops s f.router d') ∧
      ∀ r ∈ s.dump.rulesOf f.router,
        (∀ q ∈ s.dump.rulesOf f.router, packets d' q.arrival = packets d' r.arrival → q = r) →
        ∀ u, s.first? r = some u → s.Ends u → ∀ v, (Takes d' f.router r v ↔ SameHop d' u v) := by
  refine ⟨s.dump.resolve f.router s.virtuals, by rw [readFile_eq, hs]; rfl,
    rulesOf_resolve _ _ _, ?_, keepsNextHops_of_nodup,
    fun r hr hsole u hu hend v => takes_iff_of_sole hr hsole hu hend⟩
  simp only [KeepsNextHops, takes_resolve_iff]

/-- A router of which nothing but its name is known. -/
def unconnected : Dump := .ofTopology (Topology.empty.ensureRouter (some "r"))

/-- Packets leave by a virtual interface that has one next hop. -/
def singleHop : File :=
  ⟨"r.xml", "<a><forwarding-table-information><route-table>
 <rt-entry><rt-destination>100</rt-destination>
  <nh><to/><via>lsi.1</via><nh-type>Pop</nh-type></nh></rt-entry>
 <rt-entry><rt-destination>lsi.1</rt-destination>
  <nh><to/><via>e0</via><nh-type>Push 7</nh-type></nh></rt-entry>
</route-table></forwarding-table-information></a>"⟩

/-- Packets leave by a virtual interface that has a next hop and another one to fall back on. -/
def backupHop : File :=
  ⟨"r.xml", "<a><forwarding-table-information><route-table>
 <rt-entry><rt-destination>100</rt-destination>
  <nh><to/><via>lsi.1</via><nh-type>Pop</nh-type></nh></rt-entry>
 <rt-entry><rt-destination>lsi.1</rt-destination>
  <nh><to/><via>e0</via><nh-type>ucst</nh-type><nh-weight>0x1</nh-weight></nh>
  <nh><to/><via>e1</via><nh-type>ucst</nh-type><nh-weight>0xf000</nh-weight></nh></rt-entry>
</route-table></forwarding-table-information></a>"⟩

set_option maxRecDepth 10000 in
theorem readFile_keepsNextHops_singleHop :
    ∃ s, Reading.ofFile [] unconnected singleHop = .ok s ∧
      (s.virtuals.map Virtual.interface).Nodup ∧
      (∃ r ∈ s.dump.rulesOf singleHop.router, ∃ v ∈ s.virtuals, s.NextHop r v) ∧
      ∃ d', unconnected.readFile [] singleHop = .ok d' ∧ KeepsNextHops s singleHop.router d' := by
  have hany : (Reading.ofFile [] unconnected singleHop).toOption.any (fun s =>
      (s.virtuals.map Virtual.interface).Nodup ∧
        ∃ r ∈ s.dump.rulesOf singleHop.router, ∃ v ∈ s.virtuals, s.NextHop r v) = true := by
    rw [Reading.ofFile, show singleHop.root = _ from root_ofList _ _]
    decide +kernel
  obtain ⟨s, hs, h⟩ := exists_of_any_eq_true hany
  obtain ⟨hnodup, hnext⟩ := of_decide_eq_true h
  obtain ⟨d', hread, -, -, hkeeps, -⟩ := readFile_keepsNextHops_iff hs
  exact ⟨s, hs, hnodup, hnext, d', hread, hkeeps hnodup⟩

set_option maxRecDepth 10000 in
/-- The rule has the first next hop only. -/
theorem not_keepsNextHops_backupHop :
    ∃ s d', Reading.ofFile [] unconnected backupHop = .ok s ∧
      unconnected.readFile [] backupHop = .ok d' ∧ ¬ KeepsNextHops s backupHop.router d' := by
  have hany : (Reading.ofFile [] unconnected backupHop).toOption.any (fun s =>
      ¬ KeepsNextHops s backupHop.router (s.dump.resolve backupHop.router s.virtuals)) = true := by
    rw [Reading.ofFile, show backupHop.root = _ from root_ofList _ _]
    decide +kernel
  obtain ⟨s, hs, h⟩ := exists_of_any_eq_true hany
  exact ⟨s, _, hs, by rw [readFile_eq, hs]; rfl, of_decide_eq_true h⟩

end MplsReach.Dump
