/-
Copies of a network under names.

* `CopyName`: the base has no name as a copy, and the name of any other copy ends in its only
  underscore.
* `copiesWithin`: the names of the copies within a copy, to a depth; `length_copiesWithin` counts
  them, and by `nodup_copiesWithin` they are different.
* `Network.Copyable`: the names of routers are different when they are written behind the name of a
  copy, and have no underscore.
* `Network.Copyable.nodup_names`, `Network.Copyable.nodup_ids`: **copies under different names have
  no router and no table in common.**
* `Network.Copyable.routers_copyAs`: a copy has as many routers as the base.
-/
import Mathlib.Algebra.Group.Nat.Defs
import Mathlib.Data.List.Nodup
import MplsReach.Network.Nesting
import MplsReach.Proofs.Reread

namespace MplsReach

/-! ### Names of copies -/

/-- The base has no name as a copy, and the name of any other copy ends in its only underscore. -/
def CopyName (c : String) : Prop := c = "" ∨ ∃ w, c.toList = w ++ ['_'] ∧ '_' ∉ w

/-- The names of the copies within a copy, to a depth. -/
def copiesWithin : ℕ → String → List String
  | 0, _ => []
  | depth + 1, c => (("s3" ++ c) :: copiesWithin depth ("s3" ++ c)) ++
      (("s4" ++ c) :: copiesWithin depth ("s4" ++ c))

/-- Each copy has two copies right within it. -/
lemma length_copiesWithin (depth : ℕ) (c : String) :
    (copiesWithin depth c).length + 2 = 2 ^ (depth + 1) := by
  induction depth generalizing c with
  | zero => rfl
  | succ depth ih =>
      have hthird := ih ("s3" ++ c)
      have hfourth := ih ("s4" ++ c)
      rw [copiesWithin, List.length_append, List.length_cons, List.length_cons, Nat.pow_succ]
      omega

/-- The name of a copy ends in the name of each copy that it is within. -/
lemma exists_of_mem_copiesWithin {depth : ℕ} {c x : String} (hx : x ∈ copiesWithin depth c) :
    ∃ u, u ≠ [] ∧ '_' ∉ u ∧ x.toList = u ++ c.toList := by
  induction depth generalizing c with
  | zero => exact absurd hx List.not_mem_nil
  | succ depth ih =>
      have hinner : ∀ s : String, '_' ∉ s.toList → s.toList ≠ [] →
          x ∈ (s ++ c) :: copiesWithin depth (s ++ c) →
            ∃ u, u ≠ [] ∧ '_' ∉ u ∧ x.toList = u ++ c.toList := by
        intro s hunderscore hs hx
        rcases List.mem_cons.mp hx with rfl | hx
        · exact ⟨s.toList, hs, hunderscore, String.toList_append⟩
        · obtain ⟨u, hu, hunderscoreu, heq⟩ := ih hx
          refine ⟨u ++ s.toList, by simp [hu], by simp [hunderscore, hunderscoreu], ?_⟩
          rw [heq, String.toList_append, List.append_assoc]
      rw [copiesWithin, List.mem_append] at hx
      rcases hx with hx | hx
      · exact hinner "s3" (by decide) (by decide) hx
      · exact hinner "s4" (by decide) (by decide) hx

/-- A copy is not within itself. -/
lemma notMem_copiesWithin (depth : ℕ) (c : String) : c ∉ copiesWithin depth c := by
  intro h
  obtain ⟨u, hu, -, heq⟩ := exists_of_mem_copiesWithin h
  exact hu (by simpa using heq)

/-- The base is not one of its copies. -/
lemma empty_notMem_copiesWithin (depth : ℕ) : "" ∉ copiesWithin depth "_" := by
  intro h
  obtain ⟨u, -, -, heq⟩ := exists_of_mem_copiesWithin h
  simp at heq

lemma nodup_copiesWithin (depth : ℕ) (c : String) : (copiesWithin depth c).Nodup := by
  induction depth generalizing c with
  | zero => exact List.nodup_nil
  | succ depth ih =>
      have hends : ∀ s x, x ∈ (s ++ c) :: copiesWithin depth (s ++ c) →
          (s ++ c).toList <:+ x.toList := by
        intro s x hx
        rcases List.mem_cons.mp hx with rfl | hx
        · exact List.suffix_rfl
        · obtain ⟨u, -, -, heq⟩ := exists_of_mem_copiesWithin hx
          exact ⟨u, heq.symm⟩
      rw [copiesWithin, List.nodup_append]
      refine ⟨List.nodup_cons.mpr ⟨notMem_copiesWithin depth _, ih _⟩,
        List.nodup_cons.mpr ⟨notMem_copiesWithin depth _, ih _⟩, ?_⟩
      rintro x hthird _ hfourth rfl
      -- two ends of one name that have the same length are equal
      have heq := List.suffix_of_suffix_length_le (hends _ _ hthird) (hends _ _ hfourth) (by simp)
      have heq := heq.eq_of_length (by simp)
      simp at heq

lemma ne_empty_of_toList_eq {c : String} {w : List Char} (h : c.toList = w ++ ['_']) : c ≠ "" := by
  rintro rfl
  simp at h

/-- Copies within a copy that has a name have names. -/
lemma CopyName.of_mem {depth : ℕ} {c x : String} (hc : ∃ w, c.toList = w ++ ['_'] ∧ '_' ∉ w)
    (hx : x ∈ copiesWithin depth c) : CopyName x := by
  obtain ⟨w, hw, hunderscore⟩ := hc
  obtain ⟨u, -, hu, heq⟩ := exists_of_mem_copiesWithin hx
  refine .inr ⟨u ++ w, ?_, by simp [hu, hunderscore]⟩
  rw [heq, hw, List.append_assoc]

/-! ### Routers of copies -/

/-- What a name is written as behind the name of a copy. -/
def Router.shown (r : Router) : String := Text.showOption r.id.base

lemma RouterId.copyAs_empty {r : RouterId} (h : r.copy = "") : r.copyAs "" = r := by
  obtain ⟨copy, base⟩ := r
  obtain rfl : copy = "" := h
  rfl

/-- The same link in a copy. -/
def Link.copyAs (copy : String) (l : Link) : Link := ⟨l.source.copyAs copy, l.target.copyAs copy⟩

/-- The same table in a copy. -/
def Table.copyAs (copy : String) (t : Table) : Table := { t with router := t.router.copyAs copy }

/-- A network as it is read, whose routers have different names when they are written behind the
name of a copy, where a missing name is a word like any other, and names without an underscore. -/
structure Network.Copyable (base : Network) : Prop where
  asRead : base.AsRead
  names : (base.routers.map Router.shown).Nodup
  no_underscore : ∀ r ∈ base.routers, '_' ∉ r.shown.toList

namespace Network.AsRead

variable {base : Network}

lemma copy_eq_of_mem_endpoints (h : base.AsRead) {p : Endpoint} (hp : p ∈ base.endpoints) :
    p.router.copy = "" := by
  obtain ⟨r, hr, hp⟩ := List.mem_flatMap.mp hp
  obtain ⟨i, -, rfl⟩ := List.mem_map.mp hp
  exact h.copies r hr

lemma map_routers_copyAs_empty (h : base.AsRead) :
    base.routers.map (·.copyAs "") = base.routers := by
  refine (List.map_congr_left fun r hr => ?_).trans (List.map_id' _)
  rw [Router.copyAs, RouterId.copyAs_empty (h.copies r hr)]

lemma map_tables_copyAs_empty (h : base.AsRead) :
    base.tables.map (·.copyAs "") = base.tables := by
  refine (List.map_congr_left fun t ht => ?_).trans (List.map_id' _)
  rw [Table.copyAs, Router.copyAs, RouterId.copyAs_empty (h.copies _ (h.tables t ht).router)]

/-- The base is a copy of itself without a name. -/
lemma copyAs_empty (h : base.AsRead) : base.copyAs "" = base := by
  have hendpoint : ∀ p ∈ base.endpoints, p.copyAs "" = p := by
    intro p hp
    rw [Endpoint.copyAs, RouterId.copyAs_empty (h.copy_eq_of_mem_endpoints hp)]
  have hlink : ∀ l ∈ base.links, l.copyAs "" = l := by
    intro l hl
    rw [Link.copyAs, hendpoint _ (h.links l hl).1, hendpoint _ (h.links l hl).2]
  have hrouters : (base.copyAs "").routers = base.routers := by
    rw [copyAs, h.map_routers_copyAs_empty]
    exact Dictionary.putAll_eq_append (by simpa using h.names)
  have hlinks : (base.copyAs "").links = base.links :=
    (List.map_congr_left hlink).trans (List.map_id' _)
  calc base.copyAs ""
      = ⟨(base.copyAs "").routers, (base.copyAs "").links, (base.copyAs "").tables⟩ := rfl
    _ = base := by
      rw [hrouters, hlinks]
      exact congrArg _ h.map_tables_copyAs_empty

end Network.AsRead

namespace Network.Copyable

variable {base : Network} {r r' : Router} {c c' : String} {cs : List String}

/-- In a copy, the name of the copy stands in front. -/
lemma name_copyAs (hc : c ≠ "") (r : Router) : (r.copyAs c).name = some (c ++ r.shown) := by
  simp [Router.name, RouterId.name, Router.copyAs, RouterId.copyAs, Router.shown, hc]

lemma name_copyAs_empty (r : Router) : (r.copyAs "").name = r.id.base := by
  simp [Router.name, RouterId.name, Router.copyAs, RouterId.copyAs]

/-- The name of a router in the base is not one in a copy. -/
lemma base_ne (h : base.Copyable) (hr : r ∈ base.routers) {w : List Char}
    (hc : c.toList = w ++ ['_']) : r.id.base ≠ some (c ++ r'.shown) := by
  intro heq
  refine h.no_underscore r hr ?_
  rw [Router.shown, heq]
  simp [Text.showOption, hc]

/-- **The name of a router tells the copy and the router.** -/
lemma eq_of_name_eq (h : base.Copyable) (hr : r ∈ base.routers) (hr' : r' ∈ base.routers)
    (hc : CopyName c) (hc' : CopyName c') (heq : (r.copyAs c).name = (r'.copyAs c').name) :
    c = c' ∧ r.shown = r'.shown := by
  rcases hc with rfl | ⟨w, hw, hunderscore⟩ <;> rcases hc' with rfl | ⟨w', hw', hunderscore'⟩
  · rw [name_copyAs_empty, name_copyAs_empty] at heq
    rw [Router.shown, Router.shown, heq]
    exact ⟨rfl, rfl⟩
  · rw [name_copyAs_empty, name_copyAs (ne_empty_of_toList_eq hw')] at heq
    exact (h.base_ne hr hw' heq).elim
  · rw [name_copyAs_empty, name_copyAs (ne_empty_of_toList_eq hw)] at heq
    exact (h.base_ne hr' hw heq.symm).elim
  · rw [name_copyAs (ne_empty_of_toList_eq hw), name_copyAs (ne_empty_of_toList_eq hw'),
      Option.some_inj, ← String.toList_inj, String.toList_append, String.toList_append, hw, hw',
      List.append_assoc, List.append_assoc, List.singleton_append, List.singleton_append,
      List.append_cons_inj_of_notMem hunderscore (h.no_underscore r hr)] at heq
    obtain ⟨rfl, -, hshown⟩ := heq
    exact ⟨String.toList_inj.mp (hw.trans hw'.symm), String.toList_inj.mp hshown⟩

/-- **Routers of different copies have different names**, and so have the routers of one copy. -/
lemma nodup_names (h : base.Copyable) (hcs : cs.Nodup) (hnames : ∀ c ∈ cs, CopyName c) :
    ((cs.flatMap fun c => base.routers.map (·.copyAs c)).map Router.name).Nodup := by
  have hshown := List.nodup_map_iff_inj_on h.names.of_map |>.mp h.names
  rw [List.map_flatMap, List.nodup_flatMap]
  constructor
  · intro c hc
    rw [List.map_map]
    refine (List.nodup_map_iff_inj_on h.names.of_map).mpr fun r hr r' hr' heq => ?_
    exact hshown r hr r' hr' (h.eq_of_name_eq hr hr' (hnames c hc) (hnames c hc) heq).2
  · refine hcs.imp_of_mem fun {c c'} hc hc' hne => ?_
    intro name hname hname'
    obtain ⟨_, hmem, rfl⟩ := List.mem_map.mp hname
    obtain ⟨r, hr, rfl⟩ := List.mem_map.mp hmem
    obtain ⟨_, hmem', heq⟩ := List.mem_map.mp hname'
    obtain ⟨r', hr', rfl⟩ := List.mem_map.mp hmem'
    exact hne (h.eq_of_name_eq hr hr' (hnames c hc) (hnames c' hc') heq.symm).1

/-- Tables of different copies belong to different routers, and so do the tables of one copy. -/
lemma nodup_ids (h : base.Copyable) (hcs : cs.Nodup) :
    ((cs.flatMap fun c => base.tables.map (·.copyAs c)).map (·.router.id)).Nodup := by
  have hid := List.nodup_map_iff_inj_on h.asRead.owners.of_map |>.mp h.asRead.owners
  have hcopy : ∀ t ∈ base.tables, t.router.id.copy = "" := fun t ht =>
    h.asRead.copies _ (h.asRead.tables t ht).router
  rw [List.map_flatMap, List.nodup_flatMap]
  constructor
  · intro c _
    rw [List.map_map]
    refine (List.nodup_map_iff_inj_on h.asRead.owners.of_map).mpr fun t ht t' ht' heq => ?_
    have hcopied : t.router.id.copyAs c = t'.router.id.copyAs c := heq
    have hbase : t.router.id.base = t'.router.id.base := (RouterId.mk.inj hcopied).2
    refine hid t ht t' ht' ?_
    rw [← RouterId.copyAs_empty (hcopy t ht), ← RouterId.copyAs_empty (hcopy t' ht')]
    exact congrArg (RouterId.mk "") hbase
  · refine hcs.imp fun {c c'} hne id hid hid' => hne ?_
    obtain ⟨_, hmem, rfl⟩ := List.mem_map.mp hid
    obtain ⟨t, -, rfl⟩ := List.mem_map.mp hmem
    obtain ⟨_, hmem', heq⟩ := List.mem_map.mp hid'
    obtain ⟨t', -, rfl⟩ := List.mem_map.mp hmem'
    exact (congrArg RouterId.copy heq).symm

/-- A copy has the routers of the base. -/
lemma routers_copyAs (h : base.Copyable) (hc : CopyName c) :
    (base.copyAs c).routers = base.routers.map (·.copyAs c) := by
  have hnames := h.nodup_names (List.nodup_singleton c) (by simpa using hc)
  exact Dictionary.putAll_eq_append (by simpa using hnames)

lemma copyAs_mem_endpoints (h : base.Copyable) (hc : CopyName c) {p : Endpoint}
    (hp : p ∈ base.endpoints) : p.copyAs c ∈ (base.copyAs c).endpoints := by
  obtain ⟨r, hr, hp⟩ := List.mem_flatMap.mp hp
  obtain ⟨i, hi, rfl⟩ := List.mem_map.mp hp
  rw [endpoints, h.routers_copyAs hc]
  exact List.mem_flatMap.mpr ⟨r.copyAs c, List.mem_map_of_mem hr, List.mem_map_of_mem hi⟩

end Network.Copyable

end MplsReach
