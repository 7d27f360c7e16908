/-
Interfaces and the routers that know them.

* `Topology.Registered`: every interface that was ever made is known to its router by name, and
  every router knows its own interfaces.
* `Registered.ensureRouter`, `Registered.addInterface`, `Registered.ensureInterface`,
  `Registered.joined`: it stays so, whatever is added.
* `Topology.Keeps`: interfaces stay where they are; an interface that takes the name of another one
  leaves it with its router and its name. `Topology.Has`: an interface of a router.
* `Registered.mem_namedEndpoints_iff`: the ends of links bring in no names that routers do not have.
-/
import MplsReach.Proofs.Conversion
import MplsReach.Proofs.Grounded

namespace MplsReach.Dump

/-- The keys that entries have when one of them is put. -/
lemma mem_keys_put_iff {α κ : Type} [DecidableEq κ] {key : α → κ} {a : α} {as : List α} {k : κ} :
    k ∈ (Dictionary.put key a as).map key ↔ k ∈ as.map key ∨ k = key a := by
  rw [Dictionary.keys_put]
  split
  · rename_i hmem
    exact ⟨.inl, fun h => h.elim id fun h => h ▸ hmem⟩
  · simp

/-- An interface is an end of a link. -/
def Link.HasEnd (l : Link) (i : InterfaceId) : Prop := i = l.source ∨ i = l.target

instance (l : Link) (i : InterfaceId) : Decidable (l.HasEnd i) :=
  inferInstanceAs (Decidable (_ ∨ _))

namespace Topology

/-- The names of the routers. -/
def routerNames (t : Topology) : List (Option String) := t.routers.map Router.name

/-- A link between two interfaces, made at a router. -/
def joined (t : Topology) (router : Option String) (l : Link) : Topology :=
  ((t.modifyInterface l.source fun i => { i with link := some l }).modifyInterface l.target
    fun i => { i with link := some l }).modifyRouter router
    fun r => { r with links := r.links ++ [l] }

variable {t t₁ t₂ : Topology} {router name : Option String} {l : Link} {i : InterfaceId}

/-! ### What operations do -/

lemma connect_eq_ok_iff {source : InterfaceId} {target : Option InterfaceId} :
    t.connect router source target = .ok t₁ ↔ ∃ i, target = some i ∧
      t.isLinked source = false ∧ t.isLinked i = false ∧ t₁ = t.joined router ⟨source, i⟩ := by
  unfold connect
  cases t.isLinked source with
  | true => simp
  | false =>
      cases target with
      | none => simp
      | some i =>
          cases hi : t.isLinked i with
          | true => simp [hi]
          | false =>
              simp only [Bool.false_eq_true, if_false, Except.ok.injEq, Option.some.injEq,
                exists_eq_left', hi, true_and]
              exact eq_comm

lemma routers_modifyRouter (f : Router → Router) : (t.modifyRouter router f).routers =
    t.routers.map fun r => if r.name = router then f r else r := rfl

/-- A change of a router that keeps its name keeps all names. -/
lemma routerNames_modifyRouter {f : Router → Router} (hf : ∀ r, (f r).name = r.name) :
    (t.modifyRouter router f).routerNames = t.routerNames := by
  rw [routerNames, routers_modifyRouter, List.map_map]
  refine List.map_congr_left fun r _ => ?_
  rw [Function.comp_apply]
  split
  · exact hf r
  · rfl

lemma router?_eq_some_iff (hnodup : t.routerNames.Nodup) {r : Router} :
    t.router? name = some r ↔ r ∈ t.routers ∧ r.name = name := by
  constructor
  · intro h
    exact ⟨List.mem_of_find?_eq_some h, by simpa using List.find?_some h⟩
  · rintro ⟨hr, rfl⟩
    cases hfind : t.router? r.name with
    | none => exact absurd (List.find?_eq_none.mp hfind r hr) (by simp)
    | some s =>
        have hs : s.name = r.name := by simpa using List.find?_some hfind
        rw [List.inj_on_of_nodup_map hnodup (List.mem_of_find?_eq_some hfind) hr hs]

lemma router?_isSome_iff : (t.router? name).isSome ↔ name ∈ t.routerNames := by
  simp [router?, Dictionary.get?, routerNames]

lemma mem_routerNames_of_router {r : Router} (h : t.router name = .ok r) :
    name ∈ t.routerNames := by
  rw [router] at h
  split at h
  · rename_i hr
    exact router?_isSome_iff.mp (by simp [hr])
  · exact absurd h (by simp)

lemma exists_router_of_mem (h : name ∈ t.routerNames) : ∃ r, t.router name = .ok r := by
  obtain ⟨r, hr⟩ := Option.isSome_iff_exists.mp (router?_isSome_iff.mpr h)
  exact ⟨r, by rw [router, hr]⟩

/-- The router that is made sure of is there, behind all others if it is new. -/
lemma ensureRouter_cases (t : Topology) (name : Option String) :
    t.ensureRouter name = t ∧ name ∈ t.routerNames ∨ name ∉ t.routerNames ∧
      t.ensureRouter name = { t with routers := t.routers ++ [⟨name, [], []⟩] } := by
  rw [ensureRouter, ← router?_isSome_iff]
  cases t.router? name with
  | some r => exact .inl ⟨rfl, rfl⟩
  | none => exact .inr ⟨Bool.false_ne_true, rfl⟩

lemma mem_routerNames_ensureRouter_iff {other : Option String} :
    other ∈ (t.ensureRouter name).routerNames ↔ other ∈ t.routerNames ∨ other = name := by
  rcases ensureRouter_cases t name with ⟨heq, hmem⟩ | ⟨-, heq⟩
  · rw [heq]
    exact ⟨.inl, fun h => h.elim id fun h => h ▸ hmem⟩
  · simp [heq, routerNames]

lemma routerNames_addInterface : (t.addInterface router name).1.routerNames = t.routerNames :=
  routerNames_modifyRouter fun _ => rfl

lemma routerNames_joined : (t.joined router l).routerNames = t.routerNames :=
  routerNames_modifyRouter fun _ => rfl

lemma interface?_addInterface (hi : i < t.interfaces.length) :
    (t.addInterface router name).1.interface? i = t.interface? i :=
  List.getElem?_append_left hi

/-- The interface that is added is not an end of a link. -/
lemma interface?_addInterface_self : (t.addInterface router name).1.interface?
    (t.addInterface router name).2 = some ⟨router, name, none⟩ :=
  List.getElem?_concat_length

lemma interface?_joined : (t.joined router l).interface? i =
    if l.HasEnd i then (t.interface? i).map fun x => { x with link := some l }
    else t.interface? i := by
  have hmodify : (t.joined router l).interface? i =
      ((t.interfaces.modify l.source fun x => { x with link := some l }).modify l.target
        fun x => { x with link := some l })[i]? := rfl
  rw [hmodify, List.getElem?_modify, List.getElem?_modify, interface?]
  simp only [Link.HasEnd, @eq_comm _ i]
  cases t.interfaces[i]? with
  | none => simp
  | some x => by_cases hs : l.source = i <;> by_cases ht : l.target = i <;> simp [hs, ht]

/-- The ends of a link refer to it, and all other interfaces are as before. -/
lemma interface?_joined_of_hasEnd {x : Interface} (hi : l.HasEnd i) (hx : t.interface? i = some x) :
    (t.joined router l).interface? i = some { x with link := some l } := by
  rw [interface?_joined, if_pos hi, hx]
  rfl

lemma interface?_joined_of_not_hasEnd (hi : ¬ l.HasEnd i) :
    (t.joined router l).interface? i = t.interface? i := by
  rw [interface?_joined, if_neg hi]

lemma lt_of_interface? {x : Interface} (h : t.interface? i = some x) : i < t.interfaces.length :=
  (List.getElem?_eq_some_iff.mp h).1

/-! ### Interfaces stay where they are -/

/-- Every interface keeps its router and its name, and no router is lost. -/
structure Keeps (t t' : Topology) : Prop where
  interface : ∀ i x, t.interface? i = some x →
    ∃ x', t'.interface? i = some x' ∧ x'.router = x.router ∧ x'.name = x.name
  names : ∀ name ∈ t.routerNames, name ∈ t'.routerNames

lemma Keeps.refl (t : Topology) : t.Keeps t := ⟨fun _ x hx => ⟨x, hx, rfl, rfl⟩, fun _ => id⟩

lemma Keeps.trans (h : t.Keeps t₁) (h' : t₁.Keeps t₂) : t.Keeps t₂ where
  interface i x hx := by
    obtain ⟨y, hy, hrouter, hname⟩ := h.interface i x hx
    obtain ⟨z, hz, hrouter', hname'⟩ := h'.interface i y hy
    exact ⟨z, hz, hrouter'.trans hrouter, hname'.trans hname⟩
  names name hmem := h'.names name (h.names name hmem)

lemma keeps_ensureRouter (t : Topology) (name : Option String) : t.Keeps (t.ensureRouter name) := by
  refine ⟨fun i x hx => ⟨x, ?_, rfl, rfl⟩, fun _ hmem => ?_⟩
  · rcases ensureRouter_cases t name with ⟨heq, -⟩ | ⟨-, heq⟩ <;> rw [heq] <;> exact hx
  · exact mem_routerNames_ensureRouter_iff.mpr (.inl hmem)

lemma keeps_addInterface (t : Topology) (router name : Option String) :
    t.Keeps (t.addInterface router name).1 where
  interface _ x hx := ⟨x, (interface?_addInterface (lt_of_interface? hx)).trans hx, rfl, rfl⟩
  names _ hmem := by rwa [routerNames_addInterface]

lemma keeps_ensureInterface (t : Topology) (router name : Option String) :
    t.Keeps (t.ensureInterface router name).1 := by
  rw [ensureInterface]
  split
  · exact .refl t
  · exact keeps_addInterface t router name

lemma keeps_joined (t : Topology) (router : Option String) (l : Link) :
    t.Keeps (t.joined router l) where
  interface i x hx := by
    rw [interface?_joined, hx]
    split
    · exact ⟨_, rfl, rfl, rfl⟩
    · exact ⟨x, rfl, rfl, rfl⟩
  names _ hmem := by rwa [routerNames_joined]

/-- There is an interface, and it is one of a router. -/
def Has (t : Topology) (router : Option String) (i : InterfaceId) : Prop :=
  ∃ x, t.interface? i = some x ∧ x.router = router

lemma Has.of_keeps (hi : t.Has router i) (h : t.Keeps t₁) : t₁.Has router i := by
  obtain ⟨x, hx, rfl⟩ := hi
  obtain ⟨x', hx', hrouter, -⟩ := h.interface i x hx
  exact ⟨x', hx', hrouter⟩

/-! ### Interfaces under their names -/

/-- Routers have different names. What a router has under a name is an interface of that router and
name, and every interface there is has a name at its router. Under that name the router may have a
later interface. -/
structure Registered (t : Topology) : Prop where
  names_nodup : t.routerNames.Nodup
  entry : ∀ r ∈ t.routers, ∀ e ∈ r.interfaces,
    ∃ x, t.interface? e.2 = some x ∧ x.router = r.name ∧ x.name = e.1
  owned : ∀ x ∈ t.interfaces, ∃ r ∈ t.routers,
    r.name = x.router ∧ x.name ∈ r.interfaces.map Prod.fst

lemma registered_empty : empty.Registered where
  names_nodup := List.nodup_nil
  entry _ hr := absurd hr List.not_mem_nil
  owned _ hx := absurd hx List.not_mem_nil

lemma Registered.ensureRouter (h : t.Registered) (name : Option String) :
    (t.ensureRouter name).Registered := by
  rcases ensureRouter_cases t name with ⟨heq, -⟩ | ⟨hnew, heq⟩
  · rwa [heq]
  · rw [heq]
    refine ⟨?_, fun r hr e he => ?_, fun x hx => ?_⟩
    · rw [routerNames, List.map_append]
      refine List.nodup_append.mpr ⟨h.names_nodup, List.nodup_singleton _, fun a ha b hb hab => ?_⟩
      obtain rfl : b = name := List.mem_singleton.mp hb
      exact hnew (hab ▸ ha)
    · rcases List.mem_append.mp hr with hr | hr
      · exact h.entry r hr e he
      · rw [List.mem_singleton.mp hr] at he
        exact absurd he List.not_mem_nil
    · obtain ⟨r, hr, hx⟩ := h.owned x hx
      exact ⟨r, List.mem_append_left _ hr, hx⟩

lemma Registered.addInterface (h : t.Registered) (hrouter : router ∈ t.routerNames)
    (name : Option String) : (t.addInterface router name).1.Registered := by
  refine ⟨?_, fun r' hr' e he => ?_, fun x hx => ?_⟩
  · rw [routerNames_addInterface]
    exact h.names_nodup
  · obtain ⟨r, hr, rfl⟩ := List.mem_map.mp hr'
    -- an entry is that of the new interface or one that was there
    have hcases : e = (name, t.interfaces.length) ∧ r.name = router ∨ e ∈ r.interfaces := by
      split at he
      · rename_i hname
        exact (Dictionary.mem_of_mem_put he).imp_left fun he => ⟨he, hname⟩
      · exact .inr he
    have hsome : ∃ x, (t.addInterface router name).1.interface? e.2 = some x ∧
        x.router = r.name ∧ x.name = e.1 := by
      rcases hcases with ⟨rfl, rfl⟩ | he
      · exact ⟨_, interface?_addInterface_self, rfl, rfl⟩
      · obtain ⟨x, hx, hxs⟩ := h.entry r hr e he
        exact ⟨x, (interface?_addInterface (lt_of_interface? hx)).trans hx, hxs⟩
    split <;> exact hsome
  · -- no name is given up
    have hkept : ∀ r ∈ t.routers, ∃ r' ∈ (t.addInterface router name).1.routers, r'.name = r.name ∧
        (∀ k ∈ r.interfaces.map Prod.fst, k ∈ r'.interfaces.map Prod.fst) ∧
        (r.name = router → name ∈ r'.interfaces.map Prod.fst) := by
      intro r hr
      refine ⟨_, List.mem_map_of_mem hr, ?_⟩
      split
      · exact ⟨rfl, fun k hk => mem_keys_put_iff.mpr (.inl hk),
          fun _ => mem_keys_put_iff.mpr (.inr rfl)⟩
      · rename_i hne
        exact ⟨rfl, fun k hk => hk, fun heq => absurd heq hne⟩
    rcases List.mem_append.mp hx with hx | hx
    · obtain ⟨r, hr, hname, hmem⟩ := h.owned x hx
      obtain ⟨r', hr', hname', hkeys, -⟩ := hkept r hr
      exact ⟨r', hr', hname'.trans hname, hkeys _ hmem⟩
    · rw [List.mem_singleton.mp hx]
      obtain ⟨r, hr, hname⟩ := List.mem_map.mp hrouter
      obtain ⟨r', hr', hname', -, hself⟩ := hkept r hr
      exact ⟨r', hr', hname'.trans hname, hself hname⟩

lemma Registered.joined (h : t.Registered) (router : Option String) (l : Link) :
    (t.joined router l).Registered := by
  have hsame : ∀ r : Router,
      (if r.name = router then { r with links := r.links ++ [l] } else r).name = r.name ∧
      (if r.name = router then { r with links := r.links ++ [l] } else r).interfaces =
        r.interfaces := by
    intro r
    split <;> exact ⟨rfl, rfl⟩
  refine ⟨?_, fun r' hr' e he => ?_, fun x hx => ?_⟩
  · rw [routerNames_joined]
    exact h.names_nodup
  · obtain ⟨r, hr, rfl⟩ := List.mem_map.mp hr'
    rw [(hsame r).2] at he
    rw [(hsame r).1]
    obtain ⟨x, hx, hrouter, hname⟩ := h.entry r hr e he
    obtain ⟨x', hx', hrouter', hname'⟩ := (keeps_joined t router l).interface e.2 x hx
    exact ⟨x', hx', hrouter'.trans hrouter, hname'.trans hname⟩
  · -- the interface was there before, with the same router and name
    obtain ⟨i, hi, rfl⟩ := List.mem_iff_getElem.mp hx
    have hget : (t.joined router l).interface? i = some _ := List.getElem?_eq_getElem hi
    obtain ⟨y, hy⟩ : ∃ y, t.interface? i = some y := by
      rw [interface?_joined] at hget
      split at hget
      · obtain ⟨y, hy, -⟩ := Option.map_eq_some_iff.mp hget
        exact ⟨y, hy⟩
      · exact ⟨_, hget⟩
    obtain ⟨x', hx', hrouter, hname⟩ := (keeps_joined t router l).interface i y hy
    obtain rfl := Option.some.inj (hget.symm.trans hx')
    obtain ⟨r, hr, hr'⟩ := h.owned y (List.mem_of_getElem? hy)
    refine ⟨_, List.mem_map_of_mem hr, ?_⟩
    rw [(hsame r).1, (hsame r).2, hrouter, hname]
    exact hr'

/-- What is found under a name is an interface of that router and name. -/
lemma Registered.interface?_of_find? (h : t.Registered) (hi : t.find? router name = some i) :
    ∃ x, t.interface? i = some x ∧ x.router = router ∧ x.name = name := by
  obtain ⟨r, hr, hi⟩ := Option.bind_eq_some_iff.mp hi
  obtain ⟨e, he, hi⟩ := Option.bind_eq_some_iff.mp hi
  obtain rfl := Option.some.inj hi
  obtain ⟨hmem, rfl⟩ := (router?_eq_some_iff h.names_nodup).mp hr
  have hkey : e.1 = name := by simpa using List.find?_some he
  exact hkey ▸ h.entry r hmem e (List.mem_of_find?_eq_some he)

/-- A name is found exactly if the router has an interface of that name. -/
lemma find?_isSome_iff (hnodup : t.routerNames.Nodup) : (t.find? router name).isSome ↔
    ∃ r ∈ t.routers, r.name = router ∧ name ∈ r.interfaces.map Prod.fst := by
  rw [Option.isSome_iff_exists]
  constructor
  · rintro ⟨i, hi⟩
    obtain ⟨r, hr, hi⟩ := Option.bind_eq_some_iff.mp hi
    obtain ⟨e, he, -⟩ := Option.bind_eq_some_iff.mp hi
    obtain ⟨hmem, hname⟩ := (router?_eq_some_iff hnodup).mp hr
    have hkey : e.1 = name := by simpa using List.find?_some he
    exact ⟨r, hmem, hname, hkey ▸ List.mem_map_of_mem (List.mem_of_find?_eq_some he)⟩
  · rintro ⟨r, hr, hname, hmem⟩
    obtain ⟨e, he, rfl⟩ := List.mem_map.mp hmem
    have hrouter := (router?_eq_some_iff hnodup).mpr ⟨hr, hname⟩
    cases hget : Dictionary.get? Prod.fst e.1 r.interfaces with
    | none => exact absurd (List.find?_eq_none.mp hget e he) (by simp)
    | some e' =>
        refine ⟨e'.2, ?_⟩
        rw [find?, hrouter, Option.bind_eq_bind, Option.bind_some, hget]
        rfl

/-- The name of every interface is found at its router. -/
lemma Registered.find?_isSome (h : t.Registered) {x : Interface} (hx : t.interface? i = some x) :
    (t.find? x.router x.name).isSome := by
  obtain ⟨r, hr, hname, hmem⟩ := h.owned x (List.mem_of_getElem? hx)
  exact (find?_isSome_iff h.names_nodup).mpr ⟨r, hr, hname, hmem⟩

/-- An interface that is made sure of is one of the router. -/
lemma Registered.has_ensureInterface (h : t.Registered) (router name : Option String) :
    (t.ensureInterface router name).1.Has router (t.ensureInterface router name).2 := by
  rw [Topology.ensureInterface]
  split
  · rename_i hi
    obtain ⟨x, hx, hrouter, -⟩ := h.interface?_of_find? hi
    exact ⟨x, hx, hrouter⟩
  · exact ⟨_, interface?_addInterface_self, rfl⟩

lemma Registered.ensureInterface (h : t.Registered) (hrouter : router ∈ t.routerNames)
    (name : Option String) : (t.ensureInterface router name).1.Registered := by
  rw [Topology.ensureInterface]
  split
  · exact h
  · exact h.addInterface hrouter name

/-- Routers and links name the interfaces that routers have, and no others. -/
lemma Registered.mem_namedEndpoints_iff (h : t.Registered) :
    (router, name) ∈ namedEndpoints t ↔ (t.find? router name).isSome := by
  rw [find?_isSome_iff h.names_nodup, namedEndpoints, List.mem_flatMap]
  constructor
  · rintro ⟨r, hr, hmem⟩
    rcases List.mem_append.mp hmem with hmem | hmem
    · -- the end of a link is an interface, which its router has by name
      obtain ⟨l, -, hmem⟩ := List.mem_flatMap.mp hmem
      obtain ⟨i, -, hi⟩ := List.mem_filterMap.mp hmem
      obtain ⟨x, hx, hnames⟩ := Option.map_eq_some_iff.mp hi
      obtain ⟨rfl, rfl⟩ := Prod.mk.inj hnames
      exact h.owned x (List.mem_of_getElem? hx)
    · obtain ⟨e, he, hnames⟩ := List.mem_map.mp hmem
      obtain ⟨rfl, rfl⟩ := Prod.mk.inj hnames
      exact ⟨r, hr, rfl, List.mem_map_of_mem he⟩
  · rintro ⟨r, hr, rfl, hmem⟩
    obtain ⟨e, he, rfl⟩ := List.mem_map.mp hmem
    exact ⟨r, hr, List.mem_append_right _ (List.mem_map_of_mem he)⟩

end Topology

end MplsReach.Dump
