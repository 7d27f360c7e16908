/-
Networks whose rules and links lead to interfaces that are there.

* `Network.Grounded`: rules lead to interfaces of their router, and links join interfaces of
  routers.
* `Network.grounded_of_read`: **networks that are read are grounded**.
* `Network.Grounded.target_mem`, `Network.Grounded.arrival_mem`: packets leave by endpoints and
  arrive at endpoints.
-/
import MplsReach.Forwarding.Hop
import MplsReach.Network.Reader
import MplsReach.Proofs.Results

namespace MplsReach

/-- Rules lead to interfaces of their router, and links join interfaces of routers. -/
structure Network.Grounded (n : Network) : Prop where
  rules : ∀ t ∈ n.tables, ∀ d ∈ t.destinations, ∀ r ∈ d.rules, ⟨t.router.id, r.target⟩ ∈ n.endpoints
  links : ∀ l ∈ n.links, l.source ∈ n.endpoints ∧ l.target ∈ n.endpoints

/-! ### Packets -/

lemma Network.mem_destinationsAt_iff {n : Network} {p : Endpoint} {d : Destination} :
    d ∈ n.destinationsAt p ↔
      ∃ t ∈ n.tables, t.router.id = p.router ∧ d ∈ t.destinations ∧ d.source = p.interface := by
  simp [Network.destinationsAt, Table.destinationsFrom, and_assoc]

lemma Destination.mem_rules {d : Destination} {i : Nat} {g : Group} (hg : d.groups[i]? = some g)
    {r : Rule} (hr : r ∈ g) : r ∈ d.rules :=
  List.mem_flatten.mpr ⟨g, List.mem_of_getElem? hg, hr⟩

/-- Packets leave by endpoints. -/
lemma Network.Grounded.target_mem {n : Network} (hn : n.Grounded) {p : Endpoint} {d : Destination}
    (hd : d ∈ n.destinationsAt p) {r : Rule} (hr : r ∈ d.rules) :
    ⟨p.router, r.target⟩ ∈ n.endpoints := by
  obtain ⟨t, ht, hrouter, hd, -⟩ := Network.mem_destinationsAt_iff.mp hd
  exact hrouter ▸ hn.rules t ht d hd r hr

/-- Packets arrive at endpoints. -/
lemma Network.Grounded.arrival_mem {n : Network} (hn : n.Grounded) {p q : Endpoint}
    (h : (p, q) ∈ n.crossings) : q ∈ n.endpoints := by
  obtain ⟨l, hl, hpq⟩ := List.mem_flatMap.mp h
  have hlink := hn.links l hl
  simp only [List.mem_cons, Prod.mk.injEq, List.not_mem_nil, or_false] at hpq
  rcases hpq with ⟨-, rfl⟩ | ⟨-, rfl⟩
  · exact hlink.2
  · exact hlink.1

/-! ### Entries that are put -/

section Dictionary

variable {α κ : Type} [DecidableEq κ] {key : α → κ}

lemma Dictionary.mem_of_mem_put {a b : α} {as : List α} (h : b ∈ Dictionary.put key a as) :
    b = a ∨ b ∈ as := by
  induction as with
  | nil => exact .inl (List.mem_singleton.mp h)
  | cons c as ih =>
      rw [Dictionary.put] at h
      split at h
      · rcases List.mem_cons.mp h with rfl | h
        · exact .inl rfl
        · exact .inr (List.mem_cons_of_mem c h)
      · rcases List.mem_cons.mp h with rfl | h
        · exact .inr List.mem_cons_self
        · exact (ih h).imp_right (List.mem_cons_of_mem c)

/-- Entries come from those that were there and those that were put. -/
lemma Dictionary.mem_of_mem_putAll {b : α} {as entries : List α}
    (h : b ∈ Dictionary.putAll key entries as) : b ∈ entries ∨ b ∈ as := by
  induction as generalizing entries with
  | nil => exact .inl h
  | cons a as ih =>
      rcases ih h with hput | hb
      · rcases Dictionary.mem_of_mem_put hput with rfl | hb
        · exact .inr List.mem_cons_self
        · exact .inl hb
      · exact .inr (List.mem_cons_of_mem a hb)

/-- The keys of entries and of those that were put. -/
lemma Dictionary.mem_keys_putAll_iff {k : κ} {entries as : List α} :
    k ∈ (Dictionary.putAll key entries as).map key ↔ k ∈ entries.map key ∨ k ∈ as.map key := by
  induction as generalizing entries with
  | nil => simp [Dictionary.putAll]
  | cons a as ih =>
      have hput : k ∈ (Dictionary.put key a entries).map key ↔ k ∈ entries.map key ∨ k = key a := by
        rw [Dictionary.keys_put]
        split
        · rename_i hmem
          exact ⟨.inl, fun h => h.elim id fun h => h ▸ hmem⟩
        · simp
      have hrest : k ∈ (Dictionary.putAll key entries (a :: as)).map key ↔
          k ∈ (Dictionary.put key a entries).map key ∨ k ∈ as.map key := ih
      rw [hrest, hput, List.map_cons, List.mem_cons, or_assoc]

/-- Keys stay different. -/
lemma Dictionary.nodup_putAll {entries : List α} (h : (entries.map key).Nodup) (as : List α) :
    ((Dictionary.putAll key entries as).map key).Nodup := by
  induction as generalizing entries with
  | nil => exact h
  | cons a as ih => exact ih (Dictionary.nodup_put key a h)

/-- An entry takes the place of one that is sorted out like it. -/
lemma Dictionary.filter_put_of_neg {p : α → Bool} (hkey : ∀ a b, key a = key b → p a = p b) {a : α}
    (ha : p a = false) (entries : List α) :
    (Dictionary.put key a entries).filter p = entries.filter p := by
  induction entries with
  | nil => simp [Dictionary.put, ha]
  | cons b entries ih =>
      rw [Dictionary.put]
      split
      · rename_i hb
        rw [List.filter_cons_of_neg (by simp [ha]),
          List.filter_cons_of_neg (by simp [hkey b a hb, ha])]
      · rw [List.filter_cons, List.filter_cons, ih]

/-- Entries of a kind with new keys go to the end, if the key tells the kind. -/
lemma Dictionary.filter_putAll {p : α → Bool} (hkey : ∀ a b, key a = key b → p a = p b)
    {entries as : List α} (h : ((entries ++ as).filter p |>.map key).Nodup) :
    (Dictionary.putAll key entries as).filter p = (entries ++ as).filter p := by
  induction as generalizing entries with
  | nil => simp [Dictionary.putAll]
  | cons a as ih =>
      have hput : (Dictionary.put key a entries).filter p = (entries ++ [a]).filter p := by
        cases ha : p a with
        | false => rw [Dictionary.filter_put_of_neg hkey ha, List.filter_append]; simp [ha]
        | true =>
            rw [Dictionary.put_of_notMem]
            intro hmem
            obtain ⟨b, hb, hba⟩ := List.mem_map.mp hmem
            rw [List.filter_append, List.map_append, List.nodup_append] at h
            refine h.2.2 (key b) (List.mem_map_of_mem (List.mem_filter.mpr ⟨hb, ?_⟩)) (key a) ?_ hba
            · rw [hkey b a hba, ha]
            · exact List.mem_map_of_mem (List.mem_filter.mpr ⟨List.mem_cons_self, ha⟩)
      have hall :
          (Dictionary.put key a entries ++ as).filter p = (entries ++ a :: as).filter p := by
        rw [List.filter_append, hput, ← List.filter_append, List.append_assoc,
          List.singleton_append]
      have hrest := ih (by rwa [hall])
      rwa [hall] at hrest

section

variable {β κ' : Type} [DecidableEq κ'] {R : α → β → Prop} {key' : β → κ'}

/-- Where keys are the same for the same entries, one entry is put in the same place. -/
lemma Dictionary.forall₂_put
    (hkey : ∀ a b a' b', R a b → R a' b' → (key a = key a' ↔ key' b = key' b')) {a : α} {b : β}
    (hab : R a b) {as : List α} {bs : List β} (h : List.Forall₂ R as bs) :
    List.Forall₂ R (Dictionary.put key a as) (Dictionary.put key' b bs) := by
  induction h with
  | nil => exact .cons hab .nil
  | @cons a' b' as bs hab' hrest ih =>
      rw [Dictionary.put, Dictionary.put]
      by_cases heq : key a' = key a
      · rw [if_pos heq, if_pos ((hkey a' b' a b hab' hab).mp heq)]
        exact .cons hab hrest
      · rw [if_neg heq, if_neg (mt (hkey a' b' a b hab' hab).mpr heq)]
        exact .cons hab' ih

/-- Where keys are the same for the same entries, all entries are put in the same places. -/
lemma Dictionary.forall₂_putAll
    (hkey : ∀ a b a' b', R a b → R a' b' → (key a = key a' ↔ key' b = key' b'))
    {as : List α} {bs : List β} (h : List.Forall₂ R as bs) {entries : List α} {entries' : List β}
    (hentries : List.Forall₂ R entries entries') :
    List.Forall₂ R (Dictionary.putAll key entries as) (Dictionary.putAll key' entries' bs) := by
  induction h generalizing entries entries' with
  | nil => exact hentries
  | cons hab _ ih => exact ih (Dictionary.forall₂_put hkey hab hentries)

end

end Dictionary

/-! ### Networks that are read -/

variable {routers : List Router}

/-- Interfaces of routers are endpoints. -/
lemma Network.mem_endpoints_of_hasInterface {n : Network} {r : Router} (hr : r ∈ n.routers)
    {i : Option String} (hi : r.hasInterface i = true) : ⟨r.id, i⟩ ∈ n.endpoints := by
  obtain ⟨x, hx, rfl⟩ : ∃ x ∈ r.interfaces, x.name = i := by simpa [Router.hasInterface] using hi
  exact List.mem_flatMap.mpr ⟨r, hr, List.mem_map.mpr ⟨x, hx, rfl⟩⟩

/-- Sides of links are endpoints. -/
lemma Endpoint.mem_endpoints_of_read {n : Network} {node : Xml.Node} {p : Endpoint}
    (h : Endpoint.read n.routers node = .ok p) : p ∈ n.endpoints := by
  simp only [Endpoint.read] at h
  split at h
  · cases h
  · rename_i r hr
    split at h
    · rename_i hi
      obtain rfl := Except.ok.inj h
      exact Network.mem_endpoints_of_hasInterface (List.mem_of_find?_eq_some hr) hi
    · cases h

/-- Both sides of a link are read. -/
lemma Link.exists_read_of_read {node : Xml.Node} {l : Link} (h : Link.read routers node = .ok l) :
    ∃ a b, Endpoint.read routers a = .ok l.source ∧ Endpoint.read routers b = .ok l.target := by
  obtain ⟨sides, -, h⟩ := exists_of_bind_eq_ok h
  obtain ⟨ends, hends, h⟩ := exists_of_bind_eq_ok h
  split at h
  · rename_i p q rest
    obtain rfl := Except.ok.inj h
    obtain ⟨a, -, ha⟩ := (mem_of_mapM_eq_ok hends).mp (List.mem_cons_self (a := p))
    obtain ⟨b, -, hb⟩ := (mem_of_mapM_eq_ok hends (b := q)).mp (by simp)
    exact ⟨a, b, ha, hb⟩
  · cases h

/-- Rules of a router lead to its interfaces. -/
lemma Rule.hasInterface_of_read {router : Router} {node : Xml.Node} {r : Rule}
    (h : Rule.read router node = .ok r) : router.hasInterface r.target = true := by
  simp only [Rule.read] at h
  split at h
  · cases h
  · rename_i hi
    obtain ⟨actions, -, h⟩ := exists_of_bind_eq_ok h
    obtain rfl := Except.ok.inj h
    simpa using hi

lemma Destination.hasInterface_of_read {router : Router} {node : Xml.Node} {d : Destination}
    (h : Destination.read router node = .ok d) {r : Rule} (hr : r ∈ d.rules) :
    router.hasInterface r.target = true := by
  simp only [Destination.read] at h
  split at h
  · cases h
  · obtain ⟨node', -, h⟩ := exists_of_bind_eq_ok h
    obtain ⟨groups, hgroups, h⟩ := exists_of_bind_eq_ok h
    obtain rfl := Except.ok.inj h
    obtain ⟨g, hg, hr⟩ := List.mem_flatten.mp hr
    obtain ⟨node'', -, hread⟩ := (mem_of_mapM_eq_ok hgroups).mp hg
    obtain ⟨routes, -, hrules⟩ := exists_of_bind_eq_ok hread
    obtain ⟨route, -, hrule⟩ := (mem_of_mapM_eq_ok hrules).mp hr
    exact Rule.hasInterface_of_read hrule

/-- The rules of a table lead to interfaces of its router. -/
lemma Table.hasInterface_of_read {node : Xml.Node} {t : Table}
    (h : Table.read routers node = .ok t) : t.router ∈ routers ∧
      ∀ d ∈ t.destinations, ∀ r ∈ d.rules, t.router.hasInterface r.target = true := by
  simp only [Table.read] at h
  split at h
  · cases h
  · rename_i router hrouter
    obtain ⟨node', -, h⟩ := exists_of_bind_eq_ok h
    obtain ⟨ds, hds, h⟩ := exists_of_bind_eq_ok h
    obtain rfl := Except.ok.inj h
    refine ⟨List.mem_of_find?_eq_some hrouter, fun d hd r hr => ?_⟩
    rcases Dictionary.mem_of_mem_putAll hd with hnil | hd
    · cases hnil
    · obtain ⟨node'', -, hread⟩ := (mem_of_mapM_eq_ok hds).mp hd
      exact Destination.hasInterface_of_read hread hr

lemma exists_read_of_mem_topology {text : String} {links : List Link}
    (h : readTopology text = .ok (routers, links)) {l : Link} (hl : l ∈ links) :
    ∃ node, Link.read routers node = .ok l := by
  obtain ⟨root, -, h⟩ := exists_of_bind_eq_ok h
  obtain ⟨node, -, h⟩ := exists_of_bind_eq_ok h
  obtain ⟨rs, -, h⟩ := exists_of_bind_eq_ok h
  obtain ⟨node', -, h⟩ := exists_of_bind_eq_ok h
  obtain ⟨ls, hls, h⟩ := exists_of_bind_eq_ok h
  obtain ⟨rfl, rfl⟩ := Prod.mk.inj (Except.ok.inj h)
  obtain ⟨node'', -, hlink⟩ := (mem_of_mapM_eq_ok hls).mp hl
  exact ⟨node'', hlink⟩

lemma exists_read_of_mem_routing {text : String} {tables : List Table}
    (h : readRouting routers text = .ok tables) {t : Table} (ht : t ∈ tables) :
    ∃ node, Table.read routers node = .ok t := by
  obtain ⟨root, -, h⟩ := exists_of_bind_eq_ok h
  obtain ⟨routings, -, h⟩ := exists_of_bind_eq_ok h
  obtain ⟨read, hread, h⟩ := exists_of_bind_eq_ok h
  obtain rfl := Except.ok.inj h
  rcases Dictionary.mem_of_mem_putAll ht with hnil | ht
  · cases hnil
  · obtain ⟨node, -, htable⟩ := (mem_of_mapM_eq_ok hread).mp ht
    exact ⟨node, htable⟩

/-- **Networks that are read are grounded.** -/
theorem Network.grounded_of_read {topology routing : String} {n : Network}
    (h : Network.read topology routing = .ok n) : n.Grounded := by
  obtain ⟨⟨routers, links⟩, htopology, h⟩ := exists_of_bind_eq_ok h
  obtain ⟨tables, hrouting, h⟩ := exists_of_bind_eq_ok h
  obtain rfl := Except.ok.inj h
  refine ⟨fun t ht d hd r hr => ?_, fun l hl => ?_⟩
  · obtain ⟨node, htable⟩ := exists_read_of_mem_routing hrouting ht
    obtain ⟨hrouter, hrules⟩ := Table.hasInterface_of_read htable
    exact Network.mem_endpoints_of_hasInterface hrouter (hrules d hd r hr)
  · obtain ⟨node, hlink⟩ := exists_read_of_mem_topology htopology hl
    obtain ⟨a, b, ha, hb⟩ := Link.exists_read_of_read hlink
    exact ⟨Endpoint.mem_endpoints_of_read ha, Endpoint.mem_endpoints_of_read hb⟩

end MplsReach
