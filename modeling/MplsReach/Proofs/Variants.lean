/-
The files with the networks that are left when one link fails for good.

* `Network.lacking`: a network without one link, without what arrives by it and without what leaves
  by it; `withoutLink_eq_ok`: this is what is written for a link, if both of its ends have tables.
* `exists_writePretty_lacking`: it can be written if the whole network can.
* `FileTree.Clear`: nothing stands in the way of the files.
* `writeVariantsFrom_of_clear`: what the files for some links leave behind, by induction over the
  links.
* `Network.LeavesVariants`: each link has two files of its own, with the network without it.
* `variants_left_iff`: **so it is after all files were written exactly if the paths of the files
  are different**; in any case a file that no later one has the path of is left. The paths hold the
  names of the routers of a link and not those of its interfaces.
-/
import Mathlib.Data.List.Nodup
import Mathlib.Tactic.Common
import MplsReach.Network.LinkRemoval
import MplsReach.Proofs.Files
import MplsReach.Proofs.Results

namespace MplsReach

/-! ### Networks without a link -/

/-- The two ends of a link. -/
def Link.ends (l : Link) : List Endpoint := [l.source, l.target]

/-- A destination without the rules that leave by some endpoints. -/
def Destination.lacking (router : RouterId) (ends : List Endpoint) (d : Destination) :
    Destination :=
  { d with groups := d.groups.map fun g => g.filter fun r => ⟨router, r.target⟩ ∉ ends }

/-- A table without the destinations that arrive at some endpoints and the rules that leave by
them. -/
def Table.lacking (ends : List Endpoint) (t : Table) : Table :=
  { t with
    destinations := (t.destinations.filter fun d => ⟨t.router.id, d.source⟩ ∉ ends).map
      (Destination.lacking t.router.id ends) }

/-- A network without the link at a position, the destinations that arrive by it and the rules that
leave by it. -/
def Network.lacking (n : Network) (i : ℕ) (l : Link) : Network :=
  ⟨n.routers, n.links.eraseIdx i, n.tables.map (Table.lacking l.ends)⟩

lemma Destination.lacking_lacking (router : RouterId) (as bs : List Endpoint) (d : Destination) :
    (d.lacking router as).lacking router bs = d.lacking router (as ++ bs) := by
  simp [Destination.lacking, List.filter_filter, Bool.and_comm]

lemma Table.lacking_lacking (as bs : List Endpoint) (t : Table) :
    (t.lacking as).lacking bs = t.lacking (as ++ bs) := by
  have hsource : ∀ d : Destination, (d.lacking t.router.id as).source = d.source := fun _ => rfl
  simp [Table.lacking, List.filter_map, List.filter_filter, Function.comp_def, hsource,
    Destination.lacking_lacking, Bool.and_comm]

/-- A table of another router has nothing of an endpoint. -/
lemma Table.lacking_singleton_of_ne {p : Endpoint} {t : Table} (h : t.router.id ≠ p.router) :
    t.lacking [p] = t := by
  have hother : ∀ i : Option String, (⟨t.router.id, i⟩ : Endpoint) ≠ p :=
    fun i heq => h (congrArg Endpoint.router heq)
  have hdestination : Destination.lacking t.router.id [p] = id := by
    funext d
    simp [Destination.lacking, hother]
  simp [Table.lacking, hother, hdestination]

/-- A table of the router of an endpoint lacks what its interface is for. -/
lemma Table.lacking_singleton {p : Endpoint} {t : Table} (h : t.router.id = p.router) :
    t.lacking [p] = t.withoutInterface p.interface := by
  have hsame : ∀ i : Option String, (⟨t.router.id, i⟩ : Endpoint) = p ↔ i = p.interface := by
    intro i
    cases p
    simp_all
  have hdestination :
      Destination.lacking t.router.id [p] = Destination.withoutExit p.interface := by
    funext d
    simp [Destination.lacking, Destination.withoutExit, hsame]
  simp [Table.lacking, Table.withoutInterface, hsame, hdestination]

namespace Network

variable {n : Network} {l : Link} {i : ℕ} {o : Origin} {t u : FileTree}

lemma withoutEndpoint_eq_ok {p : Endpoint} (h : ∃ t ∈ n.tables, t.router.id = p.router) :
    n.withoutEndpoint p = .ok { n with tables := n.tables.map (Table.lacking [p]) } := by
  have hany : n.tables.any (·.router.id = p.router) = true := by simpa using h
  have htables : n.tables.map (Table.lacking [p]) = n.tables.map fun t =>
      if t.router.id = p.router then t.withoutInterface p.interface else t := by
    refine List.map_congr_left fun t _ => ?_
    split
    next hid => exact Table.lacking_singleton hid
    next hid => exact Table.lacking_singleton_of_ne hid
  rw [withoutEndpoint, if_pos hany, htables]

/-- The network that is written for a link is the network without it. -/
lemma withoutLink_eq_ok (h : ∀ p ∈ l.ends, ∃ t ∈ n.tables, t.router.id = p.router) :
    n.withoutLink i l = .ok (n.lacking i l) := by
  obtain ⟨t, ht, hid⟩ := h l.target (by simp [Link.ends])
  have htarget : ∃ t ∈ n.tables.map (Table.lacking [l.source]), t.router.id = l.target.router :=
    ⟨_, List.mem_map_of_mem ht, hid⟩
  have hfirst := withoutEndpoint_eq_ok (h l.source (by simp [Link.ends]))
  have hsecond := withoutEndpoint_eq_ok
    (n := { n with tables := n.tables.map (Table.lacking [l.source]) }) htarget
  have htables : Table.lacking [l.target] ∘ Table.lacking [l.source] = Table.lacking l.ends :=
    funext fun t => Table.lacking_lacking [l.source] [l.target] t
  simp only [withoutLink, hfirst, hsecond, bind, Except.bind, pure, Except.pure, lacking,
    List.map_map, htables]

/-! ### Writing them -/

/-- A computation has a result exactly if each of its parts has one. -/
lemma exists_bind_iff {ε α β : Type} {x : Except ε α} {f : α → Except ε β} :
    (∃ b, (x >>= f) = .ok b) ↔ ∃ a, x = .ok a ∧ ∃ b, f a = .ok b := by
  constructor
  · rintro ⟨b, h⟩
    obtain ⟨a, ha, hb⟩ := exists_of_bind_eq_ok h
    exact ⟨a, ha, b, hb⟩
  · rintro ⟨a, rfl, b, hb⟩
    exact ⟨b, hb⟩

/-- A list is computed if each of its elements is as soon as one of a computed list is. -/
lemma exists_mapM_of_exists {ε α β : Type} {f : α → Except ε β} {as bs : List α}
    (h : ∃ cs, as.mapM f = .ok cs)
    (hbs : ∀ b ∈ bs, ∃ a ∈ as, (∃ c, f a = .ok c) → ∃ c, f b = .ok c) :
    ∃ cs, bs.mapM f = .ok cs := by
  refine exists_mapM_iff.mpr fun b hb => ?_
  obtain ⟨a, ha, hab⟩ := hbs b hb
  exact hab (exists_mapM_iff.mp h a ha)

/-- A destination without some of its rules can be written if the destination can. -/
lemma exists_element_destination {d : Destination} (h : ∃ e, d.element = .ok e)
    (router : RouterId) (ends : List Endpoint) : ∃ e, (d.lacking router ends).element = .ok e := by
  have hgroup : ∀ g : Group, (∃ e, g.element = .ok e) → ∀ p : Rule → Bool,
      ∃ e, Group.element (g.filter p) = .ok e := by
    intro g hg p
    obtain ⟨rules, hrules, -⟩ := exists_bind_iff.mp hg
    obtain ⟨rules', hrules'⟩ := exists_mapM_of_exists ⟨rules, hrules⟩
      fun r hr => ⟨r, List.mem_of_mem_filter hr, id⟩
    exact exists_bind_iff.mpr ⟨rules', hrules', _, rfl⟩
  obtain ⟨source, hsource, h⟩ := exists_bind_iff.mp h
  obtain ⟨label, hlabel, h⟩ := exists_bind_iff.mp h
  obtain ⟨groups, hgroups, -⟩ := exists_bind_iff.mp h
  have hlacking : ∃ groups', (d.lacking router ends).groups.mapM Group.element = .ok groups' := by
    refine exists_mapM_of_exists ⟨groups, hgroups⟩ fun g hg => ?_
    obtain ⟨g', hg', rfl⟩ := List.mem_map.mp hg
    exact ⟨g', hg', fun h => hgroup g' h _⟩
  obtain ⟨groups', hgroups'⟩ := hlacking
  exact exists_bind_iff.mpr ⟨source, hsource, exists_bind_iff.mpr ⟨label, hlabel,
    exists_bind_iff.mpr ⟨groups', hgroups', _, rfl⟩⟩⟩

/-- A table without some endpoints can be written if the table can. -/
lemma exists_element_table {t : Table} (h : ∃ e, t.element = .ok e) (ends : List Endpoint) :
    ∃ e, (t.lacking ends).element = .ok e := by
  obtain ⟨router, hrouter, h⟩ := exists_bind_iff.mp h
  obtain ⟨destinations, hdestinations, -⟩ := exists_bind_iff.mp h
  have hlacking : ∃ es, (t.lacking ends).destinations.mapM Destination.element = .ok es := by
    refine exists_mapM_of_exists ⟨destinations, hdestinations⟩ fun d hd => ?_
    obtain ⟨d', hd', rfl⟩ := List.mem_map.mp hd
    exact ⟨d', List.mem_of_mem_filter hd', fun h => exists_element_destination h _ ends⟩
  obtain ⟨es, hes⟩ := hlacking
  exact exists_bind_iff.mpr ⟨router, hrouter, exists_bind_iff.mpr ⟨es, hes, _, rfl⟩⟩

lemma exists_writePretty_iff : (∃ d, n.writePretty = .ok d) ↔
    (∀ r ∈ n.routers, ∃ e, r.element = .ok e) ∧ (∀ l ∈ n.links, ∃ e, l.element = .ok e) ∧
      ∀ t ∈ n.tables, ∃ e, t.element = .ok e := by
  simp only [← exists_mapM_iff]
  constructor
  · intro h
    obtain ⟨_, hdocuments, -⟩ := exists_bind_iff.mp h
    obtain ⟨_, htopology, h⟩ := exists_bind_iff.mp ⟨_, hdocuments⟩
    obtain ⟨_, hrouting, -⟩ := exists_bind_iff.mp h
    obtain ⟨routers, hrouters, h⟩ := exists_bind_iff.mp ⟨_, htopology⟩
    obtain ⟨links, hlinks, -⟩ := exists_bind_iff.mp h
    obtain ⟨tables, htables, -⟩ := exists_bind_iff.mp ⟨_, hrouting⟩
    exact ⟨⟨routers, hrouters⟩, ⟨links, hlinks⟩, tables, htables⟩
  · rintro ⟨⟨routers, hrouters⟩, ⟨links, hlinks⟩, tables, htables⟩
    have htopology : ∃ e, n.topologyElement = .ok e := exists_bind_iff.mpr ⟨routers, hrouters,
      exists_bind_iff.mpr ⟨links, hlinks, _, rfl⟩⟩
    have hrouting : ∃ e, n.routingElement = .ok e := exists_bind_iff.mpr ⟨tables, htables, _, rfl⟩
    obtain ⟨topology, htopology⟩ := htopology
    obtain ⟨routing, hrouting⟩ := hrouting
    have hdocuments : n.documents = .ok (topology, routing) := by
      simp only [documents, htopology, hrouting, bind, Except.bind, pure, Except.pure]
    exact exists_bind_iff.mpr ⟨_, hdocuments, _, rfl⟩

/-- A network without a link can be written if the network can. -/
lemma exists_writePretty_lacking (h : ∃ d, n.writePretty = .ok d) (i : ℕ) (l : Link) :
    ∃ d, (n.lacking i l).writePretty = .ok d := by
  obtain ⟨hrouters, hlinks, htables⟩ := exists_writePretty_iff.mp h
  refine exists_writePretty_iff.mpr ⟨hrouters, fun l hl => ?_, fun t ht => ?_⟩
  · exact hlinks l (List.mem_of_mem_eraseIdx hl)
  · obtain ⟨t', ht', rfl⟩ := List.mem_map.mp ht
    exact exists_element_table (htables t' ht') l.ends

/-! ### One link -/

/-- The names on the way to the topology without a link. -/
def Origin.topologyPlace (o : Origin) (l : Link) : List String :=
  [variantDirectory o.topologyFolder l, o.topologyName]

/-- The names on the way to the routing without a link. -/
def Origin.routingPlace (o : Origin) (l : Link) : List String :=
  [variantDirectory o.routingFolder l, o.routingName]

/-- The names of the directories and files for a link stand for themselves in a path. -/
structure Origin.Plain (o : Origin) (l : Link) : Prop where
  topologyDirectory : PlainName (o.topologyFolder ++ "_" ++ l.label)
  routingDirectory : PlainName (o.routingFolder ++ "_" ++ l.label)
  topologyName : PlainName o.topologyName
  routingName : PlainName o.routingName

instance (o : Origin) (l : Link) : Decidable (o.Plain l) :=
  decidable_of_iff (PlainName (o.topologyFolder ++ "_" ++ l.label) ∧
      PlainName (o.routingFolder ++ "_" ++ l.label) ∧ PlainName o.topologyName ∧
      PlainName o.routingName)
    ⟨fun h => ⟨h.1, h.2.1, h.2.2.1, h.2.2.2⟩,
      fun h => ⟨h.topologyDirectory, h.routingDirectory, h.topologyName, h.routingName⟩⟩

/-- Nothing stands in the way of the files for a link. -/
structure Clear (o : Origin) (t : FileTree) (l : Link) : Prop where
  home : t.entry? t.home = some .directory
  /-- The directory of the topology is there or can be made. -/
  directory : ∀ s, t.entry? (t.home ++ [variantDirectory o.topologyFolder l]) ≠ some (.text s)
  /-- The directory of the routing is the same one, or there. -/
  routing : o.routingFolder = o.topologyFolder ∨
    t.entry? (t.home ++ [variantDirectory o.routingFolder l]) = some .directory
  topology_free : t.entry? (t.home ++ o.topologyPlace l) ≠ some .directory
  routing_free : t.entry? (t.home ++ o.routingPlace l) ≠ some .directory

lemma variantDirectory_eq {folder : String} (h : PlainName (folder ++ "_" ++ l.label)) :
    variantDirectory folder l = folder ++ "_" ++ l.label :=
  plainPath_of_plain h

/-- What stands where after the files for a link were written. -/
def Wrote (o : Origin) (l : Link) (a b : String) (t u : FileTree) : Prop :=
  u.home = t.home ∧ ∀ q, u.entry? q =
    if q = t.home ++ o.routingPlace l then some (.text b)
    else if q = t.home ++ o.topologyPlace l then some (.text a)
    else if q = t.home ++ [variantDirectory o.topologyFolder l] then some .directory
    else t.entry? q

/-- The files for one link are written. -/
lemma writeVariant_of_clear (hplain : o.Plain l) (hclear : Clear o t l) {a b : String}
    (hlink : n.withoutLink i l = .ok (n.lacking i l))
    (hab : (n.lacking i l).writePretty = .ok (a, b)) :
    ∃ u, n.writeVariant o t i l = (u, none) ∧ Wrote o l a b t u := by
  have hx := hplain.topologyDirectory
  have hz := hplain.routingDirectory
  rw [← variantDirectory_eq hx] at hx
  rw [← variantDirectory_eq hz] at hz
  obtain ⟨hhome, hdirectory, hrouting, htopology_free, hrouting_free⟩ := hclear
  simp only [Origin.topologyPlace, Origin.routingPlace] at htopology_free hrouting_free
  obtain ⟨t₁, hensure, hhome₁, h₁⟩ := FileTree.ensureDirectory_of_plain hx hhome hdirectory
  obtain ⟨t₂, hwrite, hhome₂, h₂⟩ : ∃ t₂, t₁.write (o.topologyPath l) a = .ok t₂ ∧
      t₂.home = t.home ∧ ∀ q, t₂.entry? q =
        if q = t.home ++ o.topologyPlace l then some (.text a)
        else if q = t.home ++ [variantDirectory o.topologyFolder l] then some .directory
        else t.entry? q := by
    refine ⟨_, FileTree.write_of_plain hx hplain.topologyName (by simp [hhome₁, h₁, hhome])
      (by simp [hhome₁, h₁]) (by simpa [hhome₁, h₁] using htopology_free) a, hhome₁, fun q => ?_⟩
    rw [FileTree.entry?_put (by simp), h₁, hhome₁, Origin.topologyPlace]
  have hrouting₂ : t₂.entry? (t.home ++ [variantDirectory o.routingFolder l]) =
      some .directory := by
    rcases hrouting with heq | hthere
    · simp [h₂, heq, Origin.topologyPlace]
    · simp [h₂, hthere, Origin.topologyPlace]
  have hfree₂ : t₂.entry? (t.home ++ o.routingPlace l) ≠ some .directory := by
    rw [h₂]
    split
    · simp
    · simpa [Origin.routingPlace] using hrouting_free
  refine ⟨t₂.put (t₂.home ++ o.routingPlace l) (.text b), ?_, hhome₂, fun q => ?_⟩
  · have hwrite' : t₂.write (o.routingPath l) b = .ok (t₂.put (t₂.home ++ o.routingPlace l)
        (.text b)) := FileTree.write_of_plain hz hplain.routingName
      (by simp [hhome₂, h₂, hhome, Origin.topologyPlace]) (hhome₂ ▸ hrouting₂) (hhome₂ ▸ hfree₂) b
    simp [writeVariant, variant, hlink, hab, bind, Except.bind, pure, Except.pure, hensure,
      FileTree.writeAll, hwrite, hwrite']
  · rw [FileTree.entry?_put (by simp [Origin.routingPlace]), h₂, hhome₂]

section Wrote

variable {a b : String} {l' : Link}

/-- Both directories for a link are there. -/
def Made (o : Origin) (t : FileTree) (l : Link) : Prop :=
  t.entry? (t.home ++ [variantDirectory o.topologyFolder l]) = some .directory ∧
    t.entry? (t.home ++ [variantDirectory o.routingFolder l]) = some .directory

/-- Directories right below stay. -/
lemma Wrote.directory (h : Wrote o l a b t u) {x : String}
    (hx : t.entry? (t.home ++ [x]) = some .directory) :
    u.entry? (u.home ++ [x]) = some .directory := by
  simp [h.1, h.2, Origin.topologyPlace, Origin.routingPlace, hx]

lemma Wrote.made_of_made (h : Wrote o l a b t u) (hmade : Made o t l') : Made o u l' :=
  ⟨h.directory hmade.1, h.directory hmade.2⟩

lemma Wrote.made (h : Wrote o l a b t u) (hclear : Clear o t l) : Made o u l := by
  have htopology : u.entry? (u.home ++ [variantDirectory o.topologyFolder l]) =
      some .directory := by
    simp [h.1, h.2, Origin.topologyPlace, Origin.routingPlace]
  refine ⟨htopology, ?_⟩
  rcases hclear.routing with heq | hthere
  · rw [heq, htopology]
  · exact h.directory hthere

/-- Files stay files. -/
lemma Wrote.free (h : Wrote o l a b t u) {x y : String}
    (hfree : t.entry? (t.home ++ [x, y]) ≠ some .directory) :
    u.entry? (u.home ++ [x, y]) ≠ some .directory := by
  rw [h.1, h.2]
  split_ifs with hrouting htopology hdirectory
  · simp
  · simp
  · simp at hdirectory
  · exact hfree

/-- Files for one link are not in the way of those for another one. -/
lemma Wrote.clear (h : Wrote o l a b t u) (hclear : Clear o t l') : Clear o u l' where
  home := by
    rw [h.1, h.2]
    simpa [Origin.topologyPlace, Origin.routingPlace] using hclear.home
  directory s := by
    rw [h.1, h.2]
    split_ifs with hrouting htopology hdirectory
    · simp [Origin.routingPlace] at hrouting
    · simp [Origin.topologyPlace] at htopology
    · simp
    · exact hclear.directory s
  routing := hclear.routing.imp_right h.directory
  topology_free := h.free hclear.topology_free
  routing_free := h.free hclear.routing_free

end Wrote

/-! ### All links -/

/-- The places of the files for a link. -/
def Origin.places (o : Origin) (l : Link) : List (List String) :=
  [o.topologyPlace l, o.routingPlace l]

/-- No file for the links behind a position is at a place. -/
def Unwritten (o : Origin) (ls : List Link) (j : ℕ) (q : List String) : Prop :=
  ∀ k l, j < k → ls[k]? = some l → q ∉ o.places l

lemma Unwritten.forall {ls : List Link} {q : List String} (h : Unwritten o (l :: ls) 0 q) :
    ∀ l' ∈ ls, q ∉ o.places l' := by
  intro l' hl'
  obtain ⟨k, hk⟩ := List.mem_iff_getElem?.mp hl'
  exact h (k + 1) l' (Nat.succ_pos k) hk

lemma Unwritten.tail {ls : List Link} {j : ℕ} {q : List String}
    (h : Unwritten o (l :: ls) (j + 1) q) : Unwritten o ls j q :=
  fun k l' hk hl' => h (k + 1) l' (Nat.succ_lt_succ hk) hl'

/-- What stands where after the files for the links from a position on were written. -/
structure WroteAll (n : Network) (o : Origin) (i : ℕ) (ls : List Link) (t u : FileTree) :
    Prop where
  home : u.home = t.home
  made : ∀ l, l ∈ ls ∨ Made o t l → Made o u l
  /-- What is neither a file nor a directory for a link stays. -/
  other : ∀ q, (∀ l ∈ ls, q ∉ [variantDirectory o.topologyFolder l] :: o.places l) →
    u.entry? (t.home ++ q) = t.entry? (t.home ++ q)
  /-- A topology that no later file takes the place of is left. -/
  topology : ∀ j l a b, ls[j]? = some l → (n.lacking (i + j) l).writePretty = .ok (a, b) →
    o.topologyPlace l ≠ o.routingPlace l → Unwritten o ls j (o.topologyPlace l) →
      u.entry? (t.home ++ o.topologyPlace l) = some (.text a)
  /-- A routing that no later file takes the place of is left. -/
  routing : ∀ j l a b, ls[j]? = some l → (n.lacking (i + j) l).writePretty = .ok (a, b) →
    Unwritten o ls j (o.routingPlace l) →
      u.entry? (t.home ++ o.routingPlace l) = some (.text b)

/-- A file stays if no file for another link takes its place. -/
lemma WroteAll.file {ls : List Link} (h : WroteAll n o i ls t u) {x y : String}
    (hq : ∀ l ∈ ls, [x, y] ∉ o.places l) :
    u.entry? (t.home ++ [x, y]) = t.entry? (t.home ++ [x, y]) :=
  h.other [x, y] fun l hl => by simpa using hq l hl

/-- The files for the first link, and then those for the others. -/
lemma Wrote.wroteAll {v : FileTree} {ls : List Link} {a b : String}
    (hab : (n.lacking i l).writePretty = .ok (a, b)) (hclear : Clear o t l)
    (h : Wrote o l a b t u) (hrest : WroteAll n o (i + 1) ls u v) :
    WroteAll n o i (l :: ls) t v where
  home := hrest.home.trans h.1
  made := by
    rintro l' (hl' | hmade)
    · rcases List.mem_cons.mp hl' with rfl | hl'
      · exact hrest.made l' (.inr (h.made hclear))
      · exact hrest.made l' (.inl hl')
    · exact hrest.made l' (.inr (h.made_of_made hmade))
  other := by
    intro q hq
    obtain ⟨hl, hls⟩ := List.forall_mem_cons.mp hq
    simp only [Origin.places, List.mem_cons, List.not_mem_nil, or_false, not_or] at hl
    rw [← h.1, hrest.other q hls, h.1, h.2]
    simp [hl]
  topology := by
    intro j l' a' b' hl' hab' hne hlater
    cases j with
    | zero =>
        obtain rfl := Option.some.inj hl'
        obtain ⟨rfl, -⟩ := Prod.mk.inj (Except.ok.inj (hab.symm.trans hab'))
        have hkept : v.entry? (u.home ++ o.topologyPlace l) =
            u.entry? (u.home ++ o.topologyPlace l) := hrest.file hlater.forall
        rw [← h.1, hkept, h.1, h.2]
        simp [hne]
    | succ j =>
        rw [← Nat.add_assoc, Nat.add_right_comm] at hab'
        rw [← h.1]
        exact hrest.topology j l' a' b' hl' hab' hne hlater.tail
  routing := by
    intro j l' a' b' hl' hab' hlater
    cases j with
    | zero =>
        obtain rfl := Option.some.inj hl'
        obtain ⟨-, rfl⟩ := Prod.mk.inj (Except.ok.inj (hab.symm.trans hab'))
        have hkept : v.entry? (u.home ++ o.routingPlace l) =
            u.entry? (u.home ++ o.routingPlace l) := hrest.file hlater.forall
        rw [← h.1, hkept, h.1, h.2]
        simp
    | succ j =>
        rw [← Nat.add_assoc, Nat.add_right_comm] at hab'
        rw [← h.1]
        exact hrest.routing j l' a' b' hl' hab' hlater.tail

/-- **The files for all links are written.** -/
lemma writeVariantsFrom_of_clear {ls : List Link}
    (htables : ∀ l ∈ ls, ∀ p ∈ l.ends, ∃ t ∈ n.tables, t.router.id = p.router)
    (hwritable : ∃ d, n.writePretty = .ok d) (hplain : ∀ l ∈ ls, o.Plain l)
    (hclear : ∀ l ∈ ls, Clear o t l) :
    ∃ u, n.writeVariantsFrom o i ls t = (u, none) ∧ WroteAll n o i ls t u := by
  induction ls generalizing i t with
  | nil => exact ⟨t, rfl, rfl, by simp, by simp, by simp, by simp⟩
  | cons l ls ih =>
      obtain ⟨htables, htables'⟩ := List.forall_mem_cons.mp htables
      obtain ⟨hplain, hplain'⟩ := List.forall_mem_cons.mp hplain
      obtain ⟨hclear, hclear'⟩ := List.forall_mem_cons.mp hclear
      obtain ⟨⟨a, b⟩, hab⟩ := exists_writePretty_lacking hwritable i l
      obtain ⟨u, hu, hwrote⟩ := writeVariant_of_clear hplain hclear (withoutLink_eq_ok htables) hab
      obtain ⟨v, hv, hall⟩ := ih (i := i + 1) htables' hplain'
        fun l' hl' => hwrote.clear (hclear' l' hl')
      refine ⟨v, ?_, hwrote.wroteAll hab hclear hall⟩
      rw [writeVariantsFrom, hu]
      exact hv

/-! ### Files by their paths -/

/-- The paths of the files for a link. -/
def Origin.paths (o : Origin) (l : Link) : List String := [o.topologyPath l, o.routingPath l]

/-- A file for a link holds the network without it, unless a later file has its path. -/
def LeavesLatest (n : Network) (o : Origin) (u : FileTree) : Prop :=
  ∀ i l, n.links[i]? = some l → ∃ a b, (n.lacking i l).writePretty = .ok (a, b) ∧
    (o.topologyPath l ≠ o.routingPath l →
      (∀ j l', i < j → n.links[j]? = some l' → o.topologyPath l ∉ o.paths l') →
        u.text (o.topologyPath l) = .ok a) ∧
    ((∀ j l', i < j → n.links[j]? = some l' → o.routingPath l ∉ o.paths l') →
      u.text (o.routingPath l) = .ok b)

/-- Each link has two files of its own, with the network without it. -/
structure LeavesVariants (n : Network) (o : Origin) (u : FileTree) : Prop where
  paths : (n.links.flatMap o.paths).Nodup
  texts : ∀ i l, n.links[i]? = some l → ∃ a b, (n.lacking i l).writePretty = .ok (a, b) ∧
    u.text (o.topologyPath l) = .ok a ∧ u.text (o.routingPath l) = .ok b

section Paths

variable {l' : Link}

lemma path_eq_iff {x x' y y' : String} (hx : PlainName (x ++ "_" ++ l.label))
    (hx' : PlainName (x' ++ "_" ++ l'.label)) (hy : PlainName y) (hy' : PlainName y') :
    variantDirectory x l ++ "/" ++ y = variantDirectory x' l' ++ "/" ++ y' ↔
      [variantDirectory x l, y] = [variantDirectory x' l', y'] := by
  rw [variantDirectory_eq hx, variantDirectory_eq hx']
  exact PlainName.pair_inj hx hy hx' hy'

lemma topologyPath_mem_iff (h : o.Plain l) (h' : o.Plain l') :
    o.topologyPath l ∈ o.paths l' ↔ o.topologyPlace l ∈ o.places l' := by
  simp only [Origin.paths, Origin.places, List.mem_cons, List.not_mem_nil, or_false]
  exact or_congr
    (path_eq_iff h.topologyDirectory h'.topologyDirectory h.topologyName h'.topologyName)
    (path_eq_iff h.topologyDirectory h'.routingDirectory h.topologyName h'.routingName)

lemma routingPath_mem_iff (h : o.Plain l) (h' : o.Plain l') :
    o.routingPath l ∈ o.paths l' ↔ o.routingPlace l ∈ o.places l' := by
  simp only [Origin.paths, Origin.places, List.mem_cons, List.not_mem_nil, or_false]
  exact or_congr
    (path_eq_iff h.routingDirectory h'.topologyDirectory h.routingName h'.topologyName)
    (path_eq_iff h.routingDirectory h'.routingDirectory h.routingName h'.routingName)

end Paths

lemma WroteAll.leavesLatest (h : WroteAll n o 0 n.links t u)
    (hwritable : ∃ d, n.writePretty = .ok d) (hplain : ∀ l ∈ n.links, o.Plain l)
    (hclear : ∀ l ∈ n.links, Clear o t l) : LeavesLatest n o u := by
  intro i l hl
  have hmem := List.mem_of_getElem? hl
  have hhome : u.entry? u.home = some .directory := by
    have hkept := h.other [] (by simp [Origin.places, Origin.topologyPlace, Origin.routingPlace])
    rw [List.append_nil, (hclear l hmem).home] at hkept
    rw [h.home, hkept]
  have hp := hplain l hmem
  have hmade := h.made l (.inl hmem)
  have hx := hp.topologyDirectory
  have hz := hp.routingDirectory
  rw [← variantDirectory_eq hx] at hx
  rw [← variantDirectory_eq hz] at hz
  obtain ⟨⟨a, b⟩, hab⟩ := exists_writePretty_lacking hwritable i l
  have hlacking : (n.lacking (0 + i) l).writePretty = .ok (a, b) := (Nat.zero_add i).symm ▸ hab
  refine ⟨a, b, hab, fun hne hlater => ?_, fun hlater => ?_⟩
  · refine (FileTree.text_eq_ok_iff hx hp.topologyName hhome hmade.1).mpr ?_
    rw [h.home]
    refine h.topology i l a b hl hlacking (fun heq => hne ?_) fun j l' hij hl' => ?_
    · exact (path_eq_iff hp.topologyDirectory hp.routingDirectory hp.topologyName
        hp.routingName).mpr heq
    · rw [← topologyPath_mem_iff hp (hplain l' (List.mem_of_getElem? hl'))]
      exact hlater j l' hij hl'
  · refine (FileTree.text_eq_ok_iff hz hp.routingName hhome hmade.2).mpr ?_
    rw [h.home]
    refine h.routing i l a b hl hlacking fun j l' hij hl' => ?_
    rw [← routingPath_mem_iff hp (hplain l' (List.mem_of_getElem? hl'))]
    exact hlater j l' hij hl'

/-- Files whose paths are different are all left. -/
lemma LeavesLatest.leavesVariants (h : LeavesLatest n o u)
    (hpaths : (n.links.flatMap o.paths).Nodup) : LeavesVariants n o u := by
  obtain ⟨hlink, hlinks⟩ := List.nodup_flatMap.mp hpaths
  refine ⟨hpaths, fun i l hl => ?_⟩
  obtain ⟨a, b, hab, htopology, hrouting⟩ := h i l hl
  have hlater : ∀ j l', i < j → n.links[j]? = some l' →
      List.Disjoint (o.paths l) (o.paths l') := by
    intro j l' hij hl'
    obtain ⟨hi, rfl⟩ := List.getElem?_eq_some_iff.mp hl
    obtain ⟨hj, rfl⟩ := List.getElem?_eq_some_iff.mp hl'
    exact List.pairwise_iff_getElem.mp hlinks i j hi hj hij
  have hne : o.topologyPath l ≠ o.routingPath l := by
    simpa [Origin.paths] using hlink l (List.mem_of_getElem? hl)
  refine ⟨a, b, hab, htopology hne fun j l' hij hl' => ?_, hrouting fun j l' hij hl' => ?_⟩
  · exact hlater j l' hij hl' (by simp [Origin.paths])
  · exact hlater j l' hij hl' (by simp [Origin.paths])

lemma variantDirectory_inj {folder : String} {l' : Link} (h : PlainName (folder ++ "_" ++ l.label))
    (h' : PlainName (folder ++ "_" ++ l'.label)) :
    variantDirectory folder l = variantDirectory folder l' ↔ l.label = l'.label := by
  rw [variantDirectory_eq h, variantDirectory_eq h', String.append_right_inj]

/-- In one folder, two links have files with different paths exactly if they have different short
names. -/
lemma disjoint_paths_iff {l' : Link} (hfolder : o.routingFolder = o.topologyFolder)
    (h : o.Plain l) (h' : o.Plain l') :
    List.Disjoint (o.paths l) (o.paths l') ↔ l.label ≠ l'.label := by
  constructor
  · intro hdisjoint heq
    have hpath : o.topologyPath l = o.topologyPath l' := by
      rw [Origin.topologyPath, Origin.topologyPath, variantDirectory, variantDirectory, heq]
    exact hdisjoint (a := o.topologyPath l) (by simp [Origin.paths]) (by simp [Origin.paths, hpath])
  · intro hne path hpath hpath'
    have hdirectory :
        variantDirectory o.topologyFolder l ≠ variantDirectory o.topologyFolder l' :=
      fun heq => hne ((variantDirectory_inj h.topologyDirectory h'.topologyDirectory).mp heq)
    simp only [Origin.paths, List.mem_cons, List.not_mem_nil, or_false] at hpath
    rcases hpath with rfl | rfl
    · rw [topologyPath_mem_iff h h'] at hpath'
      simp [Origin.places, Origin.topologyPlace, Origin.routingPlace, hfolder, hdirectory] at hpath'
    · rw [routingPath_mem_iff h h'] at hpath'
      simp [Origin.places, Origin.topologyPlace, Origin.routingPlace, hfolder, hdirectory] at hpath'

/-- In one folder, the paths are different exactly if the links have different short names. -/
lemma nodup_paths_iff (hfolder : o.routingFolder = o.topologyFolder)
    (hname : o.topologyName ≠ o.routingName) (hplain : ∀ l ∈ n.links, o.Plain l) :
    (n.links.flatMap o.paths).Nodup ↔ (n.links.map Link.label).Nodup := by
  have hlink : ∀ l ∈ n.links, (o.paths l).Nodup := by
    intro l hl
    have hp := hplain l hl
    have hne : o.topologyPath l ≠ o.routingPath l := by
      rw [Origin.topologyPath, Origin.routingPath, Ne, path_eq_iff hp.topologyDirectory
        hp.routingDirectory hp.topologyName hp.routingName]
      simp [hname]
    simp [Origin.paths, hne]
  rw [List.nodup_flatMap, List.Nodup, List.pairwise_map]
  exact (and_iff_right hlink).trans (List.Pairwise.iff_of_mem fun {l l'} hl hl' =>
    disjoint_paths_iff hfolder (hplain l hl) (hplain l' hl'))

/-- **Each link has two files of its own, with the network without it, exactly if the paths of the
files are different.** The files of a network whose links end at routers with tables are all
written, if the network can be written and nothing is in the way; a file that no later one has the
path of is left, and nothing else in the tree changes. In one folder the paths are different exactly
if no two links have the same short name, which is made of the names of the two routers. -/
theorem variants_left_iff (n : Network) (o : Origin) (t : FileTree)
    (htables : ∀ l ∈ n.links, ∀ p ∈ l.ends, ∃ r ∈ n.tables, r.router.id = p.router)
    (hwritable : ∃ d, n.writePretty = .ok d) (hplain : ∀ l ∈ n.links, o.Plain l)
    (hclear : ∀ l ∈ n.links, Clear o t l) :
    ∃ u, n.writeVariantsOf o t = (u, none) ∧
      LeavesLatest n o u ∧
      (∀ q, (∀ l ∈ n.links, q ∉ [variantDirectory o.topologyFolder l] :: o.places l) →
        u.entry? (t.home ++ q) = t.entry? (t.home ++ q)) ∧
      (LeavesVariants n o u ↔ (n.links.flatMap o.paths).Nodup) ∧
      (o.routingFolder = o.topologyFolder → o.topologyName ≠ o.routingName →
        (LeavesVariants n o u ↔ (n.links.map Link.label).Nodup)) := by
  obtain ⟨u, hu, hall⟩ := writeVariantsFrom_of_clear (i := 0) htables hwritable hplain hclear
  have hlatest := hall.leavesLatest hwritable hplain hclear
  have hiff : LeavesVariants n o u ↔ (n.links.flatMap o.paths).Nodup :=
    ⟨LeavesVariants.paths, hlatest.leavesVariants⟩
  exact ⟨u, hu, hlatest, hall.other, hiff, fun hfolder hname =>
    hiff.trans (nodup_paths_iff hfolder hname hplain)⟩

/-- A tree with one empty directory, in which one is. -/
def emptyOut : FileTree := ⟨[(["out"], .directory)], ["out"]⟩

/-- Two routers with two interfaces each, both with a table, and links between them. -/
def twoRouters (links : List Link) : Network :=
  let a : Router := ⟨⟨"", some "A"⟩, [⟨some "x", false⟩, ⟨some "y", false⟩]⟩
  let b : Router := ⟨⟨"", some "B"⟩, [⟨some "x", false⟩, ⟨some "y", false⟩]⟩
  ⟨[a, b], links, [⟨a, [⟨some "x", .named "s", [[⟨some "y", [.pop]⟩], [⟨some "x", []⟩]]⟩,
    ⟨some "y", .named "s", [[⟨some "x", [.pop]⟩], [⟨some "y", []⟩]]⟩]⟩, ⟨b, []⟩]⟩

/-- A link between the interfaces of one name, from `A` to `B`. -/
def across (i : String) : Link := ⟨⟨⟨"", some "A"⟩, some i⟩, ⟨⟨"", some "B"⟩, some i⟩⟩

/-- The same link the other way round. -/
def turned (l : Link) : Link := ⟨l.target, l.source⟩

/-- Two links from `A` to `B`. -/
def parallel : Network := twoRouters [across "x", across "y"]

/-- A link from `A` to `B` and one from `B` to `A`. -/
def thereAndBack : Network := twoRouters [across "x", turned (across "y")]

lemma clear_emptyOut (folder : String) (l : Link) : Clear (.inFolder folder) emptyOut l := by
  constructor <;> simp [emptyOut, FileTree.entry?, Dictionary.get?, Origin.topologyPlace,
    Origin.routingPlace, Origin.inFolder]

/-- Links of either direction have files of their own. -/
theorem variants_left_thereAndBack :
    ∃ u, thereAndBack.writeVariants "in" emptyOut = (u, none) ∧
      LeavesVariants thereAndBack (.inFolder "in") u := by
  obtain ⟨u, hu, -, -, -, hiff⟩ := variants_left_iff thereAndBack (.inFolder "in") emptyOut
    (by decide +kernel) ⟨_, rfl⟩ (by decide +kernel) fun l _ => clear_emptyOut "in" l
  exact ⟨u, hu, (hiff rfl (by decide)).mpr (by decide +kernel)⟩

/-- Two links between the same routers have one directory. The work ends without a fault, but the
network without the first link is in no file. -/
theorem variants_not_left : ∃ u a b, parallel.writeVariants "in" emptyOut = (u, none) ∧
    (parallel.lacking 0 (across "x")).writePretty = .ok (a, b) ∧
    (∀ path, u.text path ≠ .ok a ∧ u.text path ≠ .ok b) ∧
    ¬ LeavesVariants parallel (.inFolder "in") u := by
  obtain ⟨⟨a, b⟩, hab⟩ : ∃ d, (parallel.lacking 0 (across "x")).writePretty = .ok d := ⟨_, rfl⟩
  have hfault : (parallel.writeVariants "in" emptyOut).2 = none := by decide +kernel
  have hgone : ∀ e ∈ (parallel.writeVariants "in" emptyOut).1.entries,
      e.2 ≠ .text a ∧ e.2 ≠ .text b := by
    have hall : ((parallel.lacking 0 (across "x")).writePretty.toOption.all fun d =>
        (parallel.writeVariants "in" emptyOut).1.entries.all fun e =>
          e.2 ≠ .text d.1 ∧ e.2 ≠ .text d.2) = true := by decide +kernel
    simpa [hab, Except.toOption] using hall
  refine ⟨_, a, b, Prod.ext rfl hfault, hab, fun path => ⟨fun h => ?_, fun h => ?_⟩, fun h => ?_⟩
  · obtain ⟨e, he, hs⟩ := FileTree.exists_mem_of_text h
    exact (hgone e he).1 hs
  · obtain ⟨e, he, hs⟩ := FileTree.exists_mem_of_text h
    exact (hgone e he).2 hs
  · exact absurd h.paths (by decide +kernel)

end Network

end MplsReach
