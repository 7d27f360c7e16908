/-
Dumps that become networks.

* `Rule.Rooted`: a rule leaves by an interface of its router, and its weight is a number.
* `Consistent`: so do all rules, and routers know their interfaces by name. `Consistent.readFile`,
  `Consistent.markBottoms`: it stays so with each file, and with the marks.
* `ArrivalsKnown`: the interface that packets without labels arrive on is one that the router has.
* `collect_converts_iff`: **a dump that is read becomes a network exactly if these are known.** The
  interface that packets leave by always is.
-/
import MplsReach.Proofs.Reading
import MplsReach.Proofs.Registration

namespace MplsReach.Dump

/-! ### Interfaces of routers -/

variable {t t' : Topology} {router : Option String} {i : InterfaceId} {r : Rule} {d d' : Dump}

/-- The converted router has the interfaces that the router has by name. -/
lemma hasInterface_routerOf_iff (ht : t.Registered) {name : Option String} :
    (routerOf t router).hasInterface name = true ↔ (t.find? router name).isSome := by
  have hmem : (routerOf t router).hasInterface name = true ↔
      name ∈ interfaceNames (routerOf t router).interfaces := by
    simp [MplsReach.Router.hasInterface, interfaceNames]
  rw [hmem, mem_interfaceNames_routerOf_iff, ← ht.mem_namedEndpoints_iff, and_iff_right_iff_imp]
  intro hnamed
  obtain ⟨r, hr, hname, -⟩ :=
    (Topology.find?_isSome_iff ht.names_nodup).mp (ht.mem_namedEndpoints_iff.mp hnamed)
  exact List.mem_map.mpr ⟨r, hr, hname⟩

/-! ### Neighbours -/

/-- A link leaves routers and interfaces as they are. -/
lemma Topology.Registered.connect {source : InterfaceId} {target : Option InterfaceId}
    (ht : t.Registered) (h : t.connect router source target = .ok t') :
    t'.Registered ∧ t.Keeps t' := by
  obtain ⟨i, -, -, -, rfl⟩ := Topology.connect_eq_ok_iff.mp h
  exact ⟨ht.joined router _, Topology.keeps_joined t router _⟩

lemma Topology.Registered.readNeighbour {n : Xml.Node} (ht : t.Registered)
    (hrouter : router ∈ t.routerNames) (h : Topology.readNeighbour router t n = .ok t') :
    t'.Registered ∧ router ∈ t'.routerNames := by
  rw [Topology.readNeighbour] at h
  obtain ⟨interface, -, h⟩ := exists_of_bind_eq_ok h
  split at h
  · split at h
    · rename_i neighbour _
      -- the interface, the neighbour with its own one, and the link between them
      have ht₁ := ht.addInterface hrouter interface.leadingText?
      have ht₂ := ht₁.ensureRouter (some (systemName neighbour))
      have ht₃ := ht₂.addInterface (Topology.mem_routerNames_ensureRouter_iff.mpr (.inr rfl))
        (peerName router interface.leadingText?)
      obtain ⟨ht', hkeeps⟩ := ht₃.connect h
      have hkept := ((Topology.keeps_addInterface t router interface.leadingText?).trans
        (Topology.keeps_ensureRouter _ _)).trans ((Topology.keeps_addInterface _ _ _).trans hkeeps)
      exact ⟨ht', hkept.names router hrouter⟩
    · exact absurd h (by simp)
  · exact absurd h (by simp)

/-- Routers know their interfaces, whatever neighbours are read. -/
lemma registered_of_read {files : List File} (h : Topology.read files = .ok t) : t.Registered := by
  refine foldlM_invariant (fun t f t' ht hf => ?_) Topology.registered_empty h
  obtain ⟨root, -, hf⟩ := exists_of_bind_eq_ok hf
  obtain ⟨information, -, hf⟩ := exists_of_bind_eq_ok hf
  have hstart : (t.ensureRouter f.router).Registered ∧
      f.router ∈ (t.ensureRouter f.router).routerNames :=
    ⟨ht.ensureRouter _, Topology.mem_routerNames_ensureRouter_iff.mpr (.inr rfl)⟩
  exact (foldlM_invariant (P := fun t => t.Registered ∧ f.router ∈ t.routerNames)
    (fun t n t' ht hn => ht.1.readNeighbour ht.2 hn) hstart hf).1

/-! ### Rules -/

/-- What holds of every rule and the router of its table. -/
def ForRules (P : Option String → Rule → Prop) (d : Dump) : Prop :=
  ∀ t ∈ d.tables, ∀ r ∈ t.rules, P t.router r

section ForRules

variable {P : Option String → Rule → Prop}

lemma ForRules.startTable (h : ForRules P d) (router : Option String) :
    ForRules P (d.startTable router) := by
  intro t ht r hr
  rcases Dictionary.mem_of_mem_put ht with rfl | ht
  · exact absurd hr List.not_mem_nil
  · exact h t ht r hr

/-- A change of the rules of one table. -/
lemma forRules_update {g : List Rule → List Rule} (h : ForRules P d)
    (hg : ∀ t ∈ d.tables, t.router = router → ∀ r ∈ g t.rules, P router r)
    (htables : d'.tables = d.tables.map fun t =>
      if t.router = router then { t with rules := g t.rules } else t) : ForRules P d' := by
  intro t' ht' r hr
  rw [htables] at ht'
  obtain ⟨t, ht, rfl⟩ := List.mem_map.mp ht'
  split at hr
  · rename_i heq
    rw [if_pos heq]
    exact heq ▸ hg t ht heq r hr
  · rename_i hne
    rw [if_neg hne]
    exact h t ht r hr

lemma ForRules.addRule (h : ForRules P d) (hr : P router r) :
    ForRules P (d.addRule router r) := by
  refine forRules_update (g := (· ++ [r])) h (fun t ht heq r' hr' => ?_) rfl
  rcases List.mem_append.mp hr' with hr' | hr'
  · exact heq ▸ h t ht r' hr'
  · exact List.mem_singleton.mp hr' ▸ hr

lemma ForRules.of_mem_rulesOf (h : ForRules P d) (hr : r ∈ d.rulesOf router) :
    P router r := by
  rw [Dump.rulesOf] at hr
  cases hget : Dictionary.get? Table.router router d.tables with
  | none => exact absurd (hget ▸ hr) List.not_mem_nil
  | some t =>
      have hrouter : t.router = router := by simpa using List.find?_some hget
      rw [hget] at hr
      exact hrouter ▸ h t (List.mem_of_find?_eq_some hget) r hr

end ForRules

/-- A rule leaves by an interface of its router, and its weight is a number. -/
def Rule.Rooted (t : Topology) (router : Option String) (r : Rule) : Prop :=
  t.Has router r.out ∧ ∃ w, r.weight = .number w

lemma Rule.Rooted.of_keeps (hr : r.Rooted t router) (h : t.Keeps t') : r.Rooted t' router :=
  ⟨hr.1.of_keeps h, hr.2⟩

/-- Routers know their interfaces by name, and rules leave by interfaces of their routers. -/
structure Consistent (d : Dump) : Prop where
  registered : d.topology.Registered
  rooted : ForRules (fun router r => r.Rooted d.topology router) d

/-- What is read of the table of a router is sound: entries for virtual interfaces lead to
interfaces of the router as well. -/
structure Reading.Sound (router : Option String) (s : Reading) : Prop where
  dump : Consistent s.dump
  router_mem : router ∈ s.dump.topology.routerNames
  virtuals : ∀ v ∈ s.virtuals, s.dump.topology.Has router v.out

variable {addresses : List (String × String)} {s s' : Reading} {f : File}

lemma Topology.Registered.ensureRouter_ensureInterface (ht : t.Registered)
    (router name : Option String) :
    ((t.ensureRouter router).ensureInterface router name).1.Registered :=
  (ht.ensureRouter router).ensureInterface
    (Topology.mem_routerNames_ensureRouter_iff.mpr (.inr rfl)) name

/-- The next hop leaves by an interface of the router. -/
lemma Topology.Registered.nextHop {via : String} {address : Option String} (ht : t.Registered)
    (hrouter : router ∈ t.routerNames) (h : nextHop addresses router via address t = .ok (t', i)) :
    t'.Registered ∧ t.Keeps t' ∧ t'.Has router i := by
  have ht₁ := ht.ensureInterface hrouter (some via)
  have hkeeps₁ := Topology.keeps_ensureInterface t router (some via)
  have hhas := ht.has_ensureInterface router (some via)
  rw [Dump.nextHop] at h
  cases address with
  | none =>
      obtain ⟨rfl, rfl⟩ := Prod.mk.inj (Except.ok.inj h)
      exact ⟨ht₁, hkeeps₁, hhas⟩
  | some address =>
      simp only at h
      split at h
      · obtain ⟨rfl, rfl⟩ := Prod.mk.inj (Except.ok.inj h)
        exact ⟨ht₁, hkeeps₁, hhas⟩
      · obtain ⟨t₂, hconnect, h⟩ := exists_of_bind_eq_ok h
        obtain ⟨rfl, rfl⟩ := Prod.mk.inj (Except.ok.inj h)
        obtain ⟨ht', hkeeps⟩ := (ht₁.ensureRouter_ensureInterface _ _).connect hconnect
        have hkept := (Topology.keeps_ensureRouter _ _).trans
          ((Topology.keeps_ensureInterface _ _ _).trans hkeeps)
        exact ⟨ht', hkeeps₁.trans hkept, hhas.of_keeps hkept⟩

lemma topology_addActions (os : List Operation) (d : Dump) :
    (d.addActions os).1.topology = d.topology := by
  induction os generalizing d with
  | nil => rfl
  | cons o os ih =>
      cases o with
      | pop => exact ih d
      | push name => exact ih _
      | swap name => exact ih _

/-- What a next hop can add: nothing, or a rule or an entry that leaves by its interface. -/
lemma exists_of_readHop {entry n : Xml.Node}
    (h : Reading.readHop addresses router entry s n = .ok s') : s' = s ∨
      ∃ via address t out d, nextHop addresses router via address s.dump.topology = .ok (t, out) ∧
        d.topology = t ∧ d.tables = s.dump.tables ∧
        ((∃ r w, r.out = out ∧ r.weight = .number w ∧
            s' = { s with dump := d.addRule router r }) ∨
          ∃ v, v.out = out ∧ s' = ⟨d, s.virtuals ++ [v]⟩) := by
  rw [Reading.readHop] at h
  split at h
  · exact .inl (Except.ok.inj h).symm
  · rename_i via _
    obtain ⟨target, -, h⟩ := exists_of_bind_eq_ok h
    obtain ⟨⟨topology, out⟩, hhop, h⟩ := exists_of_bind_eq_ok h
    obtain ⟨kind, -, h⟩ := exists_of_bind_eq_ok h
    split at h
    · obtain ⟨os, -, h⟩ := exists_of_bind_eq_ok h
      obtain ⟨weight, -, h⟩ := exists_of_bind_eq_ok h
      obtain ⟨place, -, h⟩ := exists_of_bind_eq_ok h
      split at h
      · obtain ⟨destination, -, h⟩ := exists_of_bind_eq_ok h
        have htopology : _ = topology :=
          topology_addActions os { s.dump with topology := topology }
        have htables := (gains_addActions os { s.dump with topology := topology }).tables
        split at h <;> obtain rfl := Except.ok.inj h
        · refine .inr ⟨via, _, _, _, _, hhop, ?_, ?_, .inl ⟨_, weight, rfl, rfl, rfl⟩⟩
          exacts [htopology, htables]
        · exact .inr ⟨via, _, _, _, _, hhop, htopology, htables, .inl ⟨_, weight, rfl, rfl, rfl⟩⟩
        · exact .inr ⟨via, _, _, _, _, hhop, htopology, htables, .inr ⟨_, rfl, rfl⟩⟩
      · exact absurd h (by simp)
    · exact absurd h (by simp)

/-- A new interface or link leaves rules where they are. -/
lemma Consistent.of_keeps (hd : Consistent d) (ht : d'.topology.Registered)
    (hkeeps : d.topology.Keeps d'.topology) (htables : d'.tables = d.tables) : Consistent d' := by
  refine ⟨ht, fun t ht r hr => ?_⟩
  exact (hd.rooted t (htables ▸ ht) r hr).of_keeps hkeeps

lemma Reading.Sound.readHop {entry n : Xml.Node} (hs : s.Sound router)
    (h : Reading.readHop addresses router entry s n = .ok s') : s'.Sound router := by
  obtain rfl | ⟨via, address, _, out, d, hhop, rfl, htables, hcases⟩ := exists_of_readHop h
  · exact hs
  · obtain ⟨ht, hkeeps, hhas⟩ := hs.dump.registered.nextHop hs.router_mem hhop
    have hd := hs.dump.of_keeps ht hkeeps htables
    have hrouter := hkeeps.names router hs.router_mem
    have hvirtuals := fun v hv => (hs.virtuals v hv).of_keeps hkeeps
    rcases hcases with ⟨r, w, rfl, hw, rfl⟩ | ⟨v, rfl, rfl⟩
    · exact ⟨⟨ht, hd.rooted.addRule ⟨hhas, w, hw⟩⟩, hrouter, hvirtuals⟩
    · refine ⟨hd, hrouter, fun u hu => ?_⟩
      rcases List.mem_append.mp hu with hu | hu
      · exact hvirtuals u hu
      · exact List.mem_singleton.mp hu ▸ hhas

/-- A rule that is led along entries leaves by an interface of its router. -/
lemma Rule.Rooted.foldl_resolve {vs : List Virtual} (hr : r.Rooted t router)
    (hvs : ∀ v ∈ vs, t.Has router v.out) : (vs.foldl (Rule.resolve t) r).Rooted t router := by
  induction vs generalizing r with
  | nil => exact hr
  | cons v vs ih =>
      obtain ⟨hv, hvs⟩ := List.forall_mem_cons.mp hvs
      refine ih ?_ hvs
      rw [Rule.resolve]
      split
      · exact ⟨hv, v.weight, rfl⟩
      · exact hr

lemma Consistent.readFile (hd : Consistent d) (h : d.readFile addresses f = .ok d') :
    Consistent d' := by
  rw [readFile_eq, map_eq_pure_bind] at h
  obtain ⟨s, hs, h⟩ := exists_of_bind_eq_ok h
  obtain rfl := Except.ok.inj h
  have hsound : s.Sound f.router := by
    obtain ⟨r, hrouter, hs⟩ := exists_of_bind_eq_ok hs
    obtain ⟨root, -, hs⟩ := exists_of_bind_eq_ok hs
    obtain ⟨information, -, hs⟩ := exists_of_bind_eq_ok hs
    have hstart : Reading.Sound f.router ⟨d.startTable f.router, []⟩ :=
      ⟨⟨hd.registered, hd.rooted.startTable _⟩, Topology.mem_routerNames_of_router hrouter,
        by simp⟩
    exact foldlM_invariant (fun s entry s' hs hentry =>
      foldlM_invariant (fun s n s' hs hn => hs.readHop hn) hs hentry) hstart hs
  refine ⟨hsound.dump.registered,
    forRules_update hsound.dump.rooted (fun t ht heq r' hr' => ?_) rfl⟩
  obtain ⟨r, hr, rfl⟩ := List.mem_map.mp hr'
  exact (heq ▸ hsound.dump.rooted t ht r hr).foldl_resolve hsound.virtuals

/-! ### Marks -/

/-- What holds at first and is kept at each step holds at last. -/
lemma stepwise_invariant {α σ : Type} {P : σ → Prop} {step : σ → α → Except Fault σ} {as : List α}
    (hstep : ∀ a ∈ as, ∀ s s', P s → step s a = .ok s' → P s') {s s' : σ} (hs : P s)
    (h : stepwise step s as = (s', none)) : P s' := by
  induction as generalizing s with
  | nil =>
      obtain rfl : s = s' := congrArg Prod.fst h
      exact hs
  | cons a as ih =>
      obtain ⟨ha, has⟩ := List.forall_mem_cons.mp hstep
      obtain ⟨s₁, hs₁, h⟩ := exists_of_stepwise_cons h
      exact ih has (ha s s₁ hs hs₁) h

/-- Names of labels are marked in the same topology and with the same tables. -/
lemma topology_markLowest (ls : List LabelId) : (d.markLowest ls).topology = d.topology := by
  induction ls generalizing d with
  | nil => rfl
  | cons l ls ih =>
      rw [markLowest_cons, ih]
      split <;> rfl

lemma Consistent.of_eq (hd : Consistent d) (htopology : d'.topology = d.topology)
    (htables : d'.tables = d.tables) : Consistent d' :=
  hd.of_keeps (htopology ▸ hd.registered) (htopology ▸ .refl _) htables

/-- Copies of rules leave where the rules do. -/
lemma Consistent.completeTable (hd : Consistent d) (h : d.completeTable router = (d', none)) :
    Consistent d' := by
  rw [Dump.completeTable] at h
  simp only at h
  split at h
  · exact absurd (congrArg Prod.snd h) (by simp)
  · have hmarked : ∀ ls, Consistent (d.markLowest ls) ∧ (d.markLowest ls).topology = d.topology :=
      fun ls => ⟨hd.of_eq (topology_markLowest ls) (markLowest_frame ls).1, topology_markLowest ls⟩
    refine (stepwise_invariant (P := fun e => Consistent e ∧ e.topology = d.topology)
      (fun r hr e e' he hstep => ?_) (hmarked _) h).1
    have hrooted : r.Rooted d.topology router := by
      refine hd.rooted.of_mem_rulesOf ?_
      exact List.mem_of_mem_filter (List.mem_of_mem_filter (List.mem_of_mem_filter hr))
    rw [Dump.addUpper] at hstep
    split at hstep
    · exact Except.ok.inj hstep ▸ he
    · split at hstep
      · exact absurd hstep (by simp)
      · obtain rfl := Except.ok.inj hstep
        exact ⟨⟨he.1.registered, he.1.rooted.addRule (he.2 ▸ hrooted)⟩, he.2⟩

lemma Consistent.stepTables {routers : List (Option String)} (hd : Consistent d)
    (h : Dump.markBottoms.stepTables routers d = (d', none)) : Consistent d' := by
  induction routers generalizing d with
  | nil =>
      obtain rfl : d = d' := congrArg Prod.fst h
      exact hd
  | cons router routers ih =>
      rw [Dump.markBottoms.stepTables] at h
      split at h
      · exact absurd (congrArg Prod.snd h) (by simp)
      · rename_i hstep
        exact ih (hd.completeTable hstep) h

lemma Consistent.markBottoms (hd : Consistent d) (h : d.markBottoms = (d', none)) :
    Consistent d' := by
  rw [Dump.markBottoms] at h
  split at h
  · exact absurd (congrArg Prod.snd h) (by simp)
  · rename_i hcompleted
    refine stepwise_invariant (fun p _ e e' he hmark => ?_) (hd.stepTables hcompleted) h
    rcases eq_of_markAction hmark with ⟨-, rfl⟩ | ⟨x, -, -, rfl⟩
    · exact he
    · exact he.of_eq rfl rfl

/-- **Rules that are read leave by interfaces of their routers.** -/
lemma consistent_of_collect {neighbours forwarding : List File}
    (h : Dump.collect addresses neighbours forwarding = .ok d) : Consistent d := by
  obtain ⟨t, ht, h⟩ := exists_of_bind_eq_ok h
  obtain ⟨d₁, hd₁, h⟩ := exists_of_bind_eq_ok h
  have hempty : Consistent (Dump.ofTopology t) :=
    ⟨registered_of_read ht, fun _ hmem => absurd hmem List.not_mem_nil⟩
  have hread : Consistent d₁ := foldlM_invariant (fun d f d' hd hf => hd.readFile hf) hempty hd₁
  split at h
  · rename_i hmarked
    exact Except.ok.inj h ▸ hread.markBottoms hmarked
  · exact absurd h (by simp)

/-! ### Conversion -/

/-- Whole numbers can be compared with each other. -/
lemma exists_ascending {ks : List Key} (h : ∀ k ∈ ks, ∃ n, k = .whole n) :
    ∃ ks', Key.ascending ks = .ok ks' := by
  rw [Key.ascending]
  split
  · exact ⟨ks, rfl⟩
  · have hranks : ks.all (·.rank?.isSome) = true := List.all_eq_true.mpr fun k hk => by
      obtain ⟨n, rfl⟩ := h k hk
      rfl
    rw [if_pos hranks]
    exact ⟨_, rfl⟩

lemma exists_destinationsOf {ws : List Weighted} (h : ∀ w ∈ ws, ∃ n, w.weight = .whole n) :
    ∃ es, destinationsOf ws = .ok es := by
  refine exists_mapM_iff.mpr fun key _ => ?_
  have hwhole : ∀ k ∈ Text.distinct ((ws.filter (·.key = key)).map (·.weight)),
      ∃ n, k = .whole n := by
    intro k hk
    obtain ⟨w, hw, rfl⟩ := List.mem_map.mp ((Text.mem_distinct _ _).mp hk)
    exact h w (List.mem_of_mem_filter hw)
  obtain ⟨weights, hweights⟩ := exists_ascending hwhole
  exact ⟨_, by rw [destinationOf, hweights]; rfl⟩

/-- The interface that packets without labels arrive on, if a rule is for these. -/
def Rule.interface? (r : Rule) : Option (Option String) :=
  match r.arrival with
  | .labelled _ => none
  | .ethernet i => some i

/-- A rule becomes rules, unless it is for packets that arrive on an interface that the router does
not have. -/
lemma weighted_cases (ht : d.topology.Registered) (hr : r.Rooted d.topology router) :
    ((∃ ws, d.weighted (routerOf d.topology router) r = .ok ws) ∧
      ∀ i ∈ r.interface?, (d.topology.find? router i).isSome) ∨
    ∃ i ∈ r.interface?, d.topology.find? router i = none ∧
      d.weighted (routerOf d.topology router) r = .error (.unknownName i) := by
  obtain ⟨⟨x, hx, rfl⟩, -⟩ := hr
  have hname : d.topology.interfaceName r.out = x.name := by rw [Topology.interfaceName, hx]; rfl
  have hout : requireEndpoint (routerOf d.topology x.router) x.name = .ok () :=
    if_pos ((hasInterface_routerOf_iff ht).mpr (ht.find?_isSome hx))
  rw [Dump.weighted, hname, Rule.interface?]
  cases r.arrival with
  | labelled l =>
      refine .inl ⟨?_, fun i hi => absurd hi (by simp)⟩
      simp only
      split
      · exact ⟨_, rfl⟩
      · exact ⟨_, by rw [hout]; rfl⟩
  | ethernet i =>
      simp only [Option.mem_some_iff, forall_eq', exists_eq_left']
      cases hfind : d.topology.find? x.router i with
      | some j =>
          have hin : requireEndpoint (routerOf d.topology x.router) i = .ok () :=
            if_pos ((hasInterface_routerOf_iff ht).mpr (by rw [hfind]; rfl))
          exact .inl ⟨⟨_, by rw [hin, hout]; rfl⟩, rfl⟩
      | none =>
          have hin : requireEndpoint (routerOf d.topology x.router) i = .error (.unknownName i) :=
            if_neg fun h => absurd ((hasInterface_routerOf_iff ht).mp h) (by rw [hfind]; simp)
          exact .inr ⟨rfl, by rw [hin]; rfl⟩

/-- Weights stay whole numbers. -/
lemma weight_of_weighted {ws : List Weighted} (hr : r.Rooted d.topology router)
    {router' : MplsReach.Router} (h : d.weighted router' r = .ok ws) {w : Weighted} (hw : w ∈ ws) :
    ∃ n, w.weight = .whole n := by
  obtain ⟨-, n, hn⟩ := hr
  have hplaced : ∃ key, w = placed d key r := by
    rcases weighted_eq h with ⟨l, -, rfl⟩ | ⟨i, -, -, rfl⟩
    · obtain ⟨x, -, rfl⟩ := List.mem_map.mp hw
      exact ⟨_, rfl⟩
    · exact ⟨_, List.mem_singleton.mp hw⟩
  obtain ⟨key, rfl⟩ := hplaced
  exact ⟨n, by rw [placed, hn]; rfl⟩

/-- Packets without labels arrive on interfaces that the routers have by name. -/
def ArrivalsKnown (d : Dump) : Prop :=
  ∀ t ∈ d.tables, ∀ r ∈ t.rules, ∀ i ∈ r.interface?, (d.topology.find? t.router i).isSome

instance (d : Dump) : Decidable (ArrivalsKnown d) :=
  inferInstanceAs (Decidable (∀ t ∈ d.tables, ∀ r ∈ t.rules, ∀ i ∈ r.interface?, _))

/-- A rule for packets that arrive on an interface that its router does not have. -/
def Astray (d : Dump) (router : Option String) (r : Rule) (i : Option String) : Prop :=
  r.interface? = some i ∧ d.topology.find? router i = none

/-- A table fails to be converted only where a rule does. -/
lemma exists_of_table_eq_error {t : Table} {f : Fault} (hd : Consistent d) (ht : t ∈ d.tables)
    (h : d.table (routersOf d.topology) t = .error f) :
    ∃ r ∈ t.rules, ∃ i, Astray d t.router r i ∧ f = .unknownName i := by
  have hrules := hd.rooted t ht
  rcases eq_error_or_of_bind_eq_error h with hparts | ⟨parts, hparts, h⟩
  · obtain ⟨r, hr, hfail⟩ := exists_of_mapM_eq_error hparts
    rcases weighted_cases hd.registered (hrules r hr) with ⟨⟨ws, hws⟩, -⟩ | ⟨i, hi, hnone, hi'⟩
    · exact absurd (hws.symm.trans hfail) (by simp)
    · exact ⟨r, hr, i, ⟨hi, hnone⟩, Except.error.inj (hfail.symm.trans hi')⟩
  · -- the rules are there, and numbers can be compared
    have hweights : ∀ w ∈ parts.flatten, ∃ n, w.weight = .whole n := by
      intro w hw
      obtain ⟨ws, hws, hw⟩ := List.mem_flatten.mp hw
      obtain ⟨r, hr, hws⟩ := (mem_of_mapM_eq_ok hparts).mp hws
      exact weight_of_weighted (hrules r hr) hws hw
    obtain ⟨es, hes⟩ := exists_destinationsOf hweights
    rcases eq_error_or_of_bind_eq_error h with hfail | ⟨es', -, h⟩
    · exact absurd (hes.symm.trans hfail) (by simp)
    · exact absurd h (by simp [pure, Except.pure])

/-- A dump fails to be converted only where a rule is astray. -/
lemma Consistent.exists_of_toNetwork_eq_error {f : Fault} (hd : Consistent d)
    (h : d.toNetwork = .error f) :
    ∃ t ∈ d.tables, ∃ r ∈ t.rules, ∃ i, Astray d t.router r i ∧ f = .unknownName i := by
  rcases eq_error_or_of_bind_eq_error h with htables | ⟨tables, -, h⟩
  · obtain ⟨t, ht, hfail⟩ := exists_of_mapM_eq_error htables
    exact ⟨t, ht, exists_of_table_eq_error hd ht hfail⟩
  · exact absurd h (by simp [pure, Except.pure])

lemma Consistent.arrivalsKnown_of_toNetwork {n : Network} (hd : Consistent d)
    (h : d.toNetwork = .ok n) : ArrivalsKnown d := by
  intro t ht r hr
  obtain ⟨tables, htables, -⟩ := exists_of_bind_eq_ok h
  obtain ⟨t', ht'⟩ := exists_mapM_iff.mp ⟨tables, htables⟩ t ht
  obtain ⟨parts, hparts, -⟩ := exists_of_bind_eq_ok ht'
  obtain ⟨ws, hws⟩ := exists_mapM_iff.mp ⟨parts, hparts⟩ r hr
  rcases weighted_cases hd.registered (hd.rooted t ht r hr) with ⟨-, hknown⟩ | ⟨i, -, -, hfail⟩
  · exact hknown
  · exact absurd (hws.symm.trans hfail) (by simp)

/-- **Dumps that become networks.** Every rule that is read leaves by an interface that its router
has by name. The dump becomes a network exactly if the interfaces that packets without labels arrive
on are known as well, and a failure names one that is not. -/
theorem collect_converts_iff {addresses : List (String × String)}
    {neighbours forwarding : List File} {d : Dump}
    (h : Dump.collect addresses neighbours forwarding = .ok d) :
    (∀ t ∈ d.tables, ∀ r ∈ t.rules,
      (d.topology.find? t.router (d.topology.interfaceName r.out)).isSome) ∧
    ((∃ n, d.toNetwork = .ok n) ↔ ArrivalsKnown d) ∧
    ∀ f, d.toNetwork = .error f →
      ∃ t ∈ d.tables, ∃ r ∈ t.rules, ∃ i, Astray d t.router r i ∧ f = .unknownName i := by
  have hd := consistent_of_collect h
  refine ⟨fun t ht r hr => ?_, ⟨fun hn => ?_, fun hknown => ?_⟩,
    fun f => hd.exists_of_toNetwork_eq_error⟩
  · obtain ⟨⟨x, hx, hrouter⟩, -⟩ := hd.rooted t ht r hr
    rw [Topology.interfaceName, hx, ← hrouter]
    exact hd.registered.find?_isSome hx
  · obtain ⟨n, hn⟩ := hn
    exact hd.arrivalsKnown_of_toNetwork hn
  · cases hn : d.toNetwork with
    | ok n => exact ⟨n, rfl⟩
    | error f =>
        obtain ⟨t, ht, r, hr, i, ⟨hi, hnone⟩, -⟩ := hd.exists_of_toNetwork_eq_error hn
        exact absurd (hknown t ht r hr i hi) (by rw [hnone]; simp)

/-- A router without neighbours. -/
def lonely : File := ⟨"r.xml", "<a><isis-adjacency-information/></a>"⟩

/-- Packets without labels arrive on an interface by which other packets leave. -/
def returning : File :=
  ⟨"r.xml", "<a><forwarding-table-information><route-table>
 <rt-entry><rt-destination>xe-1.0</rt-destination>
  <nh><to/><via>lsi.1</via><nh-type>Push 7</nh-type></nh></rt-entry>
 <rt-entry><rt-destination>lsi.1</rt-destination>
  <nh><to>10.0.0.1</to><via>xe-1.0</via><nh-type>ucst</nh-type></nh></rt-entry>
</route-table></forwarding-table-information></a>"⟩

/-- Packets without labels arrive on an interface by which none leave. -/
def incoming : File :=
  ⟨"r.xml", "<a><forwarding-table-information><route-table>
 <rt-entry><rt-destination>xe-1.0</rt-destination>
  <nh><to/><via>e0</via><nh-type>ucst</nh-type></nh></rt-entry>
</route-table></forwarding-table-information></a>"⟩

set_option maxRecDepth 10000 in
theorem collect_converts_returning :
    ∃ d, Dump.collect [] [lonely] [returning] = .ok d ∧
      (∃ t ∈ d.tables, ∃ r ∈ t.rules, r.interface? = some (some "xe-1.0")) ∧
      ArrivalsKnown d ∧ ∃ n, d.toNetwork = .ok n := by
  have hany : (Dump.collect [] [lonely] [returning]).toOption.any (fun d =>
      (∃ t ∈ d.tables, ∃ r ∈ t.rules, r.interface? = some (some "xe-1.0")) ∧
        ArrivalsKnown d) = true := by
    simp only [Dump.collect, Topology.read, Dump.read, List.foldlM_cons, List.foldlM_nil,
      Topology.readFile, Dump.readFile]
    rw [show lonely.root = _ from root_ofList _ _, show returning.root = _ from root_ofList _ _]
    decide +kernel
  obtain ⟨d, hd, h⟩ := exists_of_any_eq_true hany
  obtain ⟨hrule, hknown⟩ := of_decide_eq_true h
  exact ⟨d, hd, hrule, hknown, (collect_converts_iff hd).2.1.mpr hknown⟩

set_option maxRecDepth 10000 in
/-- The interface that packets arrive on is missing. -/
theorem not_converts_incoming :
    ∃ d, Dump.collect [] [lonely] [incoming] = .ok d ∧
      d.toNetwork = .error (.unknownName (some "xe-1.0")) := by
  have hany : (Dump.collect [] [lonely] [incoming]).toOption.any (fun d =>
      d.toNetwork = .error (.unknownName (some "xe-1.0"))) = true := by
    simp only [Dump.collect, Topology.read, Dump.read, List.foldlM_cons, List.foldlM_nil,
      Topology.readFile, Dump.readFile]
    rw [show lonely.root = _ from root_ofList _ _, show incoming.root = _ from root_ofList _ _]
    decide +kernel
  obtain ⟨d, hd, h⟩ := exists_of_any_eq_true hany
  exact ⟨d, hd, of_decide_eq_true h⟩

end MplsReach.Dump
