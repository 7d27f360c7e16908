/-
Links that are made while a topology is collected.

* `Call`: a router, an interface or a link is asked for, one call after the other.
* `Call.perform`: what a call does, change by change. A failure leaves the changes before it.
* `perform_cases`: all that a call can do to a topology.
* `play`: calls one after the other, with the links that they make.
* `Cabled`: the ends of each link refer to it and to no other one, and each router has the links
  that were made at it.
* `play_cabled`: **links stay as they were made**, whatever is called, and are the links of the
  network.
-/
import MplsReach.Proofs.Registration
import MplsReach.Session.Basic

namespace MplsReach.Dump

/-! ### Calls -/

/-- An interface as it is given in a call: by its name at the router of the call, or as an interface
that an earlier call made. -/
inductive Given where
  | named (name : String)
  | made (i : InterfaceId)
deriving DecidableEq, Repr

/-- A call on a topology. Interfaces and links are asked for at a router. -/
inductive Call where
  | ensureRouter (name : Option String)
  | addInterface (router name : Option String)
  | ensureInterface (router name : Option String)
  | connect (router : Option String) (source : Given) (target : Option Given)
deriving DecidableEq, Repr

/-- The interface that is given at a router. -/
def Topology.given (t : Topology) (router : Option String) : Given → Except Fault InterfaceId
  | .named name => t.find router (some name)
  | .made i => if (t.interface? i).isSome then .ok i else .error .missingPart

/-- The ends that are given for a link. Only the first one is looked up by name, and a name is no
interface. -/
def Topology.ends (t : Topology) (router : Option String) (source : Given)
    (target : Option Given) : Except Fault (InterfaceId × Option InterfaceId) := do
  let _ ← t.router router
  let source ← t.given router source
  match target with
  | some (.made i) => pure (source, some (← t.given router (.made i)))
  | _ => pure (source, none)

/-- A link is entered at one of its ends, at the other one, and at the router. -/
def enter (router : Option String) (l : Link) : Session.Step Topology Unit := do
  modify (·.modifyInterface l.source fun i => { i with link := some l })
  modify (·.modifyInterface l.target fun i => { i with link := some l })
  modify (·.modifyRouter router fun r => { r with links := r.links ++ [l] })

/-- A link between an interface and another one, which has to be there. Neither may be an end of
a link. -/
def join (router : Option String) (source : InterfaceId) (target : Option InterfaceId) :
    Session.Step Topology Link := do
  let t ← get
  if t.isLinked source then throw (.refused .interfaceTaken)
  else match target with
    | none => throw .missingPart
    | some target =>
      if t.isLinked target then throw (.refused .interfaceTaken)
      else
        enter router ⟨source, target⟩
        pure ⟨source, target⟩

/-- A change that is asked for at a router, which has to be there. -/
def atRouter (router : Option String) (change : Topology → Topology) :
    Session.Step Topology (Option Link) := do
  let _ ← Session.attempt ((← get).router router)
  modify change
  pure none

/-- A call, which answers the link that it makes. -/
def Call.perform : Call → Session.Step Topology (Option Link)
  | .ensureRouter name => do
    modify (·.ensureRouter name)
    pure none
  | .addInterface router name => atRouter router fun t => (t.addInterface router name).1
  | .ensureInterface router name => atRouter router fun t => (t.ensureInterface router name).1
  | .connect router source target => do
    let ends ← Session.attempt ((← get).ends router source target)
    some <$> join router ends.1 ends.2

/-- A link that was made: the router that the call was made at, and the names of the two ends. -/
structure Connection where
  router : Option String
  link : Link
  source : Endpoint
  target : Endpoint
deriving DecidableEq, Repr

/-- The link that a call makes on a topology, given its answer. -/
def Call.connection (t : Topology) : Call → Except Fault (Option Link) → List Connection
  | .connect router _ _, .ok (some l) => [⟨router, l, endpointOf t l.source, endpointOf t l.target⟩]
  | _, _ => []

/-- Calls one after the other, whether they fail or not, and the links that they make. -/
def play (t : Topology) : List Call → Topology × List Connection
  | [] => (t, [])
  | c :: cs =>
    let (answer, t') := c.perform.run.run t
    let (t'', made) := play t' cs
    (t'', c.connection t answer ++ made)

variable {t t' : Topology} {router : Option String} {c : Call} {l : Link}
  {answer : Except Fault (Option Link)}

lemma play_cons (h : c.perform.run.run t = (answer, t')) (cs : List Call) :
    play t (c :: cs) = ((play t' cs).1, c.connection t answer ++ (play t' cs).2) := by
  rw [play, h]

/-- More calls make more links. -/
lemma play_append (cs ds : List Call) : play t (cs ++ ds) =
    ((play (play t cs).1 ds).1, (play t cs).2 ++ (play (play t cs).1 ds).2) := by
  induction cs generalizing t with
  | nil => rfl
  | cons c cs ih =>
      rw [List.cons_append, play_cons rfl, play_cons rfl, ih, List.append_assoc]

/-! ### What a call does -/

section Steps

variable {σ α β : Type} {x : Session.Step σ α} {f : α → Session.Step σ β} {s s' : σ}

lemma run_bind_of_eq_ok {a : α} (h : x.run.run s = (.ok a, s')) :
    (x >>= f).run.run s = (f a).run.run s' := by
  rw [ExceptT.run_bind, StateT.run_bind, h]
  rfl

lemma run_bind_of_eq_error {e : Fault} (h : x.run.run s = (.error e, s')) :
    (x >>= f).run.run s = (.error e, s') := by
  rw [ExceptT.run_bind, StateT.run_bind, h]
  rfl

lemma run_get_bind {g : σ → Session.Step σ β} : (get >>= g).run.run s = (g s).run.run s := rfl

lemma run_attempt (e : Except Fault α) :
    (Session.attempt e : Session.Step σ α).run.run s = (e, s) := by
  cases e <;> rfl

end Steps

/-- Making a link change by change comes to the same as making it at once: all that can fail comes
before the first change. -/
lemma run_join (t : Topology) (router : Option String) (source : InterfaceId)
    (target : Option InterfaceId) :
    (∃ f, t.connect router source target = .error f ∧
      (join router source target).run.run t = (.error f, t)) ∨
    ∃ i, target = some i ∧ t.connect router source target = .ok (t.joined router ⟨source, i⟩) ∧
      (join router source target).run.run t = (.ok ⟨source, i⟩, t.joined router ⟨source, i⟩) := by
  rw [join, run_get_bind]
  unfold Topology.connect
  cases t.isLinked source with
  | true => exact .inl ⟨_, rfl, rfl⟩
  | false =>
      cases target with
      | none => exact .inl ⟨_, rfl, rfl⟩
      | some i =>
          simp only [Bool.false_eq_true, if_false]
          cases t.isLinked i with
          | true => exact .inl ⟨_, rfl, rfl⟩
          | false => exact .inr ⟨i, rfl, rfl, rfl⟩

/-- There is an interface, and it is not an end of a link. -/
def Topology.Free (t : Topology) (i : InterfaceId) : Prop :=
  ∃ x, t.interface? i = some x ∧ x.link = none

lemma free_of_isLinked {i : InterfaceId} (hi : (t.interface? i).isSome)
    (hfree : t.isLinked i = false) : t.Free i := by
  obtain ⟨x, hx⟩ := Option.isSome_iff_exists.mp hi
  refine ⟨x, hx, ?_⟩
  simpa [Topology.isLinked, hx] using hfree

lemma isLinked_of_free {i : InterfaceId} (hi : t.Free i) : t.isLinked i = false := by
  obtain ⟨x, hx, hfree⟩ := hi
  simp [Topology.isLinked, hx, hfree]

/-- An interface that is given is there. -/
lemma isSome_of_given (ht : t.Registered) {g : Given} {i : InterfaceId}
    (h : t.given router g = .ok i) : (t.interface? i).isSome := by
  cases g with
  | named name =>
      rw [Topology.given, Topology.find] at h
      split at h
      · rename_i hfind
        obtain rfl := Except.ok.inj h
        obtain ⟨x, hx, -⟩ := ht.interface?_of_find? hfind
        exact Option.isSome_iff_exists.mpr ⟨x, hx⟩
      · exact absurd h (by simp)
  | made j =>
      rw [Topology.given] at h
      split at h
      · rename_i hsome
        exact Except.ok.inj h ▸ hsome
      · exact absurd h (by simp)

/-- The ends of a link are those that are given: there is a router, and the second end is not given
by name. -/
lemma of_ends_eq_ok {source : Given} {target : Option Given} {i : InterfaceId}
    {j : Option InterfaceId} (h : t.ends router source target = .ok (i, j)) :
    router ∈ t.routerNames ∧ t.given router source = .ok i ∧
      ∀ k ∈ j, target = some (.made k) ∧ t.given router (.made k) = .ok k := by
  obtain ⟨r, hr, hends⟩ := exists_of_bind_eq_ok h
  obtain ⟨i', hi, hends⟩ := exists_of_bind_eq_ok hends
  refine ⟨Topology.mem_routerNames_of_router hr, ?_⟩
  rcases target with _ | (name | k₀)
  · obtain ⟨rfl, rfl⟩ := Prod.mk.inj (Except.ok.inj hends)
    exact ⟨hi, fun k hk => absurd hk (by simp)⟩
  · obtain ⟨rfl, rfl⟩ := Prod.mk.inj (Except.ok.inj hends)
    exact ⟨hi, fun k hk => absurd hk (by simp)⟩
  · obtain ⟨k, hk, hends⟩ := exists_of_bind_eq_ok hends
    obtain ⟨rfl, rfl⟩ := Prod.mk.inj (Except.ok.inj hends)
    obtain rfl : k₀ = k := by
      rw [Topology.given] at hk
      split at hk
      · exact Except.ok.inj hk
      · exact absurd hk (by simp)
    refine ⟨hi, fun k' hk' => ?_⟩
    obtain rfl := Option.some.inj hk'
    exact ⟨rfl, hk⟩

/-- Ends that are there can be given at any router that is there. -/
lemma ends_eq_ok {source : Given} {i j : InterfaceId} (hrouter : router ∈ t.routerNames)
    (hi : t.given router source = .ok i) (hj : (t.interface? j).isSome) :
    t.ends router source (some (.made j)) = .ok (i, some j) := by
  obtain ⟨r, hr⟩ := Topology.exists_router_of_mem hrouter
  have hgiven : t.given router (.made j) = .ok j := if_pos hj
  rw [Topology.ends, hr, hi]
  simp only [bind, Except.bind, hgiven]
  rfl

lemma run_atRouter_cases {change : Topology → Topology}
    (h : (atRouter router change).run.run t = (answer, t')) :
    (t' = t ∧ ∃ f, answer = .error f) ∨
      router ∈ t.routerNames ∧ answer = .ok none ∧ t' = change t := by
  rw [atRouter, run_get_bind] at h
  cases hrouter : t.router router with
  | error f =>
      rw [run_bind_of_eq_error (by rw [run_attempt, hrouter])] at h
      obtain ⟨rfl, rfl⟩ := Prod.mk.inj h
      exact .inl ⟨rfl, f, rfl⟩
  | ok r =>
      rw [run_bind_of_eq_ok (by rw [run_attempt, hrouter])] at h
      obtain ⟨rfl, rfl⟩ := Prod.mk.inj h
      exact .inr ⟨Topology.mem_routerNames_of_router hrouter, rfl, rfl⟩

/-- A link is asked for: nothing is changed, or a link is made between the two interfaces that are
given, which were free. -/
lemma run_connect_cases (ht : t.Registered) (router : Option String) (source : Given)
    (target : Option Given) :
    (∃ f, (Call.connect router source target).perform.run.run t = (.error f, t)) ∨
      ∃ l, (Call.connect router source target).perform.run.run t =
          (.ok (some l), t.joined router l) ∧
        router ∈ t.routerNames ∧ t.given router source = .ok l.source ∧
        target = some (.made l.target) ∧ t.Free l.source ∧ t.Free l.target := by
  rw [Call.perform, run_get_bind]
  cases hends : t.ends router source target with
  | error f => exact .inl ⟨f, run_bind_of_eq_error (run_attempt _)⟩
  | ok ends =>
      obtain ⟨i, j⟩ := ends
      rw [run_bind_of_eq_ok (run_attempt _), map_eq_pure_bind]
      obtain ⟨hmem, hi, hj⟩ := of_ends_eq_ok hends
      rcases run_join t router i j with ⟨f, -, hjoin⟩ | ⟨k, rfl, hconnect, hjoin⟩
      · exact .inl ⟨f, run_bind_of_eq_error hjoin⟩
      · obtain ⟨k', hk, hifree, hkfree, -⟩ := Topology.connect_eq_ok_iff.mp hconnect
        obtain rfl := Option.some.inj hk
        obtain ⟨htarget, hgiven⟩ := hj k rfl
        exact .inr ⟨⟨i, k⟩, run_bind_of_eq_ok hjoin, hmem, hi, htarget,
          free_of_isLinked (isSome_of_given ht hi) hifree,
          free_of_isLinked (isSome_of_given ht hgiven) hkfree⟩

/-- Between free interfaces a link is made. -/
lemma run_connect_of_free {source : Given} {i j : InterfaceId} (hrouter : router ∈ t.routerNames)
    (hi : t.given router source = .ok i) (hifree : t.Free i) (hjfree : t.Free j) :
    (Call.connect router source (some (.made j))).perform.run.run t =
      (.ok (some ⟨i, j⟩), t.joined router ⟨i, j⟩) := by
  have hj : (t.interface? j).isSome := by
    obtain ⟨y, hy, -⟩ := hjfree
    rw [hy]
    rfl
  have hconnect : t.connect router i (some j) = .ok (t.joined router ⟨i, j⟩) :=
    Topology.connect_eq_ok_iff.mpr
      ⟨j, rfl, isLinked_of_free hifree, isLinked_of_free hjfree, rfl⟩
  rw [Call.perform, run_get_bind, ends_eq_ok hrouter hi hj, run_bind_of_eq_ok (run_attempt _),
    map_eq_pure_bind]
  rcases run_join t router i (some j) with ⟨f, hfail, -⟩ | ⟨k, hk, -, hjoin⟩
  · exact absurd (hconnect.symm.trans hfail) (by simp)
  · obtain rfl := Option.some.inj hk
    exact run_bind_of_eq_ok hjoin

/-- **What a call can do.** It fails or finds what it asks for and changes nothing, adds a router or
an interface, or makes a link between two interfaces that were free. -/
lemma perform_cases (ht : t.Registered) (h : c.perform.run.run t = (answer, t')) :
    (t' = t ∧ (answer = .ok none ∨ ∃ f, answer = .error f)) ∨
    (answer = .ok none ∧ ∃ name, t' = t.ensureRouter name) ∨
    (answer = .ok none ∧ ∃ router ∈ t.routerNames, ∃ name, t' = (t.addInterface router name).1) ∨
    ∃ router source target l, c = .connect router source target ∧ answer = .ok (some l) ∧
      router ∈ t.routerNames ∧ t.Free l.source ∧ t.Free l.target ∧ t' = t.joined router l := by
  cases c with
  | ensureRouter name =>
      obtain ⟨rfl, rfl⟩ := Prod.mk.inj h
      exact .inr (.inl ⟨rfl, name, rfl⟩)
  | addInterface router name =>
      rcases run_atRouter_cases h with ⟨rfl, hf⟩ | ⟨hmem, rfl, rfl⟩
      · exact .inl ⟨rfl, .inr hf⟩
      · exact .inr (.inr (.inl ⟨rfl, router, hmem, name, rfl⟩))
  | ensureInterface router name =>
      rcases run_atRouter_cases h with ⟨rfl, hf⟩ | ⟨hmem, rfl, rfl⟩
      · exact .inl ⟨rfl, .inr hf⟩
      · cases hfind : t.find? router name with
        | some i =>
            have hsame : (t.ensureInterface router name).1 = t := by
              simp only [Topology.ensureInterface, hfind]
            exact .inl ⟨hsame, .inl rfl⟩
        | none =>
            have hnew : t.ensureInterface router name = t.addInterface router name := by
              simp only [Topology.ensureInterface, hfind]
            exact .inr (.inr (.inl ⟨rfl, router, hmem, name, by rw [hnew]⟩))
  | connect router source target =>
      rcases run_connect_cases ht router source target with ⟨f, hf⟩ | ⟨l, hl, hmem, -, -, hfree⟩
      · obtain ⟨rfl, rfl⟩ := Prod.mk.inj (hf.symm.trans h)
        exact .inl ⟨rfl, .inr ⟨f, rfl⟩⟩
      · obtain ⟨rfl, rfl⟩ := Prod.mk.inj (hl.symm.trans h)
        exact .inr (.inr (.inr ⟨router, source, target, l, rfl, rfl, hmem, hfree.1, hfree.2, rfl⟩))

/-! ### Links and their ends -/

/-- The links of a topology are those that were made. The ends of each refer to it, no interface
refers to another link, and no two have an end in common. The links at a router are those that were
made there, in their order, and the ends have the names that they had. -/
structure Cabled (t : Topology) (made : List Connection) : Prop where
  refers : ∀ c ∈ made, ∀ i, c.link.HasEnd i → ∃ x, t.interface? i = some x ∧ x.link = some c.link
  referred : ∀ i x l, t.interface? i = some x → x.link = some l →
    l.HasEnd i ∧ ∃ c ∈ made, c.link = l
  apart : made.Pairwise fun c c' => ∀ i, c.link.HasEnd i → ¬ c'.link.HasEnd i
  router_mem : ∀ c ∈ made, c.router ∈ t.routerNames
  outgoing : ∀ r ∈ t.routers, r.links = (made.filter (·.router = r.name)).map Connection.link
  named : ∀ c ∈ made, endpointOf t c.link.source = c.source ∧ endpointOf t c.link.target = c.target

variable {made : List Connection}

lemma cabled_empty : Cabled .empty [] where
  refers _ hc := absurd hc List.not_mem_nil
  referred i x l hx := absurd hx (by simp [Topology.interface?, Topology.empty])
  apart := .nil
  router_mem _ hc := absurd hc List.not_mem_nil
  outgoing _ hr := absurd hr List.not_mem_nil
  named _ hc := absurd hc List.not_mem_nil

/-- An interface that stays where it is stays the same endpoint. -/
lemma endpointOf_of_keeps {i : InterfaceId} {x : Interface} (h : t.Keeps t')
    (hx : t.interface? i = some x) : endpointOf t' i = endpointOf t i := by
  obtain ⟨x', hx', hrouter, hname⟩ := h.interface i x hx
  simp only [endpointOf, hx, hx', hrouter, hname]

/-- The ends of links keep their names. -/
lemma Cabled.named_of_keeps (h : Cabled t made) (hkeeps : t.Keeps t') : ∀ c ∈ made,
    endpointOf t' c.link.source = c.source ∧ endpointOf t' c.link.target = c.target := by
  intro c hc
  obtain ⟨hsource, htarget⟩ := h.named c hc
  obtain ⟨x, hx, -⟩ := h.refers c hc _ (.inl rfl)
  obtain ⟨y, hy, -⟩ := h.refers c hc _ (.inr rfl)
  exact ⟨(endpointOf_of_keeps hkeeps hx).trans hsource,
    (endpointOf_of_keeps hkeeps hy).trans htarget⟩

lemma Cabled.ensureRouter (h : Cabled t made) (name : Option String) :
    Cabled (t.ensureRouter name) made := by
  rcases Topology.ensureRouter_cases t name with ⟨heq, -⟩ | ⟨hnew, heq⟩
  · rwa [heq]
  · have hmem : ∀ c ∈ made, c.router ∈ (t.ensureRouter name).routerNames := fun c hc =>
      Topology.mem_routerNames_ensureRouter_iff.mpr (.inl (h.router_mem c hc))
    rw [heq] at hmem ⊢
    refine ⟨h.refers, h.referred, h.apart, hmem, fun r hr => ?_, h.named⟩
    rcases List.mem_append.mp hr with hr | hr
    · exact h.outgoing r hr
    · -- no link was made at a router that is new
      have hnone : made.filter (·.router = name) = [] := by
        refine List.filter_eq_nil_iff.mpr fun c hc hname => hnew ?_
        exact of_decide_eq_true hname ▸ h.router_mem c hc
      rw [List.mem_singleton.mp hr, hnone]
      rfl

lemma Cabled.addInterface (h : Cabled t made) (router name : Option String) :
    Cabled (t.addInterface router name).1 made := by
  refine ⟨fun c hc i hi => ?_, fun i x l hx hl => ?_, h.apart, ?_, fun r' hr' => ?_,
    h.named_of_keeps (Topology.keeps_addInterface t router name)⟩
  · obtain ⟨x, hx, hl⟩ := h.refers c hc i hi
    exact ⟨x, (Topology.interface?_addInterface (Topology.lt_of_interface? hx)).trans hx, hl⟩
  · -- the new interface is free
    by_cases hi : i < t.interfaces.length
    · exact h.referred i x l (Topology.interface?_addInterface hi ▸ hx) hl
    · have hlast : i = t.interfaces.length := by
        have hlength : (t.addInterface router name).1.interfaces.length =
            t.interfaces.length + 1 := List.length_append
        have hlt := Topology.lt_of_interface? hx
        rw [hlength] at hlt
        exact Nat.le_antisymm (Nat.lt_succ_iff.mp hlt) (Nat.not_lt.mp hi)
      subst hlast
      obtain rfl := Option.some.inj (Topology.interface?_addInterface_self.symm.trans hx)
      exact absurd hl (by simp)
  · rw [Topology.routerNames_addInterface]
    exact h.router_mem
  · obtain ⟨r, hr, rfl⟩ := List.mem_map.mp hr'
    split <;> exact h.outgoing r hr

/-- A free interface is not an end of any link. -/
lemma Cabled.not_hasEnd_of_free (h : Cabled t made) {i : InterfaceId} (hi : t.Free i)
    {c : Connection} (hc : c ∈ made) : ¬ c.link.HasEnd i := by
  intro hend
  obtain ⟨x, hx, hfree⟩ := hi
  obtain ⟨y, hy, hl⟩ := h.refers c hc i hend
  obtain rfl := Option.some.inj (hx.symm.trans hy)
  exact absurd (hl.symm.trans hfree) (by simp)

/-- A link between free interfaces comes behind those that were made. -/
lemma Cabled.joined (h : Cabled t made) (hrouter : router ∈ t.routerNames)
    (hsource : t.Free l.source) (htarget : t.Free l.target) :
    Cabled (t.joined router l)
      (made ++ [⟨router, l, endpointOf t l.source, endpointOf t l.target⟩]) := by
  have hkeeps := Topology.keeps_joined t router l
  have hfree : ∀ i, l.HasEnd i → t.Free i := by
    rintro i (rfl | rfl)
    · exact hsource
    · exact htarget
  have hapart : ∀ c ∈ made, ∀ i, c.link.HasEnd i → ¬ l.HasEnd i :=
    fun c hc i hi hl => h.not_hasEnd_of_free (hfree i hl) hc hi
  refine ⟨fun c hc i hi => ?_, fun i z m hz hm => ?_, ?_, fun c hc => ?_, fun r' hr' => ?_,
    fun c hc => ?_⟩
  · rcases List.mem_append.mp hc with hc | hc
    · obtain ⟨z, hz, hl⟩ := h.refers c hc i hi
      exact ⟨z, (Topology.interface?_joined_of_not_hasEnd (hapart c hc i hi)).trans hz, hl⟩
    · rw [List.mem_singleton.mp hc] at hi ⊢
      obtain ⟨z, hz, -⟩ := hfree i hi
      exact ⟨_, Topology.interface?_joined_of_hasEnd hi hz, rfl⟩
  · by_cases hi : l.HasEnd i
    · obtain ⟨y, hy, -⟩ := hfree i hi
      obtain rfl :=
        Option.some.inj ((Topology.interface?_joined_of_hasEnd hi hy).symm.trans hz)
      obtain rfl := Option.some.inj hm
      exact ⟨hi, _, List.mem_append_right _ (List.mem_singleton_self _), rfl⟩
    · rw [Topology.interface?_joined_of_not_hasEnd hi] at hz
      obtain ⟨hend, c, hc, hl⟩ := h.referred i z m hz hm
      exact ⟨hend, c, List.mem_append_left _ hc, hl⟩
  · refine List.pairwise_append.mpr
      ⟨h.apart, List.pairwise_singleton _ _, fun c hc c' hc' i hi => ?_⟩
    rw [List.mem_singleton.mp hc']
    exact hapart c hc i hi
  · rw [Topology.routerNames_joined]
    rcases List.mem_append.mp hc with hc | hc
    · exact h.router_mem c hc
    · rwa [List.mem_singleton.mp hc]
  · obtain ⟨r, hr, rfl⟩ := List.mem_map.mp hr'
    rw [List.filter_append, List.map_append]
    by_cases hname : r.name = router
    · simp [hname, h.outgoing r hr]
    · simp [hname, Ne.symm hname, h.outgoing r hr]
  · rcases List.mem_append.mp hc with hc | hc
    · exact h.named_of_keeps hkeeps c hc
    · rw [List.mem_singleton.mp hc]
      obtain ⟨x, hx, -⟩ := hsource
      obtain ⟨y, hy, -⟩ := htarget
      exact ⟨endpointOf_of_keeps hkeeps hx, endpointOf_of_keeps hkeeps hy⟩

/-! ### Calls one after the other -/

/-- A call that answers no link makes none. -/
lemma connection_eq_nil (h : answer = .ok none ∨ ∃ f, answer = .error f) :
    c.connection t answer = [] := by
  rcases h with rfl | ⟨f, rfl⟩ <;> cases c <;> rfl

/-- No call comes between a link and its ends. -/
lemma Cabled.perform (h : Cabled t made) (ht : t.Registered)
    (hperform : c.perform.run.run t = (answer, t')) :
    t'.Registered ∧ Cabled t' (made ++ c.connection t answer) := by
  rcases perform_cases ht hperform with ⟨rfl, hanswer⟩ | ⟨hanswer, name, rfl⟩ |
    ⟨hanswer, router, hrouter, name, rfl⟩ | ⟨router, source, target, l, rfl, rfl, hrouter, hl⟩
  · rw [connection_eq_nil hanswer, List.append_nil]
    exact ⟨ht, h⟩
  · rw [connection_eq_nil (.inl hanswer), List.append_nil]
    exact ⟨ht.ensureRouter name, h.ensureRouter name⟩
  · rw [connection_eq_nil (.inl hanswer), List.append_nil]
    exact ⟨ht.addInterface hrouter name, h.addInterface router name⟩
  · obtain ⟨hsource, htarget, rfl⟩ := hl
    exact ⟨ht.joined router l, h.joined hrouter hsource htarget⟩

lemma Cabled.play (h : Cabled t made) (ht : t.Registered) (cs : List Call) :
    (play t cs).1.Registered ∧ Cabled (play t cs).1 (made ++ (play t cs).2) := by
  induction cs generalizing t made with
  | nil => exact ⟨ht, (List.append_nil made).symm ▸ h⟩
  | cons c cs ih =>
      obtain ⟨ht', h'⟩ := h.perform (c := c) ht rfl
      rw [play_cons rfl, ← List.append_assoc]
      exact ih h' ht'

/-- What is found from an interface at a router is the link that was made there. -/
lemma Cabled.linkFrom?_eq_some_iff (h : Cabled t made) (ht : t.Registered) {i : InterfaceId} :
    t.linkFrom? router i = some l ↔
      ∃ c ∈ made, c.router = router ∧ c.link = l ∧ l.source = i := by
  rw [Topology.linkFrom?, Option.bind_eq_bind, Option.bind_eq_some_iff]
  -- the links at a router are those that were made there
  have hmem : ∀ {r m}, r ∈ t.routers → (m ∈ r.links ↔ ∃ c ∈ made, c.router = r.name ∧ c.link = m) :=
    fun hr => by simp [h.outgoing _ hr, and_assoc]
  constructor
  · rintro ⟨r, hrouter, hl⟩
    obtain ⟨hr, rfl⟩ := (Topology.router?_eq_some_iff ht.names_nodup).mp hrouter
    obtain ⟨c, hc, hname, rfl⟩ := (hmem hr).mp (List.mem_of_find?_eq_some hl)
    exact ⟨c, hc, hname, rfl, by simpa using List.find?_some hl⟩
  · rintro ⟨c, hc, rfl, rfl, rfl⟩
    obtain ⟨r, hr, hname⟩ := List.mem_map.mp (h.router_mem c hc)
    refine ⟨r, (Topology.router?_eq_some_iff ht.names_nodup).mpr ⟨hr, hname⟩, ?_⟩
    have hlink := (hmem hr).mpr ⟨c, hc, hname.symm, rfl⟩
    cases hfind : r.links.find? (·.source = c.link.source) with
    | none => exact absurd (List.find?_eq_none.mp hfind _ hlink) (by simp)
    | some m =>
        -- an interface refers to one link
        obtain ⟨c', hc', -, rfl⟩ := (hmem hr).mp (List.mem_of_find?_eq_some hfind)
        have hsource : c'.link.source = c.link.source := by simpa using List.find?_some hfind
        obtain ⟨x, hx, hl⟩ := h.refers c hc _ (.inl rfl)
        obtain ⟨y, hy, hl'⟩ := h.refers c' hc' _ (.inl hsource.symm)
        obtain rfl := Option.some.inj (hx.symm.trans hy)
        exact hl'.symm.trans hl

/-! ### Links of the network -/

/-- Entries under the keys that they have are all entries. -/
lemma flatMap_filter_perm {α κ : Type} [DecidableEq κ] (f : α → κ) {ks : List κ} (hks : ks.Nodup)
    (as : List α) (has : ∀ a ∈ as, f a ∈ ks) :
    (ks.flatMap fun k => as.filter (f · = k)).Perm as := by
  induction ks generalizing as with
  | nil =>
      rw [List.eq_nil_iff_forall_not_mem.mpr fun a ha => absurd (has a ha) List.not_mem_nil]
      rfl
  | cons k ks ih =>
      obtain ⟨hk, hks⟩ := List.nodup_cons.mp hks
      -- under the keys that follow, entries are the same without those of the first key
      have hrest : (ks.flatMap fun k' => as.filter (f · = k')) =
          ks.flatMap fun k' => (as.filter (fun a => ! decide (f a = k))).filter (f · = k') := by
        refine List.flatMap_congr fun k' hk' => ?_
        rw [List.filter_filter]
        refine List.filter_congr fun a _ => ?_
        by_cases hak : f a = k'
        · simp [hak, ne_of_mem_of_not_mem hk' hk]
        · simp [hak]
      have hperm := ih hks (as.filter (fun a => ! decide (f a = k))) fun a ha => by
        obtain ⟨ha, hne⟩ := List.mem_filter.mp ha
        exact (List.mem_cons.mp (has a ha)).resolve_left (by simpa using hne)
      rw [List.flatMap_cons, hrest]
      exact (hperm.append_left _).trans (List.filter_append_perm _ as)

/-- The links of the network are those that were made, with the names that the ends had. -/
lemma Cabled.linksOf_perm (h : Cabled t made) (ht : t.Registered) :
    (linksOf t).Perm (made.map fun c => ⟨c.source, c.target⟩) := by
  have hlinks : linksOf t = (t.routerNames.flatMap fun name => made.filter (·.router = name)).map
      fun c => ⟨c.source, c.target⟩ := by
    rw [linksOf, Topology.routerNames, List.flatMap_map, List.map_flatMap]
    refine List.flatMap_congr fun r hr => ?_
    rw [h.outgoing r hr, List.map_map]
    refine List.map_congr_left fun c hc => ?_
    have hmem := (List.mem_filter.mp hc).1
    rw [Function.comp_apply, (h.named c hmem).1, (h.named c hmem).2]
  rw [hlinks]
  exact (flatMap_filter_perm _ ht.names_nodup made h.router_mem).map _

/-- **Links stay as they were made.** After any calls, the ends of each link that was made refer to
it and to no other one, and each router has the links that were made at it and finds them from
their first ends. A link that is asked for is made between the interfaces that are given, or nothing
is changed, and it is made if both are free. Later calls keep all links, and the network has one for
each of them, with the names that its ends had. -/
theorem play_cabled {calls : List Call} (h : play .empty calls = (t, made)) :
    Cabled t made ∧
    (∀ router i l, t.linkFrom? router i = some l ↔
      ∃ c ∈ made, c.router = router ∧ c.link = l ∧ l.source = i) ∧
    (∀ router source target,
      (∃ f, (Call.connect router source target).perform.run.run t = (.error f, t)) ∨
      ∃ l, (Call.connect router source target).perform.run.run t =
          (.ok (some l), t.joined router l) ∧
        t.given router source = .ok l.source ∧ target = some (.made l.target) ∧
        play .empty (calls ++ [.connect router source target]) = (t.joined router l,
          made ++ [⟨router, l, endpointOf t l.source, endpointOf t l.target⟩])) ∧
    (∀ router source i j, router ∈ t.routerNames → t.given router source = .ok i → t.Free i →
      t.Free j → (Call.connect router source (some (.made j))).perform.run.run t =
        (.ok (some ⟨i, j⟩), t.joined router ⟨i, j⟩)) ∧
    (∀ more, made <+: (play .empty (calls ++ more)).2) ∧
    (∃ n, (Dump.ofTopology t).toNetwork = .ok n) ∧
    ∀ (d : Dump) n, d.topology = t → d.toNetwork = .ok n →
      n.links.Perm (made.map fun c => ⟨c.source, c.target⟩) := by
  obtain ⟨ht, hcabled⟩ := cabled_empty.play Topology.registered_empty calls
  rw [h] at ht hcabled
  refine ⟨hcabled, fun router i l => hcabled.linkFrom?_eq_some_iff ht,
    fun router source target => ?_, fun router source i j => run_connect_of_free,
    fun more => ?_, ⟨_, rfl⟩, fun d n hd hn => ?_⟩
  · rcases run_connect_cases ht router source target with hf | ⟨l, hl, -, hsource, htarget, -⟩
    · exact .inl hf
    · refine .inr ⟨l, hl, hsource, htarget, ?_⟩
      rw [play_append, h, play_cons hl]
      rfl
  · rw [play_append, h]
    exact List.prefix_append made _
  · obtain ⟨tables, -, hn⟩ := exists_of_bind_eq_ok hn
    obtain rfl := Except.ok.inj hn
    exact hd ▸ hcabled.linksOf_perm ht

/-- An interface takes the name of another one that has a link, and gets a link of its own. The
calls between fail: an end is missing, and another one is taken. -/
def renewed : List Call :=
  [.ensureRouter (some "A"), .ensureRouter (some "B"), .addInterface (some "A") (some "i"),
    .ensureInterface (some "B") (some "j"), .connect (some "A") (.named "i") (some (.made 1)),
    .connect (some "B") (.named "j") none, .addInterface (some "A") (some "i"),
    .connect (some "A") (.named "i") (some (.made 1)), .addInterface (some "B") (some "j"),
    .connect (some "B") (.made 2) (some (.made 3))]

theorem play_cabled_renewed :
    (play .empty renewed).2 =
      [⟨some "A", ⟨0, 1⟩, ⟨routerId (some "A"), some "i"⟩, ⟨routerId (some "B"), some "j"⟩⟩,
        ⟨some "B", ⟨2, 3⟩, ⟨routerId (some "A"), some "i"⟩, ⟨routerId (some "B"), some "j"⟩⟩] ∧
    Cabled (play .empty renewed).1 (play .empty renewed).2 ∧
    ∃ n, (Dump.ofTopology (play .empty renewed).1).toNetwork = .ok n ∧
      n.links.Perm ((play .empty renewed).2.map fun c => ⟨c.source, c.target⟩) := by
  obtain ⟨hcabled, -, -, -, -, ⟨n, hn⟩, hlinks⟩ := play_cabled (rfl : play .empty renewed = (_, _))
  exact ⟨by decide +kernel, hcabled, n, hn, hlinks _ n rfl hn⟩

end MplsReach.Dump
