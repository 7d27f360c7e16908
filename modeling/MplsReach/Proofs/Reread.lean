/-
Networks that are written and read again.

* `Network.AsRead`: what all networks have in common that are read from documents.
* `Carries`: an element is read as something.
* `Network.Kept`: what stays of a network; `Table.Kept`: destinations that are told apart by what is
  written of them stay one by one.
* `Network.kept_of_write`: **a network that is written can be read again**, and all of it stays but
  actions that do nothing.
-/
import Mathlib.Data.List.Nodup
import MplsReach.Network.Writer
import MplsReach.Proofs.Grounded
import MplsReach.Proofs.Markup

namespace MplsReach

open Xml (Element Node)
open Xml.Scan (Sound sound_nil)

/-! ### Attributes -/

lemma attribute_eq_ok {name s : String} {a : String × String} (h : Xml.attribute name s = .ok a) :
    a = (name, s) ∧ ∀ x ∈ s.toList, Xml.isDocumentChar x = true := by
  rw [Xml.attribute] at h
  split at h
  next hall => exact ⟨(Except.ok.inj h).symm, List.all_eq_true.mp hall⟩
  next => cases h

lemma written_eq_ok {name : String} {s? : Option String} {a : String × String}
    (h : written name s? = .ok a) :
    ∃ s, s? = some s ∧ a = (name, s) ∧ ∀ x ∈ s.toList, Xml.isDocumentChar x = true := by
  cases s? with
  | none => cases h
  | some s =>
      obtain ⟨ha, hs⟩ := attribute_eq_ok h
      exact ⟨s, rfl, ha, hs⟩

/-- Attributes with these names can be read back. -/
lemma sound_of_names {as : List (String × String)} (names : List String)
    (has : as.map Prod.fst = names)
    (hnames : ∀ n ∈ names, Xml.isPlainName n.toList = true ∧ n ≠ "xmlns") (hnodup : names.Nodup)
    (hvalues : ∀ a ∈ as, ∀ x ∈ a.2.toList, Xml.isDocumentChar x = true) : Sound as where
  names a ha := hnames a.1 (has ▸ List.mem_map_of_mem ha)
  values := hvalues
  nodup := has ▸ hnodup

/-! ### Elements -/

section

variable {α β : Type} {tag name : String} {d : ℕ} {read : Node → Except Fault β} {e : Element}
  {b : β}

/-- An element of a name and a depth can be written, and is read as something. -/
structure Carries (tag : String) (d : ℕ) (read : Node → Except Fault β) (e : Element) (b : β) :
    Prop where
  writable : e.Writable d
  named : e.node.isNamed tag = true
  reads : read e.node = .ok b

/-- What is read from elements stands to what they were written from as each one does. -/
lemma exists_forall₂_of_mapM {ε γ : Type} {f : α → Except ε β} {P : β → γ → Prop}
    {Q : α → γ → Prop} {as : List α} {bs : List β} (h : as.mapM f = .ok bs)
    (hf : ∀ a ∈ as, ∀ b, f a = .ok b → ∃ c, P b c ∧ Q a c) :
    ∃ cs, List.Forall₂ P bs cs ∧ List.Forall₂ Q as cs := by
  induction as generalizing bs with
  | nil =>
      obtain rfl : [] = bs := Except.ok.inj h
      exact ⟨[], .nil, .nil⟩
  | cons a as ih =>
      obtain ⟨b, bs, hb, hbs, rfl⟩ := mapM_cons_eq_ok_iff.mp h
      obtain ⟨ha, has⟩ := List.forall_mem_cons.mp hf
      obtain ⟨c, hP, hQ⟩ := ha b hb
      obtain ⟨cs, hPs, hQs⟩ := ih hbs has
      exact ⟨c :: cs, .cons hP hPs, .cons hQ hQs⟩

lemma map_eq_of_forall₂ {γ δ : Type} {Q : α → γ → Prop} {f : α → δ} {g : γ → δ} {as : List α}
    {cs : List γ} (h : List.Forall₂ Q as cs) (hQ : ∀ a c, Q a c → g c = f a) :
    cs.map g = as.map f := by
  induction h with
  | nil => rfl
  | cons h _ ih => rw [List.map_cons, List.map_cons, hQ _ _ h, ih]

/-- Elements that are read one by one. -/
lemma carries_all {es : List Element} {bs : List β} (h : List.Forall₂ (Carries tag d read) es bs) :
    (∀ e ∈ es, e.Writable d) ∧ (Element.nodes es).filter (·.isNamed tag) = Element.nodes es ∧
      (Element.nodes es).mapM read = .ok bs := by
  induction h with
  | nil => exact ⟨by simp, rfl, rfl⟩
  | @cons e b es bs he _ ih =>
      refine ⟨List.forall_mem_cons.mpr ⟨he.writable, ih.1⟩, ?_, ?_⟩
      · rw [Element.nodes, List.filter_cons_of_pos he.named, ih.2.1]
      · exact mapM_cons_eq_ok_iff.mpr ⟨b, bs, he.reads, ih.2.2, rfl⟩

/-- An element around others of one name. -/
lemma carries_group (hname : Xml.isPlainName name.toList = true) {es : List Element} {bs : List β}
    (h : List.Forall₂ (Carries tag d read) es bs) :
    Carries name (d + 1) (fun node => (node.findAll tag).mapM read) (.mk name [] es) bs := by
  obtain ⟨hwritable, hfilter, hreads⟩ := carries_all h
  refine ⟨.mk hname sound_nil hwritable, ?_, ?_⟩
  · simp [Element.node, Node.isNamed]
  · rw [Node.findAll, Element.node, Node.children, hfilter]
    exact hreads

lemma carries_of_reads {as : List (String × String)} {es : List Element}
    (htag : Xml.isPlainName tag.toList = true) (has : Sound as) (hes : ∀ e ∈ es, e.Writable d)
    (h : read (Element.mk tag as es).node = .ok b) : Carries tag (d + 1) read (.mk tag as es) b :=
  ⟨.mk htag has hes, by simp [Element.node, Node.isNamed], h⟩

lemma attribute?_head (tag name value : String) (as : List (String × String)) (es : List Element) :
    (Element.mk tag ((name, value) :: as) es).node.attribute? name = some value := by
  simp [Element.node, Node.attribute?]

/-- The only child of an element. -/
lemma Carries.part_eq (h : Carries name d read e b) (as : List (String × String)) :
    part (Element.mk tag as [e]).node name = .ok e.node := by
  simp [part, Node.find?, Node.children, Element.node, Element.nodes, h.named]

end

/-! ### Topology -/

/-- A router with the same interfaces. -/
structure Router.Kept (r r' : Router) : Prop where
  id : r'.id = r.id
  interfaces : r'.interfaces.map (·.name) = r.interfaces.map (·.name)

lemma Router.Kept.hasInterface {r r' : Router} (h : r.Kept r') (i : Option String) :
    r'.hasInterface i = r.hasInterface i := by
  have hany (r : Router) : r.hasInterface i = (r.interfaces.map (·.name)).any (· = i) := by
    rw [List.any_map]
    rfl
  rw [hany, hany, h.interfaces]

/-- Interfaces with different names are all added. -/
lemma foldl_addInterface {r : Router} {is : List Interface}
    (h : ((r.interfaces ++ is).map (·.name)).Nodup) :
    is.foldl Router.addInterface r = { r with interfaces := r.interfaces ++ is } := by
  induction is generalizing r with
  | nil => simp
  | cons i is ih =>
      have hnew : r.hasInterface i.name = false := by
        rw [List.map_append, List.map_cons, List.nodup_append] at h
        rw [Router.hasInterface, List.any_eq_false]
        intro j hj hname
        exact h.2.2 _ (List.mem_map_of_mem hj) _ List.mem_cons_self (of_decide_eq_true hname)
      have hadd : r.addInterface i = { r with interfaces := r.interfaces ++ [i] } := by
        rw [Router.addInterface, if_neg (by simp [hnew])]
      rw [List.foldl_cons, hadd, ih (by simpa using h)]
      simp

lemma Interface.exists_carries {i : Interface} {e : Element}
    (h : (do pure (Element.mk "interface" [← written "name" i.name] [])) = Except.ok e) :
    ∃ j : Interface, Carries "interface" 1 (fun node =>
      pure ⟨node.attribute? "name", node.attribute? "external" = some "yes"⟩) e j ∧
        j.name = i.name := by
  obtain ⟨a, ha, h⟩ := exists_of_bind_eq_ok h
  obtain ⟨s, hs, rfl, hchars⟩ := written_eq_ok ha
  obtain rfl := Except.ok.inj h
  refine ⟨⟨some s, false⟩, carries_of_reads (by decide) ?_ (by simp) rfl, hs.symm⟩
  exact sound_of_names ["name"] rfl (by decide) (by decide) (by simpa using hchars)

/-- A router is read as it is written. -/
lemma Router.exists_carries {r : Router} {e : Element} (h : r.element = .ok e)
    (hcopy : r.id.copy = "") (hnodup : (r.interfaces.map (·.name)).Nodup) :
    ∃ r', Carries "router" 3 Router.read e r' ∧ r.Kept r' := by
  obtain ⟨a, ha, h⟩ := exists_of_bind_eq_ok h
  obtain ⟨es, hes, h⟩ := exists_of_bind_eq_ok h
  obtain rfl := Except.ok.inj h
  obtain ⟨s, hs, rfl, hchars⟩ := written_eq_ok ha
  obtain ⟨is, hcarries, hnames⟩ := exists_forall₂_of_mapM hes fun i _ e he =>
    Interface.exists_carries he
  have hgroup : Carries "interfaces" 2 _ (.mk "interfaces" [] es) is :=
    carries_group (by decide) hcarries
  have hread := hgroup.reads
  rw [List.mapM_pure] at hread
  have hread := Except.ok.inj hread
  have hnames := map_eq_of_forall₂ hnames fun _ _ h => h
  have hid : r.id = ⟨"", some s⟩ := by
    obtain ⟨⟨copy, base⟩, interfaces⟩ := r
    obtain rfl : copy = "" := hcopy
    exact congrArg (RouterId.mk "") hs
  refine ⟨⟨r.id, is⟩, carries_of_reads (by decide) ?_ (by simpa using hgroup.writable) ?_, rfl,
    hnames⟩
  · exact sound_of_names ["name"] rfl (by decide) (by decide) (by simpa using hchars)
  · have hfold : is.foldl Router.addInterface ⟨⟨"", some s⟩, []⟩ = ⟨⟨"", some s⟩, is⟩ :=
      foldl_addInterface (by simpa [hnames] using hnodup)
    subst hread
    rw [List.foldl_map] at hfold
    rw [Router.read, hgroup.part_eq, hid]
    exact congrArg Except.ok hfold

/-- Routers are found under their names. -/
lemma Router.Kept.exists_get? {routers routers' : List Router}
    (h : List.Forall₂ Router.Kept routers routers') (hnodup : (routers.map Router.name).Nodup)
    {r : Router} (hr : r ∈ routers) :
    ∃ r', Dictionary.get? Router.name r.name routers' = some r' ∧ r.Kept r' := by
  induction h with
  | nil => exact absurd hr List.not_mem_nil
  | @cons q q' routers routers' hq _ ih =>
      have hname : q'.name = q.name := congrArg RouterId.name hq.id
      rw [List.map_cons, List.nodup_cons] at hnodup
      rcases List.mem_cons.mp hr with rfl | hr
      · exact ⟨q', List.find?_cons_of_pos (by simpa using hname), hq⟩
      · obtain ⟨r', hget, hkept⟩ := ih hnodup.2 hr
        refine ⟨r', ?_, hkept⟩
        rw [← hget]
        refine List.find?_cons_of_neg ?_
        intro heq
        rw [decide_eq_true_eq, hname] at heq
        exact hnodup.1 (heq ▸ List.mem_map_of_mem hr)

section

variable {routers : List Router} {e : Element}

/-- An endpoint that is found under the names of its router and interface. -/
def Endpoint.Found (routers : List Router) (p : Endpoint) : Prop :=
  ∃ r, Dictionary.get? Router.name p.router.name routers = some r ∧ r.id = p.router ∧
    r.hasInterface p.interface = true

/-- One side of a link is read as it is written. -/
lemma Endpoint.carries {p : Endpoint} (h : p.element = .ok e) (hp : p.Found routers) :
    Carries "shared_interface" 1 (Endpoint.read routers) e p := by
  obtain ⟨a, ha, h⟩ := exists_of_bind_eq_ok h
  obtain ⟨b, hb, h⟩ := exists_of_bind_eq_ok h
  obtain rfl := Except.ok.inj h
  obtain ⟨s, hs, rfl, hrouter⟩ := written_eq_ok ha
  obtain ⟨i, hi, rfl, hinterface⟩ := written_eq_ok hb
  refine carries_of_reads (by decide) ?_ (by simp) ?_
  · exact sound_of_names ["router", "interface"] rfl (by decide) (by decide)
      (List.forall_mem_cons.mpr ⟨hrouter, by simpa using hinterface⟩)
  · obtain ⟨r, hget, hid, hhas⟩ := hp
    have hinterface : (Element.mk "shared_interface" [("router", s), ("interface", i)]
        []).node.attribute? "interface" = p.interface := hi.symm
    simp only [Endpoint.read, attribute?_head, ← hs, hinterface, hget, hhas, if_true, hid]
    rfl

/-- A link is read with its sides swapped. -/
lemma Link.carries {l : Link} (h : l.element = .ok e) (hsource : l.source.Found routers)
    (htarget : l.target.Found routers) :
    Carries "link" 3 (Link.read routers) e ⟨l.target, l.source⟩ := by
  obtain ⟨target, ht, h⟩ := exists_of_bind_eq_ok h
  obtain ⟨source, hs, h⟩ := exists_of_bind_eq_ok h
  obtain rfl := Except.ok.inj h
  have hgroup : Carries "sides" 2 _ (.mk "sides" [] [target, source]) [l.target, l.source] :=
    carries_group (by decide)
      (.cons (Endpoint.carries ht htarget) (.cons (Endpoint.carries hs hsource) .nil))
  refine carries_of_reads (by decide) sound_nil (by simpa using hgroup.writable) ?_
  rw [Link.read, hgroup.part_eq]
  have hread := hgroup.reads
  simp only [bind, Except.bind] at hread ⊢
  rw [hread]
  rfl

end

/-! ### Actions -/

/-- A label that some written argument stands for. -/
def Label.IsArgument (l : Label) : Prop := ∃ a, Label.ofArgument a = l

/-- A label that is there is written by its name. -/
lemma Label.IsArgument.ofArgument_name {l : Label} (h : l.IsArgument) (hnamed : l.isNamed = true) :
    Label.ofArgument (some l.name) = l := by
  obtain ⟨a, rfl⟩ := h
  unfold Label.ofArgument at hnamed ⊢
  split at hnamed
  · exact absurd hnamed Bool.false_ne_true
  · exact absurd hnamed Bool.false_ne_true
  · exact absurd hnamed Bool.false_ne_true
  · simp only [Label.name]

/-- An action with the same label, if it has one that is there. -/
inductive Action.Kept : Action → Action → Prop where
  | push {l l' : Label} : (l.isNamed = true → l' = l) → Kept (.push l) (.push l')
  | swap {l l' : Label} : (l.isNamed = true → l' = l) → Kept (.swap l) (.swap l')
  | pop : Kept .pop .pop

/-- An action with an argument is read as it is written. -/
lemma carries_action {kind arg : String} {a : String × String}
    (hkind : kind = "push" ∨ kind = "swap") (ha : Xml.attribute "arg" arg = .ok a) :
    Carries "action" 1 (fun node => pure (Action.read node)) (.mk "action" [("type", kind), a] [])
      (if kind = "push" then .push (.ofArgument (some arg))
        else .swap (.ofArgument (some arg))) := by
  obtain ⟨rfl, hchars⟩ := attribute_eq_ok ha
  have hsound : Sound [("type", kind), ("arg", arg)] := by
    refine sound_of_names ["type", "arg"] rfl (by decide) (by decide)
      (List.forall_mem_cons.mpr ⟨?_, by simpa using hchars⟩)
    rcases hkind with rfl | rfl <;> exact List.all_eq_true.mp (by decide)
  refine carries_of_reads (by decide) hsound (by simp) ?_
  rcases hkind with rfl | rfl <;> rfl

/-- An action that is written is read again. -/
lemma Action.exists_carries {a : Action} {e : Element} (h : a.element? = .ok (some e))
    (hlabel : ∀ l ∈ a.label?, l.IsArgument) :
    ∃ b, Carries "action" 1 (fun node => pure (Action.read node)) e b ∧ a.Kept b := by
  cases a with
  | push l =>
      obtain ⟨x, hx, h⟩ := exists_of_bind_eq_ok h
      obtain rfl := Option.some.inj (Except.ok.inj h)
      exact ⟨_, carries_action (.inl rfl) hx, .push (hlabel l rfl).ofArgument_name⟩
  | swap l =>
      obtain ⟨x, hx, h⟩ := exists_of_bind_eq_ok h
      obtain rfl := Option.some.inj (Except.ok.inj h)
      exact ⟨_, carries_action (.inr rfl) hx, .swap (hlabel l rfl).ofArgument_name⟩
  | pop =>
      obtain rfl := Option.some.inj (Except.ok.inj h)
      refine ⟨.pop, carries_of_reads (by decide) ?_ (by simp) rfl, .pop⟩
      exact sound_of_names ["type"] rfl (by decide) (by decide)
        (List.forall_mem_singleton.mpr (List.all_eq_true.mp (by decide)))
  | noop => exact absurd (Except.ok.inj h) (by simp)
  | unknown => cases h

lemma Action.eq_noop_of_element? {a : Action} (h : a.element? = .ok none) : a = .noop := by
  cases a with
  | push l =>
      obtain ⟨x, -, h⟩ := exists_of_bind_eq_ok h
      exact absurd (Except.ok.inj h) (by simp)
  | swap l =>
      obtain ⟨x, -, h⟩ := exists_of_bind_eq_ok h
      exact absurd (Except.ok.inj h) (by simp)
  | pop => exact absurd (Except.ok.inj h) (by simp)
  | noop => rfl
  | unknown => cases h

/-- Actions are read again in order, but for those that do nothing. -/
lemma Action.exists_carries_all {as : List Action} {es : List (Option Element)}
    (h : as.mapM Action.element? = .ok es) (hlabels : ∀ a ∈ as, ∀ l ∈ a.label?, l.IsArgument) :
    ∃ bs, List.Forall₂ (Carries "action" 1 fun node => pure (Action.read node))
        (es.filterMap id) bs ∧
      List.Forall₂ Action.Kept (as.filter (· ≠ .noop)) bs := by
  induction as generalizing es with
  | nil =>
      obtain rfl : [] = es := Except.ok.inj h
      exact ⟨[], .nil, .nil⟩
  | cons a as ih =>
      obtain ⟨e?, es, he, hes, rfl⟩ := mapM_cons_eq_ok_iff.mp h
      obtain ⟨ha, has⟩ := List.forall_mem_cons.mp hlabels
      obtain ⟨bs, hcarries, hkept⟩ := ih hes has
      cases e? with
      | none =>
          obtain rfl := Action.eq_noop_of_element? he
          exact ⟨bs, hcarries, hkept⟩
      | some e =>
          have hne : a ≠ .noop := by
            rintro rfl
            cases he
          obtain ⟨b, hb, hab⟩ := Action.exists_carries he ha
          refine ⟨b :: bs, .cons hb hcarries, ?_⟩
          rw [List.filter_cons_of_pos (by simpa using hne)]
          exact .cons hab hkept

/-! ### Rules -/

/-- A rule with the same target and actions. -/
structure Rule.Kept (r r' : Rule) : Prop where
  target : r'.target = r.target
  actions : List.Forall₂ Action.Kept (r.actions.filter (· ≠ .noop)) r'.actions

/-- A rule of a router that can be read. -/
structure Rule.AsRead (router : Router) (r : Rule) : Prop where
  target : router.hasInterface r.target = true
  labels : ∀ a ∈ r.actions, ∀ l ∈ a.label?, l.IsArgument

section

variable {router : Router} {e : Element}

/-- A rule is read again. -/
lemma Rule.exists_carries {r : Rule} (h : r.element = .ok e) (hr : r.AsRead router) :
    ∃ r', Carries "route" 3 (Rule.read router) e r' ∧ r.Kept r' := by
  obtain ⟨a, ha, h⟩ := exists_of_bind_eq_ok h
  obtain ⟨es, hes, h⟩ := exists_of_bind_eq_ok h
  obtain rfl := Except.ok.inj h
  obtain ⟨s, hs, rfl, hchars⟩ := written_eq_ok ha
  obtain ⟨bs, hcarries, hkept⟩ := Action.exists_carries_all hes hr.labels
  have hgroup : Carries "actions" 2 _ (.mk "actions" [] (es.filterMap id)) bs :=
    carries_group (by decide) hcarries
  refine ⟨⟨r.target, bs⟩, carries_of_reads (by decide) ?_ (by simpa using hgroup.writable) ?_, rfl,
    hkept⟩
  · exact sound_of_names ["to"] rfl (by decide) (by decide) (by simpa using hchars)
  · have hread := hgroup.reads
    rw [List.mapM_pure] at hread
    simp only [Rule.read, attribute?_head, ← hs, hr.target, hgroup.part_eq]
    rw [if_neg (by simp), ← Except.ok.inj hread]
    rfl

/-- A group is read again. -/
lemma Group.exists_carries {g : Group} (h : g.element = .ok e) (hg : ∀ r ∈ g, r.AsRead router) :
    ∃ g' : Group, Carries "te-group" 5 (Group.read router) e g' ∧ List.Forall₂ Rule.Kept g g' := by
  obtain ⟨es, hes, h⟩ := exists_of_bind_eq_ok h
  obtain rfl := Except.ok.inj h
  obtain ⟨rs, hcarries, hkept⟩ := exists_forall₂_of_mapM hes fun r hr _ he =>
    Rule.exists_carries he (hg r hr)
  have hgroup : Carries "routes" 4 _ (.mk "routes" [] es) rs := carries_group (by decide) hcarries
  refine ⟨rs, carries_of_reads (by decide) sound_nil
    (by simpa using hgroup.writable) ?_, hkept⟩
  rw [Group.read, hgroup.part_eq]
  exact hgroup.reads

/-! ### Destinations -/

/-- A destination with the same interface and label, and the same groups of rules. -/
structure Destination.Kept (d d' : Destination) : Prop where
  source : d'.source = d.source
  label : d'.label.name? = d.label.name?
  groups : List.Forall₂ (List.Forall₂ Rule.Kept) d.groups d'.groups

/-- A destination of a router that can be read. -/
structure Destination.AsRead (router : Router) (d : Destination) : Prop where
  source : router.hasInterface d.source = true
  label : d.label.IsArgument
  rules : ∀ r ∈ d.rules, r.AsRead router

/-- Labels are written by their names, and absent ones as empty ones. -/
lemma Label.IsArgument.name?_ofArgument {l : Label} (h : l.IsArgument) :
    (Label.ofArgument (some (l.name?.getD ""))).name? = l.name? := by
  cases l with
  | named s => exact congrArg Label.name? (h.ofArgument_name rfl)
  | absent a => rfl

/-- A destination that is read again: it stays, and its label is what is read of a name or of an
empty text. -/
structure Destination.Reread (d d' : Destination) : Prop where
  kept : d.Kept d'
  label : d'.label = .ofArgument (some (d.label.name?.getD ""))

/-- A destination is read again. -/
lemma Destination.exists_carries {d : Destination} (h : d.element = .ok e) (hd : d.AsRead router) :
    ∃ d', Carries "destination" 7 (Destination.read router) e d' ∧ d.Reread d' := by
  obtain ⟨a, ha, h⟩ := exists_of_bind_eq_ok h
  obtain ⟨b, hb, h⟩ := exists_of_bind_eq_ok h
  obtain ⟨es, hes, h⟩ := exists_of_bind_eq_ok h
  obtain rfl := Except.ok.inj h
  obtain ⟨s, hs, rfl, hsource⟩ := written_eq_ok ha
  obtain ⟨rfl, hlabel⟩ := attribute_eq_ok hb
  obtain ⟨gs, hcarries, hkept⟩ := exists_forall₂_of_mapM hes fun g hg _ he =>
    Group.exists_carries he fun r hr => hd.rules r (List.mem_flatten.mpr ⟨g, hg, hr⟩)
  have hgroup : Carries "te-groups" 6 _ (.mk "te-groups" [] es) gs :=
    carries_group (by decide) hcarries
  refine ⟨⟨d.source, .ofArgument (some (d.label.name?.getD "")), gs⟩,
    carries_of_reads (by decide) ?_ (by simpa using hgroup.writable) ?_,
    ⟨rfl, hd.label.name?_ofArgument, hkept⟩, rfl⟩
  · exact sound_of_names ["from", "label"] rfl (by decide) (by decide)
      (List.forall_mem_cons.mpr ⟨hsource, by simpa using hlabel⟩)
  · have hread := hgroup.reads
    simp only [Destination.read, attribute?_head, ← hs, hd.source, hgroup.part_eq]
    rw [if_neg (by simp)]
    simp only [bind, Except.bind] at hread ⊢
    rw [hread]
    rfl

end

/-! ### Tables -/

/-- The interface of a destination, and its label as it is written. -/
def Destination.writtenKey (d : Destination) : Option String × Option String :=
  (d.source, d.label.name?)

/-- Whether a destination has a label, or no other one of its interface is without a label, too. -/
def Table.isTold (t : Table) (d : Destination) : Bool :=
  d.label.isNamed || (t.destinations.filter (·.writtenKey = d.writtenKey)).length ≤ 1

/-- A table of the same router. The destinations that are told apart stay one by one. Of those of
one interface that have no label, the last one takes the place of the first one. -/
structure Table.Kept (t t' : Table) : Prop where
  router : t.router.Kept t'.router
  told : List.Forall₂ Destination.Kept (t.destinations.filter t.isTold)
    (t'.destinations.filter t.isTold)
  destinations : List.Forall₂ Destination.Kept
    (Dictionary.putAll Destination.writtenKey [] t.destinations) t'.destinations

/-- A table that can be read. -/
structure Table.AsRead (routers : List Router) (t : Table) : Prop where
  router : t.router ∈ routers
  keys : (t.destinations.map Destination.key).Nodup
  destinations : ∀ d ∈ t.destinations, d.AsRead t.router

lemma Destination.AsRead.of_kept {d : Destination} {r r' : Router} (h : d.AsRead r)
    (hr : r.Kept r') : d.AsRead r' where
  source := (hr.hasInterface _).trans h.source
  label := h.label
  rules x hx := ⟨(hr.hasInterface _).trans (h.rules x hx).target, (h.rules x hx).labels⟩

lemma Label.isNamed_eq (l : Label) : l.isNamed = l.name?.isSome := by cases l <;> rfl

lemma Destination.Kept.writtenKey_eq {d d' : Destination} (h : d.Kept d') :
    d'.writtenKey = d.writtenKey := Prod.ext h.source h.label

/-- Whether a destination is told apart depends on what is written of it. -/
lemma Table.isTold_eq (t : Table) {d d' : Destination} (h : d'.writtenKey = d.writtenKey) :
    t.isTold d' = t.isTold d := by
  have hname : d'.label.name? = d.label.name? := congrArg Prod.snd h
  rw [Table.isTold, Table.isTold, Label.isNamed_eq, Label.isNamed_eq, hname, h]

/-- Destinations with a label have the keys that are written. -/
lemma Destination.key_eq_of_writtenKey_eq {d d' : Destination} (hd : d.label.isNamed = true)
    (h : d.writtenKey = d'.writtenKey) : d.key = d'.key := by
  obtain ⟨hsource, hname⟩ := Prod.mk.inj h
  refine Prod.ext hsource ?_
  show d.label = d'.label
  cases hl : d.label with
  | absent a => simp [hl, Label.isNamed] at hd
  | named s =>
      cases hl' : d'.label with
      | absent a => simp [hl, hl', Label.name?] at hname
      | named s' => simpa [hl, hl', Label.name?] using hname

lemma eq_of_length_le_one {α : Type} {as : List α} (h : as.length ≤ 1) {a b : α} (ha : a ∈ as)
    (hb : b ∈ as) : a = b := by
  obtain ⟨c, rfl⟩ : ∃ c, as = [c] :=
    List.length_eq_one_iff.mp (Nat.le_antisymm h (List.length_pos_of_mem ha))
  rw [List.mem_singleton.mp ha, List.mem_singleton.mp hb]

/-- Destinations that are written alike are one destination when they are read again. -/
lemma Destination.Reread.writtenKey_eq_iff {a b a' b' : Destination} (h : a.Reread b)
    (h' : a'.Reread b') : a.writtenKey = a'.writtenKey ↔ b.key = b'.key := by
  constructor
  · intro heq
    obtain ⟨hsource, hname⟩ := Prod.mk.inj heq
    rw [Destination.key, Destination.key, h.label, h'.label, h.kept.source, h'.kept.source, hsource,
      hname]
  · intro heq
    obtain ⟨hsource, hlabel⟩ := Prod.mk.inj heq
    rw [← h.kept.writtenKey_eq, ← h'.kept.writtenKey_eq, Destination.writtenKey,
      Destination.writtenKey, hsource, hlabel]

/-- What is written of destinations that are told apart is different. -/
lemma Table.AsRead.nodup_told {routers : List Router} {t : Table} (h : t.AsRead routers) :
    ((t.destinations.filter t.isTold).map Destination.writtenKey).Nodup := by
  refine List.Nodup.map_on (fun d hd d' hd' heq => ?_) (h.keys.of_map.filter _)
  obtain ⟨hmem, htold⟩ := List.mem_filter.mp hd
  have hmem' := (List.mem_filter.mp hd').1
  rcases Bool.or_eq_true_iff.mp htold with hnamed | hsingle
  · exact List.inj_on_of_nodup_map h.keys hmem hmem'
      (Destination.key_eq_of_writtenKey_eq hnamed heq)
  · exact eq_of_length_le_one (of_decide_eq_true hsingle) (List.mem_filter.mpr ⟨hmem, by simp⟩)
      (List.mem_filter.mpr ⟨hmem', by simp [heq]⟩)

/-- A table stays if its destinations are read again. -/
lemma Table.AsRead.kept {routers : List Router} {t : Table} (h : t.AsRead routers) {r : Router}
    (hrouter : t.router.Kept r) {ds : List Destination}
    (hds : List.Forall₂ Destination.Reread t.destinations ds) :
    t.Kept ⟨r, Dictionary.putAll Destination.key [] ds⟩ := by
  have hall : List.Forall₂ Destination.Kept
      (Dictionary.putAll Destination.writtenKey [] t.destinations)
      (Dictionary.putAll Destination.key [] ds) :=
    (Dictionary.forall₂_putAll (fun _ _ _ _ h h' => h.writtenKey_eq_iff h') hds .nil).imp
      fun _ _ h => h.kept
  refine ⟨hrouter, ?_, hall⟩
  have htold : (Dictionary.putAll Destination.writtenKey [] t.destinations).filter t.isTold =
      t.destinations.filter t.isTold := by
    rw [Dictionary.filter_putAll (fun _ _ h => t.isTold_eq h) (by simpa using h.nodup_told),
      List.nil_append]
  rw [← htold]
  exact List.rel_filter (fun _ _ h => Bool.eq_iff_iff.mp (t.isTold_eq h.writtenKey_eq).symm) hall

/-- A table is read again. -/
lemma Table.exists_carries {routers routers' : List Router} {t : Table} {e : Element}
    (h : t.element = .ok e) (ht : t.AsRead routers)
    (hrouters : List.Forall₂ Router.Kept routers routers')
    (hnames : (routers.map Router.name).Nodup) :
    ∃ t', Carries "routing" 9 (Table.read routers') e t' ∧ t.Kept t' := by
  obtain ⟨a, ha, h⟩ := exists_of_bind_eq_ok h
  obtain ⟨es, hes, h⟩ := exists_of_bind_eq_ok h
  obtain rfl := Except.ok.inj h
  obtain ⟨s, hs, rfl, hchars⟩ := written_eq_ok ha
  obtain ⟨r', hget, hrouter⟩ := Router.Kept.exists_get? hrouters hnames ht.router
  obtain ⟨ds, hcarries, hreread⟩ := exists_forall₂_of_mapM hes fun d hd _ he =>
    Destination.exists_carries he ((ht.destinations d hd).of_kept hrouter)
  have hgroup : Carries "destinations" 8 _ (.mk "destinations" [] es) ds :=
    carries_group (by decide) hcarries
  refine ⟨⟨r', Dictionary.putAll Destination.key [] ds⟩,
    carries_of_reads (by decide) ?_ (by simpa using hgroup.writable) ?_, ht.kept hrouter hreread⟩
  · exact sound_of_names ["for"] rfl (by decide) (by decide) (by simpa using hchars)
  · have hread := hgroup.reads
    simp only [Table.read, attribute?_head, ← hs, hget, hgroup.part_eq]
    simp only [bind, Except.bind] at hread ⊢
    rw [hread]
    rfl

/-! ### Networks -/

namespace Network

/-- The same routers, the same links with their sides swapped, and the same tables. -/
structure Kept (n m : Network) : Prop where
  routers : List.Forall₂ Router.Kept n.routers m.routers
  links : m.links = n.links.map fun l => ⟨l.target, l.source⟩
  tables : List.Forall₂ Table.Kept n.tables m.tables

/-- What networks have in common that are read from documents. -/
structure AsRead (n : Network) : Prop where
  copies : ∀ r ∈ n.routers, r.id.copy = ""
  interfaces : ∀ r ∈ n.routers, (r.interfaces.map (·.name)).Nodup
  names : (n.routers.map Router.name).Nodup
  links : ∀ l ∈ n.links, l.source ∈ n.endpoints ∧ l.target ∈ n.endpoints
  tables : ∀ t ∈ n.tables, t.AsRead n.routers
  owners : (n.tables.map (·.router.id)).Nodup

lemma found_of_mem_endpoints {n : Network} {routers : List Router}
    (hrouters : List.Forall₂ Router.Kept n.routers routers)
    (hnames : (n.routers.map Router.name).Nodup) {p : Endpoint} (hp : p ∈ n.endpoints) :
    p.Found routers := by
  obtain ⟨r, hr, hp⟩ := List.mem_flatMap.mp hp
  obtain ⟨i, hi, rfl⟩ := List.mem_map.mp hp
  obtain ⟨r', hget, hkept⟩ := Router.Kept.exists_get? hrouters hnames hr
  refine ⟨r', hget, hkept.id, (hkept.hasInterface _).trans ?_⟩
  exact List.any_eq_true.mpr ⟨i, hi, by simp⟩

/-- The topology is read again. -/
lemma exists_readTopology {n : Network} (hn : n.AsRead) {e : Element}
    (h : n.topologyElement = .ok e) : e.Writable 5 ∧ ∃ routers,
      List.Forall₂ Router.Kept n.routers routers ∧ ∀ text, Node.read text = .ok e.node →
        readTopology text = .ok (routers, n.links.map fun l => ⟨l.target, l.source⟩) := by
  obtain ⟨rs, hrs, h⟩ := exists_of_bind_eq_ok h
  obtain ⟨ls, hls, h⟩ := exists_of_bind_eq_ok h
  obtain rfl := Except.ok.inj h
  obtain ⟨routers, hcarries, hkept⟩ := exists_forall₂_of_mapM hrs fun r hr _ he =>
    Router.exists_carries he (hn.copies r hr) (hn.interfaces r hr)
  have hrouters : Carries "routers" 4 _ (.mk "routers" [] rs) routers :=
    carries_group (by decide) hcarries
  obtain ⟨links, hcarriesLinks, hswapped⟩ := exists_forall₂_of_mapM
    (Q := fun l l' => l' = ⟨l.target, l.source⟩) hls fun l hl _ he =>
      ⟨_, Link.carries he (found_of_mem_endpoints hkept hn.names (hn.links l hl).1)
        (found_of_mem_endpoints hkept hn.names (hn.links l hl).2), rfl⟩
  have hlinks : Carries "links" 4 _ (.mk "links" [] ls) links :=
    carries_group (by decide) hcarriesLinks
  have hnames : routers.map Router.name = n.routers.map Router.name :=
    map_eq_of_forall₂ hkept fun _ _ h => congrArg RouterId.name h.id
  have hall : links = n.links.map fun l => ⟨l.target, l.source⟩ := by
    rw [← map_eq_of_forall₂ hswapped fun _ _ h => h, List.map_id']
  refine ⟨.mk (by decide) sound_nil (List.forall_mem_cons.mpr
    ⟨hrouters.writable, by simpa using hlinks.writable⟩), routers, hkept, fun text htext => ?_⟩
  have hread : readRouters (Element.mk "routers" [] rs).node = .ok routers := by
    rw [readRouters, hrouters.reads]
    exact congrArg Except.ok (Dictionary.putAll_eq_append (by simpa [hnames] using hn.names))
  have hfirst : part (Element.mk "network" [] [.mk "routers" [] rs, .mk "links" [] ls]).node
      "routers" = .ok (Element.mk "routers" [] rs).node := rfl
  have hsecond : part (Element.mk "network" [] [.mk "routers" [] rs, .mk "links" [] ls]).node
      "links" = .ok (Element.mk "links" [] ls).node := rfl
  have hlinksRead := hlinks.reads
  rw [readTopology, htext]
  simp only [bind, Except.bind] at hlinksRead ⊢
  simp only [hfirst, hread, hsecond, hlinksRead, hall]
  rfl

/-- The routing is read again. -/
lemma exists_readRouting {n : Network} (hn : n.AsRead) {e : Element}
    (h : n.routingElement = .ok e) {routers : List Router}
    (hrouters : List.Forall₂ Router.Kept n.routers routers) : e.Writable 11 ∧ ∃ tables,
      List.Forall₂ Table.Kept n.tables tables ∧ ∀ text, Node.read text = .ok e.node →
        readRouting routers text = .ok tables := by
  obtain ⟨ts, hts, h⟩ := exists_of_bind_eq_ok h
  obtain rfl := Except.ok.inj h
  obtain ⟨tables, hcarries, hkept⟩ := exists_forall₂_of_mapM hts fun t ht _ he =>
    Table.exists_carries he (hn.tables t ht) hrouters hn.names
  have hgroup : Carries "routings" 10 _ (.mk "routings" [] ts) tables :=
    carries_group (by decide) hcarries
  have howners : tables.map (·.router.id) = n.tables.map (·.router.id) :=
    map_eq_of_forall₂ hkept fun _ _ h => h.router.id
  refine ⟨.mk (by decide) sound_nil (by simpa using hgroup.writable), tables, hkept,
    fun text htext => ?_⟩
  have hread := hgroup.reads
  rw [readRouting, htext]
  simp only [bind, Except.bind] at hread ⊢
  rw [hgroup.part_eq]
  simp only [hread]
  exact congrArg Except.ok (Dictionary.putAll_eq_append (by simpa [howners] using hn.owners))

/-- Documents that are read as what was written are those of a network that has stayed the same. -/
lemma exists_read_of_documents {n : Network} (hn : n.AsRead) {topology routing : Element}
    (h : n.documents = .ok (topology, routing)) :
    topology.Writable 5 ∧ routing.Writable 11 ∧ ∃ m, n.Kept m ∧ ∀ s t,
      Node.read s = .ok topology.node → Node.read t = .ok routing.node →
        Network.read s t = .ok m := by
  obtain ⟨e, he, h⟩ := exists_of_bind_eq_ok h
  obtain ⟨e', he', h⟩ := exists_of_bind_eq_ok h
  obtain ⟨rfl, rfl⟩ := Prod.mk.inj (Except.ok.inj h)
  obtain ⟨htopology, routers, hrouters, hread⟩ := exists_readTopology hn he
  obtain ⟨hrouting, tables, htables, hread'⟩ := exists_readRouting hn he' hrouters
  refine ⟨htopology, hrouting, ⟨routers, _, tables⟩, ⟨hrouters, rfl, htables⟩, fun s t hs ht => ?_⟩
  rw [Network.read, hread s hs]
  simp only [bind, Except.bind, hread' t ht]
  rfl

end Network

/-! ### Networks that are read -/

/-- Interfaces that are added keep their names different. -/
lemma Router.nodup_foldl_addInterface {r : Router} (h : (r.interfaces.map (·.name)).Nodup)
    (is : List Interface) : (is.foldl Router.addInterface r).id = r.id ∧
      ((is.foldl Router.addInterface r).interfaces.map (·.name)).Nodup := by
  induction is generalizing r with
  | nil => exact ⟨rfl, h⟩
  | cons i is ih =>
      have hadd : (r.addInterface i).id = r.id ∧
          ((r.addInterface i).interfaces.map (·.name)).Nodup := by
        rw [Router.addInterface]
        split
        next => exact ⟨rfl, h⟩
        next hnew =>
          refine ⟨rfl, ?_⟩
          simp only [Router.hasInterface, List.any_eq_true, decide_eq_true_eq, not_exists,
            not_and] at hnew
          simp only [List.map_append, List.nodup_append]
          refine ⟨h, by simp, fun x hx y hy hxy => ?_⟩
          obtain ⟨j, hj, rfl⟩ := List.mem_map.mp hx
          exact hnew j hj (hxy.trans (List.mem_singleton.mp hy))
      obtain ⟨hid, hnodup⟩ := ih hadd.2
      exact ⟨hid.trans hadd.1, hnodup⟩

lemma Router.asRead_of_read {node : Node} {r : Router} (h : Router.read node = .ok r) :
    r.id.copy = "" ∧ (r.interfaces.map (·.name)).Nodup := by
  obtain ⟨interfaces, -, h⟩ := exists_of_bind_eq_ok h
  obtain rfl := Except.ok.inj h
  have hadded := Router.nodup_foldl_addInterface (r := ⟨⟨"", node.attribute? "name"⟩, []⟩) (by simp)
    ((interfaces.findAll "interface").map fun i =>
      ⟨i.attribute? "name", i.attribute? "external" = some "yes"⟩)
  rw [List.foldl_map] at hadded
  exact ⟨congrArg RouterId.copy hadded.1, hadded.2⟩

lemma Action.isArgument_of_read (node : Node) : ∀ l ∈ (Action.read node).label?, l.IsArgument := by
  intro l hl
  refine ⟨node.attribute? "arg", ?_⟩
  rw [Action.read] at hl
  split at hl
  · exact Option.some.inj hl
  · exact Option.some.inj hl
  all_goals exact absurd hl (by simp [Action.label?])

lemma Rule.asRead_of_read {router : Router} {node : Node} {r : Rule}
    (h : Rule.read router node = .ok r) : r.AsRead router := by
  refine ⟨Rule.hasInterface_of_read h, ?_⟩
  simp only [Rule.read] at h
  split at h
  · cases h
  · obtain ⟨actions, -, h⟩ := exists_of_bind_eq_ok h
    obtain rfl := Except.ok.inj h
    intro a ha
    obtain ⟨x, -, rfl⟩ := List.mem_map.mp ha
    exact Action.isArgument_of_read x

lemma Destination.asRead_of_read {router : Router} {node : Node} {d : Destination}
    (h : Destination.read router node = .ok d) : d.AsRead router := by
  simp only [Destination.read] at h
  split at h
  · cases h
  next hsource =>
    obtain ⟨groups, -, h⟩ := exists_of_bind_eq_ok h
    obtain ⟨gs, hgs, h⟩ := exists_of_bind_eq_ok h
    obtain rfl := Except.ok.inj h
    refine ⟨by simpa using hsource, ⟨_, rfl⟩, fun r hr => ?_⟩
    obtain ⟨g, hg, hr⟩ := List.mem_flatten.mp hr
    obtain ⟨x, -, hx⟩ := (mem_of_mapM_eq_ok hgs).mp hg
    obtain ⟨routes, -, hrules⟩ := exists_of_bind_eq_ok hx
    obtain ⟨y, -, hy⟩ := (mem_of_mapM_eq_ok hrules).mp hr
    exact Rule.asRead_of_read hy

lemma Table.asRead_of_read {routers : List Router} {node : Node} {t : Table}
    (h : Table.read routers node = .ok t) : t.AsRead routers := by
  simp only [Table.read] at h
  split at h
  · cases h
  next router hrouter =>
    obtain ⟨destinations, -, h⟩ := exists_of_bind_eq_ok h
    obtain ⟨ds, hds, h⟩ := exists_of_bind_eq_ok h
    obtain rfl := Except.ok.inj h
    refine ⟨List.mem_of_find?_eq_some hrouter, Dictionary.nodup_putAll (by simp) ds, fun d hd => ?_⟩
    rcases Dictionary.mem_of_mem_putAll hd with hnil | hd
    · cases hnil
    · obtain ⟨x, -, hx⟩ := (mem_of_mapM_eq_ok hds).mp hd
      exact Destination.asRead_of_read hx

lemma Network.asRead_of_read {topology routing : String} {n : Network}
    (h : Network.read topology routing = .ok n) : n.AsRead := by
  have hgrounded := Network.grounded_of_read h
  obtain ⟨⟨routers, links⟩, htopology, h⟩ := exists_of_bind_eq_ok h
  obtain ⟨tables, hrouting, h⟩ := exists_of_bind_eq_ok h
  obtain rfl := Except.ok.inj h
  have hrouters : ∃ rs, routers = Dictionary.putAll Router.name [] rs ∧
      ∀ r ∈ rs, r.id.copy = "" ∧ (r.interfaces.map (·.name)).Nodup := by
    obtain ⟨root, -, h⟩ := exists_of_bind_eq_ok htopology
    obtain ⟨node, -, h⟩ := exists_of_bind_eq_ok h
    obtain ⟨rs, hrs, h⟩ := exists_of_bind_eq_ok h
    obtain ⟨node', -, h⟩ := exists_of_bind_eq_ok h
    obtain ⟨ls, -, h⟩ := exists_of_bind_eq_ok h
    obtain ⟨read, hread, hrs⟩ := exists_of_bind_eq_ok hrs
    obtain ⟨rfl, -⟩ := Prod.mk.inj (Except.ok.inj h)
    refine ⟨read, (Except.ok.inj hrs).symm, fun r hr => ?_⟩
    obtain ⟨x, -, hx⟩ := (mem_of_mapM_eq_ok hread).mp hr
    exact Router.asRead_of_read hx
  obtain ⟨rs, rfl, hrs⟩ := hrouters
  have hmem : ∀ r ∈ Dictionary.putAll Router.name [] rs, r ∈ rs := fun r hr =>
    (Dictionary.mem_of_mem_putAll hr).resolve_left List.not_mem_nil
  refine ⟨fun r hr => (hrs r (hmem r hr)).1, fun r hr => (hrs r (hmem r hr)).2,
    Dictionary.nodup_putAll (by simp) rs, hgrounded.links, fun t ht => ?_, ?_⟩
  · obtain ⟨x, hx⟩ := exists_read_of_mem_routing hrouting ht
    exact Table.asRead_of_read hx
  · obtain ⟨root, -, h⟩ := exists_of_bind_eq_ok hrouting
    obtain ⟨routings, -, h⟩ := exists_of_bind_eq_ok h
    obtain ⟨read, -, h⟩ := exists_of_bind_eq_ok h
    obtain rfl := Except.ok.inj h
    exact Dictionary.nodup_putAll (by simp) read

/-! ### Writing and reading again -/

/-- **A network that is written can be read again**, whichever way it is written. Its routers and
links are the same, and so are its tables, but for actions that do nothing. Destinations of one
interface that have no label become one. -/
theorem Network.kept_of_write {topology routing a b : String} {n : Network}
    (h : Network.read topology routing = .ok n)
    (hwrite : n.writePretty = .ok (a, b) ∨ n.writePlain = .ok (a, b)) :
    ∃ m, Network.read a b = .ok m ∧ n.Kept m := by
  have hn := Network.asRead_of_read h
  rcases hwrite with hwrite | hwrite
  · obtain ⟨⟨e, e'⟩, hdocuments, h⟩ := exists_of_bind_eq_ok hwrite
    obtain ⟨rfl, rfl⟩ := Prod.mk.inj (Except.ok.inj h)
    obtain ⟨he, he', m, hkept, hread⟩ := exists_read_of_documents hn hdocuments
    exact ⟨m, hread _ _ (Node.read_pretty he (by decide)) (Node.read_pretty he' (by decide)), hkept⟩
  · obtain ⟨⟨e, e'⟩, hdocuments, h⟩ := exists_of_bind_eq_ok hwrite
    obtain ⟨rfl, rfl⟩ := Prod.mk.inj (Except.ok.inj h)
    obtain ⟨he, he', m, hkept, hread⟩ := exists_read_of_documents hn hdocuments
    exact ⟨m, hread _ _ (Node.read_plain he (by decide)) (Node.read_plain he' (by decide)), hkept⟩

/-- The actions of all rules. -/
def Network.actionLists (n : Network) : List (List Action) :=
  n.tables.flatMap fun t => t.destinations.flatMap fun d => d.rules.map (·.actions)

/-- A document that is given as characters. -/
lemma Xml.Node.read_ofList (cs : List Char) : Node.read (String.ofList cs) =
    (Xml.document? cs).elim (.error .malformedXml) .ok := by
  rw [Node.read, String.toList_ofList]
  cases Xml.document? cs <;> rfl

/-- Two routers with a link; the names hold characters that are written as references. -/
def markedTopology : String := "<network><routers>
<router name=\"a&amp;b\"><interfaces><interface name=\"&lt;i>\"/></interfaces></router>
<router name=\"ü\"><interfaces><interface name=\"j\"/></interfaces></router></routers>
<links><link><sides><shared_interface router=\"a&amp;b\" interface=\"&lt;i>\"/>
<shared_interface router=\"ü\" interface=\"j\"/></sides></link></links></network>"

/-- A table with an unlabelled destination and a labelled one. -/
def markedRouting : String := "<routes><routings><routing for=\"ü\"><destinations>
<destination from=\"j\"><te-groups><te-group><routes><route to=\"j\"><actions>
<action type=\"push\" arg=\"x &quot;y&quot;\"/><action/></actions></route></routes></te-group>
</te-groups></destination><destination from=\"j\" label=\"l\"><te-groups/></destination>
</destinations></routing></routings></routes>"

set_option maxRecDepth 10000 in
/-- The network of these documents is written and read again. -/
theorem Network.kept_of_write_marked : ∃ n a b m,
    Network.read markedTopology markedRouting = .ok n ∧ n.links.length = 1 ∧
      n.actionLists = [[.push (.named "x \"y\""), .noop]] ∧ n.writePlain = .ok (a, b) ∧
      Network.read a b = .ok m ∧ n.Kept m := by
  have hany : (Network.read markedTopology markedRouting).toOption.any (fun n =>
      n.links.length = 1 ∧ n.actionLists = [[.push (.named "x \"y\""), .noop]] ∧
        n.writePlain.toOption.isSome = true) = true := by
    simp only [Network.read, readTopology, readRouting,
      show Node.read markedTopology = _ from Xml.Node.read_ofList _,
      show Node.read markedRouting = _ from Xml.Node.read_ofList _]
    decide +kernel
  obtain ⟨n, hn, h⟩ := exists_of_any_eq_true hany
  obtain ⟨hlinks, hactions, hsome⟩ := of_decide_eq_true h
  obtain ⟨⟨a, b⟩, hwrite, -⟩ := exists_of_any_eq_true (p := fun _ => true)
    (Option.any_true.trans hsome)
  obtain ⟨m, hm, hkept⟩ := Network.kept_of_write hn (.inr hwrite)
  exact ⟨n, a, b, m, hn, hlinks, hactions, hwrite, hm, hkept⟩

/-- A router with two interfaces. -/
def plainTopology : String := "<network><routers><router name=\"r\"><interfaces>
<interface name=\"i\"/><interface name=\"j\"/></interfaces></router></routers>
<links></links></network>"

/-- A rule with an action that does nothing. -/
def idleRouting : String := "<routes><routings><routing for=\"r\"><destinations>
<destination from=\"i\" label=\"a\"><te-groups><te-group><routes><route to=\"j\">
<actions><action/></actions></route></routes></te-group></te-groups></destination>
</destinations></routing></routings></routes>"

/-- The network of these documents. -/
def idleNetwork : Network :=
  let router : Router := ⟨⟨"", some "r"⟩, [⟨some "i", false⟩, ⟨some "j", false⟩]⟩
  ⟨[router], [], [⟨router, [⟨some "i", .named "a", [[⟨some "j", [.noop]⟩]]⟩]⟩]⟩

set_option maxRecDepth 10000 in
/-- An action that does nothing is gone when the network is read again. -/
theorem Network.idle_action_lost : ∃ a b m,
    Network.read plainTopology idleRouting = .ok idleNetwork ∧
      idleNetwork.writePretty = .ok (a, b) ∧ Network.read a b = .ok m ∧
      idleNetwork.actionLists = [[.noop]] ∧ m.actionLists = [[]] := by
  have hread : Network.read plainTopology idleRouting = .ok idleNetwork := by
    simp only [Network.read, readTopology, readRouting,
      show Node.read plainTopology = _ from Xml.Node.read_ofList _,
      show Node.read idleRouting = _ from Xml.Node.read_ofList _]
    decide +kernel
  obtain ⟨⟨e, e'⟩, hdocuments⟩ : ∃ d, idleNetwork.documents = .ok d := ⟨_, rfl⟩
  obtain ⟨he, he', m, hkept, hm⟩ :=
    exists_read_of_documents (Network.asRead_of_read hread) hdocuments
  refine ⟨_, _, m, hread, by rw [Network.writePretty, hdocuments]; rfl,
    hm _ _ (Node.read_pretty he (by decide)) (Node.read_pretty he' (by decide)), rfl, ?_⟩
  -- the only table, destination, group and rule, in that order
  obtain ⟨t, ts, ht, hts, htables⟩ := List.forall₂_cons_left_iff.mp hkept.tables
  obtain rfl := List.forall₂_nil_left_iff.mp hts
  obtain ⟨d, ds, hd, hds, hdestinations⟩ := List.forall₂_cons_left_iff.mp ht.destinations
  obtain rfl := List.forall₂_nil_left_iff.mp hds
  obtain ⟨g, gs, hg, hgs, hgroups⟩ := List.forall₂_cons_left_iff.mp hd.groups
  obtain rfl := List.forall₂_nil_left_iff.mp hgs
  obtain ⟨r, rs, hr, hrs, rfl⟩ := List.forall₂_cons_left_iff.mp hg
  obtain rfl := List.forall₂_nil_left_iff.mp hrs
  have hactions : r.actions = [] := List.forall₂_nil_left_iff.mp hr.actions
  simp [Network.actionLists, Destination.rules, htables, hdestinations, hgroups, hactions]

end MplsReach
