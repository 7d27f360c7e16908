/-
Networks nested in themselves.

* `Network.Alike`: endpoints that no search for a link tells apart; `Network.alike_copyAs`: the
  endpoints of copies are alike.
* `Network.exists_entryLink`: a search in links that are alike finds the same place, whatever links
  stand behind them.
* `Detour`: the end of a link is redirected into a copy, and a link is added from the copy to that
  end; `Redirected`: links before and after some of their ends are redirected.
* `Network.exists_of_inject`: what putting a copy into a link does;
  `Network.exists_of_inject_twice`: what the first two copies within a copy do.
* `Network.Nested`: a copy with the copies within it; `Network.nested_of_nestWithin`: nesting makes
  one.
* `nest_multiplies`: **nesting multiplies a network**, and loses and merges nothing, if the names of
  its routers are different as they are written and have no underscore. A router without a name and
  one that is called as a missing name is written are merged in every copy.
-/
import MplsReach.Proofs.CopyNames
import MplsReach.Proofs.Results

namespace MplsReach

/-! ### Ends of names -/

lemma endsWith_iff (s suffix : String) :
    s.endsWith suffix = true ↔ suffix.toList <:+ s.toList := by
  rw [String.endsWith_eq_endsWith_toSlice, String.Slice.endsWith_string_iff, String.copy_toSlice]

/-- A text behind an underscore has the ends of the whole, but for those with an underscore. -/
lemma endsWith_append {c s suffix : String} {w : List Char} (hc : c.toList = w ++ ['_'])
    (h : '_' ∉ suffix.toList) : (c ++ s).endsWith suffix = s.endsWith suffix := by
  have hbehind : '_' :: s.toList <:+ (c ++ s).toList := by
    rw [String.toList_append, hc, List.append_assoc]
    exact List.suffix_append w _
  have hs : s.toList <:+ (c ++ s).toList := (List.suffix_cons '_' _).trans hbehind
  rw [Bool.eq_iff_iff, endsWith_iff, endsWith_iff]
  refine ⟨fun hsuffix => ?_, fun hsuffix => hsuffix.trans hs⟩
  by_cases hlength : suffix.toList.length ≤ s.toList.length
  · exact List.suffix_of_suffix_length_le hsuffix hs hlength
  · have hlonger : '_' :: s.toList <:+ suffix.toList :=
      List.suffix_of_suffix_length_le hbehind hsuffix (by rw [List.length_cons]; omega)
    exact absurd (hlonger.subset List.mem_cons_self) h

/-- Different ends of one length exclude each other. -/
lemma endsWith_eq_false {s a b : String} (h : s.endsWith a = true)
    (hlength : a.toList.length = b.toList.length) (hne : a ≠ b) : s.endsWith b = false := by
  by_contra hb
  rw [Bool.not_eq_false, endsWith_iff] at hb
  rw [endsWith_iff] at h
  have hab := List.suffix_of_suffix_length_le h hb (Nat.le_of_eq hlength)
  exact hne (String.toList_inj.mp (hab.eq_of_length hlength))

namespace Network

/-! ### The search for a link -/

/-- What a search finds out about the first endpoint holds for the second one. -/
def Alike (p q : Endpoint) : Prop :=
  ∀ suffix b, isEntry suffix p = .ok b → isEntry suffix q = .ok b

/-- The endpoints of the base and of its copies are alike. -/
lemma alike_copyAs {p : Endpoint} (hp : p.router.copy = "") {c : String} (hc : CopyName c) :
    Alike p (p.copyAs c) := by
  intro suffix b h
  rcases hc with rfl | ⟨w, hw, -⟩
  · rwa [Endpoint.copyAs, RouterId.copyAs_empty hp]
  · obtain ⟨ends, hends, h⟩ := exists_of_bind_eq_ok h
    obtain ⟨⟨copy, name⟩, interface⟩ := p
    obtain rfl : copy = "" := hp
    cases name with
    | none => exact absurd hends (by simp [endsIn, RouterId.name])
    | some s =>
        have hbase : (⟨"", some s⟩ : RouterId).name = some s := if_pos rfl
        have hname : ((⟨"", some s⟩ : RouterId).copyAs c).name = some (c ++ s) :=
          if_neg (ne_empty_of_toList_eq hw)
        have hcopy : endsIn "s2" ((⟨"", some s⟩ : RouterId).copyAs c).name = .ok ends := by
          rw [hname, endsIn, endsWith_append hw (by decide), ← hends, hbase, endsIn]
        simp only [isEntry, Endpoint.copyAs, hcopy]
        exact h

/-- No search finds an endpoint by which copies are entered. -/
lemma isEntry_of_endsIn {p : Endpoint} (h : endsIn "s1" p.router.name = .ok true)
    (suffix : String) : isEntry suffix p = .ok false := by
  cases hname : p.router.name with
  | none => simp [hname, endsIn] at h
  | some s =>
      rw [hname, endsIn] at h
      have hs : s.endsWith "s2" = false :=
        endsWith_eq_false (Except.ok.inj h) (by decide) (by decide)
      rw [isEntry, hname, endsIn, hs]
      rfl

lemma isEntryLink_of_alike {l m : Link} (hsource : Alike l.source m.source)
    (htarget : Alike l.target m.target) {suffix : String} {b : Bool}
    (h : isEntryLink suffix l = .ok b) : isEntryLink suffix m = .ok b := by
  obtain ⟨found, hfound, h⟩ := exists_of_bind_eq_ok h
  simp only [isEntryLink, hsource _ _ hfound]
  cases found with
  | true => exact h
  | false => exact htarget _ _ h

/-- Both ends of two links are alike. -/
structure AlikeLinks (l m : Link) : Prop where
  source : Alike l.source m.source
  target : Alike l.target m.target

/-- **A search in links that are alike finds the same place**, whatever links stand behind them. -/
lemma exists_entryLink {suffix : String} {ls ms : List Link} (h : List.Forall₂ AlikeLinks ls ms)
    {before after : List Link} {link : Link}
    (hfound : entryLink suffix ls = .ok (before, link, after)) :
    ∃ before' link' after', ms = before' ++ link' :: after' ∧
      List.Forall₂ AlikeLinks before before' ∧ AlikeLinks link link' ∧
      List.Forall₂ AlikeLinks after after' ∧
      ∀ tail, entryLink suffix (ms ++ tail) = .ok (before', link', after' ++ tail) := by
  induction h generalizing before with
  | nil => exact absurd hfound (by simp [entryLink])
  | @cons l m ls ms hlm hrest ih =>
      obtain ⟨found, hl, hfound⟩ := exists_of_bind_eq_ok hfound
      have hm := isEntryLink_of_alike hlm.source hlm.target hl
      cases found with
      | true =>
          obtain ⟨rfl, rfl, rfl⟩ : [] = before ∧ l = link ∧ ls = after := by
            simpa [pure, Except.pure] using hfound
          refine ⟨[], m, ms, rfl, .nil, hlm, hrest, fun tail => ?_⟩
          simp [entryLink, hm, bind, Except.bind, pure, Except.pure]
      | false =>
          obtain ⟨⟨before₁, link₁, after₁⟩, hls, hfound⟩ := exists_of_bind_eq_ok hfound
          obtain ⟨rfl, rfl, rfl⟩ : l :: before₁ = before ∧ link₁ = link ∧ after₁ = after := by
            simpa [pure, Except.pure] using hfound
          obtain ⟨before', link', after', rfl, hbefore, hlink, hafter, hsearch⟩ := ih hls
          refine ⟨m :: before', link', after', rfl, .cons hlm hbefore, hlink, hafter,
            fun tail => ?_⟩
          have hsearch := hsearch tail
          simp only [List.append_assoc, List.cons_append] at hsearch
          simp [entryLink, hm, hsearch, bind, Except.bind, pure, Except.pure]

end Network

/-! ### Redirected ends -/

/-- The end of a link is redirected into a copy, and a link is added that leads from the copy to
that end. -/
structure Detour where
  target : Endpoint
  entry : Endpoint
  exit : Endpoint
deriving DecidableEq

/-- The link that is added. -/
def Detour.back (d : Detour) : Link := ⟨d.exit, d.target⟩

/-- Links, and what becomes of them when ends are redirected, one after the other. Only the target
of a link is ever redirected. -/
inductive Redirected : List Link → List Detour → List Link → Prop where
  | refl (ls : List Link) : Redirected ls [] ls
  | step {before after ms : List Link} {link : Link} {d : Detour} {ds : List Detour} :
      link.target = d.target →
      Redirected (before ++ { link with target := d.entry } :: after) ds ms →
        Redirected (before ++ link :: after) (d :: ds) ms

namespace Redirected

variable {ls ms : List Link} {ds : List Detour}

/-- Redirecting ends adds and removes no link. -/
lemma length_eq (h : Redirected ls ds ms) : ms.length = ls.length := by
  induction h with
  | refl => rfl
  | step _ _ ih => simpa using ih

/-- What holds of all ends before, and of those that are redirected to, holds of all ends after,
and of those that were redirected. -/
lemma forall_ends {P : Endpoint → Prop} (h : Redirected ls ds ms)
    (hls : ∀ l ∈ ls, P l.source ∧ P l.target) (hds : ∀ d ∈ ds, P d.entry) :
    (∀ m ∈ ms, P m.source ∧ P m.target) ∧ ∀ d ∈ ds, P d.target := by
  induction h with
  | refl => exact ⟨hls, by simp⟩
  | @step before after ms link d ds htarget _ ih =>
      rw [List.forall_mem_append, List.forall_mem_cons] at hls
      obtain ⟨hbefore, hlink, hafter⟩ := hls
      obtain ⟨hd, hds⟩ := List.forall_mem_cons.mp hds
      obtain ⟨hms, htargets⟩ := ih (by
        rw [List.forall_mem_append, List.forall_mem_cons]
        exact ⟨hbefore, ⟨hlink.1, hd⟩, hafter⟩) hds
      exact ⟨hms, List.forall_mem_cons.mpr ⟨htarget ▸ hlink.2, htargets⟩⟩

end Redirected

namespace Network

/-! ### Putting a copy into a link -/

/-- A copy of the base with further links. -/
def copyWith (base : Network) (c : String) (tail : List Link) : Network :=
  { base.copyAs c with links := (base.copyAs c).links ++ tail }

/-- The ways into a copy and out of it are at its own routers. -/
structure Through (base : Network) (c : String) (d : Detour) : Prop where
  entry : d.entry ∈ (base.copyAs c).endpoints
  exit : d.exit ∈ (base.copyAs c).endpoints

lemma exists_of_routerEndingIn {n : Network} {suffix : String} {r : Router}
    (h : routerEndingIn suffix n = .ok r) : r ∈ n.routers ∧ endsIn suffix r.name = .ok true := by
  obtain ⟨ends, hends, h⟩ := exists_of_bind_eq_ok h
  cases hfind : ends.find? (·.2) with
  | none => simp [hfind] at h
  | some found =>
      obtain ⟨r', b⟩ := found
      obtain rfl : r' = r := by simpa [hfind, pure, Except.pure] using h
      obtain rfl : b = true := by simpa using List.find?_some hfind
      obtain ⟨x, hx, hmap⟩ := (mem_of_mapM_eq_ok hends).mp (List.mem_of_find?_eq_some hfind)
      obtain ⟨b, hb, hmap⟩ := exists_of_bind_eq_ok hmap
      obtain ⟨rfl, rfl⟩ := Prod.mk.inj (Except.ok.inj hmap)
      exact ⟨hx, hb⟩

lemma mem_endpoints_of_gateway {n : Network} {r : Router} (hr : r ∈ n.routers) {p : Endpoint}
    (h : gateway r = .ok p) : p.router = r.id ∧ p ∈ n.endpoints := by
  unfold gateway at h
  split_ifs at h with hinterface
  obtain rfl := Except.ok.inj h
  obtain ⟨i, hi, hname⟩ := List.any_eq_true.mp hinterface
  refine ⟨rfl, List.mem_flatMap.mpr ⟨r, hr, List.mem_map.mpr ⟨i, hi, ?_⟩⟩⟩
  rw [of_decide_eq_true hname]

/-- **What putting a copy into a link does.** The target of the link that is found is redirected
into the copy, and the copy gets a link back; no search finds the end that is redirected to. -/
lemma exists_of_inject {base n n' sub : Network} {suffix c : String}
    (h : inject base n suffix c = .ok (n', sub)) :
    ∃ before link after d, entryLink suffix n.links = .ok (before, link, after) ∧
      link.target = d.target ∧ base.Through c d ∧ (∀ s, isEntry s d.entry = .ok false) ∧
      n' = { n with links := before ++ { link with target := d.entry } :: after } ∧
      sub = base.copyWith c [d.back] := by
  obtain ⟨⟨before, link, after⟩, hfound, h⟩ := exists_of_bind_eq_ok h
  obtain ⟨entry, hentry, h⟩ := exists_of_bind_eq_ok h
  obtain ⟨exit, hexit, h⟩ := exists_of_bind_eq_ok h
  obtain ⟨p, hp, h⟩ := exists_of_bind_eq_ok h
  obtain ⟨q, hq, h⟩ := exists_of_bind_eq_ok h
  obtain ⟨rfl, rfl⟩ := Prod.mk.inj (Except.ok.inj h)
  obtain ⟨hmem, hends⟩ := exists_of_routerEndingIn hentry
  obtain ⟨hrouter, hpmem⟩ := mem_endpoints_of_gateway hmem hp
  have hqmem := (mem_endpoints_of_gateway (exists_of_routerEndingIn hexit).1 hq).2
  refine ⟨before, link, after, ⟨link.target, p, q⟩, hfound, rfl, ⟨hpmem, hqmem⟩, ?_, rfl, rfl⟩
  exact isEntry_of_endsIn (by rw [hrouter]; exact hends)

/-- Both searches for the first two copies find a link of the base. -/
def Searchable (base : Network) : Prop :=
  ∃ before link after entry found, entryLink "s3" base.links = .ok (before, link, after) ∧
    (∀ s, isEntry s entry = .ok false) ∧
    entryLink "s4" (before ++ { link with target := entry } :: after) = .ok found

lemma forall₂_alikeLinks {base : Network} (hbase : base.Copyable) {c : String} (hc : CopyName c) :
    List.Forall₂ AlikeLinks base.links (base.copyAs c).links := by
  refine List.forall₂_map_right_iff.mpr (List.forall₂_same.mpr fun l hl => ?_)
  obtain ⟨hsource, htarget⟩ := hbase.asRead.links l hl
  exact ⟨alike_copyAs (hbase.asRead.copy_eq_of_mem_endpoints hsource) hc,
    alike_copyAs (hbase.asRead.copy_eq_of_mem_endpoints htarget) hc⟩

/-- **The first two copies within a copy** take two ends of its links, or one of them twice, and
leave the links behind those of the base as they are. -/
lemma exists_of_inject_twice {base : Network} (hbase : base.Copyable) (hsearch : base.Searchable)
    {c third fourth : String} (hc : CopyName c) {tail : List Link} {n n' m₃ m₄ : Network}
    (hthird : inject base (base.copyWith c tail) "s3" third = .ok (n, m₃))
    (hfourth : inject base n "s4" fourth = .ok (n', m₄)) :
    ∃ d₃ d₄ own, Redirected (base.copyAs c).links [d₃, d₄] own ∧ base.Through third d₃ ∧
      base.Through fourth d₄ ∧ n' = { base.copyAs c with links := own ++ tail } ∧
      m₃ = base.copyWith third [d₃.back] ∧ m₄ = base.copyWith fourth [d₄.back] := by
  obtain ⟨b₃, l₃, a₃, entry, ⟨b₄, l₄, a₄⟩, hfound₃, hentry, hfound₄⟩ := hsearch
  -- the first search, in the base and in the copy
  obtain ⟨b₃', l₃', a₃', hlinks, hb₃, hl₃, ha₃, hcopy₃⟩ :=
    exists_entryLink (forall₂_alikeLinks hbase hc) hfound₃
  obtain ⟨b, l, a, d₃, hfound, htarget₃, hthrough₃, hentry₃, rfl, rfl⟩ := exists_of_inject hthird
  obtain ⟨rfl, rfl, rfl⟩ : b₃' = b ∧ l₃' = l ∧ a₃' ++ tail = a := by
    simpa using (hcopy₃ tail).symm.trans hfound
  -- the second search, behind the redirected end
  have halike : List.Forall₂ AlikeLinks (b₃ ++ { l₃ with target := entry } :: a₃)
      (b₃' ++ { l₃' with target := d₃.entry } :: a₃') := by
    refine List.rel_append hb₃ (.cons ⟨hl₃.source, fun s x hx => ?_⟩ ha₃)
    rw [← hx, hentry s]
    exact hentry₃ s
  obtain ⟨b₄', l₄', a₄', hlinks', -, -, -, hcopy₄⟩ := exists_entryLink halike hfound₄
  obtain ⟨b, l, a, d₄, hfound, htarget₄, hthrough₄, -, rfl, rfl⟩ := exists_of_inject hfourth
  obtain ⟨rfl, rfl, rfl⟩ : b₄' = b ∧ l₄' = l ∧ a₄' ++ tail = a := by
    have hcopy := hcopy₄ tail
    rw [List.append_assoc, List.cons_append, hfound] at hcopy
    simpa [eq_comm] using hcopy
  refine ⟨d₃, d₄, b₄' ++ { l₄' with target := d₄.entry } :: a₄', ?_, hthrough₃, hthrough₄, ?_, rfl,
    rfl⟩
  · rw [hlinks]
    refine .step htarget₃ ?_
    rw [hlinks']
    exact .step htarget₄ (.refl _)
  · simp [copyWith]

/-! ### Copies within copies -/

/-- **A copy with the copies within it.** All routers and tables are there once in each copy. The
links are those of the copies, with ends redirected, one link back for each redirected end, and the
further ones that the copy had; and each copy within it is on the way of one detour. -/
structure Nested (base : Network) (c : String) (inner : List String) (tail : List Link)
    (n : Network) : Prop where
  routers : n.routers = (c :: inner).flatMap fun x => base.routers.map (·.copyAs x)
  tables : n.tables = (c :: inner).flatMap fun x => base.tables.map (·.copyAs x)
  links : ∃ (wiring : List (List Detour × List Link)) (detours : List Detour),
    List.Forall₂ (fun x w => Redirected (base.copyAs x).links w.1 w.2) (c :: inner) wiring ∧
    n.links.Perm (wiring.flatMap (·.2) ++ detours.map Detour.back ++ tail) ∧
    detours.Perm (wiring.flatMap (·.1)) ∧ List.Forall₂ base.Through inner detours

lemma nested_copyWith {base : Network} (hbase : base.Copyable) {c : String} (hc : CopyName c)
    (tail : List Link) : base.Nested c [] tail (base.copyWith c tail) where
  routers := by simpa [copyWith] using hbase.routers_copyAs hc
  tables := by simp [copyWith, copyAs, Table.copyAs]
  links := ⟨[([], (base.copyAs c).links)], [], .cons (.refl _) .nil, by simp [copyWith], by simp,
    .nil⟩

/-- Entries with new keys are put behind each other. -/
lemma putAll_putAll {α κ : Type} [DecidableEq κ] {key : α → κ} {as bs cs : List α}
    (h : ((as ++ (bs ++ cs)).map key).Nodup) :
    Dictionary.putAll key (Dictionary.putAll key as bs) cs = as ++ (bs ++ cs) := by
  rw [← List.append_assoc] at h ⊢
  have hfirst : ((as ++ bs).map key).Nodup :=
    h.sublist ((List.sublist_append_left _ _).map key)
  rw [Dictionary.putAll_eq_append hfirst, Dictionary.putAll_eq_append h]

/-- A copy, two copies right within it, and what is within these. -/
lemma Nested.merge {base : Network} (hbase : base.Copyable) {c third fourth : String}
    {inner₃ inner₄ : List String} {tail own : List Link} {d₃ d₄ : Detour} {n₃ n₄ : Network}
    (hcs : (c :: ((third :: inner₃) ++ (fourth :: inner₄))).Nodup)
    (hnames : ∀ x ∈ c :: ((third :: inner₃) ++ (fourth :: inner₄)), CopyName x)
    (hown : Redirected (base.copyAs c).links [d₃, d₄] own)
    (hthrough₃ : base.Through third d₃) (hthrough₄ : base.Through fourth d₄)
    (h₃ : base.Nested third inner₃ [d₃.back] n₃) (h₄ : base.Nested fourth inner₄ [d₄.back] n₄) :
    base.Nested c ((third :: inner₃) ++ (fourth :: inner₄)) tail
      ((({ base.copyAs c with links := own ++ tail } : Network).merge n₃).merge n₄) := by
  have hc := hnames c List.mem_cons_self
  have hrouters := hbase.nodup_names hcs hnames
  have htables := hbase.nodup_ids hcs
  rw [List.flatMap_cons, List.flatMap_append, ← h₃.routers, ← h₄.routers,
    ← hbase.routers_copyAs hc] at hrouters
  rw [List.flatMap_cons, List.flatMap_append, ← h₃.tables, ← h₄.tables] at htables
  refine ⟨?_, ?_, ?_⟩
  · rw [List.flatMap_cons, List.flatMap_append, ← h₃.routers, ← h₄.routers,
      ← hbase.routers_copyAs hc]
    exact putAll_putAll hrouters
  · rw [List.flatMap_cons, List.flatMap_append, ← h₃.tables, ← h₄.tables]
    exact putAll_putAll htables
  · obtain ⟨w₃, ds₃, hw₃, hlinks₃, hds₃, hinner₃⟩ := h₃.links
    obtain ⟨w₄, ds₄, hw₄, hlinks₄, hds₄, hinner₄⟩ := h₄.links
    refine ⟨([d₃, d₄], own) :: (w₃ ++ w₄), (d₃ :: ds₃) ++ (d₄ :: ds₄),
      .cons hown (List.rel_append hw₃ hw₄), ?_, ?_,
      List.rel_append (.cons hthrough₃ hinner₃) (.cons hthrough₄ hinner₄)⟩
    · refine (((List.Perm.refl (own ++ tail)).append hlinks₃).append hlinks₄).trans ?_
      refine List.perm_iff_count.mpr fun l => ?_
      simp only [List.flatMap_cons, List.flatMap_append, List.map_append, List.map_cons,
        List.count_append, List.count_cons, List.count_nil]
      omega
    · refine (hds₃.cons d₃).append (hds₄.cons d₄) |>.trans ?_
      refine List.perm_iff_count.mpr fun d => ?_
      simp only [List.flatMap_cons, List.flatMap_append, List.count_append, List.count_cons,
        List.count_nil]
      omega

/-- **Nesting makes copies within copies.** -/
lemma nested_of_nestWithin {base : Network} (hbase : base.Copyable) {depth : ℕ}
    (hsearch : 0 < depth → base.Searchable) {c name : String} {w : List Char} (hc : CopyName c)
    (hname : name.toList = w ++ ['_']) (hw : '_' ∉ w) (hnew : c ∉ copiesWithin depth name)
    {tail : List Link} {n : Network}
    (h : nestWithin base depth (base.copyWith c tail) name = .ok n) :
    base.Nested c (copiesWithin depth name) tail n := by
  induction depth generalizing c name w tail n with
  | zero =>
      obtain rfl := Except.ok.inj h
      exact nested_copyWith hbase hc tail
  | succ depth ih =>
      have hnames : ∀ x ∈ copiesWithin (depth + 1) name, CopyName x :=
        fun x hx => .of_mem ⟨w, hname, hw⟩ hx
      have hnodup := nodup_copiesWithin (depth + 1) name
      obtain ⟨⟨m, m₃⟩, hthird, h⟩ := exists_of_bind_eq_ok h
      obtain ⟨⟨m', m₄⟩, hfourth, h⟩ := exists_of_bind_eq_ok h
      obtain ⟨n₃, hn₃, h⟩ := exists_of_bind_eq_ok h
      obtain ⟨n₄, hn₄, h⟩ := exists_of_bind_eq_ok h
      obtain rfl := Except.ok.inj h
      obtain ⟨d₃, d₄, own, hown, hthrough₃, hthrough₄, rfl, rfl, rfl⟩ :=
        exists_of_inject_twice hbase (hsearch depth.succ_pos) hc hthird hfourth
      have hbelow : ∀ s : String, '_' ∉ s.toList → ∀ tail n,
          nestWithin base depth (base.copyWith (s ++ name) tail) (s ++ name) = .ok n →
            base.Nested (s ++ name) (copiesWithin depth (s ++ name)) tail n := by
        intro s hs tail n hn
        have hlist : (s ++ name).toList = (s.toList ++ w) ++ ['_'] := by
          rw [String.toList_append, hname, List.append_assoc]
        have hnot : '_' ∉ s.toList ++ w := by simp [hs, hw]
        exact ih (fun _ => hsearch depth.succ_pos) (.inr ⟨_, hlist, hnot⟩) hlist hnot
          (notMem_copiesWithin _ _) hn
      exact Nested.merge hbase (List.nodup_cons.mpr ⟨hnew, hnodup⟩)
        (List.forall_mem_cons.mpr ⟨hc, hnames⟩) hown hthrough₃ hthrough₄
        (hbelow "s3" (by decide) _ _ hn₃) (hbelow "s4" (by decide) _ _ hn₄)

lemma searchable_of_nestWithin {base n : Network} {depth : ℕ} {name : String}
    (h : nestWithin base (depth + 1) base name = .ok n) : base.Searchable := by
  obtain ⟨⟨m, m₃⟩, hthird, h⟩ := exists_of_bind_eq_ok h
  obtain ⟨⟨m', m₄⟩, hfourth, -⟩ := exists_of_bind_eq_ok h
  obtain ⟨before, link, after, d, hfound, -, -, hentry, rfl, -⟩ := exists_of_inject hthird
  obtain ⟨before', link', after', -, hfound', -⟩ := exists_of_inject hfourth
  exact ⟨before, link, after, d.entry, _, hfound, hentry, hfound'⟩

/-! ### Counting -/

lemma length_flatMap_map {α β : Type} (cs : List String) (as : List α) (f : String → α → β) :
    (cs.flatMap fun c => as.map (f c)).length = as.length * cs.length := by
  induction cs with
  | nil => rfl
  | cons c cs ih => simp [ih, Nat.mul_succ, Nat.add_comm]

/-- A network nested in itself to a depth: nothing is lost and nothing is merged. -/
structure Multiplied (base : Network) (depth : ℕ) (n : Network) : Prop where
  routers : n.routers.length = base.routers.length * (2 ^ (depth + 1) - 1)
  names : (n.routers.map Router.name).Nodup
  tables : n.tables.length = base.tables.length * (2 ^ (depth + 1) - 1)
  links : n.links.length = base.links.length * (2 ^ (depth + 1) - 1) + (2 ^ (depth + 1) - 2)
  ends : ∀ l ∈ n.links, l.source ∈ n.endpoints ∧ l.target ∈ n.endpoints
  nested : base.Nested "" (copiesWithin depth "_") [] n

variable {base n : Network} {c : String} {inner : List String} {tail : List Link}

/-- The links of copies with redirected ends are as many as those of the copies. -/
lemma length_wiring {cs : List String} {wiring : List (List Detour × List Link)}
    (h : List.Forall₂ (fun x w => Redirected (base.copyAs x).links w.1 w.2) cs wiring) :
    (wiring.flatMap (·.2)).length = base.links.length * cs.length := by
  induction h with
  | nil => rfl
  | @cons x w cs wiring hw _ ih =>
      have hlength : w.2.length = base.links.length := by
        rw [hw.length_eq]
        exact List.length_map _
      rw [List.flatMap_cons, List.length_append, ih, hlength, List.length_cons, Nat.mul_succ,
        Nat.add_comm]

lemma Nested.length_links (h : base.Nested c inner [] n) :
    n.links.length = base.links.length * (inner.length + 1) + inner.length := by
  obtain ⟨wiring, detours, hwiring, hlinks, -, hthrough⟩ := h.links
  rw [hlinks.length_eq, List.append_nil, List.length_append, List.length_map,
    length_wiring hwiring, ← hthrough.length_eq, List.length_cons]

lemma exists_mem_of_forall₂ {α β : Type} {R : α → β → Prop} {as : List α} {bs : List β}
    (h : List.Forall₂ R as bs) {b : β} (hb : b ∈ bs) : ∃ a ∈ as, R a b := by
  induction h with
  | nil => exact absurd hb List.not_mem_nil
  | cons hab _ ih =>
      rcases List.mem_cons.mp hb with rfl | hb
      · exact ⟨_, List.mem_cons_self, hab⟩
      · obtain ⟨a, ha, hR⟩ := ih hb
        exact ⟨a, List.mem_cons_of_mem _ ha, hR⟩

/-- The endpoints of a copy are endpoints of the whole. -/
lemma Nested.endpoints_subset (hbase : base.Copyable) (h : base.Nested c inner tail n) {x : String}
    (hx : x ∈ c :: inner) (hname : CopyName x) : (base.copyAs x).endpoints ⊆ n.endpoints := by
  intro p hp
  obtain ⟨r, hr, hp⟩ := List.mem_flatMap.mp hp
  rw [hbase.routers_copyAs hname] at hr
  refine List.mem_flatMap.mpr ⟨r, ?_, hp⟩
  rw [h.routers]
  exact List.mem_flatMap.mpr ⟨x, hx, hr⟩

/-- **Both ends of every link are at routers of the whole.** -/
lemma Nested.forall_ends (hbase : base.Copyable) (hnames : ∀ x ∈ c :: inner, CopyName x)
    (h : base.Nested c inner [] n) :
    ∀ l ∈ n.links, l.source ∈ n.endpoints ∧ l.target ∈ n.endpoints := by
  obtain ⟨wiring, detours, hwiring, hlinks, hdetours, hthrough⟩ := h.links
  have hentries : ∀ d ∈ detours, d.entry ∈ n.endpoints ∧ d.exit ∈ n.endpoints := by
    intro d hd
    obtain ⟨x, hx, hd⟩ := exists_mem_of_forall₂ hthrough hd
    have hx := List.mem_cons_of_mem c hx
    have hsubset := h.endpoints_subset hbase hx (hnames x hx)
    exact ⟨hsubset hd.entry, hsubset hd.exit⟩
  have hcopies : ∀ w ∈ wiring, (∀ l ∈ w.2, l.source ∈ n.endpoints ∧ l.target ∈ n.endpoints) ∧
      ∀ d ∈ w.1, d.target ∈ n.endpoints := by
    intro w hw
    obtain ⟨x, hx, hredirected⟩ := exists_mem_of_forall₂ hwiring hw
    have hsubset := h.endpoints_subset hbase hx (hnames x hx)
    refine hredirected.forall_ends (P := (· ∈ n.endpoints)) (fun l hl => ?_) fun d hd => ?_
    · obtain ⟨l₀, hl₀, rfl⟩ := List.mem_map.mp hl
      obtain ⟨hsource, htarget⟩ := hbase.asRead.links l₀ hl₀
      exact ⟨hsubset (hbase.copyAs_mem_endpoints (hnames x hx) hsource),
        hsubset (hbase.copyAs_mem_endpoints (hnames x hx) htarget)⟩
    · exact (hentries d (hdetours.mem_iff.mpr (List.mem_flatMap.mpr ⟨w, hw, hd⟩))).1
  intro l hl
  rw [hlinks.mem_iff, List.append_nil, List.mem_append] at hl
  rcases hl with hl | hl
  · obtain ⟨w, hw, hl⟩ := List.mem_flatMap.mp hl
    exact (hcopies w hw).1 l hl
  · obtain ⟨d, hd, rfl⟩ := List.mem_map.mp hl
    obtain ⟨w, hw, hdw⟩ := List.mem_flatMap.mp (hdetours.mem_iff.mp hd)
    exact ⟨(hentries d hd).2, (hcopies w hw).2 d hdw⟩

lemma Copyable.of_asRead (h : base.AsRead)
    (hmissing : none ∈ base.routers.map Router.name →
      some Text.missing ∉ base.routers.map Router.name)
    (hunderscore : ∀ r ∈ base.routers, ∀ s, r.name = some s → '_' ∉ s.toList) :
    base.Copyable := by
  have hshown : ∀ r ∈ base.routers, r.shown = Text.showOption r.name := by
    intro r hr
    rw [Router.shown, Router.name, RouterId.name, if_pos (h.copies r hr)]
  refine ⟨h, ?_, fun r hr => ?_⟩
  · have hmap : base.routers.map Router.shown =
        (base.routers.map Router.name).map Text.showOption := by
      rw [List.map_map]
      exact List.map_congr_left hshown
    rw [hmap]
    refine List.Nodup.map_on (fun a ha b hb heq => ?_) h.names
    cases a with
    | none =>
        cases b with
        | none => rfl
        | some s =>
            obtain rfl : Text.missing = s := heq
            exact absurd hb (hmissing ha)
    | some s =>
        cases b with
        | none =>
            obtain rfl : s = Text.missing := heq
            exact absurd ha (hmissing hb)
        | some s' => exact congrArg some heq
  · rw [hshown r hr]
    cases hname : r.name with
    | none => decide
    | some s => exact hunderscore r hr s hname

lemma nestWithin_of_nest {depth : ℕ} (h : base.nest depth = .ok n) :
    nestWithin base depth base "_" = .ok n := by
  unfold nest at h
  split_ifs at h with hdepth
  · obtain ⟨_, -, h⟩ := exists_of_bind_eq_ok h
    obtain ⟨_, -, h⟩ := exists_of_bind_eq_ok h
    exact absurd h (by simp)
  · exact h

/-- To the depth of zero there is the base alone. -/
lemma AsRead.multiplied_zero (h : base.AsRead) : base.Multiplied 0 base where
  routers := (Nat.mul_one _).symm
  names := h.names
  tables := (Nat.mul_one _).symm
  links := (Nat.mul_one _).symm
  ends := h.links
  nested := by
    refine ⟨?_, ?_, [([], base.links)], [], .cons ?_ .nil, by simp, by simp, .nil⟩
    · simpa [copiesWithin] using h.map_routers_copyAs_empty.symm
    · simpa [copiesWithin] using h.map_tables_copyAs_empty.symm
    · rw [h.copyAs_empty]
      exact .refl _

/-- What is nested within the base to a depth is counted. -/
lemma Nested.multiplied (hbase : base.Copyable) {depth : ℕ}
    (h : base.Nested "" (copiesWithin depth "_") [] n) : base.Multiplied depth n := by
  have hcopies := length_copiesWithin depth "_"
  have hnames : ∀ x ∈ "" :: copiesWithin depth "_", CopyName x :=
    List.forall_mem_cons.mpr ⟨.inl rfl, fun x hx => .of_mem ⟨[], rfl, by simp⟩ hx⟩
  have hlength : ("" :: copiesWithin depth "_").length = 2 ^ (depth + 1) - 1 := by
    rw [List.length_cons]
    omega
  exact {
    routers := by rw [h.routers, length_flatMap_map, hlength]
    names := by
      rw [h.routers]
      exact hbase.nodup_names (List.nodup_cons.mpr
        ⟨empty_notMem_copiesWithin depth, nodup_copiesWithin depth "_"⟩) hnames
    tables := by rw [h.tables, length_flatMap_map, hlength]
    links := by rw [h.length_links, ← hlength, List.length_cons]; omega
    ends := h.forall_ends hbase hnames
    nested := h }

end Network

/-- **Nesting multiplies a network without losing or merging anything.** Let a network be read whose
router names have no underscore. If there is a router without a name, let no router be called as a
missing name is written; there is nothing to ask when no copies are made. Wherever nesting it to a
depth has a result, this has all routers and tables once in each copy, under different names, all
links of each copy, and one more for each copy but the base itself. All links are between interfaces
of the result. Only targets of links are redirected, each redirected end is the end of one added
link, and each copy is entered and left on the way of one of these detours. -/
theorem nest_multiplies {topology routing : String} {base n : Network}
    (hread : Network.read topology routing = .ok base)
    (hunderscore : ∀ r ∈ base.routers, ∀ s, r.name = some s → '_' ∉ s.toList) {depth : ℕ}
    (hmissing : 0 < depth → none ∈ base.routers.map Router.name →
      some Text.missing ∉ base.routers.map Router.name)
    (h : base.nest depth = .ok n) : base.Multiplied depth n := by
  have hasRead := Network.asRead_of_read hread
  have hwithin := Network.nestWithin_of_nest h
  cases depth with
  | zero =>
      obtain rfl := Except.ok.inj hwithin
      exact hasRead.multiplied_zero
  | succ depth =>
      have hbase := Network.Copyable.of_asRead hasRead (hmissing depth.succ_pos) hunderscore
      have hsearch := Network.searchable_of_nestWithin hwithin
      have hroot : base.copyWith "" [] = base := by
        rw [Network.copyWith, hasRead.copyAs_empty, List.append_nil]
      have hwithin : Network.nestWithin base (depth + 1) (base.copyWith "" []) "_" = .ok n := by
        rw [hroot]
        exact hwithin
      exact (Network.nested_of_nestWithin hbase (fun _ => hsearch) (.inl rfl) (w := []) rfl
        List.not_mem_nil (empty_notMem_copiesWithin _) hwithin).multiplied hbase

/-- A network with the links that copies are put into, and a router without a name. -/
def ringTopology : String := "<network><routers><router name=\"s1\"><interfaces>
<interface name=\"i1\"/></interfaces></router><router name=\"s2\"><interfaces>
<interface name=\"s3\"/><interface name=\"s4\"/></interfaces></router>
<router name=\"s7\"><interfaces><interface name=\"i1\"/><interface name=\"a\"/>
<interface name=\"b\"/></interfaces></router><router><interfaces/></router></routers><links>
<link><sides><shared_interface router=\"s2\" interface=\"s3\"/>
<shared_interface router=\"s7\" interface=\"a\"/></sides></link>
<link><sides><shared_interface router=\"s7\" interface=\"b\"/>
<shared_interface router=\"s2\" interface=\"s4\"/></sides></link></links></network>"

/-- The same network with a router that is called as a missing name is written. -/
def mergingTopology : String := "<network><routers><router name=\"s1\"><interfaces>
<interface name=\"i1\"/></interfaces></router><router name=\"s2\"><interfaces>
<interface name=\"s3\"/><interface name=\"s4\"/></interfaces></router>
<router name=\"s7\"><interfaces><interface name=\"i1\"/><interface name=\"a\"/>
<interface name=\"b\"/></interfaces></router><router><interfaces/></router>
<router name=\"None\"><interfaces/></router></routers><links>
<link><sides><shared_interface router=\"s2\" interface=\"s3\"/>
<shared_interface router=\"s7\" interface=\"a\"/></sides></link>
<link><sides><shared_interface router=\"s7\" interface=\"b\"/>
<shared_interface router=\"s2\" interface=\"s4\"/></sides></link></links></network>"

/-- A table without destinations. -/
def ringRouting : String :=
  "<routes><routings><routing for=\"s2\"><destinations/></routing></routings></routes>"

/-- The network of these documents, with further routers. -/
def ring (more : List Router) : Network :=
  let s (name : String) (interfaces : List String) : Router :=
    ⟨⟨"", some name⟩, interfaces.map fun i => ⟨some i, false⟩⟩
  let link (r i r' i' : String) : Link :=
    ⟨⟨⟨"", some r⟩, some i⟩, ⟨⟨"", some r'⟩, some i'⟩⟩
  ⟨[s "s1" ["i1"], s "s2" ["s3", "s4"], s "s7" ["i1", "a", "b"], ⟨⟨"", none⟩, []⟩] ++ more,
    [link "s2" "s3" "s7" "a", link "s7" "b" "s2" "s4"], [⟨s "s2" ["s3", "s4"], []⟩]⟩

set_option maxRecDepth 10000 in
lemma read_ring : Network.read ringTopology ringRouting = .ok (ring []) := by
  simp only [Network.read, readTopology, readRouting,
    show Xml.Node.read ringTopology = _ from Xml.Node.read_ofList _,
    show Xml.Node.read ringRouting = _ from Xml.Node.read_ofList _]
  decide +kernel

set_option maxRecDepth 10000 in
lemma read_merging : Network.read mergingTopology ringRouting =
    .ok (ring [⟨⟨"", some Text.missing⟩, []⟩]) := by
  simp only [Network.read, readTopology, readRouting,
    show Xml.Node.read mergingTopology = _ from Xml.Node.read_ofList _,
    show Xml.Node.read ringRouting = _ from Xml.Node.read_ofList _]
  decide +kernel

/-- Six copies are made within the base, of the router without a name as well. -/
theorem nest_multiplies_ring : ∃ n, Network.read ringTopology ringRouting = .ok (ring []) ∧
    none ∈ (ring []).routers.map Router.name ∧ (ring []).nest 2 = .ok n ∧
    (ring []).Multiplied 2 n := by
  have hnest : ((ring []).nest 2).toOption.any (fun _ => true) = true := by decide +kernel
  obtain ⟨n, hn, -⟩ := exists_of_any_eq_true hnest
  refine ⟨n, read_ring, by decide, hn, nest_multiplies read_ring ?_ ?_ hn⟩
  · simp [ring, Router.name, RouterId.name]
  · exact fun _ _ => by decide

/-- In each copy, the router without a name and the one that is called like it are one. -/
theorem nest_merges_missing :
    ∃ base n, Network.read mergingTopology ringRouting = .ok base ∧
      (∀ r ∈ base.routers, ∀ s, r.name = some s → '_' ∉ s.toList) ∧ base.nest 1 = .ok n ∧
      base.routers.length = 5 ∧ n.routers.length = 13 := by
  have hnest : ((ring [⟨⟨"", some Text.missing⟩, []⟩]).nest 1).toOption.any (fun n =>
      n.routers.length = 13) = true := by
    decide +kernel
  obtain ⟨n, hn, hlength⟩ := exists_of_any_eq_true hnest
  refine ⟨_, n, read_merging, ?_, hn, rfl, of_decide_eq_true hlength⟩
  simp [ring, Router.name, RouterId.name, Text.missing]

end MplsReach
