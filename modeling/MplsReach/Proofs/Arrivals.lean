/-
Where an automaton can be after a word, as it is searched for.

* `Nfa.Spells`: paths whose symbols read a word, letter by letter.
* `SilentlyBounded`: silent edges that follow each other from a location, up to a number of them.
* `silentlyBounded_of_acyclic`: where silent edges form no cycle, no more of them follow each other
  than there are edges.
* `exists_arrivalsWithin`: a search that may follow so many silent edges ends, with the locations
  that are reached.
* `Draft.accepts_iff_path`: **the search decides whether a path reads a word**, in automata whose
  silent edges form no cycle.
-/
import Mathlib.Data.List.Chain
import Mathlib.Data.List.Nodup
import Mathlib.Data.List.Perm.Subperm
import Mathlib.Logic.Relation
import MplsReach.Automaton.Draft
import MplsReach.Proofs.Paths

namespace MplsReach

variable {ν Sym α : Type}

/-! ### Words that are read -/

/-- A path whose symbols read a word, letter by letter. -/
def Nfa.Spells (a : Nfa ν Sym) (reads : Sym → α → Bool) (q : ν) (word : List α) (r : ν) : Prop :=
  ∃ v, List.Forall₂ (fun s c => reads s c = true) v word ∧ a.Path q v r

/-- The first edge of such a path, if it has one. -/
lemma Nfa.spells_iff {a : Nfa ν Sym} {reads : Sym → α → Bool} {q r : ν} {word : List α} :
    a.Spells reads q word r ↔ (word = [] ∧ r = q) ∨ ∃ e ∈ a.edges, e.source = q ∧
      ((e.symbol = none ∧ a.Spells reads e.target word r) ∨
        ∃ s c rest, e.symbol = some s ∧ word = c :: rest ∧ reads s c = true ∧
          a.Spells reads e.target rest r) := by
  constructor
  · rintro ⟨v, hv, hpath⟩
    cases hpath with
    | refl =>
        cases hv
        exact .inl ⟨rfl, rfl⟩
    | silent he hpath => exact .inr ⟨_, he, rfl, .inl ⟨rfl, v, hv, hpath⟩⟩
    | read he hpath =>
        cases hv with
        | cons hread hv => exact .inr ⟨_, he, rfl, .inr ⟨_, _, _, rfl, rfl, hread, _, hv, hpath⟩⟩
  · rintro (⟨rfl, rfl⟩ | ⟨⟨p, s?, t⟩, he, rfl, ⟨rfl, v, hv, hpath⟩ |
      ⟨s, c, rest, rfl, rfl, hread, v, hv, hpath⟩⟩)
    · exact ⟨[], .nil, .refl _⟩
    · exact ⟨v, hv, .silent he hpath⟩
    · exact ⟨s :: v, .cons hread hv, .read he hpath⟩

/-! ### Silent edges one behind the other -/

/-- A silent edge leads from one location to another. -/
def SilentEdge (edges : List (Edge ν Sym)) (q r : ν) : Prop := ⟨q, none, r⟩ ∈ edges

/-- No more silent edges than a number follow each other from a location. -/
def SilentlyBounded (edges : List (Edge ν Sym)) (limit : ℕ) (q : ν) : Prop :=
  ∀ qs, (q :: qs).IsChain (SilentEdge edges) → qs.length ≤ limit

variable {edges : List (Edge ν Sym)} {limit left : ℕ} {q r : ν}

lemma SilentlyBounded.tail (h : SilentlyBounded edges (left + 1) q) (he : SilentEdge edges q r) :
    SilentlyBounded edges left r := by
  intro qs hqs
  exact Nat.le_of_succ_le_succ (h (r :: qs) (List.isChain_cons_cons.mpr ⟨he, hqs⟩))

lemma SilentlyBounded.not_silentEdge (h : SilentlyBounded edges 0 q) : ¬ SilentEdge edges q r := by
  intro he
  have hlength := h [r] (List.isChain_pair.mpr he)
  exact absurd hlength (by simp)

/-- Silent edges without a cycle pass no location twice, so that they start at as many locations as
there are of them. -/
lemma silentlyBounded_of_acyclic (h : ∀ q, ¬ Relation.TransGen (SilentEdge edges) q q) (q : ν) :
    SilentlyBounded edges edges.length q := by
  intro qs hqs
  have hpairwise : (q :: qs).Pairwise (Relation.TransGen (SilentEdge edges)) :=
    List.isChain_iff_pairwise.mp (hqs.imp fun _ _ => .single)
  have hnodup : (q :: qs).Nodup := by
    refine hpairwise.imp fun {a b} hab => ?_
    rintro rfl
    exact h _ hab
  have hsources : (q :: qs).dropLast ⊆ edges.map Edge.source := by
    intro r hr
    obtain ⟨i, hi, rfl⟩ := List.getElem_of_mem hr
    rw [List.getElem_dropLast]
    rw [List.length_dropLast] at hi
    have he := List.isChain_iff_getElem.mp hqs i (by omega)
    exact List.mem_map.mpr ⟨_, he, rfl⟩
  have hlength := (List.subperm_of_subset (hnodup.sublist (List.dropLast_sublist _))
    hsources).length_le
  simpa using hlength

/-! ### The search -/

/-- Lists are computed for the elements of a list and put one behind the other, with some more
elements at the end. -/
lemma exists_mapM_flatten {β γ : Type} {f : β → Option (List γ)} {P : β → γ → Prop}
    {Q : γ → Prop} {bs : List β} {extra : List γ}
    (hQ : ∀ c, Q c ↔ c ∈ extra ∨ ∃ b ∈ bs, P b c)
    (h : ∀ b ∈ bs, ∃ cs, f b = some cs ∧ ∀ c, c ∈ cs ↔ P b c) :
    ∃ cs, (do let parts ← bs.mapM f; pure (parts.flatten ++ extra)) = some cs ∧
      ∀ c, c ∈ cs ↔ Q c := by
  have hparts : ∃ parts, bs.mapM f = some parts ∧ ∀ c, c ∈ parts.flatten ↔ ∃ b ∈ bs, P b c := by
    clear hQ
    induction bs with
    | nil => exact ⟨[], rfl, by simp⟩
    | cons b bs ih =>
        obtain ⟨⟨cs, hcs, hmem⟩, hrest⟩ := List.forall_mem_cons.mp h
        obtain ⟨parts, hparts, hall⟩ := ih hrest
        refine ⟨cs :: parts, by simp [List.mapM_cons, hcs, hparts], fun c => ?_⟩
        rw [List.flatten_cons, List.mem_append, hmem, hall, List.exists_mem_cons_iff]
  obtain ⟨parts, hparts, hmem⟩ := hparts
  refine ⟨parts.flatten ++ extra, by rw [hparts]; rfl, fun c => ?_⟩
  rw [List.mem_append, hmem, hQ, or_comm]

variable [DecidableEq ν] {a : Nfa ν Sym} {reads : Sym → α → Bool}

/-- The search at a location ends with the locations reached by the path of no edges and behind the
edges from there, if it does so behind each of these. -/
lemma exists_arrivalsWithin_of_edges {word : List α}
    (hsilent : ∀ r, SilentEdge a.edges q r → ∃ i, left = i + 1 ∧
      ∃ qs, arrivalsWithin reads a.edges limit word i r = some qs ∧
        ∀ t, t ∈ qs ↔ a.Spells reads r word t)
    (hread : ∀ c rest, word = c :: rest → ∀ r,
      ∃ qs, arrivalsWithin reads a.edges limit rest limit r = some qs ∧
        ∀ t, t ∈ qs ↔ a.Spells reads r rest t) :
    ∃ qs, arrivalsWithin reads a.edges limit word left q = some qs ∧
      ∀ t, t ∈ qs ↔ a.Spells reads q word t := by
  let behind (e : Edge ν Sym) (t : ν) : Prop :=
    (e.symbol = none ∧ a.Spells reads e.target word t) ∨
      ∃ s c rest, e.symbol = some s ∧ word = c :: rest ∧ reads s c = true ∧
        a.Spells reads e.target rest t
  rw [arrivalsWithin]
  refine exists_mapM_flatten (P := behind) (fun t => ?_) fun e hmem => ?_
  · rw [Nfa.spells_iff]
    simp [List.mem_filter, and_assoc, behind]
  · obtain ⟨he, hsource⟩ := List.mem_filter.mp hmem
    obtain ⟨p, s?, r⟩ := e
    obtain rfl : p = q := of_decide_eq_true hsource
    cases s? with
    | none =>
        obtain ⟨i, rfl, qs, hqs, hmem⟩ := hsilent r he
        exact ⟨qs, hqs, fun t => by simp [behind, hmem]⟩
    | some s =>
        cases word with
        | nil => exact ⟨[], rfl, fun t => by simp [behind]⟩
        | cons c rest =>
            obtain ⟨qs, hqs, hmem⟩ := hread c rest rfl r
            by_cases hc : reads s c = true
            · exact ⟨qs, by simp [hc, hqs], fun t => by simp [behind, hmem, hc]⟩
            · exact ⟨[], by simp [hc], fun t => by simp [behind, hc]⟩

/-- Along silent edges the search ends, if it does so behind the first letter of the word. -/
lemma exists_arrivalsWithin_of_rest {word : List α} (hq : SilentlyBounded a.edges left q)
    (hread : ∀ c rest, word = c :: rest → ∀ r,
      ∃ qs, arrivalsWithin reads a.edges limit rest limit r = some qs ∧
        ∀ t, t ∈ qs ↔ a.Spells reads r rest t) :
    ∃ qs, arrivalsWithin reads a.edges limit word left q = some qs ∧
      ∀ t, t ∈ qs ↔ a.Spells reads q word t := by
  induction left generalizing q with
  | zero => exact exists_arrivalsWithin_of_edges (fun r he => absurd he hq.not_silentEdge) hread
  | succ left ih =>
      exact exists_arrivalsWithin_of_edges (fun r he => ⟨left, rfl, ih (hq.tail he)⟩) hread

/-- **A search with room for all silent edges ends**, with the locations that are reached. It goes
on along silent edges with less room, and behind a letter with all of it again. -/
lemma exists_arrivalsWithin (hlimit : ∀ q, SilentlyBounded a.edges limit q) (word : List α)
    (hq : SilentlyBounded a.edges left q) :
    ∃ qs, arrivalsWithin reads a.edges limit word left q = some qs ∧
      ∀ t, t ∈ qs ↔ a.Spells reads q word t := by
  induction word generalizing left q with
  | nil => exact exists_arrivalsWithin_of_rest hq (by simp)
  | cons c rest ih =>
      refine exists_arrivalsWithin_of_rest hq fun c' rest' hword r => ?_
      obtain ⟨-, rfl⟩ := List.cons.inj hword
      exact ih (hlimit r)

/-- Without cycles of silent edges, the search ends with the locations that are reached. -/
lemma exists_arrivals (h : ∀ q, ¬ Relation.TransGen (SilentEdge a.edges) q q) (q : ν)
    (word : List α) :
    ∃ qs, arrivals? reads a.edges q word = some qs ∧ ∀ t, t ∈ qs ↔ a.Spells reads q word t :=
  exists_arrivalsWithin (silentlyBounded_of_acyclic h) word (silentlyBounded_of_acyclic h q)

/-! ### Automata that are built step by step -/

/-- The letter that reads a character. -/
def Letter.ofChar (c : Char) : Letter := .text (String.singleton c)

lemma Letter.reads_eq_true_iff {l : Letter} {c : Char} : l.reads c = true ↔ l = .ofChar c := by
  cases l with
  | text s => simp [reads, ofChar, ← String.toList_inj]
  | symbol s => simp [reads, ofChar]

/-- The letters that read characters one by one. -/
lemma Letter.forall₂_reads_iff {ls : List Letter} {word : List Char} :
    List.Forall₂ (fun l c => l.reads c = true) ls word ↔ ls = word.map ofChar := by
  simp only [reads_eq_true_iff]
  rw [← List.forall₂_map_right_iff, List.forall₂_eq_eq_eq]

namespace Draft

/-- The automaton of the edges between locations, from one location to another. -/
def between (d : Draft) (q final : ℕ) : Nfa ℕ Letter :=
  ⟨List.range d.names.length, d.wiredEdges, d.symbols.map .symbol, q, final⟩

/-- **The search decides whether a path reads a word.** In an automaton whose silent edges form no
cycle it ends, whatever the word and the locations, and says yes exactly if some path from the first
location to the second, through any silent edges, reads the characters of the word one by one. -/
theorem accepts_iff_path (d : Draft)
    (h : ∀ q, ¬ Relation.TransGen (SilentEdge d.wiredEdges) q q) (q final : ℕ) (word : String) :
    ∃ b, d.accepts q final word = .ok b ∧
      (b = true ↔ (d.between q final).Accepts (word.toList.map .ofChar)) := by
  obtain ⟨qs, hsearch, hmem⟩ : ∃ qs, arrivals? Letter.reads d.wiredEdges q word.toList = some qs ∧
      ∀ t, t ∈ qs ↔ (d.between q final).Spells Letter.reads q word.toList t :=
    exists_arrivals (a := d.between q final) h q word.toList
  refine ⟨qs.contains final, by rw [accepts, accepts?, hsearch]; rfl, ?_⟩
  simp only [List.contains_iff_mem, hmem, Nfa.Spells, Letter.forall₂_reads_iff, exists_eq_left]
  rfl

/-- Reads the letter `a` any number of times, and then `b` or nothing. -/
def repeating : Draft where
  names := ["start", "turn", "end"]
  edges := [⟨0, some (.text "a"), 0⟩, ⟨0, none, 1⟩, ⟨1, some (.text "b"), 2⟩, ⟨1, none, 2⟩]
  attached := [0, 1, 2, 3]
  wired := [0, 1, 2, 3]
  symbols := []
  initial := some 0
  final := some 2

/-- A word is read past a silent edge, though another one leads around its last letter; and there is
no path that reads a word with a letter behind the `b`. -/
theorem accepts_repeating : (∀ q, ¬ Relation.TransGen (SilentEdge repeating.wiredEdges) q q) ∧
    repeating.accepts 0 2 "aab" = .ok true ∧
    ¬ (repeating.between 0 2).Accepts ("aba".toList.map .ofChar) := by
  have hsilent : ∀ q, ¬ Relation.TransGen (SilentEdge repeating.wiredEdges) q q := by
    intro q hcycle
    have hup : ∀ p r, SilentEdge repeating.wiredEdges p r → p < r := by
      simp [SilentEdge, wiredEdges, repeating]
      omega
    have hless := hcycle.lift id hup
    rw [Relation.transGen_eq_self] at hless
    exact lt_irrefl q hless
  refine ⟨hsilent, ?_, ?_⟩
  · obtain ⟨b, hb, hiff⟩ := accepts_iff_path repeating hsilent 0 2 "aab"
    rw [hb, hiff.mpr ?_]
    exact .read (q := 0) (by decide) (.read (q := 0) (by decide)
      (.silent (q := 1) (by decide) (.read (q := 2) (by decide) (.refl 2))))
  · obtain ⟨b, hb, hiff⟩ := accepts_iff_path repeating hsilent 0 2 "aba"
    have hfalse : repeating.accepts 0 2 "aba" = .ok false := by cbv
    obtain rfl := Except.ok.inj (hb.symm.trans hfalse)
    exact fun hpath => Bool.false_ne_true (hiff.mpr hpath)

end Draft

end MplsReach
