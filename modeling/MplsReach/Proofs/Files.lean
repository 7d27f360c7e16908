/-
Files in directories right below the place where one is.

* `PlainName`: a name that stands for itself in a path; `read_of_plain`, `read_of_plain_pair`: the
  paths made of one and of two such names.
* `FileTree.entry?_put`: what stands where after something was put.
* `FileTree.ensureDirectory_of_plain`: a directory is there afterwards, and nothing else changes.
* `FileTree.write_of_plain`, `FileTree.text_eq_ok_iff`: a text in a directory is written where it is
  read.
-/
import Mathlib.Data.List.Basic
import MplsReach.FileTree
import MplsReach.Proofs.Results

namespace MplsReach

/-! ### Paths of plain names -/

/-- A name that stands for itself in a path, and is not too long. -/
structure PlainName (s : String) : Prop where
  ne_empty : s ≠ ""
  ne_here : s ≠ "."
  ne_back : s ≠ ".."
  no_slash : '/' ∉ s.toList
  no_null : '\x00' ∉ s.toList
  short : s.utf8ByteSize ≤ FileTree.longestName

instance (s : String) : Decidable (PlainName s) :=
  decidable_of_iff (s ≠ "" ∧ s ≠ "." ∧ s ≠ ".." ∧ '/' ∉ s.toList ∧ '\x00' ∉ s.toList ∧
      s.utf8ByteSize ≤ FileTree.longestName)
    ⟨fun h => ⟨h.1, h.2.1, h.2.2.1, h.2.2.2.1, h.2.2.2.2.1, h.2.2.2.2.2⟩,
      fun h => ⟨h.ne_empty, h.ne_here, h.ne_back, h.no_slash, h.no_null, h.short⟩⟩

namespace Text

variable {α : Type} {p : α → Bool} {as bs : List α}

/-- What is not cut in front of a list goes to its first part. -/
lemma cutWhere_append (h : ∀ a ∈ as, p a = false) {part : List α} {parts : List (List α)}
    (hbs : cutWhere p bs = part :: parts) : cutWhere p (as ++ bs) = (as ++ part) :: parts := by
  induction as with
  | nil => exact hbs
  | cons a as ih =>
      obtain ⟨ha, has⟩ := List.forall_mem_cons.mp h
      simp [cutWhere, ih has, ha]

/-- A list is cut at an element that satisfies the test. -/
lemma cutWhere_cons_of_pos {a : α} (ha : p a = true) :
    cutWhere p (a :: as) = [] :: cutWhere p as := by
  obtain ⟨part, parts, hparts⟩ := List.exists_cons_of_ne_nil (cutWhere_ne_nil p as)
  simp [cutWhere, hparts, ha]

end Text

variable {x y : String}

lemma PlainName.cutAt (hx : PlainName x) : Text.cutAt '/' x = [x] := by
  have hslash : ∀ c ∈ x.toList, decide (c = '/') = false :=
    fun c hc => decide_eq_false fun heq => hx.no_slash (heq ▸ hc)
  have hcut : Text.cutWhere (· = '/') (x.toList ++ []) = [x.toList ++ []] :=
    Text.cutWhere_append hslash rfl
  rw [List.append_nil] at hcut
  simp [Text.cutAt, hcut]

lemma PlainName.cutAt_pair (hx : PlainName x) (hy : PlainName y) :
    Text.cutAt '/' (x ++ "/" ++ y) = [x, y] := by
  have hslash : ∀ c ∈ x.toList, decide (c = '/') = false :=
    fun c hc => decide_eq_false fun heq => hx.no_slash (heq ▸ hc)
  have htext : (x ++ "/" ++ y).toList = x.toList ++ '/' :: y.toList := by simp
  rw [Text.cutAt, htext, Text.cutWhere_append hslash (Text.cutWhere_cons_of_pos rfl), List.map_cons,
    List.append_nil, String.ofList_toList]
  exact congrArg (x :: ·) hy.cutAt

/-- A plain name does not start with a slash. -/
lemma PlainName.exists_toList (hx : PlainName x) : ∃ c cs, x.toList = c :: cs ∧ c ≠ '/' := by
  obtain ⟨c, cs, hcs⟩ := List.exists_cons_of_ne_nil
    (fun h => hx.ne_empty (String.toList_eq_nil_iff.mp h))
  refine ⟨c, cs, hcs, ?_⟩
  rintro rfl
  exact hx.no_slash (by simp [hcs])

/-- A plain name does not end in a slash. -/
lemma PlainName.getLast?_ne (hx : PlainName x) : x.toList.getLast? ≠ some '/' :=
  fun h => hx.no_slash (List.mem_of_getLast? h)

lemma Trail.read_eq_ok {path : String} {names : List String} (hnull : '\x00' ∉ path.toList)
    (hempty : path ≠ "") (hfirst : path.toList.head? ≠ some '/')
    (hlast : path.toList.getLast? ≠ some '/')
    (hnames : (Text.cutAt '/' path).filter (· ≠ "") = names) :
    Trail.read path = .ok ⟨false, names, false⟩ := by
  simp [Trail.read, hnull, hempty, hfirst, hlast, ← hnames]

/-- A plain name is a path of one step. -/
lemma Trail.read_of_plain (hx : PlainName x) : Trail.read x = .ok ⟨false, [x], false⟩ := by
  obtain ⟨c, cs, hcs, hc⟩ := hx.exists_toList
  exact Trail.read_eq_ok hx.no_null hx.ne_empty (by simpa [hcs] using hc) hx.getLast?_ne
    (by simp [hx.cutAt, hx.ne_empty])

/-- Two plain names with a slash in between are a path of two steps. -/
lemma Trail.read_of_plain_pair (hx : PlainName x) (hy : PlainName y) :
    Trail.read (x ++ "/" ++ y) = .ok ⟨false, [x, y], false⟩ := by
  obtain ⟨c, cs, hcs, hc⟩ := hx.exists_toList
  obtain ⟨d, ds, hds, -⟩ := hy.exists_toList
  have hlast := hy.getLast?_ne
  refine Trail.read_eq_ok ?_ ?_ (by simpa [hcs] using hc) (by simpa [hds] using hlast) ?_
  · simp [hx.no_null, hy.no_null]
  · simp
  · simp [hx.cutAt_pair hy, hx.ne_empty, hy.ne_empty]

/-- A path of two plain names tells both. -/
lemma PlainName.pair_inj {x' y' : String} (hx : PlainName x) (hy : PlainName y)
    (hx' : PlainName x') (hy' : PlainName y') :
    x ++ "/" ++ y = x' ++ "/" ++ y' ↔ [x, y] = [x', y'] := by
  refine ⟨fun h => ?_, by simp +contextual⟩
  have hread := congrArg Trail.read h
  rw [Trail.read_of_plain_pair hx hy, Trail.read_of_plain_pair hx' hy'] at hread
  simpa using hread

/-- A plain name has no steps that lead nowhere. -/
lemma plainPath_of_plain (hx : PlainName x) : plainPath x = x := by
  obtain ⟨c, cs, hcs, hc⟩ := hx.exists_toList
  have hroot : x.startsWith "/" = false := by
    rw [String.startsWith_string_eq_false_iff, hcs]
    simp [Ne.symm hc]
  have hroots : x.startsWith "//" = false := by
    rw [String.startsWith_string_eq_false_iff, hcs]
    simp [Ne.symm hc]
  simp [plainPath, hx.cutAt, hx.ne_empty, hx.ne_here, hroot, hroots]

namespace FileTree

variable {t : FileTree} {place : List String} {e : FileEntry}

/-! ### What stands where -/

/-- Below the root, something stands where it was put, and all else stays. -/
lemma entry?_put (hplace : place ≠ []) (q : List String) :
    FileTree.entry? (t.put place e) q = if q = place then some e else t.entry? q := by
  by_cases hq : q = []
  · rw [if_neg (hq ▸ Ne.symm hplace), entry?, entry?, if_pos hq, if_pos hq]
  · rw [FileTree.entry?, if_neg hq, put, Dictionary.get?_put]
    by_cases h : q = place
    · simp [h]
    · simp [h, entry?, hq, Ne.symm h]

/-- What is found at a path stands at some place. -/
lemma exists_entry?_of_find {path : String} (h : t.find path = .ok e) :
    ∃ place, t.entry? place = some e := by
  obtain ⟨p, -, h⟩ := exists_of_bind_eq_ok h
  obtain ⟨place, -, h⟩ := exists_of_bind_eq_ok h
  refine ⟨place, ?_⟩
  cases hentry : t.entry? place with
  | none => simp [hentry] at h
  | some e' => cases e' <;> cases hclosed : p.closed <;> simp_all

/-- A text that is read is among what was put somewhere. -/
lemma exists_mem_of_text {path s : String} (h : t.text path = .ok s) :
    ∃ e ∈ t.entries, e.2 = .text s := by
  obtain ⟨e, hfind, h⟩ := exists_of_bind_eq_ok h
  obtain ⟨place, hentry⟩ := exists_entry?_of_find hfind
  cases e with
  | directory => exact absurd h (by simp)
  | text s' =>
      obtain rfl := Except.ok.inj h
      by_cases hplace : place = []
      · exact absurd hentry (by simp [FileTree.entry?, hplace])
      · rw [FileTree.entry?, if_neg hplace, Option.map_eq_some_iff] at hentry
        obtain ⟨e, he, hs⟩ := hentry
        exact ⟨e, List.mem_of_find?_eq_some he, hs⟩

/-! ### Directories and texts right below -/

/-- One step by a plain name. -/
lemma step_of_plain (hx : PlainName x) (h : t.entry? place = some .directory) :
    t.step place x = .ok (place ++ [x]) := by
  simp [step, h, hx.ne_here, hx.ne_back, Nat.not_lt.mpr hx.short]

lemma locate_of_plain (hx : PlainName x) (hhome : t.entry? t.home = some .directory) :
    t.locate ⟨false, [x], false⟩ = .ok (t.home ++ [x]) := by
  simp [locate, step_of_plain hx hhome, bind, Except.bind, pure, Except.pure]

lemma locate_of_plain_pair (hx : PlainName x) (hy : PlainName y)
    (hhome : t.entry? t.home = some .directory)
    (hdir : t.entry? (t.home ++ [x]) = some .directory) :
    t.locate ⟨false, [x, y], false⟩ = .ok (t.home ++ [x, y]) := by
  simp [locate, step_of_plain hx hhome, step_of_plain hy hdir, bind, Except.bind, pure,
    Except.pure]

/-- Where no text stands, a directory is there afterwards, and nothing else changes. -/
lemma ensureDirectory_of_plain (hx : PlainName x) (hhome : t.entry? t.home = some .directory)
    (hfree : ∀ s, t.entry? (t.home ++ [x]) ≠ some (.text s)) : ∃ u,
    t.ensureDirectory x = (u, none) ∧ u.home = t.home ∧
      ∀ q, u.entry? q = if q = t.home ++ [x] then some .directory else t.entry? q := by
  have hlocate := locate_of_plain hx hhome
  have hhas : t.has x = (t.entry? (t.home ++ [x])).isSome := by
    simp only [has, find, Trail.read_of_plain hx, bind, Except.bind, hlocate]
    cases t.entry? (t.home ++ [x]) with
    | none => rfl
    | some e => cases e <;> rfl
  cases hentry : t.entry? (t.home ++ [x]) with
  | none =>
      refine ⟨t.put (t.home ++ [x]) .directory, ?_, rfl, entry?_put (by simp)⟩
      simp [ensureDirectory, hhas, hentry, makeDirectories, Trail.read_of_plain hx, makeWay,
        makeDirectory, hlocate, bind, Except.bind]
  | some e =>
      obtain rfl : e = .directory := by
        cases e with
        | text s => exact absurd hentry (hfree s)
        | directory => rfl
      refine ⟨t, by simp [ensureDirectory, hhas, hentry], rfl, fun q => ?_⟩
      split
      next heq => rw [heq, hentry]
      next => rfl

/-- A text is written into a directory. -/
lemma write_of_plain (hx : PlainName x) (hy : PlainName y)
    (hhome : t.entry? t.home = some .directory)
    (hdir : t.entry? (t.home ++ [x]) = some .directory)
    (hfree : t.entry? (t.home ++ [x, y]) ≠ some .directory) (s : String) :
    t.write (x ++ "/" ++ y) s = .ok (t.put (t.home ++ [x, y]) (.text s)) := by
  simp only [write, writable, Trail.read_of_plain_pair hx hy, bind, Except.bind, pure, Except.pure,
    locate_of_plain_pair hx hy hhome hdir]

/-- A text in a directory is read where it stands. -/
lemma text_eq_ok_iff (hx : PlainName x) (hy : PlainName y)
    (hhome : t.entry? t.home = some .directory)
    (hdir : t.entry? (t.home ++ [x]) = some .directory) {s : String} :
    t.text (x ++ "/" ++ y) = .ok s ↔ t.entry? (t.home ++ [x, y]) = some (.text s) := by
  simp only [text, find, Trail.read_of_plain_pair hx hy, bind, Except.bind,
    locate_of_plain_pair hx hy hhome hdir]
  cases t.entry? (t.home ++ [x, y]) with
  | none => simp
  | some e => cases e <;> simp

end FileTree

end MplsReach
