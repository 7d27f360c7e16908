/-
Computations that may fail, taken apart.

* `exists_of_bind_eq_ok`: a computation with a result has one at each of its parts.
* `eq_error_or_of_bind_eq_error`: a computation fails where one of its parts does.
* `exists_mapM_iff`: a list is computed exactly if each of its elements is.
* `exists_of_mapM_eq_error`: a list fails to be computed where one of its elements does.
* `mem_of_mapM_eq_ok`: what is in a list that is computed from another one.
* `forall₂_of_mapM_eq_ok`: the elements of such a list, one by one.
-/
import Mathlib.Data.List.Forall2
import Mathlib.Tactic.Common

namespace MplsReach

variable {ε α β : Type} {f : α → Except ε β} {as : List α} {bs : List β}

/-- A computation with a result has one at each of its parts. -/
lemma exists_of_bind_eq_ok {x : Except ε α} {b : β} (h : (x >>= f) = .ok b) :
    ∃ a, x = .ok a ∧ f a = .ok b := by
  cases x with
  | error e => exact absurd h (by simp [bind, Except.bind])
  | ok a => exact ⟨a, rfl, h⟩

/-- A computation fails where one of its parts does. -/
lemma eq_error_or_of_bind_eq_error {x : Except ε α} {e : ε} (h : (x >>= f) = .error e) :
    x = .error e ∨ ∃ a, x = .ok a ∧ f a = .error e := by
  cases x with
  | error e' => exact .inl (congrArg Except.error (Except.error.inj h))
  | ok a => exact .inr ⟨a, rfl, h⟩

/-- A computation whose result passes a test has one. -/
lemma exists_of_any_eq_true {x : Except ε α} {p : α → Bool} (h : x.toOption.any p = true) :
    ∃ a, x = .ok a ∧ p a = true := by
  cases x with
  | error e => exact absurd h Bool.false_ne_true
  | ok a => exact ⟨a, rfl, h⟩

/-- A list is computed from another one element by element. -/
lemma mapM_cons_eq_ok_iff {a : α} :
    (a :: as).mapM f = .ok bs ↔ ∃ b cs, f a = .ok b ∧ as.mapM f = .ok cs ∧ bs = b :: cs := by
  rw [List.mapM_cons]
  constructor
  · intro h
    obtain ⟨b, hb, h⟩ := exists_of_bind_eq_ok h
    obtain ⟨cs, hcs, h⟩ := exists_of_bind_eq_ok h
    exact ⟨b, cs, hb, hcs, (Except.ok.inj h).symm⟩
  · rintro ⟨b, cs, hb, hcs, rfl⟩
    rw [hb, hcs]
    rfl

/-- A list is computed exactly if each of its elements is. -/
lemma exists_mapM_iff : (∃ bs, as.mapM f = .ok bs) ↔ ∀ a ∈ as, ∃ b, f a = .ok b := by
  induction as with
  | nil => exact ⟨fun _ _ h => absurd h List.not_mem_nil, fun _ => ⟨[], rfl⟩⟩
  | cons a as ih =>
      rw [List.forall_mem_cons, ← ih]
      constructor
      · rintro ⟨bs, h⟩
        obtain ⟨b, cs, hb, hcs, -⟩ := mapM_cons_eq_ok_iff.mp h
        exact ⟨⟨b, hb⟩, cs, hcs⟩
      · rintro ⟨⟨b, hb⟩, cs, hcs⟩
        exact ⟨b :: cs, mapM_cons_eq_ok_iff.mpr ⟨b, cs, hb, hcs, rfl⟩⟩

/-- A list fails to be computed where one of its elements does, in the same way. -/
lemma exists_of_mapM_eq_error {e : ε} (h : as.mapM f = .error e) : ∃ a ∈ as, f a = .error e := by
  induction as with
  | nil => exact absurd h (by simp [pure, Except.pure])
  | cons a as ih =>
      rw [List.mapM_cons] at h
      rcases eq_error_or_of_bind_eq_error h with ha | ⟨b, -, h⟩
      · exact ⟨a, List.mem_cons_self, ha⟩
      · rcases eq_error_or_of_bind_eq_error h with has | ⟨bs, -, h⟩
        · obtain ⟨a', ha', hfail⟩ := ih has
          exact ⟨a', List.mem_cons_of_mem a ha', hfail⟩
        · exact absurd h (by simp [pure, Except.pure])

/-- What is in a list that is computed from another one. -/
lemma mem_of_mapM_eq_ok (h : as.mapM f = .ok bs) {b : β} : b ∈ bs ↔ ∃ a ∈ as, f a = .ok b := by
  induction as generalizing bs with
  | nil =>
      obtain rfl : [] = bs := Except.ok.inj h
      simp
  | cons a as ih =>
      obtain ⟨c, cs, hc, hcs, rfl⟩ := mapM_cons_eq_ok_iff.mp h
      simp only [List.mem_cons, ih hcs, exists_eq_or_imp, hc, Except.ok.injEq]
      exact or_congr_left eq_comm

/-- What is in the lists that are computed from the elements of a list. -/
lemma mem_flatten_of_mapM_eq_ok {g : α → Except ε (List β)} {parts : List (List β)}
    {Q : α → β → Prop} (h : as.mapM g = .ok parts)
    (hg : ∀ a ∈ as, ∀ cs, g a = .ok cs → ∀ b, b ∈ cs ↔ Q a b) {b : β} :
    b ∈ parts.flatten ↔ ∃ a ∈ as, Q a b := by
  rw [List.mem_flatten]
  constructor
  · rintro ⟨cs, hcs, hb⟩
    obtain ⟨a, ha, hga⟩ := (mem_of_mapM_eq_ok h).mp hcs
    exact ⟨a, ha, (hg a ha cs hga b).mp hb⟩
  · rintro ⟨a, ha, hQ⟩
    obtain ⟨cs, hga⟩ := exists_mapM_iff.mp ⟨parts, h⟩ a ha
    exact ⟨cs, (mem_of_mapM_eq_ok h).mpr ⟨a, ha, hga⟩, (hg a ha cs hga b).mpr hQ⟩

end MplsReach
