/-
Lists of entries with distinct keys, in the order in which the keys were first written.

* `put`: an entry, in place of the entry with its key or at the end.
* `find?_put`: the entry that was put is found under its key, all others are untouched.
* `keys_put`: the keys keep their order; a new key goes to the end.
* `putAll_eq_append`: entries with new keys go to the end.
-/

namespace MplsReach.Dictionary

variable {α κ : Type} [DecidableEq κ]

/-- An entry, in place of the first entry with its key or at the end. -/
def put (key : α → κ) (a : α) : List α → List α
  | [] => [a]
  | b :: bs => if key b = key a then a :: bs else b :: put key a bs

/-- Entries, one after the other. -/
def putAll (key : α → κ) (entries : List α) (as : List α) : List α :=
  as.foldl (fun bs a => put key a bs) entries

/-- The entry with a key. -/
def get? (key : α → κ) (k : κ) (as : List α) : Option α := as.find? fun a => key a = k

theorem get?_put (key : α → κ) (a : α) (k : κ) (as : List α) :
    get? key k (put key a as) = if key a = k then some a else get? key k as := by
  induction as with
  | nil => by_cases h : key a = k <;> simp [put, get?, h]
  | cons b bs ih =>
    unfold get? at ih ⊢
    rw [put]
    by_cases hb : key b = key a
    · by_cases h : key a = k <;> simp_all
    · by_cases h : key a = k
      · subst h
        simp_all
      · by_cases hk : key b = k <;> simp_all

theorem keys_put (key : α → κ) (a : α) (as : List α) :
    (put key a as).map key =
      if key a ∈ as.map key then as.map key else as.map key ++ [key a] := by
  induction as with
  | nil => simp [put]
  | cons b bs ih =>
    rw [put]
    by_cases hb : key b = key a
    · simp [hb]
    · by_cases h : key a ∈ bs.map key
      · simp_all
      · simp_all [Ne.symm hb]

theorem nodup_put (key : α → κ) (a : α) {as : List α} (h : (as.map key).Nodup) :
    ((put key a as).map key).Nodup := by
  rw [keys_put]
  split
  · exact h
  · rename_i hn
    rw [List.nodup_append]
    refine ⟨h, by simp, ?_⟩
    intro x hx y hy hxy
    simp only [List.mem_singleton] at hy
    exact hn (hy ▸ hxy ▸ hx)

theorem put_of_notMem {key : α → κ} {a : α} {entries : List α} (h : key a ∉ entries.map key) :
    put key a entries = entries ++ [a] := by
  induction entries with
  | nil => rfl
  | cons b entries ih =>
    rw [List.map_cons, List.mem_cons, not_or] at h
    rw [put, if_neg (Ne.symm h.1), ih h.2, List.cons_append]

/-- Entries with new keys go to the end. -/
theorem putAll_eq_append {key : α → κ} {entries as : List α}
    (h : ((entries ++ as).map key).Nodup) : putAll key entries as = entries ++ as := by
  induction as generalizing entries with
  | nil => simp [putAll]
  | cons a as ih =>
    have hput : put key a entries = entries ++ [a] := by
      refine put_of_notMem fun hmem => ?_
      rw [List.map_append, List.map_cons] at h
      exact (List.nodup_append.mp h).2.2 _ hmem _ List.mem_cons_self rfl
    have hrest : putAll key entries (a :: as) = putAll key (put key a entries) as := rfl
    rw [hrest, hput, ih (by simpa using h), List.append_assoc, List.singleton_append]

end MplsReach.Dictionary
