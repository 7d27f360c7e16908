/-
Quoted texts can be told apart, also where something follows them.

* `hexValue`: the number that digits stand for; `hexValue_hex`: it is the one that was written.
* `readChar`: reads one character inside quotes; `readChar_quoteChar`: it is the one that was
  written.
* `quote_append_inj`: **a quoted text can be told from what it is followed by.**
-/
import Mathlib.Tactic.Common
import Mathlib.Tactic.IntervalCases
import MplsReach.Text.Quoted

namespace MplsReach.Text

/-! ### Digits -/

/-- The number that a digit stands for. -/
def hexDigit (c : Char) : ℕ := ((List.range 16).find? fun d => d.digitChar = c).getD 0

/-- The number that digits stand for. -/
def hexValue (cs : List Char) : ℕ := cs.foldl (fun v c => 16 * v + hexDigit c) 0

lemma hexDigit_digitChar {d : ℕ} (h : d < 16) : hexDigit d.digitChar = d := by
  interval_cases d <;> decide

lemma hexValue_append_singleton (cs : List Char) (c : Char) :
    hexValue (cs ++ [c]) = 16 * hexValue cs + hexDigit c := by
  rw [hexValue, List.foldl_append]
  rfl

lemma hexValue_replicate_append (k : ℕ) (cs : List Char) :
    hexValue (List.replicate k '0' ++ cs) = hexValue cs := by
  induction k with
  | zero => rfl
  | succ k ih => exact ih

lemma hexValue_toDigits (n : ℕ) : hexValue (Nat.toDigits 16 n) = n := by
  induction n using Nat.strongRecOn with
  | ind n ih =>
      by_cases hn : n < 16
      · rw [Nat.toDigits_of_lt_base hn]
        exact (Nat.zero_add _).trans (hexDigit_digitChar hn)
      · rw [Nat.toDigits_of_base_le (by decide) (by omega), hexValue_append_singleton,
          ih _ (by omega), hexDigit_digitChar (by omega)]
        omega

/-- Digits stand for the number that was written. -/
lemma hexValue_hex (width n : ℕ) : hexValue (hex width n).toList = n := by
  rw [hex, String.toList_ofList, hexValue_replicate_append, hexValue_toDigits]

lemma length_hex {width n : ℕ} (hwidth : 0 < width) (h : n < 16 ^ width) :
    (hex width n).toList.length = width := by
  have hdigits := (Nat.length_toDigits_le_iff (by decide) hwidth).mpr h
  rw [hex, String.toList_ofList, List.length_append, List.length_replicate]
  omega

/-! ### One character -/

/-- How many digits follow a letter behind a backslash, if any do. -/
def hexWidth (d : Char) : Option ℕ :=
  if d = 'x' then some 2 else if d = 'u' then some 4 else if d = 'U' then some 8 else none

/-- The character that a letter behind a backslash stands for. -/
def unescaped (d : Char) : Char :=
  if d = 'n' then '\n' else if d = 'r' then '\r' else if d = 't' then '\t' else d

/-- The character that a text inside quotes begins with, and what follows it. -/
def readChar : List Char → Option (Char × List Char)
  | '\\' :: d :: cs =>
    match hexWidth d with
    | some width => some (Char.ofNat (hexValue (cs.take width)), cs.drop width)
    | none => some (unescaped d, cs)
  | c :: cs => some (c, cs)
  | [] => none

lemma readChar_escaped {d : Char} (h : hexWidth d = none) (cs : List Char) :
    readChar ('\\' :: d :: cs) = some (unescaped d, cs) := by
  simp only [readChar, h]

lemma readChar_hex {d : Char} {width : ℕ} (h : hexWidth d = some width) (hwidth : 0 < width)
    {c : Char} (hc : c.toNat < 16 ^ width) (cs : List Char) :
    readChar ('\\' :: d :: ((hex width c.toNat).toList ++ cs)) = some (c, cs) := by
  have hlength := length_hex hwidth hc
  simp only [readChar, h, List.take_left' hlength, List.drop_left' hlength, hexValue_hex,
    Char.ofNat_toNat]

lemma readChar_of_ne {c : Char} (h : c ≠ '\\') (cs : List Char) :
    readChar (c :: cs) = some (c, cs) := by
  rw [readChar.eq_def]
  split
  · simp_all
  · simp_all
  · simp_all

/-- A character inside quotes is read back. -/
lemma readChar_quoteChar {mark : Char} (hmark : mark = '\'' ∨ mark = '"') (c : Char)
    (cs : List Char) : readChar ((quoteChar mark c).toList ++ cs) = some (c, cs) := by
  have hlt : c.toNat < 16 ^ 8 := c.val.toNat_lt
  unfold quoteChar
  split_ifs with h₁ h₂ h₃ h₄ h₅ h₆ h₇
  · rw [String.toList_ofList]
    have hc : c = '\'' ∨ c = '"' ∨ c = '\\' := by grind
    obtain rfl | rfl | rfl := hc <;> exact readChar_escaped (by decide) cs
  · rw [h₂]
    exact readChar_escaped (by decide) cs
  · rw [h₃]
    exact readChar_escaped (by decide) cs
  · rw [h₄]
    exact readChar_escaped (by decide) cs
  · rw [String.toList_singleton]
    exact readChar_of_ne (by simp_all) cs
  · rw [String.toList_append, show "\\x".toList = ['\\', 'x'] by decide]
    exact readChar_hex (by decide) (by decide) h₆ cs
  · rw [String.toList_append, show "\\u".toList = ['\\', 'u'] by decide]
    exact readChar_hex (by decide) (by decide) h₇ cs
  · rw [String.toList_append, show "\\U".toList = ['\\', 'U'] by decide]
    exact readChar_hex (by decide) (by decide) hlt cs

/-- The mark that closes the quotes does not begin a character inside of them. -/
lemma quoteChar_append_ne {mark : Char} (hmark : mark = '\'' ∨ mark = '"') (c : Char)
    (cs ds : List Char) : (quoteChar mark c).toList ++ cs ≠ mark :: ds := by
  have hne : mark ≠ '\\' := by
    rintro rfl
    revert hmark
    decide
  intro h
  have hread := readChar_quoteChar hmark c cs
  rw [h, readChar_of_ne hne, Option.some_inj, Prod.mk.injEq] at hread
  obtain ⟨rfl, -⟩ := hread
  rw [quoteChar, if_pos (by simp), String.toList_ofList] at h
  exact hne (List.cons.inj h).1.symm

/-! ### Whole texts -/

lemma quoteMark_cases (s : String) : quoteMark s = '\'' ∨ quoteMark s = '"' := by
  unfold quoteMark
  split_ifs
  · exact .inr rfl
  · exact .inl rfl

/-- What stands inside quotes up to the closing mark can be read off. -/
lemma flatMap_quoteChar_inj {mark : Char} (hmark : mark = '\'' ∨ mark = '"')
    {cs ds r s : List Char}
    (h : (cs.flatMap fun c => (quoteChar mark c).toList) ++ mark :: r =
      (ds.flatMap fun c => (quoteChar mark c).toList) ++ mark :: s) : cs = ds ∧ r = s := by
  induction cs generalizing ds with
  | nil =>
      cases ds with
      | nil => exact ⟨rfl, (List.cons.inj h).2⟩
      | cons d ds =>
          rw [List.flatMap_cons, List.append_assoc] at h
          exact (quoteChar_append_ne hmark d _ _ h.symm).elim
  | cons c cs ih =>
      rw [List.flatMap_cons, List.append_assoc] at h
      cases ds with
      | nil => exact (quoteChar_append_ne hmark c _ _ h).elim
      | cons d ds =>
          rw [List.flatMap_cons, List.append_assoc] at h
          have hread := readChar_quoteChar hmark c
            ((cs.flatMap fun c => (quoteChar mark c).toList) ++ mark :: r)
          rw [h, readChar_quoteChar hmark, Option.some_inj, Prod.mk.injEq] at hread
          obtain ⟨rfl, hrest⟩ := hread
          obtain ⟨rfl, hafter⟩ := ih hrest.symm
          exact ⟨rfl, hafter⟩

lemma toList_quote (s : String) : (quote s).toList = quoteMark s ::
    ((s.toList.flatMap fun c => (quoteChar (quoteMark s) c).toList) ++ [quoteMark s]) := by
  simp [quote, String.toList_join, List.flatMap_map]

/-- **A text in quotes can be told from what it is followed by.** -/
theorem quote_append_inj {s t : String} {r u : List Char}
    (h : (quote s).toList ++ r = (quote t).toList ++ u) : s = t ∧ r = u := by
  simp only [toList_quote, List.cons_append, List.append_assoc, List.nil_append,
    List.cons.injEq] at h
  obtain ⟨hmark, hinside⟩ := h
  rw [← hmark] at hinside
  obtain ⟨hs, hr⟩ := flatMap_quoteChar_inj (quoteMark_cases s) hinside
  exact ⟨String.toList_injective hs, hr⟩

end MplsReach.Text
