import Toolpath.Proofs.Number.Fixed
import Mathlib.Data.List.TakeWhile

/-!
# Plain numerals

The numerals that stand behind the letters of a motion line: an optional sign, and digits with a
point before, among or behind them, or with none. There is one digit at least, and no exponent.

* `PlainNumeral` — such a numeral, in its parts
* `Decimal.ofNumeral?_eq_some_iff` — these are the texts that are read, and what they are read as
-/

namespace Toolpath

/-- A numeral without an exponent, in its parts. -/
structure PlainNumeral where
  sign : Option Char
  whole : List Char
  /-- The digits behind the point, if there is a point. -/
  fraction : Option (List Char)
  sign_cases : ∀ c ∈ sign, c = '+' ∨ c = '-'
  isDigit_digits : ∀ c ∈ whole ++ fraction.getD [], Digits.isDigit c = true
  digits_ne_nil : whole ++ fraction.getD [] ≠ []

namespace PlainNumeral

variable (n : PlainNumeral)

/-- The numeral without its sign. -/
def body : List Char := n.whole ++ n.fraction.elim [] ('.' :: ·)

/-- The numeral in characters. -/
def text : List Char := n.sign.toList ++ n.body

/-- What the numeral denotes. -/
def decimal : Decimal := .ofParts (n.sign == some '-') n.whole (n.fraction.getD []) 0

theorem splitSign_text : Decimal.splitSign n.text = (n.sign == some '-', n.body) := by
  obtain ⟨sign, whole, fraction, hsign, hdigits, hsome⟩ := n
  cases sign with
  | some c =>
    rcases hsign c rfl with rfl | rfl
    · rfl
    · rfl
  | none =>
    cases whole with
    | cons c whole => exact Decimal.splitSign_of_digit (hdigits c (by simp)) _
    | nil =>
      -- without digits before it there is a point
      cases fraction with
      | none => exact absurd rfl hsome
      | some fraction => rfl

theorem splitPoint_body :
    Decimal.splitPoint n.body = some (n.whole, n.fraction.getD []) := by
  obtain ⟨sign, whole, fraction, hsign, hdigits, hsome⟩ := n
  have hwhole : ∀ c ∈ whole, Digits.isDigit c = true :=
    fun c hc => hdigits c (List.mem_append_left _ hc)
  unfold Decimal.splitPoint body
  cases fraction with
  | none => rw [Option.elim_none, Digits.span_append_stop hwhole (by simp), Option.getD_none]
  | some fraction =>
    have hfraction : fraction.all Digits.isDigit = true :=
      List.all_eq_true.mpr fun c hc => hdigits c (List.mem_append_right _ hc)
    rw [Option.elim_some, Digits.span_append_stop hwhole (by simp [Digits.isDigit])]
    exact if_pos hfraction

theorem ofNumeral?_text : Decimal.ofNumeral? n.text = some n.decimal := by
  have hsome : ¬(n.whole.isEmpty && (n.fraction.getD []).isEmpty) = true := by
    have hdigits := n.digits_ne_nil
    simpa [List.isEmpty_iff] using hdigits
  simp only [Decimal.ofNumeral?, splitSign_text, splitPoint_body]
  rw [if_neg hsome, decimal]

end PlainNumeral

namespace Decimal

theorem exists_of_splitSign (cs : List Char) :
    ∃ sign : Option Char, (∀ c ∈ sign, c = '+' ∨ c = '-') ∧
      cs = sign.toList ++ (splitSign cs).2 ∧ (splitSign cs).1 = (sign == some '-') := by
  unfold splitSign
  split
  · exact ⟨some '-', by simp, rfl, rfl⟩
  · exact ⟨some '+', by simp, rfl, rfl⟩
  · exact ⟨none, by simp, rfl, rfl⟩

theorem exists_of_splitPoint {cs whole digits : List Char}
    (h : splitPoint cs = some (whole, digits)) :
    ∃ fraction : Option (List Char), cs = whole ++ fraction.elim [] ('.' :: ·) ∧
      digits = fraction.getD [] ∧ ∀ c ∈ whole ++ digits, Digits.isDigit c = true := by
  have hsplit := Digits.span_append cs
  have hwhole : ∀ c ∈ (Digits.span cs).1, Digits.isDigit c = true :=
    fun c hc => List.mem_takeWhile_imp hc
  unfold splitPoint at h
  split at h
  · rename_i front hspan
    rw [hspan] at hsplit hwhole
    cases h
    exact ⟨none, hsplit.symm, rfl, by simpa using hwhole⟩
  · rename_i front rest hspan
    rw [hspan] at hsplit hwhole
    by_cases hall : rest.all Digits.isDigit = true
    · rw [if_pos hall] at h
      cases h
      refine ⟨some digits, hsplit.symm, rfl, fun c hc => ?_⟩
      exact (List.mem_append.mp hc).elim (hwhole c) (List.all_eq_true.mp hall c)
    · rw [if_neg hall] at h
      cases h
  · cases h

/-- **The texts that are read as decimals are the plain numerals.** -/
theorem ofNumeral?_eq_some_iff {cs : List Char} {d : Decimal} :
    ofNumeral? cs = some d ↔ ∃ n : PlainNumeral, n.text = cs ∧ n.decimal = d := by
  constructor
  · intro h
    obtain ⟨sign, hsign, hcs, hnegative⟩ := exists_of_splitSign cs
    unfold ofNumeral? at h
    cases hpoint : splitPoint (splitSign cs).2 with
    | none =>
      simp only [hpoint] at h
      cases h
    | some parts =>
      obtain ⟨whole, digits⟩ := parts
      obtain ⟨fraction, hbody, rfl, hdigits⟩ := exists_of_splitPoint hpoint
      simp only [hpoint] at h
      by_cases hnone : (whole.isEmpty && (fraction.getD []).isEmpty) = true
      · rw [if_pos hnone] at h
        cases h
      · rw [if_neg hnone] at h
        refine ⟨⟨sign, whole, fraction, hsign, hdigits, ?_⟩, ?_, ?_⟩
        · simpa [List.isEmpty_iff] using hnone
        · exact (congrArg (sign.toList ++ ·) hbody).symm.trans hcs.symm
        · rw [← Option.some.inj h, hnegative]
          rfl
  · rintro ⟨n, rfl, rfl⟩
    exact n.ofNumeral?_text

end Decimal

end Toolpath
