import Toolpath.Toml.Document
import Toolpath.Proofs.Json.Numeral

/-!
# Numbers in TOML, there and back

A float is written as a numeral with a point and without an exponent. Such a numeral is no date and
no time, no whole number and no number in another base, so it is read as the float that its digits
are the shortest of.

* `decimal?_body` — a numeral with a fraction is read as a decimal
* `moment?_body` — it is no date and no time
* `toFloat_decimal` — the decimal that a float is written as is read as that float
* `value?_text` — a finite float comes back from its text
-/

namespace Toolpath.Toml

open Json (Numeral)

/-! ## Digits -/

/-- A number that stands in front of this text ends there. -/
def Ends (rest : List Char) : Prop :=
  ∀ c ∈ rest.head?, Json.continues c = false ∧ c ≠ '_'

theorem ends_newline (rest : List Char) : Ends ('\n' :: rest) := by
  simp [Ends, Json.continues, Digits.isDigit]

theorem moreDigits_append {ds rest : List Char} (hds : ∀ c ∈ ds, Digits.isDigit c = true)
    (hrest : ∀ c ∈ rest.head?, Digits.isDigit c = false ∧ c ≠ '_') :
    moreDigits Digits.isDigit (ds ++ rest) = some (ds, rest) := by
  induction ds with
  | nil =>
    cases rest with
    | nil => simp [moreDigits]
    | cons c rest =>
      obtain ⟨hdigit, hbar⟩ := hrest c rfl
      simp [moreDigits, hdigit, hbar]
  | cons d ds ih =>
    obtain ⟨hd, hds⟩ := List.forall_mem_cons.mp hds
    have hbar : d ≠ '_' := by
      rintro rfl
      exact absurd hd (by decide)
    simp [moreDigits, hd, hbar, ih hds]

theorem digits?_append {ds rest : List Char} (hds : ∀ c ∈ ds, Digits.isDigit c = true)
    (hne : ds ≠ []) (hrest : ∀ c ∈ rest.head?, Digits.isDigit c = false ∧ c ≠ '_') :
    digits? Digits.isDigit (ds ++ rest) = some (ds, rest) := by
  obtain ⟨d, ds, rfl⟩ := List.exists_cons_of_ne_nil hne
  obtain ⟨hd, hds⟩ := List.forall_mem_cons.mp hds
  simp [digits?, hd, moreDigits_append hds hrest]

theorem whole?_append {ds rest : List Char} (hds : ∀ c ∈ ds, Digits.isDigit c = true)
    (hne : ds ≠ []) (hzero : ds = ['0'] ∨ ds.head? ≠ some '0')
    (hrest : ∀ c ∈ rest.head?, Digits.isDigit c = false ∧ c ≠ '_') :
    whole? (ds ++ rest) = some (ds, rest) := by
  unfold whole?
  obtain rfl | hzero := hzero
  · rfl
  · obtain ⟨d, ds, rfl⟩ := List.exists_cons_of_ne_nil hne
    split
    · next heq => exact absurd (congrArg List.head? heq) (by simpa using hzero)
    · exact digits?_append hds hne hrest

theorem exponent?_of_ends {rest : List Char} (h : Ends rest) :
    exponent? rest = some (none, rest) := by
  cases rest with
  | nil => rfl
  | cons c rest =>
    have hstop := (h c rfl).1
    simp only [Json.continues, Bool.or_eq_false_iff, beq_eq_false_iff_ne] at hstop
    simp [exponent?, hstop]

/-! ## Numerals -/

/-- A numeral with a point and without an exponent. -/
structure Pointed (n : Numeral) : Prop extends n.Proper where
  fraction_ne : n.fraction ≠ []
  exponent : n.exponent = none

section

variable {n : Numeral} (h : Pointed n) {rest : List Char} (hrest : Ends rest)

include h

theorem body_append (rest : List Char) :
    n.body ++ rest = n.whole ++ '.' :: (n.fraction ++ rest) := by
  obtain ⟨c, cs, hcs⟩ := List.exists_cons_of_ne_nil h.fraction_ne
  rw [Numeral.body, h.exponent, hcs]
  simp [Numeral.fractionText, Numeral.exponentText]

theorem splitSign_body (rest : List Char) :
    Decimal.splitSign (Exact.sign n.negative ++ n.body ++ rest) = (n.negative, n.body ++ rest) := by
  obtain ⟨c, cs, hbody, hdigit⟩ := h.body_eq_cons
  cases n.negative with
  | true => rfl
  | false =>
    rw [hbody]
    exact Decimal.splitSign_of_digit hdigit (cs ++ rest)

theorem whole?_body (rest : List Char) :
    whole? (n.body ++ rest) = some (n.whole, '.' :: (n.fraction ++ rest)) := by
  rw [body_append h]
  exact whole?_append h.whole h.whole_ne h.noLeadingZero (by simp [Digits.isDigit])

include hrest

theorem fraction?_body : fraction? ('.' :: (n.fraction ++ rest)) = some (n.fraction, rest) :=
  digits?_append h.fraction h.fraction_ne fun c hc =>
    ⟨Numeral.continues_of_isDigit (hrest c hc).1, (hrest c hc).2⟩

/-- A numeral with a point is read as the decimal of its digits. -/
theorem decimal?_body :
    decimal? (Exact.sign n.negative ++ n.body ++ rest) =
      (realOf? (Decimal.ofParts n.negative n.whole n.fraction 0)).map fun v => (v, rest) := by
  obtain ⟨c, cs, hbody, hdigit⟩ := h.body_eq_cons
  have hletter : ∀ {letter : Char} {tail : List Char}, Digits.isDigit letter = false →
      n.body ++ rest ≠ letter :: tail := by
    rintro letter tail hletter heq
    rw [hbody] at heq
    rw [(List.cons.inj heq).1, hletter] at hdigit
    exact Bool.false_ne_true hdigit
  have hwhole := whole?_body h rest
  have hfraction := fraction?_body h hrest
  have hexponent := exponent?_of_ends hrest
  have hnotEmpty : n.fraction.isEmpty = false := by simpa using h.fraction_ne
  unfold decimal?
  simp only [splitSign_body h rest]
  -- the words for infinity and for no number begin with a letter
  split
  · next heq => exact absurd heq (hletter (by decide))
  · next heq => exact absurd heq (hletter (by decide))
  · simp only [hwhole, hfraction, hexponent, hnotEmpty, bind, Option.bind, Bool.false_and,
      Bool.false_eq_true, if_false, Option.getD_none]
    cases realOf? (Decimal.ofParts n.negative n.whole n.fraction 0) <;> rfl

end

/-! ## No other literal -/

section

variable {n : Numeral} (h : Pointed n)

include h

/-- A zero that comes first has the point behind it. -/
theorem second_of_zero {rest tail : List Char} {c : Char}
    (heq : Exact.sign n.negative ++ n.body ++ rest = '0' :: c :: tail) : c = '.' := by
  cases hsign : n.negative with
  | true =>
    rw [hsign] at heq
    exact absurd (List.cons.inj heq).1 (by decide)
  | false =>
    rw [hsign] at heq
    have hbody : n.whole ++ '.' :: (n.fraction ++ rest) = '0' :: c :: tail :=
      (body_append h rest).symm.trans heq
    obtain hzero | hhead := h.noLeadingZero
    · rw [hzero] at hbody
      exact (List.cons.inj (List.cons.inj hbody).2).1.symm
    · obtain ⟨d, ds, hwhole⟩ := List.exists_cons_of_ne_nil h.whole_ne
      rw [hwhole] at hbody hhead
      exact absurd (congrArg some (List.cons.inj hbody).1) hhead

/-- It is no number in another base. -/
theorem number?_body (rest : List Char) :
    number? (Exact.sign n.negative ++ n.body ++ rest) =
      decimal? (Exact.sign n.negative ++ n.body ++ rest) := by
  unfold number?
  split
  · next heq => exact absurd (second_of_zero h heq) (by decide)
  · next heq => exact absurd (second_of_zero h heq) (by decide)
  · next heq => exact absurd (second_of_zero h heq) (by decide)
  · rfl

omit h in
theorem digits_of_field? {width least greatest k : ℕ} {cs rest : List Char}
    (hfield : field? width least greatest cs = some (k, rest)) :
    ∃ ds, cs = ds ++ rest ∧ ds.length = width ∧ ∀ c ∈ ds, Digits.isDigit c = true := by
  unfold field? at hfield
  dsimp only at hfield
  split at hfield
  · next hdigits =>
    obtain ⟨-, rfl⟩ := Prod.mk.inj (Option.some.inj hfield)
    exact ⟨_, (List.take_append_drop width cs).symm, hdigits.1, by simpa using hdigits.2.1⟩
  · cases hfield

/-- Behind digits of it stands another digit or the point. -/
theorem mark?_after_field? {width least greatest k : ℕ} {rest tail : List Char} (mark : Char)
    (hwidth : 0 < width) (hdigit : Digits.isDigit mark = false) (hpoint : mark ≠ '.')
    (hfield : field? width least greatest (Exact.sign n.negative ++ n.body ++ rest) =
      some (k, tail)) : mark? mark tail = none := by
  obtain ⟨ds, hsplit, hlength, hds⟩ := digits_of_field? hfield
  obtain ⟨d, ds', rfl⟩ := List.exists_cons_of_length_pos (hlength ▸ hwidth)
  -- a field has no sign, so the numeral has none
  have hbody : n.whole ++ '.' :: (n.fraction ++ rest) = d :: ds' ++ tail := by
    rw [← body_append h]
    cases hsign : n.negative with
    | false =>
      rw [hsign] at hsplit
      exact hsplit
    | true =>
      rw [hsign] at hsplit
      have hminus : '-' = d := (List.cons.inj hsplit).1
      exact absurd (hds d List.mem_cons_self) (by rw [← hminus]; decide)
  have hother : ∀ {c : Char} {cs : List Char}, tail = c :: cs →
      Digits.isDigit c = true ∨ c = '.' → mark? mark tail = none := by
    rintro c cs rfl hc
    refine if_neg ?_
    rintro rfl
    obtain hc | hc := hc
    · exact Bool.false_ne_true (hdigit.symm.trans hc)
    · exact hpoint hc
  -- the field takes in the point, ends in front of it, or ends among the digits
  obtain ⟨left, hleft, htail⟩ | ⟨right, hright, hpointed⟩ := List.append_eq_append_iff.mp hbody
  · cases left with
    | nil => exact hother htail.symm (.inr rfl)
    | cons c left =>
      obtain ⟨rfl, -⟩ := List.cons.inj htail
      have hdot : Digits.isDigit '.' = true := hds '.' (by rw [hleft]; simp)
      exact absurd hdot (by decide)
  · cases right with
    | nil => exact hother hpointed (.inr rfl)
    | cons c right =>
      exact hother hpointed (.inl (h.whole c (by rw [hright]; simp)))

/-- It is no date and no time. -/
theorem moment?_body (rest : List Char) :
    moment? (Exact.sign n.negative ++ n.body ++ rest) = none := by
  have hdate : date? (Exact.sign n.negative ++ n.body ++ rest) = none := by
    unfold date?
    cases hfield : field? 4 0 9999 (Exact.sign n.negative ++ n.body ++ rest) with
    | none => rfl
    | some found =>
      have hmark := mark?_after_field? h '-' (by decide) (by decide) (by decide) hfield
      simp [hmark]
  have htime : time? (Exact.sign n.negative ++ n.body ++ rest) = none := by
    unfold time?
    cases hfield : field? 2 0 23 (Exact.sign n.negative ++ n.body ++ rest) with
    | none => rfl
    | some found =>
      have hmark := mark?_after_field? h ':' (by decide) (by decide) (by decide) hfield
      simp [hmark]
  rw [moment?, dateAndTime?, hdate, htime]
  rfl

end

/-! ## Floats -/

/-- The numeral that a float is written as in TOML. -/
def numeral (x : Float) : Numeral :=
  .pointed (Shortest.decimal .up x).negative (Digits.ofNat (Shortest.decimal .up x).mantissa)
    (Shortest.decimal .up x).exponent

theorem pointed_numeral (x : Float) : Pointed (numeral x) where
  toProper := Numeral.proper_pointed (Digits.isDigit_ofNat _) (Digits.ofNat_ne_nil _) _
    (Numeral.head?_mantissa (Shortest.decimal_pos_or .up x))
  fraction_ne := Numeral.fraction_pointed (Digits.ofNat_ne_nil _) _ _
  exponent := Numeral.exponent_pointed _ _ _

theorem text_eq {x : Float} (h : x.isFinite = true) :
    NumberFormat.toml.text x = Exact.sign (numeral x).negative ++ (numeral x).body := by
  rw [NumberFormat.text_eq h, numeral, Numeral.negative_pointed,
    Numeral.body_pointed (Digits.ofNat_ne_nil _)]
  rfl

/-- The text of a float begins with a sign or a digit. -/
theorem text_head {x : Float} (h : x.isFinite = true) :
    ∃ c cs, NumberFormat.toml.text x = c :: cs ∧ (c = '-' ∨ Digits.isDigit c = true) := by
  obtain ⟨c, cs, hbody, hdigit⟩ := (pointed_numeral x).body_eq_cons
  rw [text_eq h, hbody]
  cases (numeral x).negative with
  | true => exact ⟨'-', c :: cs, rfl, .inl rfl⟩
  | false => exact ⟨c, cs, rfl, .inr hdigit⟩

/-- The decimal that a float is read as. -/
def decimal (x : Float) : Decimal :=
  .ofParts (numeral x).negative (numeral x).whole (numeral x).fraction 0

/-- The float comes back from it. -/
theorem toFloat_decimal {x : Float} (h : x.isFinite = true) : (decimal x).toFloat = x := by
  refine Shortest.toFloat_eq h .up ?_ ?_
  · exact Numeral.negative_pointed _ _ _
  · have hvalue := Numeral.value_pointed (Shortest.decimal .up x).negative
      (Digits.ofNat (Shortest.decimal .up x).mantissa) (Shortest.decimal .up x).exponent
    rwa [Digits.value_ofNat] at hvalue

theorem isInf_of_isFinite {x : Float} (h : x.isFinite = true) : x.isInf = false := by
  have hunpacked : x.toModel.unpack.isFinite = true := h
  show x.toModel.unpack.isInf = false
  cases hparts : x.toModel.unpack <;> rw [hparts] at hunpacked <;> first | rfl | cases hunpacked

theorem realOf?_decimal {x : Float} (h : x.isFinite = true) :
    realOf? (decimal x) = some (.real x) := by
  unfold realOf?
  dsimp only
  rw [toFloat_decimal h, isInf_of_isFinite h]
  rfl

/-- What begins with a sign or a digit is read as a number, if not as a date or a time. -/
theorem value?_of_number {c : Char} (hc : c = '-' ∨ Digits.isDigit c = true) (room : ℕ)
    (cs : List Char) : value? room (c :: cs) = (moment? (c :: cs)).or (number? (c :: cs)) := by
  unfold value?
  split
  all_goals first
    | rfl
    | next heq =>
      obtain ⟨rfl, -⟩ := List.cons.inj heq
      exact absurd hc (by decide)

/-- **A finite float comes back from its text.** -/
theorem value?_text {x : Float} (hx : x.isFinite = true) (room : ℕ) {rest : List Char}
    (hrest : Ends rest) :
    value? room (NumberFormat.toml.text x ++ rest) = some (.real x, rest) := by
  have hpointed := pointed_numeral x
  have hnumber : number? (NumberFormat.toml.text x ++ rest) = some (.real x, rest) := by
    rw [text_eq hx, number?_body hpointed, decimal?_body hpointed hrest, ← decimal,
      realOf?_decimal hx]
    rfl
  have hmoment : moment? (NumberFormat.toml.text x ++ rest) = none := by
    rw [text_eq hx, moment?_body hpointed]
  obtain ⟨c, cs, htext, hc⟩ := text_head hx
  rw [htext, List.cons_append] at hnumber hmoment ⊢
  rw [value?_of_number hc, hmoment, hnumber]
  rfl

end Toolpath.Toml
