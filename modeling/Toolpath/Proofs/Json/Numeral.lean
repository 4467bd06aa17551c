import Toolpath.Json.Draft
import Toolpath.Proofs.Number.Shortest

/-!
# Numerals, there and back

The number text of a float is a numeral: digits in front of a point, digits behind it, an exponent.
Data in JSON and in TOML is read back through the same parts.

* `Numeral.body` — the text of a numeral behind its sign
* `Numeral.scanNumber_body` — a numeral that is properly written is scanned as it stands
* `Numeral.pointed`, `Numeral.scientific` — the numerals that digits are set out as
* `Numeral.ofFloat`, `Numeral.ofInt` — the numerals that numbers are written as in JSON
-/

namespace Toolpath

/-! ## Digits -/

namespace Digits

theorem char_ne_zero {d : ℕ} (h : d < 10) (hd : 0 < d) : char d ≠ '0' := by
  intro hchar
  have hvalue : digit (char d) = digit '0' := congrArg digit hchar
  rw [digit_char h] at hvalue
  exact absurd hvalue hd.ne'

theorem head?_prepend {n : ℕ} (hn : 0 < n) (rest : List Char) :
    (prepend n rest).head? ≠ some '0' := by
  induction n, rest using prepend.induct with
  | case1 n rest h =>
    rw [prepend, if_pos h]
    simpa using char_ne_zero h hn
  | case2 n rest h ih =>
    rw [prepend, if_neg h]
    exact ih (by omega)

/-- Only zero begins with a zero. -/
theorem head?_ofNat {n : ℕ} (hn : 0 < n) : (ofNat n).head? ≠ some '0' := head?_prepend hn []

theorem value_zeros (n : ℕ) (cs : List Char) : value (List.replicate n '0' ++ cs) = value cs := by
  induction n with
  | zero => rfl
  | succ n ih => exact ih

end Digits

/-- The text of a finite float is that of its shortest decimal. -/
theorem NumberFormat.text_eq {x : Float} (h : x.isFinite = true) (format : NumberFormat) :
    format.text x = Exact.sign (Shortest.decimal format.tie x).negative ++
      format.set (Shortest.decimal format.tie x).mantissa
        (Shortest.decimal format.tie x).exponent := by
  obtain ⟨negative, m, e, hparts, -⟩ := Binary64.exists_ofFloat h
  unfold NumberFormat.text Shortest.decimal
  rw [hparts]
  cases m <;> rfl

namespace Json

/-! ## The text of a numeral -/

/-- Characters that a number can go on with. -/
def continues (c : Char) : Bool := Digits.isDigit c || c == '.' || c == 'e' || c == 'E'

/-- A number that stands in front of this text ends there. -/
def Bounded (rest : List Char) : Prop := ∀ c ∈ rest.head?, continues c = false

theorem bounded_nil : Bounded [] := by simp [Bounded]

theorem bounded_cons {c : Char} (h : continues c = false) (rest : List Char) :
    Bounded (c :: rest) := by simpa [Bounded] using h

namespace Numeral

/-- The text of an exponent. -/
def exponentText : Option ℤ → List Char
  | none => []
  | some e => 'e' :: (if e < 0 then '-' else '+') :: Digits.ofNat e.natAbs

/-- The text of a fraction. -/
def fractionText : List Char → List Char
  | [] => []
  | c :: rest => '.' :: c :: rest

/-- The text of a numeral behind its sign. -/
def body (n : Numeral) : List Char :=
  n.whole ++ (fractionText n.fraction ++ exponentText n.exponent)

/-- A numeral that is written as a number should be: with digits only, at least one in front of the
point, and no zero in front of others. -/
structure Proper (n : Numeral) : Prop where
  whole : ∀ c ∈ n.whole, Digits.isDigit c = true
  whole_ne : n.whole ≠ []
  noLeadingZero : n.whole = ['0'] ∨ n.whole.head? ≠ some '0'
  fraction : ∀ c ∈ n.fraction, Digits.isDigit c = true

theorem Proper.body_eq_cons {n : Numeral} (h : n.Proper) :
    ∃ c cs, n.body = c :: cs ∧ Digits.isDigit c = true := by
  obtain ⟨c, cs, hwhole⟩ := List.exists_cons_of_ne_nil h.whole_ne
  refine ⟨c, cs ++ (fractionText n.fraction ++ exponentText n.exponent), ?_, ?_⟩
  · rw [body, hwhole, List.cons_append]
  · exact h.whole c (by simp [hwhole])

theorem digits1_append {ds rest : List Char} (hds : ∀ c ∈ ds, Digits.isDigit c = true)
    (hne : ds ≠ []) (hrest : ∀ c ∈ rest.head?, Digits.isDigit c = false) :
    digits1 (ds ++ rest) = .ok (ds, rest) := by
  unfold digits1
  rw [Digits.span_append_stop hds hrest]
  simp [hne]

theorem wholePart_append {ds rest : List Char} (hds : ∀ c ∈ ds, Digits.isDigit c = true)
    (hne : ds ≠ []) (hzero : ds = ['0'] ∨ ds.head? ≠ some '0')
    (hrest : ∀ c ∈ rest.head?, Digits.isDigit c = false) :
    wholePart (ds ++ rest) = .ok (ds, rest) := by
  unfold wholePart
  rw [digits1_append hds hne hrest]
  split
  · -- a zero in front of other digits
    next heq =>
    obtain ⟨hzeros, -⟩ := Prod.mk.inj (Except.ok.inj heq)
    rw [hzeros] at hzero
    simp at hzero
  · rfl

theorem continues_of_isDigit {c : Char} (h : continues c = false) : Digits.isDigit c = false := by
  simp only [continues, Bool.or_eq_false_iff] at h
  exact h.1.1.1

theorem head?_exponentText (e : Option ℤ) {rest : List Char} (hrest : Bounded rest) :
    ∀ c ∈ (exponentText e ++ rest).head?, Digits.isDigit c = false ∧ c ≠ '.' := by
  cases e with
  | none =>
    intro c hc
    have hstop := hrest c hc
    simp only [continues, Bool.or_eq_false_iff, beq_eq_false_iff_ne] at hstop
    exact ⟨hstop.1.1.1, hstop.1.1.2⟩
  | some e => simp [exponentText, Digits.isDigit]

theorem head?_fractionText (ds : List Char) (e : Option ℤ) {rest : List Char}
    (hrest : Bounded rest) :
    ∀ c ∈ (fractionText ds ++ (exponentText e ++ rest)).head?, Digits.isDigit c = false := by
  cases ds with
  | nil => exact fun c hc => (head?_exponentText e hrest c hc).1
  | cons d ds => simp [fractionText, Digits.isDigit]

theorem fractionPart_append {ds : List Char} (hds : ∀ c ∈ ds, Digits.isDigit c = true)
    {e : Option ℤ} {rest : List Char} (hrest : Bounded rest) :
    fractionPart (fractionText ds ++ (exponentText e ++ rest)) =
      .ok (ds, exponentText e ++ rest) := by
  have hstop := head?_exponentText e hrest
  cases ds with
  | nil =>
    show fractionPart (exponentText e ++ rest) = _
    unfold fractionPart
    split
    · next heq => exact absurd rfl (hstop '.' (by rw [heq]; rfl)).2
    · rfl
  | cons d ds =>
    exact digits1_append hds (List.cons_ne_nil d ds) fun c hc => (hstop c hc).1

theorem exponentPart_append (e : Option ℤ) {rest : List Char} (hrest : Bounded rest) :
    exponentPart (exponentText e ++ rest) = .ok (e, rest) := by
  cases e with
  | none =>
    cases rest with
    | nil => rfl
    | cons c rest =>
      have hstop := hrest c rfl
      simp only [continues, Bool.or_eq_false_iff, beq_eq_false_iff_ne] at hstop
      simp [exponentText, exponentPart, hstop]
  | some e =>
    have hdigits : digits1 (Digits.ofNat e.natAbs ++ rest) = .ok (Digits.ofNat e.natAbs, rest) :=
      digits1_append (Digits.isDigit_ofNat _) (Digits.ofNat_ne_nil _)
        fun c hc => continues_of_isDigit (hrest c hc)
    by_cases he : e < 0
    · simp [exponentText, exponentPart, exponentSign, he, hdigits, Except.map,
        Digits.value_ofNat, abs_of_neg he]
    · simp [exponentText, exponentPart, exponentSign, he, hdigits, Except.map,
        Digits.value_ofNat, not_lt.mp he]

/-- **A numeral is scanned as it stands.** -/
theorem scanNumber_body {n : Numeral} (h : n.Proper) {rest : List Char} (hrest : Bounded rest) :
    scanNumber n.negative (n.body ++ rest) = .ok (n, rest) := by
  have hwhole := wholePart_append h.whole h.whole_ne h.noLeadingZero
    (head?_fractionText n.fraction n.exponent hrest)
  simp only [scanNumber, body, List.append_assoc, hwhole, fractionPart_append h.fraction hrest,
    exponentPart_append n.exponent hrest, bind, Except.bind, pure, Except.pure]

/-! ## Digits set out as a numeral -/

/-- Digits times a power of ten, with a point and without an exponent. -/
def pointed (negative : Bool) (ds : List Char) : ℤ → Numeral
  | .ofNat e => ⟨negative, ds ++ List.replicate e '0', ['0'], none⟩
  | .negSucc e =>
    if e + 1 < ds.length then
      ⟨negative, ds.take (ds.length - (e + 1)), ds.drop (ds.length - (e + 1)), none⟩
    else ⟨negative, ['0'], List.replicate (e + 1 - ds.length) '0' ++ ds, none⟩

/-- Digits with one of them in front of the point, and an exponent. -/
def scientific (negative : Bool) (ds : List Char) (e : ℤ) : Numeral :=
  ⟨negative, ds.take 1, ds.drop 1, some e⟩

theorem negative_pointed (negative : Bool) (ds : List Char) (e : ℤ) :
    (pointed negative ds e).negative = negative := by
  unfold pointed
  split
  · rfl
  · split <;> rfl

theorem exponent_pointed (negative : Bool) (ds : List Char) (e : ℤ) :
    (pointed negative ds e).exponent = none := by
  unfold pointed
  split
  · rfl
  · split <;> rfl

theorem fraction_pointed {ds : List Char} (hne : ds ≠ []) (negative : Bool) (e : ℤ) :
    (pointed negative ds e).fraction ≠ [] := by
  have hlength := List.length_pos_iff.mpr hne
  unfold pointed
  split
  · simp
  · split
    · simp only [ne_eq, List.drop_eq_nil_iff]
      omega
    · simp [hne]

/-- The point does not change what digits are worth. -/
theorem value_pointed (negative : Bool) (ds : List Char) (e : ℤ) :
    (Digits.value ((pointed negative ds e).whole ++ (pointed negative ds e).fraction) : ℚ) *
      10 ^ (0 - ((pointed negative ds e).fraction.length : ℤ)) = Digits.value ds * 10 ^ e := by
  cases e with
  | ofNat e =>
    -- the zero behind the point is one digit more, and one place
    have hdigits : ds ++ List.replicate e '0' ++ ['0'] = ds ++ List.replicate (e + 1) '0' := by
      rw [List.append_assoc, ← List.replicate_succ']
    have hzeros : Digits.value (List.replicate (e + 1) '0') = 0 := by
      rw [← List.append_nil (List.replicate (e + 1) '0'), Digits.value_zeros]
      rfl
    simp only [pointed]
    rw [hdigits, Digits.value_append, hzeros, List.length_replicate, Int.ofNat_eq_natCast,
      zpow_natCast]
    simp only [List.length_singleton]
    push_cast
    ring
  | negSucc e =>
    simp only [pointed]
    split
    · -- the point stands among the digits
      next hplaces =>
      have hlength : (ds.drop (ds.length - (e + 1))).length = e + 1 := by
        rw [List.length_drop]
        omega
      rw [List.take_append_drop, hlength, zero_sub]
      rfl
    · -- zeros fill the places in front of the digits
      next hplaces =>
      have hlength : (List.replicate (e + 1 - ds.length) '0' ++ ds).length = e + 1 := by
        rw [List.length_append, List.length_replicate]
        omega
      have hvalue : Digits.value (['0'] ++ (List.replicate (e + 1 - ds.length) '0' ++ ds)) =
          Digits.value ds := Digits.value_zeros (e + 1 - ds.length + 1) ds
      rw [hvalue, hlength, zero_sub]
      rfl

theorem body_pointed {ds : List Char} (hne : ds ≠ []) (negative : Bool) (e : ℤ) :
    (pointed negative ds e).body = NumberFormat.pointed true ds e := by
  have hfraction := fraction_pointed hne negative e
  cases e with
  | ofNat e => simp [pointed, body, NumberFormat.pointed, fractionText, exponentText]
  | negSucc e =>
    by_cases hplaces : e + 1 < ds.length
    · simp only [pointed, if_pos hplaces] at hfraction ⊢
      obtain ⟨c, rest, hdrop⟩ := List.exists_cons_of_ne_nil hfraction
      simp [body, NumberFormat.pointed, hplaces, hdrop, fractionText, exponentText]
    · simp only [pointed, if_neg hplaces] at hfraction ⊢
      obtain ⟨c, rest, hdigits⟩ := List.exists_cons_of_ne_nil hfraction
      simp [body, NumberFormat.pointed, hplaces, hdigits, fractionText, exponentText]

theorem body_scientific {ds : List Char} (negative : Bool) (e : ℤ) :
    (scientific negative ds e).body = NumberFormat.scientific ds e := by
  match ds with
  | [] => simp [scientific, body, NumberFormat.scientific, fractionText, exponentText]
  | [d] => simp [scientific, body, NumberFormat.scientific, fractionText, exponentText]
  | d :: d' :: ds => simp [scientific, body, NumberFormat.scientific, fractionText, exponentText]

section Proper

variable {ds : List Char} (hds : ∀ c ∈ ds, Digits.isDigit c = true) (hne : ds ≠ [])

include hds hne

theorem proper_pointed (negative : Bool) {e : ℤ}
    (hzero : ds.head? ≠ some '0' ∨ ds = ['0'] ∧ e = 0) : (pointed negative ds e).Proper := by
  have hdigit : Digits.isDigit '0' = true := by decide
  obtain ⟨d, rest, rfl⟩ := List.exists_cons_of_ne_nil hne
  cases e with
  | ofNat e =>
    refine ⟨?_, by simp [pointed], ?_, by simp [pointed, hdigit]⟩
    · rintro c hc
      obtain hc | hc := List.mem_append.mp hc
      · exact hds c hc
      · rwa [List.eq_of_mem_replicate hc]
    · obtain hhead | ⟨hd, he⟩ := hzero
      · exact .inr (by simpa [pointed] using hhead)
      · left
        obtain rfl : e = 0 := by simpa using he
        simpa [pointed] using hd
  | negSucc e =>
    obtain hhead | ⟨-, he⟩ := hzero
    · by_cases hplaces : e + 1 < (d :: rest).length
      · obtain ⟨k, hk⟩ : ∃ k, (d :: rest).length - (e + 1) = k + 1 :=
          Nat.exists_eq_add_one.mpr (by omega)
        simp only [pointed, if_pos hplaces, hk]
        exact ⟨fun c hc => hds c (List.mem_of_mem_take hc), by simp, .inr (by simpa using hhead),
          fun c hc => hds c (List.mem_of_mem_drop hc)⟩
      · simp only [pointed, if_neg hplaces]
        refine ⟨by simp [hdigit], by simp, .inl rfl, ?_⟩
        rintro c hc
        obtain hc | hc := List.mem_append.mp hc
        · rwa [List.eq_of_mem_replicate hc]
        · exact hds c hc
    · exact absurd he (by omega)

theorem proper_scientific (negative : Bool) (e : ℤ) : (scientific negative ds e).Proper := by
  obtain ⟨d, rest, rfl⟩ := List.exists_cons_of_ne_nil hne
  refine ⟨by simpa [scientific] using hds d List.mem_cons_self, by simp [scientific], ?_,
    fun c hc => hds c (List.mem_cons_of_mem d hc)⟩
  simp only [scientific, List.take_succ_cons, List.take_zero, List.head?_cons, ne_eq,
    Option.some.injEq, List.cons.injEq, and_true]
  exact em (d = '0')

end Proper

/-! ## Numbers as numerals -/

/-- A decimal as JSON sets it out. -/
def ofDecimal (w : Decimal) : Numeral :=
  let ds := Digits.ofNat w.mantissa
  let leading := w.exponent + ds.length - 1
  if -5 ≤ leading ∧ leading ≤ 15 then pointed w.negative ds w.exponent
  else scientific w.negative ds leading

theorem negative_ofDecimal (w : Decimal) : (ofDecimal w).negative = w.negative := by
  unfold ofDecimal
  dsimp only
  split
  · exact negative_pointed _ _ _
  · rfl

theorem body_ofDecimal (w : Decimal) :
    (ofDecimal w).body = NumberFormat.json.set w.mantissa w.exponent := by
  have hne := Digits.ofNat_ne_nil w.mantissa
  simp only [ofDecimal, NumberFormat.set, NumberFormat.json]
  split
  · exact body_pointed hne _ _
  · exact body_scientific _ _

/-- A decimal has a fraction or an exponent, and so is no whole number. -/
theorem integer?_ofDecimal (w : Decimal) : (ofDecimal w).integer? = none := by
  have hne := Digits.ofNat_ne_nil w.mantissa
  unfold ofDecimal
  dsimp only
  split
  · simp [integer?, fraction_pointed hne]
  · simp [integer?, scientific]

theorem head?_mantissa {w : Decimal} (h : 0 < w.mantissa ∨ w.mantissa = 0 ∧ w.exponent = 0) :
    (Digits.ofNat w.mantissa).head? ≠ some '0' ∨
      Digits.ofNat w.mantissa = ['0'] ∧ w.exponent = 0 := by
  obtain hpos | ⟨hzero, hexponent⟩ := h
  · exact .inl (Digits.head?_ofNat hpos)
  · exact .inr ⟨by simp [hzero, Digits.ofNat, Digits.prepend, Digits.char], hexponent⟩

theorem proper_ofDecimal {w : Decimal} (h : 0 < w.mantissa ∨ w.mantissa = 0 ∧ w.exponent = 0) :
    (ofDecimal w).Proper := by
  have hdigits := Digits.isDigit_ofNat w.mantissa
  have hne := Digits.ofNat_ne_nil w.mantissa
  unfold ofDecimal
  dsimp only
  split
  · exact proper_pointed hdigits hne w.negative (head?_mantissa h)
  · exact proper_scientific hdigits hne w.negative _

/-- The numeral that a float is written as. -/
def ofFloat (x : Float) : Numeral := ofDecimal (Shortest.decimal .toEven x)

theorem proper_ofFloat (x : Float) : (ofFloat x).Proper :=
  proper_ofDecimal (Shortest.decimal_pos_or .toEven x)

theorem realText_eq {x : Float} (h : x.isFinite = true) :
    realText x = Exact.sign (ofFloat x).negative ++ (ofFloat x).body := by
  rw [realText, if_pos h, NumberFormat.text_eq h, ofFloat, negative_ofDecimal, body_ofDecimal]
  rfl

/-- The numeral of a whole number. -/
def ofInt (n : ℤ) : Numeral := ⟨n < 0, Digits.ofNat n.natAbs, [], none⟩

theorem proper_ofInt (n : ℤ) : (ofInt n).Proper := by
  refine ⟨Digits.isDigit_ofNat _, Digits.ofNat_ne_nil _, ?_, by simp [ofInt]⟩
  obtain hzero | hpos := Nat.eq_zero_or_pos n.natAbs
  · exact .inl (by simp [ofInt, hzero, Digits.ofNat, Digits.prepend, Digits.char])
  · exact .inr (Digits.head?_ofNat hpos)

theorem integerText_eq (n : ℤ) :
    integerText n = Exact.sign (ofInt n).negative ++ (ofInt n).body := by
  simp [integerText, ofInt, body, fractionText, exponentText]

/-- A whole number of sixty-four bits is read back. -/
theorem integer?_ofInt {n : ℤ} (hlow : -2 ^ 63 ≤ n) (hhigh : n < 2 ^ 64) :
    (ofInt n).integer? = some n := by
  simp only [integer?, ofInt, Digits.value_ofNat, List.isEmpty_nil, Bool.not_true,
    Option.isSome_none, Bool.or_self, Bool.false_eq_true, if_false, UInt64.size]
  by_cases hn : n < 0
  · have hbound : n.natAbs != 0 && decide (2 * n.natAbs ≤ 18446744073709551616) := by
      simp only [bne_iff_ne, Bool.and_eq_true, decide_eq_true_eq]
      omega
    simp only [hn, decide_true, if_true, hbound]
    congr 1
    omega
  · have hbound : n.natAbs < 18446744073709551616 := by omega
    simp only [hn, decide_false, Bool.false_eq_true, if_false, hbound, if_true]
    congr 1
    omega

end Numeral

end Json

end Toolpath
