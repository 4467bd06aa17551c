import Toolpath.Number.Digits
import Mathlib.Tactic.Ring

/-!
# Digits, there and back

What is written in digits reads as the number that was written: all of it, or the part that a given
number of digits can hold.

* `Digits.value_ofNat` — a number in digits
* `Digits.value_padded` — the last digits of a number
* `Digits.isDigit_ofNat`, `Digits.isDigit_padded` — nothing but digits is written
-/

namespace Toolpath.Digits

theorem exists_char_of_isDigit {c : Char} (h : isDigit c = true) : ∃ d < 10, c = char d := by
  have hrange : 48 ≤ c.toNat ∧ c.toNat ≤ 57 := by simpa [isDigit] using h
  refine ⟨c.toNat - 48, by omega, ?_⟩
  have hsum : 48 + (c.toNat - 48) = c.toNat := by omega
  rw [char, hsum, Char.ofNat_toNat]

theorem takeWhile_append_stop {α : Type} {p : α → Bool} {l r : List α} (hl : ∀ a ∈ l, p a = true)
    (hr : ∀ a ∈ r.head?, p a = false) :
    (l ++ r).takeWhile p = l ∧ (l ++ r).dropWhile p = r := by
  have hstop : r.takeWhile p = [] ∧ r.dropWhile p = r := by
    cases r with
    | nil => exact ⟨rfl, rfl⟩
    | cons a r => simp [hr a rfl]
  rw [List.takeWhile_append_of_pos hl, List.dropWhile_append_of_pos hl, hstop.1, hstop.2,
    List.append_nil]
  exact ⟨rfl, rfl⟩

theorem span_append_stop {ds rest : List Char} (hds : ∀ c ∈ ds, isDigit c = true)
    (hrest : ∀ c ∈ rest.head?, isDigit c = false) : span (ds ++ rest) = (ds, rest) := by
  obtain ⟨htake, hdrop⟩ := takeWhile_append_stop hds hrest
  rw [span, htake, hdrop]

/-! ## Values -/

theorem valueFrom_eq (n : ℕ) (cs : List Char) :
    valueFrom n cs = n * 10 ^ cs.length + value cs := by
  induction cs generalizing n with
  | nil =>
    rw [List.length_nil, pow_zero, mul_one]
    rfl
  | cons c cs ih =>
    have hrest : value (c :: cs) = valueFrom (0 * 10 + digit c) cs := rfl
    have hstep : valueFrom n (c :: cs) = valueFrom (n * 10 + digit c) cs := rfl
    rw [hstep, hrest, ih, ih, List.length_cons, pow_succ]
    ring

theorem value_append (a b : List Char) :
    value (a ++ b) = value a * 10 ^ b.length + value b := by
  rw [value, valueFrom_append]
  exact valueFrom_eq _ b

theorem value_singleton {d : ℕ} (h : d < 10) : value [char d] = d := by
  show 0 * 10 + digit (char d) = d
  rw [digit_char h]
  omega

theorem value_cons {d : ℕ} (h : d < 10) (cs : List Char) :
    value (char d :: cs) = d * 10 ^ cs.length + value cs := by
  have hsplit := value_append [char d] cs
  rwa [value_singleton h] at hsplit

/-! ## Numbers without leading zeros -/

theorem value_prepend (n : ℕ) (rest : List Char) :
    value (prepend n rest) = n * 10 ^ rest.length + value rest := by
  induction n, rest using prepend.induct with
  | case1 n rest h =>
    rw [prepend, if_pos h]
    exact value_cons h rest
  | case2 n rest h ih =>
    have hdigit : n % 10 < 10 := Nat.mod_lt n (by omega)
    have hsplit : n / 10 * 10 + n % 10 = n := Nat.div_add_mod' n 10
    rw [prepend, if_neg h, ih, value_cons hdigit, List.length_cons, pow_succ]
    calc n / 10 * (10 ^ rest.length * 10) + (n % 10 * 10 ^ rest.length + value rest)
        = (n / 10 * 10 + n % 10) * 10 ^ rest.length + value rest := by ring
      _ = n * 10 ^ rest.length + value rest := by rw [hsplit]

theorem value_ofNat (n : ℕ) : value (ofNat n) = n := by
  rw [ofNat, value_prepend, List.length_nil, pow_zero, mul_one]
  rfl

theorem isDigit_prepend (n : ℕ) {rest : List Char} (h : ∀ c ∈ rest, isDigit c = true) :
    ∀ c ∈ prepend n rest, isDigit c = true := by
  induction n, rest using prepend.induct with
  | case1 n rest hn =>
    rw [prepend, if_pos hn]
    exact List.forall_mem_cons.mpr ⟨isDigit_char hn, h⟩
  | case2 n rest hn ih =>
    rw [prepend, if_neg hn]
    exact ih (List.forall_mem_cons.mpr ⟨isDigit_char (Nat.mod_lt n (by omega)), h⟩)

theorem isDigit_ofNat (n : ℕ) : ∀ c ∈ ofNat n, isDigit c = true :=
  isDigit_prepend n (by simp)

theorem prepend_ne_nil (n : ℕ) (rest : List Char) : prepend n rest ≠ [] := by
  induction n, rest using prepend.induct with
  | case1 n rest h =>
    rw [prepend, if_pos h]
    exact List.cons_ne_nil _ _
  | case2 n rest h ih =>
    rw [prepend, if_neg h]
    exact ih

theorem ofNat_ne_nil (n : ℕ) : ofNat n ≠ [] := prepend_ne_nil n []

/-- A number has as many digits as its size says. -/
theorem length_prepend_bounds (n : ℕ) (rest : List Char) :
    (n + 1) * 10 ^ rest.length ≤ 10 ^ (prepend n rest).length ∧
      (0 < n → 10 ^ (prepend n rest).length ≤ n * 10 ^ (rest.length + 1)) := by
  induction n, rest using prepend.induct with
  | case1 n rest h =>
    rw [prepend, if_pos h, List.length_cons]
    constructor
    · rw [pow_succ, mul_comm (10 ^ rest.length)]
      exact Nat.mul_le_mul_right _ (by omega)
    · intro hn
      exact Nat.le_mul_of_pos_left _ hn
  | case2 n rest h ih =>
    obtain ⟨hhigh, hlow⟩ := ih
    rw [prepend, if_neg h]
    rw [List.length_cons, pow_succ] at hhigh hlow
    constructor
    · calc (n + 1) * 10 ^ rest.length ≤ (n / 10 + 1) * 10 * 10 ^ rest.length :=
            Nat.mul_le_mul_right _ (by omega)
        _ = (n / 10 + 1) * (10 ^ rest.length * 10) := by ring
        _ ≤ _ := hhigh
    · intro _
      calc 10 ^ (prepend (n / 10) (char (n % 10) :: rest)).length ≤
            n / 10 * (10 ^ (rest.length + 1) * 10) := hlow (by omega)
        _ = n / 10 * 10 * 10 ^ (rest.length + 1) := by ring
        _ ≤ n * 10 ^ (rest.length + 1) := Nat.mul_le_mul_right _ (by omega)

theorem lt_pow_length_ofNat (n : ℕ) : n < 10 ^ (ofNat n).length := by
  have h := (length_prepend_bounds n []).1
  rw [List.length_nil, pow_zero, mul_one] at h
  exact h

theorem pow_length_ofNat_le {n : ℕ} (hn : 0 < n) : 10 ^ (ofNat n).length ≤ n * 10 := by
  have h := (length_prepend_bounds n []).2 hn
  rwa [List.length_nil, zero_add, pow_one] at h

/-! ## A given number of digits -/

theorem length_padded (width n : ℕ) : (padded width n).length = width := by
  induction width, n using padded.induct with
  | case1 n =>
    rw [padded, if_pos rfl]
    rfl
  | case2 n h =>
    rw [padded, if_neg h, if_pos rfl]
    rfl
  | case3 width n h0 h1 low ihHigh ihLow =>
    rw [padded, if_neg h0, if_neg h1, List.length_append, ihHigh, ihLow]
    omega

theorem value_padded (width n : ℕ) : value (padded width n) = n % 10 ^ width := by
  induction width, n using padded.induct with
  | case1 n =>
    rw [padded, if_pos rfl, pow_zero, Nat.mod_one]
    rfl
  | case2 n h =>
    rw [padded, if_neg h, if_pos rfl, pow_one]
    exact value_singleton (Nat.mod_lt n (by omega))
  | case3 width n h0 h1 low ihHigh ihLow =>
    have hwidth : width = low + width / 2 := by omega
    rw [padded, if_neg h0, if_neg h1, value_append, length_padded, ihHigh, ihLow]
    show n / 10 ^ low % 10 ^ (width / 2) * 10 ^ low + n % 10 ^ low % 10 ^ low = _
    calc n / 10 ^ low % 10 ^ (width / 2) * 10 ^ low + n % 10 ^ low % 10 ^ low
        = n % 10 ^ low + 10 ^ low * (n / 10 ^ low % 10 ^ (width / 2)) := by
          rw [Nat.mod_mod]
          ring
      _ = n % (10 ^ low * 10 ^ (width / 2)) := (Nat.mod_mul).symm
      _ = n % 10 ^ width := by rw [← pow_add, ← hwidth]

theorem isDigit_padded (width n : ℕ) : ∀ c ∈ padded width n, isDigit c = true := by
  induction width, n using padded.induct with
  | case1 n =>
    rw [padded, if_pos rfl]
    simp
  | case2 n h =>
    rw [padded, if_neg h, if_pos rfl]
    simp [isDigit_char (Nat.mod_lt n (by omega : 0 < 10))]
  | case3 width n h0 h1 low ihHigh ihLow =>
    rw [padded, if_neg h0, if_neg h1]
    exact List.forall_mem_append.mpr ⟨ihHigh, ihLow⟩

end Toolpath.Digits
