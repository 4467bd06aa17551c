import Toolpath.FloatScalar
import Mathlib.Data.Prod.Lex
import Mathlib.Order.Compare

/-!
# Scalars with an order

What a path needs to know of the comparisons of a scalar, and no more than binary64 keeps: a NaN is
neither above nor below anything, and two numbers that compare equal need not be the same.

* `OrderedScalar` is the law, `OrderedScalar.not_lt_iff` and `OrderedScalar.le_congr_right` what the
  paths use of it
* `FloatOrder.rank` puts a float that is a number on a line, which gives the law for `Float`
* `FloatOrder.isFinite_of_le` — what lies between finite floats is finite
-/

namespace Toolpath

open Scalar

/-- The comparisons of a scalar belong to one order, in which finite scalars can be compared. -/
class OrderedScalar (α : Type) [Scalar α] : Prop where
  le_trans : ∀ {a b c : α}, a ≤ b → b ≤ c → a ≤ c
  lt_iff : ∀ {a b : α}, a < b ↔ a ≤ b ∧ ¬b ≤ a
  beq_iff : ∀ {a b : α}, (a == b) = true ↔ a ≤ b ∧ b ≤ a
  le_total : ∀ {a b : α}, isFinite a = true → isFinite b = true → a ≤ b ∨ b ≤ a

namespace OrderedScalar

variable {α : Type} [Scalar α] [OrderedScalar α]

theorem le_refl {a : α} (h : isFinite a = true) : a ≤ a := (le_total h h).elim id id

theorem not_lt_iff {a b : α} (ha : isFinite a = true) (hb : isFinite b = true) :
    ¬a < b ↔ b ≤ a := by
  rw [lt_iff]
  constructor
  · intro h
    rcases le_total ha hb with hab | hba
    · by_cases hba : b ≤ a
      · exact hba
      · exact absurd ⟨hab, hba⟩ h
    · exact hba
  · intro hba h
    exact h.2 hba

/-- Scalars that compare equal are above the same scalars. -/
theorem le_congr_right {a b c : α} (h : (b == c) = true) : a ≤ b ↔ a ≤ c := by
  obtain ⟨hbc, hcb⟩ := beq_iff.mp h
  exact ⟨fun hab => le_trans hab hbc, fun hac => le_trans hac hcb⟩

end OrderedScalar

/-- The same scalar, or one that compares equal. -/
def Alike {α : Type} [Scalar α] (a b : α) : Prop := a = b ∨ (a == b) = true

theorem Alike.le_iff {α : Type} [Scalar α] [OrderedScalar α] {a b c : α} (h : Alike a b) :
    c ≤ a ↔ c ≤ b := by
  rcases h with rfl | h
  · rfl
  · exact OrderedScalar.le_congr_right h

theorem Alike.le_iff_left {α : Type} [Scalar α] [OrderedScalar α] {a b c : α} (h : Alike a b) :
    a ≤ c ↔ b ≤ c := by
  rcases h with rfl | h
  · rfl
  · obtain ⟨hab, hba⟩ := OrderedScalar.beq_iff.mp h
    exact ⟨OrderedScalar.le_trans hba, OrderedScalar.le_trans hab⟩

/-! ## Floats -/

namespace FloatOrder

open Float.Model

/-- A lexicographic comparison looks at the first component first. -/
theorem compare_toLex {α β : Type} [LinearOrder α] [LinearOrder β] (a c : α) (b d : β) :
    compare (toLex (a, b)) (toLex (c, d)) = (compare a c).then (compare b d) := by
  rw [Prod.Lex.compare_def]
  rfl

theorem compare_neg (a b : Int) : compare (-a) (-b) = (compare a b).swap := by
  rw [compare_iff]
  rcases lt_trichotomy a b with h | rfl | h
  · rw [compare_lt_iff_lt.mpr h]
    exact Int.neg_lt_neg h
  · simp [Ordering.Compares]
  · rw [compare_gt_iff_gt.mpr h]
    exact Int.neg_lt_neg h

theorem compare_natCast (m n : Nat) : compare (m : Int) (n : Int) = compare m n := by
  rw [compare_iff]
  rcases lt_trichotomy m n with h | rfl | h
  · rw [compare_lt_iff_lt.mpr h]
    exact Int.ofNat_lt.mpr h
  · simp [Ordering.Compares]
  · rw [compare_gt_iff_gt.mpr h]
    exact Int.ofNat_lt.mpr h

/-- Sizes are compared by exponent first. -/
theorem compare_size (c e f : Int) (m n : Nat) :
    compare (toLex (c, toLex (e, (m : Int)))) (toLex (c, toLex (f, (n : Int)))) =
      (compare e f).then (compare m n) := by
  rw [compare_toLex, compare_toLex, compare_natCast, compare_eq_iff_eq.mpr rfl]
  rfl

theorem compare_size_neg (c e f : Int) (m n : Nat) :
    compare (toLex (c, toLex (-e, -(m : Int)))) (toLex (c, toLex (-f, -(n : Int)))) =
      ((compare e f).then (compare m n)).swap := by
  rw [compare_toLex, compare_toLex, compare_neg, compare_neg, compare_natCast,
    compare_eq_iff_eq.mpr rfl, Ordering.swap_then]
  rfl

/-- Where a float lies on the number line: its class first, then its exponent and its mantissa,
which count backwards below zero. -/
def rank : UnpackedFloat → Int ×ₗ Int ×ₗ Int
  | .notANumber => toLex (3, toLex (0, 0))
  | .infinity .negative => toLex (-2, toLex (0, 0))
  | .finite .negative m e _ => toLex (-1, toLex (-e, -m))
  | .zero _ => toLex (0, toLex (0, 0))
  | .finite .positive m e _ => toLex (1, toLex (e, m))
  | .infinity .positive => toLex (2, toLex (0, 0))

/-- **Numbers are compared by rank.** -/
theorem compare_eq_rank {a b : UnpackedFloat} (ha : a.isNaN = false) (hb : b.isNaN = false) :
    a.compare b = some (compare (rank a) (rank b)) := by
  rcases a with s | _ | s | ⟨s, m, e, hm⟩ <;> rcases b with t | _ | t | ⟨t, n, f, hn⟩
  -- the class decides, unless both are finite and of one sign
  all_goals first
    | exact absurd ha (by decide)
    | exact absurd hb (by decide)
    | cases s <;> cases t <;>
        first
        | exact congrArg some (compare_size _ _ _ _ _).symm
        | exact congrArg some (compare_size_neg _ _ _ _ _).symm
        | show some _ = some (compare (toLex (_, toLex (_, _))) (toLex (_, toLex (_, _))))
          rw [compare_toLex, compare_toLex]
          rfl

theorem compare_of_isNaN {a b : UnpackedFloat} (h : a.isNaN = true ∨ b.isNaN = true) :
    a.compare b = none := by
  rcases a with s | _ | s | ⟨s, m, e, hm⟩ <;> rcases b with t | _ | t | ⟨t, n, f, hn⟩
  all_goals first
    | rfl
    | rcases h with h | h <;> exact (Bool.false_ne_true h).elim

/-- A float that is a number. -/
def IsNumber (a : Float) : Prop := a.toModel.unpack.isNaN = false

theorem compare_eq_some {a b : Float} (ha : IsNumber a) (hb : IsNumber b) :
    a.toModel.unpack.compare b.toModel.unpack
      = some (compare (rank a.toModel.unpack) (rank b.toModel.unpack)) :=
  compare_eq_rank ha hb

theorem compare_eq_none {a b : Float} (h : ¬(IsNumber a ∧ IsNumber b)) :
    a.toModel.unpack.compare b.toModel.unpack = none := by
  apply compare_of_isNaN
  rw [not_and_or] at h
  rcases h with h | h
  · exact Or.inl (eq_true_of_ne_false h)
  · exact Or.inr (eq_true_of_ne_false h)

theorem le_iff {a b : Float} :
    a ≤ b ↔ (IsNumber a ∧ IsNumber b) ∧ rank a.toModel.unpack ≤ rank b.toModel.unpack := by
  have hle : a ≤ b ↔ (a.toModel.unpack.compare b.toModel.unpack).any (·.isLE) = true := by
    show Float.le a b = true ↔ _
    rw [Float.le, decide_eq_true_iff]
    rfl
  by_cases h : IsNumber a ∧ IsNumber b
  · rw [hle, compare_eq_some h.1 h.2, Option.any_some, ← Ordering.ne_gt_iff_isLE, ← ne_eq,
      compare_le_iff_le]
    exact ⟨fun hr => ⟨h, hr⟩, And.right⟩
  · rw [hle, compare_eq_none h]
    exact iff_of_false Bool.false_ne_true (fun hr => h hr.1)

theorem lt_iff {a b : Float} :
    a < b ↔ (IsNumber a ∧ IsNumber b) ∧ rank a.toModel.unpack < rank b.toModel.unpack := by
  have hlt : a < b ↔ (a.toModel.unpack.compare b.toModel.unpack == some .lt) = true := by
    show Float.lt a b = true ↔ _
    rw [Float.lt, decide_eq_true_iff]
    rfl
  by_cases h : IsNumber a ∧ IsNumber b
  · rw [hlt, compare_eq_some h.1 h.2, beq_iff_eq, Option.some.injEq, compare_lt_iff_lt]
    exact ⟨fun hr => ⟨h, hr⟩, And.right⟩
  · rw [hlt, compare_eq_none h]
    exact iff_of_false Bool.false_ne_true (fun hr => h hr.1)

theorem beq_iff {a b : Float} :
    (a == b) = true ↔
      (IsNumber a ∧ IsNumber b) ∧ rank a.toModel.unpack = rank b.toModel.unpack := by
  show (a.toModel.unpack.compare b.toModel.unpack == some .eq) = true ↔ _
  by_cases h : IsNumber a ∧ IsNumber b
  · rw [compare_eq_some h.1 h.2, beq_iff_eq, Option.some.injEq, compare_eq_iff_eq]
    exact ⟨fun hr => ⟨h, hr⟩, And.right⟩
  · rw [compare_eq_none h]
    exact iff_of_false Bool.false_ne_true (fun hr => h hr.1)

theorem isNumber_of_isFinite {a : Float} (h : a.isFinite = true) : IsNumber a := by
  have hf : a.toModel.unpack.isFinite = true := h
  unfold IsNumber
  cases hu : a.toModel.unpack with
  | notANumber => rw [hu] at hf; exact nomatch hf
  | infinity s => rfl
  | zero s => rfl
  | finite s m e hm => rfl

/-- Between the infinities lies what is finite. -/
theorem isFinite_of_rank {u : UnpackedFloat} (hlow : rank (.infinity .negative) < rank u)
    (hhigh : rank u < rank (.infinity .positive)) : u.isFinite = true := by
  cases u with
  | notANumber => exact absurd hhigh (by decide)
  | infinity s => cases s with
    | negative => exact absurd hlow (lt_irrefl _)
    | positive => exact absurd hhigh (lt_irrefl _)
  | zero s => rfl
  | finite s m e hm => rfl

theorem rank_of_isFinite {u : UnpackedFloat} (h : u.isFinite = true) :
    rank (.infinity .negative) < rank u ∧ rank u < rank (.infinity .positive) := by
  have hclass : ∀ {a b : ℤ} (p q : ℤ ×ₗ ℤ), a < b → toLex (a, p) < toLex (b, q) :=
    fun _ _ hlt => Prod.Lex.toLex_lt_toLex.mpr (.inl hlt)
  rcases u with s | _ | s | ⟨s, m, e, hm⟩
  · cases h
  · cases h
  · exact ⟨hclass _ _ (by decide), hclass _ _ (by decide)⟩
  · cases s <;> exact ⟨hclass _ _ (by decide), hclass _ _ (by decide)⟩

/-- What lies between finite floats is finite. -/
theorem isFinite_of_le {a x b : Float} (ha : a.isFinite = true) (hb : b.isFinite = true)
    (hax : a ≤ x) (hxb : x ≤ b) : x.isFinite = true :=
  isFinite_of_rank ((rank_of_isFinite ha).1.trans_le (le_iff.mp hax).2)
    ((le_iff.mp hxb).2.trans_lt (rank_of_isFinite hb).2)

end FloatOrder

instance : OrderedScalar Float where
  le_trans hab hbc := by
    obtain ⟨⟨ha, _⟩, hab⟩ := FloatOrder.le_iff.mp hab
    obtain ⟨⟨_, hc⟩, hbc⟩ := FloatOrder.le_iff.mp hbc
    exact FloatOrder.le_iff.mpr ⟨⟨ha, hc⟩, hab.trans hbc⟩
  lt_iff := by
    intro a b
    rw [FloatOrder.lt_iff, FloatOrder.le_iff, FloatOrder.le_iff, lt_iff_le_not_ge]
    tauto
  beq_iff := by
    intro a b
    rw [FloatOrder.beq_iff, FloatOrder.le_iff, FloatOrder.le_iff, le_antisymm_iff]
    tauto
  le_total ha hb := by
    have ha := FloatOrder.isNumber_of_isFinite ha
    have hb := FloatOrder.isNumber_of_isFinite hb
    rcases le_total (FloatOrder.rank _) (FloatOrder.rank _) with h | h
    · exact Or.inl (FloatOrder.le_iff.mpr ⟨⟨ha, hb⟩, h⟩)
    · exact Or.inr (FloatOrder.le_iff.mpr ⟨⟨hb, ha⟩, h⟩)

end Toolpath
