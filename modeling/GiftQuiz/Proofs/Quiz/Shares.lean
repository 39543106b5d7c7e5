import GiftQuiz.Quiz.Weight
import Mathlib.Algebra.Order.BigOperators.Group.List
import Mathlib.Algebra.Order.Field.Basic
import Mathlib.Data.Bool.Count
import Mathlib.Data.List.Count
import Mathlib.Data.List.FinRange
import Mathlib.Tactic.NormNum

/-!
# Shares of the credit

The correct choices share the credit and the others share its opposite. Every position is worth what
its side is worth (`shares_eq_map_worth`), and the worth of a side depends on nothing but how many
choices are on it. So the part of a side is its worth, as often as it has choices
(`sharesOf_eq_replicate`), from which its sum follows, and an order of the choices is an order of
the shares.

The rationals divide by zero without failing. That this never happens is said of the same steps with
a division that does fail, `sharesBy divide?`.
-/

namespace GiftQuiz

namespace Weight

/-- The steps of `shares`, with a division of their own. -/
def sharesBy {m : Type → Type} [Monad m] (divide : Rat → Nat → m Rat) (correct : List Bool) :
    m (List Rat) := do
  let right := correct.count true
  let wrong := correct.length - right
  let reward ← divide 100 (max right 1)
  let penalty ← divide (-100) (max wrong 1)
  return correct.map fun c => if c then reward else penalty

def divide (a : Rat) (n : Nat) : Id Rat :=
  pure (a / n)

/-- The exact division, which fails for a divisor of zero. -/
def divide? (a : Rat) (n : Nat) : Option Rat :=
  if n = 0 then none else some (a / n)

/-- What a choice on one side is worth. -/
def worth (correct : List Bool) (side : Bool) : Rat :=
  (if side then 100 else -100) / (max (correct.count side) 1 : Nat)

def sharesOf (side : Bool) (correct : List Bool) : List Rat :=
  ((correct.zip (shares correct)).filter (·.1 == side)).map Prod.snd

/-! ## What a side is worth -/

theorem worth_true_pos (correct : List Bool) : 0 < worth correct true := by
  have hdivisor : 0 < max (correct.count true) 1 := by omega
  exact div_pos (by norm_num) (Nat.cast_pos.mpr hdivisor)

theorem worth_false_neg (correct : List Bool) : worth correct false < 0 := by
  have hdivisor : 0 < max (correct.count false) 1 := by omega
  exact div_neg_of_neg_of_pos (by norm_num) (Nat.cast_pos.mpr hdivisor)

/-- A side with a choice on it has the whole credit to share. -/
theorem count_mul_worth {correct : List Bool} {side : Bool} (h : side ∈ correct) :
    correct.count side * worth correct side = if side then 100 else -100 := by
  have hone : 0 < correct.count side := List.count_pos_iff.mpr h
  have hcount : (correct.count side : Rat) ≠ 0 := Nat.cast_ne_zero.mpr hone.ne'
  unfold worth
  rw [Nat.max_eq_left hone]
  exact mul_div_cancel₀ _ hcount

theorem worth_congr {xs ys : List Bool} (h : xs.Perm ys) : worth xs = worth ys := by
  funext side
  unfold worth
  rw [h.count_eq]

theorem worth_map_not (correct : List Bool) (side : Bool) :
    worth (correct.map not) (!side) = -worth correct side := by
  have hcount : (correct.map not).count (!side) = correct.count side :=
    List.count_map_of_injective correct not Bool.involutive_not.injective side
  unfold worth
  rw [hcount]
  cases side <;> simp [neg_div]

/-! ## The shares position by position -/

theorem shares_eq_map_worth (correct : List Bool) :
    shares correct = correct.map (worth correct) := by
  have hwrong : correct.length - correct.count true = correct.count false := by
    have hsides := correct.count_not_add_count true
    simp only [Bool.not_true] at hsides
    omega
  unfold shares
  simp only [hwrong]
  refine List.map_congr_left fun side _ => ?_
  cases side <;> rfl

theorem sharesOf_eq_replicate (side : Bool) (correct : List Bool) :
    sharesOf side correct = List.replicate (correct.count side) (worth correct side) := by
  have hzip : correct.zip (shares correct) = correct.map fun c => (c, worth correct c) := by
    rw [shares_eq_map_worth, List.map_prod_left_eq_zip]
  have hside : correct.filter (· == side) = List.replicate (correct.count side) side :=
    List.filter_beq side
  unfold sharesOf
  rw [hzip, List.filter_map, List.map_map]
  change (correct.filter (· == side)).map (worth correct) = _
  rw [hside, List.map_replicate]

/-- Together the choices of a side have the credit they share. -/
theorem sum_sharesOf {side : Bool} {correct : List Bool} (h : side ∈ correct) :
    (sharesOf side correct).sum = if side then 100 else -100 := by
  rw [sharesOf_eq_replicate, List.sum_replicate, nsmul_eq_mul]
  exact count_mul_worth h

theorem sharesBy_divide? (correct : List Bool) :
    sharesBy divide? correct = some (shares correct) := by
  have hdivides : ∀ a n, divide? a (max n 1) = some (a / (max n 1 : Nat)) := fun a n =>
    if_neg (by omega)
  simp only [sharesBy, hdivides]
  rfl

/-- An order of the choices is an order of their shares. -/
theorem getElem?_shares_ofFn {correct : List Bool} (order : Equiv.Perm (Fin correct.length))
    (i : Fin correct.length) :
    (shares (List.ofFn fun j => correct.get (order j)))[i.val]? =
      (shares correct)[(order i).val]? := by
  have hperm : (List.ofFn fun j => correct.get (order j)).Perm correct := by
    have h := order.ofFn_comp_perm correct.get
    rwa [List.ofFn_get] at h
  rw [shares_eq_map_worth, shares_eq_map_worth, worth_congr hperm]
  simp

theorem shares_map_not (correct : List Bool) :
    shares (correct.map not) = (shares correct).map (-·) := by
  rw [shares_eq_map_worth, shares_eq_map_worth, List.map_map, List.map_map]
  exact List.map_congr_left fun side _ => worth_map_not correct side

/-- There is a share for every choice. Those of the correct choices are one positive number and make
up the credit if there is any, those of the others one negative number and its opposite. They are
found without a division by zero, come in another order with the choices, and change their signs
with the choices. -/
theorem shares_credit (correct : List Bool) :
    (shares correct).length = correct.length ∧
      (∃ reward, 0 < reward ∧ ∀ w ∈ sharesOf true correct, w = reward) ∧
      (∃ penalty, penalty < 0 ∧ ∀ w ∈ sharesOf false correct, w = penalty) ∧
      (true ∈ correct → (sharesOf true correct).sum = 100) ∧
      (false ∈ correct → (sharesOf false correct).sum = -100) ∧
      (sharesBy divide correct).run = shares correct ∧
      sharesBy divide? correct = some (shares correct) ∧
      (∀ (order : Equiv.Perm (Fin correct.length)) (i : Fin correct.length),
        (shares (List.ofFn fun j => correct.get (order j)))[i.val]? =
          (shares correct)[(order i).val]?) ∧
      shares (correct.map not) = (shares correct).map (-·) := by
  have halike : ∀ side, ∀ w ∈ sharesOf side correct, w = worth correct side := by
    intro side w hw
    rw [sharesOf_eq_replicate] at hw
    exact List.eq_of_mem_replicate hw
  refine ⟨List.length_map _, ⟨_, worth_true_pos correct, halike true⟩,
    ⟨_, worth_false_neg correct, halike false⟩, sum_sharesOf, sum_sharesOf, ?_,
    sharesBy_divide? correct, getElem?_shares_ofFn, shares_map_not correct⟩
  -- `shares` is written out in the same steps.
  rfl

/-- One of three choices is correct, and the order of the choices is turned around. -/
theorem oneOfThree_credit :
    (sharesOf true [true, false, false]).sum = 100 ∧
      (sharesOf false [true, false, false]).sum = -100 ∧
      (shares [false, false, true])[2]? = (shares [true, false, false])[0]? := by
  obtain ⟨-, -, -, hright, hwrong, -, -, horder, -⟩ := shares_credit [true, false, false]
  exact ⟨hright (by decide), hwrong (by decide), horder Fin.revPerm 2⟩

end Weight

end GiftQuiz
