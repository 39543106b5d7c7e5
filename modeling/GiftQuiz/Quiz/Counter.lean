/-!
# Question numbers

Questions are numbered with 64-bit identifiers, one after the other from a first one. A counter
that stands at the greatest identifier has no successor.
-/

namespace GiftQuiz

/-- A running number: the identifier of the next question, and the one it started from. -/
structure Counter where
  first : UInt64
  next : UInt64
  first_le_next : first ≤ next
deriving Repr, DecidableEq

namespace Counter

/-- A counter that has used nothing yet. -/
def fresh (id : UInt64) : Counter :=
  ⟨id, id, UInt64.le_refl id⟩

def used (c : Counter) : UInt64 :=
  c.next - c.first

/-- The counter behind its next identifier, if there is one more. -/
def succ? (c : Counter) : Option Counter :=
  if h : c.next.toNat + 1 < UInt64.size then
    some ⟨c.first, UInt64.ofNatLT (c.next.toNat + 1) h, by
      have := UInt64.le_iff_toNat_le.1 c.first_le_next
      rw [UInt64.le_iff_toNat_le, UInt64.toNat_ofNatLT]
      omega⟩
  else none

/-- The number of used identifiers is the distance from the first one. -/
theorem toNat_used (c : Counter) : c.used.toNat = c.next.toNat - c.first.toNat :=
  UInt64.toNat_sub_of_le _ _ c.first_le_next

@[simp] theorem used_fresh (id : UInt64) : (fresh id).used = 0 := by
  simp [used, fresh]

theorem next_of_succ? {c d : Counter} (h : c.succ? = some d) :
    d.first = c.first ∧ d.next.toNat = c.next.toNat + 1 := by
  simp only [succ?] at h
  split at h
  · cases h
    exact ⟨rfl, UInt64.toNat_ofNatLT⟩
  · cases h

/-- Only the greatest identifier has no successor. -/
theorem succ?_eq_none_iff {c : Counter} :
    c.succ? = none ↔ c.next.toNat = UInt64.size - 1 := by
  have hlt := c.next.toNat_lt_size
  simp only [succ?, UInt64.size] at hlt ⊢
  split <;> simp <;> omega

end Counter

end GiftQuiz
