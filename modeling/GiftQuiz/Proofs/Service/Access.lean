import GiftQuiz.Service.Credentials
import Mathlib.Data.List.Forall2

/-!
# Who is let in

`Credentials.authenticate` mixes two questions: what the header values present, and whether that
is the account. They are taken apart here. `Credentials.presented` reads the header values alone,
and `Credentials.refusal` is the reason that those values give to everyone who is not let in; the
account decides only whether there is a refusal (`authenticate_eq_error_iff`).

What the account is compared with are bytes. The accumulator of `sameBytes`, which is `differences`
of the pairs of bytes, has a bit set exactly when some pair differs in it (`testBit_differences`),
and is zero exactly when no pair differs (`differences_eq_zero_iff`). A text is determined by its
bytes (`Utf8.encode_injective`), so that the comparison is equality (`Credentials.agrees_iff`).
-/

namespace GiftQuiz

/-! ## The comparison -/

theorem Utf8.encode_injective : Function.Injective Utf8.encode := by
  intro t u h
  have hbytes : (String.ofList t).toByteArray = (String.ofList u).toByteArray := by
    simpa only [String.toByteArray_ofList, List.utf8Encode, Utf8.encode] using
      congrArg List.toByteArray h
  exact String.ofList_injective (String.toByteArray_inj.1 hbytes)

/-- The accumulator of the comparison behind pairs of bytes, from what it held in front of them. -/
def differences (pairs : List (UInt8 × UInt8)) (seen : UInt8) : UInt8 :=
  pairs.foldl (fun seen (x, y) => seen ||| (x ^^^ y)) seen

/-- The accumulator stays zero exactly where no pair differs: a difference sets a bit, and the
later pairs keep it. -/
theorem differences_eq_zero_iff (pairs : List (UInt8 × UInt8)) (seen : UInt8) :
    differences pairs seen = 0 ↔ seen = 0 ∧ ∀ p ∈ pairs, p.1 = p.2 := by
  unfold differences
  induction pairs generalizing seen with
  | nil => simp
  | cons p pairs ih =>
    rw [List.foldl_cons, ih, UInt8.or_eq_zero_iff, UInt8.xor_eq_zero_iff, List.forall_mem_cons,
      and_assoc]

/-- A bit of the accumulator is set once it was set or some pair differs in it. -/
theorem testBit_differences (pairs : List (UInt8 × UInt8)) (seen : UInt8) (bit : Nat) :
    (differences pairs seen).toNat.testBit bit =
      (seen.toNat.testBit bit || pairs.any fun p => (p.1 ^^^ p.2).toNat.testBit bit) := by
  unfold differences
  induction pairs generalizing seen with
  | nil => simp
  | cons p pairs ih =>
    rw [List.foldl_cons, ih, UInt8.toNat_or, Nat.testBit_or, List.any_cons, Bool.or_assoc]

theorem sameBytes_eq (a b : List UInt8) :
    sameBytes a b = (a.length == b.length && differences (a.zip b) 0 == 0) := rfl

theorem sameBytes_iff {a b : List UInt8} : sameBytes a b = true ↔ a = b := by
  calc sameBytes a b = true
      ↔ a.length = b.length ∧ ∀ p ∈ a.zip b, p.1 = p.2 := by
        rw [sameBytes_eq, Bool.and_eq_true, beq_iff_eq, beq_iff_eq, differences_eq_zero_iff,
          and_iff_right rfl]
    _ ↔ List.Forall₂ (· = ·) a b := by
        rw [List.forall₂_iff_zip]
        exact and_congr_right fun _ => ⟨fun h _ _ hp => h _ hp, fun h p hp => h hp⟩
    _ ↔ a = b := by rw [List.forall₂_eq_eq_eq]

/-- The comparison is equality. Where the lengths agree, it is the accumulator that decides, and
bytes that differ at some position leave a bit in it which is set however many of the bytes behind
them have been looked at. -/
theorem sameBytes_exact (a b : List UInt8) :
    (sameBytes a b = true ↔ a = b) ∧
      (a.length = b.length → (sameBytes a b = true ↔ differences (a.zip b) 0 = 0)) ∧
      ∀ (i : Nat) (x y : UInt8), a[i]? = some x → b[i]? = some y → x ≠ y →
        ∃ bit, ∀ n, i < n →
          (differences ((a.zip b).take n) 0).toNat.testBit bit = true := by
  refine ⟨sameBytes_iff, fun hlength => ?_, fun i x y hx hy hne => ?_⟩
  · rw [sameBytes_eq, hlength, beq_self_eq_true, Bool.true_and, beq_iff_eq]
  · have hxor : (x ^^^ y).toNat ≠ 0 := fun h =>
      hne (UInt8.xor_eq_zero_iff.mp (UInt8.toNat_inj.mp h))
    obtain ⟨bit, hbit⟩ := Nat.exists_testBit_of_ne_zero hxor
    refine ⟨bit, fun n hn => ?_⟩
    have hpair : (x, y) ∈ (a.zip b).take n := by
      refine List.mem_of_getElem? (i := i) ?_
      rw [List.getElem?_take_of_lt hn]
      exact List.getElem?_zip_eq_some.mpr ⟨hx, hy⟩
    rw [testBit_differences, Bool.or_eq_true, List.any_eq_true]
    exact .inr ⟨_, hpair, hbit⟩

/-- Two pairs that differ in the same bit do not cancel each other. -/
theorem sameBit_exact :
    let a : List UInt8 := [0x53, 0x53, 0x74]
    let b : List UInt8 := [0x73, 0x73, 0x74]
    a.length = b.length ∧ (sameBytes a b = true ↔ differences (a.zip b) 0 = 0) ∧
      a[0]? = some 0x53 ∧ b[0]? = some 0x73 ∧ (0x53 : UInt8) ≠ 0x73 ∧
      (∃ bit, ∀ n, 0 < n → (differences ((a.zip b).take n) 0).toNat.testBit bit = true) ∧
      sameBytes a b = false := by
  intro a b
  have hlength : a.length = b.length := rfl
  have hne : (0x53 : UInt8) ≠ 0x73 := by decide
  obtain ⟨-, hdecides, hstays⟩ := sameBytes_exact a b
  exact ⟨hlength, hdecides hlength, rfl, rfl, hne, hstays 0 _ _ rfl rfl hne, by decide⟩

namespace Credentials

@[simp] theorem agrees_iff {c d : Credentials} : c.agrees d = true ↔ c = d := by
  have hbytes (s t : String) : Utf8.encode s.toList = Utf8.encode t.toList ↔ s = t := by
    rw [Utf8.encode_injective.eq_iff, String.toList_inj]
  cases c
  cases d
  simp only [agrees, Bool.and_eq_true, sameBytes_iff, hbytes, mk.injEq]

/-! ## The header and the account -/

/-- The credentials that `Authorization` values carry, whoever has an account. -/
def presented (authorization : List String) : Except AccessError Credentials :=
  match authorization with
  | [] => .error .notAuthenticated
  | value :: _ => if isHeaderText value then ofBasic value else .error .malformed

/-- The reason for which a request with these `Authorization` values is refused, if it is. -/
def refusal (authorization : List String) : AccessError :=
  match presented authorization with
  | .error e => e
  | .ok _ => .invalid

/-- The account is looked at last. -/
theorem authenticate_eq (account : Credentials) (authorization : List String) :
    account.authenticate authorization =
      match presented authorization with
      | .error e => .error e
      | .ok c => if c = account then .ok c.username else .error .invalid := by
  cases authorization with
  | nil => rfl
  | cons value _ =>
    simp only [authenticate, presented, agrees_iff]
    split
    · cases ofBasic value <;> rfl
    · rfl

/-- A request is refused unless it presents the account, and for the reason that its header
values have from the start. -/
theorem authenticate_eq_error_iff {account : Credentials} {authorization : List String}
    {e : AccessError} :
    account.authenticate authorization = .error e ↔
      presented authorization ≠ .ok account ∧ e = refusal authorization := by
  rw [authenticate_eq, refusal]
  cases presented authorization with
  | error e' => simp [eq_comm]
  | ok c =>
    by_cases hc : c = account
    · simp [hc]
    · simpa [hc] using eq_comm

end Credentials

end GiftQuiz
