import GiftQuiz.Text.Base64
import Mathlib.Data.Option.Basic

/-!
# Reading back Base64

Every group is read exactly if it is written for some bytes (`oneByte?_eq_some_iff` and the two
below it): the padding has to be there, and the bits of a last digit that belong to no byte have to
be zero. So a byte sequence has one written form, and no other text has any meaning
(`decode_eq_some_iff`).
-/

namespace GiftQuiz

namespace Base64

/-! ## Digits -/

theorem value?_digit {n : Nat} (h : n < 64) : value? (digit n) = some n := by
  have hall : ∀ n < 64, value? (digit n) = some n := by decide +kernel
  exact hall n h

theorem digit_ne_padding {n : Nat} (h : n < 64) : digit n ≠ '=' := by
  intro heq
  have hvalue := value?_digit h
  rw [heq] at hvalue
  cases hvalue

theorem toNat_lt_of_value? {c : Char} {n : Nat} (h : value? c = some n) : c.toNat < 128 := by
  have hle {a d : Char} (h : a ≤ d) : a.toNat ≤ d.toNat := h
  unfold value? at h
  split at h
  case isTrue hc => exact Nat.lt_of_le_of_lt (hle hc.2) (by decide)
  split at h
  case isTrue hc => exact Nat.lt_of_le_of_lt (hle hc.2) (by decide)
  split at h
  case isTrue hc => exact Nat.lt_of_le_of_lt (hle hc.2) (by decide)
  split at h
  case isTrue hc =>
    rw [hc]
    decide
  split at h
  case isTrue hc =>
    rw [hc]
    decide
  cases h

/-- A character has a value exactly if it is the digit of it. -/
theorem value?_eq_some_iff {c : Char} {n : Nat} : value? c = some n ↔ n < 64 ∧ c = digit n := by
  constructor
  · intro h
    have hall : ∀ k < 128, ∀ n ∈ value? (Char.ofNat k), n < 64 ∧ Char.ofNat k = digit n := by
      decide +kernel
    have hc := hall c.toNat (toNat_lt_of_value? h)
    rw [Char.ofNat_toNat] at hc
    exact hc n h
  · rintro ⟨hn, rfl⟩
    exact value?_digit hn

/-! ## Groups -/

theorem byteOfNat_eq {n : Nat} {b : UInt8} (h : n % 256 = b.toNat) : UInt8.ofNat n = b := by
  rw [← UInt8.toNat_inj, UInt8.toNat_ofNat']
  exact h

section

variable {p q r s : Char} {bytes : List UInt8}

theorem oneByte?_eq_some_iff :
    oneByte? p q = some bytes ↔ ∃ a, bytes = [a] ∧ [p, q, '=', '='] = encode [a] := by
  simp only [oneByte?, Option.bind_eq_bind, Option.bind_eq_some_iff, value?_eq_some_iff,
    Option.guard_eq_some']
  constructor
  · rintro ⟨m, ⟨hm, rfl⟩, n, ⟨hn, rfl⟩, _, hbits, h⟩
    cases h
    have ha : (UInt8.ofNat ((m * 64 + n) / 16)).toNat = (m * 64 + n) / 16 :=
      UInt8.toNat_ofNat_of_lt' (show _ < 256 by omega)
    refine ⟨_, rfl, ?_⟩
    rw [encode, ha, show (m * 64 + n) / 16 / 4 = m by omega,
      show (m * 64 + n) / 16 % 4 * 16 = n by omega]
  · rintro ⟨a, rfl, h⟩
    simp only [encode, List.cons.injEq, and_true] at h
    obtain ⟨rfl, rfl⟩ := h
    have ha := a.toNat_lt
    refine ⟨_, ⟨by omega, rfl⟩, _, ⟨by omega, rfl⟩, (), by omega, ?_⟩
    rw [byteOfNat_eq (b := a) (by omega)]
    rfl

theorem twoBytes?_eq_some_iff :
    twoBytes? p q r = some bytes ↔ ∃ a b, bytes = [a, b] ∧ [p, q, r, '='] = encode [a, b] := by
  simp only [twoBytes?, Option.bind_eq_bind, Option.bind_eq_some_iff, value?_eq_some_iff,
    Option.guard_eq_some']
  constructor
  · rintro ⟨l, ⟨hl, rfl⟩, m, ⟨hm, rfl⟩, n, ⟨hn, rfl⟩, _, hbits, h⟩
    cases h
    have hab : (UInt8.ofNat (((l * 64 + m) * 64 + n) / 1024)).toNat * 256 +
        (UInt8.ofNat (((l * 64 + m) * 64 + n) / 4)).toNat = ((l * 64 + m) * 64 + n) / 4 := by
      rw [UInt8.toNat_ofNat', UInt8.toNat_ofNat']
      omega
    refine ⟨_, _, rfl, ?_⟩
    rw [encode]
    simp only [hab]
    rw [show ((l * 64 + m) * 64 + n) / 4 / 1024 = l by omega,
      show ((l * 64 + m) * 64 + n) / 4 / 16 % 64 = m by omega,
      show ((l * 64 + m) * 64 + n) / 4 % 16 * 4 = n by omega]
  · rintro ⟨a, b, rfl, h⟩
    simp only [encode, List.cons.injEq, and_true] at h
    obtain ⟨rfl, rfl, rfl⟩ := h
    have ha := a.toNat_lt
    have hb := b.toNat_lt
    refine ⟨_, ⟨by omega, rfl⟩, _, ⟨by omega, rfl⟩, _, ⟨by omega, rfl⟩, (), by omega, ?_⟩
    rw [byteOfNat_eq (b := a) (by omega), byteOfNat_eq (b := b) (by omega)]
    rfl

theorem threeBytes?_eq_some_iff :
    threeBytes? p q r s = some bytes ↔
      ∃ a b c, bytes = [a, b, c] ∧ [p, q, r, s] = encode [a, b, c] := by
  simp only [threeBytes?, Option.bind_eq_bind, Option.bind_eq_some_iff, value?_eq_some_iff]
  constructor
  · rintro ⟨k, ⟨hk, rfl⟩, l, ⟨hl, rfl⟩, m, ⟨hm, rfl⟩, n, ⟨hn, rfl⟩, h⟩
    cases h
    have habc : (UInt8.ofNat ((((k * 64 + l) * 64 + m) * 64 + n) / 65536)).toNat * 65536 +
        (UInt8.ofNat ((((k * 64 + l) * 64 + m) * 64 + n) / 256)).toNat * 256 +
        (UInt8.ofNat (((k * 64 + l) * 64 + m) * 64 + n)).toNat =
          ((k * 64 + l) * 64 + m) * 64 + n := by
      rw [UInt8.toNat_ofNat', UInt8.toNat_ofNat', UInt8.toNat_ofNat']
      omega
    refine ⟨_, _, _, rfl, ?_⟩
    rw [encode]
    simp only [habc]
    rw [show (((k * 64 + l) * 64 + m) * 64 + n) / 262144 = k by omega,
      show (((k * 64 + l) * 64 + m) * 64 + n) / 4096 % 64 = l by omega,
      show (((k * 64 + l) * 64 + m) * 64 + n) / 64 % 64 = m by omega,
      show (((k * 64 + l) * 64 + m) * 64 + n) % 64 = n by omega, encode]
  · rintro ⟨a, b, c, rfl, h⟩
    simp only [encode, List.cons.injEq, and_true] at h
    obtain ⟨rfl, rfl, rfl, rfl⟩ := h
    have ha := a.toNat_lt
    have hb := b.toNat_lt
    have hc := c.toNat_lt
    refine ⟨_, ⟨by omega, rfl⟩, _, ⟨by omega, rfl⟩, _, ⟨by omega, rfl⟩, _, ⟨by omega, rfl⟩, ?_⟩
    rw [byteOfNat_eq (b := a) (by omega), byteOfNat_eq (b := b) (by omega),
      byteOfNat_eq (b := c) (by omega)]
    rfl

end

/-! ## Texts -/

theorem encode_cons_cons_cons (a b c : UInt8) (bytes : List UInt8) :
    encode (a :: b :: c :: bytes) = encode [a, b, c] ++ encode bytes := by
  simp only [encode, List.cons_append, List.nil_append]

/-- What is read is what is written, and nothing else. -/
theorem decode_eq_some_iff {t : List Char} {bytes : List UInt8} :
    decode t = some bytes ↔ t = encode bytes := by
  constructor
  · intro h
    fun_induction decode t generalizing bytes with
    | case1 =>
        cases h
        rfl
    | case2 p q =>
        obtain ⟨a, rfl, hgroup⟩ := oneByte?_eq_some_iff.mp h
        exact hgroup
    | case3 p q r hr =>
        obtain ⟨a, b, rfl, hgroup⟩ := twoBytes?_eq_some_iff.mp h
        exact hgroup
    | case4 p q r s t _ _ ih =>
        obtain ⟨group, hread, h⟩ := Option.bind_eq_some_iff.mp h
        obtain ⟨rest, hrest, h⟩ := Option.bind_eq_some_iff.mp h
        obtain ⟨a, b, c, rfl, hgroup⟩ := threeBytes?_eq_some_iff.mp hread
        cases h
        have hjoin := encode_cons_cons_cons a b c rest
        rw [← hgroup, ← ih hrest] at hjoin
        exact hjoin.symm
    | case5 => cases h
  · rintro rfl
    fun_induction encode bytes with
    | case1 => rw [decode]
    | case2 a =>
        rw [decode]
        exact oneByte?_eq_some_iff.mpr ⟨a, rfl, by rw [encode]⟩
    | case3 a b =>
        rw [decode]
        · exact twoBytes?_eq_some_iff.mpr ⟨a, b, rfl, by rw [encode]⟩
        · exact digit_ne_padding (by omega)
    | case4 a b c bytes n ih =>
        have hgroup : threeBytes? (digit (n / 262144)) (digit (n / 4096 % 64))
            (digit (n / 64 % 64)) (digit (n % 64)) = some [a, b, c] :=
          threeBytes?_eq_some_iff.mpr ⟨a, b, c, rfl, by rw [encode, encode]⟩
        have hlast : digit (n % 64) ≠ '=' := digit_ne_padding (by omega)
        rw [decode]
        · rw [hgroup, ih]
          rfl
        · exact fun _ h => absurd h hlast
        · exact fun h => absurd h hlast

end Base64

end GiftQuiz
