import GiftQuiz.Text.Utf8
import Mathlib.Data.List.TakeWhile
import Mathlib.Tactic.SplitIfs

/-!
# Reading back UTF-8

`Encoding n bytes` gives the rules for the bytes of one character, by their numbers: which first
bytes there are, how many bytes follow and which second bytes are ruled out. Writer and reader meet
there. What is written for a character is an encoding (`encoding_encodeChar`) and there is no other
one (`Encoding.encodeChar_eq`); the front of a byte sequence is read as a character exactly if it is
an encoding (`Encoding.front_eq`, `exists_encoding_of_front`), whatever stands behind it.

So `decode` accepts the bytes of texts and nothing else (`decode_eq_ok_iff`), and of the bytes of a
text `decodeLossy` loses nothing.
-/

namespace GiftQuiz

namespace Utf8

/-! ## The rules -/

/-- A byte behind the first one of a character. -/
def IsTail (b : UInt8) : Prop :=
  0x80 ≤ b.toNat ∧ b.toNat ≤ 0xBF

/-- The bytes that encode the character with a number. -/
inductive Encoding (n : Nat) : List UInt8 → Prop
  | one {a : UInt8} (ha : a.toNat < 0x80) (hn : n = a.toNat) : Encoding n [a]
  | two {a b : UInt8} (ha : 0xC2 ≤ a.toNat ∧ a.toNat < 0xE0) (hb : IsTail b)
      (hn : n = (a.toNat - 0xC0) * 64 + (b.toNat - 0x80)) : Encoding n [a, b]
  | three {a b c : UInt8} (ha : 0xE0 ≤ a.toNat ∧ a.toNat < 0xF0) (hb : IsTail b) (hc : IsTail c)
      (overlong : a.toNat = 0xE0 → 0xA0 ≤ b.toNat) (surrogate : a.toNat = 0xED → b.toNat ≤ 0x9F)
      (hn : n = ((a.toNat - 0xE0) * 64 + (b.toNat - 0x80)) * 64 + (c.toNat - 0x80)) :
      Encoding n [a, b, c]
  | four {a b c d : UInt8} (ha : 0xF0 ≤ a.toNat ∧ a.toNat ≤ 0xF4) (hb : IsTail b) (hc : IsTail c)
      (hd : IsTail d) (overlong : a.toNat = 0xF0 → 0x90 ≤ b.toNat)
      (beyond : a.toNat = 0xF4 → b.toNat ≤ 0x8F)
      (hn : n = (((a.toNat - 0xF0) * 64 + (b.toNat - 0x80)) * 64 + (c.toNat - 0x80)) * 64 +
        (d.toNat - 0x80)) : Encoding n [a, b, c, d]

/-! ## Writing -/

theorem toNat_byteOfNat {n : Nat} (h : n < 256) : (UInt8.ofNat n).toNat = n :=
  UInt8.toNat_ofNat_of_lt' h

theorem byteOfNat_eq {n : Nat} {b : UInt8} (h : n = b.toNat) : UInt8.ofNat n = b := by
  rw [h, UInt8.ofNat_toNat]

theorem toNat_charOfNat {n : Nat} (h : n.isValidChar) : (Char.ofNat n).toNat = n := by
  unfold Char.ofNat
  rw [dif_pos h]
  rfl

theorem isTail_ofNat (n : Nat) : IsTail (UInt8.ofNat (n % 64 + 0x80)) := by
  rw [IsTail, toNat_byteOfNat (by omega)]
  omega

theorem encoding_encodeChar (c : Char) : Encoding c.toNat (String.utf8EncodeChar c) := by
  have hvalid : c.toNat < 0xD800 ∨ 0xDFFF < c.toNat ∧ c.toNat < 0x110000 := c.valid
  unfold String.utf8EncodeChar
  simp only [Char.toNat_val]
  split_ifs with h1 h2 h3
  · have ha := toNat_byteOfNat (n := c.toNat) (by omega)
    exact .one (by omega) (by omega)
  · have ha := toNat_byteOfNat (n := c.toNat / 64 % 32 + 0xC0) (by omega)
    have hb := toNat_byteOfNat (n := c.toNat % 64 + 0x80) (by omega)
    exact .two (by omega) (isTail_ofNat _) (by omega)
  · have ha := toNat_byteOfNat (n := c.toNat / 4096 % 16 + 0xE0) (by omega)
    have hb := toNat_byteOfNat (n := c.toNat / 64 % 64 + 0x80) (by omega)
    have hc := toNat_byteOfNat (n := c.toNat % 64 + 0x80) (by omega)
    exact .three (by omega) (isTail_ofNat _) (isTail_ofNat _) (by omega) (by omega) (by omega)
  · have ha := toNat_byteOfNat (n := c.toNat / 262144 % 8 + 0xF0) (by omega)
    have hb := toNat_byteOfNat (n := c.toNat / 4096 % 64 + 0x80) (by omega)
    have hc := toNat_byteOfNat (n := c.toNat / 64 % 64 + 0x80) (by omega)
    have hd := toNat_byteOfNat (n := c.toNat % 64 + 0x80) (by omega)
    exact .four (by omega) (isTail_ofNat _) (isTail_ofNat _) (isTail_ofNat _) (by omega)
      (by omega) (by omega)

namespace Encoding

variable {n : Nat} {bytes : List UInt8}

theorem isValidChar (h : Encoding n bytes) : n.isValidChar := by
  unfold Nat.isValidChar
  cases h with
  | one ha hn => omega
  | two ha hb hn =>
      unfold IsTail at hb
      omega
  | three ha hb hc overlong surrogate hn =>
      unfold IsTail at hb hc
      omega
  | four ha hb hc hd overlong beyond hn =>
      unfold IsTail at hb hc hd
      omega

/-- A character has one encoding. -/
theorem encodeChar_eq (h : Encoding n bytes) : String.utf8EncodeChar (Char.ofNat n) = bytes := by
  rw [String.utf8EncodeChar, Char.toNat_val, toNat_charOfNat h.isValidChar]
  cases h with
  | one ha hn => rw [if_pos (by omega), byteOfNat_eq hn]
  | two ha hb hn =>
      unfold IsTail at hb
      rw [if_neg (by omega), if_pos (by omega)]
      simp only [List.cons.injEq, and_true]
      refine ⟨byteOfNat_eq ?_, byteOfNat_eq ?_⟩ <;> omega
  | three ha hb hc overlong surrogate hn =>
      unfold IsTail at hb hc
      rw [if_neg (by omega), if_neg (by omega), if_pos (by omega)]
      simp only [List.cons.injEq, and_true]
      refine ⟨byteOfNat_eq ?_, byteOfNat_eq ?_, byteOfNat_eq ?_⟩ <;> omega
  | four ha hb hc hd overlong beyond hn =>
      unfold IsTail at hb hc hd
      rw [if_neg (by omega), if_neg (by omega), if_neg (by omega)]
      simp only [List.cons.injEq, and_true]
      refine ⟨byteOfNat_eq ?_, byteOfNat_eq ?_, byteOfNat_eq ?_, byteOfNat_eq ?_⟩ <;> omega

end Encoding

/-! ## Reading -/

theorem continuation_cons (low high : UInt8) {seen missing code : Nat} {b : UInt8}
    {tail : List UInt8} (h : low.toNat ≤ b.toNat ∧ b.toNat ≤ high.toNat) :
    continuation seen (missing + 1) low high code (b :: tail) =
      continuation (seen + 1) missing 0x80 0xBF (code * 64 + (b.toNat - 0x80)) tail :=
  if_pos h

theorem exists_of_continuation {seen missing code : Nat} {low high : UInt8}
    {bytes rest : List UInt8} {c : Char}
    (h : continuation seen (missing + 1) low high code bytes = (.character c, rest)) :
    ∃ b tail, bytes = b :: tail ∧ (low.toNat ≤ b.toNat ∧ b.toNat ≤ high.toNat) ∧
      continuation (seen + 1) missing 0x80 0xBF (code * 64 + (b.toNat - 0x80)) tail =
        (.character c, rest) := by
  cases bytes with
  | nil => cases h
  | cons b tail =>
      simp only [continuation] at h
      split at h
      case isTrue hb => exact ⟨b, tail, rfl, hb, h⟩
      case isFalse => cases h

section

variable {low high : UInt8} {code : Nat} {bytes rest : List UInt8} {c : Char}

theorem one_of_continuation (h : continuation 1 1 low high code bytes = (.character c, rest)) :
    ∃ b₁, bytes = b₁ :: rest ∧ (low.toNat ≤ b₁.toNat ∧ b₁.toNat ≤ high.toNat) ∧
      c = Char.ofNat (code * 64 + (b₁.toNat - 0x80)) := by
  obtain ⟨b₁, _, rfl, h₁, h⟩ := exists_of_continuation h
  obtain ⟨hc, rfl⟩ := Prod.mk.inj h
  exact ⟨b₁, rfl, h₁, (Piece.character.inj hc).symm⟩

theorem two_of_continuation (h : continuation 1 2 low high code bytes = (.character c, rest)) :
    ∃ b₁ b₂, bytes = b₁ :: b₂ :: rest ∧ (low.toNat ≤ b₁.toNat ∧ b₁.toNat ≤ high.toNat) ∧
      IsTail b₂ ∧ c = Char.ofNat ((code * 64 + (b₁.toNat - 0x80)) * 64 + (b₂.toNat - 0x80)) := by
  obtain ⟨b₁, _, rfl, h₁, h⟩ := exists_of_continuation h
  obtain ⟨b₂, _, rfl, h₂, h⟩ := exists_of_continuation h
  obtain ⟨hc, rfl⟩ := Prod.mk.inj h
  exact ⟨b₁, b₂, rfl, h₁, h₂, (Piece.character.inj hc).symm⟩

theorem three_of_continuation (h : continuation 1 3 low high code bytes = (.character c, rest)) :
    ∃ b₁ b₂ b₃, bytes = b₁ :: b₂ :: b₃ :: rest ∧
      (low.toNat ≤ b₁.toNat ∧ b₁.toNat ≤ high.toNat) ∧ IsTail b₂ ∧ IsTail b₃ ∧
      c = Char.ofNat (((code * 64 + (b₁.toNat - 0x80)) * 64 + (b₂.toNat - 0x80)) * 64 +
        (b₃.toNat - 0x80)) := by
  obtain ⟨b₁, _, rfl, h₁, h⟩ := exists_of_continuation h
  obtain ⟨b₂, _, rfl, h₂, h⟩ := exists_of_continuation h
  obtain ⟨b₃, _, rfl, h₃, h⟩ := exists_of_continuation h
  obtain ⟨hc, rfl⟩ := Prod.mk.inj h
  exact ⟨b₁, b₂, b₃, rfl, h₁, h₂, h₃, (Piece.character.inj hc).symm⟩

end

/-- The choice of the reader by the number of the first byte. -/
theorem front_eq (b : UInt8) (bytes : List UInt8) :
    front b bytes =
      if b.toNat < 0x80 then (.character (Char.ofNat b.toNat), bytes)
      else if b.toNat < 0xC2 then (.invalid 1, bytes)
      else if b.toNat < 0xE0 then continuation 1 1 0x80 0xBF (b.toNat - 0xC0) bytes
      else if b.toNat = 0xE0 then continuation 1 2 0xA0 0xBF (b.toNat - 0xE0) bytes
      else if b.toNat = 0xED then continuation 1 2 0x80 0x9F (b.toNat - 0xE0) bytes
      else if b.toNat < 0xF0 then continuation 1 2 0x80 0xBF (b.toNat - 0xE0) bytes
      else if b.toNat = 0xF0 then continuation 1 3 0x90 0xBF (b.toNat - 0xF0) bytes
      else if b.toNat < 0xF4 then continuation 1 3 0x80 0xBF (b.toNat - 0xF0) bytes
      else if b.toNat = 0xF4 then continuation 1 3 0x80 0x8F (b.toNat - 0xF0) bytes
      else (.invalid 1, bytes) := by
  simp only [front, UInt8.lt_iff_toNat_lt, ← UInt8.toNat_inj, UInt8.reduceToNat]

theorem Encoding.front_eq {n : Nat} {b : UInt8} {tail : List UInt8} (h : Encoding n (b :: tail))
    (rest : List UInt8) : front b (tail ++ rest) = (.character (Char.ofNat n), rest) := by
  rw [Utf8.front_eq]
  cases h with
  | one ha hn =>
      rw [if_pos ha, hn]
      rfl
  | two ha hb hn =>
      rw [if_neg (by omega), if_neg (by omega), if_pos ha.2, List.singleton_append,
        continuation_cons 0x80 0xBF hb, hn]
      rfl
  | three ha hb hc overlong surrogate hn =>
      rw [if_neg (by omega), if_neg (by omega), if_neg (by omega), hn]
      simp only [List.cons_append, List.nil_append]
      split_ifs with hE0 hED hF0
      · rw [continuation_cons 0xA0 0xBF ⟨overlong hE0, hb.2⟩, continuation_cons 0x80 0xBF hc]
        rfl
      · rw [continuation_cons 0x80 0x9F ⟨hb.1, surrogate hED⟩, continuation_cons 0x80 0xBF hc]
        rfl
      · rw [continuation_cons 0x80 0xBF hb, continuation_cons 0x80 0xBF hc]
        rfl
      all_goals omega
  | four ha hb hc hd overlong beyond hn =>
      rw [if_neg (by omega), if_neg (by omega), if_neg (by omega), if_neg (by omega),
        if_neg (by omega), if_neg (by omega), hn]
      simp only [List.cons_append, List.nil_append]
      split_ifs with hF0 hlt hF4
      · rw [continuation_cons 0x90 0xBF ⟨overlong hF0, hb.2⟩, continuation_cons 0x80 0xBF hc,
          continuation_cons 0x80 0xBF hd]
        rfl
      · rw [continuation_cons 0x80 0xBF hb, continuation_cons 0x80 0xBF hc,
          continuation_cons 0x80 0xBF hd]
        rfl
      · rw [continuation_cons 0x80 0x8F ⟨hb.1, beyond hF4⟩, continuation_cons 0x80 0xBF hc,
          continuation_cons 0x80 0xBF hd]
        rfl
      all_goals omega

theorem exists_encoding_of_front {b : UInt8} {bytes rest : List UInt8} {c : Char}
    (h : front b bytes = (.character c, rest)) :
    ∃ tail n, bytes = tail ++ rest ∧ c = Char.ofNat n ∧ Encoding n (b :: tail) := by
  rw [Utf8.front_eq] at h
  split_ifs at h with h80 hC2 hE0 heE0 heED hF0 heF0 hF4 heF4
  · obtain ⟨hc, rfl⟩ := Prod.mk.inj h
    exact ⟨[], b.toNat, rfl, (Piece.character.inj hc).symm, .one h80 rfl⟩
  · cases h
  · obtain ⟨b₁, rfl, h₁, hc⟩ := one_of_continuation h
    exact ⟨[b₁], _, rfl, hc, .two (by omega) h₁ rfl⟩
  · obtain ⟨b₁, b₂, rfl, ⟨hlow, hhigh⟩, h₂, hc⟩ := two_of_continuation h
    replace hlow : 0xA0 ≤ b₁.toNat := hlow
    exact ⟨[b₁, b₂], _, rfl, hc, .three (by omega) ⟨by omega, hhigh⟩ h₂ (by omega) (by omega) rfl⟩
  · obtain ⟨b₁, b₂, rfl, ⟨hlow, hhigh⟩, h₂, hc⟩ := two_of_continuation h
    replace hhigh : b₁.toNat ≤ 0x9F := hhigh
    exact ⟨[b₁, b₂], _, rfl, hc, .three (by omega) ⟨hlow, by omega⟩ h₂ (by omega) (by omega) rfl⟩
  · obtain ⟨b₁, b₂, rfl, h₁, h₂, hc⟩ := two_of_continuation h
    exact ⟨[b₁, b₂], _, rfl, hc, .three (by omega) h₁ h₂ (by omega) (by omega) rfl⟩
  · obtain ⟨b₁, b₂, b₃, rfl, ⟨hlow, hhigh⟩, h₂, h₃, hc⟩ := three_of_continuation h
    replace hlow : 0x90 ≤ b₁.toNat := hlow
    exact ⟨[b₁, b₂, b₃], _, rfl, hc,
      .four (by omega) ⟨by omega, hhigh⟩ h₂ h₃ (by omega) (by omega) rfl⟩
  · obtain ⟨b₁, b₂, b₃, rfl, h₁, h₂, h₃, hc⟩ := three_of_continuation h
    exact ⟨[b₁, b₂, b₃], _, rfl, hc, .four (by omega) h₁ h₂ h₃ (by omega) (by omega) rfl⟩
  · obtain ⟨b₁, b₂, b₃, rfl, ⟨hlow, hhigh⟩, h₂, h₃, hc⟩ := three_of_continuation h
    replace hhigh : b₁.toNat ≤ 0x8F := hhigh
    exact ⟨[b₁, b₂, b₃], _, rfl, hc,
      .four (by omega) ⟨hlow, by omega⟩ h₂ h₃ (by omega) (by omega) rfl⟩
  · cases h

/-! ## Reading a text -/

theorem encode_cons (c : Char) (t : List Char) :
    encode (c :: t) = String.utf8EncodeChar c ++ encode t := by
  rw [encode, List.flatMap_cons, encode]

theorem piecesFrom_append (done earlier : List Piece) (bytes : List UInt8) :
    piecesFrom (done ++ earlier) bytes = earlier.reverse ++ piecesFrom done bytes := by
  fun_induction piecesFrom done bytes with
  | case1 done => simp [piecesFrom]
  | case2 done b bytes ih => rw [piecesFrom, ← ih, List.cons_append]

theorem pieces_nil : pieces [] = [] := by
  rw [pieces, piecesFrom, List.reverse_nil]

theorem pieces_cons (b : UInt8) (bytes : List UInt8) :
    pieces (b :: bytes) = (front b bytes).1 :: pieces (front b bytes).2 := by
  rw [pieces, piecesFrom]
  exact piecesFrom_append [] [(front b bytes).1] (front b bytes).2

/-- The bytes of a text are its characters, piece by piece. -/
theorem pieces_encode (t : List Char) : pieces (encode t) = t.map .character := by
  induction t with
  | nil => exact pieces_nil
  | cons c t ih =>
      have hc := encoding_encodeChar c
      cases hbytes : String.utf8EncodeChar c with
      | nil =>
          rw [hbytes] at hc
          cases hc
      | cons b tail =>
          rw [hbytes] at hc
          rw [encode_cons, hbytes, List.cons_append, pieces_cons, hc.front_eq, Char.ofNat_toNat, ih,
            List.map_cons]

/-- There are no other bytes with these pieces. -/
theorem eq_encode_of_pieces {bytes : List UInt8} {t : List Char}
    (h : pieces bytes = t.map .character) : bytes = encode t := by
  induction t generalizing bytes with
  | nil =>
      cases bytes with
      | nil => rfl
      | cons b bytes =>
          rw [pieces_cons] at h
          cases h
  | cons c t ih =>
      cases bytes with
      | nil =>
          rw [pieces_nil] at h
          cases h
      | cons b bytes =>
          obtain ⟨piece, rest, hfront⟩ : ∃ piece rest, front b bytes = (piece, rest) := ⟨_, _, rfl⟩
          rw [pieces_cons, hfront, List.map_cons] at h
          obtain ⟨rfl, hrest⟩ := List.cons.inj h
          obtain ⟨tail, n, rfl, rfl, hc⟩ := exists_encoding_of_front hfront
          obtain rfl := ih hrest
          rw [encode_cons, hc.encodeChar_eq, List.cons_append]

theorem map_filterMap_char? {ps : List Piece} (h : ∀ p ∈ ps, p.char?.isSome = true) :
    (ps.filterMap Piece.char?).map .character = ps := by
  induction ps with
  | nil => rfl
  | cons p ps ih =>
      obtain ⟨hp, hps⟩ := List.forall_mem_cons.mp h
      cases p with
      | character c => exact congrArg (Piece.character c :: ·) (ih hps)
      | invalid n => cases hp
      | incomplete => cases hp

/-- The bytes of texts are accepted, and nothing else. -/
theorem decode_eq_ok_iff {bytes : List UInt8} {t : List Char} :
    decode bytes = .ok t ↔ bytes = encode t := by
  constructor
  · intro h
    unfold decode at h
    simp only at h
    split at h
    case h_1 hdrop =>
      have hall : ∀ p ∈ pieces bytes, p.char?.isSome = true := List.dropWhile_eq_nil_iff.mp hdrop
      rw [List.takeWhile_eq_self_iff.mpr hall] at h
      obtain rfl := Except.ok.inj h
      exact eq_encode_of_pieces (map_filterMap_char? hall).symm
    all_goals cases h
  · rintro rfl
    have hall : ∀ p ∈ t.map Piece.character, p.char?.isSome = true := by
      simp [Piece.char?]
    have hchars : (t.map Piece.character).filterMap Piece.char? = t := by
      rw [List.filterMap_map]
      exact List.filterMap_some
    unfold decode
    simp only [pieces_encode]
    rw [List.takeWhile_eq_self_iff.mpr hall, List.dropWhile_eq_nil_iff.mpr hall, hchars]

theorem decodeLossy_encode (t : List Char) : decodeLossy (encode t) = t := by
  rw [decodeLossy, pieces_encode, List.map_map]
  exact List.map_id'' (fun _ => rfl) t

/-! ## The size of what is read -/

theorem size_le (t : List Char) : size t ≤ 4 * t.length := by
  induction t with
  | nil => exact Nat.le_refl 0
  | cons c t ih =>
      have hc := c.utf8Size_le_four
      rw [size_cons, List.length_cons]
      omega

/-- Every piece takes a byte. -/
theorem length_pieces_le (bytes : List UInt8) : (pieces bytes).length ≤ bytes.length := by
  induction hn : bytes.length using Nat.strongRecOn generalizing bytes with
  | ind n ih =>
      cases bytes with
      | nil =>
          rw [pieces_nil]
          exact Nat.zero_le n
      | cons b bytes =>
          have hfront := length_front_le b bytes
          rw [List.length_cons] at hn
          have hbehind := ih _ (by omega) (front b bytes).2 rfl
          rw [pieces_cons, List.length_cons]
          omega

theorem size_decodeLossy_le (bytes : List UInt8) :
    size (decodeLossy bytes) ≤ 4 * bytes.length := by
  have hpieces := length_pieces_le bytes
  have hsize := size_le (decodeLossy bytes)
  have hlength : (decodeLossy bytes).length = (pieces bytes).length := List.length_map _
  omega

end Utf8

end GiftQuiz
