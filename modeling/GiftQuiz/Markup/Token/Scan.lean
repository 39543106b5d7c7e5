import GiftQuiz.Markup.Token.Read

/-!
# All tokens of a document

`Token.scan` reads as many tokens as it can, and says what stops it short of the end. `read_eq`
says that reading loses nothing: a text is the spelling of its first token and what stands behind
it. As no spelling is empty the scan ends, and a text that it reads to the end is the spellings
of its tokens, one after the other (`scan_eq`).
-/

namespace GiftQuiz

namespace Markup

namespace Token

/-! ## Nothing is lost -/

theorem cutFrom_eq {pattern done t a b : List Char} (h : cutFrom pattern done t = some (a, b)) :
    done.reverse ++ t = a ++ pattern ++ b := by
  induction t generalizing done with
  | nil => simp [cutFrom] at h
  | cons c t ih =>
    simp only [cutFrom] at h
    split at h
    · rename_i hp
      obtain ⟨u, hu⟩ := List.isPrefixOf_iff_prefix.1 hp
      cases h
      simp [← hu]
    · simpa using ih h

theorem cut_eq {pattern t a b : List Char} (h : cut pattern t = some (a, b)) :
    t = a ++ pattern ++ b := by
  simpa using cutFrom_eq h

theorem cutTagFrom_eq {done t a b : List Char} {quote : Option Char}
    (h : cutTagFrom done quote t = some (a, b)) : done.reverse ++ t = a ++ '>' :: b := by
  induction t generalizing done quote with
  | nil => simp [cutTagFrom] at h
  | cons c t ih =>
    simp only [cutTagFrom] at h
    split at h
    · simpa using ih h
    · split at h
      · rename_i hc
        cases h
        simp [hc]
      · simpa using ih h

theorem cutTag_eq {t a b : List Char} (h : cutTag t = some (a, b)) : t = a ++ '>' :: b := by
  simpa using cutTagFrom_eq h

theorem cutBalancedFrom_eq {done t a b : List Char} {depth : Nat}
    (h : cutBalancedFrom done depth t = some (a, b)) : done.reverse ++ t = a ++ '>' :: b := by
  induction t generalizing done depth with
  | nil => simp [cutBalancedFrom] at h
  | cons c t ih =>
    simp only [cutBalancedFrom] at h
    split at h
    · simpa using ih h
    · split at h
      · rename_i hc
        split at h
        · cases h
          simp [hc]
        · simpa using ih h
      · simpa using ih h

theorem cutBalanced_eq {t a b : List Char} (h : cutBalanced t = some (a, b)) :
    t = a ++ '>' :: b := by
  simpa using cutBalancedFrom_eq h

theorem readInstruction_eq {t rest : List Char} {k : Token}
    (h : readInstruction t = .ok (k, rest)) : '<' :: '?' :: t = k.spelling ++ rest := by
  simp only [readInstruction] at h
  split at h
  · cases h
  · split at h
    · rename_i hc
      cases h
      simp [spelling, cut_eq hc]
    · cases h

theorem readComment_eq {t rest : List Char} {k : Token} (h : readComment t = .ok (k, rest)) :
    '<' :: '!' :: '-' :: t = k.spelling ++ rest := by
  simp only [readComment] at h
  split at h
  · cases h
  · split at h
    · rename_i hc
      split at h
      · rename_i hd
        cases h
        simp [spelling, cut_eq hc, commentOpen, hd]
      · cases h
    · cases h

theorem readCData_eq {t rest : List Char} {k : Token} (h : readCData t = .ok (k, rest)) :
    '<' :: '!' :: '[' :: t = k.spelling ++ rest := by
  simp only [readCData] at h
  split at h
  · rename_i hc
    split at h
    · cases h
      simp [spelling, cut_eq hc, cdataOpen]
    · cases h
  · cases h

theorem readDoctype_eq {t rest : List Char} {k : Token} (h : readDoctype t = .ok (k, rest)) :
    '<' :: '!' :: t = k.spelling ++ rest := by
  simp only [readDoctype] at h
  split at h
  · rename_i hc
    split at h
    · split at h
      · cases h
      · cases h
        simp [spelling, cutBalanced_eq hc]
    · cases h
  · cases h

theorem readDeclared_eq {t rest : List Char} {k : Token} (h : readDeclared t = .ok (k, rest)) :
    '<' :: '!' :: t = k.spelling ++ rest := by
  simp only [readDeclared] at h
  split at h
  · exact readComment_eq h
  · exact readCData_eq h
  · exact readDoctype_eq h
  · exact readDoctype_eq h
  · cases h

theorem spelling_ofTag (content : List Char) :
    (ofTag content).spelling = '<' :: content ++ ['>'] := by
  simp only [ofTag]
  split
  · rfl
  · split
    · rename_i h
      obtain ⟨u, rfl⟩ := List.getLast?_eq_some_iff.1 h
      simp [spelling]
    · rfl

theorem readTag_eq {t rest : List Char} {k : Token} (h : readTag t = .ok (k, rest)) :
    '<' :: t = k.spelling ++ rest := by
  simp only [readTag] at h
  split at h
  · rename_i hc
    cases h
    simp [spelling_ofTag, cutTag_eq hc]
  · cases h

theorem readMarkup_eq {t rest : List Char} {k : Token} (h : readMarkup t = .ok (k, rest)) :
    '<' :: t = k.spelling ++ rest := by
  simp only [readMarkup] at h
  split at h
  · exact readDeclared_eq h
  · exact readInstruction_eq h
  · exact readTag_eq h

/-- Reading a token splits the text. -/
theorem read_eq {c : Char} {t rest : List Char} {k : Token} (h : read c t = .ok (k, rest)) :
    c :: t = k.spelling ++ rest := by
  simp only [read] at h
  split at h
  · rename_i hc
    rw [hc]
    exact readMarkup_eq h
  · cases h
    simp [spelling, List.takeWhile_append_dropWhile]

/-- Markup is written with an angle bracket in front. -/
theorem spelling_ne_nil {k : Token} (h : ∀ t, k ≠ .text t) : k.spelling ≠ [] := by
  cases k <;> simp_all [spelling, commentOpen, cdataOpen]

theorem ofTag_ne_text (content t : List Char) : ofTag content ≠ .text t := by
  simp only [ofTag]
  repeat' split
  all_goals exact Token.noConfusion

theorem ne_text_of_readDeclared {t rest : List Char} {k : Token}
    (h : readDeclared t = .ok (k, rest)) (u : List Char) : k ≠ .text u := by
  simp only [readDeclared, readComment, readCData, readDoctype] at h
  repeat' split at h
  all_goals cases h
  all_goals exact Token.noConfusion

theorem ne_text_of_readInstruction {t rest : List Char} {k : Token}
    (h : readInstruction t = .ok (k, rest)) (u : List Char) : k ≠ .text u := by
  simp only [readInstruction] at h
  repeat' split at h
  all_goals cases h
  exact Token.noConfusion

theorem ne_text_of_readTag {t rest : List Char} {k : Token} (h : readTag t = .ok (k, rest))
    (u : List Char) : k ≠ .text u := by
  simp only [readTag] at h
  split at h <;> cases h
  exact ofTag_ne_text _ _

/-- Every token takes at least one character. -/
theorem length_read_le {c : Char} {t rest : List Char} {k : Token}
    (h : read c t = .ok (k, rest)) : rest.length ≤ t.length := by
  have hne : k.spelling ≠ [] := by
    simp only [read, readMarkup] at h
    repeat' split at h
    · exact spelling_ne_nil (ne_text_of_readDeclared h)
    · exact spelling_ne_nil (ne_text_of_readInstruction h)
    · exact spelling_ne_nil (ne_text_of_readTag h)
    · cases h
      simp [spelling]
  have hlen := congrArg List.length (read_eq h)
  have hpos := List.length_pos_iff.2 hne
  simp only [List.length_cons, List.length_append] at hlen
  omega

end Token

/-! ## The scan -/

/-- The tokens of a document as far as they can be read, and what stopped the reading. -/
structure Scan where
  tokens : List Token
  fault : Option Fault
deriving Repr, DecidableEq

namespace Token

/-- Reads on behind the tokens `done`, which are held latest first. -/
def scanFrom (done : List Token) : List Char → Scan
  | [] => ⟨done.reverse, none⟩
  | c :: t =>
    match _h : read c t with
    | .ok (k, rest) => scanFrom (k :: done) rest
    | .error fault => ⟨done.reverse, some fault⟩
termination_by t => t.length
decreasing_by exact Nat.lt_succ_of_le (length_read_le _h)

def scan (t : List Char) : Scan :=
  scanFrom [] t

theorem scanFrom_eq (done : List Token) (t : List Char) :
    ∃ ks rest, (scanFrom done t).tokens = done.reverse ++ ks ∧
      t = ks.flatMap spelling ++ rest ∧ ((scanFrom done t).fault = none → rest = []) := by
  fun_induction scanFrom done t with
  | case1 done => exact ⟨[], [], by simp, by simp, fun _ => rfl⟩
  | case2 done c t k behind h ih =>
    obtain ⟨ks, rest, hks, ht, hf⟩ := ih
    refine ⟨k :: ks, rest, ?_, ?_, hf⟩
    · rw [hks, List.reverse_cons, List.append_assoc, List.singleton_append]
    · rw [read_eq h, ht, List.flatMap_cons, List.append_assoc]
  | case3 done c t fault h => exact ⟨[], c :: t, by simp, by simp, fun h => by cases h⟩

/-- The tokens, written one after the other, are the text up to what cannot be read. -/
theorem scan_eq (t : List Char) :
    ∃ rest, t = (scan t).tokens.flatMap spelling ++ rest ∧
      ((scan t).fault = none → rest = []) := by
  obtain ⟨ks, rest, hks, ht, hf⟩ := scanFrom_eq [] t
  exact ⟨rest, by rw [scan, hks, List.reverse_nil, List.nil_append]; exact ht, hf⟩

end Token

end Markup

end GiftQuiz
