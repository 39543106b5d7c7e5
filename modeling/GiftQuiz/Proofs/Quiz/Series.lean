import GiftQuiz.Proofs.Quiz.Numbering

/-!
# Series of conversions

A session may go on over any number of elements, of one document or of several, and also after a
conversion that has stopped. `Session.after` is the session behind a series of calls, whatever came
of each.

A call numbers its questions from its counter on, and moves the counter past them, except for the
block that it writes when the numbers give out (`Continues`). From this `series_continues` follows
for a whole series, by induction on the calls. `series_numbers` says what it means for the headers:
as long as no call runs out of numbers they are numbered one by one from the first number on, and as
many as have been used. Every call that does run out writes one more header under the greatest
number, which stays the next one, so a second such call repeats it.
-/

namespace GiftQuiz

open Markup (Element Node)

/-- One call of a series: an element to convert, of a document with a source, and a title mode. -/
structure Call where
  source : List Char
  mode : TitleMode
  element : Element
deriving Repr

def Outcome.isExhausted (o : Outcome) : Bool :=
  match o.error? with
  | some (.idsExhausted _) => true
  | _ => false

namespace Session

def make (s : Session) (call : Call) : Outcome :=
  s.convertChildren call.source call.mode call.element

def after (s : Session) (calls : List Call) : Session :=
  calls.foldl (fun s call => (s.make call).session) s

def exhaustions (s : Session) : List Call → Nat
  | [] => 0
  | call :: calls =>
    (if (s.make call).isExhausted then 1 else 0) + exhaustions (s.make call).session calls

end Session

/-! ## The numbers of one call -/

/-- Questions go on with the numbers of a counter and leave another one behind. Of them, `extra`
have not moved it. -/
structure Continues (counter : Counter) (extra : Nat) (questions : List Question)
    (reached : Counter) : Prop where
  first : reached.first = counter.first
  ids : ∀ k q, questions[k]? = some q →
    q.id.toNat = min (counter.next.toNat + k) (UInt64.size - 1)
  next : counter.next.toNat + questions.length = reached.next.toNat + extra
  exhausted : 0 < extra → reached.next.toNat = UInt64.size - 1

namespace Continues

variable {counter reached : Counter} {extra : Nat} {questions : List Question}

theorem nil (counter : Counter) : Continues counter 0 [] counter where
  first := rfl
  ids := fun k q h => by simp at h
  next := rfl
  exhausted := fun h => absurd h (Nat.lt_irrefl 0)

/-- Questions may follow also when the numbers have given out. -/
theorem append {reached' : Counter} {extra' : Nat} {questions' : List Question}
    (h : Continues counter extra questions reached)
    (h' : Continues reached extra' questions' reached') :
    Continues counter (extra + extra') (questions ++ questions') reached' where
  first := h'.first.trans h.first
  ids := by
    intro k q hk
    have hnext := h.next
    have hexhausted := h.exhausted
    rcases Nat.lt_or_ge k questions.length with hlt | hge
    · rw [List.getElem?_append_left hlt] at hk
      exact h.ids k q hk
    · rw [List.getElem?_append_right hge] at hk
      rw [h'.ids _ q hk]
      -- Without an extra question both numbers are the same, and else both are the greatest one.
      omega
  next := by
    have hnext := h.next
    have hnext' := h'.next
    rw [List.length_append]
    omega
  exhausted := by
    intro hextra
    have hexhausted := h.exhausted
    have hexhausted' := h'.exhausted
    have hnext' := h'.next
    have hlt := reached'.next.toNat_lt_size
    omega

end Continues

namespace Yield

def extra (y : Yield) : Nat :=
  match y.error? with
  | some (.idsExhausted _) => 1
  | _ => 0

/-- A stretch goes on with the numbers of its counter. -/
def GoesOn (counter : Counter) (y : Yield) : Prop :=
  Continues counter y.extra y.questions y.counter

theorem goesOn_andThen {counter : Counter} {y : Yield} {next : Counter → Yield}
    (h : GoesOn counter y) (h' : ∀ c, GoesOn c (next c)) : GoesOn counter (y.andThen next) := by
  obtain ⟨questions, warnings, reached, _ | error⟩ := y
  · have hboth := h.append (h' reached)
    rw [show extra ⟨questions, warnings, reached, none⟩ = 0 from rfl, Nat.zero_add] at hboth
    exact hboth
  · exact h

theorem goesOn_asked (mode : TitleMode) (title : Title) (kind : ResponseKind)
    (response : Element) (counter : Counter) :
    GoesOn counter (asked mode title kind response counter) := by
  have hid : ∀ k q, [questionAt mode title kind response counter][k]? = some q →
      q.id.toNat = min (counter.next.toNat + k) (UInt64.size - 1) := by
    intro k q hk
    have hlt := counter.next.toNat_lt_size
    cases k with
    | zero =>
        obtain rfl : questionAt mode title kind response counter = q := by simpa using hk
        rw [show (questionAt mode title kind response counter).id = counter.next from rfl]
        omega
    | succ k => simp at hk
  unfold asked
  cases hsucc : counter.succ? with
  | none =>
      have hlast := Counter.succ?_eq_none_iff.mp hsucc
      exact ⟨rfl, hid, rfl, fun _ => hlast⟩
  | some c =>
      obtain ⟨hfirst, hnext⟩ := Counter.next_of_succ? hsucc
      exact ⟨hfirst, hid, hnext.symm, fun h => absurd h (Nat.lt_irrefl 0)⟩

/-- Every stretch goes on with the numbers of its counter, also one that is stopped. -/
theorem goesOn_ofNodes (source : List Char) (mode : TitleMode) (title : Title)
    (counter : Counter) (nodes : List (Node Element)) :
    GoesOn counter (ofNodes source mode title counter nodes) := by
  refine ofNodes_induction (P := fun counter _ y => GoesOn counter y) ?_ ?_ ?_ ?_ ?_ title counter
    nodes
  · intro title counter
    exact .nil counter
  · intro title kind response counter
    exact goesOn_asked mode title kind response counter
  · intro name counter
    exact .nil counter
  · intro span counter rs
    exact .nil counter
  · intro counter rs rs' y next h h'
    exact goesOn_andThen h h'

end Yield

/-! ## The numbers of a series -/

namespace Session

/-- What a call appends goes on with the numbers of the session. -/
theorem make_continues (s : Session) (call : Call) :
    ∃ questions, (s.make call).session.conversion.fragments =
        s.conversion.fragments ++ questions.flatMap Question.fragments ∧
      Continues s.counter (if (s.make call).isExhausted then 1 else 0) questions
        (s.make call).session.counter := by
  have hyield := Yield.goesOn_ofNodes call.source call.mode {} s.counter call.element.children
  rw [← Yield.ofElement_eq] at hyield
  rw [make, convertChildren_eq_extend]
  generalize Yield.ofElement call.source call.mode s.counter call.element = y at hyield
  refine ⟨y.questions, fragments_extend .., ?_⟩
  obtain ⟨questions, warnings, reached, _ | (_ | _ | _)⟩ := y
  all_goals exact hyield

/-- What a series appends goes on with the numbers of the session. -/
theorem series_continues (s : Session) (calls : List Call) :
    ∃ questions, (s.after calls).conversion.fragments =
        s.conversion.fragments ++ questions.flatMap Question.fragments ∧
      Continues s.counter (s.exhaustions calls) questions (s.after calls).counter := by
  induction calls generalizing s with
  | nil => exact ⟨[], (List.append_nil _).symm, .nil s.counter⟩
  | cons call calls ih =>
      obtain ⟨questions, hquestions, hcall⟩ := s.make_continues call
      obtain ⟨questions', hquestions', hcalls⟩ := ih (s.make call).session
      refine ⟨questions ++ questions', ?_, hcall.append hcalls⟩
      rw [List.flatMap_append, ← List.append_assoc, ← hquestions]
      exact hquestions'

end Session

/-- Headers under the numbers that a function of their place gives. -/
def Numbered (number : Nat → Nat) (headers : List String) : Prop :=
  ∀ k header, headers[k]? = some header →
    ∃ lead text, lead ∈ ["", "\n"] ∧
      header = lead ++ "::Q" ++ toString (number k) ++ "::" ++ text

/-- The headers of a series of calls with one counter and one conversion. If no call runs out of
numbers they are numbered one by one from the first number on, and as many as the numbers that have
been used. If one call does, the same holds of their numbers, and there is one header more. In any
case every such call adds one header under the greatest number to those that have been used. -/
theorem series_numbers (start : UInt64) (calls : List Call) :
    let s : Session := { counter := .fresh start }
    let headers := (s.after calls).conversion.fragments.filter Question.isHeader
    let used := (s.after calls).counter.used.toNat
    (s.exhaustions calls = 0 → Numbered (start.toNat + ·) headers ∧ used = headers.length) ∧
      (s.exhaustions calls = 1 → Numbered (start.toNat + ·) headers ∧
        used + 1 = headers.length) ∧
      Numbered (fun k => min (start.toNat + k) (UInt64.size - 1)) headers ∧
      used + s.exhaustions calls = headers.length ∧
      (0 < s.exhaustions calls → (s.after calls).counter.next.toNat = UInt64.size - 1) := by
  intro s headers used
  obtain ⟨questions, hquestions, hcontinues⟩ := s.series_continues calls
  have hheaders : headers = questions.map Question.header := by
    rw [← Question.filter_isHeader]
    exact congrArg (List.filter Question.isHeader) hquestions
  have hlength : headers.length = questions.length := by
    rw [hheaders, List.length_map]
  have hnumbered : Numbered (fun k => min (start.toNat + k) (UInt64.size - 1)) headers := by
    intro k header hk
    rw [hheaders, List.getElem?_map, Option.map_eq_some_iff] at hk
    obtain ⟨q, hq, rfl⟩ := hk
    have hid : q.id.toNat = min (start.toNat + k) (UInt64.size - 1) := hcontinues.ids k q hq
    simp only [← hid]
    exact q.exists_header_eq
  have hnext : start.toNat + questions.length =
      (s.after calls).counter.next.toNat + s.exhaustions calls := hcontinues.next
  have hbound := (s.after calls).counter.next.toNat_lt_size
  have hused : used + s.exhaustions calls = headers.length := by
    have hle := UInt64.le_iff_toNat_le.mp (s.after calls).counter.first_le_next
    rw [hcontinues.first] at hle
    have hfirst : s.counter.first = start := rfl
    rw [hfirst] at hle
    show (s.after calls).counter.used.toNat + _ = _
    rw [Counter.toNat_used, hcontinues.first, hfirst]
    omega
  -- With at most one block behind the numbers, the last header has at most the greatest of them.
  have hplain (h : s.exhaustions calls ≤ 1) : Numbered (start.toNat + ·) headers := by
    intro k header hk
    have hlt := (List.getElem?_eq_some_iff.mp hk).1
    have hsame : min (start.toNat + k) (UInt64.size - 1) = start.toNat + k := by omega
    have hheader := hnumbered k header hk
    simp only [hsame] at hheader
    exact hheader
  refine ⟨?_, ?_, hnumbered, hused, hcontinues.exhausted⟩
  · intro h
    exact ⟨hplain (by omega), by omega⟩
  · intro h
    exact ⟨hplain (by omega), by omega⟩

def oneNumber : Call :=
  ⟨[], .text, ⟨"problem", [],
    [.element ⟨"numericalresponse", [⟨"answer", "1"⟩], [], ⟨0, 0⟩⟩], ⟨0, 0⟩⟩⟩

/-- From the last number but one on, the second of two calls runs out of numbers. -/
theorem series_of_last_two :
    let s : Session := { counter := .fresh 0xFFFFFFFFFFFFFFFE }
    let finish := s.after [oneNumber, oneNumber]
    let headers := finish.conversion.fragments.filter Question.isHeader
    s.exhaustions [oneNumber, oneNumber] = 1 ∧ Numbered (UInt64.size - 2 + ·) headers ∧
      finish.counter.used.toNat + 1 = headers.length := by
  have hone : ({ counter := .fresh 0xFFFFFFFFFFFFFFFE } : Session).exhaustions
      [oneNumber, oneNumber] = 1 := by decide +kernel
  obtain ⟨-, hnumbers, -⟩ := series_numbers 0xFFFFFFFFFFFFFFFE [oneNumber, oneNumber]
  exact ⟨hone, hnumbers hone⟩

/-- From the greatest number on, two calls write two headers under it, none of which counts. -/
theorem series_repeats_greatest :
    let s : Session := { counter := .fresh 0xFFFFFFFFFFFFFFFF }
    let finish := s.after [oneNumber, oneNumber]
    finish.conversion.fragments.filter Question.isHeader =
        ["::Q18446744073709551615::\x7b", "::Q18446744073709551615::\x7b"] ∧
      finish.counter.used = 0 := by
  decide +kernel

end GiftQuiz
