import GiftQuiz.Markup.Element
import Mathlib.Data.List.Basic
import Mathlib.Tactic.Choose

/-!
# Paths in a tree

`Element.select` follows a path from level to level: it replaces the elements it has reached by
their children with the next name. Each of them could as well be followed to the end on its own
(`foldl_named`), so that one path behind another is followed from every element that the first one
leads to (`follow_append`). A path is the names between its slashes, wherever it has more slashes
than it needs (`steps_divided`).

What the levels hold in the end is said by places. `Element.Leads` relates a chain of names to the
place and the element where it ends, and knows of no levels; `Enumerates` says that a list has one
item for each place, in document order. If what is inside the children is enumerated child by child,
so is what is inside all of them (`Enumerates.below`), from which `enumerates_follow` makes its way
along the names.
-/

namespace GiftQuiz

namespace Markup

/-! ## Places -/

section Places

variable {α β : Type}

/-- A list has one item for every place where a relation finds something, in document order. A place
is the positions among children that lead to it, the outermost first, and places are ordered like
the words of a dictionary. -/
def Enumerates (items : List α) (At : List Nat → α → Prop) : Prop :=
  ∃ located : List (List Nat × α), located.map Prod.snd = items ∧
    (located.map Prod.fst).Pairwise (List.Lex (· < ·)) ∧
    ∀ place x, (place, x) ∈ located ↔ At place x

/-- What a relation finds inside the children, by its place in the element around them. -/
def Below (children : List β) (At : β → List Nat → α → Prop) (place : List Nat) (x : α) : Prop :=
  ∃ i child inner, place = i :: inner ∧ children[i]? = some child ∧ At child inner x

namespace Enumerates

variable {items : List α} {At At' : List Nat → α → Prop}

theorem congr (h : Enumerates items At) (hat : ∀ place x, At' place x ↔ At place x) :
    Enumerates items At' := by
  obtain ⟨located, hitems, hsorted, hmem⟩ := h
  exact ⟨located, hitems, hsorted, fun place x => (hmem place x).trans (hat place x).symm⟩

theorem nil (h : ∀ place x, ¬ At place x) : Enumerates [] At :=
  ⟨[], rfl, .nil, fun place x => iff_of_false List.not_mem_nil (h place x)⟩

theorem single (x : α) : Enumerates [x] fun place y => place = [] ∧ y = x :=
  ⟨[([], x)], rfl, List.pairwise_singleton .., fun place y => by simp⟩

/-- Child by child, what is inside the children comes in document order: the position of a child
stands in front of the places inside it. -/
theorem below {children : List β} {itemsOf : β → List α} {At : β → List Nat → α → Prop}
    (h : ∀ child ∈ children, Enumerates (itemsOf child) (At child)) :
    Enumerates (children.flatMap itemsOf) (Below children At) := by
  choose! located hitems hsorted hmem using h
  have hchild : ∀ ci ∈ children.zipIdx, ci.1 ∈ children := fun ci hci =>
    List.mem_of_getElem? (List.mem_zipIdx_iff_getElem?.mp hci)
  refine ⟨children.zipIdx.flatMap fun (child, i) =>
    (located child).map fun (inner, x) => (i :: inner, x), ?_, ?_, ?_⟩
  · calc
      _ = children.zipIdx.flatMap fun ci => (located ci.1).map Prod.snd := by
        simp only [List.map_flatMap, List.map_map, Function.comp_def]
      _ = children.zipIdx.flatMap fun ci => itemsOf ci.1 :=
        List.flatMap_congr fun ci hci => hitems _ (hchild ci hci)
      _ = children.flatMap itemsOf := by
        rw [← List.flatMap_map Prod.fst itemsOf, List.zipIdx_map_fst]
  · have hpositions : children.zipIdx.Pairwise fun ci dj => ci.2 < dj.2 := by
      rw [← List.pairwise_map (f := Prod.snd), List.zipIdx_map_snd]
      exact List.pairwise_lt_range' 1
    rw [List.map_flatMap, List.pairwise_flatMap]
    refine ⟨fun ci hci => ?_, hpositions.imp fun {ci dj} hlt p hp q hq => ?_⟩
    · have hinner := List.pairwise_map.mp (hsorted ci.1 (hchild ci hci))
      rw [List.map_map, List.pairwise_map]
      exact hinner.imp .cons
    · simp only [List.map_map, List.mem_map, Function.comp_apply] at hp hq
      obtain ⟨x, -, rfl⟩ := hp
      obtain ⟨y, -, rfl⟩ := hq
      exact .rel hlt
  · intro place x
    simp only [List.mem_flatMap, List.mem_map, Prod.mk.injEq, Prod.exists]
    constructor
    · rintro ⟨child, i, hci, inner, y, hy, rfl, rfl⟩
      exact ⟨i, child, inner, rfl, List.mem_zipIdx_iff_getElem?.mp hci,
        (hmem child (hchild _ hci) inner y).mp hy⟩
    · rintro ⟨i, child, inner, rfl, hi, hat⟩
      have hci : (child, i) ∈ children.zipIdx := List.mem_zipIdx_iff_getElem?.mpr hi
      exact ⟨child, i, hci, inner, x, (hmem child (hchild _ hci) inner x).mpr hat, rfl, rfl⟩

end Enumerates

end Places

namespace Element

/-- A chain of names leads from an element to a place inside it and to the element there: each name
is that of the next child on the way. -/
inductive Leads : Element → List String → List Nat → Element → Prop
  | here (e : Element) : Leads e [] [] e
  | down {e child target : Element} {i : Nat} {names : List String} {inner : List Nat}
    (step : e.children[i]? = some (.element child)) (way : Leads child names inner target) :
    Leads e (child.name :: names) (i :: inner) target

theorem leads_nil_iff {e target : Element} {place : List Nat} :
    e.Leads [] place target ↔ place = [] ∧ target = e := by
  constructor
  · rintro ⟨⟩
    exact ⟨rfl, rfl⟩
  · rintro ⟨rfl, rfl⟩
    exact .here _

/-- The first name of a chain is that of a child. -/
theorem leads_cons_iff {e target : Element} {name : String} {names : List String}
    {place : List Nat} :
    e.Leads (name :: names) place target ↔
      Below e.children (fun node inner target =>
        ∃ child, node = .element child ∧ child.name = name ∧ child.Leads names inner target)
        place target := by
  constructor
  · rintro ⟨⟩
    rename_i child i inner step way
    exact ⟨i, _, inner, rfl, step, child, rfl, rfl, way⟩
  · rintro ⟨i, _, inner, rfl, step, child, rfl, rfl, way⟩
    exact .down step way

/-! ## Following names -/

/-- The elements that a chain of names leads to. -/
def follow (names : List String) (e : Element) : List Element :=
  names.foldl (fun reached name => reached.flatMap (named name)) [e]

theorem select_eq_follow (e : Element) (path : String) : e.select path = follow (steps path) e :=
  rfl

/-- The elements of a level do not meet on their way down. -/
theorem foldl_named (names : List String) (es : List Element) :
    names.foldl (fun reached name => reached.flatMap (named name)) es =
      es.flatMap (follow names) := by
  induction names generalizing es with
  | nil => exact (List.flatMap_singleton' es).symm
  | cons name names ih =>
      rw [List.foldl_cons, ih, List.flatMap_assoc]
      refine List.flatMap_congr fun e _ => ?_
      rw [follow, List.foldl_cons, ih, List.flatMap_singleton]

theorem follow_append (names names' : List String) (e : Element) :
    follow (names ++ names') e = (follow names e).flatMap (follow names') := by
  rw [follow, List.foldl_append, foldl_named names', ← follow]

theorem follow_singleton (name : String) (e : Element) : follow [name] e = named name e := by
  rw [follow, List.foldl_cons, List.foldl_nil, List.flatMap_singleton]

theorem follow_cons (name : String) (names : List String) (e : Element) :
    follow (name :: names) e = (named name e).flatMap (follow names) := by
  rw [← List.singleton_append, follow_append, follow_singleton]

/-- Something for every child with a name, gathered from all children. -/
theorem flatMap_named {α : Type} (name : String) (f : Element → List α) (e : Element) :
    (named name e).flatMap f = e.children.flatMap fun
      | .text _ => []
      | .element child => if child.name = name then f child else [] := by
  unfold named elements
  induction e.children with
  | nil => rfl
  | cons node nodes ih =>
      cases node with
      | text t => exact ih
      | element child =>
          by_cases h : child.name = name <;> simp [Node.element?, h, ih]

/-- Level by level, following a chain of names finds what the chain leads to. -/
theorem enumerates_follow (names : List String) (e : Element) :
    Enumerates (follow names e) (e.Leads names) := by
  induction names generalizing e with
  | nil => exact (Enumerates.single e).congr fun _ _ => leads_nil_iff
  | cons name names ih =>
      rw [follow_cons, flatMap_named]
      refine (Enumerates.below fun node _ => ?_).congr fun _ _ => leads_cons_iff
      cases node with
      | text t => exact .nil fun _ _ ⟨_, hnode, _⟩ => by cases hnode
      | element child =>
          by_cases hname : child.name = name
          · simp only [if_pos hname]
            refine (ih child).congr fun _ _ => ⟨?_, fun way => ⟨child, rfl, hname, way⟩⟩
            rintro ⟨_, ⟨⟩, -, way⟩
            exact way
          · simp only [if_neg hname]
            refine .nil fun _ _ => ?_
            rintro ⟨_, ⟨⟩, hname', -⟩
            exact hname hname'

/-! ## Paths as names -/

/-- The pieces of a path are what stands between its slashes. -/
structure IsDivided (path : String) (pieces : List String) : Prop where
  joined : "/".intercalate pieces = path
  slash_not_mem : ∀ piece ∈ pieces, '/' ∉ piece.toList

theorem slash_not_mem_of_mem_splitOn {t piece : List Char} (h : piece ∈ t.splitOn '/') :
    '/' ∉ piece := by
  induction t generalizing piece with
  | nil =>
      rw [List.splitOn_nil, List.mem_singleton] at h
      rw [h]
      exact List.not_mem_nil
  | cons c t ih =>
      obtain ⟨first, rest, hsplit⟩ := List.exists_cons_of_ne_nil (List.splitOn_ne_nil '/' t)
      rw [List.splitOn_cons_eq_if_modifyHead, hsplit] at h
      rw [hsplit] at ih
      split at h
      · rcases List.mem_cons.mp h with rfl | h
        · exact List.not_mem_nil
        · exact ih h
      · rename_i hc
        rcases List.mem_cons.mp h with rfl | h
        · have hc' : '/' ≠ c := fun h => hc (beq_iff_eq.mpr h.symm)
          exact List.not_mem_cons_of_ne_of_not_mem hc' (ih (List.mem_cons_self ..))
        · exact ih (List.mem_cons_of_mem _ h)

theorem exists_isDivided (path : String) : ∃ pieces, IsDivided path pieces := by
  refine ⟨(path.toList.splitOn '/').map String.ofList, ?_, ?_⟩
  · rw [← String.toList_inj, String.toList_intercalate, List.map_map]
    have hid : String.toList ∘ String.ofList = id := funext fun _ => String.toList_ofList
    rw [hid, List.map_id]
    exact List.intercalate_splitOn '/'
  · intro piece hpiece
    obtain ⟨t, ht, rfl⟩ := List.mem_map.mp hpiece
    rw [String.toList_ofList]
    exact slash_not_mem_of_mem_splitOn ht

theorem isDivided_singleton {name : String} (h : '/' ∉ name.toList) : IsDivided name [name] :=
  ⟨rfl, by simpa using h⟩

theorem steps_join (path path' : String) :
    steps (path ++ "/" ++ path') = steps path ++ steps path' := by
  have hslash : (path ++ "/" ++ path').toList = path.toList ++ '/' :: path'.toList := by
    simp
  simp only [steps, hslash, List.splitOn_append_cons_self, List.filter_append, List.map_append]

theorem steps_empty : steps "" = [] := rfl

theorem steps_slash_append (path : String) : steps ("/" ++ path) = steps path := by
  rw [← String.empty_append (s := "/"), steps_join, steps_empty, List.nil_append]

theorem steps_append_slash (path : String) : steps (path ++ "/") = steps path := by
  rw [← String.append_empty (s := path ++ "/"), steps_join, steps_empty, List.append_nil]

theorem steps_append_slashes (path path' : String) :
    steps (path ++ "//" ++ path') = steps (path ++ "/" ++ path') := by
  have hslashes : path ++ "//" = path ++ "/" ++ "/" := by
    rw [String.append_assoc]
    rfl
  rw [hslashes, steps_join, steps_append_slash, steps_join]

/-- A path leads along its pieces, the empty ones left out. -/
theorem steps_of_isDivided {path : String} {pieces : List String} (h : IsDivided path pieces) :
    steps path = pieces.filter (· ≠ "") := by
  obtain ⟨rfl, hfree⟩ := h
  rcases eq_or_ne pieces [] with rfl | hne
  · rfl
  · have hsplit : ("/".intercalate pieces).toList.splitOn '/' = pieces.map String.toList := by
      rw [String.toList_intercalate]
      exact List.splitOn_intercalate '/' (by simpa using hfree) (by simpa using hne)
    have hid : String.ofList ∘ String.toList = id := funext fun _ => String.ofList_toList
    rw [steps, hsplit, List.filter_map, List.map_map, hid, List.map_id]
    refine List.filter_congr fun piece _ => ?_
    rw [Bool.eq_iff_iff]
    simp

theorem child?_eq_head?_named (e : Element) (name : String) :
    e.child? name = (named name e).head? := by
  rw [child?, named, List.head?_filter]

/-- A path behind another is followed from wherever that one leads, and slashes that part no names
do not count. What a path leads to are all elements at which the chain of its non-empty pieces ends,
each once and in document order; and a path of one name begins with the child of that name. -/
theorem select_follows_chain (e : Element) :
    (∀ path path' : String,
      e.select (path ++ "/" ++ path') = (e.select path).flatMap (·.select path')) ∧
    (∀ path path' : String, e.select ("/" ++ path) = e.select path ∧
      e.select (path ++ "/") = e.select path ∧
      e.select (path ++ "//" ++ path') = e.select (path ++ "/" ++ path')) ∧
    (∀ path : String, (∃ pieces, IsDivided path pieces) ∧ ∀ pieces, IsDivided path pieces →
      Enumerates (e.select path) (e.Leads (pieces.filter (· ≠ "")))) ∧
    ∀ name : String, name ≠ "" → '/' ∉ name.toList → e.child? name = (e.select name).head? := by
  refine ⟨?_, ?_, ?_, ?_⟩
  · intro path path'
    simp only [select_eq_follow, steps_join, follow_append]
  · intro path path'
    simp only [select_eq_follow, steps_slash_append, steps_append_slash, steps_append_slashes,
      and_self]
  · intro path
    refine ⟨exists_isDivided path, fun pieces hpieces => ?_⟩
    rw [select_eq_follow, steps_of_isDivided hpieces]
    exact enumerates_follow _ e
  · intro name hne hfree
    have hsteps : steps name = [name] := by
      rw [steps_of_isDivided (isDivided_singleton hfree)]
      simpa using hne
    rw [child?_eq_head?_named, select_eq_follow, hsteps, follow_singleton]

def plainChoice : Element :=
  ⟨"choice", [], [.text "a"], ⟨0, 0⟩⟩

def choiceGroup : Element :=
  ⟨"choicegroup", [], [.text " ", .element plainChoice], ⟨0, 0⟩⟩

/-- Two groups that are alike, and a choice between them. -/
def twoGroups : Element :=
  ⟨"multiplechoiceresponse", [],
    [.element choiceGroup, .element plainChoice, .element choiceGroup], ⟨0, 0⟩⟩

/-- The choices in the groups can be told apart by their places only, and both are found. -/
theorem twoGroups_follows_chain :
    IsDivided "/choicegroup//choice" ["", "choicegroup", "", "choice"] ∧
      Enumerates (twoGroups.select "/choicegroup//choice")
        (twoGroups.Leads ["choicegroup", "choice"]) ∧
      twoGroups.Leads ["choicegroup", "choice"] [0, 1] plainChoice ∧
      twoGroups.Leads ["choicegroup", "choice"] [2, 1] plainChoice ∧
      (twoGroups.select "/choicegroup//choice").length = 2 ∧
      "choicegroup" ≠ "" ∧ '/' ∉ "choicegroup".toList ∧
      twoGroups.child? "choicegroup" = (twoGroups.select "choicegroup").head? := by
  have hdivided : IsDivided "/choicegroup//choice" ["", "choicegroup", "", "choice"] :=
    ⟨by decide, by decide⟩
  have hne : "choicegroup" ≠ "" := by decide
  have hfree : '/' ∉ "choicegroup".toList := by decide
  have hinside : choiceGroup.Leads ["choice"] [1] plainChoice :=
    Leads.down (show choiceGroup.children[1]? = some (.element plainChoice) from rfl) (.here _)
  have hfirst := Leads.down
    (show twoGroups.children[0]? = some (.element choiceGroup) from rfl) hinside
  have hlast := Leads.down
    (show twoGroups.children[2]? = some (.element choiceGroup) from rfl) hinside
  obtain ⟨-, -, hchain, hchild⟩ := select_follows_chain twoGroups
  exact ⟨hdivided, (hchain _).2 _ hdivided, hfirst, hlast, by decide +kernel, hne, hfree,
    hchild _ hne hfree⟩

end Element

end Markup

end GiftQuiz
