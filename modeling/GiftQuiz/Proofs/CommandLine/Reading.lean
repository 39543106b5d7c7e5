import GiftQuiz.CommandLine.Command
import GiftQuiz.Proofs.Markup.Assembly
import Mathlib.Tactic.SplitIfs

/-!
# Command lines that are understood

`Asks` says which arguments ask for the conversion of a file. The usual ones do, with the flags or
without (`asks_convertArguments`), and so does what becomes of them when `--verbose` is put in front
(`read_cons_verbose`).

A flag in front of the others changes what is read by itself only. The induction is over the
arguments and goes from the last one to the first: an option that the whole of them does not give is
given by no part of them either, so that it is no second one anywhere.
-/

namespace GiftQuiz

namespace CommandLine

open Markup (bind_eq_ok_iff)

/-! ## Arguments -/

namespace Arguments

variable {spec : Spec} {m : Matches} {argument : String} {arguments : List String}

theorem shape_of_isValue {options : List OptionSpec} (h : isValue argument = true) :
    shape options argument = .operand := by
  unfold isValue at h
  unfold shape
  split at h
  · cases h
  · rename_i hdash
    split
    · rename_i heq
      exact absurd heq (hdash _ _)
    · rename_i heq
      exact absurd heq (hdash _ _)
    · rename_i heq
      exact absurd heq (hdash _ _)
    · rfl

theorem readFrom_flag {option : OptionSpec}
    (hshape : shape spec.options argument = .option (some ⟨option, none⟩))
    (hkind : option.kind = .flag) (hnew : m.has option.name = false) :
    readFrom spec m (argument :: arguments) =
      readFrom spec { m with given := m.given ++ [(option.name, none)] } arguments := by
  rw [readFrom, hshape]
  simp [hkind, Matches.add, hnew]

theorem readFrom_value {option : OptionSpec} {kind : ValueKind} {value : String}
    (hshape : shape spec.options argument = .option (some ⟨option, none⟩))
    (hkind : option.kind = .value kind) (hvalue : isValue value = true)
    (haccepts : kind.accepts value = true) (hnew : m.has option.name = false) :
    readFrom spec m (argument :: value :: arguments) =
      readFrom spec { m with given := m.given ++ [(option.name, some value)] } arguments := by
  rw [readFrom, hshape]
  simp [hkind, hvalue, addValue, haccepts, Matches.add, hnew]

theorem readFrom_operand (h : isValue argument = true) (hnested : spec.nested = false)
    (haccepts : spec.operandKind.accepts argument = true)
    (hroom : m.operands.length < spec.operands) :
    readFrom spec m (argument :: arguments) =
      readFrom spec { m with operands := m.operands ++ [argument] } arguments := by
  rw [readFrom, shape_of_isValue h]
  simp [hnested, addOperand, haccepts, hroom]

def withFirst (m : Matches) (name : String) : Matches :=
  { m with given := (name, none) :: m.given }

theorem has_withFirst (name other : String) :
    (withFirst m name).has other = (name == other || m.has other) := rfl

theorem withFirst_addOperand {m m' : Matches} {name operand : String}
    (h : addOperand spec m operand = .ok m') (hm' : m'.has name = false) :
    m.has name = false ∧ addOperand spec (withFirst m name) operand = .ok (withFirst m' name) := by
  unfold addOperand at h ⊢
  split_ifs at h with hroom
  cases h
  exact ⟨hm', if_pos hroom⟩

theorem withFirst_add {m m' : Matches} {name other : String} {value : Option String}
    (h : m.add other value = .ok m') (hm' : m'.has name = false) :
    m.has name = false ∧ (withFirst m name).add other value = .ok (withFirst m' name) := by
  unfold Matches.add at h
  split_ifs at h with hother
  cases h
  obtain ⟨hm, hne⟩ : m.has name = false ∧ other ≠ name := by
    simpa [Matches.has] using hm'
  have hnew : ¬(withFirst m name).has other = true := by
    rw [has_withFirst, Bool.or_eq_true, beq_iff_eq]
    exact fun h => h.elim hne.symm hother
  exact ⟨hm, if_neg hnew⟩

theorem withFirst_addValue {m m' : Matches} {name other value : String} {kind : ValueKind}
    (h : addValue m other kind value = .ok m') (hm' : m'.has name = false) :
    m.has name = false ∧
      addValue (withFirst m name) other kind value = .ok (withFirst m' name) := by
  unfold addValue at h ⊢
  split_ifs at h with haccepts
  rw [if_pos haccepts]
  exact withFirst_add h hm'

theorem withFirst_foldlM {m m' : Matches} {name : String} {operands : List String}
    (h : operands.foldlM (addOperand spec) m = .ok m') (hm' : m'.has name = false) :
    m.has name = false ∧
      operands.foldlM (addOperand spec) (withFirst m name) = .ok (withFirst m' name) := by
  induction operands generalizing m with
  | nil =>
      cases h
      exact ⟨hm', rfl⟩
  | cons operand operands ih =>
      rw [List.foldlM_cons] at h ⊢
      obtain ⟨m₁, hadd, hrest⟩ := bind_eq_ok_iff.mp h
      obtain ⟨hm₁, hrest'⟩ := ih hrest
      obtain ⟨hm, hadd'⟩ := withFirst_addOperand hadd hm₁
      exact ⟨hm, bind_eq_ok_iff.mpr ⟨_, hadd', hrest'⟩⟩

/-- An option that is not given may have been given before all others. -/
theorem withFirst_readFrom {m' : Matches} {name : String}
    (h : readFrom spec m arguments = .ok m') (hm' : m'.has name = false) :
    m.has name = false ∧
      readFrom spec (withFirst m name) arguments = .ok (withFirst m' name) := by
  fun_induction readFrom spec m arguments with
  | case1 m =>
      cases h
      exact ⟨hm', by rw [readFrom]⟩
  | case3 m argument arguments hshape hend =>
      obtain ⟨hm, hrest⟩ := withFirst_foldlM h hm'
      refine ⟨hm, ?_⟩
      rw [readFrom, hshape]
      simp only [hend, hrest]
      rfl
  | case4 m argument arguments hshape hnested =>
      cases h
      refine ⟨hm', ?_⟩
      rw [readFrom, hshape]
      simp only [hnested]
      rfl
  | case5 m argument arguments hshape hnested m₁ hadd ih =>
      obtain ⟨hm₁, hrest⟩ := ih h
      obtain ⟨hm, hadd'⟩ := withFirst_addOperand hadd hm₁
      refine ⟨hm, ?_⟩
      rw [readFrom, hshape]
      simp only [hnested, hadd', hrest]
      rfl
  | case10 m argument option arguments hkind m₁ hadd hshape ih =>
      obtain ⟨hm₁, hrest⟩ := ih h
      obtain ⟨hm, hadd'⟩ := withFirst_add hadd hm₁
      refine ⟨hm, ?_⟩
      rw [readFrom, hshape]
      simp only [hkind, hadd', hrest]
  | case12 m argument option kind value arguments hkind m₁ hadd hshape ih =>
      obtain ⟨hm₁, hrest⟩ := ih h
      obtain ⟨hm, hadd'⟩ := withFirst_addValue hadd hm₁
      refine ⟨hm, ?_⟩
      rw [readFrom, hshape]
      simp only [hkind, hadd', hrest]
  | case14 m argument option kind value arguments hkind hvalue m₁ hadd hshape ih =>
      obtain ⟨hm₁, hrest⟩ := ih h
      obtain ⟨hm, hadd'⟩ := withFirst_addValue hadd hm₁
      refine ⟨hm, ?_⟩
      rw [readFrom, hshape]
      simp only [hkind, hvalue, if_true, hadd', hrest]
  | _ => cases h

end Arguments

/-- Arguments that ask for the conversion of a file from the first question on. -/
def Asks (env : Environment) (arguments : List String) (file : String) (mode : TitleMode)
    (json verbose : Bool) : Prop :=
  read arguments env = .ok (.convert ⟨file, { titleMode := mode }, json, verbose⟩)

theorem isValue_name (mode : TitleMode) : Arguments.isValue mode.name = true := by
  cases mode <;> decide

theorem ofName?_name (mode : TitleMode) : TitleMode.ofName? mode.name = some mode := by
  cases mode <;> decide

/-- The arguments of `convert` for a title mode, with or without the flags. -/
def convertArguments (file : String) (mode : TitleMode) (json verbose : Bool) : List String :=
  "--title-mode" :: mode.name ::
    ((if json then ["--json"] else []) ++ ((if verbose then ["--verbose"] else []) ++ [file]))

def convertMatches (file : String) (mode : TitleMode) (json verbose : Bool) : Matches where
  given := ("title-mode", some mode.name) :: ((if json then [("json", none)] else []) ++
    (if verbose then [("verbose", none)] else []))
  operands := [file]

theorem value?_start_convertMatches (file : String) (mode : TitleMode) (json verbose : Bool) :
    (convertMatches file mode json verbose).value? "start" = none := by
  cases json <;> cases verbose <;> rfl

theorem value?_titleMode_convertMatches (file : String) (mode : TitleMode) (json verbose : Bool) :
    (convertMatches file mode json verbose).value? "title-mode" = some mode.name := rfl

theorem has_json_convertMatches (file : String) (mode : TitleMode) (json verbose : Bool) :
    (convertMatches file mode json verbose).has "json" = json := by
  cases json <;> cases verbose <;> rfl

theorem has_verbose_convertMatches (file : String) (mode : TitleMode) (json verbose : Bool) :
    (convertMatches file mode json verbose).has "verbose" = verbose := by
  cases json <;> cases verbose <;> rfl

theorem read_convertArguments {file : String} (hvalue : Arguments.isValue file = true)
    (hne : file ≠ "") (mode : TitleMode) (json verbose : Bool) :
    Arguments.read convertSpec (convertArguments file mode json verbose) =
      .ok (convertMatches file mode json verbose) := by
  have hmode : ValueKind.titleMode.accepts mode.name = true := by
    rw [ValueKind.accepts, ofName?_name]
    rfl
  have hpath : ValueKind.path.accepts file = true := by
    simp [ValueKind.accepts, path?, hne]
  have htitle : Arguments.shape convertSpec.options "--title-mode" =
      .option (some ⟨valueOption "title-mode" .titleMode, none⟩) := by decide
  have hjson : Arguments.shape convertSpec.options "--json" =
      .option (some ⟨{ name := "json", kind := .flag }, none⟩) := by decide
  have hverbose : Arguments.shape convertSpec.options "--verbose" =
      .option (some ⟨verboseOption, none⟩) := by decide
  have hfile (m : Matches) (hm : m.operands = []) :
      Arguments.readFrom convertSpec m [file] = .ok { m with operands := [file] } := by
    rw [Arguments.readFrom_operand hvalue rfl hpath (by rw [hm]; decide), Arguments.readFrom, hm]
    rfl
  unfold Arguments.read convertArguments
  rw [Arguments.readFrom_value htitle rfl (isValue_name mode) hmode rfl]
  cases json
  · cases verbose
    · exact hfile _ rfl
    · refine (Arguments.readFrom_flag hverbose rfl rfl).trans ?_
      exact hfile _ rfl
  · refine (Arguments.readFrom_flag hjson rfl rfl).trans ?_
    cases verbose
    · exact hfile _ rfl
    · refine (Arguments.readFrom_flag hverbose rfl rfl).trans ?_
      exact hfile _ rfl

/-- What `convert` is asked for is what its arguments and the environment say about each thing. -/
theorem readConvert_eq_ok_iff {outer : Matches} {env : Environment} {command : ConvertCommand} :
    readConvert outer env = .ok command ↔
      ∃ m file startId mode verbose, Arguments.read convertSpec outer.rest = .ok m ∧
        m.operands.head? = some file ∧
        optional m env "start" "EDX2GIFT_START" identifier? = .ok startId ∧
        titleMode m env = .ok mode ∧ verbosity outer m env = .ok verbose ∧
        command =
          ⟨file, { startId := startId.getD 1, titleMode := mode }, m.has "json", verbose⟩ := by
  have hrequired {a : Option String} {file : String} : required a = .ok file ↔ a = some file := by
    cases a <;> simp [required]
  unfold readConvert
  simp only [bind_eq_ok_iff, hrequired]
  constructor
  · rintro ⟨m, hm, file, hfile, startId, hstart, mode, hmode, verbose, hverbose, ⟨⟩⟩
    exact ⟨m, file, startId, mode, verbose, hm, hfile, hstart, hmode, hverbose, rfl⟩
  · rintro ⟨m, file, startId, mode, verbose, hm, hfile, hstart, hmode, hverbose, rfl⟩
    exact ⟨m, hm, file, hfile, startId, hstart, mode, hmode, verbose, hverbose, rfl⟩

theorem read_eq_convert_iff {arguments : List String} {env : Environment}
    {command : ConvertCommand} :
    read arguments env = .ok (.convert command) ↔
      ∃ outer, Arguments.read mainSpec arguments = .ok outer ∧ outer.operands = ["convert"] ∧
        readConvert outer env = .ok command := by
  unfold read
  rw [bind_eq_ok_iff]
  refine exists_congr fun outer => and_congr_right fun _ => ?_
  split
  · rename_i hoperands
    simp only [hoperands, true_and, bind_eq_ok_iff]
    constructor
    · rintro ⟨_, h, ⟨⟩⟩
      exact h
    · exact fun h => ⟨command, h, rfl⟩
  · rename_i hoperands
    simp only [hoperands, bind_eq_ok_iff]
    constructor
    · rintro ⟨_, _, ⟨⟩⟩
    · exact fun h => absurd h.1 (by decide)
  · rename_i hoperands
    simp only [hoperands]
    constructor
    · rintro ⟨⟩
    · exact fun h => absurd h.1 (by decide)
  · rename_i hoperands _ _
    constructor
    · rintro ⟨⟩
    · rintro ⟨h, _⟩
      exact absurd h hoperands

/-- A command line of the usual form, where the environment does not set what it leaves open. -/
theorem asks_convertArguments {env : Environment} {file : String}
    (hvalue : Arguments.isValue file = true) (hne : file ≠ "")
    (hstart : env "EDX2GIFT_START" = none) (hverbose : env "EDX2GIFT_VERBOSE" = none)
    (mode : TitleMode) (json verbose : Bool) :
    Asks env ("convert" :: convertArguments file mode json verbose) file mode json verbose := by
  have houter : Arguments.read mainSpec ("convert" :: convertArguments file mode json verbose) =
      .ok ⟨[], ["convert"], convertArguments file mode json verbose⟩ := by
    unfold Arguments.read
    rw [Arguments.readFrom, Arguments.shape_of_isValue (by decide)]
    rfl
  refine read_eq_convert_iff.mpr ⟨_, houter, rfl, readConvert_eq_ok_iff.mpr ?_⟩
  refine ⟨_, file, none, mode, verbose, read_convertArguments hvalue hne mode json verbose, rfl,
    ?start, ?mode, ?verbose, ?json⟩
  case start => simp [optional, value?_start_convertMatches, hstart]
  case mode =>
    unfold titleMode optional
    simp only [value?_titleMode_convertMatches]
    exact bind_eq_ok_iff.mpr ⟨some mode, by simp [ofName?_name], rfl⟩
  case verbose =>
    unfold verbosity
    rw [has_verbose_convertMatches, hverbose]
    rfl
  case json =>
    rw [has_json_convertMatches]
    rfl

/-! ## Verbosity -/

/-- A flag that is given is enough. -/
theorem verbosity_ne_of_has {outer m : Matches} {env : Environment}
    (h : (outer.has "verbose" || m.has "verbose") = true) : verbosity outer m env ≠ .ok false := by
  unfold verbosity
  simp only [h, Bool.true_or]
  split_ifs
  · nofun
  · cases env "EDX2GIFT_VERBOSE" with
    | none => nofun
    | some s =>
        intro hread
        obtain ⟨b, -, hb⟩ := bind_eq_ok_iff.mp hread
        cases hb

theorem verbosity_withFirst {outer m : Matches} {env : Environment}
    (h : verbosity outer m env = .ok false) :
    outer.has "verbose" = false ∧
      verbosity (Arguments.withFirst outer "verbose") m env = .ok true := by
  obtain ⟨houter, hm⟩ : outer.has "verbose" = false ∧ m.has "verbose" = false :=
    Bool.or_eq_false_iff.mp (Bool.eq_false_iff.mpr fun hflag => verbosity_ne_of_has hflag h)
  have hfirst : (Arguments.withFirst outer "verbose").has "verbose" = true := rfl
  refine ⟨houter, ?_⟩
  unfold verbosity at h ⊢
  rw [houter, hm] at h
  rw [hfirst, hm]
  cases henv : env "EDX2GIFT_VERBOSE" with
  | none => rfl
  | some s =>
      -- The variable has been read without the flag, so that it is a truth value.
      simp only [henv] at h
      obtain ⟨b, hb, -⟩ := bind_eq_ok_iff.mp h
      exact bind_eq_ok_iff.mpr ⟨b, hb, rfl⟩

/-- The flag may be put in front of the arguments where it is not set yet. -/
theorem read_cons_verbose {arguments : List String} {env : Environment} {command : ConvertCommand}
    (h : read arguments env = .ok (.convert command)) (hquiet : command.verbose = false) :
    read ("--verbose" :: arguments) env = .ok (.convert { command with verbose := true }) := by
  obtain ⟨outer, hread, hoperands, hconvert⟩ := read_eq_convert_iff.mp h
  obtain ⟨m, file, startId, mode, verbose, hm, hfile, hstart, hmode, hverbose, rfl⟩ :=
    readConvert_eq_ok_iff.mp hconvert
  obtain rfl : verbose = false := hquiet
  obtain ⟨houter, hverbose'⟩ := verbosity_withFirst hverbose
  have hflag : Arguments.shape mainSpec.options "--verbose" =
      .option (some ⟨verboseOption, none⟩) := by decide
  have hread' : Arguments.read mainSpec ("--verbose" :: arguments) =
      .ok (Arguments.withFirst outer "verbose") :=
    (Arguments.readFrom_flag hflag rfl rfl).trans (Arguments.withFirst_readFrom hread houter).2
  refine read_eq_convert_iff.mpr ⟨_, hread', hoperands, readConvert_eq_ok_iff.mpr ?_⟩
  exact ⟨m, file, startId, mode, true, hm, hfile, hstart, hmode, hverbose', rfl⟩

end CommandLine

end GiftQuiz
