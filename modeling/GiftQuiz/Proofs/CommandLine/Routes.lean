import GiftQuiz.Proofs.CommandLine.Printing
import GiftQuiz.Proofs.CommandLine.Reading
import GiftQuiz.Proofs.Quiz.Yield
import GiftQuiz.Proofs.Service.Submission

/-!
# Routes of a document

A document reaches the conversion as a file, on standard input or in a form, and the quiz leaves it
on standard output, as it is or as a field of a record, or in the body of an answer. The command and
the service make their options in different places, and each of the routes has a decoder of its own
in front of the conversion. On a document whose conversion is defined they come to the same thing
(`CommandLine.routes_agree`), as long as the quiz has no characters that standard output may leave
out. What standard output does with a text is known of texts without escape characters only
(`Surroundings.Displays`), and that is enough.

Each route is reduced to `convert` by itself, by `run_of_convert` and by `Service.respond_of_posts`;
what the routes say of its result is `Delivers` and `Refuses`.
-/

namespace GiftQuiz

namespace CommandLine

/-! ## Runs -/

/-- What a run leaves on standard output. -/
def Exit.stdout : Exit → String
  | .success stdout _ => stdout
  | _ => ""

theorem Exit.stdout_eq_of_code {e : Exit} (h : e.code ≠ 0) : e.stdout = "" := by
  cases e with
  | success stdout stderr => exact absurd rfl h
  | failure causes => rfl
  | badUsage => rfl
  | undefined => rfl
  | service command => rfl

/-- A document under the name of a file, where `-` is standard input. -/
def Surroundings.Holds (s : Surroundings) (file xml : String) : Prop :=
  if file = "-" then s.stdin = Utf8.encode xml.toList
  else s.file file = .ok (Utf8.encode xml.toList)

theorem Surroundings.Holds.readDocument {s : Surroundings} {file xml : String}
    (h : s.Holds file xml) : readDocument s file = .ok xml := by
  have hdecode : Utf8.decode (Utf8.encode xml.toList) = .ok xml.toList :=
    Utf8.decode_eq_ok_iff.mpr rfl
  unfold Surroundings.Holds at h
  unfold CommandLine.readDocument
  split_ifs at h ⊢ with hfile
  · simp only [h, hdecode, String.ofList_toList]
  · simp only [h, hdecode, String.ofList_toList]

/-- What comes out of standard output for a text without escape characters: the text as it is on a
terminal, and else what is printed of it. -/
def Surroundings.Displays (s : Surroundings) : Prop :=
  ∀ text : String, '\x1b' ∉ text.toList → s.stdout text = text ∨ s.stdout text = printed text

theorem Surroundings.Displays.stdout_gift {s : Surroundings} (h : s.Displays) {gift : String}
    (hprinted : ∀ d ∈ gift.toList, isPrinted d = true) : s.stdout gift = gift := by
  have hescape : '\x1b' ∉ gift.toList := fun hmem =>
    escape_ne_of_isPrinted (hprinted _ hmem) rfl
  rcases h gift hescape with hsame | hshown
  · exact hsame
  · rw [hshown, printed_eq hprinted]

/-- What comes out for the record of a conversion is read back with the quiz in it. -/
theorem Surroundings.Displays.exists_gift {s : Surroundings} (h : s.Displays) {c : Conversion}
    (hprinted : ∀ d ∈ c.gift.toList, isPrinted d = true) :
    ∃ fields, Json.parse (s.stdout (c.toJson.pretty ++ "\n")) = some (.object fields) ∧
      Json.field? fields "gift" = some (.string c.gift) := by
  rcases h _ (escape_not_mem_toJson c) with hsame | hshown
  · rw [hsame]
    exact ⟨_, Json.parse_pretty_newline (Report.lawful_toJson _), rfl⟩
  · rw [hshown]
    exact ⟨_, parse_printed_toJson hprinted, rfl⟩

/-- What `--verbose` adds is on standard error. -/
theorem runConvert_verbose (s : Surroundings) (command : ConvertCommand) (verbose : Bool) :
    (runConvert s { command with verbose }).stdout = (runConvert s command).stdout ∧
      (runConvert s { command with verbose }).code = (runConvert s command).code := by
  unfold runConvert
  cases CommandLine.readDocument s command.file with
  | error causes => exact ⟨rfl, rfl⟩
  | ok xml =>
      cases hconvert : convert xml command.options with
      | ok c =>
          simp only [hconvert]
          exact ⟨rfl, rfl⟩
      | error e =>
          simp only [hconvert]
          cases e <;> exact ⟨rfl, rfl⟩

/-! ## Agreement -/

/-- Every route gives the quiz of a document, the command line on a standard output that displays
it. -/
structure Delivers (xml : String) (mode : TitleMode) (gift : String) : Prop where
  printed : ∀ s arguments file verbose, Surroundings.Displays s → s.Holds file xml →
    Asks s.env arguments file mode false verbose →
    (run s arguments).code = 0 ∧ (run s arguments).stdout = gift
  reported : ∀ s arguments file verbose, Surroundings.Displays s → s.Holds file xml →
    Asks s.env arguments file mode true verbose →
    (run s arguments).code = 0 ∧
      ∃ fields, Json.parse (run s arguments).stdout = some (.object fields) ∧
        Json.field? fields "gift" = some (.string gift)
  answered : ∀ (service : Service) (request : Request), service.titleMode = mode →
    service.Posts request xml → service.respond request = some (.plain 200 gift)

/-- Every route refuses a document for the same reason. -/
structure Refuses (xml : String) (mode : TitleMode) (reason : String) : Prop where
  failed : ∀ s arguments file json verbose, Surroundings.Holds s file xml →
    Asks s.env arguments file mode json verbose →
    (run s arguments).code = 1 ∧
      run s arguments = .failure ["Failed to convert " ++ file, reason]
  answered : ∀ (service : Service) (request : Request), service.titleMode = mode →
    service.Posts request xml →
    ∃ x, service.respond request = some x ∧ x.status = 400 ∧
      Json.parse x.body = some (.object [("detail", .string reason)])

section Routes

variable {xml : String} {mode : TitleMode}

theorem run_of_read {s : Surroundings} {arguments : List String} {command : ConvertCommand}
    (h : read arguments s.env = .ok (.convert command)) :
    run s arguments = runConvert s command := by
  unfold run
  rw [h]

theorem run_of_convert {s : Surroundings} {arguments : List String} {file : String}
    {json verbose : Bool} {c : Conversion} (hfile : s.Holds file xml)
    (hasks : Asks s.env arguments file mode json verbose)
    (hc : convert xml { titleMode := mode } = .ok c) :
    run s arguments =
      .success (s.stdout (output json c))
        (s.log (c.warnings.map Warning.message) ++
          if verbose then s.stderr (summary c) else "") := by
  rw [run_of_read hasks, runConvert, hfile.readDocument]
  simp only [hc]

theorem delivers_of_convert {c : Conversion} (hc : convert xml { titleMode := mode } = .ok c)
    (hprinted : ∀ d ∈ c.gift.toList, isPrinted d = true) : Delivers xml mode c.gift where
  printed := by
    intro s arguments file verbose hdisplays hfile hasks
    rw [run_of_convert hfile hasks hc]
    exact ⟨rfl, hdisplays.stdout_gift hprinted⟩
  reported := by
    intro s arguments file verbose hdisplays hfile hasks
    rw [run_of_convert hfile hasks hc]
    exact ⟨rfl, hdisplays.exists_gift hprinted⟩
  answered := by
    intro service request hmode hposts
    rw [Service.respond_of_posts hposts, Service.convertDocument, hmode]
    simp only [hc]

theorem refuses_of_convert {e : ConversionError}
    (he : convert xml { titleMode := mode } = .error e) (hdefined : ∀ span, e ≠ .offBoundary span) :
    Refuses xml mode e.message where
  failed := by
    intro s arguments file json verbose hfile hasks
    have hfailure : run s arguments = .failure ["Failed to convert " ++ file, e.message] := by
      rw [run_of_read hasks, runConvert, hfile.readDocument]
      cases e with
      | offBoundary span => exact absurd rfl (hdefined span)
      | unreadable e => simp only [he]
      | idsExhausted last => simp only [he]
    exact ⟨by rw [hfailure]; rfl, hfailure⟩
  answered := by
    intro service request hmode hposts
    have hanswer : service.respond request = some (.detail 400 e.message) := by
      rw [Service.respond_of_posts hposts, Service.convertDocument, hmode]
      cases e with
      | offBoundary span => exact absurd rfl (hdefined span)
      | unreadable e => simp only [he]
      | idsExhausted last => simp only [he]
    exact ⟨_, hanswer, rfl, Response.parse_detail 400 _⟩

end Routes

/-- A document whose conversion is defined, and gives nothing that is not printed, is converted on
every route or refused on every route. However it comes in, the quiz is the same and so is the
reason. `--verbose` changes neither standard output nor the exit code, and what fails leaves
nothing on standard output. -/
theorem routes_agree (xml : String) (mode : TitleMode)
    (hdefined : ∀ span, convert xml { titleMode := mode } ≠ .error (.offBoundary span))
    (hprinted : ∀ c, convert xml { titleMode := mode } = .ok c →
      ∀ d ∈ c.gift.toList, isPrinted d = true) :
    ((∃ c, convert xml { titleMode := mode } = .ok c ∧ Delivers xml mode c.gift) ∨
      (∃ e, convert xml { titleMode := mode } = .error e ∧ Refuses xml mode e.message)) ∧
    (∀ s arguments command, read arguments s.env = .ok (.convert command) →
      (command.verbose = false →
        read ("--verbose" :: arguments) s.env = .ok (.convert { command with verbose := true })) ∧
      (∀ arguments' verbose,
        read arguments' s.env = .ok (.convert { command with verbose }) →
        (run s arguments').stdout = (run s arguments).stdout ∧
          (run s arguments').code = (run s arguments).code)) ∧
    (∀ s arguments, (run s arguments).code ≠ 0 → (run s arguments).stdout = "") := by
  refine ⟨?agree, ?verbose, fun s arguments h => Exit.stdout_eq_of_code h⟩
  case agree =>
    cases h : convert xml { titleMode := mode } with
    | ok c => exact Or.inl ⟨c, rfl, delivers_of_convert h (hprinted c h)⟩
    | error e =>
        refine Or.inr ⟨e, rfl, refuses_of_convert h fun span hspan => ?_⟩
        exact hdefined span (hspan ▸ h)
  case verbose =>
    intro s arguments command hread
    refine ⟨read_cons_verbose hread, fun arguments' verbose hread' => ?_⟩
    rw [run_of_read hread, run_of_read hread']
    exact runConvert_verbose s command verbose

/-- A document with characters that have a meaning in a form, and its quiz. -/
theorem sums_on_every_route :
    let xml := "<a>\n<p>1+1=2 &amp; 100% é</p>\n<numericalresponse answer=\"2\"/></a>"
    let gift := "::Q1::[html]<p>1+1\\=2 &amp; 100% é</p>\x7b#\n\t=%100%2\n\x7d\n"
    let s : Surroundings :=
      { env := fun _ => none
        stdin := []
        file := fun _ => .ok (Utf8.encode xml.toList)
        isDirectory := fun _ => false }
    let request : Request :=
      ⟨"POST", "/convert",
        [("Content-Type", "application/x-www-form-urlencoded"),
          ("Authorization", "Basic Zm9vOmJhcg==")],
        Form.submission "content" xml⟩
    (run s ["convert", "--title-mode", "markup", "sums.xml"]).stdout = gift ∧
      (∃ fields,
        Json.parse (run s ["convert", "--title-mode", "markup", "--json", "sums.xml"]).stdout =
          some (.object fields) ∧ Json.field? fields "gift" = some (.string gift)) ∧
      (⟨⟨"foo", "bar"⟩, .markup⟩ : Service).respond request = some (.plain 200 gift) := by
  intro xml gift s request
  have hread : (convert xml { titleMode := .markup }).toOption.map Conversion.gift = some gift := by
    decide +kernel
  obtain ⟨c, hc, hcgift⟩ := exists_convert_eq_ok_of_map hread
  have hdefined : ∀ span, convert xml { titleMode := .markup } ≠ .error (.offBoundary span) := by
    rw [hc]
    nofun
  have hprinted : ∀ c, convert xml { titleMode := .markup } = .ok c →
      ∀ d ∈ c.gift.toList, isPrinted d = true := by
    intro c' hc'
    obtain rfl := Except.ok.inj (hc.symm.trans hc')
    rw [hcgift]
    exact List.all_eq_true.mp (by decide +kernel)
  have hposts : (⟨⟨"foo", "bar"⟩, .markup⟩ : Service).Posts request xml :=
    ⟨by decide +kernel, ⟨"foo", by decide +kernel⟩, by decide +kernel,
      Form.submits_submission "content" xml⟩
  have hdisplays : s.Displays := fun _ _ => Or.inr rfl
  have hfile : s.Holds "sums.xml" xml := rfl
  have hasks (json : Bool) : Asks s.env
      ("convert" :: convertArguments "sums.xml" .markup json false) "sums.xml" .markup json false :=
    asks_convertArguments (by decide) (by decide) rfl rfl .markup json false
  obtain ⟨hagree, -, -⟩ := routes_agree xml .markup hdefined hprinted
  rcases hagree with ⟨c', hc', hdelivers⟩ | ⟨e, he, -⟩
  · obtain rfl := Except.ok.inj (hc.symm.trans hc')
    rw [hcgift] at hdelivers
    exact ⟨(hdelivers.printed s _ "sums.xml" false hdisplays hfile (hasks false)).2,
      (hdelivers.reported s _ "sums.xml" false hdisplays hfile (hasks true)).2,
      hdelivers.answered _ request rfl hposts⟩
  · rw [hc] at he
    cases he

end CommandLine

end GiftQuiz
