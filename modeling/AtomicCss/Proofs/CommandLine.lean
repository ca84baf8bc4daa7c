import AtomicCss.CommandLine.Run
import Mathlib.Data.List.Induction

/-
  This file proves that it makes no difference how the command
  line is given its input: as tokens, as tokens behind `--`,
  or as one text on standard input.

  Options are written in front of the input. The first
  argument that is none ends them, whatever follows, and each
  of several spellings of an option is read alike.

  Key definitions include:
    * `CommandLine.Choice`
    * `CommandLine.Spelling`
    * `CommandLine.written`
    * `CommandLine.Options.after`
    * `CommandLine.Route`

  The main statements are:
    * `CommandLine.parse_choice`
    * `CommandLine.parse_written`
    * `CommandLine.foldl_choose`
    * `CommandLine.run_route`
    * `CommandLine.input_routes_agree`
-/

namespace AtomicCss.CommandLine

------------------------------------------------------------
-- Written options
------------------------------------------------------------

/- What one option chooses. -/
inductive Choice where
  | color
  | noColor
  | rtl
  | html
  | config (file : String)
deriving DecidableEq

/- The ways to write the option that names a file. -/
inductive Spelling where
  /- `--config FILE` -/
  | long
  /- `-c FILE` -/
  | short
  /- `--config=FILE` -/
  | equated
deriving DecidableEq

namespace Choice

/- The arguments that an option is written as. -/
def arguments
    (spelling : Spelling) : Choice → List String
  | .color => ["--color"]
  | .noColor => ["--no-color"]
  | .rtl => ["--rtl"]
  | .html => ["--html"]
  | .config file =>
      match spelling with
      | .long => ["--config", file]
      | .short => ["-c", file]
      | .equated => ["--config=" ++ file]

/- Whether a file, if one is named, is read in each spelling. -/
def Plain : Choice → Prop
  | .config file => ¬ configLead <+: file.toList
  | _ => True

instance : DecidablePred Plain
  | .config file =>
      inferInstanceAs (Decidable (¬ configLead <+: file.toList))
  | .color => .isTrue trivial
  | .noColor => .isTrue trivial
  | .rtl => .isTrue trivial
  | .html => .isTrue trivial

/- The file that a choice names. -/
def file? : Choice → Option String
  | .config file => some file
  | _ => none

/- What a choice says of colours. -/
def color? : Choice → Option Bool
  | .color => some true
  | .noColor => some false
  | _ => none

end Choice

/- The arguments of several options in a row. -/
def written
    (choices : List (Spelling × Choice)) : List String :=
  choices.flatMap (fun c => c.2.arguments c.1)

namespace Options

/- The options with one more choice. -/
def choose
    (o : Options) : Choice → Options
  | .color => { o with color := true }
  | .noColor => { o with color := false }
  | .rtl => { o with rtl := true }
  | .html => { o with html := true }
  | .config file => { o with config := some file }

/- The options after choices, of which the last ones count. -/
def after
    (o : Options)
    (choices : List Choice) : Options where
  config := (choices.filterMap Choice.file?).getLast?.or o.config
  rtl := o.rtl || choices.contains .rtl
  html := o.html || choices.contains .html
  color := (choices.filterMap Choice.color?).getLast?.getD o.color

/- To choose one after the other is to let the last ones count. -/
theorem foldl_choose
    (o : Options)
    (choices : List Choice) :
    choices.foldl choose o = o.after choices := by
  induction choices using List.reverseRecOn with
  | nil => simp [after]
  | append_singleton choices c ih =>
      rw [List.foldl_append, ih]
      cases c <;>
        simp [after, choose, Choice.file?, Choice.color?,
          List.filterMap_append]

end Options

------------------------------------------------------------
-- Reading options
------------------------------------------------------------

/- The arguments that are options as they stand. -/
def reserved : List String :=
  ["-h", "--help", "-V", "--version", "--color", "--no-color",
    "--rtl", "--html", "--config", "-c", "--"]

theorem of_mem_reserved :
    ∀ argument ∈ reserved,
      ['-'] <+: argument.toList ∧
        ¬ configLead <+: argument.toList := by
  decide

/- Any other argument is judged by how it begins. -/
theorem parse_of_not_mem_reserved
    (o : Options)
    {argument : String}
    (hOther : argument ∉ reserved)
    (rest : List String) :
    parse o (argument :: rest) =
      if configLead.isPrefixOf argument.toList then
        parse { o with config := some (configFile argument) } rest
      else if ['-'].isPrefixOf argument.toList then
        .refused ("error: unknown option '" ++ argument ++ "'")
      else
        .run o (some (joined (argument :: rest))) := by
  rw [parse]
  -- All equations before the last one are for reserved arguments.
  all_goals
    intros
    subst argument
    exact hOther (by decide)

/- One lead is cut off a text that has no second one behind it. -/
theorem configFile_lead
    {file : String}
    (hPlain : ¬ configLead <+: file.toList) :
    configFile ("--config=" ++ file) = file := by
  have hText :
      ("--config=" ++ file).toList = configLead ++ file.toList :=
    String.toList_append
  have hRest :
      ∀ n, dropLeads configLead n file.toList = file.toList := by
    intro n
    cases n with
    | zero => rfl
    | succ n =>
        rw [dropLeads, if_neg]
        exact fun h => hPlain (List.isPrefixOf_iff_prefix.1 h)
  have hLength :
      (configLead ++ file.toList).length =
        (file.toList.length + 8) + 1 := by
    rw [List.length_append]
    exact Nat.add_comm 9 _
  have hLead :
      configLead.isPrefixOf (configLead ++ file.toList) = true :=
    List.isPrefixOf_iff_prefix.2 (List.prefix_append _ _)
  rw [configFile, hText, hLength, dropLeads, if_pos hLead,
    List.drop_left, hRest, String.ofList_toList]

/- An option is read in each of its spellings. -/
theorem parse_choice
    (o : Options)
    (spelling : Spelling)
    {choice : Choice}
    (hPlain : choice.Plain)
    (rest : List String) :
    parse o (choice.arguments spelling ++ rest) =
      parse (o.choose choice) rest := by
  cases choice with
  | color => rfl
  | noColor => rfl
  | rtl => rfl
  | html => rfl
  | config file =>
      cases spelling with
      | long => rfl
      | short => rfl
      | equated =>
          have hLead : configLead <+: ("--config=" ++ file).toList :=
            ⟨file.toList, String.toList_append.symm⟩
          have hOther : ("--config=" ++ file) ∉ reserved :=
            fun h => (of_mem_reserved _ h).2 hLead
          refine (parse_of_not_mem_reserved o hOther rest).trans ?_
          rw [if_pos (List.isPrefixOf_iff_prefix.2 hLead),
            configFile_lead hPlain]
          rfl

/- So are several options, up to what follows them. -/
theorem parse_written
    (o : Options)
    {choices : List (Spelling × Choice)}
    (hPlain : ∀ c ∈ choices, c.2.Plain)
    (rest : List String) :
    parse o (written choices ++ rest) =
      parse (o.after (choices.map Prod.snd)) rest := by
  rw [← Options.foldl_choose]
  induction choices generalizing o with
  | nil => rfl
  | cons c choices ih =>
      rcases List.forall_mem_cons.1 hPlain with ⟨hFirst, hRest⟩
      rw [written, List.flatMap_cons, List.append_assoc,
        parse_choice o c.1 hFirst]
      exact ih _ hRest

/- The first token ends the options. -/
theorem parse_token
    (o : Options)
    {first : String}
    (hFirst : ¬ ['-'] <+: first.toList)
    (rest : List String) :
    parse o (first :: rest) =
      .run o (some (joined (first :: rest))) := by
  have hOther : first ∉ reserved :=
    fun h => hFirst (of_mem_reserved _ h).1
  have hLead : ¬ configLead <+: first.toList :=
    fun h => hFirst ((List.prefix_append ['-'] _).trans h)
  rw [parse_of_not_mem_reserved o hOther rest, if_neg, if_neg]
  · exact fun h => hFirst (List.isPrefixOf_iff_prefix.1 h)
  · exact fun h => hLead (List.isPrefixOf_iff_prefix.1 h)

------------------------------------------------------------
-- Routes
------------------------------------------------------------

/- The ways to hand over tokens. -/
inductive Route where
  /- As arguments. -/
  | tokens
  /- As arguments behind `--`. -/
  | separated
  /- Joined by blanks on standard input. -/
  | standardInput
deriving DecidableEq

namespace Route

/- The arguments of a run, its options first. -/
def arguments
    (route : Route)
    (choices : List (Spelling × Choice))
    (tokens : List String) : List String :=
  written choices ++
    match route with
    | .tokens => tokens
    | .separated => "--" :: tokens
    | .standardInput => []

/- The surroundings of a run. -/
def world
    (route : Route)
    (w : World)
    (tokens : List String) : World :=
  match route with
  | .standardInput => { w with stdin := joined tokens }
  | _ => w

/- What the arguments say of the input. -/
def input?
    (route : Route)
    (tokens : List String) : Option String :=
  match route with
  | .standardInput => none
  | _ => some (joined tokens)

end Route

/- The arguments of a route ask for a run with its options. -/
theorem parse_route
    (o : Options)
    {choices : List (Spelling × Choice)}
    (hPlain : ∀ c ∈ choices, c.2.Plain)
    {tokens : List String}
    (hFirst : ∀ t ∈ tokens.head?, ¬ ['-'] <+: t.toList)
    (hInput : Text.isBlankText (joined tokens) = false)
    (route : Route) :
    parse o (route.arguments choices tokens) =
      .run (o.after (choices.map Prod.snd)) (route.input? tokens) := by
  refine (parse_written o hPlain _).trans ?_
  cases route with
  | tokens =>
      cases tokens with
      | nil => cases hInput
      | cons first rest => exact parse_token _ (hFirst first rfl) rest
  | separated =>
      rw [parse, hInput]
      rfl
  | standardInput => rfl

/- Only the run of a route without input looks at standard input. -/
theorem run_route
    (w : World)
    {choices : List (Spelling × Choice)}
    (hPlain : ∀ c ∈ choices, c.2.Plain)
    {tokens : List String}
    (hFirst : ∀ t ∈ tokens.head?, ¬ ['-'] <+: t.toList)
    (hInput : Text.isBlankText (joined tokens) = false)
    (route : Route) :
    run (route.world w tokens) (route.arguments choices tokens) =
      answerInput w
        (Options.after { color := w.terminal }
          (choices.map Prod.snd))
        (joined tokens) := by
  have hTerminal : (route.world w tokens).terminal = w.terminal := by
    cases route <;> rfl
  rw [run, hTerminal, parse_route _ hPlain hFirst hInput route]
  cases route <;> rfl

/-
  Tokens that are not blank, of which the first begins with no
  hyphen, may be given as arguments, behind `--` or joined on
  standard input, and each file may be named in any spelling:
  the exit code, the output and the errors of the run are the
  same. What is chosen depends on the options in front of the
  tokens only, of which the last ones count.
-/
theorem input_routes_agree
    (w : World)
    {choices choices' : List (Spelling × Choice)}
    (hPlain : ∀ c ∈ choices, c.2.Plain)
    (hSame : choices'.map Prod.snd = choices.map Prod.snd)
    {tokens : List String}
    (hFirst : ∀ t ∈ tokens.head?, ¬ ['-'] <+: t.toList)
    (hInput : Text.isBlankText (joined tokens) = false) :
    (∀ (route route' : Route) (elapsed : String),
      (run (route.world w tokens)
        (route.arguments choices tokens)).output elapsed =
      (run (route'.world w tokens)
        (route'.arguments choices' tokens)).output elapsed) ∧
    ∀ route : Route,
      parse { color := w.terminal }
          (route.arguments choices tokens) =
        .run
          (Options.after { color := w.terminal }
            (choices.map Prod.snd))
          (route.input? tokens) := by
  have hPlain' : ∀ c ∈ choices', c.2.Plain := by
    intro c hc
    have hChoice : c.2 ∈ choices.map Prod.snd :=
      hSame ▸ List.mem_map_of_mem hc
    rcases List.mem_map.1 hChoice with ⟨d, hd, hEq⟩
    exact hEq ▸ hPlain d hd
  constructor
  · intro route route' elapsed
    rw [run_route w hPlain hFirst hInput,
      run_route w hPlain' hFirst hInput, hSame]
  · exact parse_route _ hPlain hFirst hInput

/-
  A file in two spellings, and a token that looks like an
  option, as arguments and on standard input.
-/
theorem input_routes_agree_of_padding :
    let w : World := ⟨"", true, fun _ => .ok "\x7b\x7d"⟩
    let choices :=
      [(Spelling.equated, Choice.config "a.json"), (.long, .noColor)]
    let choices' :=
      [(Spelling.short, Choice.config "a.json"), (.long, .noColor)]
    let tokens := ["padding=2", "--rtl"]
    let answer :=
      run w ["--config=a.json", "--no-color", "padding=2", "--rtl"]
    (∀ c ∈ choices, c.2.Plain) ∧
    choices'.map Prod.snd = choices.map Prod.snd ∧
    (∀ t ∈ tokens.head?, ¬ ['-'] <+: t.toList) ∧
    Text.isBlankText (joined tokens) = false ∧
    answer.output "1µs" =
      (run { w with stdin := "padding=2 --rtl" }
        ["-c", "a.json", "--no-color"]).output "1µs" ∧
    (answer.output "1µs").code = 0 := by
  intro w choices choices' tokens answer
  have hPlain : ∀ c ∈ choices, c.2.Plain := by decide
  have hSame : choices'.map Prod.snd = choices.map Prod.snd := rfl
  have hFirst : ∀ t ∈ tokens.head?, ¬ ['-'] <+: t.toList := by
    decide
  have hInput : Text.isBlankText (joined tokens) = false := by
    decide
  have hAgree :=
    (input_routes_agree w hPlain hSame hFirst hInput).1
      .tokens .standardInput "1µs"
  exact ⟨hPlain, hSame, hFirst, hInput, hAgree, by decide +kernel⟩

end AtomicCss.CommandLine
