import Mathlib.Data.List.TakeWhile
import PranaOS.LibC.Ctype

/-!
# `LibC/getopt.cpp`

`getopt_long` over a whole command line. The globals that it keeps between two calls and the argument
vector, which it permutes, are a `Getopt`; what a call reports is a `Call`.

The arguments that are expected to be reported, and the permutation that is expected at the end, are given
by `commandLine`, which reads the command line once from left to right.

An error is returned before `optind` is advanced, so the same argument is found by the next call. The
calls reach `-1` with what is expected iff there is no error except for unknown letters that are followed
by other letters, no option is reported as `?` or `-1`, no colon of the option string and no `+` at its
start is taken for an option, and no `-` follows the options if there is a `+` (`correct_iff`).
-/

namespace LibC

open List Option

/-- `no_argument`, `required_argument`, `optional_argument`. -/
inductive HasArg where
  | noArgument
  | requiredArgument
  | optionalArgument
deriving DecidableEq

/-- `struct option`. -/
structure LongOption where
  name : CString
  hasArg : HasArg
  /-- The variable that is set to `val`. -/
  flag : Option ℕ
  val : ℤ
deriving DecidableEq

/-- What the caller accepts. -/
structure Options where
  shortOptions : CString
  longOptions : List LongOption
  /-- The letters are distinct. -/
  nodup : (shortOptions.filter (· ≠ 58)).Nodup
  /-- The string ends at the first NUL. -/
  zero_notMem : 0 ∉ shortOptions

/-- `m_stop_on_first_non_option`. -/
def Options.stopOnFirstNonOption (self : Options) : Bool := self.shortOptions.head? = some 43

/-- The globals, and the argument vector. -/
structure Getopt where
  /-- The arguments before the null pointer; `m_argc` is their number. -/
  argv : List CString
  optind : ℕ
  optreset : Bool
  optopt : UInt8
  optarg : Option CString
  indexIntoMultioptionArgument : ℕ

/-- What a call of `getopt_long` does. -/
structure Call where
  result : ℤ
  state : Getopt
  /-- What `*out_long_option_index` is set to. -/
  longOptionIndex : Option ℕ
  /-- The variable that is set, and its value. -/
  store : Option (ℕ × ℤ)

/-- `char` is signed. -/
def signedChar (ch : UInt8) : ℤ := ch.toInt8.toInt

/-! ## The parser -/

/-- `StringView::split_view` that keeps empty parts. -/
def splitView (string : CString) (separator : UInt8) : List CString :=
  if string = [] then [] else string.splitOn separator

/-- What the text behind a letter says about its value. -/
def needsValue (text : CString) : HasArg :=
  if [58, 58].isPrefixOf text then .optionalArgument
  else if [58].isPrefixOf text then .requiredArgument
  else .noArgument

/-- `lookup_short_option`. -/
def lookupShortOption (shortOptions : CString) (option : UInt8) : Option (Option HasArg) :=
  match splitView shortOptions option with
  | [] => some none
  | [_] => some none
  | [_, text] => some (some (needsValue text))
  | _ => none

/-- What handling an option at `m_arg_index` gives: besides the result of the call, `m_consumed_args`. -/
structure Handled extends Call where
  consumedArgs : ℕ

namespace Getopt

variable (self : Getopt)

/-- The constructor of `OptionParser`. -/
def prepare : Getopt :=
  let self := if self.optreset ∨ self.optind = 0 then
    { self with optreset := false, optind := 1, indexIntoMultioptionArgument := 0 } else self
  { self with optopt := 0, optarg := none }

/-- The character at an index of a string. There is a NUL behind the string, and nothing behind that. -/
def charAt (arg : CString) (index : ℕ) : Option UInt8 :=
  if index = arg.length then some 0 else arg[index]?

/-- An error, in the state that is left behind. -/
def error (longOptionIndex : Option ℕ) : Handled :=
  { result := 63, state := self, longOptionIndex := longOptionIndex, store := none, consumedArgs := 0 }

/-- The letter `option` with the value `optarg`. -/
def shortOption (option : UInt8) (optarg : Option CString) (index consumedArgs : ℕ) :
    Handled :=
  { result := signedChar option, longOptionIndex := none, store := none, consumedArgs := consumedArgs,
    state := { self with optarg := optarg, indexIntoMultioptionArgument := index } }

variable (options : Options)

/-- `handle_short_option`. -/
def handleShortOption (self : Getopt) (argIndex : ℕ) : Option Handled := do
  let arg ← self.argv[argIndex]?
  if arg.head? ≠ some 45 then none
  else
    let index := if self.indexIntoMultioptionArgument = 0 then 1 else self.indexIntoMultioptionArgument
    let option ← charAt arg index
    let index := index + 1
    match ← lookupShortOption options.shortOptions option with
    | none =>
      return { self with indexIntoMultioptionArgument := index, optopt := option }.error none
    | some needsValue =>
      if index < arg.length then
        if needsValue = .noArgument then return self.shortOption option none index 0
        else return self.shortOption option (some (arg.drop index)) 0 1
      else if needsValue ≠ .requiredArgument then return self.shortOption option none 0 1
      else
        match self.argv[argIndex + 1]? with
        | some value => return self.shortOption option (some value) 0 2
        | none => return { self with indexIntoMultioptionArgument := 0 }.error none

/-- `lookup_long_option`, from an index on: the option, with the value behind `=`, and
`*out_long_option_index`. -/
def lookupLongOptionFrom (arg : CString) :
    List LongOption → ℕ → Option ℕ → Option (LongOption × Option CString) × Option ℕ
  | [], _, outLongOptionIndex => (none, outLongOptionIndex)
  | option :: rest, index, outLongOptionIndex =>
    if ¬option.name.isPrefixOf arg then lookupLongOptionFrom arg rest (index + 1) outLongOptionIndex
    else if arg.length = option.name.length then (some (option, none), some index)
    else if arg[option.name.length]? = some 61 then
      (some (option, some (arg.drop (option.name.length + 1))), some index)
    else lookupLongOptionFrom arg rest (index + 1) (some index)

/-- `handle_long_option`, for the option that is found: the flag is set, or the value returned. -/
def longOption (option : LongOption) (optarg : Option CString)
    (longOptionIndex : Option ℕ) (consumedArgs : ℕ) : Handled :=
  { result := (if option.flag.isSome then 0 else option.val),
    state := { self with optarg := optarg },
    longOptionIndex := longOptionIndex,
    store := option.flag.map fun flag => (flag, option.val),
    consumedArgs := consumedArgs }

/-- `handle_long_option`. -/
def handleLongOption (self : Getopt) (argIndex : ℕ) : Option Handled := do
  let arg ← self.argv[argIndex]?
  if ¬[45, 45].isPrefixOf arg then none
  else
    let self := { self with optopt := 0 }
    match lookupLongOptionFrom (arg.drop 2) options.longOptions 0 none with
    | (none, index) => return self.error index
    | (some (option, optarg), index) =>
      match option.hasArg with
      | .noArgument =>
        if optarg.isSome then return { self with optarg := optarg }.error index
        else return self.longOption option optarg index 1
      | .optionalArgument => return self.longOption option optarg index 1
      | .requiredArgument =>
        if optarg.isSome then return self.longOption option optarg index 1
        else
          match self.argv[argIndex + 1]? with
          | some value => return self.longOption option (some value) index 2
          | none => return self.error index

/-- `shift_argv`. -/
def shiftArgv (argIndex consumedArgs : ℕ) : Option Getopt :=
  if ¬self.optind ≤ argIndex then none
  else if self.optind = argIndex ∨ consumedArgs = 0 then some self
  else
    let argv := self.argv.take self.optind ++ (self.argv.drop argIndex).take consumedArgs ++
      (self.argv.drop self.optind).take (argIndex - self.optind) ++
      self.argv.drop (argIndex + consumedArgs)
    some { self with argv := argv }

/-- `find_next_option`, over the arguments from `m_arg_index` on: whether there is an option, and
`m_arg_index`. -/
def findNextOptionFrom (stopOnFirstNonOption : Bool) : List CString → ℕ → Bool × ℕ
  | [], argIndex => (false, argIndex)
  | arg :: rest, argIndex =>
    if arg.head? ≠ some 45 then
      if stopOnFirstNonOption then (false, argIndex)
      else findNextOptionFrom stopOnFirstNonOption rest (argIndex + 1)
    else if arg = [45] then findNextOptionFrom stopOnFirstNonOption rest (argIndex + 1)
    else if arg = [45, 45] then (false, argIndex)
    else (true, argIndex)

/-- `find_next_option`. -/
def findNextOption (self : Getopt) : Bool × ℕ :=
  findNextOptionFrom options.stopOnFirstNonOption (self.argv.drop self.optind) self.optind

/-- `m_argv[index]`, which is a null pointer behind the arguments. -/
def pointerAt (index : ℕ) : Option (Option CString) :=
  if index = self.argv.length then some none else self.argv[index]?.map some

/-- The end of `OptionParser::getopt`: the arguments that are consumed are moved before the operands. -/
def finish (handled : Handled) (argIndex : ℕ) : Option Call := do
  let self := handled.state
  let self ← (if options.stopOnFirstNonOption then
      if self.optind = argIndex then some self else none
    else self.shiftArgv argIndex handled.consumedArgs)
  return { handled.toCall with state := { self with optind := self.optind + handled.consumedArgs } }

/-- `getopt_long`. -/
def getoptLong (self : Getopt) : Option Call := do
  let self := self.prepare
  let (foundAnOption, argIndex) := self.findNextOption options
  let arg ← self.pointerAt argIndex
  if ¬foundAnOption then
    let consumedArgs := if arg = some [45, 45] then 1 else 0
    finish options ⟨⟨-1, self, none, none⟩, consumedArgs⟩ argIndex
  else
    let handled ← (if [45, 45].isPrefixOf (arg.getD []) then self.handleLongOption options argIndex
      else self.handleShortOption options argIndex)
    if handled.result = 63 then return handled.toCall
    else finish options handled argIndex

end Getopt

/-! ## What is expected -/

/-- What a call tells the caller. -/
inductive Report where
  /-- The call returns `?`. -/
  | error
  /-- The call returns an option, with its value, its index if it is a long one, and the variable that it
  sets. -/
  | option (result : ℤ) (value : Option CString) (index : Option ℕ) (store : Option (ℕ × ℤ))
deriving DecidableEq

/-- The report of a call. -/
def Call.report (self : Call) : Report :=
  if self.result = 63 then .error
  else .option self.result self.state.optarg self.longOptionIndex self.store

/-- The calls from a state on make these reports, then one returns `-1` and leaves a state in `Q`. -/
def Getopt.Completes (options : Options) (Q : Getopt → Prop) : Getopt → List Report → Prop
  | self, [] => ∃ call, self.getoptLong options = some call ∧ call.result = -1 ∧ Q call.state
  | self, report :: reports =>
    ∃ call, self.getoptLong options = some call ∧ call.result ≠ -1 ∧ call.report = report ∧
      Getopt.Completes options Q call.state reports

namespace Options

/-- The option string without the `+` at its start. -/
def letters (self : Options) : CString :=
  if self.stopOnFirstNonOption then self.shortOptions.tail else self.shortOptions

/-- The option with this letter. -/
def shortOption (self : Options) (letter : UInt8) : Option HasArg :=
  if letter = 58 then none
  else
    match self.letters.dropWhile (· ≠ letter) with
    | [] => none
    | _ :: text => some (needsValue text)

/-- The options of an argument such as `-abc`, whether the last one takes `next` as its value. -/
def cluster (self : Options) : CString → Option CString → List Report × Bool
  | [], _ => ([], false)
  | letter :: letters, next =>
    match self.shortOption letter with
    | none =>
      let (reports, takesNext) := self.cluster letters next
      (.error :: reports, takesNext)
    | some .noArgument =>
      let (reports, takesNext) := self.cluster letters next
      (.option (signedChar letter) none none none :: reports, takesNext)
    | some .optionalArgument =>
      ([.option (signedChar letter) (if letters = [] then none else some letters) none none], false)
    | some .requiredArgument =>
      if letters ≠ [] then ([.option (signedChar letter) (some letters) none none], false)
      else
        match next with
        | some value => ([.option (signedChar letter) (some value) none none], true)
        | none => ([.error], false)

end Options

variable (self : LongOption)

/-- The text is the name of the option, or the name with a value. -/
def LongOption.Matches (text : CString) : Bool :=
  text = self.name ∨ (self.name ++ [61]).isPrefixOf text

/-- The value behind the name. -/
def LongOption.valueIn (text : CString) : Option CString :=
  if text = self.name then none else some (text.drop (self.name.length + 1))

/-- The report of a long option. -/
def LongOption.report (index : ℕ) (value : Option CString) : Report :=
  match self.flag with
  | some flag => .option 0 value (some index) (some (flag, self.val))
  | none => .option self.val value (some index) none

theorem LongOption.report_eq (index : ℕ) (value : Option CString) :
    self.report index value = .option (if self.flag.isSome then 0 else self.val) value (some index)
      (self.flag.map fun flag => (flag, self.val)) := by
  unfold LongOption.report
  cases self.flag <;> rfl

namespace Options

/-- The first long option that the text matches, and its index. -/
def lookupLong (self : Options) (text : CString) : Option (LongOption × ℕ) :=
  self.longOptions.zipIdx.find? fun entry => entry.1.Matches text

/-- The option of an argument such as `--name=value`, and whether it takes `next` as its value. -/
def long (self : Options) (text : CString) (next : Option CString) : Report × Bool :=
  match self.lookupLong text with
  | none => (.error, false)
  | some (option, index) =>
    match option.hasArg, option.valueIn text with
    | .noArgument, some _ => (.error, false)
    | .requiredArgument, none =>
      match next with
      | some value => (option.report index (some value), true)
      | none => (.error, false)
    | _, value => (option.report index value, false)

end Options

/-- What is expected of a command line. -/
structure CommandLine where
  reports : List Report
  /-- The options and their values. -/
  consumed : List CString
  operands : List CString

namespace CommandLine

/-- With options before. -/
def consume (self : CommandLine) (reports : List Report) (args : List CString) : CommandLine :=
  { self with reports := reports ++ self.reports, consumed := args ++ self.consumed }

/-- With an operand before. -/
def skip (self : CommandLine) (arg : CString) : CommandLine :=
  { self with operands := arg :: self.operands }

end CommandLine

/-- Arguments that do not start with `-`, and `-` itself. -/
def IsOperand (arg : CString) : Prop := arg.head? ≠ some 45 ∨ arg = [45]

instance (arg : CString) : Decidable (IsOperand arg) := instDecidableOr

namespace Options

/-- The options of an argument, and whether the last one takes the next argument as its value. -/
def argument (self : Options) (arg : CString) (next : Option CString) : List Report × Bool :=
  if [45, 45].isPrefixOf arg then
    let (report, takesNext) := self.long (arg.drop 2) next
    ([report], takesNext)
  else self.cluster (arg.drop 1) next

/-- The command line is read from left to right. It ends at `--`, and with a `+` in the option string at
the first operand. -/
def commandLine (self : Options) : List CString → CommandLine
  | [] => ⟨[], [], []⟩
  | arg :: rest =>
    if IsOperand arg then
      if self.stopOnFirstNonOption then ⟨[], [], arg :: rest⟩ else (self.commandLine rest).skip arg
    else if arg = [45, 45] then ⟨[], [arg], rest⟩
    else
      match rest with
      | [] => ⟨(self.argument arg none).1, [arg], []⟩
      | next :: rest' =>
        if (self.argument arg (some next)).2 then
          (self.commandLine rest').consume (self.argument arg (some next)).1 [arg, next]
        else (self.commandLine (next :: rest')).consume (self.argument arg (some next)).1 [arg]

end Options

namespace Options

/-! ### When it is what happens -/

/-- The letters of an argument are handled as expected: an unknown letter is followed by another letter and
is not taken for an option, a known one is not reported as `?` or `-1`, and has its value. -/
def ClusterOk (self : Options) : CString → Option CString → Prop
  | [], _ => True
  | letter :: letters, next =>
    match self.shortOption letter with
    | none =>
      letters ≠ [] ∧ (letter = 58 → 58 ∉ self.shortOptions) ∧
        (letter = 43 → self.stopOnFirstNonOption = false) ∧ self.ClusterOk letters next
    | some hasArg =>
      signedChar letter ≠ 63 ∧ signedChar letter ≠ -1 ∧
        match hasArg with
        | .noArgument => self.ClusterOk letters next
        | .optionalArgument => True
        | .requiredArgument => letters ≠ [] ∨ next ≠ none

variable (self : Options)

/-- A long option is handled as expected: it is known, it has a value only if it takes one, it has the
value it requires, and is not reported as `?` or `-1`. -/
def LongOk (text : CString) (next : Option CString) : Prop :=
  match self.lookupLong text with
  | none => False
  | some (option, _) =>
    (option.hasArg = .noArgument → option.valueIn text = none) ∧
      (option.hasArg = .requiredArgument → option.valueIn text = none → next ≠ none) ∧
      (option.flag = none → option.val ≠ 63 ∧ option.val ≠ -1)

/-- An argument with options is handled as expected. -/
def ArgumentOk (arg : CString) (next : Option CString) : Prop :=
  if [45, 45].isPrefixOf arg then self.LongOk (arg.drop 2) next else self.ClusterOk (arg.drop 1) next

/-- The command line is handled as expected: all of its options are, and with a `+` in the option string
the first operand is not `-`. -/
def CommandLineOk (self : Options) : List CString → Prop
  | [] => True
  | arg :: rest =>
    if IsOperand arg then
      if self.stopOnFirstNonOption then arg ≠ [45] else self.CommandLineOk rest
    else if arg = [45, 45] then True
    else
      match rest with
      | [] => self.ArgumentOk arg none
      | next :: rest' =>
        self.ArgumentOk arg (some next) ∧
          if (self.argument arg (some next)).2 then self.CommandLineOk rest'
          else self.CommandLineOk (next :: rest')

section

variable (self : Options) {arg : CString} {rest : List CString}

variable (arg rest)

/-- The number of arguments that an argument with options and its value are. -/
def taken : ℕ := if (self.argument arg rest.head?).2 then 2 else 1

/-- What is read next: an operand, which may be the end, `--`, or an argument with options. -/
theorem commandLine_cons :
    (IsOperand arg ∧ self.stopOnFirstNonOption = false ∧
      self.commandLine (arg :: rest) = (self.commandLine rest).skip arg ∧
      (self.CommandLineOk (arg :: rest) ↔ self.CommandLineOk rest)) ∨
    (IsOperand arg ∧ self.stopOnFirstNonOption = true ∧
      self.commandLine (arg :: rest) = ⟨[], [], arg :: rest⟩ ∧
      (self.CommandLineOk (arg :: rest) ↔ arg ≠ [45])) ∨
    (arg = [45, 45] ∧ self.commandLine (arg :: rest) = ⟨[], [arg], rest⟩ ∧
      self.CommandLineOk (arg :: rest)) ∨
    (¬IsOperand arg ∧ arg ≠ [45, 45] ∧
      self.commandLine (arg :: rest) =
        (self.commandLine ((arg :: rest).drop (self.taken arg rest))).consume
          (self.argument arg rest.head?).1 ((arg :: rest).take (self.taken arg rest)) ∧
      (self.CommandLineOk (arg :: rest) ↔ self.ArgumentOk arg rest.head? ∧
        self.CommandLineOk ((arg :: rest).drop (self.taken arg rest)))) := by
  rw [commandLine.eq_def, CommandLineOk.eq_def]
  by_cases hoperand : IsOperand arg
  · cases hstop : self.stopOnFirstNonOption <;> simp [hoperand]
  by_cases hend : arg = [45, 45]
  · subst hend
    exact .inr (.inr (.inl ⟨rfl, rfl, trivial⟩))
  · refine .inr (.inr (.inr ⟨hoperand, hend, ?_⟩))
    simp only [hoperand, hend, if_false, taken]
    cases rest with
    | nil =>
      by_cases htakes : (self.argument arg none).2 = true <;>
        simp [htakes, commandLine, CommandLineOk, CommandLine.consume]
    | cons next rest =>
      by_cases htakes : (self.argument arg (some next)).2 = true <;> simp [htakes]

end

/-! ## The option string -/

variable {letter : UInt8} {before after : CString}

theorem lookupShortOption_of_notMem {text : CString} (h : letter ∉ text) :
    lookupShortOption text letter = some none := by
  rw [lookupShortOption, splitView]
  by_cases htext : text = []
  · rw [if_pos htext]
  · rw [if_neg htext, splitOn_eq_singleton h]

theorem splitOn_append (h : letter ∉ before) :
    (before ++ letter :: after).splitOn letter = before :: after.splitOn letter := by
  have hne : ∀ x ∈ before, (x == letter) = false := fun x hx =>
    beq_eq_false_iff_ne.mpr fun heq => h (heq ▸ hx)
  exact splitOnP_append_cons_of_forall_mem hne letter (beq_self_eq_true letter) after

/-- A letter that is in the string once is found. -/
theorem lookupShortOption_of_once (hbefore : letter ∉ before) (hafter : letter ∉ after) :
    lookupShortOption (before ++ letter :: after) letter = some (some (needsValue after)) := by
  rw [lookupShortOption, splitView, if_neg (by simp), splitOn_append hbefore,
    splitOn_eq_singleton hafter]

/-- A letter that is in the string is not found to be unknown, however often it is there. -/
theorem lookupShortOption_of_mem {text : CString} (h : letter ∈ text) :
    lookupShortOption text letter ≠ some none := by
  obtain ⟨before, after, rfl, hbefore⟩ := eq_append_cons_of_mem h
  rw [lookupShortOption, splitView, if_neg (by simp), splitOn_append hbefore]
  cases hsplit : after.splitOn letter with
  | nil => exact absurd hsplit (splitOn_ne_nil _ _)
  | cons first parts => cases parts <;> simp

/-- A letter of the option string is there only once. -/
theorem notMem_of_eq_append (hletter : letter ≠ 58)
    (htext : self.shortOptions = before ++ letter :: after) : letter ∉ before ∧ letter ∉ after := by
  have hnodup := self.nodup
  rw [htext, filter_append, filter_cons_of_pos (by simpa using hletter),
    nodup_middle, nodup_cons] at hnodup
  simpa [hletter] using hnodup.1

theorem dropWhile_of_notMem {text : CString} (h : letter ∉ text) :
    text.dropWhile (· ≠ letter) = [] := by
  refine dropWhile_eq_nil_iff.mpr fun x hx => ?_
  exact decide_eq_true fun heq => h (heq ▸ hx)

theorem dropWhile_append_cons (h : letter ∉ before) :
    (before ++ letter :: after).dropWhile (· ≠ letter) = letter :: after := by
  rw [dropWhile_append, dropWhile_of_notMem h]
  simp

theorem shortOptions_eq_of_stop (h : self.stopOnFirstNonOption = true) :
    self.shortOptions = 43 :: self.letters := by
  have hhead : self.shortOptions.head? = some 43 := by simpa [stopOnFirstNonOption] using h
  rw [letters, if_pos h]
  exact (eq_cons_of_mem_head? hhead)

/-- Except for a colon and for the `+` at the start, the letters are found as they should. -/
theorem lookupShortOption_eq (hcolon : letter = 58 → 58 ∉ self.shortOptions)
    (hplus : letter = 43 → self.stopOnFirstNonOption = false) :
    lookupShortOption self.shortOptions letter = some (self.shortOption letter) := by
  by_cases hletter : letter = 58
  · rw [shortOption, if_pos hletter, lookupShortOption_of_notMem (hletter ▸ hcolon hletter)]
  rw [shortOption, if_neg hletter]
  have hdrop : self.letters.dropWhile (· ≠ letter) = self.shortOptions.dropWhile (· ≠ letter) := by
    cases hstop : self.stopOnFirstNonOption with
    | false => rw [letters, hstop]; rfl
    | true =>
      have hne : (43 : UInt8) ≠ letter := by
        intro heq
        rw [hplus heq.symm] at hstop
        cases hstop
      rw [self.shortOptions_eq_of_stop hstop, dropWhile_cons_of_pos (by simpa using hne)]
  rw [hdrop]
  by_cases hmem : letter ∈ self.shortOptions
  · obtain ⟨before, after, htext⟩ := append_of_mem hmem
    obtain ⟨hbefore, hafter⟩ := self.notMem_of_eq_append hletter htext
    rw [htext, lookupShortOption_of_once hbefore hafter, dropWhile_append_cons hbefore]
  · rw [lookupShortOption_of_notMem hmem, dropWhile_of_notMem hmem]

/-- The `+` at the start of the option string is not an option. -/
theorem shortOption_plus (h : self.stopOnFirstNonOption = true) :
    self.shortOption 43 = none := by
  have htext : self.shortOptions = [] ++ 43 :: self.letters := self.shortOptions_eq_of_stop h
  obtain ⟨-, hafter⟩ := self.notMem_of_eq_append (by decide) htext
  rw [shortOption, if_neg (by decide), dropWhile_of_notMem hafter]

theorem lookupShortOption_of_some {hasArg : HasArg}
    (h : self.shortOption letter = some hasArg) :
    lookupShortOption self.shortOptions letter = some (some hasArg) := by
  rw [← h]
  refine self.lookupShortOption_eq (fun hletter => ?_) (fun hletter => ?_)
  · rw [shortOption, if_pos hletter] at h
    cases h
  · by_contra hstop
    rw [Bool.not_eq_false] at hstop
    rw [hletter, self.shortOption_plus hstop] at h
    cases h

end Options

namespace Getopt

variable {options : Options} {arg : CString} {rest : List CString} {index : ℕ} {self : Getopt}
  {Q : Getopt → Prop}

/-! ## The state between two calls -/

/-- The arguments are the ones that are consumed, operands that will be skipped, and the ones that
remain. -/
structure Place (options : Options) where
  program : CString
  consumed : List CString
  operands : List CString
  remaining : List CString
  isOperand : ∀ operand ∈ operands, IsOperand operand
  operands_eq : options.stopOnFirstNonOption = true → operands = []

theorem findNextOptionFrom_operands {stop : Bool} {operands : List CString}
    (hoperands : ∀ operand ∈ operands, IsOperand operand) (hstop : stop = true → operands = [])
    (remaining : List CString) (argIndex : ℕ) :
    findNextOptionFrom stop (operands ++ remaining) argIndex =
      findNextOptionFrom stop remaining (argIndex + operands.length) := by
  induction operands generalizing argIndex with
  | nil => rfl
  | cons operand operands ih =>
    have hfalse : stop = false := by
      cases stop with
      | false => rfl
      | true => cases hstop rfl
    subst hfalse
    have hrest := ih (fun other hmem => hoperands other (mem_cons_of_mem _ hmem)) (fun h => by cases h)
      (argIndex + 1)
    rw [cons_append, findNextOptionFrom, length_cons,
      show argIndex + (operands.length + 1) = argIndex + 1 + operands.length by omega]
    rcases hoperands operand mem_cons_self with hhead | hdash
    · rw [if_pos hhead, if_neg (by decide), hrest]
    · rw [if_neg (by rw [hdash]; decide), if_pos hdash, hrest]

namespace Place

variable (place : Place options)

/-- The index of the first argument that remains. -/
def argIndex : ℕ := place.consumed.length + 1 + place.operands.length

/-- The state at a place. In the first argument that remains the options from an index on remain. -/
def state (index : ℕ) (optopt : UInt8) (optarg : Option CString) : Getopt where
  argv := place.program :: (place.consumed ++ (place.operands ++ place.remaining))
  optind := place.consumed.length + 1
  optreset := false
  optopt := optopt
  optarg := optarg
  indexIntoMultioptionArgument := index

/-- The place behind the next arguments. -/
def advance (taken : ℕ) : Place options :=
  { place with
    consumed := place.consumed ++ place.remaining.take taken
    remaining := place.remaining.drop taken }

@[simp]
theorem advance_zero : place.advance 0 = place := by
  simp [advance]

section

variable (index : ℕ) (optopt : UInt8) (optarg : Option CString)

theorem prepare_state : (place.state index optopt optarg).prepare = place.state index 0 none := by
  simp [prepare, state]

/-- The arguments behind those that are consumed. -/
theorem drop_optind : (place.state index optopt optarg).argv.drop (place.consumed.length + 1) =
    place.operands ++ place.remaining := by
  rw [state, drop_succ_cons, drop_left]

/-- The arguments that remain. -/
theorem drop_argIndex : (place.state index optopt optarg).argv.drop place.argIndex = place.remaining := by
  rw [argIndex, ← drop_drop, drop_optind, drop_left]

theorem getElem_argIndex (i : ℕ) :
    (place.state index optopt optarg).argv[place.argIndex + i]? = place.remaining[i]? := by
  rw [← getElem?_drop, drop_argIndex]

theorem pointerAt_argIndex :
    (place.state index optopt optarg).pointerAt place.argIndex = some place.remaining.head? := by
  have hlength : (place.state index optopt optarg).argv.length =
      place.argIndex + place.remaining.length := by
    simp only [state, argIndex, length_cons, length_append]
    omega
  have hget := place.getElem_argIndex index optopt optarg 0
  rw [Nat.add_zero] at hget
  rw [pointerAt, hlength, hget]
  cases place.remaining with
  | nil => rw [if_pos (by simp)]; rfl
  | cons arg rest => rw [if_neg (by simp)]; rfl

/-- The operands are skipped. -/
theorem findNextOption_eq : (place.state index optopt optarg).findNextOption options =
    findNextOptionFrom options.stopOnFirstNonOption place.remaining place.argIndex := by
  change findNextOptionFrom _ (List.drop (place.consumed.length + 1) _) (place.consumed.length + 1) = _
  rw [drop_optind, findNextOptionFrom_operands place.isOperand place.operands_eq]
  rfl

/-- The arguments that are consumed are moved before the operands. -/
theorem finish_eq (result : ℤ) (longOptionIndex : Option ℕ) (store : Option (ℕ × ℤ)) {taken : ℕ}
    (htaken : taken ≤ place.remaining.length) :
    finish options ⟨⟨result, place.state index optopt optarg, longOptionIndex, store⟩, taken⟩
        place.argIndex =
      some ⟨result, (place.advance taken).state index optopt optarg, longOptionIndex, store⟩ := by
  have hself : (if options.stopOnFirstNonOption then
        if (place.state index optopt optarg).optind = place.argIndex then
          some (place.state index optopt optarg) else none
      else (place.state index optopt optarg).shiftArgv place.argIndex taken) =
        some { place.state index optopt optarg with
          argv := ((place.advance taken).state index optopt optarg).argv } := by
    have hoptind : (place.state index optopt optarg).optind = place.consumed.length + 1 := rfl
    have hle : place.consumed.length + 1 ≤ place.argIndex := Nat.le_add_right _ _
    rw [shiftArgv, hoptind, if_neg (not_not.mpr hle)]
    by_cases hempty : place.operands = []
    · have hindex : place.consumed.length + 1 = place.argIndex := by simp [argIndex, hempty]
      rw [if_pos hindex, if_pos (Or.inl hindex), ite_self]
      simp [state, advance, hempty]
    · have hpos : 0 < place.operands.length := length_pos_iff.mpr hempty
      rw [if_neg fun hstop => hempty (place.operands_eq hstop)]
      by_cases hzero : taken = 0
      · rw [if_pos (Or.inr hzero), hzero, advance_zero]
      · have htake : (place.state index optopt optarg).argv.take (place.consumed.length + 1) =
            place.program :: place.consumed := by
          rw [state, take_succ_cons, take_left]
        rw [if_neg (by rw [argIndex]; omega)]
        simp only [htake, ← drop_drop, argIndex, Nat.add_sub_cancel_left]
        simp [state, advance]
  rw [finish]
  rw [hself]
  simp only [state, advance, bind_eq_bind, bind_some, Option.pure_def, length_append,
    length_take_of_le htaken, Nat.add_right_comm]

end

end Place

variable {place : Place options}

/-! ## A call that finds an option -/

/-- What a call that finds an option does: its result, the values of `optopt` and `optarg`, what is set,
the number of arguments that it consumes, and the index from which on options remain. -/
structure Outcome where
  result : ℤ
  optopt : UInt8
  optarg : Option CString
  longOptionIndex : Option ℕ
  store : Option (ℕ × ℤ)
  consumedArgs : ℕ
  index : ℕ

namespace Outcome

/-- The option is handled. -/
def handled (place : Place options) (self : Outcome) : Handled :=
  ⟨⟨self.result, place.state self.index self.optopt self.optarg, self.longOptionIndex, self.store⟩,
    self.consumedArgs⟩

/-- The call returns. If it reports an error, it consumes nothing. -/
def call (place : Place options) (self : Outcome) : Call where
  result := self.result
  state := (place.advance (if self.result = 63 then 0 else self.consumedArgs)).state self.index self.optopt
    self.optarg
  longOptionIndex := self.longOptionIndex
  store := self.store

end Outcome

/-- The next call from a place on has an outcome, or a `VERIFY` fails. -/
def Does (place : Place options) (index : ℕ) (outcome : Option Outcome) : Prop :=
  ∀ optopt optarg, (place.state index optopt optarg).getoptLong options =
    outcome.map (Outcome.call place)

/-- The handler for an argument with options. -/
def handleOption (options : Options) (self : Getopt) (arg : CString) (argIndex : ℕ) : Option Handled :=
  if [45, 45].isPrefixOf arg then self.handleLongOption options argIndex
  else self.handleShortOption options argIndex

theorem does_of_handled {outcome : Option Outcome} (hplace : place.remaining = arg :: rest)
    (harg : ¬IsOperand arg) (hne : arg ≠ [45, 45])
    (hhandled : (place.state index 0 none).handleOption options arg place.argIndex =
      outcome.map (Outcome.handled place))
    (hconsumed : ∀ o ∈ outcome, o.consumedArgs ≤ rest.length + 1) : Does place index outcome := by
  intro optopt optarg
  obtain ⟨hhead, hdash⟩ := not_or.mp harg
  have hfind : (place.state index 0 none).findNextOption options = (true, place.argIndex) := by
    rw [place.findNextOption_eq, hplace, findNextOptionFrom, if_neg hhead, if_neg hdash, if_neg hne]
  unfold getoptLong
  simp only [place.prepare_state, hfind, place.pointerAt_argIndex, hplace, bind_eq_bind, bind_some]
  change ((place.state index 0 none).handleOption options arg place.argIndex).bind _ = _
  rw [hhandled]
  cases outcome with
  | none => rfl
  | some o =>
    rw [map_some, map_some, bind_some, Outcome.call]
    by_cases herror : o.result = 63
    · rw [if_pos herror, Place.advance_zero]
      exact if_pos herror
    · rw [if_neg herror]
      refine (if_neg herror).trans (place.finish_eq _ _ _ _ _ _ ?_)
      rw [hplace]
      exact hconsumed o rfl

/-! ## Calls one after the other -/

section

variable {call : Call} {report : Report} {reports : List Report}

theorem completes_cons_iff (h : self.getoptLong options = some call) :
    Completes options Q self (report :: reports) ↔
      call.result ≠ -1 ∧ call.report = report ∧ Completes options Q call.state reports := by
  constructor
  · rintro ⟨call', hcall', hrest⟩
    rw [h, some.injEq] at hcall'
    rwa [hcall']
  · exact fun hrest => ⟨call, h, hrest⟩

/-- The calls do not complete if none of them returns `-1`. -/
theorem not_completes_of_stuck {S : Getopt → Prop}
    (hS : ∀ self, S self → ∀ call, self.getoptLong options = some call → call.result ≠ -1 ∧ S call.state)
    (h : S self) : ¬Completes options Q self reports := by
  induction reports generalizing self with
  | nil =>
    rintro ⟨call, hcall, hresult, -⟩
    exact (hS self h call hcall).1 hresult
  | cons report reports ih =>
    rintro ⟨call, hcall, -, -, hrest⟩
    exact ih (hS self h call hcall).2 hrest

/-- The calls from a place on make these reports and complete iff `P`. -/
def Decides (Q : Getopt → Prop) (place : Place options) (index : ℕ) (reports : List Report) (P : Prop) :
    Prop :=
  ∀ optopt optarg, Completes options Q (place.state index optopt optarg) reports ↔ P

variable {P R : Prop} {o : Outcome}

theorem Decides.of_false (h : Decides Q place index reports False) (hP : ¬P) :
    Decides Q place index reports P :=
  fun optopt optarg => (h optopt optarg).trans (iff_of_false id hP)

/-- The calls do not complete if they crash or stay at a place with errors. -/
theorem decides_of_stuck {S : ℕ → Prop}
    (hS : ∀ index, S index → Does place index none ∨
      ∃ o, Does place index (some o) ∧ o.result = 63 ∧ S o.index)
    (h : S index) : Decides Q place index reports False := by
  intro optopt optarg
  refine iff_false_intro (not_completes_of_stuck
    (S := fun state => ∃ index optopt optarg, S index ∧ state = place.state index optopt optarg) ?_
    ⟨index, optopt, optarg, h, rfl⟩)
  rintro state ⟨index, optopt, optarg, hindex, rfl⟩ call hcall
  rcases hS index hindex with hcrashes | ⟨o, hdoes, herror, hindex'⟩
  · cases (hcrashes optopt optarg).symm.trans hcall
  · cases (hdoes optopt optarg).symm.trans hcall
    exact ⟨by simp [Outcome.call, herror], o.index, o.optopt, o.optarg, hindex',
      by simp [Outcome.call, herror]⟩

section

variable (h : Does place index (some o))

include h

/-- An error is reported. -/
theorem Does.decides_error (herror : o.result = 63) (hnext : Decides Q place o.index reports P) :
    Decides Q place index (.error :: reports) P := by
  intro optopt optarg
  rw [completes_cons_iff (h optopt optarg)]
  simp [Outcome.call, Call.report, herror, hnext o.optopt o.optarg]

/-- An option is reported, unless it looks like an error or like the end. -/
theorem Does.decides_option
    (hnext : o.result ≠ -1 → Decides Q (place.advance o.consumedArgs) o.index reports R) :
    Decides Q place index (.option o.result o.optarg o.longOptionIndex o.store :: reports)
      (o.result ≠ 63 ∧ o.result ≠ -1 ∧ R) := by
  intro optopt optarg
  rw [completes_cons_iff (h optopt optarg)]
  by_cases herror : o.result = 63
  · simp [Outcome.call, Call.report, herror]
  by_cases hend : o.result = -1
  · simp [Outcome.call, hend]
  simp [Outcome.call, Call.report, Place.state, herror, hend, ← hnext hend o.optopt o.optarg]

/-- An option is not reported as an error. -/
theorem Does.decides_option_error (hresult : o.result ≠ 63) :
    Decides Q place index (.error :: reports) False := by
  intro optopt optarg
  rw [completes_cons_iff (h optopt optarg)]
  simp [Outcome.call, Call.report, hresult]

/-- A call that starts the arguments again does not end the options. -/
def Restarts (place : Place options) : Prop := ∃ o, Does place 0 (some o) ∧ o.result ≠ -1

theorem Does.restarts (hresult : o.result ≠ -1) (hrestart : index = 0 ∨ Restarts place) :
    Restarts place := by
  rcases hrestart with rfl | hrestart
  · exact ⟨o, h, hresult⟩
  · exact hrestart

/-- The calls do not complete behind a missing value: the argument is started again, and its first letter
is not the end. -/
theorem Does.decides_missing (herror : o.result = 63) (hindex : o.index = 0)
    (hrestart : index = 0 ∨ Restarts place) : Decides Q place index [.error] False := by
  refine h.decides_error herror fun optopt optarg => iff_false_intro ?_
  obtain ⟨o', hdoes, hresult⟩ := h.restarts (by simp [herror]) hrestart
  rintro ⟨call, hcall, hend, -⟩
  rw [hindex] at hcall
  cases (hdoes optopt optarg).symm.trans hcall
  exact hresult hend

end

end

/-! ## Letters -/

/-- The position of the letter that is next. -/
def position (index : ℕ) : ℕ := if index = 0 then 1 else index

/-- A letter that cannot be reported. -/
def Outcome.error (optopt : UInt8) (index : ℕ) : Outcome := ⟨63, optopt, none, none, none, 0, index⟩

/-- A letter that is reported. -/
def Outcome.letter (letter : UInt8) (optarg : Option CString) (consumedArgs index : ℕ) : Outcome :=
  ⟨signedChar letter, 0, optarg, none, none, consumedArgs, index⟩

/-- The outcome of a call that finds a letter. -/
def letterOutcome (letter : UInt8) (letters : CString) (next : Option CString) (index : ℕ) :
    Option HasArg → Outcome
  | none => .error letter index
  | some needsValue =>
    if letters ≠ [] then
      if needsValue = .noArgument then .letter letter none 0 index
      else .letter letter (some letters) 1 0
    else if needsValue ≠ .requiredArgument then .letter letter none 1 0
    else
      match next with
      | some value => .letter letter (some value) 2 0
      | none => .error 0 0

theorem letterOutcome_cases (letter : UInt8) (letters : CString) (next : Option CString) (index : ℕ)
    (needsValue : HasArg) :
    (letters = [] ∧ next = none ∧ letterOutcome letter letters next index (some needsValue) = .error 0 0) ∨
      (letterOutcome letter letters next index (some needsValue)).result = signedChar letter := by
  unfold letterOutcome
  dsimp only
  split_ifs with hletters hneeds hneeds
  · exact Or.inr rfl
  · exact Or.inr rfl
  · exact Or.inr rfl
  · cases next with
    | none => exact Or.inl ⟨not_not.mp hletters, rfl, rfl⟩
    | some value => exact Or.inr rfl

section

variable (hplace : place.remaining = arg :: rest) (hlong : ¬[45, 45].isPrefixOf arg)
  (harg : ¬IsOperand arg)

include hplace hlong harg

theorem does_letter (index : ℕ) :
    Does place index ((charAt arg (position index)).bind fun letter =>
      (lookupShortOption options.shortOptions letter).map
        (letterOutcome letter (arg.drop (position index + 1)) rest.head? (position index + 1))) := by
  have hhead : arg.head? = some 45 := not_not.mp (not_or.mp harg).1
  have hfirst := place.getElem_argIndex index 0 none 0
  have hsecond := place.getElem_argIndex index 0 none 1
  rw [hplace] at hfirst hsecond
  rw [Nat.add_zero, getElem?_cons_zero] at hfirst
  have hposition : (if (place.state index 0 none).indexIntoMultioptionArgument = 0 then 1
      else (place.state index 0 none).indexIntoMultioptionArgument) = position index := rfl
  have hlt : position index + 1 < arg.length ↔ arg.drop (position index + 1) ≠ [] := by
    rw [ne_eq, drop_eq_nil_iff, not_le]
  refine does_of_handled hplace harg (fun heq => hlong (by rw [heq]; rfl)) ?_ ?_
  · unfold handleOption handleShortOption
    simp only [hlong, hfirst, hsecond, hposition, hlt, hhead, ne_eq, not_true, Bool.false_eq_true, if_false,
      bind_eq_bind, bind_some]
    cases charAt arg (position index) with
    | none => rfl
    | some letter =>
      simp only [bind_some]
      cases lookupShortOption options.shortOptions letter with
      | none => rfl
      | some found =>
        cases found with
        | none => rfl
        | some needsValue =>
          simp only [bind_some, map_some, letterOutcome, ne_eq]
          split_ifs
          · cases rest <;> rfl
          all_goals rfl
  · intro o ho
    obtain ⟨letter, -, ho⟩ := bind_eq_some_iff.mp ho
    obtain ⟨found, -, rfl⟩ := map_eq_some_iff.mp ho
    unfold letterOutcome
    split
    · exact Nat.zero_le _
    · split_ifs
      all_goals try exact Nat.succ_le_succ (Nat.zero_le _)
      · exact Nat.zero_le _
      · cases rest <;> simp [Outcome.error, Outcome.letter]

/-- Behind the last letter there is no way out. -/
theorem decides_behind {reports : List Report} (hindex : arg.length ≤ index) :
    Decides Q place index reports False := by
  refine decides_of_stuck (S := (arg.length ≤ ·)) (fun index hindex => ?_) hindex
  have hposition : position index = index := by
    refine if_neg fun hzero => harg (Or.inl ?_)
    rw [hzero, Nat.le_zero, length_eq_zero_iff] at hindex
    rw [hindex]
    decide
  have hdoes := does_letter hplace hlong harg index
  rw [hposition, charAt] at hdoes
  by_cases hlast : index = arg.length
  · rw [if_pos hlast, bind_some, Options.lookupShortOption_of_notMem options.zero_notMem] at hdoes
    exact Or.inr ⟨_, hdoes, rfl, Nat.le_succ_of_le hindex⟩
  · rw [if_neg hlast, getElem?_eq_none hindex] at hdoes
    exact Or.inl hdoes

end

/-- The letters of an argument are reported as expected iff they are handled as expected and the calls
behind them do what is expected of them. -/
theorem decides_cluster {tail : List Report} {R : Prop} {taken : ℕ}
    (hplace : place.remaining = arg :: rest) (hlong : ¬[45, 45].isPrefixOf arg) (harg : ¬IsOperand arg)
    (htail : rest = [] → tail = []) (hnext : Decides Q (place.advance taken) 0 tail R)
    (letters : CString) (hletters : letters ≠ [])
    (htaken : taken = if (options.cluster letters rest.head?).2 then 2 else 1)
    (before : CString) (hbefore : arg = 45 :: (before ++ letters)) {index : ℕ}
    (hindex : position index = before.length + 1)
    -- The first letter does not look like the end, if the argument is started again.
    (hrestart : index = 0 ∨ Restarts place) :
    Decides Q place index ((options.cluster letters rest.head?).1 ++ tail)
      (options.ClusterOk letters rest.head? ∧ R) := by
  induction letters generalizing before index with
  | nil => exact absurd rfl hletters
  | cons letter letters ih =>
  have hchar : charAt arg (position index) = some letter := by
    rw [hindex, charAt, hbefore, if_neg (by simp)]
    simp
  have hdrop : arg.drop (position index + 1) = letters := by
    rw [hindex, hbefore]
    simp
  have hdoes := does_letter hplace hlong harg index
  rw [hchar, hdrop, bind_some] at hdoes
  -- The letters behind this one.
  have hbehind : letters ≠ [] → taken = (if (options.cluster letters rest.head?).2 then 2 else 1) →
      Restarts place →
      Decides Q place (position index + 1) ((options.cluster letters rest.head?).1 ++ tail)
        (options.ClusterOk letters rest.head? ∧ R) := by
    intro hlast htaken hrestart
    have hbefore' : arg = 45 :: ((before ++ [letter]) ++ letters) := by rw [hbefore]; simp
    refine ih hlast htaken _ hbefore' ?_ (Or.inr hrestart)
    rw [position, if_neg (Nat.succ_ne_zero _), hindex, length_append]
    rfl
  cases hspec : options.shortOption letter with
  | none =>
    simp only [Options.cluster, hspec] at htaken ⊢
    simp only [Options.ClusterOk, hspec, cons_append]
    by_cases hmistaken : letter = 58 ∧ 58 ∈ options.shortOptions ∨
        letter = 43 ∧ options.stopOnFirstNonOption = true
    · refine Decides.of_false ?_ (by grind)
      -- A colon, and a `+` at the start of the option string, are taken for options.
      obtain ⟨hletter, hmem⟩ : signedChar letter ≠ 63 ∧ letter ∈ options.shortOptions := by
        rcases hmistaken with ⟨rfl, hcolon⟩ | ⟨rfl, hstop⟩
        · exact ⟨by decide, hcolon⟩
        · exact ⟨by decide, options.shortOptions_eq_of_stop hstop ▸ mem_cons_self⟩
      rcases hlookup : lookupShortOption options.shortOptions letter with _ | _ | needsValue
      · rw [hlookup] at hdoes
        exact decides_of_stuck (S := (· = index)) (fun _ heq => Or.inl (heq ▸ hdoes)) rfl
      · exact absurd hlookup (Options.lookupShortOption_of_mem hmem)
      · rw [hlookup] at hdoes
        rcases letterOutcome_cases letter letters rest.head? (position index + 1) needsValue with
          ⟨rfl, hrest, hout⟩ | hresult
        · rw [htail (head?_eq_none_iff.mp hrest)]
          exact hdoes.decides_missing (by rw [hout]; rfl) (by rw [hout]; rfl) hrestart
        · exact hdoes.decides_option_error (hresult ▸ hletter)
    · have hcolon : letter = 58 → 58 ∉ options.shortOptions := fun heq hmem =>
        hmistaken (Or.inl ⟨heq, hmem⟩)
      have hplus : letter = 43 → options.stopOnFirstNonOption = false := fun heq =>
        Bool.eq_false_iff.mpr fun hstop => hmistaken (Or.inr ⟨heq, hstop⟩)
      rw [options.lookupShortOption_eq hcolon hplus, hspec] at hdoes
      refine hdoes.decides_error rfl ?_
      by_cases hlast : letters = []
      · refine (decides_behind hplace hlong harg ?_).of_false fun hok => hok.1.1 hlast
        change arg.length ≤ position index + 1
        rw [hindex, hbefore, hlast]
        simp
      · have hok : options.ClusterOk letters rest.head? ↔
            letters ≠ [] ∧ (letter = 58 → 58 ∉ options.shortOptions) ∧
              (letter = 43 → options.stopOnFirstNonOption = false) ∧ options.ClusterOk letters rest.head? :=
          ⟨fun hok => ⟨hlast, hcolon, hplus, hok⟩, fun hok => hok.2.2.2⟩
        rw [← hok]
        exact hbehind hlast htaken (hdoes.restarts (by decide : (63 : ℤ) ≠ -1) hrestart)
  | some hasArg =>
    rw [options.lookupShortOption_of_some hspec, map_some] at hdoes
    cases hasArg with
    | noArgument =>
      simp only [Options.cluster, hspec] at htaken ⊢
      simp only [Options.ClusterOk, hspec, cons_append, and_assoc]
      by_cases hlast : letters = []
      · subst hlast
        obtain rfl : taken = 1 := htaken
        refine hdoes.decides_option fun _ => ?_
        simpa [Options.cluster, Options.ClusterOk, letterOutcome, Outcome.letter] using hnext
      · simp only [letterOutcome, ne_eq, hlast, not_false_eq_true, if_true] at hdoes
        refine hdoes.decides_option fun hend => ?_
        rw [Outcome.letter, Place.advance_zero]
        exact hbehind hlast htaken (hdoes.restarts hend hrestart)
    | optionalArgument =>
      simp only [Options.cluster, hspec] at htaken ⊢
      simp only [Options.ClusterOk, hspec, and_true, and_assoc]
      obtain rfl : taken = 1 := htaken
      have hout : letterOutcome letter letters rest.head? (position index + 1) (some .optionalArgument) =
          .letter letter (if letters = [] then none else some letters) 1 0 := by
        by_cases hlast : letters = [] <;> simp [letterOutcome, hlast]
      rw [hout] at hdoes
      exact hdoes.decides_option fun _ => hnext
    | requiredArgument =>
      simp only [Options.cluster, hspec] at htaken ⊢
      simp only [Options.ClusterOk, hspec, and_assoc]
      by_cases hlast : letters = []
      · subst hlast
        cases rest with
        | nil =>
          rw [htail rfl]
          exact (hdoes.decides_missing rfl rfl hrestart).of_false (by simp)
        | cons next rest =>
          obtain rfl : taken = 2 := htaken
          simpa using! hdoes.decides_option fun _ => hnext
      · simp only [ne_eq, hlast, not_false_eq_true, if_true] at htaken ⊢
        obtain rfl : taken = 1 := htaken
        simp only [letterOutcome, ne_eq, hlast, not_false_eq_true, if_true, reduceCtorEq, if_false] at hdoes
        simpa using! hdoes.decides_option fun _ => hnext

/-! ## Long options -/

theorem matches_append_iff (option : LongOption) (suffix : CString) :
    option.Matches (option.name ++ suffix) = true ↔ suffix = [] ∨ suffix.head? = some 61 := by
  cases suffix with
  | nil => simp [LongOption.Matches]
  | cons first rest =>
    rw [LongOption.Matches, decide_eq_true_eq, isPrefixOf_iff_prefix, prefix_append_right_inj,
      cons_prefix_cons]
    simp [@eq_comm _ first]

/-- The first option that the text matches is found, with its index. -/
theorem lookupLongOptionFrom_eq (text : CString) (longOptions : List LongOption) (index : ℕ)
    (outLongOptionIndex : Option ℕ) :
    match (longOptions.zipIdx index).find? fun entry => entry.1.Matches text with
    | none => (lookupLongOptionFrom text longOptions index outLongOptionIndex).1 = none
    | some (option, i) => lookupLongOptionFrom text longOptions index outLongOptionIndex =
        (some (option, option.valueIn text), some i) := by
  induction longOptions generalizing index outLongOptionIndex with
  | nil => rfl
  | cons option longOptions ih =>
    rw [zipIdx_cons, lookupLongOptionFrom]
    by_cases hstart : option.name.isPrefixOf text = true
    · obtain ⟨suffix, rfl⟩ := isPrefixOf_iff_prefix.mp hstart
      rw [if_neg (not_not.mpr hstart)]
      cases suffix with
      | nil =>
        rw [find?_cons_of_pos (by rw [matches_append_iff]; exact Or.inl rfl)]
        simp [LongOption.valueIn]
      | cons first rest =>
        rw [if_neg (by simp)]
        by_cases hfirst : first = 61
        · rw [find?_cons_of_pos (by rw [matches_append_iff, hfirst]; exact Or.inr rfl)]
          simp [LongOption.valueIn, hfirst]
        · rw [find?_cons_of_neg (by rw [matches_append_iff]; simp [hfirst]), if_neg (by simpa using hfirst)]
          exact ih (index + 1) (some index)
    · have hno : ¬option.Matches text = true := by
        intro hmatches
        rw [LongOption.Matches, decide_eq_true_eq] at hmatches
        rcases hmatches with rfl | hmatches
        · exact hstart ( isPrefixOf_iff_prefix.mpr (prefix_refl _))
        · exact hstart ( isPrefixOf_iff_prefix.mpr ((prefix_append _ _).trans
            ( isPrefixOf_iff_prefix.mp hmatches)))
      rw [if_pos hstart, find?_cons_of_neg (by exact hno)]
      exact ih (index + 1) outLongOptionIndex

/-- The outcome of a call that finds a long option. -/
def longOutcome (option : LongOption) (i : ℕ) (value : Option CString) (taken : ℕ) : Outcome :=
  ⟨if option.flag.isSome then 0 else option.val, 0, value, some i,
    option.flag.map fun flag => (flag, option.val), taken, 0⟩

section

variable (hplace : place.remaining = arg :: rest) (hlong : [45, 45].isPrefixOf arg = true)
  (harg : ¬IsOperand arg) (hne : arg ≠ [45, 45])

include hplace hlong harg hne

/-- A call that finds an argument such as `--name=value` reports an error, or what is expected. -/
theorem does_long : ∃ o, Does place 0 (some o) ∧ o.index = 0 ∧
    (o.result = 63 ∧ ¬options.LongOk (arg.drop 2) rest.head? ∨
      options.long (arg.drop 2) rest.head? =
          (.option o.result o.optarg o.longOptionIndex o.store, decide (o.consumedArgs = 2)) ∧
        (o.consumedArgs = 1 ∨ o.consumedArgs = 2) ∧
        (options.LongOk (arg.drop 2) rest.head? ↔ o.result ≠ 63 ∧ o.result ≠ -1)) := by
  have hlookup := lookupLongOptionFrom_eq (arg.drop 2) options.longOptions 0 none
  have hfirst := place.getElem_argIndex 0 0 none 0
  have hsecond := place.getElem_argIndex 0 0 none 1
  rw [hplace] at hfirst hsecond
  rw [Nat.add_zero, getElem?_cons_zero] at hfirst
  have hdoes (o : Outcome) (hconsumed : o.consumedArgs ≤ rest.length + 1)
      (h : (place.state 0 0 none).handleLongOption options place.argIndex = some (o.handled place)) :
      Does place 0 (some o) := by
    refine does_of_handled hplace harg hne ?_ (by simpa using hconsumed)
    rw [handleOption, if_pos hlong, h]
    rfl
  unfold handleLongOption at hdoes
  simp only [hlong, hfirst, hsecond, bind_eq_bind, bind_some, not_true, if_false] at hdoes
  unfold Options.long Options.LongOk Options.lookupLong
  cases hfind : options.longOptions.zipIdx.find? fun entry => entry.1.Matches (arg.drop 2) with
  | none =>
    simp only [hfind] at hlookup ⊢
    obtain ⟨i, hi⟩ : ∃ i, lookupLongOptionFrom (arg.drop 2) options.longOptions 0 none = (none, i) :=
      ⟨_, Prod.ext hlookup rfl⟩
    simp only [hi] at hdoes
    exact ⟨⟨63, 0, none, i, none, 0, 0⟩, hdoes _ (Nat.zero_le _) rfl, rfl, .inl ⟨rfl, id⟩⟩
  | some entry =>
    obtain ⟨option, i⟩ := entry
    simp only [hfind] at hlookup ⊢
    simp only [hlookup] at hdoes
    have hresult : (option.flag = none → option.val ≠ 63 ∧ option.val ≠ -1) ↔
        (if option.flag.isSome then 0 else option.val) ≠ 63 ∧
          (if option.flag.isSome then 0 else option.val) ≠ -1 := by
      cases option.flag <;> simp
    cases hhasArg : option.hasArg with
    | noArgument =>
      simp only [hhasArg] at hdoes
      cases hvalue : option.valueIn (arg.drop 2) with
      | some value =>
        simp only [hvalue] at hdoes
        exact ⟨⟨63, 0, some value, some i, none, 0, 0⟩, hdoes _ (Nat.zero_le _) rfl, rfl, .inl (by simp)⟩
      | none =>
        simp only [hvalue] at hdoes
        exact ⟨longOutcome option i none 1, hdoes _ (by simp [longOutcome]) rfl, rfl,
          .inr (by simp [longOutcome, LongOption.report_eq, hresult])⟩
    | optionalArgument =>
      simp only [hhasArg] at hdoes
      exact ⟨longOutcome option i (option.valueIn (arg.drop 2)) 1, hdoes _ (by simp [longOutcome]) rfl, rfl,
        .inr (by simp [longOutcome, LongOption.report_eq, hresult])⟩
    | requiredArgument =>
      simp only [hhasArg] at hdoes
      cases hvalue : option.valueIn (arg.drop 2) with
      | some value =>
        simp only [hvalue] at hdoes
        exact ⟨longOutcome option i (some value) 1, hdoes _ (by simp [longOutcome]) rfl, rfl,
          .inr (by simp [longOutcome, LongOption.report_eq, hresult])⟩
      | none =>
        simp only [hvalue] at hdoes
        cases rest with
        | nil => exact ⟨⟨63, 0, none, some i, none, 0, 0⟩, hdoes _ (Nat.zero_le _) rfl, rfl, .inl (by simp)⟩
        | cons next rest =>
          exact ⟨longOutcome option i (some next) 2, hdoes _ (by simp [longOutcome]) rfl, rfl,
            .inr (by simp [longOutcome, LongOption.report_eq, hresult])⟩

/-- A long option is reported as expected iff it is handled as expected and the calls behind it do what is
expected of them. -/
theorem decides_long {tail : List Report} {R : Prop} {taken : ℕ}
    (htaken : taken = if (options.long (arg.drop 2) rest.head?).2 then 2 else 1)
    (hnext : Decides Q (place.advance taken) 0 tail R) :
    Decides Q place 0 ((options.long (arg.drop 2) rest.head?).1 :: tail)
      (options.LongOk (arg.drop 2) rest.head? ∧ R) := by
  obtain ⟨o, hdoes, hindex, ⟨herror, hok⟩ | ⟨heq, hconsumed, hok⟩⟩ := does_long hplace hlong harg hne
  · -- An error in a long option is found again and again.
    refine (decides_of_stuck (S := (· = 0)) (fun index hzero => Or.inr ?_) rfl).of_false fun h => hok h.1
    exact ⟨o, hzero ▸ hdoes, herror, hindex⟩
  · have htaken : taken = o.consumedArgs := by
      rw [htaken, heq]
      rcases hconsumed with h | h <;> simp [h]
    rw [hok, heq, and_assoc]
    exact hdoes.decides_option fun _ => by rwa [hindex, ← htaken]

end

/-! ## Whole command lines -/

/-- A call that finds no option, in a state in which `m_arg_index` is the index of the first argument that
remains. -/
theorem completes_end {taken : ℕ}
    (hfind : ∀ argIndex,
      findNextOptionFrom options.stopOnFirstNonOption place.remaining argIndex = (false, argIndex))
    (htaken : taken = if place.remaining.head? = some [45, 45] then 1 else 0)
    (hQ : Q ((place.advance taken).state index 0 none)) (optopt : UInt8) (optarg : Option CString) :
    Completes options Q (place.state index optopt optarg) [] := by
  have hlength : taken ≤ place.remaining.length := by
    cases hremaining : place.remaining with
    | nil => rw [htaken, hremaining]; decide
    | cons arg rest =>
      rw [htaken, length_cons]
      split <;> omega
  refine ⟨⟨-1, (place.advance taken).state index 0 none, none, none⟩, ?_, rfl, hQ⟩
  unfold getoptLong
  simp only [place.prepare_state, place.findNextOption_eq, hfind, place.pointerAt_argIndex,
    bind_eq_bind, bind_some]
  rw [if_pos (by decide), ← htaken]
  exact place.finish_eq _ _ _ _ _ _ hlength

theorem le_findNextOptionFrom (stop : Bool) (remaining : List CString) (argIndex : ℕ) :
    argIndex ≤ (findNextOptionFrom stop remaining argIndex).2 := by
  induction remaining generalizing argIndex with
  | nil => exact le_rfl
  | cons arg rest ih =>
    have hrest := ih (argIndex + 1)
    rw [findNextOptionFrom]
    split_ifs <;> first | exact le_rfl | omega

theorem handleOption_optind {argIndex : ℕ} {handled : Handled}
    (h : self.handleOption options arg argIndex = some handled) :
    handled.state.optind = self.optind := by
  unfold handleOption at h
  split_ifs at h
  · simp only [handleLongOption, bind_eq_bind, bind_eq_some_iff,
      ite_none_left_eq_some, Option.pure_def] at h
    grind [error, longOption]
  · simp only [handleShortOption, bind_eq_bind, bind_eq_some_iff,
      ite_none_left_eq_some, Option.pure_def] at h
    grind [error, shortOption]

/-- With a `+` in the option string, `-` is not an operand at which the options end. -/
theorem not_completes_dash (hplace : place.remaining = [45] :: rest)
    (hstop : options.stopOnFirstNonOption = true) (optopt : UInt8) (optarg : Option CString) :
    ¬Completes options Q (place.state index optopt optarg) [] := by
  rintro ⟨call, hcall, hresult, -⟩
  have hlater : place.argIndex < ((place.state index optopt optarg).prepare.findNextOption options).2 := by
    rw [place.prepare_state, place.findNextOption_eq, hstop, hplace, findNextOptionFrom,
      if_neg (by decide), if_pos rfl]
    exact le_findNextOptionFrom true rest (place.argIndex + 1)
  -- The options do not continue where they ended.
  have hfinish : ∀ handled : Handled,
      handled.state.optind = (place.state index optopt optarg).prepare.optind →
      finish options handled ((place.state index optopt optarg).prepare.findNextOption options).2 =
        none := by
    intro handled hoptind
    have hle : place.consumed.length + 1 ≤ place.argIndex := Nat.le_add_right _ _
    rw [place.prepare_state index optopt optarg, Place.state] at hoptind
    rw [finish]
    simp only [hstop, if_true, hoptind]
    rw [if_neg (by omega)]
    rfl
  obtain ⟨arg, -, hcall⟩ := bind_eq_some_iff.mp hcall
  split at hcall
  · cases (hfinish _ rfl).symm.trans hcall
  · obtain ⟨handled, hhandled, hcall⟩ := bind_eq_some_iff.mp hcall
    split at hcall
    next herror =>
      cases hcall
      rw [herror] at hresult
      cases hresult
    next => cases (hfinish handled (handleOption_optind hhandled)).symm.trans hcall

/-- The options of an argument are reported as expected iff they are handled as expected and the calls
behind them do what is expected of them. -/
theorem decides_argument {tail : List Report} {R : Prop} (hplace : place.remaining = arg :: rest)
    (harg : ¬IsOperand arg) (hne : arg ≠ [45, 45]) (htail : rest = [] → tail = [])
    (hnext : Decides Q (place.advance (options.taken arg rest)) 0 tail R) :
    Decides Q place 0 ((options.argument arg rest.head?).1 ++ tail)
      (options.ArgumentOk arg rest.head? ∧ R) := by
  have htaken : options.taken arg rest = if (options.argument arg rest.head?).2 then 2 else 1 := rfl
  by_cases hlong : [45, 45].isPrefixOf arg = true
  · rw [Options.argument, if_pos hlong] at htaken ⊢
    rw [Options.ArgumentOk, if_pos hlong]
    exact decides_long hplace hlong harg hne htaken hnext
  · rw [Options.argument, if_neg hlong] at htaken ⊢
    rw [Options.ArgumentOk, if_neg hlong]
    obtain ⟨hhead, hdash⟩ := not_or.mp harg
    cases arg with
    | nil => exact absurd (by decide) hhead
    | cons first letters =>
      have hfirst : first = 45 := by simpa using hhead
      subst hfirst
      have hletters : letters ≠ [] := fun heq => hdash (by rw [heq])
      exact decides_cluster hplace hlong harg htail hnext letters hletters htaken [] rfl rfl (Or.inl rfl)

/-- The calls do what is expected of the arguments that remain iff these are handled as expected. -/
theorem decides_commandLine (place : Place options)
    (hQ : ∀ state : Getopt,
      state.argv = place.program :: (place.consumed ++ (options.commandLine place.remaining).consumed ++
        (place.operands ++ (options.commandLine place.remaining).operands)) →
      state.optind = (place.consumed ++ (options.commandLine place.remaining).consumed).length + 1 →
      Q state) :
    Decides Q place 0 (options.commandLine place.remaining).reports
      (options.CommandLineOk place.remaining) := by
  -- An argument with options can take its value with it, so the induction is on the number of arguments.
  induction hlength : place.remaining.length using Nat.strong_induction_on generalizing place with
  | _ n ih =>
  subst hlength
  cases hplace : place.remaining with
  | nil =>
    refine fun _ _ => iff_of_true (completes_end (by simp [hplace, findNextOptionFrom]) rfl
      (hQ _ ?_ ?_) _ _) trivial
    all_goals simp [Place.state, Place.advance, hplace, Options.commandLine]
  | cons arg rest =>
    rw [hplace] at hQ ih
    rcases options.commandLine_cons arg rest with ⟨hoperand, hstop, hline, hok⟩ |
      ⟨hoperand, hstop, hline, hok⟩ | ⟨rfl, hline, hok⟩ | ⟨hoperand, hend, hline, hok⟩
    · -- The state is also the one behind the operand.
      let behind : Place options :=
        { place with
          operands := place.operands ++ [arg]
          remaining := rest
          isOperand := by simpa [or_imp, forall_and] using ⟨place.isOperand, hoperand⟩
          operands_eq := by simp [hstop] }
      have hstate (optopt : UInt8) (optarg : Option CString) :
          place.state 0 optopt optarg = behind.state 0 optopt optarg := by
        simp [Place.state, behind, hplace]
      rw [hline] at hQ ⊢
      rw [hok]
      intro optopt optarg
      rw [hstate]
      refine ih rest.length (by simp) behind (fun state hargv hoptind => hQ state ?_ hoptind) rfl optopt
        optarg
      rw [hargv]
      simp [behind, CommandLine.skip]
    · rw [hline] at hQ ⊢
      rw [hok]
      by_cases hdash : arg = [45]
      · subst hdash
        exact fun _ _ => iff_of_false (not_completes_dash hplace hstop _ _) (not_not.mpr rfl)
      · have hhead : arg.head? ≠ some 45 := hoperand.resolve_right hdash
        have hne : ¬place.remaining.head? = some [45, 45] := by
          rw [hplace]
          rintro heq
          cases heq
          exact hhead rfl
        refine fun _ _ => iff_of_true (completes_end (fun argIndex => ?_) (if_neg hne).symm
          (hQ _ ?_ ?_) _ _) hdash
        · rw [hplace, findNextOptionFrom, if_pos hhead, hstop, if_pos rfl]
        all_goals simp [Place.state, hplace]
    · rw [hline] at hQ ⊢
      refine fun _ _ => iff_of_true (completes_end (by simp [hplace, findNextOptionFrom])
        (by rw [hplace]) (hQ _ ?_ ?_) _ _) hok
      all_goals simp [Place.state, Place.advance, hplace]
    · rw [hline] at hQ ⊢
      rw [hok]
      refine decides_argument hplace hoperand hend ?_ ?_
      · rintro rfl
        rw [Options.taken]
        split <;> rfl
      · have hshorter : ((arg :: rest).drop (options.taken arg rest)).length < (arg :: rest).length := by
          rw [Options.taken, length_drop, length_cons]
          split <;> omega
        have hbehind : (place.advance (options.taken arg rest)).remaining =
            (arg :: rest).drop (options.taken arg rest) := by rw [Place.advance, hplace]
        rw [← hbehind] at hshorter ⊢
        refine ih _ hshorter _ (fun state hargv hoptind => hQ state ?_ ?_) rfl
        · rw [hargv, hbehind]
          simp [Place.advance, hplace, CommandLine.consume]
        · rw [hoptind, hbehind]
          simp [Place.advance, hplace, CommandLine.consume]

end Getopt

/-- The arguments are the options with their values, and the operands. -/
theorem Options.commandLine_perm (self : Options) (args : List CString) :
    ((self.commandLine args).consumed ++ (self.commandLine args).operands).Perm args := by
  induction hlength : args.length using Nat.strong_induction_on generalizing args with
  | _ n ih =>
  subst hlength
  cases args with
  | nil => exact List.Perm.refl []
  | cons arg rest =>
    rcases self.commandLine_cons arg rest with ⟨-, -, hline, -⟩ | ⟨-, -, hline, -⟩ | ⟨-, hline, -⟩ |
      ⟨-, -, hline, -⟩
    · rw [hline]
      have hrest := ih rest.length (by simp) rest rfl
      exact perm_middle.trans (hrest.cons arg)
    · rw [hline]
      exact List.Perm.refl _
    · rw [hline]
      exact List.Perm.refl _
    · have hshorter : ((arg :: rest).drop (self.taken arg rest)).length < (arg :: rest).length := by
        rw [taken, length_drop, length_cons]
        split <;> omega
      rw [hline, CommandLine.consume, append_assoc]
      have hrest := (ih _ hshorter _ rfl).append_left ((arg :: rest).take (self.taken arg rest))
      rwa [take_append_drop] at hrest

namespace Getopt

/-- The globals before the first call. -/
def initial (argv : List CString) : Getopt :=
  { argv := argv, optind := 1, optreset := false, optopt := 0, optarg := none,
    indexIntoMultioptionArgument := 0 }

/-- The calls of `getopt_long` report the options, the unknown ones and the incomplete ones, each once and
in the order of the command line, and then return `-1`. Without a `+` in the option string the arguments
are then permuted: the options and their values are before `optind`, the operands behind it. -/
def Correct (options : Options) (argv : List CString) : Prop :=
  Completes options
    (fun state => options.stopOnFirstNonOption = false →
      state.argv.Perm argv ∧
        state.argv.take state.optind = argv.take 1 ++ (options.commandLine argv.tail).consumed ∧
        state.argv.drop state.optind = (options.commandLine argv.tail).operands)
    (initial argv) (options.commandLine argv.tail).reports

/-- The calls do what is expected iff there is a program name and the arguments behind it are handled as
expected. -/
theorem correct_iff (options : Options) (argv : List CString) :
    Correct options argv ↔ argv ≠ [] ∧ options.CommandLineOk argv.tail := by
  cases argv with
  | nil =>
    refine iff_of_false (not_completes_of_stuck (S := (· = initial [])) ?_ rfl) fun hok => hok.1 rfl
    rintro state rfl call hcall
    cases hcall
  | cons program args =>
    let start : Place options := ⟨program, [], [], args, by simp, fun _ => rfl⟩
    have hstart := decides_commandLine start (Q := fun state => options.stopOnFirstNonOption = false →
      state.argv.Perm (program :: args) ∧
        state.argv.take state.optind = [program] ++ (options.commandLine args).consumed ∧
        state.argv.drop state.optind = (options.commandLine args).operands) ?_
    · exact (hstart 0 none).trans (by simp [start])
    · intro state hargv hoptind _
      rw [hargv, hoptind]
      simp only [start, nil_append]
      refine ⟨(options.commandLine_perm args).cons program, ?_, ?_⟩
      · rw [take_succ_cons, take_left]
        rfl
      · rw [drop_succ_cons, drop_left]

/-- An unknown option is reported again and again. A `-` where the options end with a `+` in the option
string, and a colon where two options need values, fail a `VERIFY`. -/
theorem unknown_option_repeats :
    (∀ reports : List Report, ∀ Q, ¬Completes ⟨[97], [], by decide, by decide⟩ Q
        (initial [[112], [45, 45, 120]]) reports) ∧
      (initial [[112], [45]]).getoptLong ⟨[43, 97], [], by decide, by decide⟩ = none ∧
      (initial [[112], [45, 58]]).getoptLong ⟨[97, 58, 98, 58], [], by decide, by decide⟩ = none ∧
      ¬Correct ⟨[97], [], by decide, by decide⟩ [[112], [45, 45, 120]] := by
  have hstuck : ∀ reports : List Report, ∀ Q, ¬Completes ⟨[97], [], by decide, by decide⟩ Q
      (initial [[112], [45, 45, 120]]) reports := by
    intro reports Q
    refine not_completes_of_stuck (S := (· = initial [[112], [45, 45, 120]])) ?_ rfl
    rintro state rfl call hcall
    cases hcall
    exact ⟨by decide, rfl⟩
  exact ⟨hstuck, rfl, rfl, hstuck _ _⟩

end Getopt

end LibC
